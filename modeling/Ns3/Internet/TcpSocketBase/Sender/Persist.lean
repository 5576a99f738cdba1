import Ns3.Internet.TcpSocketBase.Sender.Basic
import Ns3.Internet.TcpTxBuffer.Retransmit
import Ns3.Internet.TcpTxBuffer.WellFormed

/-!
# The zero-window probe

`PersistTimeout` takes one byte out of the transmit buffer by `CopyFromSequence`, and puts the
last segment sent back. That is the byte it has taken only if the byte was new, and there is
a byte only if there is unsent data.
-/

namespace Ns3

namespace TcpTxBuffer

open SequenceNumber List Option

variable {profile : BuildProfile} {initial : SequenceNumber32} {stream : List Byte}
variable {consumed : Nat} {b : TcpTxBuffer} {item : TcpTxItem} {rest : PacketList}

/-- The first byte of a list, cut off its first item. -/
def firstByte (item : TcpTxItem) (rest : PacketList) (retrans nextNode : Nat) : Picked :=
  if item.size = 1 then { front := [], item, rest, retrans, nextNode }
  else
    { front := []
      item := { item with packet := item.packet.take 1, node := nextNode }
      rest := { item with packet := item.packet.drop 1, startSeq := item.startSeq.add 1 } :: rest
      retrans
      nextNode := nextNode + 1 }

theorem getPacketFromList_firstByte (start : SequenceNumber32) (calls retrans nextNode : Nat)
    (pos : 0 < item.size) (near : item.size ≤ halfMaxValue 32) :
    getPacketFromList profile none start 1 start (calls + 1) (item :: rest) retrans nextNode =
      some (firstByte item rest retrans nextNode) := by
  have half := halfMaxValue_32
  have origin : start.at (0 : Nat) = start := at_zero start
  have itemEnd : start.add item.size = start.at item.size := add_eq_at _ _
  have isLt : start.lt (start.add item.size) = true := by
    rw [itemEnd, ← origin, at_at]
    have : (start.at (0 : Nat)).lt (start.at item.size) = decide (0 < item.size) :=
      lt_at_nat (by omega) (by omega)
    simpa using this.trans (decide_eq_true pos)
  have isLe : (start.add 1).le (start.add item.size) = true := by
    have : (start.at (1 : Nat)).le (start.at item.size) = decide (1 ≤ item.size) :=
      le_at_nat (by omega) (by omega)
    exact this.trans (decide_eq_true pos)
  have found : findSeq profile none start (item :: rest) start = some (.begins [] item rest) := by
    rw [findSeq, all_none, nsAssert_true, bind_eq_bind, bind_some,
      if_pos isLt, if_pos rfl]
    rfl
  rw [getPacketFromList, found, bind_eq_bind, bind_some]
  simp only [isLe, if_true, firstByte]
  by_cases one : item.size = 1
  · rw [if_pos one.symm, if_pos one]
    rfl
  · rw [if_neg (Ne.symm one), if_neg one, if_pos (by omega), split_eq (by omega) (by omega)]
    rfl

theorem firstByte_size (retrans nextNode : Nat) (pos : 0 < item.size) :
    (firstByte item rest retrans nextNode).item.size = 1 := by
  rw [firstByte]
  split
  · assumption
  · show (item.packet.take 1).length = 1
    rw [length_take]
    exact Nat.min_eq_left pos

theorem firstByte_retrans (retrans nextNode : Nat) :
    (firstByte item rest retrans nextNode).item.retrans = item.retrans := by
  rw [firstByte]
  split
  · rfl
  · rfl

theorem firstByte_count (retrans nextNode : Nat) :
    (firstByte item rest retrans nextNode).retrans = retrans := by
  rw [firstByte]
  split
  · rfl
  · rfl

theorem firstByte_front (retrans nextNode : Nat) :
    (firstByte item rest retrans nextNode).front = [] := by
  rw [firstByte]
  split
  · rfl
  · rfl

/-- What `GetNewSegment` hands out for one byte, when `item` is the first one that was not
sent yet. -/
def newProbe (b : TcpTxBuffer) (item : TcpTxItem) (rest : PacketList) : Sent :=
  let picked := firstByte item rest b.retrans b.nextNode
  { buffer := { b with
      appList := picked.rest
      sentSize := UInt32.add b.sentSize 1
      retrans := picked.retrans
      nextNode := picked.nextNode + 1 }
    front := b.sentList
    item := { picked.item with
      startSeq := b.firstByteSeq.add b.sentSize, node := picked.nextNode }
    rest := [] }

/-- The probe, as an item of the sent list. -/
def probe (b : TcpTxBuffer) (now : Int) (item : TcpTxItem) (rest : PacketList) : TcpTxItem :=
  { (b.newProbe item rest).item with lastSent := now }

/-- The buffer after the first byte of new data was handed out. -/
def afterProbe (b : TcpTxBuffer) (now : Int) (item : TcpTxItem) (rest : PacketList) :
    TcpTxBuffer :=
  { (b.newProbe item rest).buffer with sentList := b.sentList ++ [b.probe now item rest] }

/-- `CopyFromSequence` of the first new byte. -/
theorem copyFromSequence_firstByte (profile : BuildProfile) (h : Holds initial stream consumed b)
    (near : b.size ≤ halfMaxValue 32) (app : b.appList = item :: rest) (now : Int) :
    b.copyFromSequence profile now 1 (b.firstByteSeq.add b.sentSize) =
      (nsAssert profile (!item.retrans)).bind fun _ =>
        some (some (b.probe now item rest), b.afterProbe now item rest) := by
  have pos : 0 < item.size := h.positive item (by simp [app])
  have left : b.sentSize + item.size ≤ b.size := by
    have size := h.size
    rw [total_append, app, total_cons, ← h.sentSize] at size
    omega
  have here : b.firstByteSeq.add b.sentSize = b.firstByteSeq.at b.sentSize := add_eq_at _ _
  have oneByte : min 1 (b.sizeFromSequence (b.firstByteSeq.add b.sentSize)) = 1 := by
    rw [here, sizeFromSequence_of_room (Room.of_le (by omega)) h.size_lt h.sentSize_le]
    omega
  have byteEnd : (b.firstByteSeq.at b.sentSize).add 1 = b.firstByteSeq.at (b.sentSize + 1 : Nat) :=
    at_add _ _ _
  have notSent : (b.firstByteSeq.add b.sentSize).ge
      ((b.firstByteSeq.add b.sentSize).add 1) = false := by
    rw [here, byteEnd, ge_at_nat (by omega) (by omega), decide_eq_false_iff_not]
    omega
  have isNew : (b.firstByteSeq.add b.sentSize).le (b.firstByteSeq.add b.sentSize) = true := by
    rw [here, le_at_nat (by omega) (by omega), decide_eq_true_eq]
  have notBehind : b.firstByteSeq.gt (b.firstByteSeq.add b.sentSize) = false := by
    exact head_not_gt (by have := h.sentSize_le; omega)
  have ahead : (b.firstByteSeq.add b.sentSize).ge b.firstByteSeq = true := by
    have origin : b.firstByteSeq.at (0 : Nat) = b.firstByteSeq := at_zero _
    have later := (Room.of_le (show b.sentSize ≤ 0 + halfMaxValue 32 by
      have := h.sentSize_le; omega) : Room b.firstByteSeq 0 b.sentSize).ge_later (Nat.zero_le _)
    rwa [origin, ← here] at later
  have taken : getPacketFromList profile none (b.firstByteSeq.add b.sentSize) 1
      (b.firstByteSeq.add b.sentSize) (b.appList.length + 1 + 1) (item :: rest) b.retrans
      b.nextNode = some (firstByte item rest b.retrans b.nextNode) :=
    getPacketFromList_firstByte _ _ _ _ pos (by omega)
  have new : b.getNewSegment profile 1 = some (b.newProbe item rest) := by
    have size : (firstByte item rest b.retrans b.nextNode).item.size = 1 := firstByte_size _ _ pos
    have length : b.appList.length + 2 = b.appList.length + 1 + 1 := rfl
    have front : (firstByte item rest b.retrans b.nextNode).front = [] := firstByte_front _ _
    rw [← app] at taken
    rw [getNewSegment, length, taken, bind_eq_bind, bind_some, front,
      nil_append]
    simp only [TcpTxItem.size] at size ⊢
    rw [size]
    rfl
  have handed : b.handOut profile 1 (b.firstByteSeq.add b.sentSize) =
      (nsAssert profile (!item.retrans)).bind fun _ => some (some (b.newProbe item rest)) := by
    rw [handOut, notSent, if_neg Bool.false_ne_true, if_pos isNew, bne_self_eq_false, new]
    cases hr : item.retrans with
    | true => simp [newProbe, firstByte_retrans, hr, nsAbortIf]
    | false => simp [newProbe, firstByte_retrans, hr, nsAbortIf]
  rw [copyFromSequence, copyFromSequenceWithin, notBehind]
  simp only [oneByte]
  have placed : { (b.newProbe item rest).item with lastSent := now }.startSeq.ge
      b.firstByteSeq = true := ahead
  rw [if_neg Nat.one_ne_zero, handed]
  cases nsAssert profile (!item.retrans) with
  | none => rfl
  | some _ =>
    simp only [bind_some, bind_eq_bind, nsAbortIf, placed, nsAssert_true]
    rfl

/-- Handing out a block that was sent completely leaves the size of the sent list. -/
theorem copyFromSequence_sent_sentSize {n : Nat} {seq : SequenceNumber32} {now : Int}
    {r : Option TcpTxItem × TcpTxBuffer}
    (run : b.copyFromSequence profile now n seq = some r)
    (sent : (b.firstByteSeq.add b.sentSize).ge (seq.add (min n (b.sizeFromSequence seq))) = true) :
    r.2.sentSize = b.sentSize := by
  obtain ⟨_, -, run⟩ := bind_returns.mp run
  by_cases nothing : min n (b.sizeFromSequence seq) = 0
  · rw [if_pos nothing] at run
    cases run
    rfl
  · rw [if_neg nothing] at run
    obtain ⟨out, handed, run⟩ := bind_returns.mp run
    rw [handOut, if_pos sent] at handed
    obtain ⟨sentOut, got, handed⟩ := bind_returns.mp handed
    obtain ⟨_, -, handed⟩ := bind_returns.mp handed
    cases handed
    obtain ⟨_, -, run⟩ := bind_returns.mp run
    cases run
    obtain ⟨_, -, got⟩ := bind_returns.mp got
    obtain ⟨_, -, got⟩ := bind_returns.mp got
    obtain ⟨_, -, got⟩ := bind_returns.mp got
    obtain ⟨picked, -, got⟩ := bind_returns.mp got
    cases got
    rfl

/-- Putting the probe back restores the sent list, unless the byte was marked as sent again. -/
theorem afterProbe_resetLastSegmentSent (fits : b.sentSize < 2 ^ 32) (pos : 0 < item.size)
    (now : Int) (rest : PacketList) :
    (b.afterProbe now item rest).resetLastSegmentSent.sentList = b.sentList ∧
      (b.afterProbe now item rest).resetLastSegmentSent.sentSize = b.sentSize ∧
      (b.afterProbe now item rest).resetLastSegmentSent.retrans =
        (if item.retrans then UInt32.sub b.retrans 1 else b.retrans) ∧
      (b.afterProbe now item rest).resetLastSegmentSent.lostOut = b.lostOut ∧
      (b.afterProbe now item rest).resetLastSegmentSent.sackedOut = b.sackedOut ∧
      (b.afterProbe now item rest).resetLastSegmentSent.highestSack = b.highestSack := by
  have size : (b.probe now item rest).size = 1 := firstByte_size b.retrans b.nextNode pos
  have marked : (b.probe now item rest).retrans = item.retrans := firstByte_retrans _ _
  have count : (b.newProbe item rest).buffer.retrans = b.retrans := firstByte_count _ _
  have last : (b.afterProbe now item rest).sentList.getLast? = some (b.probe now item rest) :=
    getLast?_concat
  have back : UInt32.sub (UInt32.add b.sentSize 1) 1 = b.sentSize := by
    unfold UInt32.sub UInt32.add
    omega
  rw [resetLastSegmentSent, last]
  simp only [size, marked]
  refine ⟨dropLast_concat, back, ?_, rfl, rfl, rfl⟩
  show (if item.retrans then UInt32.sub (b.newProbe item rest).buffer.retrans 1
    else (b.newProbe item rest).buffer.retrans) = _
  rw [count]

end TcpTxBuffer

namespace TcpSocketBase.Sender

open SequenceNumber

variable {σ ρ : Type}

/-- `PersistTimeout` up to the transmission: the packet of the probe. The item must exist: it
is dereferenced. -/
def persistTimeout (profile : BuildProfile) (s : Sender σ ρ) : Option (Packet × Sender σ ρ) := do
  let (outItem, txBuffer) ← s.txBuffer.copyFromSequence profile s.around.now 1
    s.tcb.nextTxSequence
  let item ← outItem
  return (item.packet, { s with txBuffer := txBuffer.resetLastSegmentSent })

/-- There is something to probe with, and the probe leaves no trace on the sent list and its
counters. -/
def Probes (profile : BuildProfile) (s : Sender σ ρ) : Prop :=
  ∃ packet t, s.persistTimeout profile = some (packet, t) ∧
    t.txBuffer.sentList = s.txBuffer.sentList ∧ t.txBuffer.sentSize = s.txBuffer.sentSize ∧
    t.txBuffer.lostOut = s.txBuffer.lostOut ∧ t.txBuffer.sackedOut = s.txBuffer.sackedOut ∧
    t.txBuffer.retrans = s.txBuffer.retrans ∧ t.txBuffer.highestSack = s.txBuffer.highestSack

/-- The next byte to send is the first one behind the sent list, and it is there. It does not
carry the mark of a segment that was put back. -/
def HasProbe (s : Sender σ ρ) : Prop :=
  s.tcb.nextTxSequence = s.txBuffer.firstByteSeq.add s.txBuffer.sentSize ∧
    s.txBuffer.appList.head?.any (fun item => !item.retrans) = true
  deriving Decidable

variable {profile : BuildProfile} {s : Sender σ ρ}

/-- What a probe leaves is what putting the last segment back leaves. -/
theorem probes_iff : Probes profile s ↔ ∃ item b,
    s.txBuffer.copyFromSequence profile s.around.now 1 s.tcb.nextTxSequence =
      some (some item, b) ∧
    b.resetLastSegmentSent.sentList = s.txBuffer.sentList ∧
    b.resetLastSegmentSent.sentSize = s.txBuffer.sentSize ∧
    b.resetLastSegmentSent.lostOut = s.txBuffer.lostOut ∧
    b.resetLastSegmentSent.sackedOut = s.txBuffer.sackedOut ∧
    b.resetLastSegmentSent.retrans = s.txBuffer.retrans ∧
    b.resetLastSegmentSent.highestSack = s.txBuffer.highestSack := by
  constructor
  · rintro ⟨packet, t, probed, same⟩
    obtain ⟨⟨outItem, b⟩, copy, probed⟩ := bind_returns.mp probed
    obtain ⟨item, rfl, probed⟩ := bind_returns.mp probed
    cases probed
    exact ⟨item, b, copy, same⟩
  · rintro ⟨item, b, copy, same⟩
    refine ⟨item.packet, { s with txBuffer := b.resetLastSegmentSent }, ?_, same⟩
    rw [persistTimeout, copy]
    rfl

theorem HasProbe.probes (reached : TcpTxBuffer.Reached s.txBuffer) (has : s.HasProbe) :
    Probes profile s := by
  obtain ⟨⟨_, _, _, h⟩, near⟩ := reached
  obtain ⟨next, first⟩ := has
  cases app : s.txBuffer.appList with
  | nil =>
    rw [app] at first
    cases first
  | cons item rest =>
    have fresh : item.retrans = false := by simpa [app] using first
    have pos : 0 < item.size := h.positive item (by simp [app])
    have sentLt : s.txBuffer.sentSize < 2 ^ 32 := lt_of_le_of_lt h.sentSize_le h.size_lt
    have restored := TcpTxBuffer.afterProbe_resetLastSegmentSent sentLt pos
      s.around.now rest
    rw [fresh, if_neg Bool.false_ne_true] at restored
    have copy := TcpTxBuffer.copyFromSequence_firstByte profile h near app s.around.now
    rw [fresh, Bool.not_false, nsAssert_true, Option.bind_some, ← next] at copy
    rw [probes_iff]
    exact ⟨_, _, copy, restored.1, restored.2.1, restored.2.2.2.1, restored.2.2.2.2.1,
      restored.2.2.1, restored.2.2.2.2.2⟩

/-- A probe from inside the sent list leaves the list shorter. -/
theorem not_probes_of_sent {initial : SequenceNumber32} {stream : List Byte} {consumed k : Nat}
    (h : TcpTxBuffer.Holds initial stream consumed s.txBuffer)
    (near : s.txBuffer.size ≤ halfMaxValue 32) (inside : k < s.txBuffer.sentSize)
    (next : s.tcb.nextTxSequence = s.txBuffer.firstByteSeq.at k) : ¬ Probes profile s := by
  have sentLe := h.sentSize_le
  rw [probes_iff]
  rintro ⟨item, b, copy, -, sentSize, -⟩
  have room : Room s.txBuffer.firstByteSeq k s.txBuffer.size := Room.of_le (by omega)
  have copied : TcpTxBuffer.CopiedAt initial stream consumed s.txBuffer k 1 (some item, b) := by
    rw [next] at copy
    exact (TcpTxBuffer.copyFromSequenceWithin_contract h s.around.now 0 Nat.one_pos inside.le
      (by omega) (by omega) room).of_eq_some copy
  have same : b.sentSize = s.txBuffer.sentSize := by
    refine TcpTxBuffer.copyFromSequence_sent_sentSize copy ?_
    have sentEnd : s.txBuffer.firstByteSeq.add s.txBuffer.sentSize =
        s.txBuffer.firstByteSeq.at s.txBuffer.sentSize := add_eq_at _ _
    have byteEnd : (s.txBuffer.firstByteSeq.at k).add 1 =
        s.txBuffer.firstByteSeq.at (k + 1 : Nat) := at_add _ _ _
    rw [next, TcpTxBuffer.sizeFromSequence_of_room room h.size_lt (by omega),
      Nat.min_eq_left (by omega), sentEnd, byteEnd, ge_at_nat (by omega) (by omega),
      decide_eq_true_eq]
    exact inside
  have some_ : b.sentList ≠ [] := (copied.item item rfl).2.2.2.2
  have pos : 0 < (b.sentList.getLast some_).size :=
    copied.holds.positive _ (List.mem_append_left _ (List.getLast_mem some_))
  have lastLe : (b.sentList.getLast some_).size ≤ b.sentSize := by
    rw [copied.holds.sentSize]
    conv_rhs => rw [← List.dropLast_append_getLast some_]
    rw [TcpTxBuffer.total_append, TcpTxBuffer.total_cons]
    omega
  have fits : b.sentSize < 2 ^ 32 := lt_of_le_of_lt copied.holds.sentSize_le copied.holds.size_lt
  rw [TcpTxBuffer.resetLastSegmentSent, List.getLast?_eq_some_getLast some_] at sentSize
  have shorter : UInt32.sub b.sentSize (b.sentList.getLast some_).size = s.txBuffer.sentSize :=
    sentSize
  rw [UInt32.sub_of_le lastLe fits, same] at shorter
  omega

theorem Probes.hasProbe (reached : TcpTxBuffer.Reached s.txBuffer) (probes : Probes profile s) :
    s.HasProbe := by
  obtain ⟨⟨_, _, _, h⟩, near⟩ := reached
  obtain ⟨item, b, copy, -, -, -, -, retrans, -⟩ := probes_iff.mp probes
  obtain null | ⟨k, next, le, left, -, -⟩ := TcpTxBuffer.copyFromSequence_any h near copy
  · exact absurd (Prod.mk.inj null).1 (Option.some_ne_none _)
  · rcases Nat.lt_or_ge k s.txBuffer.sentSize with inside | atEnd
    · exact absurd probes (not_probes_of_sent h near inside next)
    · obtain rfl : k = s.txBuffer.sentSize := by omega
      have here : s.tcb.nextTxSequence = s.txBuffer.firstByteSeq.add s.txBuffer.sentSize :=
        next.trans (add_eq_at _ _).symm
      refine ⟨here, ?_⟩
      cases app : s.txBuffer.appList with
      | nil =>
        have size := h.size
        rw [app, List.append_nil, ← h.sentSize] at size
        omega
      | cons first rest =>
        have pos : 0 < first.size := h.positive first (by simp [app])
        have sentLt : s.txBuffer.sentSize < 2 ^ 32 := lt_of_le_of_lt h.sentSize_le h.size_lt
        rw [here, TcpTxBuffer.copyFromSequence_firstByte profile h near app] at copy
        obtain ⟨_, -, copy⟩ := bind_returns.mp copy
        cases copy
        rw [(TcpTxBuffer.afterProbe_resetLastSegmentSent sentLt pos _ _).2.2.1] at retrans
        cases marked : first.retrans with
        | false => simp [marked]
        | true =>
          rw [if_pos marked] at retrans
          unfold UInt32.sub at retrans
          omega

/-- The persist timer has something to probe with, and leaves the buffer as it was, if and only
if the next byte to send is unsent data. -/
theorem persistTimeout_probes_iff {seq : SequenceNumber32} {maxBuffer : Nat}
    (dupAckThresh segmentSize : Nat) (sackEnabled : Bool) {calls : List TcpTxBuffer.Call}
    (maxFits : maxBuffer < 2 ^ 32)
    (fits : Run.Meets (TcpTxBuffer.call profile) TcpTxBuffer.Fits
      (TcpTxBuffer.start seq maxBuffer dupAckThresh segmentSize sackEnabled) calls)
    (run : Run.exec (TcpTxBuffer.call profile)
      (TcpTxBuffer.start seq maxBuffer dupAckThresh segmentSize sackEnabled) calls =
        some s.txBuffer) :
    Probes profile s ↔ s.HasProbe := by
  have reached : TcpTxBuffer.Reached s.txBuffer :=
    (TcpTxBuffer.Reached.start seq maxFits dupAckThresh segmentSize sackEnabled).run fits run
  exact ⟨fun probes => probes.hasProbe reached, fun has => has.probes reached⟩

/-- A socket with two segments sent and one byte left, which goes on at a given number. -/
def probing (nextTxSequence : Nat) : Option (Sender Unit Unit) :=
  (Run.exec (TcpTxBuffer.call .debug) (.start (.ofNat 1) 20 3 2 true)
    [.add [1, 2, 3, 4, 5], .copyFromSequence 0 2 (.ofNat 1),
      .copyFromSequence 0 2 (.ofNat 3)]).map fun txBuffer =>
    { congestionControl := (), recoveryOps := (), txBuffer
      tcb := { nextTxSequence := .ofNat nextTxSequence } }

theorem persistTimeout_probes_next : ∃ s, probing 5 = some s ∧ Probes .debug s := by
  have ran : (probing 5).any (fun s => s.HasProbe) = true := by decide
  obtain ⟨s, made, has⟩ := (Option.any_eq_true _ _).mp ran
  obtain ⟨txBuffer, run, same⟩ := Option.map_eq_some_iff.mp made
  have run : Run.exec (TcpTxBuffer.call .debug) (.start (.ofNat 1) 20 3 2 true)
      [.add [1, 2, 3, 4, 5], .copyFromSequence 0 2 (.ofNat 1),
        .copyFromSequence 0 2 (.ofNat 3)] = some s.txBuffer := by
    rw [run, ← same]
  exact ⟨s, made, (persistTimeout_probes_iff 3 2 true (by decide) (by decide) run).mpr
    (of_decide_eq_true has)⟩

/-- A socket in LISTEN, which has nothing to send. -/
def listening : Sender Unit Unit where
  congestionControl := ()
  recoveryOps := ()
  txBuffer := .start (.ofNat 0) 131072 3 536 true
  around := { state := .listen }

/-- A SYN with a window of 0 arms the timer of a listening socket, and the probe follows a null
pointer. After a retransmission the probe puts a segment back that was in flight. -/
theorem persistTimeout_without_probe :
    (listening.receivedSyn { windowSize := 0, flags := TcpHeader.SYN }).around.rWnd = 0 ∧
      (listening.receivedSyn { windowSize := 0, flags := TcpHeader.SYN }).persistTimeout
        .optimized = none ∧
      ((probing 1).bind fun s => (s.persistTimeout .debug).map fun r =>
        (s.txBuffer.sentSize, r.2.txBuffer.sentSize)) = some (4, 2) ∧
      ¬ Probes .optimized (listening.receivedSyn { windowSize := 0, flags := TcpHeader.SYN }) := by
  have null : (listening.receivedSyn
      { windowSize := 0, flags := TcpHeader.SYN }).persistTimeout .optimized = none := by
    decide
  refine ⟨by decide, null, by decide, ?_⟩
  rintro ⟨packet, t, probed, -⟩
  exact absurd (null.symm.trans probed) (Option.some_ne_none _).symm

end TcpSocketBase.Sender

end Ns3
