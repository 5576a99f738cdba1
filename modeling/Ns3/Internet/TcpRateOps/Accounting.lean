import Ns3.Internet.TcpRateOps.Delivered

/-!
# The delivered bytes of a connection

A transmit buffer and the rate operations, driven as the socket drives them: the application adds
bytes, ranges are sent, SACK options and acknowledgements arrive.
-/

namespace Ns3

open SequenceNumber TcpTxBuffer TcpRateLinux List

/-- A transmit buffer with `TcpRateLinux`, and the number of bytes that were acknowledged. -/
structure RatedBuffer where
  buffer : TcpTxBuffer
  rateOps : TcpRateLinux := {}
  acked : Nat := 0

inductive RateEvent where
  | add (p : Packet)
  | send (now : Int) (numBytes : Nat) (seq : SequenceNumber32) (isStartOfTransmission : Bool)
  | sack (now : Int) (list : SackList)
  | ack (now : Int) (seq : SequenceNumber32)

namespace RatedBuffer

/-- What the events do. -/
def step (profile : BuildProfile) (u : RatedBuffer) : RateEvent → Option RatedBuffer
  | .add p => some { u with buffer := (u.buffer.add p).2 }
  | .send now numBytes seq isStartOfTransmission => do
      let (item, buffer) ← u.buffer.copyFromSequence profile now numBytes seq
      match item with
      | none => return { u with buffer }
      | some item =>
        return { u with buffer, rateOps := u.rateOps.skbSent now item isStartOfTransmission }
  | .sack now list => do
      let (_, buffer, rateOps) ← u.buffer.updateWith (skbDelivered now) profile list u.rateOps
      return { u with buffer, rateOps }
  | .ack now seq => do
      let (buffer, rateOps) ← u.buffer.discardUpToWith (skbDelivered now) profile now seq u.rateOps
      return { buffer, rateOps, acked := u.acked + (u.buffer.size - buffer.size) }

/-- Each byte that was acknowledged or is marked as sacked is counted once. -/
def Books (u : RatedBuffer) : Prop :=
  u.rateOps.rate.delivered = u.acked + flagged TcpTxItem.sacked u.buffer.sentList
  deriving Decidable

end RatedBuffer

namespace TcpTxBuffer

variable {b b' : TcpTxBuffer} {seq : SequenceNumber32}

/-- The sequence number belongs to a sent item and is not its first one. -/
def Inside (b : TcpTxBuffer) (seq : SequenceNumber32) : Prop :=
  ∃ item ∈ b.sentList, ∃ m < item.size, 0 < m ∧ seq = item.startSeq.at m

instance (b : TcpTxBuffer) (seq : SequenceNumber32) : Decidable (b.Inside seq) :=
  inferInstanceAs (Decidable (∃ item ∈ b.sentList, ∃ m < item.size, _ ∧ _))

/-- The condition on an acknowledgement that advances: it ends with an item, it covers no byte that
was not sent, and the item behind it is not sacked. -/
def AcksItems (b : TcpTxBuffer) (seq : SequenceNumber32) : Prop :=
  ¬ b.Inside seq ∧ ((seq.sub b.firstByteSeq).toNat ≤ b.sentSize ∨ b.appList = []) ∧
    ∀ item ∈ (remaining (seq.sub b.firstByteSeq).toNat b.sentList).head?, item.sacked = false
  deriving Decidable

/-- The sent list up to a place that is not inside an item. -/
theorem exists_boundary {k : Nat} (starts : Starts b.firstByteSeq 0 b.sentList)
    (outside : ¬ b.Inside (b.firstByteSeq.at k)) (le : k ≤ total b.sentList) :
    ∃ front rest, b.sentList = front ++ rest ∧ total front = k := by
  rcases Nat.lt_or_eq_of_le le with less | rfl
  · obtain ⟨front, item, rest, offset, sent, position, inside⟩ :=
      exists_item (Nat.zero_le k) (by rwa [Nat.zero_add])
    refine ⟨front, item :: rest, sent, ?_⟩
    rcases Nat.eq_zero_or_pos offset with rfl | pos
    · omega
    · refine absurd ⟨item, by rw [sent]; simp, offset, inside, pos, ?_⟩ outside
      rw [sent] at starts
      have here := (starts_append.mp starts).2.1
      rw [here, at_at, ← position]
      rfl
  · exact ⟨b.sentList, [], (append_nil _).symm, rfl⟩

theorem remaining_append {front rest : PacketList} (positive : Positive rest) :
    remaining (total front) (front ++ rest) = rest := by
  induction front with
  | nil =>
    cases rest with
    | nil => rfl
    | cons item rest =>
      have pos := (positive_cons.mp positive).1
      rw [nil_append, total_nil, remaining, if_neg (by omega)]
  | cons item front ih =>
    rw [cons_append, total_cons, remaining, if_pos (Nat.le_add_right _ _),
      Nat.add_sub_cancel_left, ih]

end TcpTxBuffer

namespace RatedBuffer

variable {u u' : RatedBuffer} {now : Int} {n : Nat} {seq : SequenceNumber32}

/-- The condition on an event: bytes fit into half the sequence space, a range that is sent does
not begin inside a sent item, and an acknowledgement removes whole items. -/
def Reports (u : RatedBuffer) : RateEvent → Prop
  | .add p => (u.buffer.add p).2.size ≤ halfMaxValue 32
  | .send _ _ seq _ => ¬ u.buffer.Inside seq
  | .sack _ _ => True
  | .ack _ seq => u.buffer.firstByteSeq.ge seq = true ∨ u.buffer.AcksItems seq

instance (u : RatedBuffer) : (e : RateEvent) → Decidable (u.Reports e)
  | .add _ => inferInstanceAs (Decidable (_ ≤ _))
  | .send _ _ seq _ => inferInstanceAs (Decidable (¬ u.buffer.Inside seq))
  | .sack _ _ => instDecidableTrue
  | .ack _ seq => inferInstanceAs (Decidable (_ ∨ u.buffer.AcksItems seq))

/-- The invariant: whatever is not sacked will be counted. -/
structure Accounted (u : RatedBuffer) : Prop where
  reached : Reached u.buffer
  counted : Counted u.buffer
  nodes : Distinct (u.buffer.sentList.map TcpTxItem.node) u.buffer.nextNode
  tracks : u.rateOps.Tracks u.buffer.sentList
  books : u.Books

theorem Accounted.sack {list : SackList} (h : Accounted u)
    (run : u.step .debug (.sack now list) = some u') : Accounted u' := by
  simp only [step, bind_returns, pure_returns] at run
  obtain ⟨⟨bytes, b, r⟩, update, rfl⟩ := run
  have plain : u.buffer.update .debug list = some (bytes, b) := by
    rw [← updateWith_map (skbDelivered now) u.buffer list u.rateOps, update]
    rfl
  have called : u.buffer.call .debug (.update list) = some b := congrArg (Option.map Prod.snd) plain
  obtain ⟨reported, nextNode⟩ := updateWith_reported h.nodes.1 h.tracks update
  refine ⟨h.reached.call (c := .update list) trivial called,
    h.counted.call (c := .update list) trivial called, ?_, reported.tracks, ?_⟩
  · simp only
    rw [reported.nodes, nextNode]
    exact h.nodes
  · have counted := reported.counted
    have books := h.books
    unfold Books at books ⊢
    simp only
    omega

/-- An acknowledgement that removes whole items. -/
theorem Accounted.ack (h : Accounted u) (condition : u.Reports (.ack now seq))
    (run : u.step .debug (.ack now seq) = some u') : Accounted u' := by
  simp only [step, bind_returns, pure_returns] at run
  obtain ⟨⟨b, r⟩, discard, rfl⟩ := run
  have plain : u.buffer.call .debug (.discardUpTo now seq) = some b := by
    show u.buffer.discardUpTo .debug now seq = some b
    rw [← discardUpToWith_map (skbDelivered now) now u.buffer seq u.rateOps, discard]
    rfl
  have reached := h.reached.call (c := .discardUpTo now seq) trivial plain
  have counted := h.counted.call (c := .discardUpTo now seq) trivial plain
  have books := h.books
  unfold Books at books
  rw [discardUpToWith] at discard
  by_cases behind : u.buffer.firstByteSeq.ge seq = true
  · rw [if_pos behind] at discard
    cases discard
    refine ⟨reached, counted, h.nodes, h.tracks, ?_⟩
    simp only [Nat.sub_self, Nat.add_zero]
    exact books
  rw [if_neg behind] at discard
  obtain ⟨outside, sent, next⟩ := condition.resolve_left behind
  obtain ⟨⟨_, _, _, holds⟩, -⟩ := h.reached
  have sizes := holds.sentSize
  have positive := (positive_append.mp holds.positive).1
  generalize offset_ : (seq.sub u.buffer.firstByteSeq).toNat = offset at *
  have place : u.buffer.firstByteSeq.at offset = seq := by
    rw [← offset_]
    exact at_sub seq _
  obtain ⟨front, rest, list, aligned⟩ : ∃ front rest, u.buffer.sentList = front ++ rest ∧
      (total front = offset ∨ rest = [] ∧ u.buffer.appList = [] ∧ total front ≤ offset) := by
    by_cases le : offset ≤ total u.buffer.sentList
    · rw [← place] at outside
      obtain ⟨front, rest, list, here⟩ := exists_boundary holds.starts outside le
      exact ⟨front, rest, list, .inl here⟩
    · exact ⟨u.buffer.sentList, [], (append_nil _).symm,
        .inr ⟨rfl, sent.resolve_left (by omega), by omega⟩⟩
  simp only [bind_returns, pure_returns, Prod.mk.injEq] at discard
  obtain ⟨⟨b₁, r₁⟩, loop, b₂, settle, _, -, _, -, rfl, rfl⟩ := discard
  have left := discardLoopWith_left loop list aligned holds.size holds.size_lt positive h.nodes.1
    h.tracks
  rw [list] at positive next books
  have notSacked : ∀ item ∈ rest.head?, item.sacked = false := by
    rcases aligned with rfl | ⟨rfl, -, -⟩
    · rw [remaining_append (positive_append.mp positive).2] at next
      exact next
    · intro item mem
      cases mem
  have settled : b₂ = if b₁.size = 0 then { b₁ with firstByteSeq := seq } else b₁ := by
    refine settleHead_of_notSacked ?_ settle
    split
    · exact left.sent.symm ▸ notSacked
    · exact left.sent.symm ▸ notSacked
  generalize last : (if b₂.highestSack.2.le b₂.firstByteSeq = true then
    { b₂ with highestSack := (none, .ofNat 0) } else b₂) = b₃ at *
  obtain ⟨sentList, nextNode, size⟩ : b₃.sentList = rest ∧ b₃.nextNode = u.buffer.nextNode ∧
      b₃.size + total front = u.buffer.size := by
    rw [← last, settled]
    split <;> split <;> exact ⟨left.sent, left.nextNode, left.size⟩
  refine ⟨reached, counted, ?_, ?_, ?_⟩
  · show Distinct (b₃.sentList.map TcpTxItem.node) b₃.nextNode
    have distinct := h.nodes
    rw [list, map_append] at distinct
    rw [sentList, nextNode]
    exact distinct.suffix
  · show r₁.Tracks b₃.sentList
    rw [sentList]
    exact left.tracks
  · have counted := left.counted
    show r₁.rate.delivered = u.acked + (u.buffer.size - b₃.size) +
      flagged TcpTxItem.sacked b₃.sentList
    rw [sentList]
    omega

/-! ## Sending -/

section Send

variable {b : TcpTxBuffer} {r : TcpRateLinux} {x : TcpTxItem} {isStart : Bool}
variable {front old more others : PacketList} {item : TcpTxItem} {next next' : Nat}

theorem tracks_skbSent {list : PacketList} (nodup : (list.map TcpTxItem.node).Nodup)
    (sent : x ∈ list) (notSacked : x.sacked = false)
    (others : ∀ y ∈ list, y ≠ x → r.pending y.node = !y.sacked) :
    (skbSent now x isStart r).Tracks list := by
  intro y mem
  rw [(skbSent_spec now x isStart r).2]
  by_cases same : y = x
  · rw [same, beq_self_eq_true, notSacked]
    rfl
  · have ne : y.node ≠ x.node := fun eq => same (inj_on_of_nodup_map nodup mem sent eq)
    rw [beq_eq_false_iff_ne.mpr ne, Bool.false_or]
    exact others y mem same

theorem flagged_resent (oldFlags : ∀ y ∈ old, y.sacked = false)
    (newFlags : ∀ y ∈ x :: more, y.sacked = false) :
    flagged TcpTxItem.sacked (front ++ (x :: more ++ others)) =
      flagged TcpTxItem.sacked (front ++ (old ++ others)) := by
  simp only [flagged_append, flagged_eq_zero oldFlags, flagged_eq_zero newFlags]

end Send

/-- An item that is not sacked is sent again. -/
theorem Accounted.resend {front rest old more others : PacketList} {item x : TcpTxItem} {s : Nat}
    {out : Sent} {isStart : Bool} (h : Accounted u)
    (sent : u.buffer.sentList = front ++ item :: rest) (fresh : item.sacked = false)
    (resends : Resends u.buffer front item rest s out old more others)
    (stamp : x = { out.item with lastSent := now })
    (reached : Reached { out.buffer with sentList := out.front ++ x :: out.rest })
    (counted : Counted { out.buffer with sentList := out.front ++ x :: out.rest }) :
    Accounted { u with
      buffer := { out.buffer with sentList := out.front ++ x :: out.rest }
      rateOps := u.rateOps.skbSent now x isStart } := by
  have distinct := (resends.stamp stamp).distinct sent h.nodes
  obtain ⟨before, ⟨tail, rfl⟩, rfl, after, -, oldFlags, newFlags, -, -, -, nodes⟩ :=
    resends.stamp stamp
  have notSacked : ∀ y ∈ x :: more, y.sacked = false := fun y mem =>
    (newFlags y mem).1.trans fresh
  have tracks := h.tracks
  have books := h.books
  unfold Books at books
  rw [sent, before] at tracks books
  have list : out.front ++ x :: out.rest = out.front ++ (x :: more ++ others) := by
    rw [after]
    rfl
  refine ⟨reached, counted, ?_, ?_, ?_⟩
  · show Distinct ((out.front ++ x :: out.rest).map TcpTxItem.node) out.buffer.nextNode
    rw [list]
    exact distinct
  · show (skbSent now x isStart u.rateOps).Tracks (out.front ++ x :: out.rest)
    rw [list]
    refine tracks_skbSent distinct.1 (by simp) (notSacked x (mem_cons_self ..)) ?_
    intro y mem ne
    simp only [mem_append, mem_cons] at mem
    rcases mem with passed | (rfl | cut) | later
    · exact tracks y (mem_append_left _ passed)
    · exact absurd rfl ne
    · -- What is left of the item keeps its node.
      rcases nodes with ⟨single, -⟩ | ⟨pair, -⟩
      · have none_ : more = [] := map_eq_nil_iff.mp (List.cons.inj single).2
        rw [none_] at cut
        cases cut
      · have left : more.map TcpTxItem.node = [item.node] := (List.cons.inj pair).2
        have same : y.node = item.node := mem_singleton.mp (left ▸ List.mem_map_of_mem cut)
        have first := tracks item (by simp)
        rw [same, first, fresh, notSacked y (mem_cons_of_mem x cut)]
    · exact tracks y (mem_append_right _ (mem_append_right _ later))
  · show (skbSent now x isStart u.rateOps).rate.delivered =
      u.acked + flagged TcpTxItem.sacked (out.front ++ x :: out.rest)
    rw [(skbSent_spec now x isStart u.rateOps).1, list,
      flagged_resent (fun y mem => (oldFlags y mem).1.trans fresh) notSacked]
    exact books

/-- New data is sent. -/
theorem Accounted.sendNew {s : Nat} {out : Sent} {x : TcpTxItem} {isStart : Bool}
    (h : Accounted u) (run : u.buffer.getNewSegment .debug s = some out)
    (stamp : x = { out.item with lastSent := now })
    (reached : Reached { out.buffer with sentList := out.front ++ x :: out.rest })
    (counted : Counted { out.buffer with sentList := out.front ++ x :: out.rest }) :
    Accounted { u with
      buffer := { out.buffer with sentList := out.front ++ x :: out.rest }
      rateOps := u.rateOps.skbSent now x isStart } := by
  have clear : Clear out.item := (h.counted.exact.getNewSegment now run).2
  have notSacked : x.sacked = false := by
    rw [stamp]
    exact clear.1
  have node : x.node = out.item.node := by rw [stamp]
  simp only [getNewSegment, bind_returns, pure_returns] at run
  obtain ⟨p, picks, rfl⟩ := run
  have later := (getPacketFromList_reshape picks).2
  have distinct : Distinct ((u.buffer.sentList ++ [x]).map TcpTxItem.node) (p.nextNode + 1) := by
    rw [map_append, map_singleton, node]
    exact h.nodes.append later
  refine ⟨reached, counted, distinct, ?_, ?_⟩
  · refine tracks_skbSent distinct.1 (by simp) notSacked ?_
    intro y mem ne
    rcases mem_append.mp mem with sent | new
    · exact h.tracks y sent
    · exact absurd (mem_singleton.mp new) ne
  · have books := h.books
    show (skbSent now x isStart u.rateOps).rate.delivered =
      u.acked + flagged TcpTxItem.sacked (u.buffer.sentList ++ [x])
    rw [(skbSent_spec now x isStart u.rateOps).1, flagged_append, flagged_cons, share, notSacked]
    exact books

theorem Accounted.send {numBytes : Nat} {isStart : Bool} (h : Accounted u)
    (outside : ¬ u.buffer.Inside seq)
    (run : u.step .debug (.send now numBytes seq isStart) = some u') : Accounted u' := by
  obtain ⟨⟨item, b⟩, copy, done⟩ := bind_returns.mp run
  have plain : u.buffer.call .debug (.copyFromSequence now numBytes seq) = some b :=
    congrArg (Option.map Prod.snd) copy
  have reached := h.reached.call (c := .copyFromSequence now numBytes seq) trivial plain
  have counted := h.counted.call (c := .copyFromSequence now numBytes seq) trivial plain
  rcases copyFromSequence_cases copy with ⟨rfl, rfl⟩ |
    ⟨s, out, wanted, -, inside, handed, rfl, rfl⟩
  · cases done
    exact ⟨reached, counted, h.nodes, h.tracks, h.books⟩
  cases done
  obtain ⟨⟨_, _, _, holds⟩, near⟩ := h.reached
  have sizes := holds.sentSize
  have sentLe := holds.sentSize_le
  rcases copyFromSequence_any holds near copy with eq | ⟨k, rfl, le, less, -, -⟩
  · cases eq
  have sentEnd : u.buffer.firstByteSeq.add u.buffer.sentSize =
      u.buffer.firstByteSeq.at u.buffer.sentSize := add_eq_at _ _
  have blockEnd : (u.buffer.firstByteSeq.at k).add s = u.buffer.firstByteSeq.at (k + s : Nat) :=
    at_add _ _ _
  rw [sizeFromSequence_near near (by omega)] at inside
  rcases handOut_cases handed with ⟨within, again⟩ | ⟨-, new⟩
  · have notSacked := handOut_notSacked handed within
    rw [sentEnd, blockEnd, ge_at_nat (by omega) (by omega), decide_eq_true_eq] at within
    have positive := (positive_append.mp holds.positive).1
    have fits : total u.buffer.sentList ≤ halfMaxValue 32 := by omega
    obtain ⟨front, rest, sent, rfl⟩ := exists_boundary holds.starts outside (by omega)
    cases rest with
    | nil =>
      rw [sent, total_append, total_nil] at sizes
      omega
    | cons item rest =>
      have fresh : item.sacked = false :=
        (getTransmittedSegment_sacked again sent holds.starts positive fits wanted).symm.trans
          notSacked
      obtain ⟨old, more, others, resends⟩ :=
        getTransmittedSegment_resends again sent holds.starts positive fits wanted fresh
      exact h.resend sent fresh resends rfl reached counted
  · exact h.sendNew new rfl reached counted

/-! ## Runs -/

theorem Accounted.add (h : Accounted u) (p : Packet)
    (near : (u.buffer.add p).2.size ≤ halfMaxValue 32) :
    Accounted { u with buffer := (u.buffer.add p).2 } := by
  have called : u.buffer.call .debug (.add p) = some (u.buffer.add p).2 := rfl
  have list : (u.buffer.add p).2.sentList = u.buffer.sentList ∧
      u.buffer.nextNode ≤ (u.buffer.add p).2.nextNode := by
    rw [TcpTxBuffer.add]
    split
    · split
      · exact ⟨rfl, Nat.le_succ _⟩
      · exact ⟨rfl, le_rfl⟩
    · exact ⟨rfl, le_rfl⟩
  refine ⟨h.reached.call (c := .add p) near called, h.counted.call (c := .add p) trivial called,
    ⟨?_, ?_⟩, ?_, ?_⟩
  · simp only [list.1]
    exact h.nodes.1
  · simp only [list.1]
    exact fun node mem => Nat.lt_of_lt_of_le (h.nodes.2 node mem) list.2
  · simp only [list.1]
    exact h.tracks
  · unfold Books
    simp only [list.1]
    exact h.books

theorem Accounted.step {e : RateEvent} (h : Accounted u) (reports : u.Reports e)
    (run : u.step .debug e = some u') : Accounted u' := by
  cases e with
  | add p =>
    cases run
    exact h.add p reports
  | send now numBytes seq isStart => exact h.send reports run
  | sack now list => exact h.sack run
  | ack now seq => exact h.ack reports run

/-- A connection before anything is sent. -/
def start (seq : SequenceNumber32) (maxBuffer dupAckThresh segmentSize : Nat)
    (sackEnabled : Bool) : RatedBuffer :=
  { buffer := TcpTxBuffer.start seq maxBuffer dupAckThresh segmentSize sackEnabled }

theorem Accounted.start (seq : SequenceNumber32) {maxBuffer : Nat} (fits : maxBuffer < 2 ^ 32)
    (dupAckThresh segmentSize : Nat) (sackEnabled : Bool) :
    Accounted (start seq maxBuffer dupAckThresh segmentSize sackEnabled) where
  reached := Reached.start seq fits dupAckThresh segmentSize sackEnabled
  counted := Counted.start seq fits dupAckThresh segmentSize sackEnabled
  nodes := ⟨nodup_nil, nofun⟩
  tracks := nofun
  books := rfl

/-- In a run whose events all meet the condition, the count is exact in every state. -/
theorem delivered_exact (seq : SequenceNumber32) {maxBuffer : Nat} (fits : maxBuffer < 2 ^ 32)
    (dupAckThresh segmentSize : Nat) (sackEnabled : Bool) {events : List RateEvent}
    (reports : Run.Meets (step .debug) Reports
      (start seq maxBuffer dupAckThresh segmentSize sackEnabled) events) :
    Run.Always (step .debug) Books
      (start seq maxBuffer dupAckThresh segmentSize sackEnabled) events :=
  Run.Always.of_invariant (Accounted.start seq fits dupAckThresh segmentSize sackEnabled) reports
    (fun _ h => h.books) (fun _ _ _ h condition run => h.step condition run)

/-- Three segments, of which the second one is sacked, the first one sent again in two parts from
its begin, and all of them acknowledged. -/
theorem delivered_exact_resent :
    Run.Always (step .debug) Books (start (.ofNat 1) 20 3 4 true)
      [.add [1, 2, 3, 4, 5, 6, 7, 8, 9, 10], .send 0 4 (.ofNat 1) true, .send 0 4 (.ofNat 5) false,
        .send 0 2 (.ofNat 9) false, .sack 1 [(.ofNat 5, .ofNat 9)], .send 1 2 (.ofNat 1) false,
        .ack 2 (.ofNat 3), .send 2 2 (.ofNat 3) false, .ack 3 (.ofNat 11)] :=
  delivered_exact (.ofNat 1) (by decide) 3 4 true (by decide +kernel)

/-- The count is wrong after these events. -/
def Miscounts (events : List RateEvent) : Prop :=
  ∃ u, Run.exec (step .debug) (start (.ofNat 1) 20 3 4 true) events = some u ∧ ¬ u.Books

theorem miscounts_of_any {events : List RateEvent}
    (any : (Run.exec (step .debug) (start (.ofNat 1) 20 3 4 true) events).any
      (fun u => decide (¬ u.Books)) = true) : Miscounts events := by
  obtain ⟨u, run, wrong⟩ := (Option.any_eq_true _ _).mp any
  exact ⟨u, run, of_decide_eq_true wrong⟩

/-- An acknowledgement inside a segment; a range sent again from inside a segment, whose first part
loses its rate information; and an acknowledgement up to a sacked segment, whose mark moves to a
segment that is not reported. -/
theorem delivered_miscounts :
    Miscounts [.add [1, 2, 3, 4], .send 0 4 (.ofNat 1) true, .ack 1 (.ofNat 3)] ∧
      Miscounts [.add [1, 2, 3, 4], .send 0 4 (.ofNat 1) true, .send 1 2 (.ofNat 3) false,
        .ack 2 (.ofNat 5)] ∧
      Miscounts [.add [1, 2, 3, 4, 5, 6, 7, 8], .send 0 2 (.ofNat 1) true,
        .send 0 2 (.ofNat 3) false, .send 0 4 (.ofNat 5) false, .sack 1 [(.ofNat 3, .ofNat 5)],
        .ack 2 (.ofNat 3)] :=
  ⟨miscounts_of_any (by decide), miscounts_of_any (by decide +kernel),
    miscounts_of_any (by decide +kernel)⟩

end RatedBuffer

end Ns3
