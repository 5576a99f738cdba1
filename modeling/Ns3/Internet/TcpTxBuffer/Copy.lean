import Ns3.Internet.TcpTxBuffer.Segments

/-!
# Handing out segments

`Holds` says that the two lists hold the bytes accepted from the application
from position `consumed` on. `CopyFromSequence` keeps it, and the item it hands
out is the piece of the stream at the requested position.

A call stops only at a failed assertion, or in a buffer so large that the order
of sequence numbers does not tell its head from its tail.
-/

namespace Ns3.TcpTxBuffer

open SequenceNumber

/-- The buffer holds the bytes of `stream` from `consumed` on, each item of the
sent list in its place, and the sizes are in step with the lists. -/
structure Holds (initial : SequenceNumber32) (stream : List Byte) (consumed : Nat)
    (b : TcpTxBuffer) : Prop where
  bytes : bytes (b.sentList ++ b.appList) = stream.drop consumed
  bound : consumed ≤ stream.length
  head : b.firstByteSeq = initial.at consumed
  starts : Starts b.firstByteSeq 0 b.sentList
  positive : Positive (b.sentList ++ b.appList)
  sentSize : b.sentSize = total b.sentList
  size : b.size = total (b.sentList ++ b.appList)
  room : b.size ≤ b.maxBuffer
  maxBuffer : b.maxBuffer < 2 ^ 32

/-- The buffered range does not cross the end of the sequence space. -/
def NoWrap (b : TcpTxBuffer) : Prop := b.firstByteSeq.value.toNat + b.size ≤ 2 ^ 32

/-- The only circumstances in which a call on a well-formed buffer stops. -/
def MayStop (profile : BuildProfile) (b : TcpTxBuffer) : Prop :=
  profile = .debug ∨ halfMaxValue 32 < b.size ∨ b.firstByteSeq.value.toNat + b.size = 2 ^ 32

/-- The block of `n` bytes at position `k` was sent only in part, and it reaches the end of
the sequence space. -/
def Crosses (b : TcpTxBuffer) (k n : Nat) : Prop :=
  k < b.sentSize ∧ b.sentSize < k + min n (b.size - k) ∧
    2 ^ 32 ≤ (b.firstByteSeq.at k).value.toNat + min n (b.size - k)

/-- An item that was handed out of a buffer `b` for `n` bytes at position `k`. -/
structure SentAt (b : TcpTxBuffer) (k n : Nat) (out : Sent) : Prop where
  bytes : bytes (out.front ++ out.item :: out.rest ++ out.buffer.appList) =
    TcpTxBuffer.bytes (b.sentList ++ b.appList)
  positive : Positive (out.front ++ out.item :: out.rest ++ out.buffer.appList)
  starts : Starts b.firstByteSeq 0 (out.front ++ out.item :: out.rest)
  position : total out.front = k
  bound : out.item.size ≤ n
  sentSize : out.buffer.sentSize = total (out.front ++ out.item :: out.rest)
  head : out.buffer.firstByteSeq = b.firstByteSeq
  size : out.buffer.size = b.size
  maxBuffer : out.buffer.maxBuffer = b.maxBuffer

section Copy

variable {profile : BuildProfile} {initial : SequenceNumber32} {stream : List Byte}
variable {consumed k n : Nat} {b : TcpTxBuffer}

theorem Holds.size_lt (h : Holds initial stream consumed b) : b.size < 2 ^ 32 :=
  Nat.lt_of_le_of_lt h.room h.maxBuffer

theorem Holds.sentSize_le (h : Holds initial stream consumed b) : b.sentSize ≤ b.size := by
  rw [h.sentSize, h.size, total_append]
  omega

theorem sizeFromSequence_of_room (room : Room b.firstByteSeq k b.size) (fits : b.size < 2 ^ 32)
    (le : k ≤ b.size) : b.sizeFromSequence (b.firstByteSeq.at k) = b.size - k := by
  have tail : b.tailSequence = b.firstByteSeq.at b.size := add_eq_at _ _
  have distance : (((b.firstByteSeq.at b.size).sub (b.firstByteSeq.at k)).toNat : Int) =
      b.size - k := sub_at_toNat (by omega) (by omega)
  rw [sizeFromSequence, tail, room.ge_later le, if_pos rfl]
  omega

/-- The number of bytes behind a position, where the order of sequence numbers
reaches that far, and 0 elsewhere. -/
theorem sizeFromSequence_cases (wrap : NoWrap b) (fits : b.size < 2 ^ 32) (le : k ≤ b.size) :
    (Room b.firstByteSeq k b.size ∧ b.sizeFromSequence (b.firstByteSeq.at k) = b.size - k) ∨
      (¬ Room b.firstByteSeq k b.size ∧ b.sizeFromSequence (b.firstByteSeq.at k) = 0) := by
  have tail : b.tailSequence = b.firstByteSeq.at b.size := add_eq_at _ _
  by_cases room : Room b.firstByteSeq k b.size
  · exact .inl ⟨room, sizeFromSequence_of_room room fits le⟩
  · right
    refine ⟨room, ?_⟩
    obtain ⟨notGt, -⟩ := gt_of_not_room room le fits wrap
    have ne : b.firstByteSeq.at b.size ≠ b.firstByteSeq.at k := by
      intro same
      have : (b.size : Int) = k := (at_inj (by omega) (by omega)).mp same
      exact room (Room.of_le (by omega))
    rw [sizeFromSequence, tail, ge, notGt]
    simp [ne]

/-- `TransmittedSize` asks for at least one byte and never for more. -/
theorem transmittedSize_bound {list : PacketList} (seq : SequenceNumber32) (pos : 0 < n)
    (positive : Positive list) (fits : total list < 2 ^ 32) :
    0 < transmittedSize seq n list ∧ transmittedSize seq n list ≤ n := by
  induction list with
  | nil => exact ⟨pos, le_refl n⟩
  | cons item rest ih =>
    obtain ⟨size, others⟩ := positive_cons.mp positive
    rw [total_cons] at fits
    have later := ih others (by omega)
    cases rest with
    | nil =>
      simp only [transmittedSize] at later ⊢
      split
      · exact ⟨Nat.lt_min.mpr ⟨pos, size⟩, Nat.min_le_left _ _⟩
      · exact later
    | cons next rest =>
      rw [total_cons] at fits
      have sum : UInt32.add item.size next.size = item.size + next.size :=
        UInt32.add_of_lt (by omega)
      rw [transmittedSize.eq_def]
      simp only [sum]
      split
      · split
        · exact ⟨Nat.lt_min.mpr ⟨pos, by omega⟩, Nat.min_le_left _ _⟩
        · exact ⟨Nat.lt_min.mpr ⟨pos, size⟩, Nat.min_le_left _ _⟩
      · exact later

section

variable (h : Holds initial stream consumed b)
include h

/-- A segment that was sent before. -/
theorem getTransmittedSegment_contract (wanted : 0 < n)
    (sent : k + n ≤ b.sentSize) (near : k ≤ halfMaxValue 32)
    (room : Room b.firstByteSeq k b.size) :
    Contract (profile = .debug) (b.getTransmittedSegment profile n (b.firstByteSeq.at k))
      (SentAt b k n) := by
  have sentLe := h.sentSize_le
  have sizes := h.sentSize
  obtain ⟨positive, positiveApp⟩ := positive_append.mp h.positive
  have fits : total b.sentList < 2 ^ 32 := by
    have := h.size_lt
    omega
  obtain ⟨some_, atMost⟩ :=
    transmittedSize_bound (b.firstByteSeq.at k) wanted positive fits
  have zero : b.firstByteSeq.at (0 : Nat) = b.firstByteSeq := at_zero _
  refine (nsAssert_contract profile _).bind fun _ _ => ?_
  refine (nsAssert_contract profile _).bind fun _ _ => ?_
  refine (nsAssert_contract profile _).bind fun _ _ => ?_
  have picks : Contract (profile = .debug)
      (getPacketFromList profile b.firstByteSeq (b.firstByteSeq.at (0 : Nat))
        (transmittedSize (b.firstByteSeq.at k) n b.sentList) (b.firstByteSeq.at k)
        (b.sentList.length + 2) b.sentList b.retrans b.nextNode) _ :=
    getPacketFromList_contract (b.sentList.length + 2) b.retrans b.nextNode positive
      (Nat.zero_le k) some_ (by omega) (by omega) (room.mono (le_refl k) (by omega)) fits
      le_rfl
  rw [zero] at picks
  refine picks.bind fun p picked => ?_
  have itemSize : TcpTxItem.size { p.item with retrans := true } = p.item.size := rfl
  exact
    { bytes := by
        have same := picked.bytes
        simp only [bytes_append, bytes_cons] at same ⊢
        rw [same]
      positive := by
        refine positive_append.mpr ⟨?_, positiveApp⟩
        simpa only [positive_append, positive_cons, itemSize] using picked.positive
      starts := by
        simpa only [starts_append, starts_cons, itemSize] using picked.starts h.starts
      position := by simpa using picked.position
      bound := Nat.le_trans picked.bound atMost
      sentSize := by
        have same : total (p.front ++ p.item :: p.rest) = total b.sentList := by
          rw [← length_bytes, picked.bytes, length_bytes]
        rw [sizes, ← same]
        simp [itemSize]
      head := rfl
      size := rfl
      maxBuffer := rfl }

/-- A segment of new data. -/
theorem getNewSegment_contract (wanted : 0 < n)
    (enough : b.sentSize + n ≤ b.size) (room : Room b.firstByteSeq b.sentSize b.size) :
    Contract (profile = .debug) (b.getNewSegment profile n) (SentAt b b.sentSize n) := by
  have sizes := h.sentSize
  have size := h.size
  rw [total_append] at size
  obtain ⟨positive, positiveApp⟩ := positive_append.mp h.positive
  have fits := h.size_lt
  have start : b.firstByteSeq.add b.sentSize = b.firstByteSeq.at b.sentSize := add_eq_at _ _
  rw [getNewSegment, start]
  refine (getPacketFromList_contract (b.appList.length + 2) b.retrans b.nextNode positiveApp
    (le_refl b.sentSize) wanted (by omega) (by omega)
    (room.mono le_rfl (by omega)) (by omega) le_rfl).bind fun p picked => ?_
  -- The new data is at the front of the list of the application.
  have noFront : p.front = [] := by
    cases same : p.front with
    | nil => rfl
    | cons item front =>
      have pos : 0 < item.size := picked.positive item (by simp [same])
      have position := picked.position
      rw [same, total_cons] at position
      omega
  have pickedBytes := picked.bytes
  have pickedPositive := picked.positive
  rw [noFront, List.nil_append] at pickedBytes pickedPositive
  obtain ⟨itemPositive, restPositive⟩ := positive_cons.mp pickedPositive
  have sum : UInt32.add b.sentSize p.item.size = b.sentSize + p.item.size := by
    have := picked.bound
    exact UInt32.add_of_lt (by omega)
  exact
    { bytes := by
        simp only [noFront, List.nil_append, bytes_append, bytes_cons, ← pickedBytes,
          List.append_assoc]
        rfl
      positive := by
        simp only [noFront, List.nil_append]
        exact positive_append.mpr ⟨positive_append.mpr ⟨positive, by
          simpa [Positive, TcpTxItem.size] using itemPositive⟩, restPositive⟩
      starts := by
        refine starts_append.mpr ⟨h.starts, ?_, trivial⟩
        simp [sizes]
      position := sizes.symm
      bound := picked.bound
      sentSize := by
        simp only [total_append, total_cons, total_nil, ← sizes]
        exact sum
      head := rfl
      size := rfl
      maxBuffer := rfl }

/-- What `CopyFromSequence` of `n` bytes at position `k` returns: the buffer holds
the same bytes, and the item, if there is one, holds those at position `k`. There
is always one where bytes are left and the order of sequence numbers reaches. -/
structure CopiedAt (initial : SequenceNumber32) (stream : List Byte) (consumed : Nat)
    (b : TcpTxBuffer) (k n : Nat) (r : Option TcpTxItem × TcpTxBuffer) : Prop where
  holds : Holds initial stream consumed r.2
  size : r.2.size = b.size
  item : ∀ item, r.1 = some item → item.startSeq = b.firstByteSeq.at k ∧
    item.packet = (stream.drop (consumed + k)).take item.size ∧ 0 < item.size ∧ item.size ≤ n ∧
    r.2.sentList ≠ []
  null : r.1 = none → k = b.size ∨ halfMaxValue 32 < b.size

/-- Handing out an item ends the call. -/
theorem SentAt.copied {out : Sent} (sent : SentAt b k n out)
    (now : Int) : CopiedAt initial stream consumed b k n
      (some { out.item with lastSent := now },
        { out.buffer with
          sentList := out.front ++ { out.item with lastSent := now } :: out.rest }) := by
  have itemSize : TcpTxItem.size { out.item with lastSent := now } = out.item.size := rfl
  have sameBytes := sent.bytes
  have positive := sent.positive
  have starts := sent.starts
  simp only [bytes_append, bytes_cons] at sameBytes
  simp only [positive_append, positive_cons] at positive
  simp only [starts_append, starts_cons] at starts
  exact
    { holds :=
        { bytes := by
            simp only [bytes_append, bytes_cons, sameBytes]
            rw [← bytes_append, h.bytes]
          bound := h.bound
          head := sent.head.trans h.head
          starts := by
            rw [sent.head]
            simp only [starts_append, starts_cons, itemSize]
            exact starts
          positive := by
            simp only [positive_append, positive_cons, itemSize]
            exact positive
          sentSize := by
            rw [sent.sentSize]
            simp [itemSize]
          size := by
            rw [sent.size, h.size, ← length_bytes, ← sent.bytes, length_bytes]
            simp [itemSize]
          room := by
            simp only [sent.size, sent.maxBuffer]
            exact h.room
          maxBuffer := by
            simp only [sent.maxBuffer]
            exact h.maxBuffer }
      size := sent.size
      item := by
        rintro item ⟨⟩
        refine ⟨?_, ?_, positive.1.2.1, sent.bound, by simp⟩
        · rw [← sent.position]
          simpa using starts.2.1
        · have split : TcpTxBuffer.bytes out.front ++ (out.item.packet ++
              (TcpTxBuffer.bytes out.rest ++ TcpTxBuffer.bytes out.buffer.appList)) =
              stream.drop consumed := by
            rw [← h.bytes, bytes_append, ← sameBytes]
            simp
          have front : (TcpTxBuffer.bytes out.front).length = k := by
            rw [length_bytes, sent.position]
          rw [← List.drop_drop, ← split, ← front, List.drop_left]
          exact List.take_left.symm
      null := by simp }

/-- Which of the three kinds of block it is: sent completely, new, or sent only
in part, when no item is handed out. -/
theorem handOut_contract (wanted : 0 < n)
    (low : k ≤ b.sentSize) (enough : k + n ≤ b.size) (near : k ≤ halfMaxValue 32)
    (room : Room b.firstByteSeq k b.size) :
    Contract (profile = .debug) (b.handOut profile n (b.firstByteSeq.at k)) fun r =>
      (∀ out, r = some out → SentAt b k n out) ∧
        (r = none → k < b.sentSize ∧ b.sentSize < k + n) := by
  have sentLe := h.sentSize_le
  have sentEnd : b.firstByteSeq.add b.sentSize = b.firstByteSeq.at b.sentSize := add_eq_at _ _
  have blockEnd : (b.firstByteSeq.at k).add n = b.firstByteSeq.at (k + n : Nat) :=
    at_add b.firstByteSeq k n
  rw [handOut, sentEnd, blockEnd]
  rcases Nat.lt_or_ge b.sentSize (k + n) with beyond | within
  · have notAll : (b.firstByteSeq.at b.sentSize).ge (b.firstByteSeq.at (k + n : Nat)) = false := by
      rw [(room.mono low enough).ge_earlier beyond.le, decide_eq_false_iff_not]
      omega
    have isNew : (b.firstByteSeq.at b.sentSize).le (b.firstByteSeq.at k) =
        decide (b.sentSize ≤ k) := (room.mono (le_refl k) sentLe).le_earlier low
    rw [if_neg (by rw [notAll]; exact Bool.false_ne_true), isNew]
    by_cases new : b.sentSize ≤ k
    · obtain rfl : k = b.sentSize := Nat.le_antisymm low new
      have noHole : nsAbortIf (b.firstByteSeq.at b.sentSize != b.firstByteSeq.at b.sentSize) =
          some () := by simp
      rw [if_pos (decide_eq_true new), noHole]
      refine (getNewSegment_contract h wanted enough room).bind fun out sent => ?_
      refine (nsAssert_contract profile _).bind fun _ _ => ?_
      exact ⟨fun _ eq => Option.some.inj eq ▸ sent, by simp⟩
    · rw [if_neg (by simpa using new)]
      exact ⟨by simp, fun _ => ⟨by omega, beyond⟩⟩
  · have all : (b.firstByteSeq.at b.sentSize).ge (b.firstByteSeq.at (k + n : Nat)) = true :=
      (room.mono (by omega) sentLe).ge_later within
    rw [if_pos all]
    refine (getTransmittedSegment_contract h wanted within near room).bind fun out sent => ?_
    refine (nsAssert_contract profile _).bind fun _ _ => ?_
    exact ⟨fun _ eq => Option.some.inj eq ▸ sent, by simp⟩

end

theorem CopiedAt.mono {r : Option TcpTxItem × TcpTxBuffer} {m : Nat}
    (copied : CopiedAt initial stream consumed b k m r) (le : m ≤ n) :
    CopiedAt initial stream consumed b k n r :=
  { copied with
    item := by
      intro item eq
      obtain ⟨start, packet, pos, bound, nonempty⟩ := copied.item item eq
      exact ⟨start, packet, pos, by omega, nonempty⟩ }

theorem head_not_gt (near : k ≤ halfMaxValue 32) :
    b.firstByteSeq.gt (b.firstByteSeq.at k) = false := by
  have zero : b.firstByteSeq.at (0 : Nat) = b.firstByteSeq := at_zero _
  have origin : Room b.firstByteSeq 0 k := Room.of_le (by omega)
  rw [← origin.gt_earlier (Nat.zero_le k), zero]

section Within

variable (h : Holds initial stream consumed b) (now : Int) (calls : Nat) (wanted : 0 < n)
  (low : k ≤ b.sentSize) (left : k < b.size) (near : k ≤ halfMaxValue 32)
  (room : Room b.firstByteSeq k b.size)
include h wanted low left near room

/-- One call, given what it does with a block that is sent only in part. -/
theorem copyFromSequenceWithin_parts {stop : Prop} (debug : profile = .debug → stop)
    (part : k < b.sentSize → b.sentSize < k + min n (b.size - k) →
      Contract stop
        (if (b.firstByteSeq.at k).value.toNat <
              UInt32.add b.firstByteSeq.value.toNat b.sentSize ∧
            UInt32.add b.firstByteSeq.value.toNat b.sentSize <
              UInt32.add (b.firstByteSeq.at k).value.toNat (min n (b.size - k)) then
          copyFromSequenceWithin profile now calls b
            (UInt32.sub (UInt32.add b.firstByteSeq.value.toNat b.sentSize)
              (b.firstByteSeq.at k).value.toNat) (b.firstByteSeq.at k)
        else none)
        (CopiedAt initial stream consumed b k n)) :
    Contract stop (copyFromSequenceWithin profile now (calls + 1) b n (b.firstByteSeq.at k))
      (CopiedAt initial stream consumed b k n) := by
  have fits := h.size_lt
  rw [copyFromSequenceWithin, head_not_gt near, sizeFromSequence_of_room room fits left.le]
  rw [if_neg (by omega)]
  refine ((handOut_contract h (by omega) low (by omega) near room).mono_stop debug).bind
    fun r cases_ => ?_
  cases r with
  | some out =>
    have sent := cases_.1 out rfl
    refine ((nsAssert_contract profile _).mono_stop debug).bind fun _ _ => ?_
    exact (sent.copied h now).mono (Nat.min_le_left _ _)
  | none =>
    obtain ⟨some_, beyond⟩ := cases_.2 rfl
    exact part some_ beyond

theorem copyFromSequenceWithin_whole
    (whole : ¬ (k < b.sentSize ∧ b.sentSize < k + min n (b.size - k))) :
    Contract (profile = .debug)
      (copyFromSequenceWithin profile now (calls + 1) b n (b.firstByteSeq.at k))
      (CopiedAt initial stream consumed b k n) :=
  copyFromSequenceWithin_parts h now calls wanted low left near room id
    fun some_ beyond => absurd ⟨some_, beyond⟩ whole

/-- Any block. The numbers of a block that is sent in part are compared without regard to
the wrap, so such a block stops the call when it reaches the end of the space. -/
theorem copyFromSequenceWithin_contract : Contract (profile = .debug ∨ Crosses b k n)
      (copyFromSequenceWithin profile now (calls + 2) b n (b.firstByteSeq.at k))
      (CopiedAt initial stream consumed b k n) := by
  have fits := h.size_lt
  refine copyFromSequenceWithin_parts h now (calls + 1) wanted low left near room .inl
    fun some_ beyond => ?_
  have value : (b.firstByteSeq.at k).value.toNat = (b.firstByteSeq.value.toNat + k) % 2 ^ 32 :=
    at_value_toNat _ _
  have sentEnd : UInt32.add b.firstByteSeq.value.toNat b.sentSize =
      ((b.firstByteSeq.at k).value.toNat + (b.sentSize - k)) % 2 ^ 32 := by
    unfold UInt32.add
    omega
  rw [sentEnd]
  by_cases crosses : 2 ^ 32 ≤ (b.firstByteSeq.at k).value.toNat + min n (b.size - k)
  · -- The end of the block has a smaller number than its begin.
    rw [if_neg (by unfold UInt32.add; omega)]
    exact .inr ⟨some_, beyond, crosses⟩
  · have noWrap : ((b.firstByteSeq.at k).value.toNat + (b.sentSize - k)) % 2 ^ 32 =
        (b.firstByteSeq.at k).value.toNat + (b.sentSize - k) := Nat.mod_eq_of_lt (by omega)
    have blockEnd : UInt32.add (b.firstByteSeq.at k).value.toNat (min n (b.size - k)) =
        (b.firstByteSeq.at k).value.toNat + min n (b.size - k) := UInt32.add_of_lt (by omega)
    have amount : UInt32.sub ((b.firstByteSeq.at k).value.toNat + (b.sentSize - k))
        (b.firstByteSeq.at k).value.toNat = b.sentSize - k := by
      rw [UInt32.sub_of_le (by omega) (by omega)]
      omega
    rw [noWrap, blockEnd, if_pos (by omega), amount]
    have again : Contract (profile = .debug)
        (copyFromSequenceWithin profile now (calls + 1) b (b.sentSize - k)
          (b.firstByteSeq.at k)) (CopiedAt initial stream consumed b k (b.sentSize - k)) :=
      copyFromSequenceWithin_whole h now calls (by omega) low left near room (by omega)
    exact (again.mono_stop .inl).mono fun r copied => copied.mono (by omega)

end Within

/-- `CopyFromSequence` of a positive number of bytes from inside the sent list,
or from its end. -/
theorem copyFromSequence_contract (h : Holds initial stream consumed b) (wrap : NoWrap b)
    (now : Int) (wanted : 0 < n) (low : k ≤ b.sentSize) :
    Contract (MayStop profile b) (b.copyFromSequence profile now n (b.firstByteSeq.at k))
      (CopiedAt initial stream consumed b k n) := by
  have sentLe := h.sentSize_le
  have fits := h.size_lt
  have zero : b.firstByteSeq.at (0 : Nat) = b.firstByteSeq := at_zero _
  have le : k ≤ b.size := by omega
  have nothing : b.sizeFromSequence (b.firstByteSeq.at k) = 0 →
      (k = b.size ∨ halfMaxValue 32 < b.size) →
      Contract (MayStop profile b) (b.copyFromSequence profile now n (b.firstByteSeq.at k))
        (CopiedAt initial stream consumed b k n) := by
    intro none reason
    rw [copyFromSequence, copyFromSequenceWithin, none, Nat.min_zero]
    cases behind : b.firstByteSeq.gt (b.firstByteSeq.at k) with
    | true =>
      -- The call aborts, so the position is more than half the space away.
      have far : ¬ Room b.firstByteSeq 0 k := by
        intro origin
        have := origin.gt_earlier (Nat.zero_le k)
        rw [zero, behind] at this
        exact absurd this (by decide)
      have : ¬ k ≤ 0 + halfMaxValue 32 := fun near => far (Room.of_le near)
      exact .inr (.inl (by omega))
    | false => exact ⟨h, rfl, by simp, fun _ => reason⟩
  rcases Nat.lt_or_ge (halfMaxValue 32) k with far | near
  · by_cases origin : Room b.firstByteSeq 0 k
    · rcases origin with short | ⟨-, final⟩
      · omega
      · -- Only the end of the space itself has no byte left behind it.
        unfold NoWrap at wrap
        have last : k = b.size := by omega
        refine nothing ?_ (.inl last)
        rcases sizeFromSequence_cases wrap fits le with ⟨-, size⟩ | ⟨-, size⟩
        · omega
        · exact size
    · have behind : b.firstByteSeq.gt (b.firstByteSeq.at k) = true := by
        have lap : b.firstByteSeq.value.toNat + k ≤ 2 ^ 32 := by
          unfold NoWrap at wrap
          omega
        have := (gt_of_not_room origin (Nat.zero_le k) (by omega) lap).2
        rwa [zero] at this
      rw [copyFromSequence, copyFromSequenceWithin, behind]
      exact .inr (.inl (by omega))
  · rcases sizeFromSequence_cases wrap fits le with ⟨room, size⟩ | ⟨noRoom, none⟩
    · rcases Nat.lt_or_ge k b.size with left | last
      · refine (copyFromSequenceWithin_contract h now 0 wanted low left near room).mono_stop ?_
        rintro (debug | ⟨-, -, crosses⟩)
        · exact .inl debug
        · -- The block ends at the end of the space.
          right
          right
          rw [at_value_toNat, Nat.mod_eq_of_lt (by unfold NoWrap at wrap; omega)] at crosses
          unfold NoWrap at wrap
          omega
      · exact nothing (by omega) (.inl (by omega))
    · refine nothing none (.inr ?_)
      have : ¬ b.size ≤ k + halfMaxValue 32 := fun short => noRoom (Room.of_le short)
      omega

end Copy

end Ns3.TcpTxBuffer
