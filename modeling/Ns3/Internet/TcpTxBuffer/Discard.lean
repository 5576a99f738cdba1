import Ns3.Internet.TcpTxBuffer.Copy
import Ns3.Internet.TcpTxBuffer.Flags

/-!
# Bytes that come, bytes that leave, and bytes that go back

`Add` appends bytes of the application. `DiscardUpTo` takes acknowledged bytes off the head, also
those that were never
sent. `ResetSentList` and `ResetLastSegmentSent` move items back to the list of
the application. What stays in the buffer is the stream from its new head on.
-/

namespace Ns3.TcpTxBuffer

open SequenceNumber List

section Tail

variable {initial : SequenceNumber32} {stream : List Byte} {consumed : Nat} {b : TcpTxBuffer}

/-- What `Add` accepts is behind the bytes that are there. -/
theorem Holds.add (h : Holds initial stream consumed b) (p : Packet) :
    Holds initial (if (b.add p).1 then stream ++ p else stream) consumed (b.add p).2 := by
  have room := h.room
  have maxBuffer := h.maxBuffer
  have bound := h.bound
  have available : b.available = b.maxBuffer - b.size := UInt32.sub_of_le room maxBuffer
  rw [TcpTxBuffer.add, available]
  split
  · next space =>
      have sum : UInt32.add b.size p.length = b.size + p.length := UInt32.add_of_lt (by omega)
      split
      · next some_ =>
          exact
            { bytes := by
                rw [if_pos rfl, drop_append_of_le_length bound, ← h.bytes]
                simp
              bound := by
                rw [if_pos rfl, length_append]
                omega
              head := h.head
              starts := h.starts
              positive := by
                rw [← append_assoc]
                refine positive_append.mpr ⟨h.positive, ?_⟩
                exact positive_cons.mpr ⟨some_, by simp [Positive]⟩
              sentSize := h.sentSize
              size := by
                rw [sum, h.size, ← append_assoc]
                simp [TcpTxItem.size, Nat.add_assoc]
              room := by
                show UInt32.add b.size p.length ≤ b.maxBuffer
                omega
              maxBuffer }
      · next none =>
          obtain rfl : p = [] := length_eq_zero_iff.mp (by omega)
          rw [if_pos rfl, append_nil]
          exact h
  · rw [if_neg Bool.false_ne_true]
    exact h

end Tail

section Head

variable {profile : BuildProfile} {initial : SequenceNumber32} {stream : List Byte}
variable {consumed offset n : Nat} {b b' : TcpTxBuffer} {list : PacketList} {item : TcpTxItem}

theorem starts_shift {head : SequenceNumber32} {pos : Nat} (starts : Starts head (n + pos) list) :
    Starts (head.at n) pos list := by
  induction list generalizing pos with
  | nil => trivial
  | cons item rest ih =>
    refine ⟨?_, ih (by rw [← Nat.add_assoc]; exact starts.2)⟩
    rw [starts.1, at_at, Nat.cast_add]

/-- What the buffer looks like when `n` bytes have left at the head of the sent
list, whatever happened to the counters. -/
structure Drops (b : TcpTxBuffer) (n : Nat) (list : PacketList) (b' : TcpTxBuffer) : Prop where
  sent : b'.sentList = list
  app : b'.appList = b.appList
  size : b'.size = UInt32.sub b.size n
  sentSize : b'.sentSize = UInt32.sub b.sentSize n
  head : b'.firstByteSeq = b.firstByteSeq.add n
  maxBuffer : b'.maxBuffer = b.maxBuffer

theorem Drops.of_shortened (b : TcpTxBuffer) (sackedOut retrans lostOut : Nat)
    (list : PacketList) (n : Nat) :
    Drops b n list ({ b with sackedOut, retrans, lostOut }.shortened list n) :=
  ⟨rfl, rfl, rfl, rfl, rfl, rfl⟩

theorem Holds.drops (h : Holds initial stream consumed b) (drops : Drops b n list b')
    (le : n ≤ total b.sentList)
    (same : TcpTxBuffer.bytes list = (TcpTxBuffer.bytes b.sentList).drop n)
    (positive : Positive list) (starts : Starts b.firstByteSeq n list) :
    Holds initial stream (consumed + n) b' ∧ b'.size = b.size - n := by
  have sizes := h.size
  have sentSize := h.sentSize
  have fits := h.size_lt
  rw [total_append] at sizes
  have sub : UInt32.sub b.size n = b.size - n := UInt32.sub_of_le (by omega) fits
  have subSent : UInt32.sub b.sentSize n = b.sentSize - n := UInt32.sub_of_le (by omega) (by omega)
  have left : total list = total b.sentList - n := by
    rw [← length_bytes, same, length_drop, length_bytes]
  have accepted : b.size = stream.length - consumed := by
    rw [h.size, ← length_bytes, h.bytes, length_drop]
  have bound := h.bound
  have whole := h.bytes
  rw [bytes_append] at whole
  refine ⟨?_, drops.size.trans sub⟩
  exact
    { bytes := by
        rw [bytes_append, drops.sent, drops.app, same, ← drop_drop, ← whole,
          drop_append_of_le_length (by rw [length_bytes]; exact le)]
      bound := by omega
      head := by rw [drops.head, h.head, at_add, Nat.cast_add]
      starts := by
        rw [drops.head, drops.sent, add_eq_at]
        exact starts_shift starts
      positive := by
        rw [drops.sent, drops.app]
        exact positive_append.mpr ⟨positive, (positive_append.mp h.positive).2⟩
      sentSize := by rw [drops.sentSize, subSent, drops.sent, left, sentSize]
      size := by
        rw [drops.size, sub, drops.sent, drops.app, total_append, left]
        omega
      room := by
        rw [drops.size, sub, drops.maxBuffer]
        exact Nat.le_trans (Nat.sub_le _ _) h.room
      maxBuffer := by
        rw [drops.maxBuffer]
        exact h.maxBuffer }

/-- The buffered range does not cross the end of the space, or half the space covers it. -/
def Placed (b : TcpTxBuffer) : Prop := NoWrap b ∨ b.size ≤ halfMaxValue 32

/-- A head that has moved on by `n` of the buffered bytes, to a buffer that is
not nearer to the end of the space. -/
theorem Placed.drops {b₁ : TcpTxBuffer} (placed : Placed b) (drops : Drops b₁ n list b')
    (head : b₁.firstByteSeq = b.firstByteSeq) (le : n ≤ b.size) (size : b'.size = b.size - n) :
    Placed b' ∧ (MayStop profile b' → MayStop profile b) := by
  have half := halfMaxValue_32
  have value : b'.firstByteSeq.value.toNat = (b.firstByteSeq.value.toNat + n) % 2 ^ 32 := by
    rw [drops.head, head, add_eq_at, at_value_toNat]
  constructor
  · rcases placed with wrap | near
    · unfold NoWrap at wrap
      exact .inl (by unfold NoWrap; omega)
    · exact .inr (by omega)
  · rintro (debug | large | final)
    · exact .inl debug
    · exact .inr (.inl (by omega))
    · refine .inr (.inr ?_)
      rcases placed with wrap | near
      · unfold NoWrap at wrap
        omega
      · omega

theorem removeFromCounts_contract (item : TcpTxItem) (size : Nat) (b : TcpTxBuffer) :
    Contract (profile = .debug) (removeFromCounts profile item size b)
      fun b' => ∃ sackedOut retrans lostOut, b' = { b with sackedOut, retrans, lostOut } := by
  refine (nsAssert_contract profile _).bind fun _ _ => ?_
  refine (nsAssert_contract profile _).bind fun _ _ => ?_
  refine (nsAssert_contract profile _).bind fun _ _ => ?_
  exact ⟨_, _, _, rfl⟩

/-- There is an item to delete, also when nothing was sent. -/
theorem refill_contract (h : Holds initial stream consumed b) (placed : Placed b) (now : Int)
    (wanted : 0 < n) (some_ : 0 < b.size) :
    Contract (MayStop profile b) (b.refill profile now n)
      fun b' => Holds initial stream consumed b' ∧ b'.size = b.size ∧ b'.sentList ≠ [] := by
  rw [refill]
  cases sent : b.sentList with
  | cons item rest => exact ⟨h, rfl, by simp [sent]⟩
  | nil =>
    have origin : b.firstByteSeq.at (0 : Nat) = b.firstByteSeq := at_zero _
    have copied : Contract (MayStop profile b)
        (b.copyFromSequence profile now n (b.firstByteSeq.at (0 : Nat)))
        (CopiedAt initial stream consumed b 0 n) := by
      rcases placed with wrap | near
      · exact copyFromSequence_contract h wrap now wanted (Nat.zero_le b.sentSize)
      · refine (copyFromSequenceWithin_contract h now 0 wanted (Nat.zero_le _) some_
          (Nat.zero_le _) (Room.of_le (by omega))).mono_stop ?_
        rintro (debug | ⟨part, -⟩)
        · exact .inl debug
        · rw [h.sentSize, sent, total_nil] at part
          omega
    rw [origin] at copied
    refine copied.bind fun r copied => ?_
    obtain ⟨item, b'⟩ := r
    cases item with
    | some item => exact ⟨copied.holds, copied.size, (copied.item item rfl).2.2.2.2⟩
    | none =>
      refine .inr (.inl ?_)
      have := copied.null rfl
      omega

/-- The loop takes `offset` bytes off the head, or all of them. -/
theorem discardLoop_contract (now : Int) (turns : Nat) (h : Holds initial stream consumed b)
    (placed : Placed b) (fuel : offset ≤ turns) :
    Contract (MayStop profile b) (discardLoop profile now turns offset b)
      fun b' => Holds initial stream (consumed + min offset b.size) b' ∧
        b'.size = b.size - min offset b.size := by
  induction turns generalizing consumed offset b with
  | zero =>
    obtain rfl : offset = 0 := Nat.le_zero.mp fuel
    rw [discardLoop, if_neg (by omega), Nat.zero_min]
    exact ⟨h, rfl⟩
  | succ turns ih =>
    rw [discardLoop]
    by_cases goes : 0 < b.size ∧ 0 < offset
    swap
    · have nothing : min offset b.size = 0 := by omega
      rw [if_neg goes, nothing]
      exact ⟨h, rfl⟩
    rw [if_pos goes]
    refine (refill_contract h placed now goes.2 goes.1).bind fun b₁ filled => ?_
    obtain ⟨h₁, size₁, sent₁⟩ := filled
    have head₁ : b₁.firstByteSeq = b.firstByteSeq := h₁.head.trans h.head.symm
    cases sent : b₁.sentList with
    | nil => exact absurd sent sent₁
    | cons item rest =>
      refine ((nsAssert_contract profile _).mono_stop .inl).bind fun _ _ => ?_
      have positive := (positive_append.mp h₁.positive).1
      have starts := h₁.starts
      have sizes := h₁.size
      rw [sent] at positive starts
      rw [total_append, sent, total_cons] at sizes
      obtain ⟨itemPos, restPos⟩ := positive_cons.mp positive
      have fits := h₁.size_lt
      by_cases whole : item.size ≤ offset
      · rw [if_pos whole]
        refine ((removeFromCounts_contract item item.size b₁).mono_stop .inl).bind
          fun b₂ counted => ?_
        obtain ⟨sackedOut, retrans, lostOut, rfl⟩ := counted
        have drops := Drops.of_shortened b₁ sackedOut retrans lostOut rest item.size
        obtain ⟨h₃, size₃⟩ := h₁.drops drops (by rw [sent, total_cons]; omega)
          (by rw [sent, bytes_cons]; exact (drop_left' rfl).symm) restPos
          (by simpa using starts.2)
        obtain ⟨placed₃, stop₃⟩ := placed.drops drops head₁ (by omega) (size₁ ▸ size₃)
        have rest_ : Contract _ (discardLoop profile now turns (offset - item.size) _) _ :=
          ih h₃ placed₃ (by omega)
        refine (rest_.mono_stop stop₃).mono fun b₄ done => ?_
        rw [size₃, size₁] at done
        have sum : consumed + item.size + min (offset - item.size) (b.size - item.size) =
            consumed + min offset b.size := by omega
        rw [sum] at done
        exact ⟨done.1, by rw [done.2]; omega⟩
      · have all : min offset b.size = offset := by omega
        rw [if_neg whole, all]
        have packet : item.packet.createFragment profile offset (item.size - offset) =
            some (item.packet.drop offset) := by
          unfold TcpTxItem.size at whole sizes ⊢
          rw [Packet.createFragment_of_le (by omega) (by omega), take_of_length_le]
          rw [length_drop]
        rw [packet]
        refine ((removeFromCounts_contract item offset b₁).mono_stop .inl).bind
          fun b₂ counted => ?_
        obtain ⟨sackedOut, retrans, lostOut, rfl⟩ := counted
        have left : item.size - offset = (item.packet.drop offset).length := length_drop.symm
        have drops := Drops.of_shortened b₁ sackedOut retrans lostOut
          ({ item with
            packet := item.packet.drop offset
            startSeq := item.startSeq.add offset } :: rest) offset
        refine h₁.drops drops (by rw [sent, total_cons]; omega) ?_ ?_ ?_ |>.imp id ?_
        · rw [sent, bytes_cons, bytes_cons, drop_append_of_le_length]
          unfold TcpTxItem.size at whole
          omega
        · refine positive_cons.mpr ⟨?_, restPos⟩
          show 0 < (item.packet.drop offset).length
          omega
        · refine ⟨?_, ?_⟩
          · show item.startSeq.add offset = _
            rw [starts.1, at_add]
            simp
          · show Starts _ (offset + (item.packet.drop offset).length) _
            rw [← left, Nat.add_sub_cancel' (by omega)]
            simpa using starts.2
        · exact fun size₃ => size₃.trans (congrArg (· - offset) size₁)

/-- Moving the mark of a sacked head changes no byte. -/
theorem settleHead_contract (seq : SequenceNumber32) (b : TcpTxBuffer) :
    Contract (profile = .debug) (b.settleHead profile seq) (SameData b) := by
  rw [settleHead.eq_def]
  cases sent : b.sentList with
  | nil => exact SameData.refl b
  | cons head tail =>
    have settled : Contract (profile = .debug) (if head.sacked then (do
        nsAssert profile (!head.lost)
        let b ← addRenoSack profile { b with
          sentList := { head with sacked := false } :: tail
          sackedOut := UInt32.sub b.sackedOut head.size }
        return b.markHeadAsLost)
      else some b) (SameData b) := by
      split
      · refine (nsAssert_contract profile _).bind fun _ _ => ?_
        have cleared : SameData b { b with
            sentList := { head with sacked := false } :: tail
            sackedOut := UInt32.sub b.sackedOut head.size } :=
          ⟨sent ▸ SameItems.cons rfl rfl (SameItems.refl tail), rfl, rfl, rfl, rfl, rfl⟩
        refine (addRenoSack_contract (cons_ne_nil _ _)).bind fun b₁ same => ?_
        exact (cleared.trans same).trans (markHeadAsLost_same b₁)
      · exact SameData.refl b
    refine settled.bind fun b₁ same => ?_
    exact (nsAssert_contract profile _).bind fun _ _ => same

/-- The end of `DiscardUpTo` behind the loop changes no byte. -/
theorem finishDiscard_contract (b : TcpTxBuffer) (seq : SequenceNumber32) :
    Contract (profile = .debug)
      (do
        let b ← settleHead profile seq b
        let b := if b.highestSack.2.le b.firstByteSeq then
          { b with highestSack := (none, .ofNat 0) } else b
        nsAssert profile (b.firstByteSeq.ge seq)
        nsAssert profile (UInt32.add b.sackedOut b.lostOut ≤ b.sentSize)
        return b)
      (SameData b) := by
  refine (settleHead_contract seq b).bind fun b₂ same => ?_
  refine (nsAssert_contract profile _).bind fun _ _ => ?_
  refine (nsAssert_contract profile _).bind fun _ _ => ?_
  split
  · exact same.trans ⟨SameItems.refl _, rfl, rfl, rfl, rfl, rfl⟩
  · exact same

/-- `DiscardUpTo` a number that is not beyond the tail. -/
theorem discardUpTo_contract (now : Int) {seq : SequenceNumber32}
    (h : Holds initial stream consumed b) (placed : Placed b)
    (le : b.firstByteSeq.ge seq = true ∨ (seq.sub b.firstByteSeq).toNat ≤ b.size) :
    Contract (MayStop profile b) (b.discardUpTo profile now seq)
      fun b' => ∃ n ≤ b.size, Holds initial stream (consumed + n) b' ∧ b'.size = b.size - n := by
  rw [discardUpTo]
  by_cases already : b.firstByteSeq.ge seq = true
  · rw [if_pos already]
    exact ⟨0, Nat.zero_le _, h, rfl⟩
  rw [if_neg already]
  have le : (seq.sub b.firstByteSeq).toNat ≤ b.size := le.resolve_left already
  refine (discardLoop_contract now _ h placed le_rfl).bind fun b₁ dropped => ?_
  rw [Nat.min_eq_left le] at dropped
  obtain ⟨h₁, size₁⟩ := dropped
  -- The loop has moved the head to `seq`, so acknowledging a FIN changes nothing more.
  have atSeq : b₁.firstByteSeq = seq := by rw [h₁.head, Nat.cast_add, ← at_at, ← h.head, at_sub]
  have fin : (if b₁.size = 0 then { b₁ with firstByteSeq := seq } else b₁) = b₁ := by
    split
    · rw [← atSeq]
    · rfl
  rw [fin]
  refine ((finishDiscard_contract b₁ seq).mono_stop .inl).mono fun b₂ same => ?_
  exact ⟨_, le, h₁.same same, same.size.trans size₁⟩

end Head

section Reset

variable {initial : SequenceNumber32} {stream : List Byte} {consumed : Nat} {b : TcpTxBuffer}

theorem Holds.resetSentList (h : Holds initial stream consumed b) :
    Holds initial stream consumed b.resetSentList := by
  have same : SameItems b.resetSentList.appList (b.sentList ++ b.appList) := by
    have sent := SameItems.map
      (fun item => { item with retrans := false, sacked := false, lost := false })
      (fun _ => rfl) (fun _ => rfl) b.sentList
    exact sent.append (SameItems.refl b.appList)
  exact
    { h with
      bytes := same.bytes.trans h.bytes
      starts := trivial
      positive := same.positive h.positive
      sentSize := rfl
      size := h.size.trans same.total.symm }

theorem Holds.resetLastSegmentSent (h : Holds initial stream consumed b) :
    Holds initial stream consumed b.resetLastSegmentSent := by
  rw [TcpTxBuffer.resetLastSegmentSent]
  split
  · exact h
  · next item last =>
      have sent : b.sentList.dropLast ++ [item] = b.sentList := dropLast_append_getLast? item last
      have whole : b.sentList.dropLast ++ item :: b.appList = b.sentList ++ b.appList := by
        conv_rhs => rw [← sent, append_assoc]
        rfl
      have renamed : SameItems ({ item with node := b.nextNode } :: b.appList)
          (item :: b.appList) := SameItems.cons rfl rfl (SameItems.refl _)
      have starts := h.starts
      have positive := h.positive
      have sentSize := h.sentSize
      have fits := h.size_lt
      have le := h.sentSize_le
      rw [← sent, starts_append] at starts
      rw [← whole, positive_append] at positive
      rw [← sent, total_append, total_cons, total_nil] at sentSize
      exact
        { h with
          bytes := by
            rw [← h.bytes, ← whole, bytes_append, bytes_append, renamed.bytes]
          starts := starts.1
          positive := positive_append.mpr ⟨positive.1, renamed.positive positive.2⟩
          sentSize := by
            show UInt32.sub b.sentSize item.size = total b.sentList.dropLast
            rw [UInt32.sub_of_le (by omega) (by omega)]
            omega
          size := by
            refine h.size.trans ?_
            rw [← whole, total_append, total_append, renamed.total] }

end Reset

end Ns3.TcpTxBuffer
