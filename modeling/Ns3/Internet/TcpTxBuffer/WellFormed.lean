import Ns3.Internet.TcpTxBuffer.Discard
import Ns3.Internet.TcpTxBuffer.Flags
import Ns3.Library.Run

/-!
# Every reachable buffer is well formed

While half the sequence space covers the buffered bytes, every call keeps the two lists and
the sizes in step, whatever its arguments are and wherever the buffer lies in the sequence
space. A call for bytes that are not in the buffer aborts, or finds none.
-/

namespace Ns3.TcpTxBuffer

open SequenceNumber

/-- The lists hold consecutive bytes of some stream, and the sizes are those of the lists. -/
def WellFormed (b : TcpTxBuffer) : Prop :=
  ∃ initial stream consumed, Holds initial stream consumed b

section Any

variable {profile : BuildProfile} {initial : SequenceNumber32} {stream : List Byte}
variable {consumed n k : Nat} {b b' : TcpTxBuffer} {seq : SequenceNumber32} {now : Int}

/-- A number that is neither behind the head nor at or beyond the tail is inside the buffer. -/
theorem inside_of_size (near : b.size ≤ halfMaxValue 32)
    (notBehind : b.firstByteSeq.gt (b.firstByteSeq.at k) = false) (lap : k < 2 ^ 32)
    (some_ : 0 < b.sizeFromSequence (b.firstByteSeq.at k)) : k < b.size := by
  have half := halfMaxValue_32
  have tail : b.tailSequence = b.firstByteSeq.at b.size := add_eq_at _ _
  have zero : b.firstByteSeq.at (0 : Nat) = b.firstByteSeq := at_zero _
  by_contra beyond
  have notLess : b.tailSequence.ge (b.firstByteSeq.at k) = true := by
    by_contra less
    rw [sizeFromSequence, if_neg less] at some_
    exact absurd some_ (lt_irrefl 0)
  rcases Nat.lt_or_ge b.size k with far | same
  · rcases Nat.lt_or_ge (b.size + halfMaxValue 32) k with behind | ahead
    · -- The number is more than half the space ahead, so it counts as behind the head.
      have distance : (b.firstByteSeq.value - (b.firstByteSeq.at k).value).toNat =
          2 ^ 32 - k := by
        have value := at_value_toNat b.firstByteSeq k
        rw [BitVec.toNat_sub, value]
        omega
      have apart : b.firstByteSeq.value ≠ (b.firstByteSeq.at k).value := by
        intro same
        rw [← same, BitVec.sub_self] at distance
        simp at distance
        omega
      rcases Nat.lt_or_ge (halfMaxValue 32 + 1) k with farther | exactly
      · rw [gt_of_ahead apart (by omega)] at notBehind
        exact absurd notBehind (by decide)
      · have empty : b.size = 0 := by omega
        rw [tail, empty, zero, ge, notBehind, Bool.false_or, beq_iff_eq] at notLess
        exact apart (congrArg SequenceNumber.value notLess)
    · have above : (b.firstByteSeq.at k).gt (b.firstByteSeq.at b.size) = true := by
        rw [gt_at_nat (by omega) (by omega), decide_eq_true_eq]
        exact far
      rw [tail, ge_eq_false above] at notLess
      exact absurd notLess (by decide)
  · obtain rfl : k = b.size := by omega
    rw [sizeFromSequence, tail, if_pos (by rw [← tail]; exact notLess)] at some_
    simp [SequenceNumber.sub_eq] at some_

/-- What `CopyFromSequence` can be called for: bytes inside the sent list or at its end. All
other calls abort, or return the null pointer and change nothing. -/
theorem copyFromSequence_any (h : Holds initial stream consumed b)
    (near : b.size ≤ halfMaxValue 32)
    {r : Option TcpTxItem × TcpTxBuffer} (run : b.copyFromSequence profile now n seq = some r) :
    r = (none, b) ∨ ∃ k : Nat, seq = b.firstByteSeq.at k ∧ k ≤ b.sentSize ∧ k < b.size ∧ 0 < n ∧
      CopiedAt initial stream consumed b k n r := by
  obtain ⟨k, lap, rfl⟩ : ∃ k : Nat, k < 2 ^ 32 ∧ seq = b.firstByteSeq.at k :=
    ⟨(seq.sub b.firstByteSeq).toNat, BitVec.isLt _, (at_sub seq b.firstByteSeq).symm⟩
  have whole := run
  obtain ⟨_, begins, run⟩ := bind_returns.mp run
  rw [nsAbortIf_eq_some] at begins
  by_cases nothing : min n (b.sizeFromSequence (b.firstByteSeq.at k)) = 0
  · rw [if_pos nothing] at run
    exact .inl (Option.some.inj run).symm
  · have inside := inside_of_size near begins lap (by omega)
    have room : Room b.firstByteSeq k b.size := Room.of_le (by omega)
    have low : k ≤ b.sentSize := by
      -- A piece of new data with a hole in front of it aborts.
      by_contra hole
      rw [if_neg nothing] at run
      obtain ⟨out, handed, -⟩ := bind_returns.mp run
      have sentEnd : b.firstByteSeq.add b.sentSize = b.firstByteSeq.at b.sentSize := add_eq_at _ _
      rw [sizeFromSequence_of_room room (by rw [halfMaxValue_32] at near; omega) inside.le]
        at handed
      have blockEnd : (b.firstByteSeq.at k).add (min n (b.size - k)) =
          b.firstByteSeq.at (k + min n (b.size - k) : Nat) := at_add _ _ _
      have notAll : (b.firstByteSeq.at b.sentSize).ge
          (b.firstByteSeq.at (k + min n (b.size - k) : Nat)) = false := by
        rw [ge_at_nat (by omega) (by omega), decide_eq_false_iff_not]
        omega
      have isNew : (b.firstByteSeq.at b.sentSize).le (b.firstByteSeq.at k) = true := by
        rw [le_at_nat (by omega) (by omega), decide_eq_true_eq]
        omega
      have apart : b.firstByteSeq.at b.sentSize ≠ b.firstByteSeq.at k := by
        intro same
        have : (b.sentSize : Int) = k := (at_eq_at (by omega) (by omega)).mp same
        omega
      rw [handOut, sentEnd, blockEnd, if_neg (by rw [notAll]; exact Bool.false_ne_true),
        if_pos isNew] at handed
      obtain ⟨_, aborts, -⟩ := bind_returns.mp handed
      simp [apart] at aborts
    have copied : Contract _ (b.copyFromSequence profile now n (b.firstByteSeq.at k)) _ :=
      copyFromSequenceWithin_contract h now 0 (by omega) low inside (by omega) room
    exact .inr ⟨k, rfl, low, inside, by omega, copied.of_eq_some whole⟩

/-- An empty buffer may begin anywhere. -/
theorem Holds.moved (h : Holds initial stream consumed b) (empty : b.size = 0)
    (seq : SequenceNumber32) : Holds seq [] 0 { b with firstByteSeq := seq } := by
  have size := h.size
  have nothing : b.sentList ++ b.appList = [] := by
    cases lists : b.sentList ++ b.appList with
    | nil => rfl
    | cons item rest =>
      have pos := h.positive item (by simp [lists])
      rw [lists, total_cons] at size
      omega
  obtain ⟨sent, -⟩ := List.append_eq_nil_iff.mp nothing
  exact
    { bytes := by
        rw [nothing]
        rfl
      bound := le_refl 0
      head := (at_zero seq).symm
      starts := by
        rw [sent]
        trivial
      positive := h.positive
      sentSize := h.sentSize
      size := h.size
      room := h.room
      maxBuffer := h.maxBuffer }

/-- `DiscardUpTo` any number. One beyond the tail acknowledges everything. -/
theorem WellFormed.discardUpTo (wellFormed : WellFormed b) (near : b.size ≤ halfMaxValue 32)
    (run : b.discardUpTo profile now seq = some b') : WellFormed b' ∧ b'.size ≤ b.size := by
  obtain ⟨initial, stream, consumed, h⟩ := wellFormed
  rw [TcpTxBuffer.discardUpTo] at run
  split at run
  · cases run
    exact ⟨⟨_, _, _, h⟩, le_rfl⟩
  · obtain ⟨b₁, dropped, run⟩ := bind_returns.mp run
    obtain ⟨h₁, size₁⟩ :=
      (discardLoop_contract now _ h (.inr near) le_rfl).of_eq_some dropped
    have same := (finishDiscard_contract _ seq).of_eq_some run
    by_cases empty : b₁.size = 0
    · rw [if_pos empty] at same
      exact ⟨⟨_, _, _, (h₁.moved empty seq).same same⟩, same.size.trans_le (by simp [empty])⟩
    · rw [if_neg empty] at same
      exact ⟨⟨_, _, _, h₁.same same⟩, same.size.trans_le (by omega)⟩

theorem WellFormed.same (wellFormed : WellFormed b) (same : SameData b b') : WellFormed b' := by
  obtain ⟨initial, stream, consumed, h⟩ := wellFormed
  exact ⟨initial, stream, consumed, h.same same⟩

/-- Half the sequence space covers what the call leaves in the buffer. -/
def Fits (b : TcpTxBuffer) : Call → Prop
  | .add p => (b.add p).2.size ≤ halfMaxValue 32
  | _ => True

instance (b : TcpTxBuffer) : (c : Call) → Decidable (b.Fits c)
  | .add _ => inferInstanceAs (Decidable (_ ≤ _))
  | .copyFromSequence _ _ _ | .update _ | .discardUpTo _ _ | .addRenoSack | .resetRenoSack
  | .markHeadAsLost | .deleteRetransmittedFlagFromHead | .setSentListLost _ | .resetSentList
  | .resetLastSegmentSent => instDecidableTrue

/-- A well-formed buffer that half the sequence space covers. -/
def Reached (b : TcpTxBuffer) : Prop := WellFormed b ∧ b.size ≤ halfMaxValue 32

theorem Reached.same (h : Reached b) (same : SameData b b') : Reached b' :=
  ⟨h.1.same same, same.size.trans_le h.2⟩

/-- Every call keeps the buffer well formed. -/
theorem Reached.call {c : Call} (reached : Reached b) (fits : b.Fits c)
    (run : b.call profile c = some b') : Reached b' := by
  obtain ⟨⟨initial, stream, consumed, h⟩, near⟩ := reached
  have here : Reached b := ⟨⟨initial, stream, consumed, h⟩, near⟩
  cases c with
  | add p =>
    cases run
    exact ⟨⟨_, _, _, h.add p⟩, fits⟩
  | copyFromSequence now n seq =>
    obtain ⟨r, copy, rfl⟩ := Option.map_eq_some_iff.mp run
    obtain rfl | ⟨k, -, -, -, -, copied⟩ := copyFromSequence_any h near copy
    · exact here
    · exact ⟨⟨_, _, _, copied.holds⟩, copied.size.trans_le near⟩
  | discardUpTo now seq =>
    obtain ⟨wellFormed, le⟩ := here.1.discardUpTo near run
    exact ⟨wellFormed, le.trans near⟩
  | resetSentList =>
    cases run
    exact ⟨⟨_, _, _, h.resetSentList⟩, near⟩
  | resetLastSegmentSent =>
    cases run
    have taken := h.resetLastSegmentSent
    refine ⟨⟨_, _, _, taken⟩, ?_⟩
    rwa [taken.size, ← length_bytes, taken.bytes, ← h.bytes, length_bytes, ← h.size]
  | update list =>
    obtain ⟨r, update, rfl⟩ := Option.map_eq_some_iff.mp run
    exact here.same (update_same update)
  | addRenoSack => exact here.same (addRenoSack_same run)
  | resetRenoSack =>
    cases run
    exact here.same (resetRenoSack_same b)
  | markHeadAsLost =>
    cases run
    exact here.same (markHeadAsLost_same b)
  | deleteRetransmittedFlagFromHead => exact here.same (deleteRetransmittedFlagFromHead_same run)
  | setSentListLost resetSack => exact here.same (setSentListLost_same run)

theorem Reached.start (seq : SequenceNumber32) {maxBuffer : Nat} (fits : maxBuffer < 2 ^ 32)
    (dupAckThresh segmentSize : Nat) (sackEnabled : Bool) :
    Reached (start seq maxBuffer dupAckThresh segmentSize sackEnabled) := by
  refine ⟨⟨seq, [], 0, ?_⟩, Nat.zero_le _⟩
  exact
    { bytes := rfl
      bound := le_rfl
      head := (at_zero seq).symm
      starts := trivial
      positive := nofun
      sentSize := rfl
      size := rfl
      room := Nat.zero_le _
      maxBuffer := fits }

theorem Reached.run {start_ : TcpTxBuffer} {calls : List Call} (start_reached : Reached start_)
    (fits : Run.Meets (TcpTxBuffer.call profile) Fits start_ calls)
    (run : Run.exec (TcpTxBuffer.call profile) start_ calls = some b) : Reached b :=
  Run.invariant start_reached fits (fun _ _ _ reached fits run => reached.call fits run) run

end Any

end Ns3.TcpTxBuffer
