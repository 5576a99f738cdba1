import Ns3.Internet.TcpTxBuffer.WellFormed

/-!
# Copying across the end of the sequence space

`CopyFromSequence` tells three kinds of blocks apart. Two of its tests use the operators of
the sequence numbers, the third one compares the numbers themselves: a block that was sent
only in part is not recognized when it reaches the end of the space.
-/

namespace Ns3.TcpTxBuffer

open SequenceNumber

/-- The number of bytes that a call for `n` bytes from `seq` on is about. -/
def wanted (b : TcpTxBuffer) (n : Nat) (seq : SequenceNumber32) : Nat :=
  min n (b.sizeFromSequence seq)

section Tests

variable (b : TcpTxBuffer) (n : Nat) (seq : SequenceNumber32)

/-- The test for a block that was sent completely. -/
def alreadySent : Bool := (b.firstByteSeq.add b.sentSize).ge (seq.add (b.wanted n seq))

/-- The test for a new block. -/
def isNewBlock : Bool := (b.firstByteSeq.add b.sentSize).le seq

/-- The test for a block that was sent in part. -/
def partlySent : Bool :=
  seq.value.toNat < UInt32.add b.firstByteSeq.value.toNat b.sentSize &&
    UInt32.add b.firstByteSeq.value.toNat b.sentSize <
      UInt32.add seq.value.toNat (b.wanted n seq)

/-- Exactly one of the three tests succeeds. -/
def OneCase : Prop :=
  (b.alreadySent n seq && !b.isNewBlock seq && !b.partlySent n seq) = true ∨
    (!b.alreadySent n seq && b.isNewBlock seq && !b.partlySent n seq) = true ∨
    (!b.alreadySent n seq && !b.isNewBlock seq && b.partlySent n seq) = true

end Tests

/-- One of the three tests succeeds, and the call returns an item of at most `n` bytes that
begins at `seq`. In a debug build an assertion on the flags of the items may stop the call;
it returns nothing else. -/
structure CopiesOut (profile : BuildProfile) (now : Int) (b : TcpTxBuffer) (n : Nat)
    (seq : SequenceNumber32) : Prop where
  oneCase : b.OneCase n seq
  item : ∀ r, b.copyFromSequence profile now n seq = some r → ∃ item, r.1 = some item ∧
    item.startSeq = seq ∧ 1 ≤ item.size ∧ item.size ≤ n
  returns : profile = .optimized → ∃ r, b.copyFromSequence profile now n seq = some r

section Copy

variable {profile : BuildProfile} {initial : SequenceNumber32} {stream : List Byte}
variable {consumed n k : Nat} {b b' : TcpTxBuffer} {seq : SequenceNumber32} {now : Int}

/-- The null pointer is returned only when nothing is wanted. -/
theorem copyFromSequenceWithin_null {calls : Nat}
    (run : copyFromSequenceWithin profile now calls b n seq = some (none, b')) :
    b.wanted n seq = 0 := by
  induction calls generalizing n with
  | zero => cases run
  | succ calls ih =>
    obtain ⟨_, -, run⟩ := bind_returns.mp run
    by_cases nothing : min n (b.sizeFromSequence seq) = 0
    · exact nothing
    · rw [if_neg nothing] at run
      obtain ⟨out, -, run⟩ := bind_returns.mp run
      cases out with
      | some out =>
        obtain ⟨_, -, run⟩ := bind_returns.mp run
        exact absurd (Prod.mk.inj (Option.some.inj run)).1 (Option.some_ne_none _)
      | none =>
        simp only at run
        split at run
        · next part =>
            have less := ih run
            rw [wanted, UInt32.sub_of_le part.1.le (UInt32.add_lt _ _)] at less
            omega
        · cases run

instance (b : TcpTxBuffer) (k n : Nat) : Decidable (Crosses b k n) :=
  inferInstanceAs (Decidable (_ ∧ _ ∧ _))

theorem numbers_between {v m s : Nat} (hv : v < 2 ^ 32) (hm : m < 2 ^ 32) (hs : s < 2 ^ 32) :
    (v < (v + m) % 2 ^ 32 ∧ (v + m) % 2 ^ 32 < (v + s) % 2 ^ 32) ↔
      0 < m ∧ m < s ∧ v + s < 2 ^ 32 := by
  constructor
  · rintro ⟨low, high⟩
    omega
  · rintro ⟨low, high, noWrap⟩
    omega

/-- Where the three tests stand, for a block at a position that half the space covers. -/
theorem tests_at (le : k ≤ b.sentSize) (sentLe : b.sentSize ≤ b.size) (left : k < b.size)
    (fits : b.size < 2 ^ 32) (near : b.size ≤ k + halfMaxValue 32) :
    b.wanted n (b.firstByteSeq.at k) = min n (b.size - k) ∧
      b.alreadySent n (b.firstByteSeq.at k) = decide (k + min n (b.size - k) ≤ b.sentSize) ∧
      b.isNewBlock (b.firstByteSeq.at k) = decide (b.sentSize ≤ k) ∧
      b.partlySent n (b.firstByteSeq.at k) =
        decide (k < b.sentSize ∧ b.sentSize < k + min n (b.size - k) ∧ ¬ Crosses b k n) := by
  have wanted_ : b.wanted n (b.firstByteSeq.at k) = min n (b.size - k) := by
    rw [wanted, sizeFromSequence_of_room (Room.of_le near) fits left.le]
  have sentEnd : b.firstByteSeq.add b.sentSize = b.firstByteSeq.at b.sentSize := add_eq_at _ _
  have blockEnd : (b.firstByteSeq.at k).add (min n (b.size - k)) =
      b.firstByteSeq.at (k + min n (b.size - k) : Nat) := at_add _ _ _
  refine ⟨wanted_, ?_, ?_, ?_⟩
  · rw [alreadySent, wanted_, sentEnd, blockEnd]
    exact ge_at_nat (by omega) (by omega)
  · rw [isNewBlock, sentEnd]
    exact le_at_nat (by omega) (by omega)
  · have value : (b.firstByteSeq.at k).value.toNat = (b.firstByteSeq.value.toNat + k) % 2 ^ 32 :=
      at_value_toNat _ _
    have inSpace := (b.firstByteSeq.at k).value.isLt
    have sentEnd : UInt32.add b.firstByteSeq.value.toNat b.sentSize =
        ((b.firstByteSeq.at k).value.toNat + (b.sentSize - k)) % 2 ^ 32 := by
      unfold UInt32.add
      omega
    have between := numbers_between inSpace (show b.sentSize - k < 2 ^ 32 by omega)
      (show min n (b.size - k) < 2 ^ 32 by omega)
    rw [partlySent, wanted_, sentEnd, UInt32.add, Bool.eq_iff_iff, Bool.and_eq_true,
      decide_eq_true_eq, decide_eq_true_eq, decide_eq_true_eq, between, Crosses]
    omega

/-- One test succeeds, unless the block was sent only in part and reaches the end of the
space. -/
theorem oneCase_iff (le : k ≤ b.sentSize) (sentLe : b.sentSize ≤ b.size) (left : k < b.size)
    (pos : 0 < n) (fits : b.size < 2 ^ 32) (near : b.size ≤ k + halfMaxValue 32) :
    b.OneCase n (b.firstByteSeq.at k) ↔ ¬ Crosses b k n := by
  obtain ⟨-, sent, new, part⟩ := tests_at (n := n) le sentLe left fits near
  rw [OneCase, sent, new, part]
  by_cases crosses : Crosses b k n
  · obtain ⟨low, high, -⟩ := id crosses
    simp [crosses, low, high]
  · simp only [crosses, not_false_eq_true, and_true, iff_true, Bool.and_eq_true,
      Bool.not_eq_true', decide_eq_true_eq, decide_eq_false_iff_not]
    omega

/-- `CopyFromSequence` works from every place inside the sent data or at its end, except when
the block was sent only in part and reaches the end of the sequence space. -/
theorem copyFromSequence_works_iff (profile : BuildProfile) (now : Int)
    (wellFormed : WellFormed b) (pos : 0 < n)
    (ahead : Precedes b.headSequence seq)
    (sent : Precedes seq (b.headSequence.add b.sentSize))
    (left : Precedes seq b.tailSequence ∧ seq ≠ b.tailSequence) :
    CopiesOut profile now b n seq ↔ ¬ Crosses b (seq.sub b.headSequence).toNat n := by
  obtain ⟨initial, stream, consumed, h⟩ := wellFormed
  have half := halfMaxValue_32
  have fits := h.size_lt
  have sentLe := h.sentSize_le
  rw [headSequence] at ahead sent ⊢
  obtain ⟨k, position⟩ : ∃ k, (seq.sub b.firstByteSeq).toNat = k := ⟨_, rfl⟩
  obtain rfl : b.firstByteSeq.at k = seq := by rw [← position, at_sub]
  rw [position]
  have near : k ≤ halfMaxValue 32 := position ▸ ahead
  have tail : b.tailSequence = b.firstByteSeq.at b.size := add_eq_at _ _
  have low : k ≤ b.sentSize := by
    by_contra beyond
    rw [add_eq_at] at sent
    exact not_precedes_at (by omega) (by omega) sent
  have inside : k < b.size := by
    by_contra beyond
    rw [tail] at left
    rcases Nat.lt_or_ge b.size k with far | near_
    · exact not_precedes_at far (by omega) left.1
    · exact left.2 (by rw [Nat.le_antisymm near_ (by omega)])
  have room : b.size ≤ k + halfMaxValue 32 := by
    rw [tail, precedes_at inside.le (by omega)] at left
    exact left.1
  have oneCase := oneCase_iff (n := n) low sentLe inside pos fits room
  have contract : Contract _ (b.copyFromSequence profile now n (b.firstByteSeq.at k)) _ :=
    copyFromSequenceWithin_contract h now 0 pos low inside near (Room.of_le room)
  constructor
  · intro copies
    exact oneCase.mp copies.oneCase
  · intro fitsIn
    refine ⟨oneCase.mpr fitsIn, ?_, ?_⟩
    · rintro ⟨item, b'⟩ run
      cases item with
      | none =>
        have nothing := copyFromSequenceWithin_null run
        rw [(tests_at low sentLe inside fits room).1] at nothing
        omega
      | some item =>
        obtain ⟨start, -, pos, bound, -⟩ := (contract.of_eq_some run).item item rfl
        exact ⟨item, rfl, start, pos, bound⟩
    · rintro rfl
      obtain ⟨r, run, -⟩ := contract.returns fun stops => stops.elim (by decide) fitsIn
      exact ⟨r, run⟩

/-- Ten bytes six places before the end of the space, of which the first four are sent. -/
def straddling : List Call :=
  [.add [1, 2, 3, 4, 5, 6, 7, 8, 9, 10], .copyFromSequence 0 4 (.ofNat 4294967290)]

/-- The new bytes on both sides of the end of the space. -/
theorem copyFromSequence_works_new :
    ∃ b, Run.exec (call .debug) (start (.ofNat 4294967290) 20 3 4 true) straddling = some b ∧
      CopiesOut .debug 0 b 6 (.ofNat 4294967294) := by
  have start_ := Reached.start (.ofNat 4294967290) (show 20 < 2 ^ 32 by decide) 3 4 true
  have ran : (Run.exec (call .debug) (start (.ofNat 4294967290) 20 3 4 true) straddling).any
      (fun b => Precedes b.headSequence (.ofNat 4294967294) ∧
        Precedes (.ofNat 4294967294) (b.headSequence.add b.sentSize) ∧
        (Precedes (.ofNat 4294967294) b.tailSequence ∧ .ofNat 4294967294 ≠ b.tailSequence) ∧
        ¬ Crosses b ((SequenceNumber.ofNat 4294967294).sub b.headSequence).toNat 6) = true := by
    decide
  obtain ⟨b, run, holds⟩ := (Option.any_eq_true _ _).mp ran
  obtain ⟨ahead, sent, left, fits⟩ := of_decide_eq_true holds
  have reached := Reached.run start_ (by decide) run
  exact ⟨b, run, (copyFromSequence_works_iff .debug 0 reached.1 (by decide) ahead sent left).mpr
    fits⟩

/-- A call for eight bytes from the head on ends with a null pointer that is followed: none of
the three tests succeeds. -/
theorem partlySent_block_not_recognized :
    ∃ b, Run.exec (call .optimized) (start (.ofNat 4294967290) 20 3 4 true) straddling = some b ∧
      Precedes b.headSequence (.ofNat 4294967290) ∧
      Precedes (.ofNat 4294967290) (b.headSequence.add b.sentSize) ∧
      Precedes (.ofNat 4294967290) b.tailSequence ∧ .ofNat 4294967290 ≠ b.tailSequence ∧
      b.alreadySent 8 (.ofNat 4294967290) = false ∧ b.isNewBlock (.ofNat 4294967290) = false ∧
      b.partlySent 8 (.ofNat 4294967290) = false ∧
      b.copyFromSequence .optimized 0 8 (.ofNat 4294967290) = none ∧
      ¬ CopiesOut .optimized 0 b 8 (.ofNat 4294967290) := by
  have ran : (Run.exec (call .optimized) (start (.ofNat 4294967290) 20 3 4 true) straddling).any
      (fun b => Precedes b.headSequence (.ofNat 4294967290) ∧
        Precedes (.ofNat 4294967290) (b.headSequence.add b.sentSize) ∧
        Precedes (.ofNat 4294967290) b.tailSequence ∧ .ofNat 4294967290 ≠ b.tailSequence ∧
        b.alreadySent 8 (.ofNat 4294967290) = false ∧ b.isNewBlock (.ofNat 4294967290) = false ∧
        b.partlySent 8 (.ofNat 4294967290) = false ∧
        b.copyFromSequence .optimized 0 8 (.ofNat 4294967290) = none) = true := by
    decide
  obtain ⟨b, run, holds⟩ := (Option.any_eq_true _ _).mp ran
  obtain ⟨ahead, sent, left, apart, first, second, third, stops⟩ := of_decide_eq_true holds
  refine ⟨b, run, ahead, sent, left, apart, first, second, third, stops, fun copies => ?_⟩
  obtain ⟨r, returns⟩ := copies.returns rfl
  exact absurd (stops.symm.trans returns) (Option.some_ne_none r).symm

end Copy

end Ns3.TcpTxBuffer
