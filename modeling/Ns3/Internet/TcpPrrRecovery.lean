import Ns3.Internet.TcpRecoveryOps

/-!
# Proportional rate reduction in exact arithmetic

`DoRecovery` mixes products and differences of `uint32_t` with a quotient of type `double` and
results of type `int`. The window that it should set is defined here over the integers. The two
agree exactly when no intermediate value leaves its type, or when the bound that the wrong value
enters decides nothing.
-/

namespace Ns3.TcpPrrRecovery

section Exact

variable (mode : ReductionBound) (deliveredBytes : BitVec 32) (tcb : TcpSocketState)
variable (s : PrrState)

/-- All bytes that were delivered in this recovery, with those of this call. -/
def delivered : Nat := s.prrDelivered.toNat + deliveredBytes.toNat

/-- The first segment of a recovery is sent in any case. -/
def forced : Nat := if s.prrOut.toNat = 0 then tcb.segmentSize.toNat else 0

/-- What may be sent so that the total stays in proportion to what was delivered. -/
def exactProportion : Int :=
  ((delivered deliveredBytes s * tcb.ssThresh.toNat) ⌈/⌉ s.recoveryFlightSize.toNat : Nat) -
    s.prrOut.toNat

/-- The reduction bound: as much as was delivered and not sent yet, or at least one segment more
than this call delivered. -/
def exactLimit : Int :=
  match mode with
  | .crb => (delivered deliveredBytes s : Int) - s.prrOut.toNat
  | .ssrb => max ((delivered deliveredBytes s : Int) - s.prrOut.toNat) deliveredBytes.toNat +
      tcb.segmentSize.toNat

/-- The send count over the integers. -/
def exactCount : Int :=
  if tcb.ssThresh < tcb.bytesInFlight then exactProportion deliveredBytes tcb s
  else min (exactLimit mode deliveredBytes tcb s)
    ((tcb.ssThresh.toNat : Int) - tcb.bytesInFlight.toNat)

/-- The congestion window over the integers. -/
def exactWindow : Int :=
  tcb.bytesInFlight.toNat + max (exactCount mode deliveredBytes tcb s) (forced tcb s)

/-- Above the threshold: the product fits into 32 bits and the result into an `int`, or the first
segment is forced anyway. -/
def ProportionFits : Prop :=
  (delivered deliveredBytes s * tcb.ssThresh.toNat < 2 ^ 32 ∧
      exactProportion deliveredBytes tcb s < 2 ^ 31) ∨
    exactProportion deliveredBytes tcb s ≤ forced tcb s

/-- Without a segment to spare: the difference fits into an `int`, or it is so large that also
its remainder modulo `2 ^ 32` leaves `room` free. -/
def DifferenceFits (room : Nat) : Prop :=
  (delivered deliveredBytes s < s.prrOut.toNat + 2 ^ 31 ∧
      s.prrOut.toNat ≤ delivered deliveredBytes s + 2 ^ 31) ∨
    (s.prrOut.toNat + 2 ^ 32 + room ≤ delivered deliveredBytes s ∧
      delivered deliveredBytes s < s.prrOut.toNat + 2 ^ 32 + 2 ^ 31)

/-- The larger of the bytes delivered and not sent yet, modulo `2 ^ 32`, and those of this call,
and one segment. -/
def unsignedSum : Nat :=
  max ((delivered deliveredBytes s + 2 ^ 32 - s.prrOut.toNat) % 2 ^ 32) deliveredBytes.toNat +
    tcb.segmentSize.toNat

/-- With a segment to spare: the sum fits into an `int`, and no more was sent than delivered
unless both bounds exceed `room`; or the sum exceeds `room` also modulo `2 ^ 32`. -/
def SumFits (room : Nat) : Prop :=
  let sum := unsignedSum deliveredBytes tcb s
  let bound := max (delivered deliveredBytes s - s.prrOut.toNat) deliveredBytes.toNat +
    tcb.segmentSize.toNat
  (sum < 2 ^ 31 ∧ (sum = bound ∨ (room ≤ sum ∧ room ≤ bound))) ∨ 2 ^ 32 + room ≤ sum ∨
    (bound = 0 ∧ 2 ^ 31 ≤ sum)

/-- No intermediate value leaves its type, or the bound it enters does not decide. -/
def Fits : Prop :=
  if tcb.ssThresh < tcb.bytesInFlight then ProportionFits deliveredBytes tcb s
  else
    tcb.ssThresh.toNat ≤ tcb.bytesInFlight.toNat + forced tcb s ∨
      match mode with
      | .crb => DifferenceFits deliveredBytes s (tcb.ssThresh.toNat - tcb.bytesInFlight.toNat)
      | .ssrb => SumFits deliveredBytes tcb s (tcb.ssThresh.toNat - tcb.bytesInFlight.toNat)

end Exact

section Arithmetic

theorem toInt_cases (x : BitVec 32) :
    (x.toNat < 2 ^ 31 ∧ x.toInt = x.toNat) ∨ (2 ^ 31 ≤ x.toNat ∧ x.toInt = x.toNat - 2 ^ 32) := by
  rw [BitVec.toInt_eq_toNat_cond]
  split
  · exact .inl ⟨by omega, rfl⟩
  · exact .inr ⟨by omega, by push_cast; rfl⟩

theorem add_ofInt_toNat {x : BitVec 32} {n : Int} (small : x.toNat < 2 ^ 31) (nonneg : 0 ≤ n)
    (fits : n < 2 ^ 31) : ((x + BitVec.ofInt 32 n).toNat : Int) = x.toNat + n := by
  obtain ⟨k, rfl⟩ := Int.eq_ofNat_of_zero_le nonneg
  rw [BitVec.ofInt_natCast, BitVec.toNat_add, BitVec.toNat_ofNat]
  omega

theorem cut_eq_iff {low high a b : Int} :
    max (min a high) low = max (min b high) low ↔
      a = b ∨ high ≤ low ∨ (a ≤ low ∧ b ≤ low) ∨ (high ≤ a ∧ high ≤ b) := by
  omega

theorem ceilDiv_mod_lt {n d : Nat} (pos : 0 < d) (word : d < 2 ^ 32) (large : 2 ^ 32 ≤ n) :
    n % 2 ^ 32 ⌈/⌉ d < n ⌈/⌉ d := by
  have le : n ≤ d * (n ⌈/⌉ d) := le_smul_ceilDiv pos
  have some_ : 0 < n ⌈/⌉ d := by
    rcases Nat.eq_zero_or_pos (n ⌈/⌉ d) with zero | pos'
    · rw [zero] at le
      omega
    · exact pos'
  have less : n % 2 ^ 32 ⌈/⌉ d ≤ n ⌈/⌉ d - 1 := by
    rw [ceilDiv_le_iff_le_mul pos, Nat.mul_sub, Nat.mul_one]
    omega
  omega

end Arithmetic

section Windows

variable {mode : ReductionBound} {deliveredBytes : BitVec 32} {tcb : TcpSocketState}
variable {s : PrrState}

/-- The send count that `doRecovery` computes. -/
def sendCount (mode : ReductionBound) (deliveredBytes : BitVec 32) (tcb : TcpSocketState)
    (s : PrrState) : Int :=
  let s := { s with prrDelivered := s.prrDelivered + deliveredBytes }
  if tcb.ssThresh < tcb.bytesInFlight then proportional tcb s
  else min (limit mode deliveredBytes tcb s) (tcb.ssThresh - tcb.bytesInFlight).toInt

theorem toInt_lt (x : Int) : toInt x < 2 ^ 31 := by
  unfold toInt
  split
  · next h => exact h.2
  · decide

theorem sendCount_lt : sendCount mode deliveredBytes tcb s < 2 ^ 31 := by
  rw [sendCount]
  split
  · rw [proportional]
    split
    · decide
    · exact toInt_lt _
  · exact Int.lt_of_le_of_lt (min_le_right _ _) BitVec.toInt_lt

/-- The window is exact when the send count is. -/
theorem doRecovery_cWnd (pipe : tcb.bytesInFlight.toNat < 2 ^ 31)
    (segment : tcb.segmentSize.toNat < 2 ^ 31) :
    ((doRecovery mode deliveredBytes tcb s).1.cWnd.toNat : Int) =
      tcb.bytesInFlight.toNat + max (sendCount mode deliveredBytes tcb s) (forced tcb s) := by
  have first : (if 0 < s.prrOut then 0 else tcb.segmentSize.toInt) = (forced tcb s : Int) := by
    have zero : 0 < s.prrOut ↔ s.prrOut.toNat ≠ 0 := by exact Nat.pos_iff_ne_zero
    rw [forced]
    by_cases out : s.prrOut.toNat = 0
    · rw [if_neg (by rw [zero]; exact fun some_ => some_ out), if_pos out,
        BitVec.toInt_eq_toNat_of_lt (by omega)]
    · rw [if_pos (zero.mpr out), if_neg out]
      rfl
  have small : (forced tcb s : Int) < 2 ^ 31 := by
    unfold forced
    split <;> omega
  have window : (doRecovery mode deliveredBytes tcb s).1.cWnd = tcb.bytesInFlight +
      BitVec.ofInt 32 (max (sendCount mode deliveredBytes tcb s) (forced tcb s)) := by
    rw [← first]
    rfl
  rw [window]
  exact add_ofInt_toNat pipe (le_max_of_le_right (Int.natCast_nonneg _))
    (max_lt sendCount_lt small)

/-- Above the threshold. -/
theorem proportional_exact_iff (flight : 0 < s.recoveryFlightSize.toNat)
    (above : tcb.ssThresh < tcb.bytesInFlight) :
    max (sendCount mode deliveredBytes tcb s) (forced tcb s) =
        max (exactProportion deliveredBytes tcb s) (forced tcb s) ↔
      ProportionFits deliveredBytes tcb s := by
  have product : ((s.prrDelivered + deliveredBytes) * tcb.ssThresh).toNat =
      delivered deliveredBytes s * tcb.ssThresh.toNat % 2 ^ 32 := by
    rw [BitVec.toNat_mul, BitVec.toNat_add, Nat.mod_mul_mod, delivered]
  have nonzero : s.recoveryFlightSize ≠ 0 := by
    rintro zero
    rw [zero] at flight
    exact absurd flight (by decide)
  have word := s.recoveryFlightSize.isLt
  rw [sendCount, if_pos above, proportional, if_neg nonzero, product, ProportionFits,
    exactProportion]
  have cut : delivered deliveredBytes s * tcb.ssThresh.toNat < 2 ^ 32 ∧
        delivered deliveredBytes s * tcb.ssThresh.toNat % 2 ^ 32 ⌈/⌉ s.recoveryFlightSize.toNat =
          delivered deliveredBytes s * tcb.ssThresh.toNat ⌈/⌉ s.recoveryFlightSize.toNat ∨
      ¬ delivered deliveredBytes s * tcb.ssThresh.toNat < 2 ^ 32 ∧
        delivered deliveredBytes s * tcb.ssThresh.toNat % 2 ^ 32 ⌈/⌉ s.recoveryFlightSize.toNat <
          delivered deliveredBytes s * tcb.ssThresh.toNat ⌈/⌉ s.recoveryFlightSize.toNat := by
    by_cases small : delivered deliveredBytes s * tcb.ssThresh.toNat < 2 ^ 32
    · exact .inl ⟨small, by rw [Nat.mod_eq_of_lt small]⟩
    · exact .inr ⟨small, ceilDiv_mod_lt flight word (by omega)⟩
  unfold toInt
  dsimp only
  split <;> omega

theorem gap_toInt (thresh : tcb.ssThresh.toNat < 2 ^ 31)
    (below : ¬ tcb.ssThresh < tcb.bytesInFlight) :
    (tcb.ssThresh - tcb.bytesInFlight).toInt =
      (tcb.ssThresh.toNat : Int) - tcb.bytesInFlight.toNat := by
  rw [BitVec.lt_def] at below
  have le : tcb.bytesInFlight ≤ tcb.ssThresh := BitVec.le_def.mpr (by omega)
  have gap : (tcb.ssThresh - tcb.bytesInFlight).toNat =
      tcb.ssThresh.toNat - tcb.bytesInFlight.toNat := BitVec.toNat_sub_of_le le
  rw [BitVec.toInt_eq_toNat_of_lt (by omega), gap]
  omega

theorem unsent_toNat : (s.prrDelivered + deliveredBytes - s.prrOut).toNat =
    (delivered deliveredBytes s + 2 ^ 32 - s.prrOut.toNat) % 2 ^ 32 := by
  rw [BitVec.toNat_sub, BitVec.toNat_add, delivered]
  omega

theorem limit_ssrb_toNat :
    ((if s.prrDelivered + deliveredBytes - s.prrOut < deliveredBytes then deliveredBytes
      else s.prrDelivered + deliveredBytes - s.prrOut) + tcb.segmentSize).toNat =
      unsignedSum deliveredBytes tcb s % 2 ^ 32 := by
  have larger : (if s.prrDelivered + deliveredBytes - s.prrOut < deliveredBytes then deliveredBytes
      else s.prrDelivered + deliveredBytes - s.prrOut).toNat =
      max (s.prrDelivered + deliveredBytes - s.prrOut).toNat deliveredBytes.toNat := by
    split
    · next less =>
      rw [BitVec.lt_def] at less
      omega
    · next notLess =>
      rw [BitVec.lt_def] at notLess
      omega
  rw [BitVec.toNat_add, larger, unsent_toNat, unsignedSum]

/-- Up to the threshold, with the conservative bound. -/
theorem crb_exact_iff (thresh : tcb.ssThresh.toNat < 2 ^ 31)
    (below : ¬ tcb.ssThresh < tcb.bytesInFlight) :
    max (sendCount .crb deliveredBytes tcb s) (forced tcb s) =
        max (exactCount .crb deliveredBytes tcb s) (forced tcb s) ↔
      tcb.ssThresh.toNat ≤ tcb.bytesInFlight.toNat + forced tcb s ∨
        DifferenceFits deliveredBytes s (tcb.ssThresh.toNat - tcb.bytesInFlight.toNat) := by
  have gap := gap_toInt thresh below
  have unsent := @unsent_toNat deliveredBytes s
  have read := toInt_cases (s.prrDelivered + deliveredBytes - s.prrOut)
  have words : delivered deliveredBytes s < 2 ^ 33 := by
    unfold delivered
    omega
  have first : forced tcb s = 0 ∨ s.prrOut.toNat = 0 := by
    unfold forced
    split <;> omega
  rw [sendCount, exactCount, if_neg (by rwa [BitVec.lt_def]), if_neg (by rwa [BitVec.lt_def]),
    limit, exactLimit, gap, DifferenceFits, cut_eq_iff]
  dsimp only
  generalize forced tcb s = first at *
  rcases read with ⟨low, read⟩ | ⟨high, read⟩ <;> omega

/-- The sum, and the bound that it stands for. -/
structure Sums (out first seg more D z bound : Nat) : Prop where
  same : out ≤ D → D < out + 2 ^ 32 → z = bound
  overtaken : D < out → bound = more + seg ∧ z = max (D + 2 ^ 32 - out) more + seg
  wrapped : out + 2 ^ 32 ≤ D → 2 ^ 32 ≤ bound
  small : z < 2 ^ 32 + 2 ^ 31
  first : first = 0 ∨ out = 0 ∧ first = seg
  segment : seg ≤ bound

section Sums

variable {out first seg more D z bound gap : Nat} (sums : Sums out first seg more D z bound)
include sums

theorem Sums.first_lt (segment : seg < 2 ^ 31) : first < 2 ^ 31 := by
  rcases sums.first with none | ⟨-, some_⟩ <;> omega

theorem Sums.ne (more_ : more < 2 ^ 32) (large : 2 ^ 31 ≤ z) : z ≠ bound + 2 ^ 32 := by
  obtain ⟨same, overtaken, wrapped, small, -, -⟩ := sums
  rcases Nat.lt_or_ge D out with less | le
  · obtain ⟨rfl, rfl⟩ := overtaken less
    omega
  · rcases Nat.lt_or_ge D (out + 2 ^ 32) with near | far
    · have := same le near
      omega
    · have := wrapped far
      omega

theorem Sums.eq_of_le (segment : seg < 2 ^ 31) (bound_ : bound ≤ first) : z = bound ∨ bound = 0 ∧
    2 ^ 31 ≤ z ∧ z ≤ 2 ^ 32 ∨
    bound = 0 ∧ z < 2 ^ 31 ∧ first < z := by
  obtain ⟨same, overtaken, wrapped, small, first_, segment_⟩ := sums
  rcases Nat.lt_or_ge D out with less | le
  · obtain ⟨rfl, rfl⟩ := overtaken less
    omega
  · rcases Nat.lt_or_ge D (out + 2 ^ 32) with near | far
    · exact .inl (same le near)
    · have := wrapped far
      omega

theorem Sums.gap_le (more_ : more < 2 ^ 32) (exceeds : 2 ^ 32 + gap ≤ z) : gap ≤ bound := by
  obtain ⟨same, overtaken, wrapped, small, -, -⟩ := sums
  rcases Nat.lt_or_ge D out with less | le
  · obtain ⟨rfl, rfl⟩ := overtaken less
    omega
  · rcases Nat.lt_or_ge D (out + 2 ^ 32) with near | far
    · have := same le near
      omega
    · have := wrapped far
      omega

end Sums

/-- The sum and the bound of a state. -/
theorem sums (segment : tcb.segmentSize.toNat < 2 ^ 31) :
    Sums s.prrOut.toNat (forced tcb s) tcb.segmentSize.toNat deliveredBytes.toNat
      (delivered deliveredBytes s) (unsignedSum deliveredBytes tcb s)
      (max (delivered deliveredBytes s - s.prrOut.toNat) deliveredBytes.toNat +
        tcb.segmentSize.toNat) := by
  unfold unsignedSum
  generalize delivered deliveredBytes s = D at *
  constructor
  · intro le near
    rw [show D + 2 ^ 32 - s.prrOut.toNat = D - s.prrOut.toNat + 2 ^ 32 by omega,
      Nat.add_mod_right, Nat.mod_eq_of_lt (by omega)]
  · intro less
    rw [Nat.mod_eq_of_lt (by omega)]
    omega
  · intro far
    omega
  · omega
  · unfold forced
    split
    · next zero => exact .inr ⟨zero, rfl⟩
    · exact .inl rfl
  · omega

/-- Up to the threshold, with the slow start bound. -/
theorem ssrb_exact_iff (thresh : tcb.ssThresh.toNat < 2 ^ 31)
    (segment : tcb.segmentSize.toNat < 2 ^ 31) (retrans : tcb.isRetransDataAcked = true)
    (below : ¬ tcb.ssThresh < tcb.bytesInFlight) :
    max (sendCount .ssrb deliveredBytes tcb s) (forced tcb s) =
        max (exactCount .ssrb deliveredBytes tcb s) (forced tcb s) ↔
      tcb.ssThresh.toNat ≤ tcb.bytesInFlight.toNat + forced tcb s ∨
        SumFits deliveredBytes tcb s (tcb.ssThresh.toNat - tcb.bytesInFlight.toNat) := by
  have sum := @limit_ssrb_toNat deliveredBytes tcb s
  have read := toInt_cases ((if s.prrDelivered + deliveredBytes - s.prrOut < deliveredBytes then
    deliveredBytes else s.prrDelivered + deliveredBytes - s.prrOut) + tcb.segmentSize)
  have sums_ := @sums deliveredBytes tcb s segment
  have bound : max ((delivered deliveredBytes s : Int) - s.prrOut.toNat) deliveredBytes.toNat +
      tcb.segmentSize.toNat = (max (delivered deliveredBytes s - s.prrOut.toNat)
        deliveredBytes.toNat + tcb.segmentSize.toNat : Nat) := by omega
  rw [sendCount, exactCount, if_neg below, if_neg below, limit, exactLimit, if_pos retrans,
    gap_toInt thresh below, bound, SumFits, cut_eq_iff]
  rw [BitVec.lt_def] at below
  have ne := sums_.ne deliveredBytes.isLt
  have eq_of_le := sums_.eq_of_le segment
  have gap_le : 2 ^ 32 + (tcb.ssThresh.toNat - tcb.bytesInFlight.toNat) ≤ _ → _ :=
    sums_.gap_le deliveredBytes.isLt
  have small := sums_.small
  generalize ((if s.prrDelivered + deliveredBytes - s.prrOut < deliveredBytes then
    deliveredBytes else s.prrDelivered + deliveredBytes - s.prrOut) + tcb.segmentSize).toInt = y
    at *
  generalize unsignedSum deliveredBytes tcb s = z at *
  generalize forced tcb s = first at *
  have gap : (tcb.ssThresh.toNat : Int) - tcb.bytesInFlight.toNat =
      (tcb.ssThresh.toNat - tcb.bytesInFlight.toNat : Nat) := by omega
  have floor : tcb.ssThresh.toNat ≤ tcb.bytesInFlight.toNat + first ↔
      tcb.ssThresh.toNat - tcb.bytesInFlight.toNat ≤ first := by omega
  have value : (z < 2 ^ 31 ∧ y = z) ∨ (2 ^ 31 ≤ z ∧ y = z - 2 ^ 32) := by
    clear ne eq_of_le gap_le
    omega
  clear read gap floor small
  rcases value with ⟨low, rfl⟩ | ⟨high, rfl⟩
  · clear ne gap_le
    constructor
    · rintro (same | none | ⟨least, least_⟩ | ⟨exceeds, exceeds_⟩)
      · exact .inr (.inl ⟨low, .inl (by omega)⟩)
      · exact .inl (by omega)
      · have := eq_of_le (by omega)
        exact .inr (.inl ⟨low, .inl (by omega)⟩)
      · exact .inr (.inl ⟨low, .inr ⟨by omega, by omega⟩⟩)
    · rintro (none | ⟨-, same | ⟨exceeds, exceeds_⟩⟩ | beyond | ⟨zero, high⟩)
      · exact .inr (.inl (by omega))
      · exact .inl (by omega)
      · exact .inr (.inr (.inr ⟨by omega, by omega⟩))
      · omega
      · omega
  · have ne := ne high
    constructor
    · rintro (same | none | ⟨least, least_⟩ | ⟨exceeds, exceeds_⟩)
      · omega
      · exact .inl (by omega)
      · have := eq_of_le (by omega)
        omega
      · exact .inr (.inr (.inl (by omega)))
    · rintro (none | ⟨low, -⟩ | beyond | ⟨zero, -⟩)
      · exact .inr (.inl (by omega))
      · omega
      · have := gap_le beyond
        exact .inr (.inr (.inr ⟨by omega, by omega⟩))
      · have := eq_of_le (by omega)
        exact .inr (.inr (.inl ⟨by omega, by omega⟩))

end Windows

/-- The window is the one of exact arithmetic if and only if every value stays within its type,
or the bound it enters does not decide. -/
theorem doRecovery_exact_iff (mode : ReductionBound) (deliveredBytes : BitVec 32)
    (tcb : TcpSocketState) (s : PrrState) (flight : 0 < s.recoveryFlightSize.toNat)
    (pipe : tcb.bytesInFlight.toNat < 2 ^ 31) (thresh : tcb.ssThresh.toNat < 2 ^ 31)
    (segment : tcb.segmentSize.toNat < 2 ^ 31)
    (bound : tcb.ssThresh < tcb.bytesInFlight ∨ mode = .crb ∨ tcb.isRetransDataAcked = true) :
    ((doRecovery mode deliveredBytes tcb s).1.cWnd.toNat : Int) =
        exactWindow mode deliveredBytes tcb s ↔ Fits mode deliveredBytes tcb s := by
  rw [doRecovery_cWnd pipe segment, exactWindow, Int.add_right_inj]
  unfold Fits
  by_cases above : tcb.ssThresh < tcb.bytesInFlight
  · rw [if_pos above, exactCount, if_pos above]
    exact proportional_exact_iff flight above
  · rw [if_neg above]
    cases mode with
    | crb => exact crb_exact_iff thresh above
    | ssrb =>
      have retrans : tcb.isRetransDataAcked = true := by
        rcases bound with absurd_ | absurd_ | retrans
        · exact absurd absurd_ above
        · exact absurd absurd_ (by decide)
        · exact retrans
      exact ssrb_exact_iff thresh segment retrans above

/-- A recovery from 60000 bytes in flight with half of them delivered: what may be sent above the
threshold is in proportion to that. -/
theorem doRecovery_exact_proportion :
    ((doRecovery .ssrb 1000 { ssThresh := 30000, bytesInFlight := 31000, segmentSize := 1000 }
        { prrDelivered := 29000, prrOut := 14000, recoveryFlightSize := 60000 }).1.cWnd.toNat
          : Int) =
      exactWindow .ssrb 1000 { ssThresh := 30000, bytesInFlight := 31000, segmentSize := 1000 }
        { prrDelivered := 29000, prrOut := 14000, recoveryFlightSize := 60000 } := by
  refine (doRecovery_exact_iff .ssrb 1000 _ _ (by decide) (by decide) (by decide) (by decide)
    (Or.inl (by decide))).mpr ?_
  rw [Fits, if_pos (by decide)]
  exact Or.inl ⟨by decide, by decide⟩

/-- With windows of 200000 bytes the product of the bytes delivered and the threshold leaves 32
bits: 5000 bytes may be sent, and the window allows none. Once more was sent than delivered, the
slow start bound is a difference that is read as a large unsigned number: 3000 bytes may be sent,
and the window allows none again. -/
theorem doRecovery_window_shrinks :
    ((doRecovery .ssrb 0
          { ssThresh := 100000, bytesInFlight := 150000, segmentSize := 1000 }
          { prrDelivered := 100000, prrOut := 45000, recoveryFlightSize := 200000 }).1.cWnd = 150000
      ∧ exactWindow .ssrb 0
          { ssThresh := 100000, bytesInFlight := 150000, segmentSize := 1000 }
          { prrDelivered := 100000, prrOut := 45000, recoveryFlightSize := 200000 } = 155000) ∧
      (doRecovery .ssrb 2000
          { ssThresh := 30000, bytesInFlight := 20000, segmentSize := 1000
            isRetransDataAcked := true }
          { prrDelivered := 3000, prrOut := 6000, recoveryFlightSize := 60000 }).1.cWnd = 20000 ∧
      exactWindow .ssrb 2000
          { ssThresh := 30000, bytesInFlight := 20000, segmentSize := 1000
            isRetransDataAcked := true }
          { prrDelivered := 3000, prrOut := 6000, recoveryFlightSize := 60000 } = 23000 := by
  decide

end Ns3.TcpPrrRecovery
