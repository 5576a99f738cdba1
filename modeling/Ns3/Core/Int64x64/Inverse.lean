import Ns3.Core.Int64x64.Division
import Ns3.Core.Int64x64.Basic
import Ns3.Library.Division

/-!
# Division by an integer through its inverse

`Invert` computes the inverse of an integer to 128 bits after the point, rounded up: the trial
multiplication tells whether the rounded quotient is exact. The product of an integer with it
has no partial product that is dropped, and its error stays below one unit of the quotient.
-/

namespace Ns3

namespace Int64x64

/-! ## Nothing overflows -/

/-- The products and sums of `UmulByInvert` fit in 128 bits. -/
structure UmulByInvertFits (a b : UInt128) : Prop where
  hi : (a >>> 64).toNat * (b >>> 64).toNat < 2 ^ 128
  left : (a >>> 64).toNat * (b &&& hpMaskLo.setWidth 128).toNat < 2 ^ 128
  right : (a &&& hpMaskLo.setWidth 128).toNat * (b >>> 64).toNat < 2 ^ 128
  mid : (a >>> 64).toNat * (b &&& hpMaskLo.setWidth 128).toNat +
    (a &&& hpMaskLo.setWidth 128).toNat * (b >>> 64).toNat < 2 ^ 128
  result : (a >>> 64).toNat * (b >>> 64).toNat +
    ((a >>> 64).toNat * (b &&& hpMaskLo.setWidth 128).toNat +
      (a &&& hpMaskLo.setWidth 128).toNat * (b >>> 64).toNat) / 2 ^ 64 < 2 ^ 128

/-- `MulByInvert` negates no number whose negative does not fit, and its result fits. -/
structure MulByInvertFits (x o : Int64x64) : Prop where
  negation : -2 ^ 127 < x.v.toInt
  product : UmulByInvertFits (if x.v.slt 0 then -x.v else x.v) o.v
  result : (umulByInvert (if x.v.slt 0 then -x.v else x.v) o.v).toNat < 2 ^ 127

/-- The division and the trial multiplication of `Invert` fit, and so does the number of
`Invert` with one added. -/
structure InvertFits (profile : BuildProfile) (v : BitVec 64) : Prop where
  division : UdivFits profile ((1 : UInt128) <<< 64) (v.setWidth 128)
  trial : ∀ result, udiv profile ((1 : UInt128) <<< 64) (v.setWidth 128) = some result →
    MulByInvertFits (ofParts v 0) ⟨result⟩
  correction : ∀ result, udiv profile ((1 : UInt128) <<< 64) (v.setWidth 128) = some result →
    ((ofParts v 0).mulByInvert ⟨result⟩).getHigh ≠ 1 → result.toInt + 1 < 2 ^ 127

/-! ## Reading and constructing -/

theorem ofInt_toInt (x : BitVec 64) : (ofInt x).v.toInt = x.toInt * 2 ^ 64 := by
  have low := BitVec.le_toInt x
  have high := BitVec.toInt_lt (x := x)
  have extended : (x.signExtend 128).toInt = x.toInt := BitVec.toInt_signExtend_of_le (by decide)
  rw [BitVec.toInt_eq_toNat_cond] at extended
  rw [ofInt, BitVec.toInt_shiftLeft, Nat.shiftLeft_eq, Int.bmod_def]
  split at extended <;> split <;> omega

theorem ofParts_toNat {v : BitVec 64} (small : v.toNat < 2 ^ 63) :
    (ofParts v 0).v.toNat = v.toNat * 2 ^ 64 := by
  have positive : v.msb = false := by
    rw [BitVec.msb_eq_decide, decide_eq_false_iff_not]
    omega
  have zero : (0 : BitVec 64).setWidth 128 = 0#128 := rfl
  simp only [ofParts, zero, BitVec.or_zero, BitVec.toNat_shiftLeft, BitVec.toNat_signExtend,
    positive, Bool.false_eq_true, if_false, BitVec.toNat_setWidth, Nat.shiftLeft_eq]
  omega

theorem toInt_of_lt (negative : Bool) {r : UInt128} (small : r.toNat < 2 ^ 127) :
    (if negative then -r else r).toInt = if negative then -(r.toNat : Int) else r.toNat := by
  rw [toInt_signed negative (Nat.mod_eq_of_lt r.isLt).symm, bmod_eq_iff]
  split <;> omega

/-- `GetInt` truncates toward zero. -/
theorem getInt_signed (negative : Bool) {r : UInt128} (small : r.toNat < 2 ^ 127) :
    (getInt ⟨if negative then -r else r⟩).toInt =
      if negative then -((r.toNat / 2 ^ 64 : Nat) : Int) else (r.toNat / 2 ^ 64 : Nat) := by
  have value := toInt_of_lt negative small
  generalize (if negative then -r else r) = w at value
  have magnitude : (if w.slt 0 then -w else w).toNat = r.toNat := by
    rw [toNat_magnitude, value]
    split <;> omega
  generalize whole : ((if w.slt 0 then -w else w) >>> 64).setWidth 64 = retval
  have high : retval.toNat = r.toNat / 2 ^ 64 := by
    rw [← whole, BitVec.toNat_setWidth, toNat_high, magnitude]
    omega
  have back : retval.toInt = (r.toNat / 2 ^ 64 : Nat) := by
    rw [BitVec.toInt_eq_toNat_of_lt (by omega), high]
  have read : getInt ⟨w⟩ = if w.slt 0 then -retval else retval := by rw [← whole, getInt]
  rw [read, slt_zero, value]
  cases negative with
  | false =>
    have positive : decide ((r.toNat : Int) < 0) = false := by simp
    simp [positive, back]
  | true =>
    simp only [if_true]
    split
    · rw [BitVec.toInt_neg, back, Int.bmod_def]
      split <;> omega
    · rename_i zero
      rw [decide_eq_true_eq] at zero
      omega

/-! ## Products with an inverse -/

section

variable {n : Nat} {a b : UInt128}

/-- The product of an integer with an inverse. -/
theorem umulByInvert_spec (whole : a.toNat = n * 2 ^ 64) (small : n ≤ 2 ^ 63)
    (inverse : b.toNat ≤ 2 ^ 127) :
    (umulByInvert a b).toNat = n * b.toNat / 2 ^ 64 ∧ UmulByInvertFits a b := by
  have high : (a >>> 64).toNat = n := by rw [toNat_high, whole, Nat.mul_div_cancel _ (by decide)]
  have low : (a &&& hpMaskLo.setWidth 128).toNat = 0 := by
    rw [toNat_and_hpMaskLo, whole, Nat.mul_mod_left]
  have parts : n * b.toNat / 2 ^ 64 =
      n * (b.toNat / 2 ^ 64) + n * (b.toNat % 2 ^ 64) / 2 ^ 64 := by
    calc n * b.toNat / 2 ^ 64
        = (n * (b.toNat % 2 ^ 64) + n * (b.toNat / 2 ^ 64) * 2 ^ 64) / 2 ^ 64 := by
          conv_lhs => rw [halves b]
          congr 1
          ring
      _ = n * (b.toNat / 2 ^ 64) + n * (b.toNat % 2 ^ 64) / 2 ^ 64 := by
          rw [Nat.add_mul_div_right _ _ (by decide), Nat.add_comm]
  have top : b.toNat / 2 ^ 64 ≤ 2 ^ 63 := by omega
  have bottom : b.toNat % 2 ^ 64 ≤ 2 ^ 64 := by omega
  have hi := Nat.mul_le_mul small top
  have mid := Nat.mul_le_mul small bottom
  have fits : UmulByInvertFits a b := by
    constructor <;>
      simp only [high, low, toNat_high, toNat_and_hpMaskLo, Nat.zero_mul, Nat.add_zero] <;> omega
  refine ⟨?_, fits⟩
  simp only [umulByInvert, BitVec.toNat_add, BitVec.toNat_mul, BitVec.toNat_ushiftRight, low, high,
    toNat_and_hpMaskLo, Nat.shiftRight_eq_div_pow, Nat.zero_mul, parts]
  omega

end

section

variable {x o : Int64x64} {n : Nat}

theorem mulByInvert_spec (whole : x.v.toInt.natAbs = n * 2 ^ 64) (small : n < 2 ^ 63)
    (inverse : o.v.toNat ≤ 2 ^ 127) :
    ∃ r : UInt128, x.mulByInvert o = ⟨if x.v.slt 0 then -r else r⟩ ∧
      r.toNat = n * o.v.toNat / 2 ^ 64 ∧ r.toNat < 2 ^ 127 ∧ MulByInvertFits x o := by
  have magnitude : (if x.v.slt 0 then -x.v else x.v).toNat = n * 2 ^ 64 := by
    rw [toNat_magnitude, whole]
  obtain ⟨product, fits⟩ := umulByInvert_spec magnitude small.le inverse
  have bound := Nat.mul_le_mul small.le inverse
  have below : (umulByInvert (if x.v.slt 0 then -x.v else x.v) o.v).toNat < 2 ^ 127 := by omega
  refine ⟨_, rfl, product, below, ?_, fits, below⟩
  omega

end

/-- The trial multiplication finds out whether the quotient leaves nothing. -/
theorem trial_exact {v : BitVec 64} {q : UInt128} (above : 1 < v.toNat)
    (small : v.toNat < 2 ^ 63) (quotient : q.toNat = 2 ^ 128 / v.toNat) :
    (((ofParts v 0).mulByInvert ⟨q⟩).getHigh = 1 ↔ 2 ^ 128 / v.toNat * v.toNat = 2 ^ 128) ∧
      MulByInvertFits (ofParts v 0) ⟨q⟩ := by
  have half : 2 ^ 128 / v.toNat ≤ 2 ^ 127 := Nat.div_le_of_le_mul (by omega)
  have nonneg : (ofParts v 0).v.toInt = v.toNat * 2 ^ 64 := by
    rw [BitVec.toInt_eq_toNat_of_lt (by rw [ofParts_toNat small]; omega), ofParts_toNat small]
    rfl
  obtain ⟨r, trial, value, below, fits⟩ := mulByInvert_spec (x := ofParts v 0) (o := ⟨q⟩)
    (n := v.toNat) (by omega) small (quotient.trans_le half)
  refine ⟨?_, fits⟩
  have positive : (ofParts v 0).v.slt 0 = false := by
    rw [slt_zero, nonneg, decide_eq_false_iff_not]
    omega
  have most : 2 ^ 128 / v.toNat * v.toNat ≤ 2 ^ 128 := Nat.div_mul_le_self _ _
  rw [quotient, Nat.mul_comm] at value
  have unsigned : r.msb = false := by
    rw [BitVec.msb_eq_decide, decide_eq_false_iff_not]
    omega
  have high : (((ofParts v 0).mulByInvert ⟨q⟩).getHigh).toNat =
      2 ^ 128 / v.toNat * v.toNat / 2 ^ 64 / 2 ^ 64 := by
    rw [trial, positive, getHigh, BitVec.toNat_setWidth]
    simp only [Bool.false_eq_true, if_false]
    rw [BitVec.sshiftRight_eq_of_msb_false unsigned, toNat_high, value]
    omega
  have one : (1 : BitVec 64).toNat = 1 := by decide
  rw [← BitVec.toNat_inj, high, one]
  omega

/-- The number of `Invert` is the inverse, rounded up. -/
theorem invert_spec (profile : BuildProfile) {v : BitVec 64} (above : 1 < v.toNat)
    (small : v.toNat < 2 ^ 63) :
    ∃ inverse, invert profile v = some inverse ∧
      Reciprocal.RoundedUp (2 ^ 128) v.toNat inverse.v.toNat ∧ inverse.v.toNat ≤ 2 ^ 127 ∧
      InvertFits profile v := by
  have one : ((1 : UInt128) <<< 64).toNat = 2 ^ 64 := by decide
  have wide : (v.setWidth 128).toNat = v.toNat := by
    rw [BitVec.toNat_setWidth]
    omega
  have fraction : ((1 : UInt128) <<< 64).toNat / (v.setWidth 128).toNat < 2 ^ 64 := by
    exact Nat.div_lt_self (by decide) above
  obtain ⟨q, divided, quotient⟩ := udiv_quotient profile (a := (1 : UInt128) <<< 64)
    (b := v.setWidth 128) (by omega) (by omega) fraction
  have division := udiv_fits profile (a := (1 : UInt128) <<< 64) (b := v.setWidth 128)
    (by omega) (by omega) fraction
  have power : 2 ^ 64 * 2 ^ 64 = 2 ^ 128 := by decide
  rw [one, wide, power] at quotient
  obtain ⟨exact_, trial⟩ := trial_exact above small quotient
  have rounded := Reciprocal.roundedUp_div (N := 2 ^ 128) (v := v.toNat) (by omega)
  -- only the inverse of two fills all 128 bits, and it is exact
  have room : 2 ^ 128 / v.toNat * v.toNat ≠ 2 ^ 128 → 2 ^ 128 / v.toNat + 1 < 2 ^ 127 := by
    intro inexact
    have three : 3 ≤ v.toNat := by
      by_contra less
      have two : v.toNat = 2 := by omega
      rw [two] at inexact
      exact inexact (by decide)
    have third : 2 ^ 128 / v.toNat ≤ 2 ^ 128 / 3 := Nat.div_le_div_left three (by decide)
    omega
  have half : 2 ^ 128 / v.toNat ≤ 2 ^ 127 := Nat.div_le_of_le_mul (by omega)
  have corrected : (if ((ofParts v 0).mulByInvert ⟨q⟩).getHigh ≠ 1 then q + 1 else q).toNat =
      if 2 ^ 128 / v.toNat * v.toNat = 2 ^ 128 then 2 ^ 128 / v.toNat
      else 2 ^ 128 / v.toNat + 1 := by
    by_cases leaves : 2 ^ 128 / v.toNat * v.toNat = 2 ^ 128
    · rw [if_pos leaves, if_neg (not_not_intro (exact_.mpr leaves)), quotient]
    · have unit : (1 : UInt128).toNat = 1 := by decide
      have inexact := room leaves
      rw [if_neg leaves, if_pos (mt exact_.mp leaves), BitVec.toNat_add, quotient, unit]
      exact Nat.mod_eq_of_lt (inexact.trans (by decide))
  have asserted : decide (1 < v) = true := by
    rw [decide_eq_true_eq, BitVec.lt_def]
    exact above
  refine ⟨⟨if ((ofParts v 0).mulByInvert ⟨q⟩).getHigh ≠ 1 then q + 1 else q⟩, ?_, ?_, ?_,
    division, ?_, ?_⟩
  · simp only [invert, asserted, nsAssert_true, divided, some_bind, pure_some]
  · rw [corrected]
    exact rounded
  · rw [corrected]
    split
    · exact half
    · rename_i inexact
      exact (room inexact).le
  · intro result returned
    rw [divided, Option.some.injEq] at returned
    exact returned ▸ trial
  · intro result returned high
    rw [divided, Option.some.injEq] at returned
    subst returned
    have inexact := room (mt exact_.mpr high)
    have positive : q.toInt = q.toNat := BitVec.toInt_eq_toNat_of_lt (by omega)
    omega

theorem tdiv_sign (a : Int) (n : Nat) :
    a.tdiv n = if decide (a < 0) then -((a.natAbs / n : Nat) : Int) else (a.natAbs / n : Nat) := by
  cases a with
  | ofNat a => simp
  | negSucc a =>
    rw [Int.negSucc_eq, Int.neg_tdiv]
    have negative : -((a : Int) + 1) < 0 := by omega
    have magnitude : (-((a : Int) + 1)).natAbs = a + 1 := by omega
    simp only [negative, decide_true, if_true, magnitude]
    rfl

/-- Multiplication by the inverse of an integer is division by it, and nothing overflows. -/
theorem mulByInvert_getInt (profile : BuildProfile) {x v : BitVec 64}
    (range : x.toInt.natAbs < 2 ^ 63) (above : 1 < v.toNat) (small : v.toNat < 2 ^ 63) :
    ∃ inverse, invert profile v = some inverse ∧
      ((ofInt x).mulByInvert inverse).getInt.toInt = x.toInt.tdiv v.toNat ∧
      InvertFits profile v ∧ MulByInvertFits (ofInt x) inverse := by
  obtain ⟨inverse, returned, rounded, most, fits⟩ := invert_spec profile above small
  have whole := ofInt_toInt x
  obtain ⟨r, product, value, below, multiplied⟩ := mulByInvert_spec (x := ofInt x) (o := inverse)
    (n := x.toInt.natAbs) (by omega) range most
  refine ⟨inverse, returned, ?_, fits, multiplied⟩
  have wide : x.toInt.natAbs + v.toNat ≤ inverse.v.toNat := by
    by_contra less
    have bound : inverse.v.toNat * v.toNat ≤ 2 ^ 64 * 2 ^ 63 := Nat.mul_le_mul (by omega) small.le
    have reaches := rounded.reaches
    omega
  have quotient : r.toNat / 2 ^ 64 = x.toInt.natAbs / v.toNat := by
    rw [value, Nat.div_div_eq_div_mul, ← Nat.pow_add]
    exact rounded.mul_div (by omega) wide
  have sign : (ofInt x).v.slt 0 = decide (x.toInt < 0) := by
    rw [slt_zero, whole, decide_eq_decide]
    omega
  rw [product, getInt_signed _ below, quotient, sign, tdiv_sign]

/-- Seven thirds below zero. -/
theorem mulByInvert_getInt_seven_thirds :
    ∃ inverse, invert .debug 3 = some inverse ∧
      ((ofInt (-7)).mulByInvert inverse).getInt.toInt = -2 ∧
      InvertFits .debug 3 ∧ MulByInvertFits (ofInt (-7)) inverse :=
  mulByInvert_getInt .debug (x := -7) (v := 3) (by decide) (by decide) (by decide)

end Int64x64

end Ns3
