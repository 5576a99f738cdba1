import Ns3.Core.Assert
import Mathlib.Tactic.Ring
import Mathlib.Tactic.Linarith

/-!
# Fixed-point numbers with 64 bits before and 64 bits after the point

`int64x64_t` in the implementation with the native type `int128_t`. The values of
`uint128_t` and of `int128_t` are bit vectors of 128 bits: the operations on both wrap, and
a conversion between them keeps the bits. `Mul` and `Div` work on the magnitudes of their
operands. `MulByInvert` multiplies by a number with all of its 128 bits after the point, which
`Invert` computes.
-/

namespace Ns3

/-- `uint128_t`. -/
abbrev UInt128 := BitVec 128

/-- `int128_t`. -/
abbrev Int128 := BitVec 128

/-- `int64x64_t`. -/
structure Int64x64 where
  v : Int128
  deriving DecidableEq

namespace Int64x64

/-- `HP_MASK_LO`, a `uint64_t`. -/
def hpMaskLo : BitVec 64 := 0xffffffffffffffff

/-- `HP_MASK_HI`, a `uint64_t` as well. -/
def hpMaskHi : BitVec 64 := ~~~hpMaskLo

/-- `HP128_MASK_HI_BIT`. -/
def hp128MaskHiBit : UInt128 := (1 : UInt128) <<< 127

/-! ## Construction and reading -/

/-- The constructor from a `long int`. -/
def ofInt (value : BitVec 64) : Int64x64 := ⟨value.signExtend 128 <<< 64⟩

/-- The constructor from a high and a low part. -/
def ofParts (hi lo : BitVec 64) : Int64x64 :=
  ⟨hi.signExtend 128 <<< 64 ||| lo.setWidth 128⟩

/-- `GetHigh`. -/
def getHigh (x : Int64x64) : BitVec 64 := (x.v.sshiftRight 64).setWidth 64

/-- `GetInt`. -/
def getInt (x : Int64x64) : BitVec 64 :=
  let negative := x.v.slt 0
  let value : UInt128 := if negative then -x.v else x.v
  let retval := (value >>> 64).setWidth 64
  if negative then -retval else retval

/-! ## Multiplication -/

/-- `output_sign`: is the result negative, and the magnitudes of the operands. -/
def outputSign (sa sb : Int128) : Bool × UInt128 × UInt128 :=
  let negA := sa.slt 0
  let negB := sb.slt 0
  (negA != negB, if negA then -sa else sa, if negB then -sb else sb)

/-- `Umul`. -/
def umul (a b : UInt128) : Option UInt128 := do
  let aL := a &&& hpMaskLo.setWidth 128
  let bL := b &&& hpMaskLo.setWidth 128
  let aH := (a >>> 64) &&& hpMaskLo.setWidth 128
  let bH := (b >>> 64) &&& hpMaskLo.setWidth 128
  let loPart := aL * bL
  let midPart := aL * bH + aH * bL
  let hiPart := aH * bH
  nsAbortIf (hiPart &&& hpMaskHi.setWidth 128 != 0)
  let res1 := loPart >>> 64
  let res2 := midPart &&& hpMaskLo.setWidth 128
  let result := res1 + res2
  let res1 := midPart >>> 64
  let res2 := hiPart &&& hpMaskLo.setWidth 128
  let res1 := (res1 + res2) <<< 64
  return result + res1

/-- `Mul`. -/
def mul (x o : Int64x64) : Option Int64x64 := do
  let (negative, a, b) := outputSign x.v o.v
  let result ← umul a b
  return ⟨if negative then -result else result⟩

/-! ## Division -/

/-- `DIGITS`. -/
def digits : Nat := 64

/-- The variables of `Udiv`. -/
structure Division where
  rem : UInt128
  den : UInt128
  result : UInt128
  digis : Nat
  shift : Nat
  deriving DecidableEq

namespace Division

/-- The loop that skips trailing zeros in the divisor, for at most `room` more digits. -/
def skipTrailing : Nat → Division → Division
  | 0, s => s
  | room + 1, s =>
    if s.den &&& 0x1 = 0 then
      skipTrailing room { s with shift := s.shift + 1, den := s.den >>> 1 }
    else s

/-- The loop that skips leading zeros in the remainder. -/
def skipLeading : Nat → Division → Division
  | 0, s => s
  | room + 1, s =>
    if s.rem &&& hp128MaskHiBit = 0 then
      skipLeading room { s with shift := s.shift + 1, rem := s.rem <<< 1 }
    else s

/-- The loop that casts off bits of the denominator. -/
def castOff : Nat → Division → Division
  | 0, s => s
  | room + 1, s =>
    if s.den &&& 0x1 = 0 ∨ s.rem < s.den then
      castOff room { s with shift := s.shift + 1, den := s.den >>> 1 }
    else s

/-- The digits that are still wanted. -/
def room (s : Division) : Nat := digits - (s.digis + s.shift)

/-- The shifts of a round. -/
def scale (s : Division) : Division :=
  let s := skipLeading s.room s
  castOff s.room s

/-- A round, from the shifts on. A division by zero ends the program. -/
def round (s : Division) : Option Division :=
  let s := s.scale
  if s.den = 0 then none
  else some { s with
    rem := s.rem % s.den
    result := s.result <<< s.shift + s.rem / s.den
    digis := s.digis + s.shift
    shift := 0 }

/-- `(digis < DIGITS) && (rem != ZERO)`. -/
def Goes (s : Division) : Prop := s.digis < digits ∧ s.rem ≠ 0
  deriving Decidable

/-- The loop, for a number of rounds: `none` if it goes on after them. -/
def loop : Nat → Division → Option Division
  | 0, s => if s.Goes then none else some s
  | rounds + 1, s => if s.Goes then s.round.bind (loop rounds) else some s

/-- The digits that are missing when the remainder is zero. -/
def finish (s : Division) : UInt128 :=
  if s.digis < digits then s.result <<< (digits - s.digis) else s.result

end Division

section

variable (profile : BuildProfile)

/-- `Udiv` up to its main loop. -/
def startDivision (a b : UInt128) : Option Division := do
  if b = 0 then none
  else
    nsAssert profile (decide (a % b < b))
    return Division.skipTrailing digits
      { rem := a % b, den := b, result := a / b, digis := 0, shift := 0 }

/-- `Udiv`. No loop of it has more rounds than there are digits. -/
def udiv (a b : UInt128) : Option UInt128 := do
  let s ← startDivision profile a b
  let s ← s.loop digits
  return s.finish

/-- `Div`. -/
def div (x o : Int64x64) : Option Int64x64 := do
  let (negative, a, b) := outputSign x.v o.v
  let result ← udiv profile a b
  return ⟨if negative then -result else result⟩

/-! ## Multiplication by an inverse -/

/-- `UmulByInvert`. -/
def umulByInvert (a b : UInt128) : UInt128 :=
  let ah := a >>> 64
  let bh := b >>> 64
  let al := a &&& hpMaskLo.setWidth 128
  let bl := b &&& hpMaskLo.setWidth 128
  let hi := ah * bh
  let mid := (ah * bl + al * bh) >>> 64
  hi + mid

/-- `MulByInvert`. -/
def mulByInvert (x o : Int64x64) : Int64x64 :=
  let negResult := x.v.slt 0
  let a := if negResult then -x.v else x.v
  let result := umulByInvert a o.v
  ⟨if negResult then -result else result⟩

/-- `Invert`. -/
def invert (v : BitVec 64) : Option Int64x64 := do
  nsAssert profile (decide (1 < v))
  let a := (1 : UInt128) <<< 64
  let result ← udiv profile a (v.setWidth 128)
  let tmp := (ofParts v 0).mulByInvert ⟨result⟩
  return ⟨if tmp.getHigh ≠ 1 then result + 1 else result⟩

end

end Int64x64

end Ns3

/-!
## What `Mul` computes

The four partial products put together are the product of the magnitudes without its 64 lowest
bits, modulo `2 ^ 128`. `HP_MASK_HI` is the complement of a `uint64_t` with all bits set, so it is
zero and the test for an overflow never holds: what does not fit in 128 bits is lost.
-/

namespace Ns3

namespace Int64x64

theorem overflow_test (hiPart : UInt128) : (hiPart &&& hpMaskHi.setWidth 128 != 0) = false := by
  have mask : hpMaskHi.setWidth 128 = 0#128 := by decide
  simp [mask]

theorem toNat_and_hpMaskLo (a : UInt128) :
    (a &&& hpMaskLo.setWidth 128).toNat = a.toNat % 2 ^ 64 := by
  have mask : (hpMaskLo.setWidth 128).toNat = 2 ^ 64 - 1 := by decide
  rw [BitVec.toNat_and, mask, Nat.and_two_pow_sub_one_eq_mod]

theorem toNat_high (a : UInt128) : (a >>> 64).toNat = a.toNat / 2 ^ 64 := by
  rw [BitVec.toNat_ushiftRight, Nat.shiftRight_eq_div_pow]

theorem halves (a : UInt128) : a.toNat = a.toNat / 2 ^ 64 * 2 ^ 64 + a.toNat % 2 ^ 64 :=
  (Nat.div_add_mod' a.toNat (2 ^ 64)).symm

theorem mul_halves (a b c d : Nat) :
    (a * 2 ^ 64 + b) * (c * 2 ^ 64 + d) / 2 ^ 64 =
      b * d / 2 ^ 64 + (b * c + a * d) + a * c * 2 ^ 64 := by
  have expand : (a * 2 ^ 64 + b) * (c * 2 ^ 64 + d) =
      b * d + (b * c + a * d + a * c * 2 ^ 64) * 2 ^ 64 := by ring
  rw [expand, Nat.add_mul_div_right _ _ (by decide)]
  ring

/-- `Umul` never aborts, and gives the middle of the product. -/
theorem umul_spec {a b : UInt128} (ha : a.toNat ≤ 2 ^ 127) (hb : b.toNat ≤ 2 ^ 127) :
    ∃ r, umul a b = some r ∧ r.toNat = a.toNat * b.toNat / 2 ^ 64 % 2 ^ 128 := by
  simp only [umul, overflow_test, nsAbortIf, Bool.false_eq_true, if_false, some_bind, pure_some,
    Option.some.injEq, exists_eq_left']
  have lowA : a.toNat % 2 ^ 64 ≤ 2 ^ 64 - 1 := by omega
  have lowB : b.toNat % 2 ^ 64 ≤ 2 ^ 64 - 1 := by omega
  have product := mul_halves (a.toNat / 2 ^ 64) (a.toNat % 2 ^ 64) (b.toNat / 2 ^ 64)
    (b.toNat % 2 ^ 64)
  rw [← halves a, ← halves b] at product
  -- none of the partial products overflows
  have lo := Nat.mul_le_mul lowA lowB
  have maskA : a.toNat / 2 ^ 64 % 2 ^ 64 = a.toNat / 2 ^ 64 := Nat.mod_eq_of_lt (by omega)
  have maskB : b.toNat / 2 ^ 64 % 2 ^ 64 = b.toNat / 2 ^ 64 := Nat.mod_eq_of_lt (by omega)
  simp only [BitVec.toNat_add, BitVec.toNat_mul, BitVec.toNat_shiftLeft, toNat_and_hpMaskLo,
    toNat_high, maskA, maskB, Nat.shiftLeft_eq, product]
  omega

theorem slt_zero (s : Int128) : s.slt 0 = decide (s.toInt < 0) := by
  simp [BitVec.slt]

theorem toNat_magnitude (s : Int128) :
    (if s.slt 0 then -s else s).toNat = s.toInt.natAbs := by
  rw [slt_zero, BitVec.toInt_eq_toNat_cond]
  split <;> split <;> simp_all [BitVec.toNat_neg] <;> omega

theorem natAbs_le (s : Int128) : s.toInt.natAbs ≤ 2 ^ 127 := by
  have low := BitVec.le_toInt s
  have high := BitVec.toInt_lt (x := s)
  omega

theorem toInt_signed (negative : Bool) {r : UInt128} {n : Nat} (h : r.toNat = n % 2 ^ 128) :
    (if negative then -r else r).toInt = Int.bmod (if negative then -(n : Int) else n)
    (2 ^ 128) := by
  have bits : r.toInt = Int.bmod n (2 ^ 128) := by
    rw [BitVec.toInt_eq_toNat_bmod, h]
    push_cast
    exact Int.emod_bmod _ _
  cases negative with
  | false => exact bits
  | true =>
    simp only [if_true, BitVec.toInt_neg, bits]
    rw [Int.bmod_neg_bmod]

theorem bmod_eq_iff (z : Int) : Int.bmod z (2 ^ 128) = z ↔ -2 ^ 127 ≤ z ∧ z < 2 ^ 127 := by
  rw [Int.bmod_def]
  constructor
  · intro same
    split at same <;> omega
  · intro range
    split <;> omega

theorem mul_signed (a b : Int) :
    a * b = if decide (a < 0) != decide (b < 0) then -((a.natAbs * b.natAbs : Nat) : Int)
      else ((a.natAbs * b.natAbs : Nat) : Int) := by
  by_cases negA : a < 0 <;> by_cases negB : b < 0 <;>
    simp [negA, negB, abs_of_neg, abs_of_nonneg, Int.not_lt.mp]

theorem tdiv_signed (a b : Int) :
    (a * b).tdiv (2 ^ 64) = if decide (a < 0) != decide (b < 0)
      then -((a.natAbs * b.natAbs / 2 ^ 64 : Nat) : Int)
      else ((a.natAbs * b.natAbs / 2 ^ 64 : Nat) : Int) := by
  have quotient (n : Nat) : (n : Int).tdiv (2 ^ 64) = ((n / 2 ^ 64 : Nat) : Int) :=
    (Int.ofNat_tdiv n (2 ^ 64)).symm
  rw [mul_signed]
  split
  · rw [Int.neg_tdiv, quotient]
  · rw [quotient]

/-- `Mul` aborts, or its result is the exact product, truncated toward zero. -/
def MulExact (x o : Int64x64) : Prop :=
  x.mul o = none ∨ ∃ r, x.mul o = some r ∧ r.v.toInt = (x.v.toInt * o.v.toInt).tdiv (2 ^ 64)

instance (x o : Int64x64) : Decidable (x.MulExact o) := by
  unfold MulExact
  cases x.mul o with
  | none => exact isTrue (.inl rfl)
  | some r => exact decidable_of_iff (r.v.toInt = (x.v.toInt * o.v.toInt).tdiv (2 ^ 64)) (by simp)

theorem mul_spec (x o : Int64x64) : ∃ r, x.mul o = some r ∧
    r.v.toInt = Int.bmod ((x.v.toInt * o.v.toInt).tdiv (2 ^ 64)) (2 ^ 128) := by
  obtain ⟨r, product, value⟩ := umul_spec (a := if x.v.slt 0 then -x.v else x.v)
    (b := if o.v.slt 0 then -o.v else o.v)
    ((toNat_magnitude x.v).trans_le (natAbs_le x.v))
      ((toNat_magnitude o.v).trans_le (natAbs_le o.v))
  refine ⟨⟨if x.v.slt 0 != o.v.slt 0 then -r else r⟩, ?_, ?_⟩
  · simp only [mul, outputSign, product, some_bind, pure_some]
    rfl
  · rw [toNat_magnitude, toNat_magnitude] at value
    rw [toInt_signed _ value, tdiv_signed, slt_zero, slt_zero]

/-- The product is exact if and only if it fits in 128 bits. -/
theorem mul_exact_iff (x o : Int64x64) :
    x.MulExact o ↔ -(2 ^ 191 + 2 ^ 64) < x.v.toInt * o.v.toInt ∧
      x.v.toInt * o.v.toInt < 2 ^ 191 := by
  obtain ⟨r, product, value⟩ := mul_spec x o
  have exact_ : x.MulExact o ↔
      Int.bmod ((x.v.toInt * o.v.toInt).tdiv (2 ^ 64)) (2 ^ 128) =
        (x.v.toInt * o.v.toInt).tdiv (2 ^ 64) := by
    simp [MulExact, product, value]
  rw [exact_, bmod_eq_iff]
  generalize x.v.toInt * o.v.toInt = z
  obtain nonneg | neg := Int.le_total 0 z
  · rw [Int.tdiv_eq_ediv_of_nonneg nonneg]
    omega
  · rw [← Int.neg_neg z, Int.neg_tdiv, Int.tdiv_eq_ediv_of_nonneg (Int.neg_nonneg_of_nonpos neg)]
    omega

/-- The product of `2 ^ 36` by itself is zero. -/
theorem mul_loses_high_bits : ¬ ∀ x o : Int64x64, x.MulExact o := by
  intro exact_
  have square := exact_ (ofInt (1 <<< 36)) (ofInt (1 <<< 36))
  revert square
  decide

end Int64x64

end Ns3
