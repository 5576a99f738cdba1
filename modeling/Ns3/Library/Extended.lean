import Mathlib.Algebra.Order.Field.Basic

/-!
# Numbers with infinities and an undefined value

The arithmetic of a program whose numbers are taken to be exact: the elements of an
ordered field, the two infinities, and the undefined result of an operation such as
`∞ - ∞`. No comparison with an undefined value is true, so `min` and `max`, which are
the functions of C++, keep their first argument where an argument is undefined. There
is one zero, and a quotient by it is what the quotient by a positive zero is.
-/

/-- An element of `K`, an infinity, or no number. -/
inductive Extended (K : Type*) where
  | finite (x : K)
  | posInf
  | negInf
  | nan
  deriving DecidableEq

namespace Extended

/-! ## Order -/

section Order

variable {K : Type*} [LinearOrder K]

/-- `operator<`. -/
def lt : Extended K → Extended K → Bool
  | finite x, finite y => x < y
  | nan, _ | _, nan => false
  | negInf, negInf | posInf, _ | _, negInf => false
  | _, _ => true

/-- `operator<=`. -/
def le (a b : Extended K) : Bool := a.lt b || (a == b && a != nan)

/-- `std::min`. -/
def min (a b : Extended K) : Extended K := if b.lt a then b else a

/-- `std::max`. -/
def max (a b : Extended K) : Extended K := if a.lt b then b else a

@[simp] theorem finite_lt (x y : K) : (finite x).lt (finite y) = decide (x < y) := rfl

@[simp] theorem finite_lt_posInf (x : K) : (finite x).lt posInf = true := rfl

@[simp] theorem posInf_lt (a : Extended K) : posInf.lt a = false := by cases a <;> rfl

@[simp] theorem lt_nan (a : Extended K) : a.lt nan = false := by cases a <;> rfl

@[simp] theorem finite_le (x y : K) : (finite x).le (finite y) = decide (x ≤ y) := by
  rw [Bool.eq_iff_iff]
  simp [le, le_iff_lt_or_eq]

theorem min_finite (x y : K) : min (finite x) (finite y) = finite (Min.min x y) := by
  unfold min
  rw [finite_lt]
  by_cases h : y < x
  · rw [if_pos (decide_eq_true h), min_eq_right h.le]
  · rw [if_neg (by simpa using h), min_eq_left (not_lt.mp h)]

theorem max_finite (x y : K) : max (finite x) (finite y) = finite (Max.max x y) := by
  unfold max
  rw [finite_lt]
  by_cases h : x < y
  · rw [if_pos (decide_eq_true h), max_eq_right h.le]
  · rw [if_neg (by simpa using h), max_eq_left (not_lt.mp h)]

@[simp] theorem min_finite_posInf (x : K) : min (finite x) posInf = finite x := by simp [min]

@[simp] theorem nan_min (a : Extended K) : min nan a = nan := by simp [min]

@[simp] theorem nan_le (a : Extended K) : nan.le a = false := by cases a <;> simp [le, lt]

@[simp] theorem max_nan (a : Extended K) : max a nan = a := by simp [max]

end Order

/-! ## Sums -/

section Sums

variable {K : Type*} [Field K]

/-- The infinity of the other sign. -/
def neg : Extended K → Extended K
  | finite x => finite (-x)
  | posInf => negInf
  | negInf => posInf
  | nan => nan

def add : Extended K → Extended K → Extended K
  | finite x, finite y => finite (x + y)
  | nan, _ | _, nan | posInf, negInf | negInf, posInf => nan
  | posInf, _ | _, posInf => posInf
  | negInf, _ | _, negInf => negInf

instance : Add (Extended K) := ⟨add⟩
instance : Sub (Extended K) := ⟨fun a b => add a (neg b)⟩

@[simp] theorem finite_add (x y : K) : finite x + finite y = finite (x + y) := rfl

@[simp] theorem finite_sub (x y : K) : finite x - finite y = finite (x - y) := by
  rw [sub_eq_add_neg]
  rfl

@[simp] theorem nan_add (a : Extended K) : nan + a = nan := by cases a <;> rfl

@[simp] theorem add_nan (a : Extended K) : a + nan = nan := by cases a <;> rfl

@[simp] theorem sub_nan (a : Extended K) : a - nan = nan := by cases a <;> rfl

end Sums

/-! ## Products and quotients -/

section Products

variable {K : Type*} [Field K] [LinearOrder K]

/-- The infinity with the sign of `x`, and `zero` for a zero. -/
def signed (x : K) (zero : Extended K) : Extended K :=
  if 0 < x then posInf else if x < 0 then negInf else zero

def mul : Extended K → Extended K → Extended K
  | finite x, finite y => finite (x * y)
  | nan, _ | _, nan => nan
  | finite x, posInf | posInf, finite x => signed x nan
  | finite x, negInf | negInf, finite x => signed (-x) nan
  | posInf, posInf | negInf, negInf => posInf
  | posInf, negInf | negInf, posInf => negInf

def div : Extended K → Extended K → Extended K
  | finite x, finite y => if y = 0 then signed x nan else finite (x / y)
  | nan, _ | _, nan => nan
  | finite _, _ => finite 0
  | posInf, finite y => signed y posInf
  | negInf, finite y => signed (-y) negInf
  | _, _ => nan

instance : Mul (Extended K) := ⟨mul⟩
instance : Div (Extended K) := ⟨div⟩

@[simp] theorem finite_mul (x y : K) : finite x * finite y = finite (x * y) := rfl

theorem finite_mul_posInf {x : K} (h : 0 < x) : finite x * posInf = posInf := if_pos h

theorem finite_div (x : K) {y : K} (h : y ≠ 0) : finite x / finite y = finite (x / y) :=
  if_neg h

@[simp] theorem nan_mul (a : Extended K) : nan * a = nan := by cases a <;> rfl

@[simp] theorem nan_div (a : Extended K) : nan / a = nan := by cases a <;> rfl

theorem posInf_sub_finite_div_posInf (x : K) : (posInf - finite x) / posInf = (nan : Extended K) :=
  rfl

/-- A number from 0 on, or the positive infinity. -/
def Nonneg : Extended K → Prop
  | finite x => 0 ≤ x
  | posInf => True
  | _ => False

theorem Nonneg.min_finite {a : Extended K} (h : a.Nonneg) {x : K} (nonneg : 0 ≤ x) :
    ∃ y, min (finite x) a = finite y ∧ 0 ≤ y ∧ y ≤ x := by
  cases a with
  | finite y => exact ⟨_, Extended.min_finite x y, le_min nonneg h, min_le_left x y⟩
  | posInf => exact ⟨x, min_finite_posInf x, nonneg, le_refl x⟩
  | negInf => exact h.elim
  | nan => exact h.elim

end Products

end Extended
