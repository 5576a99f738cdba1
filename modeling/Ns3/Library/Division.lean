import Mathlib.Algebra.Order.Ring.Nat
import Mathlib.Tactic.Ring
import Mathlib.Tactic.Linarith

/-!
# Long division in base two

`Found a b n q r` says that the division of `a` by `b` has been carried to `n` binary digits
after the point, with quotient `q` and remainder `r`. Some digits are added to the quotient by
dividing the shifted remainder. The remainder and the divisor may have a common factor that is
kept aside, and the divisor may be halved in place of doubling the remainder.
-/

namespace LongDivision

variable {a b n q r k : Nat}

/-- The division with `n` digits after the point. -/
structure Found (a b n q r : Nat) : Prop where
  left : a * 2 ^ n = q * b + r
  less : r < b

theorem found_start (pos : 0 < b) (a : Nat) : Found a b 0 (a / b) (a % b) where
  left := by
    rw [pow_zero, Nat.mul_one]
    exact (Nat.div_add_mod' a b).symm
  less := Nat.mod_lt a pos

theorem Found.quotient (h : Found a b n q r) : q = a * 2 ^ n / b := by
  have pos : 0 < b := Nat.zero_lt_of_lt h.less
  rw [h.left, Nat.mul_comm q b, Nat.mul_add_div pos, Nat.div_eq_of_lt h.less, Nat.add_zero]

theorem Found.more (h : Found a b n q r) (k : Nat) :
    Found a b (n + k) (q * 2 ^ k + r * 2 ^ k / b) (r * 2 ^ k % b) where
  left := by
    have split := Nat.div_add_mod' (r * 2 ^ k) b
    calc a * 2 ^ (n + k) = (a * 2 ^ n) * 2 ^ k := by ring
      _ = q * 2 ^ k * b + r * 2 ^ k := by rw [h.left]; ring
      _ = (q * 2 ^ k + r * 2 ^ k / b) * b + r * 2 ^ k % b := by
          rw [Nat.add_mul, Nat.add_assoc, split]
  less := Nat.mod_lt _ (Nat.zero_lt_of_lt h.less)

theorem Found.digits_lt (h : Found a b n q r) (k : Nat) : r * 2 ^ k / b < 2 ^ k := by
  refine Nat.div_lt_of_lt_mul ?_
  exact Nat.mul_lt_mul_of_pos_right h.less (Nat.two_pow_pos k)

theorem digits_scaled {x d c m : Nat} (pos : 0 < c) (k : Nat) :
    x * c * 2 ^ (k + m) / (d * 2 ^ m * c) = x * 2 ^ k / d ∧
      x * c * 2 ^ (k + m) % (d * 2 ^ m * c) = x * 2 ^ k % d * (2 ^ m * c) := by
  have scale : 0 < 2 ^ m * c := Nat.mul_pos (Nat.two_pow_pos m) pos
  have top : x * c * 2 ^ (k + m) = x * 2 ^ k * (2 ^ m * c) := by ring
  have bottom : d * 2 ^ m * c = d * (2 ^ m * c) := by ring
  rw [top, bottom]
  exact ⟨Nat.mul_div_mul_right _ _ scale, Nat.mul_mod_mul_right _ _ _⟩

theorem Found.exact (h : Found a b n q 0) (k : Nat) : Found a b (n + k) (q * 2 ^ k) 0 := by
  have next := h.more k
  rw [Nat.zero_mul, Nat.zero_div, Nat.zero_mod, Nat.add_zero] at next
  exact next

end LongDivision

/-!
## Division by multiplication with a reciprocal

`m` is a reciprocal of `v` on the scale `N` if `m * v` is the first multiple of `v` from `N` on.
A product with it, scaled back, is the quotient, as long as the error does not reach the next
integer.
-/

namespace Reciprocal

variable {N v m x : Nat}

/-- The reciprocal, rounded up. -/
structure RoundedUp (N v m : Nat) : Prop where
  reaches : N ≤ m * v
  first : m * v < N + v

theorem roundedUp_div (pos : 0 < v) :
    RoundedUp N v (if N / v * v = N then N / v else N / v + 1) := by
  have split := Nat.div_add_mod' N v
  have less := Nat.mod_lt N pos
  constructor
  · split
    · omega
    · rw [Nat.add_mul]
      omega
  · split
    · omega
    · rw [Nat.add_mul]
      omega

/-- Multiplication with the reciprocal is division. -/
theorem RoundedUp.mul_div (h : RoundedUp N v m) (pos : 0 < v) (small : x + v ≤ m) :
    x * m / N = x / v := by
  have N_pos : 0 < N := by
    have reach := Nat.mul_le_mul_right v small
    have first := h.first
    have square : v ≤ (x + v) * v := Nat.le_mul_of_pos_left v (by omega)
    omega
  obtain ⟨e, scaled⟩ := Nat.exists_eq_add_of_le h.reaches
  have error : e + 1 ≤ v := by
    have first := h.first
    omega
  have split := Nat.div_add_mod' x v
  have rest := Nat.mod_lt x pos
  generalize x / v = q, x % v = r at *
  -- the error of the whole part and the remainder together stay below one
  have product : x * m = q * N + (q * e + r * m) := by
    calc x * m = q * (m * v) + r * m := by rw [← split]; ring
      _ = q * N + (q * e + r * m) := by rw [scaled]; ring
  have whole : (q + 1) * e < m := by
    have bound : (q + 1) * (e + 1) ≤ (q + 1) * v := Nat.mul_le_mul_left _ error
    have expand : (q + 1) * v = q * v + v := by ring
    have more : (q + 1) * (e + 1) = (q + 1) * e + (q + 1) := by ring
    omega
  have below : q * e + r * m < N := by
    have last : (r + 1) * m ≤ v * m := Nat.mul_le_mul_right m rest
    have turn : v * m = N + e := by rw [Nat.mul_comm, scaled]
    have more : (r + 1) * m = r * m + m := by ring
    have again : (q + 1) * e = q * e + e := by ring
    omega
  rw [product, Nat.mul_comm q N, Nat.mul_add_div N_pos, Nat.div_eq_of_lt below, Nat.add_zero]

end Reciprocal
