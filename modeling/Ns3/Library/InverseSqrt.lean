import Mathlib.Tactic.Ring
import Mathlib.Tactic.Linarith

/-!
# Newton steps for an inverse square root

`x` stands for the number `x / s`, where `N` is the square of the scale `s`. A Newton step takes
an estimate of `1 / √c` to `x * (3 * N - c * x ^ 2) / (2 * N)`, or to a number below it where it
truncates. Wherever the factor is not negative, the result is no more than `1 / √c`.
-/

namespace InverseSqrt

variable {N s c x y : Nat}

theorem mul_rest_sq_le {t : Nat} (le : t ≤ 3 * N) : t * (3 * N - t) ^ 2 ≤ 4 * N ^ 3 := by
  obtain ⟨u, total⟩ := Nat.exists_eq_add_of_le le
  have rest : 3 * N - t = u := by omega
  rw [rest]
  have signed : (t : ℤ) = 3 * N - u := by omega
  have nonneg : (0 : ℤ) ≤ N + u := by positivity
  have square : (0 : ℤ) ≤ (2 * N - u) ^ 2 * (N + u) := mul_nonneg (sq_nonneg _) nonneg
  have identity : 4 * (N : ℤ) ^ 3 - t * u ^ 2 = (2 * N - u) ^ 2 * (N + u) := by
    rw [signed]
    ring
  have bound : (t : ℤ) * u ^ 2 ≤ 4 * N ^ 3 := by linarith
  exact_mod_cast bound

theorem step_le (pos : 0 < N) (le : c * x ^ 2 ≤ 3 * N)
    (step : y * (2 * N) ≤ (3 * N - c * x ^ 2) * x) : c * y ^ 2 ≤ N := by
  have scaled : c * y ^ 2 * (4 * N ^ 2) ≤ N * (4 * N ^ 2) := by
    calc c * y ^ 2 * (4 * N ^ 2)
        = c * (y * (2 * N)) ^ 2 := by ring
      _ ≤ c * ((3 * N - c * x ^ 2) * x) ^ 2 := Nat.mul_le_mul_left c (Nat.pow_le_pow_left step 2)
      _ = c * x ^ 2 * (3 * N - c * x ^ 2) ^ 2 := by ring
      _ ≤ 4 * N ^ 3 := mul_rest_sq_le le
      _ = N * (4 * N ^ 2) := by ring
  exact Nat.le_of_mul_le_mul_right scaled (by positivity)

/-- A Newton step from an estimate below one ends below one. -/
theorem step_lt (one : 1 ≤ c) (below : x < s) (le : c * x ^ 2 ≤ 3 * s ^ 2)
    (step : y * (2 * s ^ 2) ≤ (3 * s ^ 2 - c * x ^ 2) * x) : y < s := by
  -- the step is largest for a count of one
  have least : x ^ 2 ≤ c * x ^ 2 := Nat.le_mul_of_pos_left _ one
  have most : (3 * s ^ 2 - c * x ^ 2) * x ≤ (3 * s ^ 2 - x ^ 2) * x :=
    Nat.mul_le_mul_right x (by omega)
  have room : (3 * s ^ 2 - x ^ 2) * x < s * (2 * s ^ 2) := by
    obtain ⟨d, rfl⟩ := Nat.exists_eq_add_of_lt below
    have rest : 3 * (x + d + 1) ^ 2 - x ^ 2 = 2 * x ^ 2 + 6 * x * (d + 1) + 3 * (d + 1) ^ 2 := by
      have expand : 3 * (x + d + 1) ^ 2 =
          2 * x ^ 2 + 6 * x * (d + 1) + 3 * (d + 1) ^ 2 + x ^ 2 := by ring
      omega
    have gap : (x + d + 1) * (2 * (x + d + 1) ^ 2) =
        (2 * x ^ 2 + 6 * x * (d + 1) + 3 * (d + 1) ^ 2) * x +
          (d + 1) ^ 2 * (3 * x + 2 * (d + 1)) := by ring
    rw [rest, gap]
    exact Nat.lt_add_of_pos_right (by positivity)
  have scaled : y * (2 * s ^ 2) < s * (2 * s ^ 2) := by omega
  exact Nat.lt_of_mul_lt_mul_right scaled

end InverseSqrt
