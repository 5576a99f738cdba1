import Mathlib.Algebra.BigOperators.Group.List.Basic
import Mathlib.Algebra.Order.Ring.Defs
import Mathlib.Tactic.Linarith

/-!
# Token buckets

A bucket holds at most `cap` tokens and earns them at a rate. A release at some time takes tokens
that the bucket holds then: what it held after the release before, and what it has earned since.
Whatever the times of the releases are, an interval of time sees at most `cap` tokens more than
the bucket earns in it.
-/

namespace TokenBucket

variable {K : Type*} [CommRing K] [LinearOrder K]

/-- The amount released in a closed interval of time. -/
def between (first last : K) (released : List (K × K)) : K :=
  ((released.filter fun r => first ≤ r.1 ∧ r.1 ≤ last).map Prod.snd).sum

/-- The releases of a bucket, oldest first, with what it holds after the last one. -/
inductive History (rate cap : K) : K → K → List (K × K) → Prop
  | start {level time : K} : 0 ≤ level → level ≤ cap → History rate cap level time []
  | release {level time level' now amount : K} {released : List (K × K)} :
      History rate cap level time released → time ≤ now → 0 ≤ level' →
      level' + amount ≤ level + (now - time) * rate → level' + amount ≤ cap →
      History rate cap level' now (released ++ [(now, amount)])

variable {rate cap level time first last now amount : K} {released : List (K × K)}

theorem between_append_of_mem (inside : first ≤ now ∧ now ≤ last) :
    between first last (released ++ [(now, amount)]) = between first last released + amount := by
  simp [between, inside]

theorem between_append_of_not_mem (outside : ¬ (first ≤ now ∧ now ≤ last)) :
    between first last (released ++ [(now, amount)]) = between first last released := by
  simp [between, outside]

namespace History

section

variable (h : History rate cap level time released)
include h

theorem time_le : ∀ r ∈ released, r.1 ≤ time := by
  induction h with
  | start => exact nofun
  | release _ later _ _ _ ih =>
    intro r mem
    obtain before | here := List.mem_append.mp mem
    · exact (ih r before).trans later
    · rw [List.mem_singleton.mp here]

theorem between_of_time_lt (past : time < first) :
    between first last released = 0 := by
  have none_ : (released.filter fun r => first ≤ r.1 ∧ r.1 ≤ last) = [] := by
    rw [List.filter_eq_nil_iff]
    intro r mem inside
    have reached := (of_decide_eq_true inside).1.trans (h.time_le r mem)
    exact absurd past (not_lt.mpr reached)
  rw [between, none_]
  rfl

end

variable [IsStrictOrderedRing K]

/-- From a time on up to the last release, with what is left. -/
theorem between_add_level_le (h : History rate cap level time released) (nonneg : 0 ≤ rate)
    (begun : first ≤ time) (ended : time ≤ last) :
    between first last released + level ≤ cap + (time - first) * rate := by
  induction h with
  | start low high =>
    have earned := mul_nonneg (sub_nonneg.mpr begun) nonneg
    have nothing : between first last ([] : List (K × K)) = 0 := rfl
    linarith
  | @release level time level' now amount released before later low earned full ih =>
    rw [between_append_of_mem ⟨begun, ended⟩]
    by_cases within : first ≤ time
    · have previous := ih within (later.trans ended)
      linarith
    · rw [before.between_of_time_lt (not_le.mp within)]
      have since := mul_nonneg (sub_nonneg.mpr begun) nonneg
      linarith

/-- An interval of time sees at most what the bucket holds and what it earns in the interval. -/
theorem between_le (h : History rate cap level time released) (nonneg : 0 ≤ rate)
    (capacity : 0 ≤ cap) (interval : first ≤ last) :
    between first last released ≤ cap + (last - first) * rate := by
  have earned := mul_nonneg (sub_nonneg.mpr interval) nonneg
  induction h with
  | start =>
    have nothing : between first last ([] : List (K × K)) = 0 := rfl
    linarith
  | @release level time level' now amount released before later low tokens full ih =>
    by_cases inside : first ≤ now ∧ now ≤ last
    · have bound := (before.release later low tokens full).between_add_level_le nonneg inside.1
        inside.2
      have shorter : (now - first) * rate ≤ (last - first) * rate :=
        mul_le_mul_of_nonneg_right (sub_le_sub_right inside.2 first) nonneg
      linarith
    · rw [between_append_of_not_mem inside]
      exact ih

end History

end TokenBucket
