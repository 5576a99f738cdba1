import Mathlib.Data.List.Nodup
import Mathlib.Data.List.Perm.Subperm
import Mathlib.Tactic.Basic

/-!
# Chains of pointers

A heap maps the addresses in use to the pointers stored there. `Segment next p as q` says
that following the pointers from `p` visits the addresses `as` and arrives at `q`. A chain
arrives at the null pointer. Several chains may share a tail.
-/

variable {α : Type*}

/-- Following the pointers from `p` visits `as` and arrives at `q`. -/
inductive Segment (next : α → Option (Option α)) : Option α → List α → Option α → Prop
  | nil (p : Option α) : Segment next p [] p
  | cons {a : α} {p q : Option α} {as : List α} (here : next a = some p)
      (later : Segment next p as q) : Segment next (some a) (a :: as) q

/-- Following the pointers from `p` visits `as` and ends. -/
abbrev Chain (next : α → Option (Option α)) (p : Option α) (as : List α) : Prop :=
  Segment next p as none

namespace Segment

variable {next next' : α → Option (Option α)} {p q r : Option α} {a b : α} {as bs xs ys : List α}

theorem nil_iff : Segment next p [] q ↔ p = q := by
  constructor
  · intro segment
    cases segment
    rfl
  · rintro rfl
    exact .nil p

theorem cons_iff : Segment next p (a :: as) q ↔
    p = some a ∧ ∃ r, next a = some r ∧ Segment next r as q := by
  constructor
  · intro segment
    cases segment with
    | cons here later => exact ⟨rfl, _, here, later⟩
  · rintro ⟨rfl, r, here, later⟩
    exact .cons here later

theorem append_iff : Segment next p (xs ++ ys) q ↔
    ∃ r, Segment next p xs r ∧ Segment next r ys q := by
  induction xs generalizing p with
  | nil => simp [nil_iff]
  | cons x xs ih =>
    simp only [List.cons_append, cons_iff, ih]
    constructor
    · rintro ⟨start, r, here, s, first, second⟩
      exact ⟨s, ⟨start, r, here, first⟩, second⟩
    · rintro ⟨s, ⟨start, r, here, first⟩, second⟩
      exact ⟨start, r, here, s, first, second⟩

theorem concat_iff : Segment next p (xs ++ [b]) q ↔ Segment next p xs (some b) ∧
    next b = some q := by
  rw [append_iff]
  constructor
  · rintro ⟨r, first, last⟩
    obtain ⟨rfl, s, here, rest⟩ := cons_iff.mp last
    rw [nil_iff] at rest
    exact ⟨first, rest ▸ here⟩
  · rintro ⟨first, here⟩
    exact ⟨some b, first, .cons here (.nil q)⟩

theorem frame (segment : Segment next p as q) (same : ∀ a ∈ as, next' a = next a) :
    Segment next' p as q := by
  induction segment with
  | nil p => exact .nil p
  | cons here later ih =>
    refine .cons ((same _ List.mem_cons_self).trans here) (ih fun a mem => ?_)
    exact same a (List.mem_cons_of_mem _ mem)

theorem mem_next (segment : Segment next p as q) (mem : a ∈ as) : ∃ r, next a = some r := by
  induction segment with
  | nil => cases mem
  | @cons x r q as here later ih =>
    obtain rfl | tail := List.mem_cons.mp mem
    · exact ⟨r, here⟩
    · exact ih tail

theorem pointed (segment : Segment next p as q) (mem : a ∈ as) :
    p = some a ∨ ∃ b ∈ as, next b = some (some a) := by
  induction segment with
  | nil => cases mem
  | @cons x p q as here later ih =>
    obtain rfl | tail := List.mem_cons.mp mem
    · exact .inl rfl
    · obtain rfl | ⟨b, among, points⟩ := ih tail
      · exact .inr ⟨x, List.mem_cons_self, here⟩
      · exact .inr ⟨b, List.mem_cons_of_mem x among, points⟩

/-- The pointer at an address of a segment leads to one of its addresses, or to its end. -/
theorem follow (segment : Segment next p as q) (mem : b ∈ as) (points : next b = some (some a)) :
    a ∈ as ∨ q = some a := by
  induction segment with
  | nil => cases mem
  | @cons x r q as here later ih =>
    obtain rfl | among := List.mem_cons.mp mem
    · rw [here, Option.some.injEq] at points
      subst points
      cases as with
      | nil => exact .inr (nil_iff.mp later).symm
      | cons y as =>
        obtain rfl := Option.some.inj (cons_iff.mp later).1
        exact .inl (List.mem_cons_of_mem _ List.mem_cons_self)
    · obtain within | out := ih among
      · exact .inl (List.mem_cons_of_mem _ within)
      · exact .inr out

end Segment

namespace Chain

variable {next next' : α → Option (Option α)} {p q : Option α} {a b : α} {as bs xs ys : List α}

theorem unique (first : Chain next p as) (second : Chain next p bs) : as = bs := by
  induction as generalizing p bs with
  | nil =>
    obtain rfl := Segment.nil_iff.mp first
    cases second
    rfl
  | cons a as ih =>
    obtain ⟨rfl, r, here, later⟩ := Segment.cons_iff.mp first
    cases second with
    | cons there rest =>
      obtain rfl := Option.some.inj (here.symm.trans there)
      rw [ih later rest]

/-- A chain does not meet itself. -/
theorem nodup (chain : Chain next p as) : as.Nodup := by
  induction as generalizing p with
  | nil => exact List.nodup_nil
  | cons a as ih =>
    obtain ⟨-, r, here, later⟩ := Segment.cons_iff.mp chain
    refine List.nodup_cons.mpr ⟨fun mem => ?_, ih later⟩
    obtain ⟨xs, ys, rfl⟩ := List.append_of_mem mem
    obtain ⟨s, -, rest⟩ := Segment.append_iff.mp later
    obtain ⟨rfl, -⟩ := Segment.cons_iff.mp rest
    have same := unique rest (.cons here later)
    have length := congrArg List.length same
    simp only [List.length_cons, List.length_append] at length
    omega

theorem length_le {next : Nat → Option (Option Nat)} {p : Option Nat} {as : List Nat} {n : Nat}
    (chain : Chain next p as) (bound : ∀ a ∈ as, a < n) : as.length ≤ n := by
  have subset : as ⊆ List.range n := fun a mem => List.mem_range.mpr (bound a mem)
  have subperm := List.subperm_of_subset chain.nodup subset
  exact Nat.le_trans subperm.length_le (Nat.le_of_eq List.length_range)

/-- Addresses of a heap that keep their pointers among themselves, or point to where a
chain of the new heap starts, are on chains of the new heap. -/
theorem relink {K : α → Prop} (tail : Chain next' q ys)
    (kept : ∀ a r, K a → next a = some r → next' a = some q ∨
      next' a = some r ∧ ∀ b, r = some b → K b)
    (chain : Chain next p as) (start : ∀ a, p = some a → K a) : ∃ bs, Chain next' p bs := by
  induction as generalizing p with
  | nil =>
    obtain rfl := Segment.nil_iff.mp chain
    exact ⟨[], .nil none⟩
  | cons a as ih =>
    obtain ⟨rfl, r, here, later⟩ := Segment.cons_iff.mp chain
    obtain redirected | ⟨same, inside⟩ := kept a r (start a rfl) here
    · exact ⟨a :: ys, .cons redirected tail⟩
    · obtain ⟨bs, rest⟩ := ih later inside
      exact ⟨a :: bs, .cons same rest⟩

end Chain
