import Mathlib.Tactic.Common
import Mathlib.Order.Bounds.Basic

/-!
# Shortest paths by a frontier

A search for shortest paths divides what it has seen into a tree, whose distances are final,
and candidates, whose distances are those of some walk. While the edges that leave the tree
are relaxed one after the other, `todo` says which remain. When none does, the nearest
candidate can be settled.
-/

namespace ShortestPath

variable {α : Type*} (edge : α → Nat → α → Prop) (root : α)

/-- A walk from the root, with its cost. -/
inductive Walk : α → Nat → Prop
  | nil : Walk root 0
  | snoc {u w : α} {d c : Nat} : Walk u d → edge u c w → Walk w (d + c)

theorem Walk.one {edge : α → Nat → α → Prop} {root w : α} {c : Nat} (step : edge root c w) :
    Walk edge root w c := by
  have walk := Walk.snoc .nil step
  rwa [Nat.zero_add] at walk

/-- What holds throughout the search. -/
structure Frontier (tree candidate : α → Nat → Prop) (todo : α → Nat → α → Prop) : Prop where
  origin : tree root 0
  treeWalk : ∀ v d, tree v d → Walk edge root v d
  candidateWalk : ∀ v d, candidate v d → Walk edge root v d
  least : ∀ v d, tree v d → ∀ e, Walk edge root v e → d ≤ e
  relaxed : ∀ u d c w, tree u d → edge u c w →
    todo u c w ∨ (∃ e, tree w e) ∨ ∃ e, e ≤ d + c ∧ candidate w e

variable {edge root} {tree tree' candidate candidate' : α → Nat → Prop} {todo todo' : α → Nat → α →
  Prop}

section

variable (h : Frontier edge root tree candidate todo)
include h

/-- With nothing to do, a walk ends in the tree or has passed a candidate. -/
theorem Frontier.reach (done : ∀ u c w, ¬ todo u c w)
    {v : α} {e : Nat} (walk : Walk edge root v e) :
    (∃ d, d ≤ e ∧ tree v d) ∨ ∃ w d, d ≤ e ∧ candidate w d := by
  induction walk with
  | nil => exact .inl ⟨0, le_rfl, h.origin⟩
  | @snoc u w d c before step ih =>
    obtain ⟨d', short, mem⟩ | ⟨x, d', short, mem⟩ := ih
    · obtain undone | ⟨f, there⟩ | ⟨f, small, there⟩ := h.relaxed u d' c w mem step
      · exact absurd undone (done u c w)
      · exact .inl ⟨f, h.least w f there _ (before.snoc step), there⟩
      · exact .inr ⟨w, f, small.trans (Nat.add_le_add_right short c), there⟩
    · exact .inr ⟨x, d', short.trans (Nat.le_add_right _ _), mem⟩

theorem Frontier.nearest (done : ∀ u c w, ¬ todo u c w)
    {v : α} {d : Nat} (outside : ∀ e, ¬ tree v e) (near : ∀ w e, candidate w e → d ≤ e) {e : Nat}
    (walk : Walk edge root v e) : d ≤ e := by
  obtain ⟨f, -, there⟩ | ⟨w, f, short, there⟩ := h.reach done walk
  · exact absurd there (outside f)
  · exact (near w f there).trans short

/-- The nearest candidate goes to the tree, and its edges remain to be relaxed. -/
theorem Frontier.settle (done : ∀ u c w, ¬ todo u c w)
    {v : α} {d : Nat} (mem : candidate v d) (outside : ∀ e, ¬ tree v e)
    (near : ∀ w e, candidate w e → d ≤ e)
    (grows : ∀ w e, tree' w e ↔ tree w e ∨ w = v ∧ e = d)
    (shrinks : ∀ w e, candidate' w e ↔ candidate w e ∧ w ≠ v)
    (opens : ∀ c w, edge v c w → todo' v c w) : Frontier edge root tree' candidate' todo' where
  origin := (grows root 0).mpr (.inl h.origin)
  treeWalk w e there := by
    obtain old | ⟨rfl, rfl⟩ := (grows w e).mp there
    · exact h.treeWalk w e old
    · exact h.candidateWalk w e mem
  candidateWalk w e there := h.candidateWalk w e ((shrinks w e).mp there).1
  least w e there f walk := by
    obtain old | ⟨rfl, rfl⟩ := (grows w e).mp there
    · exact h.least w e old f walk
    · exact h.nearest done outside near walk
  relaxed u e c w there step := by
    obtain old | ⟨rfl, rfl⟩ := (grows u e).mp there
    · obtain undone | ⟨f, inside⟩ | ⟨f, small, waits⟩ := h.relaxed u e c w old step
      · exact absurd undone (done u c w)
      · exact .inr (.inl ⟨f, (grows w f).mpr (.inl inside)⟩)
      · by_cases same : w = v
        · subst same
          exact .inr (.inl ⟨d, (grows w d).mpr (.inr ⟨rfl, rfl⟩)⟩)
        · exact .inr (.inr ⟨f, small, (shrinks w f).mpr ⟨waits, same⟩⟩)
    · exact .inl (opens c w step)

/-- Some edges are relaxed: candidates come nearer or are new. -/
theorem Frontier.relax (walks : ∀ w d, candidate' w d → candidate w d ∨ Walk edge root w d)
    (nearer : ∀ w d, candidate w d → ∃ e, e ≤ d ∧ candidate' w e)
    (does : ∀ u d c w, tree u d → todo u c w →
      todo' u c w ∨ (∃ e, tree w e) ∨ ∃ e, e ≤ d + c ∧ candidate' w e) :
    Frontier edge root tree candidate' todo' where
  origin := h.origin
  treeWalk := h.treeWalk
  candidateWalk w d mem := (walks w d mem).elim (h.candidateWalk w d) id
  least := h.least
  relaxed u d c w mem step := by
    obtain undone | inside | ⟨e, small, waits⟩ := h.relaxed u d c w mem step
    · exact does u d c w mem undone
    · exact .inr (.inl inside)
    · obtain ⟨f, smaller, waits'⟩ := nearer w e waits
      exact .inr (.inr ⟨f, smaller.trans small, waits'⟩)

theorem Frontier.complete (done : ∀ u c w, ¬ todo u c w) (empty : ∀ w d, ¬ candidate w d) {v : α} :
    (∃ e, Walk edge root v e) ↔ ∃ d, tree v d := by
  constructor
  · rintro ⟨e, walk⟩
    obtain ⟨d, -, there⟩ | ⟨w, d, -, waits⟩ := h.reach done walk
    · exact ⟨d, there⟩
    · exact absurd waits (empty w d)
  · rintro ⟨d, there⟩
    exact ⟨d, h.treeWalk v d there⟩

theorem Frontier.isLeast {v : α} {d : Nat}
    (mem : tree v d) : IsLeast {e | Walk edge root v e} d :=
  ⟨h.treeWalk v d mem, fun _ walk => h.least v d mem _ walk⟩

end

end ShortestPath
