import Mathlib.Logic.Equiv.Basic
import Mathlib.Order.Basic
import Mathlib.Tactic.Common
import Mathlib.Order.Lattice

/-!
# Heap order on positions 1, 2, ...

The children of position `i` are `2 * i` and `2 * i + 1`. A heap is given by the
ranks at its positions and by its last position. Moving one rank up or down
exchanges it with its parent or its smaller child; while it moves, the heap is
ordered except around it, and the neighbours of the gap are ordered among
themselves.
-/

namespace BinaryHeap

variable {κ : Type*} [LinearOrder κ] {f : Nat → κ} {n i c : Nat}

/-- No position up to the last one is smaller than its parent. -/
def Ordered (f : Nat → κ) (n : Nat) : Prop := ∀ i, 2 ≤ i → i ≤ n → f (i / 2) ≤ f i

theorem Ordered.root_le (h : Ordered f n) (pos : 1 ≤ i) (le : i ≤ n) : f 1 ≤ f i := by
  induction i using Nat.strongRecOn with
  | ind i ih =>
    obtain rfl | two : i = 1 ∨ 2 ≤ i := by omega
    · exact le_rfl
    · exact (ih (i / 2) (by omega) (by omega) (by omega)).trans (h i two le)

theorem Ordered.congr {g : Nat → κ} (h : Ordered f n) (same : ∀ i ≤ n, g i = f i) :
    Ordered g n := by
  intro i two le
  rw [same i le, same (i / 2) (by omega)]
  exact h i two le

/-- Ordered, except that `i` may be smaller than its parent. -/
structure Up (f : Nat → κ) (n i : Nat) : Prop where
  pairs : ∀ j, 2 ≤ j → j ≤ n → j ≠ i → f (j / 2) ≤ f j
  across : ∀ c, 2 ≤ i → c ≤ n → c / 2 = i → f (i / 2) ≤ f c

/-- Ordered, except that `i` may be greater than its children. -/
structure Down (f : Nat → κ) (n i : Nat) : Prop where
  pairs : ∀ j, 2 ≤ j → j ≤ n → j / 2 ≠ i → f (j / 2) ≤ f j
  across : ∀ c, 2 ≤ i → c ≤ n → c / 2 = i → f (i / 2) ≤ f c

theorem Up.finish (h : Up f n i) (stop : 2 ≤ i → f (i / 2) ≤ f i) : Ordered f n := by
  intro j two le
  by_cases same : j = i
  · subst same
    exact stop two
  · exact h.pairs j two le same

theorem Up.step (h : Up f n i) (two : 2 ≤ i) (le : i ≤ n) (less : f i < f (i / 2)) :
    Up (f ∘ Equiv.swap i (i / 2)) n (i / 2) := by
  have parent : i / 2 ≠ i := by omega
  constructor
  · intro j two' le' ne
    rw [Function.comp_apply, Function.comp_apply]
    by_cases same : j = i
    · subst same
      rw [Equiv.swap_apply_left, Equiv.swap_apply_right]
      exact less.le
    · rw [Equiv.swap_apply_of_ne_of_ne same ne]
      by_cases child : j / 2 = i
      · rw [child, Equiv.swap_apply_left]
        exact h.across j two le' child
      · by_cases sibling : j / 2 = i / 2
        · rw [sibling, Equiv.swap_apply_right]
          exact less.le.trans (sibling ▸ h.pairs j two' le' same)
        · rw [Equiv.swap_apply_of_ne_of_ne child sibling]
          exact h.pairs j two' le' same
  · intro j two' le' child
    have upper : f (i / 2 / 2) ≤ f (i / 2) := h.pairs (i / 2) two' (by omega) parent
    rw [Function.comp_apply, Function.comp_apply,
      Equiv.swap_apply_of_ne_of_ne (by omega) (by omega)]
    by_cases same : j = i
    · subst same
      rwa [Equiv.swap_apply_left]
    · rw [Equiv.swap_apply_of_ne_of_ne same (by omega)]
      exact upper.trans (child ▸ h.pairs j (by omega) le' same)

theorem Down.finish (h : Down f n i) (stop : ∀ c, 2 ≤ c → c ≤ n → c / 2 = i → f i ≤ f c) :
    Ordered f n := by
  intro j two le
  by_cases child : j / 2 = i
  · rw [child]
    exact stop j two le child
  · exact h.pairs j two le child

theorem Down.step (h : Down f n i) (pos : 1 ≤ i) (child : c / 2 = i) (le : c ≤ n)
    (least : ∀ d, d ≤ n → d / 2 = i → f c ≤ f d) (more : f c ≤ f i) :
    Down (f ∘ Equiv.swap i c) n c := by
  constructor
  · intro j two le' ne
    rw [Function.comp_apply, Function.comp_apply]
    by_cases here : j / 2 = i
    · rw [here, Equiv.swap_apply_left]
      by_cases same : j = c
      · subst same
        rwa [Equiv.swap_apply_right]
      · rw [Equiv.swap_apply_of_ne_of_ne (by omega) same]
        exact least j le' here
    · rw [Equiv.swap_apply_of_ne_of_ne here ne]
      by_cases same : j = i
      · subst same
        rw [Equiv.swap_apply_left]
        exact h.across c two le child
      · rw [Equiv.swap_apply_of_ne_of_ne same (by omega)]
        exact h.pairs j two le' here
  · intro d two le' grandchild
    rw [Function.comp_apply, Function.comp_apply, child, Equiv.swap_apply_left,
      Equiv.swap_apply_of_ne_of_ne (by omega) (by omega), ← grandchild]
    exact h.pairs d (by omega) le' (by omega)

theorem Ordered.grow {g : Nat → κ} (h : Ordered f n) (same : ∀ i ≤ n, g i = f i) :
    Up g (n + 1) (n + 1) := by
  constructor
  · intro j two le ne
    exact h.congr same j two (by omega)
  · intro c two le child
    omega

/-- The last rank takes the place of `i`, and the last position is dropped. It
may only have to move down when it is not smaller than the parent of `i`. -/
theorem Ordered.replace (h : Ordered f n) (lt : i < n) (pos : 1 ≤ i)
    (parent : 2 ≤ i → f (i / 2) ≤ f n) : Down (f ∘ Equiv.swap i n) (n - 1) i := by
  have stays : ∀ j, j ≠ i → j < n → (f ∘ Equiv.swap i n) j = f j := by
    intro j ne lt'
    rw [Function.comp_apply, Equiv.swap_apply_of_ne_of_ne ne (by omega)]
  constructor
  · intro j two le ne
    rw [stays (j / 2) ne (by omega)]
    by_cases same : j = i
    · subst same
      rw [Function.comp_apply, Equiv.swap_apply_left]
      exact parent two
    · rw [stays j same (by omega)]
      exact h j two (by omega)
  · intro c two le child
    rw [stays (i / 2) (by omega) (by omega), stays c (by omega) (by omega)]
    exact (h i two (by omega)).trans (child ▸ h c (by omega) (by omega))

end BinaryHeap
