import Mathlib.Data.List.Basic
import Mathlib.Order.Defs.LinearOrder
import Mathlib.Order.Basic
import Mathlib.Order.Lattice

/-!
# Insertion behind equal elements

A list is kept in the order of a rank. A new element goes in front of the first one that is
greater by a strict comparison, so it comes behind those of its own rank. Inserting the
elements of a list one after the other sorts it and keeps equal elements in their order.
-/

namespace SortedInsert

open List Option

variable {α β : Type*} [LinearOrder β] {rank : α → β} {lt : α → α → Bool} {l : List α}

/-- Insert in front of the first greater element. -/
def insert (lt : α → α → Bool) (a : α) : List α → List α
  | [] => [a]
  | b :: rest => if lt a b then a :: b :: rest else b :: insert lt a rest

example : insert (· < ·) 2 [1, 3] = [1, 2, 3] := by simp [insert]

/-- The stable sort by insertion. -/
def sort (lt : α → α → Bool) (l : List α) : List α := l.foldl (fun done a => insert lt a done) []

/-- The comparison agrees with the rank. -/
def Compares (lt : α → α → Bool) (rank : α → β) (a b : α) : Prop := lt a b = true ↔ rank a < rank b

theorem insert_perm (lt : α → α → Bool) (a : α) (l : List α) : (insert lt a l).Perm (a :: l) := by
  induction l with
  | nil => exact .rfl
  | cons b rest ih =>
    rw [insert]
    split
    · exact .rfl
    · exact (ih.cons b).trans (List.Perm.swap a b rest)

theorem mem_insert {a b : α} : b ∈ insert lt a l ↔ b = a ∨ b ∈ l := by
  rw [(insert_perm lt a l).mem_iff, mem_cons]

theorem insert_sorted {a : α} (compares : ∀ b ∈ l, Compares lt rank a b)
    (sorted : l.Pairwise fun a b => rank a ≤ rank b) :
    (insert lt a l).Pairwise fun a b => rank a ≤ rank b := by
  induction l with
  | nil => exact pairwise_singleton _ _
  | cons b rest ih =>
    obtain ⟨first, later⟩ := pairwise_cons.mp sorted
    have here := compares b mem_cons_self
    rw [insert]
    split
    case isTrue less =>
      have less := here.mp less
      refine pairwise_cons.mpr ⟨fun c mem => ?_, sorted⟩
      obtain rfl | mem := mem_cons.mp mem
      · exact less.le
      · exact less.le.trans (first c mem)
    case isFalse notLess =>
      have notLess := fun less => notLess (here.mpr less)
      refine pairwise_cons.mpr ⟨fun c mem => ?_,
        ih (fun c mem => compares c (mem_cons_of_mem b mem)) later⟩
      obtain rfl | mem := mem_insert.mp mem
      · exact not_lt.mp notLess
      · exact first c mem

theorem insert_eq (lt : α → α → Bool) (a : α) (l : List α) :
    insert lt a l = l.takeWhile (fun b => !lt a b) ++ a :: l.dropWhile (fun b => !lt a b) := by
  induction l with
  | nil => rfl
  | cons b rest ih =>
    rw [insert, takeWhile_cons, dropWhile_cons, ih]
    cases lt a b <;> rfl

/-- The new element is the last one unless the last one is greater. -/
theorem getLast?_insert {a : α} (compares : ∀ b ∈ l, Compares lt rank a b)
    (sorted : l.Pairwise fun a b => rank a ≤ rank b) :
    (insert lt a l).getLast? = if l.getLast?.any (lt a) then l.getLast? else some a := by
  induction l with
  | nil => rfl
  | cons b rest ih =>
    obtain ⟨first, later⟩ := pairwise_cons.mp sorted
    have ih := ih (fun c mem => compares c (mem_cons_of_mem b mem)) later
    rw [insert]
    split
    case isTrue less =>
      obtain ⟨last, end_⟩ := isSome_iff_exists.mp
        (getLast?_isSome.mpr (cons_ne_nil b rest))
      obtain ⟨front, split⟩ := getLast?_eq_some_iff.mp end_
      have above : lt a last = true := by
        have mem : last ∈ b :: rest := split ▸ mem_append_right front mem_cons_self
        refine (compares last mem).mpr ?_
        have less := (compares b mem_cons_self).mp less
        obtain rfl | mem := mem_cons.mp mem
        · exact less
        · exact less.trans_le (first last mem)
      rw [getLast?_cons_cons, end_, any_some, if_pos above]
    case isFalse notLess =>
      cases rest with
      | nil => simp [insert, notLess]
      | cons c rest =>
        obtain ⟨d, ds, split⟩ := exists_cons_of_ne_nil
          (ne_nil_of_mem (mem_insert.mpr (.inl rfl) : a ∈ insert lt a (c :: rest)))
        rw [getLast?_cons_cons, ← ih, split, getLast?_cons_cons]

theorem foldl_perm (lt : α → α → Bool) (l done : List α) :
    (l.foldl (fun done a => insert lt a done) done).Perm (l ++ done) := by
  induction l generalizing done with
  | nil => exact .rfl
  | cons a l ih => exact (ih _).trans (((insert_perm lt a done).append_left l).trans perm_middle)

theorem sort_perm (lt : α → α → Bool) (l : List α) : (sort lt l).Perm l := by
  have all := foldl_perm lt l []
  rwa [append_nil] at all

theorem sort_sorted (compares : ∀ a ∈ l, ∀ b ∈ l, Compares lt rank a b) :
    (sort lt l).Pairwise fun a b => rank a ≤ rank b := by
  -- the elements that are in place stay sorted while the others are inserted
  have step (l done : List α) (compares : ∀ a ∈ l ++ done, ∀ b ∈ l ++ done, Compares lt rank a b)
      (sorted : done.Pairwise fun a b => rank a ≤ rank b) :
      (l.foldl (fun done a => insert lt a done) done).Pairwise fun a b => rank a ≤ rank b := by
    induction l generalizing done with
    | nil => exact sorted
    | cons a l ih =>
      have same : (l ++ insert lt a done).Perm (a :: l ++ done) :=
        ((insert_perm lt a done).append_left l).trans perm_middle
      refine ih _ (fun x memX y memY => ?_) (insert_sorted (fun b mem => ?_) sorted)
      · exact compares x (same.mem_iff.mp memX) y (same.mem_iff.mp memY)
      · exact compares a mem_cons_self b
          (mem_cons_of_mem a (mem_append_right l mem))
  refine step l [] (fun a memA b memB => ?_) List.Pairwise.nil
  rw [append_nil] at memA memB
  exact compares a memA b memB

end SortedInsert
