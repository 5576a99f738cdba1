import Mathlib.Data.List.MinMax
import Mathlib.Data.List.Sort

/-!
# Least and greatest elements of a list

A list in ascending order has its least element at the front and its greatest at
the back. Insertion in order and removal keep such a list a permutation of the
list that is pushed and popped alongside.
-/

namespace Extremes

open List

variable {α : Type*} [LinearOrder α] {l : List α} {a b : α}

theorem minimum_of_ascending (ascending : l.Pairwise (· ≤ ·)) (front : l.head? = some a) :
    l.minimum = a := by
  cases l with
  | nil => cases front
  | cons b rest =>
    cases front
    rw [minimum_eq_coe_iff]
    refine ⟨mem_cons_self, fun c mem => ?_⟩
    obtain rfl | mem := mem_cons.mp mem
    · exact le_rfl
    · exact (pairwise_cons.mp ascending).1 c mem

theorem maximum_of_ascending (ascending : l.Pairwise (· ≤ ·)) (back : l.getLast? = some a) :
    l.maximum = a := by
  obtain ⟨init, rfl⟩ := getLast?_eq_some_iff.mp back
  rw [maximum_eq_coe_iff]
  refine ⟨by simp, fun c mem => ?_⟩
  obtain mem | mem := mem_append.mp mem
  · exact (pairwise_append.mp ascending).2.2 c mem a (mem_singleton.mpr rfl)
  · exact (mem_singleton.mp mem).le

theorem minimum_concat_min (least : l.minimum = a) : (l ++ [b]).minimum = (min a b : α) := by
  rw [minimum_concat, least, ← WithTop.coe_min]

theorem maximum_concat_max (greatest : l.maximum = a) : (l ++ [b]).maximum = (max a b : α) := by
  rw [maximum_concat, greatest, ← WithBot.coe_max]

theorem minimum_le_maximum (least : l.minimum = a) (greatest : l.maximum = b) : a ≤ b := by
  have mem := (minimum_eq_coe_iff.mp least).1
  exact (maximum_eq_coe_iff.mp greatest).2 a mem

theorem perm_push {keys : List α} (same : keys.Perm l) :
    (keys.orderedInsert (· ≤ ·) a).Perm (l ++ [a]) :=
  ((perm_orderedInsert _ a keys).trans (same.cons a)).trans
    (perm_append_singleton a l).symm

theorem perm_pop {keys : List α} (same : keys.Perm (a :: l)) : (keys.erase a).Perm l := by
  have erased := same.erase a
  rwa [erase_cons_head] at erased

end Extremes
