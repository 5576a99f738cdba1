import Ns3.Core.Assert
import Ns3.Core.Scheduler
import Ns3.Library.SortedInsert

/-!
# The list scheduler

`ListScheduler` keeps the events in a sorted list: an insertion walks past the events that
do not come later, and the next event is the first one.
-/

namespace Ns3

open Scheduler

/-- `ListScheduler`, sorted by time and unique id. -/
structure ListScheduler where
  events : List Event := []
  sorted : events.Pairwise (fun a b => a.key.rank ≤ b.key.rank) := by simp

namespace ListScheduler

variable {ev other : Event} {events : List Event}

theorem lt_compares (a b : Event) :
    SortedInsert.Compares (fun a b : Event => a.key.lt b.key) (fun ev => ev.key.rank) a b := by
  simp [SortedInsert.Compares, EventKey.lt_eq]

/-- `Insert`. -/
def insert (s : ListScheduler) (ev : Event) : Option ListScheduler :=
  some ⟨SortedInsert.insert (fun a b => a.key.lt b.key) ev s.events,
    SortedInsert.insert_sorted (fun other _ => lt_compares ev other) s.sorted⟩

/-- `IsEmpty`. -/
def isEmpty (s : ListScheduler) : Bool := s.events.isEmpty

/-- `PeekNext`. -/
def peekNext (s : ListScheduler) : Option Event := s.events.head?

/-- `RemoveNext`. -/
def removeNext : ListScheduler → Option (Event × ListScheduler)
  | ⟨[], _⟩ => none
  | ⟨next :: events, sorted⟩ => some (next, ⟨events, (List.pairwise_cons.mp sorted).2⟩)

/-- `Remove` erases the first event with the id. -/
def remove (profile : BuildProfile) (s : ListScheduler) (ev : Event) : Option ListScheduler :=
  match s.events.find? fun i => i.key.uid = ev.key.uid with
  | none => do
      nsAssert profile false
      return s
  | some i => do
      nsAssert profile (ev.impl = i.impl)
      return ⟨s.events.eraseP fun i => i.key.uid = ev.key.uid,
        s.sorted.sublist List.eraseP_sublist⟩

/-- The virtual functions. -/
def scheduler (profile : BuildProfile) : Scheduler ListScheduler where
  insert := insert
  isEmpty := isEmpty
  peekNext := peekNext
  removeNext := removeNext
  remove := remove profile

theorem removeNext_spec (s : ListScheduler) (some_ : s.events ≠ []) : ∃ ev t,
    s.removeNext = some (ev, t) ∧ Least s.events ev ∧ t.events.Perm (s.events.erase ev) := by
  obtain ⟨events, sorted⟩ := s
  cases events with
  | nil => exact absurd rfl some_
  | cons next events =>
    refine ⟨next, _, rfl, ⟨List.mem_cons_self, fun other mem => ?_⟩, ?_⟩
    · obtain rfl | mem := List.mem_cons.mp mem
      · exact le_rfl
      · exact (List.pairwise_cons.mp sorted).1 other mem
    · rw [List.erase_cons_head]

theorem find_spec (unique : Unique events) (mem : ev ∈ events) :
    (events.find? fun i => i.key.uid = ev.key.uid) = some ev ∧
      (events.eraseP fun i => i.key.uid = ev.key.uid) = events.erase ev := by
  induction events with
  | nil => cases mem
  | cons i rest ih =>
    by_cases same : i.key.uid = ev.key.uid
    · obtain rfl := unique.eq_of_uid List.mem_cons_self mem same
      simp
    · have there : ev ∈ rest := by
        obtain rfl | there := List.mem_cons.mp mem
        · exact absurd rfl same
        · exact there
      have apart : i ≠ ev := fun equal => same (congrArg (·.key.uid) equal)
      obtain ⟨found, erased⟩ := ih unique.tail there
      rw [List.erase_cons_tail (by simpa using apart), ← erased]
      simp [same, found]

theorem remove_spec (profile : BuildProfile) (s : ListScheduler) (ev : Event)
    (unique : Unique s.events) (mem : ev ∈ s.events) :
    ∃ t, s.remove profile ev = some t ∧ t.events.Perm (s.events.erase ev) := by
  obtain ⟨found, erased⟩ := find_spec unique mem
  rw [remove, found]
  refine ⟨_, by simp only [decide_true, nsAssert_true, some_bind]; rfl,
    ?_⟩
  rw [← erased]

end ListScheduler

end Ns3
