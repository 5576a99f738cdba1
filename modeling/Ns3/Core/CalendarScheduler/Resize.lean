import Mathlib.Algebra.Order.BigOperators.Group.List
import Mathlib.Algebra.Order.Group.Nat
import Ns3.Core.CalendarScheduler.Search
import Mathlib.Algebra.GroupWithZero.Nat

/-!
# Resizing

`CalculateNewWidth` takes the next events out, measures the distances between
them and puts them back. `DoResize` files all events in new buckets. Neither
changes what is stored or the time of the last event.
-/

namespace Ns3.CalendarScheduler

open Scheduler

variable {c : CalendarScheduler} {ev : Event} {list samples : List Event} {t n : Nat}

section Insertion

/-- Events are filed one after the other. -/
theorem Filed.insertAll (h : Filed c) (unique : Unique (list ++ c.events)) :
    Filed (list.foldl CalendarScheduler.doInsert c) ∧
      (list.foldl CalendarScheduler.doInsert c).events.Perm (list ++ c.events) ∧
      ∃ buckets, list.foldl CalendarScheduler.doInsert c = { c with buckets } := by
  induction list generalizing c with
  | nil => exact ⟨h, .rfl, c.buckets, rfl⟩
  | cons ev rest ih =>
    have fresh : ∀ other ∈ c.events, ev.key.rank ≠ other.key.rank := by
      intro other member same
      have eq := unique.eq_of_rank (by simp) (by simp [member]) same
      have apart := (List.nodup_cons.mp unique.nodup).1
      exact apart (List.mem_append_right rest (eq ▸ member))
    obtain ⟨filed, events⟩ := h.doInsert fresh
    have moved : (rest ++ (c.doInsert ev).events).Perm (ev :: rest ++ c.events) :=
      (events.append_left rest).trans List.perm_middle
    obtain ⟨filed', events', buckets, eq⟩ := ih filed (unique.perm moved.symm)
    exact ⟨filed', events'.trans moved, buckets, eq⟩

end Insertion

section Width

/-- The times go up from `t` on. -/
def Climbs : Nat → List Event → Prop
  | _, [] => True
  | t, ev :: rest => t ≤ ev.key.ts ∧ ev.key.ts < 2 ^ 40 ∧ Climbs ev.key.ts rest

theorem sum_separations (climbs : Climbs t (ev :: list)) :
    (separations (ev :: list)).sum < 2 ^ 40 - ev.key.ts := by
  induction list generalizing t ev with
  | nil =>
    have := climbs.2.1
    simp only [separations, List.sum_nil]
    omega
  | cons next rest ih =>
    have total := ih climbs.2.2
    obtain ⟨-, -, le, inTime, -⟩ := climbs
    have distance : UInt64.sub next.key.ts ev.key.ts = next.key.ts - ev.key.ts :=
      UInt64.sub_of_le le (by omega)
    rw [separations, List.sum_cons, distance]
    omega

theorem foldl_add (list : List Nat) (k : Nat) (fits : k + list.sum < 2 ^ 64) :
    list.foldl UInt64.add k = k + list.sum := by
  induction list generalizing k with
  | nil => rfl
  | cons x rest ih =>
    rw [List.sum_cons] at fits
    rw [List.foldl_cons, UInt64.add_of_lt (by omega), ih _ (by omega), List.sum_cons,
      Nat.add_assoc]

theorem averageWidth_bounds (climbs : Climbs t samples) (n : Nat) :
    1 ≤ averageWidth n samples ∧ averageWidth n samples ≤ 3 * 2 ^ 40 := by
  have span : (separations samples).sum ≤ 2 ^ 40 := by
    cases samples with
    | nil => exact Nat.zero_le _
    | cons ev rest => exact (sum_separations climbs).le.trans (Nat.sub_le _ _)
  have kept : ∀ keep : Nat → Bool, ((separations samples).filter keep).sum ≤ 2 ^ 40 := fun keep =>
    (List.filter_sublist.sum_le_sum fun _ _ => Nat.zero_le _).trans span
  have bound := kept fun diff =>
    decide (diff ≤ UInt64.mul ((separations samples).foldl UInt64.add 0 / (n - 1)) 2)
  rw [averageWidth, foldl_add ((separations samples).filter _) 0 (by omega), Nat.zero_add,
    UInt64.mul_of_lt (by omega)]
  exact ⟨le_max_right _ _, max_le (by omega) (by omega)⟩

end Width

section Sampling

/-- The samples climb, and the rest of the events stays filed. -/
theorem gather_spec (profile : BuildProfile) (h : Filed c) (cursor : Cursor c)
    (le : n ≤ c.events.length)
    (counted : c.qSize ≠ 0) :
    ∃ samples c', gather profile n c = some (samples, c') ∧ Climbs c.lastPrio samples ∧
      c.events.Perm (samples ++ c'.events) ∧ Filed c' ∧
      ∃ buckets lastBucket bucketTop lastPrio,
        c' = { c with buckets, lastBucket, bucketTop, lastPrio } := by
  induction n generalizing c with
  | zero => exact ⟨[], c, rfl, trivial, .rfl, h, _, _, _, _, rfl⟩
  | succ n ih =>
    have some_ : c.events ≠ [] := by
      rintro none_
      rw [none_] at le
      exact absurd le (Nat.not_succ_le_zero n)
    obtain ⟨ev, c₁, removes, removed⟩ := doRemoveNext_spec profile cursor h some_ counted
    obtain ⟨buckets, lastBucket, bucketTop, lastPrio, eq⟩ := removed.frame
    have length := removed.events.length_eq
    rw [List.length_cons] at length
    obtain ⟨samples, c₂, gathers, climbs, events, filed, b, l, top, p, eq'⟩ :=
      ih removed.filed removed.cursor (by omega) (by rw [eq]; exact counted)
    refine ⟨ev :: samples, c₂, ?_, ⟨cursor.passed ev removed.least.1,
      cursor.inTime ev removed.least.1, removed.lastPrio ▸ climbs⟩,
      removed.events.trans (events.cons ev), filed, b, l, top, p, ?_⟩
    · rw [gather, removes]
      simp [gathers]
    · rw [eq', eq]

/-- `CalculateNewWidth` gives a width and changes at most the buckets. -/
theorem calculateNewWidth_spec (profile : BuildProfile) (h : Filed c) (cursor : Cursor c)
    (unique : Unique c.events)
    (counted : c.qSize = c.events.length) :
    ∃ width buckets, c.calculateNewWidth profile = some (width, { c with buckets }) ∧
      1 ≤ width ∧ width ≤ 3 * 2 ^ 40 ∧ Filed { c with buckets } ∧
      buckets.flatten.Perm c.events := by
  rw [calculateNewWidth]
  split
  · exact ⟨1, c.buckets, rfl, le_rfl, by decide, h, .rfl⟩
  · next many =>
      obtain ⟨samples, c₁, gathers, climbs, events, filed, b, l, top, p, eq⟩ :=
        gather_spec profile
          (n := min (if c.qSize ≤ 5 then c.qSize else 5 + c.qSize / 10) 25) h cursor
          (by split <;> omega) (by omega)
      obtain ⟨filed', events', buckets, eq'⟩ :=
        filed.insertAll (unique.perm events)
      obtain ⟨pos, narrow⟩ := averageWidth_bounds climbs
        (min (if c.qSize ≤ 5 then c.qSize else 5 + c.qSize / 10) 25)
      rw [eq'] at filed' events'
      subst eq
      refine ⟨_, buckets, ?_, pos, narrow, filed'.moved _ _ _ _, events'.trans events.symm⟩
      simp [gathers, eq']

end Sampling

section Resize

/-- What holds of the calendar between two calls. -/
structure Tidy (c : CalendarScheduler) : Prop where
  filed : Filed c
  cursor : Cursor c
  unique : Unique c.events
  counted : c.qSize = c.events.length

/-- The same events, and the same last time, in other buckets. -/
structure Resized (c c' : CalendarScheduler) : Prop where
  tidy : Tidy c'
  events : c'.events.Perm c.events
  lastPrio : c'.lastPrio = c.lastPrio

theorem Filed.init {newSize width startPrio : Nat} (some_ : 1 ≤ newSize) (few : newSize ≤ 65536)
    (pos : 1 ≤ width) (narrow : width ≤ 3 * 2 ^ 40) : Filed (c.init newSize width startPrio) := by
  have none_ : ∀ i, (c.init newSize width startPrio).bucket i = [] := by
    intro i
    show (List.replicate newSize ([] : List Event)).getD i [] = []
    rw [List.getD_eq_getElem?_getD, List.getElem?_replicate]
    split <;> rfl
  exact
    { length := List.length_replicate
      some_, few, width := pos, narrow
      days := by
        intro i ev member
        rw [none_] at member
        cases member
      sorted := by
        intro i
        rw [none_]
        exact List.Pairwise.nil }

theorem events_init (c : CalendarScheduler) (newSize width startPrio : Nat) :
    (c.init newSize width startPrio).events = [] := by
  show (List.replicate newSize ([] : List Event)).flatten = []
  simp

/-- `DoResize` files all events again. -/
theorem Tidy.doResize (h : Tidy c) {newSize width : Nat} (some_ : 1 ≤ newSize)
    (few : newSize ≤ 65536) (pos : 1 ≤ width) (narrow : width ≤ 3 * 2 ^ 40) :
    Resized c (c.doResize newSize width) := by
  have filed : Filed (c.init newSize width c.lastPrio) := Filed.init some_ few pos narrow
  have none_ := events_init c newSize width c.lastPrio
  have unique : Unique (c.events ++ (c.init newSize width c.lastPrio).events) := by
    rw [none_, List.append_nil]
    exact h.unique
  obtain ⟨filed', events, buckets, eq⟩ := filed.insertAll unique
  rw [none_, List.append_nil] at events
  have eq' : c.doResize newSize width = { c.init newSize width c.lastPrio with buckets } := eq
  have filed'' : Filed (c.doResize newSize width) := filed'
  have events' : (c.doResize newSize width).events.Perm c.events := events
  refine ⟨⟨filed'', ?_, h.unique.perm events'.symm, ?_⟩, events', by rw [eq']; rfl⟩
  · exact
      { lastPrio := by
          rw [eq']
          exact h.cursor.lastPrio
        lastBucket := by
          rw [eq']
          rfl
        bucketTop := by
          rw [eq']
          exact dayEnd_eq narrow h.cursor.lastPrio
        passed := by
          intro ev member
          rw [eq']
          exact h.cursor.passed ev (events'.mem_iff.mp member)
        inTime := fun ev member => h.cursor.inTime ev (events'.mem_iff.mp member) }
  · rw [events'.length_eq, ← h.counted, eq']
    rfl

theorem Tidy.resize (h : Tidy c) (profile : BuildProfile) {newSize : Nat} (some_ : 1 ≤ newSize)
    (few : newSize ≤ 65536) : ∃ c', c.resize profile newSize = some c' ∧ Resized c c' := by
  obtain ⟨width, buckets, calculates, pos, narrow, filed, events⟩ :=
    calculateNewWidth_spec profile h.filed h.cursor h.unique h.counted
  have tidy : Tidy { c with buckets } := by
    refine ⟨filed, ?_, h.unique.perm events.symm, h.counted.trans events.length_eq.symm⟩
    exact
      { h.cursor with
        passed := fun ev member => h.cursor.passed ev (events.mem_iff.mp member)
        inTime := fun ev member => h.cursor.inTime ev (events.mem_iff.mp member) }
  obtain ⟨tidy', events', lastPrio⟩ := tidy.doResize some_ few pos narrow
  rw [CalendarScheduler.resize, calculates]
  exact ⟨_, rfl, tidy', events'.trans events, lastPrio⟩

theorem Tidy.resizeUp (h : Tidy c) (profile : BuildProfile) :
    ∃ c', c.resizeUp profile = some c' ∧ Resized c c' := by
  rw [CalendarScheduler.resizeUp]
  have some_ := h.filed.some_
  split
  · exact h.resize profile (by omega) (by omega)
  · exact ⟨c, rfl, h, .rfl, rfl⟩

theorem Tidy.resizeDown (h : Tidy c) (profile : BuildProfile) :
    ∃ c', c.resizeDown profile = some c' ∧ Resized c c' := by
  rw [CalendarScheduler.resizeDown]
  have few := h.filed.few
  split
  · exact h.resize profile (by omega) (by omega)
  · exact ⟨c, rfl, h, .rfl, rfl⟩

end Resize

end Ns3.CalendarScheduler
