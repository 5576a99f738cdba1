import Ns3.Core.HeapScheduler.Basic

/-!
# The heap scheduler and the sorted set of its events

`Insert` and `RemoveNext` keep the heap order. `Remove` puts the last event in
the place of the one it removes and only moves it down. Where the last event
comes before the parent of that place, the order is broken afterwards.
-/

namespace Ns3.HeapScheduler

open BinaryHeap Scheduler List Option

variable {h : HeapScheduler} {ev : Event} {i : Nat} {stored : List Event}
variable {profile : BuildProfile}

section Positions

theorem length_events (h : HeapScheduler) : h.events.length = h.last := by
  simp [events, last]

theorem mem_events : ev ∈ h.events ↔ ∃ i, 1 ≤ i ∧ i ≤ h.last ∧ h.at i = ev := by
  rw [mem_iff_getElem?]
  constructor
  · rintro ⟨i, found⟩
    have bound : i < h.last := by
      rw [← length_events]
      exact (List.getElem?_eq_some_iff.mp found).1
    refine ⟨i + 1, by omega, by omega, ?_⟩
    rw [events, getElem?_drop, Array.getElem?_toList, Nat.add_comm] at found
    rw [«at», Array.getD_eq_getD_getElem?, found, getD_some]
  · rintro ⟨i, pos, le, rfl⟩
    have bound : i < h.heap.size := by
      unfold last at le
      omega
    refine ⟨i - 1, ?_⟩
    rw [events, getElem?_drop, Array.getElem?_toList, Nat.add_sub_cancel' pos, «at»,
      Array.getD_eq_getD_getElem?, Array.getElem?_eq_getElem bound, getD_some]

theorem HeapOrdered.least (ordered : h.HeapOrdered) (some_ : 1 ≤ h.last) :
    Least h.events (h.at root) := by
  refine ⟨(mem_events).mpr ⟨1, le_rfl, some_, rfl⟩, fun other member => ?_⟩
  obtain ⟨i, pos, le, rfl⟩ := (mem_events).mp member
  exact ordered.root_le pos le

theorem position_of_mem (unique : Unique h.events) (member : ev ∈ h.events) :
    ∃ i, h.position ev.key.uid = some i ∧ 1 ≤ i ∧ i ≤ h.last ∧ h.at i = ev := by
  have found : (h.position ev.key.uid).isSome = true := by
    obtain ⟨i, pos, le, rfl⟩ := (mem_events).mp member
    rw [position, find?_isSome]
    exact ⟨i, mem_range'_1.mpr ⟨pos, by omega⟩, beq_self_eq_true _⟩
  obtain ⟨i, search⟩ := isSome_iff_exists.mp found
  have same := find?_some search
  have range := mem_range'_1.mp (mem_of_find?_eq_some search)
  have here : h.at i ∈ h.events := (mem_events).mpr ⟨i, by omega, by omega, rfl⟩
  refine ⟨i, search, by omega, by omega, ?_⟩
  exact unique.eq_of_uid here member (eq_of_beq same).symm

end Positions

section Operations

theorem at_push (bound : i < h.heap.size) :
    HeapScheduler.at { heap := h.heap.push ev } i = h.at i := by
  simp [«at», Array.getElem?_push, Nat.ne_of_lt bound]

/-- `Insert` keeps the heap order. -/
theorem insert_spec (h : HeapScheduler) (ev : Event) (pos : 0 < h.heap.size) :
    (h.insert ev).events.Perm (ev :: h.events) ∧ 0 < (h.insert ev).heap.size ∧
      (h.HeapOrdered → (h.insert ev).HeapOrdered) := by
  have pushed : HeapScheduler.last { heap := h.heap.push ev } = h.last + 1 := by
    simp only [last, Array.size_push]
    omega
  have bound : h.last + 1 < (h.heap.push ev).size := by
    simp only [last, Array.size_push]
    omega
  rw [insert, bottomUp, pushed]
  obtain ⟨events_, size⟩ := bottomUpFrom_events (h := { heap := h.heap.push ev }) bound
  rw [Array.size_push] at size
  refine ⟨events_.trans ?_, by omega, fun ordered => ?_⟩
  · have appended : HeapScheduler.events { heap := h.heap.push ev } = h.events ++ [ev] := by
      rw [events, events, Array.toList_push, drop_append_of_le_length]
      exact pos
    rw [appended]
    exact perm_append_singleton _ _
  · refine bottomUpFrom_ordered ?_ (by omega) bound
    rw [pushed]
    refine Ordered.grow ordered fun i le => ?_
    rw [ranks, ranks, at_push]
    unfold last at le
    omega

/-- What remains when the event at a position was exchanged with the last one and
dropped. -/
def dropAt (h : HeapScheduler) (i : Nat) : HeapScheduler :=
  { heap := (h.exch i h.last).heap.pop }

theorem last_dropAt (h : HeapScheduler) (i : Nat) : (h.dropAt i).last = h.last - 1 := by
  simp [dropAt, last]

theorem lt_size (le : i ≤ h.last) (pos : 1 ≤ i) : i < h.heap.size := by
  unfold last at le
  omega

theorem ranks_dropAt (pos : 1 ≤ i) (le : i ≤ h.last) {j : Nat} (inside : j ≤ (h.dropAt i).last) :
    (h.dropAt i).ranks j = (h.ranks ∘ Equiv.swap i h.last) j := by
  rw [last_dropAt] at inside
  rw [← ranks_exch (lt_size le pos) (lt_size le_rfl (by omega)), ranks, ranks, dropAt]
  unfold last at le inside
  simp only [«at», Array.getD_eq_getD_getElem?, Array.getElem?_pop, size_exch]
  rw [if_pos (by omega)]

theorem events_pop (some_ : 1 ≤ h.last) :
    h.events = HeapScheduler.events { heap := h.heap.pop } ++ [h.at h.last] := by
  have bound := lt_size (le_refl h.last) some_
  have nonempty : h.heap.toList ≠ [] := by
    rw [← length_pos_iff, Array.length_toList]
    omega
  have top : h.at h.last = h.heap.toList.getLast nonempty := by
    rw [getLast_eq_getElem, «at», Array.getD_eq_getD_getElem?,
      Array.getElem?_eq_getElem bound, getD_some]
    rfl
  rw [events, events, Array.toList_pop, ← drop_append_of_le_length, top,
    dropLast_append_getLast]
  rw [length_dropLast, Array.length_toList]
  exact some_

theorem events_dropAt (pos : 1 ≤ i) (le : i ≤ h.last) :
    h.events.Perm (h.at i :: (h.dropAt i).events) := by
  have bound := lt_size le pos
  have last_ := lt_size (le_refl h.last) (by omega)
  have exchanged := events_exch bound last_ pos (by omega)
  rw [events_pop (by rw [last_exch]; omega), last_exch, at_exch bound last_,
    Equiv.swap_apply_right] at exchanged
  exact exchanged.symm.trans (perm_append_singleton _ _)

theorem topDown_dropAt_events (pos : 1 ≤ i) (le : i ≤ h.last) :
    h.events.Perm (h.at i :: ((h.dropAt i).topDown i).events) ∧
      0 < ((h.dropAt i).topDown i).heap.size := by
  obtain ⟨events, size, -⟩ := topDown_spec (h := h.dropAt i) pos
  refine ⟨(events_dropAt pos le).trans (events.symm.cons _), ?_⟩
  rw [size]
  simp only [dropAt, Array.size_pop, size_exch]
  unfold last at le
  omega

/-- Taking out the event at a position keeps the heap order exactly when the last
event does not come before the parent of that position. -/
theorem topDown_dropAt_ordered_iff (ordered : h.HeapOrdered) (pos : 1 ≤ i) (le : i ≤ h.last) :
    ((h.dropAt i).topDown i).HeapOrdered ↔
      (2 ≤ i → i < h.last → h.ranks (i / 2) ≤ h.ranks h.last) := by
  have count := last_dropAt h i
  constructor
  · intro kept two inside
    by_contra less
    rw [not_le] at less
    have here : (h.dropAt i).ranks i = h.ranks h.last := by
      rw [ranks_dropAt pos le (by omega), Function.comp_apply, Equiv.swap_apply_left]
    -- The children come after the parent of the place, so nothing moves.
    have stays : (h.dropAt i).topDown i = h.dropAt i := by
      obtain ⟨stops, -⟩ | ⟨c, child, bound, -, more, -⟩ := topDown_cases (h := h.dropAt i) pos
      · exact stops
      · have within : c ≤ (h.dropAt i).last := by
          unfold last
          omega
        have child_ : (h.dropAt i).ranks c = h.ranks c := by
          rw [ranks_dropAt pos le within, Function.comp_apply,
            Equiv.swap_apply_of_ne_of_ne (by omega) (by omega)]
        rw [here, child_] at more
        have up : h.ranks i ≤ h.ranks c := child ▸ ordered c (by omega) (by omega)
        exact absurd (less.trans_le ((ordered i two le).trans up)) (not_lt.mpr more)
    rw [stays] at kept
    have broken := kept i two (by omega)
    rw [here, ranks_dropAt pos le (by omega), Function.comp_apply,
      Equiv.swap_apply_of_ne_of_ne (by omega) (by omega)] at broken
    exact absurd less (not_lt.mpr broken)
  · intro parent
    refine (topDown_spec pos).2.2 ?_
    have same : ∀ j ≤ (h.dropAt i).last,
        (h.dropAt i).ranks j = (h.ranks ∘ Equiv.swap i h.last) j :=
      fun j => ranks_dropAt pos le
    obtain inside | rfl : i < h.last ∨ i = h.last := by omega
    · have down := ordered.replace inside pos (fun two => parent two inside)
      rw [← count] at down
      exact
        { pairs := fun j two le ne => by
            rw [same j le, same (j / 2) (by omega)]
            exact down.pairs j two le ne
          across := fun c two le child => by
            rw [same c le, same (i / 2) (by omega)]
            exact down.across c two le child }
    · have same' : ∀ j ≤ (h.dropAt h.last).last, (h.dropAt h.last).ranks j = h.ranks j := by
        intro j le'
        rw [same j le', Function.comp_apply, Equiv.swap_self, Equiv.refl_apply]
      exact
        { pairs := fun j two le' _ => by
            rw [same' j le', same' (j / 2) (by omega)]
            exact ordered j two (by omega)
          across := fun c two le' child => by omega }

end Operations

section Runs

variable {s s' : Session HeapScheduler} {c : Call}

/-- The event may be removed: it is at the root or the last one, or the last event
does not come before the parent of its position. -/
def Replaceable (h : HeapScheduler) (ev : Event) : Prop :=
  ∀ i ∈ h.position ev.key.uid,
    isRoot i = true ∨ i = h.last ∨ h.isLessStrictly h.last (parent i) = false
  deriving Decidable

/-- The condition on a call: `Remove` finds a replaceable event. -/
def KeepsOrder (s : Session HeapScheduler) : Call → Prop
  | .remove ev => s.scheduler.Replaceable ev
  | _ => True

instance (s : Session HeapScheduler) : (c : Call) → Decidable (KeepsOrder s c)
  | .remove ev => inferInstanceAs (Decidable (s.scheduler.Replaceable ev))
  | .insert _ | .removeNext => instDecidableTrue

/-- The heap is ordered and is the sorted set of the stored events. -/
def Sorted (profile : BuildProfile) (s : Session HeapScheduler) : Prop :=
  s.scheduler.HeapOrdered ∧ Refines (scheduler profile) events s

/-- The invariant of a run. -/
structure Good (s : Session HeapScheduler) : Prop where
  slot : 0 < s.scheduler.heap.size
  ordered : s.scheduler.HeapOrdered
  contents : s.scheduler.events.Perm s.stored
  unique : Unique s.stored

theorem Good.isEmpty (good : Good s) : s.scheduler.isEmpty = s.stored.isEmpty := by
  have length := good.contents.length_eq
  rw [length_events] at length
  have slot := good.slot
  unfold last at length
  rw [HeapScheduler.isEmpty, Bool.eq_iff_iff, beq_iff_eq, isEmpty_iff_length_eq_zero]
  omega

theorem Good.removeNext (good : Good s) (some_ : s.stored ≠ []) :
    s.scheduler.removeNext =
      some (s.scheduler.at root, (s.scheduler.dropAt root).topDown root) ∧
    s.scheduler.peekNext = some (s.scheduler.at root) ∧ root ≤ s.scheduler.last := by
  have notEmpty : s.scheduler.isEmpty = false := by
    rw [good.isEmpty, isEmpty_eq_false_iff]
    exact some_
  have slot := good.slot
  rw [HeapScheduler.removeNext, peekNext, notEmpty, if_neg Bool.false_ne_true,
    if_neg Bool.false_ne_true]
  refine ⟨rfl, rfl, ?_⟩
  simp only [HeapScheduler.isEmpty, beq_eq_false_iff_ne] at notEmpty
  unfold root last
  omega

theorem Good.remove (good : Good s) (profile : BuildProfile) {ev : Event} (member : ev ∈ s.stored) :
    ∃ i, s.scheduler.position ev.key.uid = some i ∧ 1 ≤ i ∧ i ≤ s.scheduler.last ∧
      s.scheduler.at i = ev ∧
      s.scheduler.remove profile ev = some ((s.scheduler.dropAt i).topDown i) := by
  obtain ⟨i, search, pos, le, here⟩ := position_of_mem
    (good.unique.perm good.contents.symm) (good.contents.mem_iff.mpr member)
  refine ⟨i, search, pos, le, here, ?_⟩
  rw [HeapScheduler.remove, search]
  simp only [here, beq_self_eq_true, nsAssert_true]
  rfl

theorem Good.erase (good : Good s) {i : Nat} (pos : 1 ≤ i) (le : i ≤ s.scheduler.last) :
    ((s.scheduler.dropAt i).topDown i).events.Perm (s.stored.erase (s.scheduler.at i)) := by
  have whole := (topDown_dropAt_events pos le).1
  have erased := (good.contents.symm.trans whole).erase (s.scheduler.at i)
  rw [erase_cons_head] at erased
  exact erased.symm

theorem Good.sorted (good : Good s) (profile : BuildProfile) : Sorted profile s := by
  refine ⟨good.ordered, good.contents, good.isEmpty, fun some_ => ?_, fun ev member => ?_⟩
  · obtain ⟨removes, peeks, le⟩ := good.removeNext some_
    refine ⟨s.scheduler.at root, _, ?_, peeks, removes, good.erase le_rfl le⟩
    exact (good.ordered.least le).perm good.contents
  · obtain ⟨i, -, pos, le, rfl, removes⟩ := good.remove profile member
    exact ⟨_, removes, good.erase pos le⟩

/-- What a call does to a good session; only `Remove` has a condition. -/
theorem Good.call (good : Good s) (allowed : Allowed s c) (keeps : KeepsOrder s c)
    (run : call (scheduler profile) s c = some s') : Good s' := by
  obtain ⟨slot, ordered, contents, unique⟩ := id good
  cases c with
  | insert ev =>
    cases run
    obtain ⟨events, slot', kept⟩ := insert_spec s.scheduler ev slot
    exact ⟨slot', kept ordered, events.trans (contents.cons ev), unique.cons allowed⟩
  | remove ev =>
    obtain ⟨i, search, pos, le, here, removes⟩ := good.remove profile allowed
    have found : (scheduler profile).remove s.scheduler ev = _ := removes
    rw [Scheduler.call, found] at run
    cases run
    have kept := (topDown_dropAt_ordered_iff ordered pos le).mpr fun two inside => by
      have condition := keeps i search
      rw [isLessStrictly_eq, decide_eq_false_iff_not, not_lt] at condition
      refine (condition.resolve_left ?_).resolve_left (by omega)
      simp [isRoot, root]
      omega
    exact ⟨(topDown_dropAt_events pos le).2, kept, here ▸ good.erase pos le, unique.erase ev⟩
  | removeNext =>
    obtain ⟨removes, -, le⟩ := good.removeNext allowed
    have found : (scheduler profile).removeNext s.scheduler = _ := removes
    rw [Scheduler.call, found] at run
    cases run
    have kept := (topDown_dropAt_ordered_iff ordered (le_refl 1) le).mpr fun two => by omega
    exact ⟨(topDown_dropAt_events (le_refl 1) le).2, kept, good.erase (le_refl 1) le,
      unique.erase _⟩

/-- The heap is the sorted set of its events in every state of a run if and only if
every event that is removed is replaceable. -/
theorem sorted_iff (profile : BuildProfile) (calls : List Call)
    (allowed : Run.Meets (call (scheduler profile)) Allowed ⟨start, [], 0⟩ calls) :
    Run.Always (call (scheduler profile)) (Sorted profile) ⟨start, [], 0⟩ calls ↔
      Run.Meets (call (scheduler profile)) KeepsOrder ⟨start, [], 0⟩ calls := by
  refine Run.always_iff_meets_within (I := Good) ?_ allowed (fun _ good => good.sorted profile)
    (fun _ _ _ good allowed keeps run => good.call allowed keeps run) ?_
  · exact ⟨by decide, fun i two le => absurd le (by simp [start, last]; omega), List.Perm.nil,
      nodup_nil⟩
  · intro s c good allowed sorted
    cases c with
    | insert ev => trivial
    | removeNext => trivial
    | remove ev =>
      obtain ⟨i, search, pos, le, here, removes⟩ := good.remove profile allowed
      have found : (scheduler profile).remove s.scheduler ev = _ := removes
      have kept := (sorted _ (by rw [Scheduler.call, found]; rfl)).1
      have order := (topDown_dropAt_ordered_iff good.ordered pos le).mp kept
      rintro j search'
      obtain rfl := some.inj (search.symm.trans search')
      obtain rfl | two : i = 1 ∨ 2 ≤ i := by omega
      · exact .inl rfl
      obtain inside | last_ : i < s.scheduler.last ∨ i = s.scheduler.last := by omega
      · refine .inr (.inr ?_)
        rw [isLessStrictly_eq, decide_eq_false_iff_not, not_lt]
        exact order two inside
      · exact .inr (.inl last_)

/-- An event of a time, with its time as its id. -/
def sample (ts : Nat) : Event := { impl := ts, key := { ts, uid := ts, context := 0 } }

example : (Run.exec (call (scheduler .debug)) ⟨start, [], 0⟩
    [.insert (sample 2), .insert (sample 1)]).map (fun s => s.scheduler.peekNext) =
      some (some (sample 1)) := by
  decide +kernel

/-- Three events are inserted, the last one removed and the first one taken. -/
theorem sorted_iff_sample :
    Run.Always (call (scheduler .debug)) (Sorted .debug) ⟨start, [], 0⟩
      [.insert (sample 2), .insert (sample 1), .insert (sample 3), .remove (sample 3),
        .removeNext] :=
  (sorted_iff .debug
    [.insert (sample 2), .insert (sample 1), .insert (sample 3), .remove (sample 3), .removeNext]
    (by decide +kernel)).mpr (by decide +kernel)

/-- The event of time 7 is removed from one side of the heap; the event of time 3
takes its place below the one of time 4, which is then the next one before it. -/
theorem removed_from_the_middle :
    ∃ calls s, Run.Meets (call (scheduler .debug)) Allowed ⟨start, [], 0⟩ calls ∧
      Run.exec (call (scheduler .debug)) ⟨start, [], 0⟩ calls = some s ∧ ¬ Sorted .debug s := by
  have ran : (Run.exec (call (scheduler .debug)) ⟨start, [], 0⟩
      [.insert (sample 5), .insert (sample 7), .insert (sample 6), .insert (sample 2),
        .insert (sample 4), .insert (sample 3), .insert (sample 1), .remove (sample 7),
        .removeNext, .removeNext]).map (fun s => (s.scheduler.peekNext, s.stored)) =
      some (some (sample 4), [sample 3, sample 4, sample 6, sample 5]) := by
    decide +kernel
  obtain ⟨s, run, eq⟩ := map_eq_some_iff.mp ran
  obtain ⟨peek, stored⟩ := Prod.mk.inj eq
  refine ⟨_, s, by decide +kernel, run, fun sorted => ?_⟩
  obtain ⟨ev, -, least, peeks, -⟩ := sorted.2.next (by simp [stored])
  obtain rfl := some.inj (peek.symm.trans peeks)
  have before := least.2 (sample 3) (by simp [stored])
  exact absurd before (by decide)

end Runs

end Ns3.HeapScheduler
