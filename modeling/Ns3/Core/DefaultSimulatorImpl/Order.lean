import Ns3.Core.DefaultSimulatorImpl.Basic
import Mathlib.Data.List.Range

/-!
# The order of events

Over a scheduler that is a priority queue the simulator executes every event once and in the
order of time and unique id. The pair of the current time and the current id separates the
events that have started from those that wait: so `IsExpired` need not look for an event.
-/

namespace Ns3

open Scheduler List Option

/-- A scheduler that behaves as a priority queue on time and unique id. -/
structure PriorityQueue (σ : Type) extends Scheduler σ where
  stored : σ → List Event
  isEmpty_eq : ∀ s, isEmpty s = (stored s).isEmpty
  insert_spec : ∀ s ev, (∀ other ∈ stored s, other.key.uid ≠ ev.key.uid) →
    ∃ t, insert s ev = some t ∧ (stored t).Perm (ev :: stored s)
  removeNext_spec : ∀ s, Unique (stored s) → stored s ≠ [] → ∃ ev t,
    removeNext s = some (ev, t) ∧ Least (stored s) ev ∧ (stored t).Perm ((stored s).erase ev)
  remove_spec : ∀ s ev, Unique (stored s) → ev ∈ stored s → ∃ t,
    remove s ev = some t ∧ (stored t).Perm ((stored s).erase ev)

namespace DefaultSimulatorImpl

variable {σ : Type} {Q : PriorityQueue σ} {s t : DefaultSimulatorImpl σ} {profile : BuildProfile}
  {pending : List Nat} {k : Nat} {ev : Event}

/-- The events in the scheduler. -/
def queued (Q : PriorityQueue σ) (s : DefaultSimulatorImpl σ) : List Event := Q.stored s.events

/-- Time and id of the event that started last. -/
def current (s : DefaultSimulatorImpl σ) : ℕ ×ₗ ℕ := toLex (s.currentTs, s.currentUid)

/-- The event that an id names. -/
def Names (id : EventId) (ev : Event) : Prop :=
  id.impl = some ev.impl ∧ id.ts = ev.key.ts ∧ id.context = ev.key.context ∧ id.uid = ev.key.uid

/-- The invariant. The events of `pending` are not in the scheduler yet. -/
structure Consistent (Q : PriorityQueue σ) (pending : List Nat) (s : DefaultSimulatorImpl σ) :
    Prop where
  count : s.uid + pending.length = 4 + s.impls
  low : 4 ≤ s.uid
  bound : 4 + s.impls < 2 ^ 32
  unique : Unique (queued Q s)
  later : ∀ ev ∈ queued Q s, s.current < ev.key.rank
  inserted : s.inserted.Pairwise fun a b => a.key.uid < b.key.uid
  issued : ∀ ev ∈ s.inserted, 4 ≤ ev.key.uid ∧ ev.key.uid < s.uid
  kept : ∀ ev ∈ queued Q s ++ s.taken, ev ∈ s.inserted
  recent : s.currentUid < s.uid
  past : ∀ ev ∈ s.taken, ev.key.rank ≤ s.current
  sorted : s.taken.Pairwise fun a b => a.key.rank < b.key.rank
  executed : s.executed.Sublist s.taken
  skipped : ∀ ev ∈ s.taken, ev ∈ s.executed ↔ ev.impl ∉ s.cancelled
  impls : (pending ++ ((queued Q s).map (·.impl) ++ (s.taken.map (·.impl) ++ s.removed))).Perm
    (List.range s.impls)
  removed : ∀ k ∈ s.removed, k ∈ s.cancelled
  known : ∀ k ∈ s.cancelled, k < s.impls ∧ k ∉ pending
  ids : ∀ id ∈ s.ids, ∃ ev, Names id ev ∧ 4 ≤ ev.key.uid ∧
    (ev ∈ queued Q s ∨ ev ∈ s.taken ∨ ev.impl ∈ s.removed)
  counted : s.unscheduledEvents = int32 (queued Q s).length

theorem Consistent.older (h : Consistent Q pending s) :
    ∀ ev ∈ queued Q s ++ s.taken, 4 ≤ ev.key.uid ∧ ev.key.uid < s.uid :=
  fun ev mem => h.issued ev (h.kept ev mem)

theorem Consistent.fresh (h : Consistent Q pending s) :
    ∀ other ∈ queued Q s, other.key.uid ≠ s.uid := by
  intro other mem
  exact (h.older other (mem_append_left _ mem)).2.ne

theorem Consistent.uid_add (h : Consistent Q (k :: pending) s) :
    UInt32.add s.uid 1 = s.uid + 1 := by
  have count := h.count
  have bound := h.bound
  rw [length_cons] at count
  exact UInt32.add_of_lt (by omega)

/-- An event is given the next id and put into the scheduler. -/
theorem Consistent.insert {k ts context : Nat} (h : Consistent Q (k :: pending) s)
    (notBefore : s.currentTs ≤ ts) {events : σ}
    (stored : (Q.stored events).Perm (⟨k, ts, s.uid, context⟩ :: queued Q s)) :
    Consistent Q pending { s with
      events
      uid := UInt32.add s.uid 1
      unscheduledEvents := int32 (s.unscheduledEvents + 1)
      inserted := s.inserted ++ [⟨k, ts, s.uid, context⟩] } := by
  have count := h.count
  have unique : Unique (⟨k, ts, s.uid, context⟩ :: queued Q s) := h.unique.cons h.fresh
  have members (ev : Event) (mem : ev ∈ Q.stored events) :
      ev = ⟨k, ts, s.uid, context⟩ ∨ ev ∈ queued Q s := mem_cons.mp (stored.mem_iff.mp mem)
  refine ⟨?_, ?_, h.bound, unique.perm stored.symm, ?_, ?_, ?_, ?_, ?_, h.past,
    h.sorted, h.executed,
    h.skipped, ?_, h.removed, ?_, ?_, ?_⟩
  · rw [h.uid_add]
    simp only [length_cons] at count ⊢
    omega
  · rw [h.uid_add]
    exact h.low.trans (Nat.le_succ _)
  · intro ev mem
    obtain rfl | old := members ev mem
    · refine Prod.Lex.toLex_lt_toLex.mpr ?_
      obtain less | same := Nat.lt_or_eq_of_le notBefore
      · exact .inl less
      · exact .inr ⟨same, h.recent⟩
    · exact h.later ev old
  · refine pairwise_append.mpr ⟨h.inserted, pairwise_singleton _ _, fun a old b new => ?_⟩
    rw [mem_singleton.mp new]
    exact (h.issued a old).2
  · intro ev mem
    rw [h.uid_add]
    obtain old | new := mem_append.mp mem
    · exact ⟨(h.issued ev old).1, (h.issued ev old).2.trans (Nat.lt_succ_self _)⟩
    · rw [mem_singleton.mp new]
      exact ⟨h.low, Nat.lt_succ_self _⟩
  · intro ev mem
    obtain waits | past := mem_append.mp mem
    · obtain rfl | old := members ev waits
      · exact mem_append_right _ mem_cons_self
      · exact mem_append_left _ (h.kept ev (mem_append_left _ old))
    · exact mem_append_left _ (h.kept ev (mem_append_right _ past))
  · rw [h.uid_add]
    exact h.recent.trans (Nat.lt_succ_self _)
  · have moved := (stored.map (·.impl)).append_right (s.taken.map (·.impl) ++ s.removed)
    exact ((moved.append_left pending).trans perm_middle).trans h.impls
  · intro k' mem
    obtain ⟨small, out⟩ := h.known k' mem
    exact ⟨small, fun waits => out (mem_cons_of_mem k waits)⟩
  · intro id mem
    obtain ⟨ev, names, low, place⟩ := h.ids id mem
    refine ⟨ev, names, low, place.imp_left fun waits => ?_⟩
    exact stored.mem_iff.mpr (mem_cons_of_mem _ waits)
  · simp only [queued]
    rw [stored.length_eq, length_cons, h.counted, int32_add]
    rfl

section

variable (h : Consistent Q pending s)
include h

theorem Consistent.insertEvent (k ts context : Nat) : ∃ events,
    s.insertEvent Q.toScheduler k ts context = some { s with
      events
      uid := UInt32.add s.uid 1
      unscheduledEvents := int32 (s.unscheduledEvents + 1)
      inserted := s.inserted ++ [⟨k, ts, s.uid, context⟩] } ∧
    (Q.stored events).Perm (⟨k, ts, s.uid, context⟩ :: queued Q s) := by
  obtain ⟨events, run, stored⟩ := Q.insert_spec s.events ⟨k, ts, s.uid, context⟩ h.fresh
  exact ⟨events, by simp [DefaultSimulatorImpl.insertEvent, newKey, run], stored⟩

theorem Consistent.allocate (bound : 4 + (s.impls + 1) < 2 ^ 32) :
    Consistent Q (s.impls :: pending) { s with impls := s.impls + 1 } := by
  have count := h.count
  refine ⟨by simp only [length_cons]; omega, h.low, bound, h.unique, h.later, h.inserted,
    h.issued, h.kept, h.recent,
    h.past, h.sorted, h.executed, h.skipped, ?_, h.removed, ?_, h.ids, h.counted⟩
  · rw [range_succ]
    exact (h.impls.cons s.impls).trans (perm_append_singleton _ _).symm
  · intro k mem
    obtain ⟨small, out⟩ := h.known k mem
    refine ⟨small.trans (Nat.lt_succ_self _), fun waits => ?_⟩
    obtain rfl | old := mem_cons.mp waits
    · exact Nat.lt_irrefl _ small
    · exact out old

theorem Consistent.returnId (mem : ev ∈ queued Q s) :
    Consistent Q pending { s with
      ids := s.ids ++ [⟨some ev.impl, ev.key.ts, ev.key.context, ev.key.uid⟩] } := by
  refine ⟨h.count, h.low, h.bound, h.unique, h.later, h.inserted, h.issued, h.kept, h.recent,
    h.past, h.sorted,
    h.executed, h.skipped, h.impls, h.removed, h.known, fun id there => ?_, h.counted⟩
  obtain old | new := mem_append.mp there
  · exact h.ids id old
  · rw [mem_singleton.mp new]
    exact ⟨ev, ⟨rfl, rfl, rfl, rfl⟩, (h.older ev (mem_append_left _ mem)).1, .inl mem⟩

/-- Time does not go back, and the list of other threads is as before. -/
structure Follows (s t : DefaultSimulatorImpl σ) : Prop where
  time : s.currentTs ≤ t.currentTs
  waiting : t.eventsWithContext = s.eventsWithContext
  empty : t.eventsWithContextEmpty = s.eventsWithContextEmpty

theorem Consistent.schedule (bound : 4 + (s.impls + 1) < 2 ^ 32)
    {delay : Nat} (fits : delay + s.currentTs < 2 ^ 64) :
    ∃ t, s.schedule Q.toScheduler delay = some t ∧ Consistent Q pending t ∧ Follows s t := by
  have notBefore : s.currentTs ≤ UInt64.add delay s.currentTs := by
    rw [UInt64.add_of_lt fits]
    exact Nat.le_add_left _ _
  obtain ⟨events, run, stored⟩ :=
    h.insertEvent s.impls (UInt64.add delay s.currentTs) s.currentContext
  have inserted := (h.allocate bound).insert notBefore stored
  have mem := stored.mem_iff.mpr mem_cons_self
  refine ⟨_, ?_, inserted.returnId mem, le_rfl, rfl, rfl⟩
  simp [DefaultSimulatorImpl.schedule, run]

theorem Consistent.scheduleWithContext (bound : 4 + (s.impls + 1) < 2 ^ 32) {context delay : Nat}
    (fits : delay + s.currentTs < 2 ^ 64) :
    ∃ t, s.scheduleWithContext Q.toScheduler context delay = some t ∧ Consistent Q pending t ∧
      Follows s t := by
  have notBefore : s.currentTs ≤ UInt64.add delay s.currentTs := by
    rw [UInt64.add_of_lt fits]
    exact Nat.le_add_left _ _
  obtain ⟨events, run, stored⟩ := h.insertEvent s.impls (UInt64.add delay s.currentTs) context
  refine ⟨_, ?_, (h.allocate bound).insert notBefore stored, le_rfl, rfl, rfl⟩
  simp [DefaultSimulatorImpl.scheduleWithContext, run]

end

theorem Consistent.insertAll {waiting : List EventWithContext}
    (h : Consistent Q (waiting.map (·.impl)) s)
    (fits : ∀ ev ∈ waiting, s.currentTs + ev.timestamp < 2 ^ 64) :
    ∃ t, insertAll Q.toScheduler waiting s = some t ∧ Consistent Q [] t ∧ Follows s t := by
  induction waiting generalizing s with
  | nil => exact ⟨s, rfl, h, le_rfl, rfl, rfl⟩
  | cons ev waiting ih =>
    have notBefore : s.currentTs ≤ UInt64.add s.currentTs ev.timestamp := by
      rw [UInt64.add_of_lt (fits ev mem_cons_self)]
      exact Nat.le_add_right _ _
    obtain ⟨events, run, stored⟩ :=
      h.insertEvent ev.impl (UInt64.add s.currentTs ev.timestamp) ev.context
    obtain ⟨t, rest, consistent, follows⟩ := ih (h.insert notBefore stored)
      fun other mem => fits other (mem_cons_of_mem ev mem)
    refine ⟨t, ?_, consistent, follows.time, follows.waiting, follows.empty⟩
    simp [DefaultSimulatorImpl.insertAll, run, rest]

/-- The state between calls: what other threads scheduled is pending. -/
structure Sound (Q : PriorityQueue σ) (s : DefaultSimulatorImpl σ) : Prop where
  consistent : Consistent Q (s.eventsWithContext.map (·.impl)) s
  flag : s.eventsWithContextEmpty = true → s.eventsWithContext = []

theorem Sound.follows (h : Sound Q s) (follows : Follows s t)
    (consistent : Consistent Q (s.eventsWithContext.map (·.impl)) t) : Sound Q t where
  consistent := by
    rw [follows.waiting]
    exact consistent
  flag := by
    rw [follows.waiting, follows.empty]
    exact h.flag

theorem Sound.processEventsWithContext (h : Sound Q s)
    (fits : ∀ ev ∈ s.eventsWithContext, s.currentTs + ev.timestamp < 2 ^ 64) :
    ∃ t, s.processEventsWithContext Q.toScheduler = some t ∧ Sound Q t ∧
      s.currentTs ≤ t.currentTs := by
  rw [DefaultSimulatorImpl.processEventsWithContext]
  split
  case isTrue => exact ⟨s, rfl, h, le_rfl⟩
  case isFalse =>
    have c := h.consistent
    have moved : Consistent Q (s.eventsWithContext.map (·.impl))
        { s with eventsWithContext := [], eventsWithContextEmpty := true } :=
      ⟨c.count, c.low, c.bound, c.unique, c.later, c.inserted, c.issued, c.kept, c.recent, c.past,
        c.sorted, c.executed,
        c.skipped, c.impls, c.removed, c.known, c.ids, c.counted⟩
    obtain ⟨t, run, consistent, follows⟩ := moved.insertAll fits
    refine ⟨t, run, ⟨?_, fun _ => follows.waiting⟩, follows.time⟩
    rw [follows.waiting]
    exact consistent

theorem Sound.inject (h : Sound Q s) (bound : 4 + (s.impls + 1) < 2 ^ 32) (context delay : Nat) :
    Sound Q (s.inject context delay) where
  consistent := by
    have c := h.consistent.allocate bound
    have moved : (s.impls :: s.eventsWithContext.map (·.impl)).Perm
        ((s.inject context delay).eventsWithContext.map (·.impl)) := by
      rw [DefaultSimulatorImpl.inject, map_append]
      exact (perm_append_singleton _ _).symm
    refine ⟨?_, c.low, c.bound, c.unique, c.later, c.inserted, c.issued, c.kept, c.recent, c.past,
      c.sorted, c.executed,
      c.skipped, (moved.symm.append_right _).trans c.impls, c.removed, fun k mem => ?_, c.ids,
        c.counted⟩
    · rw [← moved.length_eq]
      exact c.count
    · obtain ⟨small, out⟩ := c.known k mem
      exact ⟨small, fun waits => out (moved.mem_iff.mpr waits)⟩
  flag := nofun

/-! ## `IsExpired`, `Cancel` and `Remove` -/

theorem Consistent.apart (h : Consistent Q pending s) :
    pending.Nodup ∧ ((queued Q s).map (·.impl)).Nodup ∧ (s.taken.map (·.impl)).Nodup ∧
      ∀ k ∈ (queued Q s).map (·.impl), k ∉ s.taken.map (·.impl) ∧ k ∉ s.removed := by
  have nodup := h.impls.nodup_iff.mpr nodup_range
  obtain ⟨first, rest, -⟩ := nodup_append.mp nodup
  obtain ⟨second, rest, apart⟩ := nodup_append.mp rest
  obtain ⟨third, -, -⟩ := nodup_append.mp rest
  refine ⟨first, second, third, fun k mem => ⟨fun there => ?_, fun there => ?_⟩⟩
  · exact apart k mem k (mem_append_left _ there) rfl
  · exact apart k mem k (mem_append_right _ there) rfl

theorem rank_le_iff (s : DefaultSimulatorImpl σ) (ev : Event) : ev.key.rank ≤ s.current ↔
    ev.key.ts < s.currentTs ∨ ev.key.ts = s.currentTs ∧ ev.key.uid ≤ s.currentUid :=
  Prod.Lex.toLex_le_toLex

theorem isExpired_eq {id : EventId} (names : Names id ev) (low : 4 ≤ ev.key.uid) :
    s.isExpired id = true ↔ ev.key.rank ≤ s.current ∨ ev.impl ∈ s.cancelled := by
  obtain ⟨impl, ts, -, uid⟩ := names
  have valid : id.uid ≠ 2 := by omega
  rw [rank_le_iff, isExpired, impl]
  simp only [if_neg valid]
  simp [ts, uid]

theorem Consistent.isExpired_iff (h : Consistent Q pending s) {id : EventId} (mem : id ∈ s.ids) :
    s.isExpired id = true ↔
      ∃ k, id.impl = some k ∧ (k ∈ s.taken.map (·.impl) ∨ k ∈ s.cancelled) := by
  obtain ⟨ev, names, low, place⟩ := h.ids id mem
  rw [isExpired_eq names low]
  constructor
  · intro expired
    refine ⟨ev.impl, names.1, ?_⟩
    obtain reached | cancelled := expired
    · obtain waits | past | gone := place
      · exact absurd reached (not_le.mpr (h.later ev waits))
      · exact .inl (List.mem_map_of_mem past)
      · exact .inr (h.removed _ gone)
    · exact .inr cancelled
  · rintro ⟨k, impl, started | cancelled⟩
    · obtain rfl := some.inj (impl.symm.trans names.1)
      obtain waits | past | gone := place
      · have waits' : ev.impl ∈ (queued Q s).map (·.impl) := List.mem_map_of_mem waits
        exact absurd started (h.apart.2.2.2 _ waits').1
      · exact .inl (h.past ev past)
      · exact .inr (h.removed _ gone)
    · obtain rfl := some.inj (impl.symm.trans names.1)
      exact .inr cancelled

theorem Consistent.queued_of_fresh (h : Consistent Q pending s) {id : EventId} (mem : id ∈ s.ids)
    (fresh : ¬ s.isExpired id = true) : ∃ ev ∈ queued Q s, Names id ev ∧ 4 ≤ ev.key.uid := by
  obtain ⟨ev, names, low, place⟩ := h.ids id mem
  rw [isExpired_eq names low, not_or] at fresh
  obtain waits | past | gone := place
  · exact ⟨ev, waits, names, low⟩
  · exact absurd (h.past ev past) fresh.1
  · exact absurd (h.removed _ gone) fresh.2

/-- The `EventImpl` of an event in the scheduler is cancelled. -/
theorem Consistent.markCancelled (h : Consistent Q pending s) (mem : ev ∈ queued Q s) :
    Consistent Q pending { s with cancelled := s.cancelled ++ [ev.impl] } := by
  have waits : ev.impl ∈ (queued Q s).map (·.impl) := List.mem_map_of_mem mem
  have nodup := h.impls.nodup_iff.mpr nodup_range
  have all : ev.impl ∈ List.range s.impls :=
    h.impls.mem_iff.mp (mem_append_right _ (mem_append_left _ waits))
  refine ⟨h.count, h.low, h.bound, h.unique, h.later, h.inserted, h.issued, h.kept, h.recent,
    h.past, h.sorted,
    h.executed, fun other past => ?_, h.impls, fun k gone => ?_, fun k there => ?_, h.ids,
      h.counted⟩
  · have apart : other.impl ≠ ev.impl := by
      intro same
      exact (h.apart.2.2.2 _ waits).1 (same ▸ List.mem_map_of_mem past)
    rw [h.skipped other past, mem_append, not_or, mem_singleton]
    exact ⟨fun out => ⟨out, apart⟩, And.left⟩
  · exact mem_append_left _ (h.removed k gone)
  · obtain old | new := mem_append.mp there
    · exact h.known k old
    · rw [mem_singleton.mp new]
      refine ⟨mem_range.mp all, fun pends => ?_⟩
      exact (nodup_append.mp nodup).2.2 _ pends _ (mem_append_left _ waits) rfl

theorem getD_ids (s : DefaultSimulatorImpl σ) (i : Nat) :
    s.ids.getD i {} ∈ s.ids ∨ s.ids.getD i {} = {} := by
  rw [getD_eq_getElem?_getD]
  cases there : s.ids[i]? with
  | none => exact .inr rfl
  | some id => exact .inl (mem_of_getElem? there)

theorem Consistent.cancel (h : Consistent Q pending s) {id : EventId} (mem : id ∈ s.ids) :
    Consistent Q pending (s.cancel id) ∧ Follows s (s.cancel id) := by
  rw [DefaultSimulatorImpl.cancel]
  split
  case h_1 => exact ⟨h, le_rfl, rfl, rfl⟩
  case h_2 impl known =>
    split
    case isTrue => exact ⟨h, le_rfl, rfl, rfl⟩
    case isFalse fresh =>
      obtain ⟨ev, waits, names, -⟩ := h.queued_of_fresh mem fresh
      obtain rfl := some.inj (known.symm.trans names.1)
      exact ⟨h.markCancelled waits, le_rfl, rfl, rfl⟩

/-- An event leaves the scheduler. -/
theorem Consistent.leave (h : Consistent Q pending s) (mem : ev ∈ queued Q s) {events : σ}
    (stored : (Q.stored events).Perm ((queued Q s).erase ev)) :
    Unique (Q.stored events) ∧ (∀ other ∈ Q.stored events, other ∈ queued Q s ∧ other ≠ ev) ∧
      (∀ other ∈ queued Q s, other = ev ∨ other ∈ Q.stored events) ∧
      ((queued Q s).map (·.impl)).Perm (ev.impl :: (Q.stored events).map (·.impl)) ∧
      int32 (s.unscheduledEvents - 1) = int32 (Q.stored events).length := by
  have nodup := h.unique.nodup
  have split_ : (queued Q s).Perm (ev :: Q.stored events) :=
    (List.perm_cons_erase mem).trans (stored.symm.cons ev)
  refine ⟨(h.unique.erase ev).perm stored.symm, fun other there => ?_, fun other there => ?_,
    split_.map _, ?_⟩
  · have kept := (nodup.mem_erase_iff).mp (stored.mem_iff.mp there)
    exact ⟨kept.2, kept.1⟩
  · exact mem_cons.mp (split_.mem_iff.mp there)
  · have length := split_.length_eq
    rw [length_cons] at length
    rw [h.counted, int32_sub, length]
    congr 1
    omega

theorem Consistent.remove (h : Consistent Q pending s) {id : EventId} (mem : id ∈ s.ids) :
    ∃ t, s.remove Q.toScheduler id = some t ∧ Consistent Q pending t ∧ Follows s t := by
  obtain ⟨named, names, low, -⟩ := h.ids id mem
  have valid : id.uid ≠ 2 := by
    have := names.2.2.2
    omega
  rw [DefaultSimulatorImpl.remove, if_neg valid]
  simp only [names.1]
  split
  case isTrue => exact ⟨s, rfl, h, le_rfl, rfl, rfl⟩
  case isFalse fresh =>
    obtain ⟨ev, waits, ⟨impl, ts, context, uid⟩, -⟩ := h.queued_of_fresh mem fresh
    have impl' : named.impl = ev.impl := some.inj (names.1.symm.trans impl)
    have same : (⟨ev.impl, id.ts, id.uid, id.context⟩ : Event) = ev := by rw [ts, context, uid]
    obtain ⟨events, run, stored⟩ := Q.remove_spec s.events ev h.unique waits
    obtain ⟨unique, kept, others, moved, counted⟩ := h.leave waits stored
    have marked := h.markCancelled waits
    rw [impl', same, run]
    refine ⟨_, rfl, ⟨h.count, h.low, h.bound, unique, fun other there => ?_, h.inserted, h.issued,
      fun other there => ?_, h.recent, h.past, h.sorted, h.executed, marked.skipped, ?_,
        fun k gone => ?_, marked.known,
      fun id' there => ?_, counted⟩, le_rfl, rfl, rfl⟩
    · exact h.later other (kept other there).1
    · refine h.kept other ?_
      obtain stays | past := mem_append.mp there
      · exact mem_append_left _ (kept other stays).1
      · exact mem_append_right _ past
    · -- the implementation moves from the scheduler to those that were removed
      have back := moved.append_right (s.taken.map (·.impl) ++ s.removed)
      refine List.Perm.trans (List.Perm.append_left pending ?_) h.impls
      refine List.Perm.trans ?_ back.symm
      simp only [queued, ← append_assoc]
      exact (perm_append_singleton _ _).trans (by simp)
    · obtain old | new := mem_append.mp gone
      · exact mem_append_left _ (h.removed k old)
      · exact mem_append_right _ new
    · obtain ⟨other, names', low', place⟩ := h.ids id' there
      refine ⟨other, names', low', ?_⟩
      obtain stays | past | gone := place
      · obtain rfl | stays := others other stays
        · exact .inr (.inr (mem_append_right _ mem_cons_self))
        · exact .inl stays
      · exact .inr (.inl past)
      · exact .inr (.inr (mem_append_left _ gone))

/-! ## `SetScheduler` and `ProcessOneEvent` -/

theorem transfer_spec (rounds : Nat) (old new : σ) (unique : Unique (Q.stored old ++ Q.stored new))
    (enough : (Q.stored old).length < rounds) :
    ∃ events, transfer Q.toScheduler rounds old new = some events ∧
      (Q.stored events).Perm (Q.stored old ++ Q.stored new) := by
  induction rounds generalizing old new with
  | zero => cases enough
  | succ rounds ih =>
    rw [transfer, Q.isEmpty_eq]
    split
    case isTrue none_ =>
      rw [List.isEmpty_iff] at none_
      exact ⟨new, rfl, by rw [none_, nil_append]⟩
    case isFalse some_ =>
      rw [List.isEmpty_iff] at some_
      have uniqueOld : Unique (Q.stored old) :=
        List.Nodup.sublist (List.Sublist.map _ (sublist_append_left _ _)) unique
      obtain ⟨ev, rest, run, least, stored⟩ := Q.removeNext_spec old uniqueOld some_
      have split_ : (Q.stored old).Perm (ev :: Q.stored rest) :=
        (List.perm_cons_erase least.1).trans (stored.symm.cons ev)
      have all : (Q.stored old ++ Q.stored new).Perm (Q.stored rest ++ (ev :: Q.stored new)) :=
        (split_.append_right _).trans perm_middle.symm
      have unique' := unique.perm all
      have fresh : ∀ other ∈ Q.stored new, other.key.uid ≠ ev.key.uid := by
        intro other mem same
        have nodup := (pairwise_append.mp (pairwise_map.mp unique')).2.1
        exact (pairwise_cons.mp nodup).1 other mem same.symm
      obtain ⟨new', inserts, stored'⟩ := Q.insert_spec new ev fresh
      have shorter := split_.length_eq
      rw [length_cons] at shorter
      have next := stored'.append_left (Q.stored rest)
      obtain ⟨events, transfers, final⟩ := ih rest new' (unique'.perm next.symm) (by omega)
      refine ⟨events, ?_, (final.trans next).trans all.symm⟩
      simp [run, inserts, transfers]

theorem Consistent.setScheduler (h : Consistent Q pending s) {rounds : Nat} {new : σ}
    (empty : Q.stored new = []) (enough : (queued Q s).length < rounds) :
    ∃ t, s.setScheduler Q.toScheduler rounds new = some t ∧ Consistent Q pending t ∧
      Follows s t := by
  have unique : Unique (Q.stored s.events ++ Q.stored new) := by
    rw [empty, append_nil]
    exact h.unique
  obtain ⟨events, run, stored⟩ := transfer_spec rounds s.events new unique enough
  rw [empty, append_nil] at stored
  refine ⟨{ s with events }, by simp [DefaultSimulatorImpl.setScheduler, run],
    ⟨h.count, h.low, h.bound, h.unique.perm stored.symm, fun ev mem => ?_, h.inserted, h.issued,
    fun ev mem => ?_, h.recent, h.past, h.sorted, h.executed, h.skipped, ?_, h.removed, h.known,
      fun id mem => ?_, ?_⟩,
    le_rfl, rfl, rfl⟩
  · exact h.later ev (stored.mem_iff.mp mem)
  · refine h.kept ev ?_
    obtain waits | past := mem_append.mp mem
    · exact mem_append_left _ (stored.mem_iff.mp waits)
    · exact mem_append_right _ past
  · exact (((stored.map _).append_right _).append_left _).trans h.impls
  · obtain ⟨ev, names, low, place⟩ := h.ids id mem
    exact ⟨ev, names, low, place.imp_left stored.mem_iff.mpr⟩
  · rw [queued, stored.length_eq]
    exact h.counted

/-- The event `ev` has been taken from the scheduler and runs. -/
def handle (events : σ) (ev : Event) (s : DefaultSimulatorImpl σ) : DefaultSimulatorImpl σ :=
  { s with
    events
    unscheduledEvents := int32 (s.unscheduledEvents - 1)
    eventCount := UInt64.add s.eventCount 1
    currentTs := ev.key.ts
    currentContext := ev.key.context
    currentUid := ev.key.uid
    phase := .running
    taken := s.taken ++ [ev]
    executed := if ev.impl ∈ s.cancelled then s.executed else s.executed ++ [ev] }

theorem Consistent.processOneEvent (h : Consistent Q pending s) (some_ : queued Q s ≠ []) :
    ∃ t, s.processOneEvent Q.toScheduler profile = some t ∧ Consistent Q pending t ∧
      Follows s t := by
  obtain ⟨ev, events, run, least, stored⟩ := Q.removeNext_spec s.events h.unique some_
  obtain ⟨unique, kept, others, moved, counted⟩ := h.leave least.1 stored
  have later := h.later ev least.1
  have forward : s.currentTs ≤ ev.key.ts := by
    obtain less | ⟨same, -⟩ := Prod.Lex.toLex_lt_toLex.mp later
    · exact less.le
    · exact same.le
  have order (other : Event) (there : other ∈ Q.stored events) : ev.key.rank < other.key.rank := by
    obtain ⟨waits, apart⟩ := kept other there
    refine lt_of_le_of_ne (least.2 other waits) fun same => apart ?_
    exact (h.unique.eq_of_rank least.1 waits same).symm
  have bounds := h.older ev (mem_append_left _ least.1)
  have waits : ev.impl ∈ (queued Q s).map (·.impl) := List.mem_map_of_mem least.1
  have fresh : ev ∉ s.taken := fun past => (h.apart.2.2.2 _ waits).1 (List.mem_map_of_mem past)
  have returns : s.processOneEvent Q.toScheduler profile = some (s.handle events ev) := by
    simp [DefaultSimulatorImpl.processOneEvent, run, decide_eq_true forward, handle]
  refine ⟨s.handle events ev, returns,
    ⟨h.count, h.low, h.bound, unique, order, h.inserted, h.issued,
    ?_, bounds.2, ?_, ?_, ?_, ?_, ?_, h.removed, h.known, ?_, counted⟩, forward, rfl, rfl⟩
  · intro other there
    refine h.kept other ?_
    obtain stays | past := mem_append.mp there
    · exact mem_append_left _ (kept other stays).1
    · obtain old | new := mem_append.mp past
      · exact mem_append_right _ old
      · rw [mem_singleton.mp new]
        exact mem_append_left _ least.1
  · intro other past
    obtain old | new := mem_append.mp past
    · exact (h.past other old).trans later.le
    · rw [mem_singleton.mp new]
      exact le_refl ev.key.rank
  · refine pairwise_append.mpr ⟨h.sorted, pairwise_singleton _ _, fun a old b new => ?_⟩
    rw [mem_singleton.mp new]
    exact (h.past a old).trans_lt later
  · simp only [handle]
    split
    case isTrue => exact h.executed.trans (sublist_append_left _ _)
    case isFalse => exact h.executed.append (.refl _)
  · intro other past
    obtain old | new := mem_append.mp past
    · -- the new event is not among those that were taken before
      have apart : other ≠ ev := fun same => fresh (same ▸ old)
      refine Iff.trans ?_ (h.skipped other old)
      simp only [handle]
      split
      case isTrue => exact Iff.rfl
      case isFalse => simp [apart]
    · rw [mem_singleton.mp new]
      have before : ev ∉ s.executed := fun there => fresh (h.executed.subset there)
      simp only [handle]
      split
      case isTrue cancelled =>
        exact ⟨fun there => absurd there before, fun out => absurd cancelled out⟩
      case isFalse clear => exact ⟨fun _ => clear, fun _ => mem_append_right _ mem_cons_self⟩
  · -- the implementation moves from the scheduler to those that were taken
    refine List.Perm.trans (List.Perm.append_left pending ?_) h.impls
    refine List.Perm.trans ?_ (moved.append_right (s.taken.map (·.impl) ++ s.removed)).symm
    simp only [handle, queued, map_append, map_cons, map_nil, append_assoc,
      cons_append, nil_append]
    exact (List.Perm.append_left _ perm_middle).trans perm_middle
  · intro id there
    obtain ⟨other, names, low, place⟩ := h.ids id there
    refine ⟨other, names, low, ?_⟩
    obtain stays | past | gone := place
    · obtain rfl | stays := others other stays
      · exact .inr (.inl (mem_append_right _ mem_cons_self))
      · exact .inl stays
    · exact .inr (.inl (mem_append_left _ past))
    · exact .inr (.inr gone)

end DefaultSimulatorImpl

end Ns3
