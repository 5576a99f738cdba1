import Ns3.Core.CalendarScheduler.Basic

/-!
# The search through the year

The cursor is at the day of the event that was removed last, and nothing stored
is before that event. The walk visits the days of one year in turn. Nothing
stored is before the day it has come to, so an event of that day comes before all
others; when there is none in the whole year, every bucket has been visited.
-/

namespace Ns3.CalendarScheduler

open Scheduler

variable {c : CalendarScheduler} {ev : Event}

/-- Times that the calendar can handle. -/
def InTime (list : List Event) : Prop := ∀ ev ∈ list, ev.key.ts < 2 ^ 40

/-- The cursor is at the day of the last event. -/
structure Cursor (c : CalendarScheduler) : Prop where
  lastPrio : c.lastPrio < 2 ^ 40
  lastBucket : c.lastBucket = c.hash c.lastPrio
  bucketTop : c.bucketTop = (c.lastPrio / c.width + 1) * c.width
  passed : ∀ ev ∈ c.events, c.lastPrio ≤ ev.key.ts
  inTime : InTime c.events

theorem dayEnd_eq {width ts : Nat} (narrow : width ≤ 3 * 2 ^ 40) (inTime : ts < 2 ^ 40) :
    UInt64.mul (UInt64.add (ts / width) 1) width = (ts / width + 1) * width := by
  have quotient : ts / width ≤ ts := Nat.div_le_self _ _
  have product : ts / width * width ≤ ts := Nat.div_mul_le_self _ _
  rw [UInt64.add_of_lt (by omega), UInt64.mul_of_lt]
  rw [Nat.succ_mul]
  omega

/-- What the search finds. -/
def Finds (c : CalendarScheduler) : Found → Prop
  | .today i bucketTop next =>
    Least c.events next ∧ nextEvent c.reverse (c.bucket i) = some next ∧
      i = c.hash next.key.ts ∧ bucketTop = (next.key.ts / c.width + 1) * c.width
  | .least minEvent minBucket =>
    Least c.events minEvent ∧ minBucket = some (c.hash minEvent.key.ts) ∧
      nextEvent c.reverse (c.bucket (c.hash minEvent.key.ts)) = some minEvent

/-- How far the walk has come after `k` days from day `day` on: nothing stored is
before the day it has come to, and `minEvent` is the least event of the buckets
visited, or the one the walk started with when they are all empty. -/
structure Walk (c : CalendarScheduler) (day : Nat) (first : Event) (k : Nat) (minEvent : Event)
    (minBucket : Option Nat) : Prop where
  ahead : ∀ ev ∈ c.events, day + k ≤ ev.key.ts / c.width
  least : ∀ ev ∈ c.events, ∀ j < k, c.hash ev.key.ts = (day + j) % c.nBuckets →
    minEvent.key.rank ≤ ev.key.rank
  source : (minBucket = none ∧ minEvent = first ∧
      ∀ ev ∈ c.events, ∀ j < k, c.hash ev.key.ts ≠ (day + j) % c.nBuckets) ∨
    ∃ i, minBucket = some i ∧ nextEvent c.reverse (c.bucket i) = some minEvent

section Walk

variable {day k : Nat} {first minEvent next : Event} {minBucket : Option Nat}

theorem Filed.next_mem (h : Filed c) {i : Nat}
    (next_ : nextEvent c.reverse (c.bucket i) = some next) :
    next ∈ c.events ∧ c.hash next.key.ts = i := by
  obtain ⟨whole, -, -⟩ := nextEvent_spec (h.sorted i) next_
  have member : next ∈ c.bucket i := whole.mem_iff.mpr List.mem_cons_self
  have here := h.days i next member
  refine ⟨h.mem_events.mpr ?_, here⟩
  rwa [here]

/-- The bucket of the day is empty. -/
theorem Walk.empty (walk : Walk c day first k minEvent minBucket) (h : Filed c)
    (none_ : nextEvent c.reverse (c.bucket ((day + k) % c.nBuckets)) = none) :
    Walk c day first (k + 1) minEvent minBucket := by
  have away : ∀ ev ∈ c.events, c.hash ev.key.ts ≠ (day + k) % c.nBuckets := by
    intro ev member here
    have stored := h.mem_events.mp member
    rw [here, nextEvent_eq_none.mp none_] at stored
    cases stored
  refine ⟨fun ev member => ?_, fun ev member j lt here => ?_, ?_⟩
  · have ahead := walk.ahead ev member
    have notToday : day + k ≠ ev.key.ts / c.width := fun same =>
      away ev member (by rw [hash, ← same])
    omega
  · obtain lt | rfl := Nat.lt_succ_iff_lt_or_eq.mp lt
    · exact walk.least ev member j lt here
    · exact absurd here (away ev member)
  · obtain ⟨none_, same, fresh⟩ | found := walk.source
    · refine .inl ⟨none_, same, fun ev member j lt => ?_⟩
      obtain lt | rfl := Nat.lt_succ_iff_lt_or_eq.mp lt
      · exact fresh ev member j lt
      · exact away ev member
    · exact .inr found

/-- The first event of the bucket is of a later year. -/
theorem Walk.later (walk : Walk c day first k minEvent minBucket) (h : Filed c)
    (next_ : nextEvent c.reverse (c.bucket ((day + k) % c.nBuckets)) = some next)
    (later : (day + k + 1) * c.width ≤ next.key.ts)
    (before : ∀ ev ∈ c.events, ev.key.rank < first.key.rank) :
    Walk c day first (k + 1) (if next.key.lt minEvent.key then next else minEvent)
      (if next.key.lt minEvent.key then some ((day + k) % c.nBuckets) else minBucket) := by
  obtain ⟨whole, -, least⟩ := nextEvent_spec (h.sorted _) next_
  obtain ⟨stored, here⟩ := h.next_mem next_
  have bucketLeast : ∀ ev ∈ c.events, c.hash ev.key.ts = (day + k) % c.nBuckets →
      next.key.rank ≤ ev.key.rank := by
    intro ev member same
    have stored := h.mem_events.mp member
    rw [same] at stored
    exact least ev stored
  refine ⟨fun ev member => ?_, fun ev member j lt same => ?_, ?_⟩
  · have ahead := walk.ahead ev member
    have notToday : day + k ≠ ev.key.ts / c.width := by
      intro same
      have inBucket : c.hash ev.key.ts = (day + k) % c.nBuckets := by rw [hash, ← same]
      have ts := EventKey.ts_le_of_rank (bucketLeast ev member inBucket)
      have after : day + k + 1 ≤ ev.key.ts / c.width :=
        (Nat.le_div_iff_mul_le h.width).mpr (later.trans ts)
      omega
    omega
  · rw [EventKey.lt_eq]
    obtain lt | rfl := Nat.lt_succ_iff_lt_or_eq.mp lt
    · have visited := walk.least ev member j lt same
      split
      · next less => exact ((decide_eq_true_eq.mp less).le).trans visited
      · exact visited
    · have inBucket := bucketLeast ev member same
      split
      · exact inBucket
      · next notLess => exact (not_lt.mp fun less => notLess (decide_eq_true less)).trans inBucket
  · rw [EventKey.lt_eq]
    by_cases less : next.key.rank < minEvent.key.rank
    · rw [if_pos (decide_eq_true less), if_pos (decide_eq_true less)]
      exact .inr ⟨_, rfl, next_⟩
    · have notLess : ¬ decide (next.key.rank < minEvent.key.rank) = true := by simpa using less
      rw [if_neg notLess, if_neg notLess]
      obtain ⟨-, rfl, -⟩ | found := walk.source
      · exact absurd (before next stored) less
      · exact .inr found

/-- The first event of the bucket is of the day. -/
theorem Walk.today (walk : Walk c day first k minEvent minBucket) (h : Filed c)
    (next_ : nextEvent c.reverse (c.bucket ((day + k) % c.nBuckets)) = some next)
    (today : next.key.ts < (day + k + 1) * c.width) :
    Finds c (.today ((day + k) % c.nBuckets) ((day + k + 1) * c.width) next) := by
  obtain ⟨-, -, least⟩ := nextEvent_spec (h.sorted _) next_
  obtain ⟨stored, here⟩ := h.next_mem next_
  have day_ : next.key.ts / c.width = day + k := by
    have ahead := walk.ahead next stored
    have upper : next.key.ts / c.width < day + k + 1 := (Nat.div_lt_iff_lt_mul h.width).mpr today
    omega
  refine ⟨⟨stored, fun other member => ?_⟩, next_, here.symm, by rw [day_]⟩
  obtain same | after := Nat.eq_or_lt_of_le (walk.ahead other member)
  · have inBucket := h.mem_events.mp member
    rw [hash, ← same] at inBucket
    exact least other inBucket
  · -- The other event is of a later day.
    have start : (day + k + 1) * c.width ≤ other.key.ts := (Nat.le_div_iff_mul_le h.width).mp after
    exact (EventKey.rank_lt_of_ts (by omega)).le

theorem Walk.year (walk : Walk c day first c.nBuckets minEvent minBucket) (h : Filed c)
    (some_ : c.events ≠ []) : Finds c (.least minEvent minBucket) := by
  have visited : ∀ ev ∈ c.events, ∃ j < c.nBuckets,
      c.hash ev.key.ts = (day + j) % c.nBuckets := by
    intro ev member
    obtain ⟨further, eq⟩ := Nat.exists_eq_add_of_le (walk.ahead ev member)
    refine ⟨further % c.nBuckets, Nat.mod_lt _ h.some_, ?_⟩
    rw [hash, eq, Nat.add_mod_mod, Nat.add_right_comm, Nat.add_mod_right]
  obtain ⟨-, -, away⟩ | ⟨i, rfl, next_⟩ := walk.source
  · obtain ⟨ev, member⟩ := List.exists_mem_of_ne_nil _ some_
    obtain ⟨j, lt, here⟩ := visited ev member
    exact absurd here (away ev member j lt)
  · obtain ⟨stored, here⟩ := h.next_mem next_
    subst here
    refine ⟨⟨stored, fun other member => ?_⟩, rfl, next_⟩
    obtain ⟨j, lt, here⟩ := visited other member
    exact walk.least other member j lt here

/-- The search ends, and finds the least event. -/
theorem Walk.search (walk : Walk c day first k minEvent minBucket) (h : Filed c)
    (some_ : c.events ≠ []) (before : ∀ ev ∈ c.events, ev.key.rank < first.key.rank)
    (day_ : c.lastBucket = day % c.nBuckets) (inTime : day * c.width < 2 ^ 40)
    {turns : Nat} (left : turns + k = c.nBuckets) (more : 0 < turns) :
    ∃ found, c.search turns ((day + k) % c.nBuckets) ((day + k + 1) * c.width) minEvent minBucket =
      some found ∧ Finds c found := by
  induction turns generalizing k minEvent minBucket with
  | zero => exact absurd more (lt_irrefl 0)
  | succ turns ih =>
    -- The rest of the walk, once the day is over.
    have goOn : ∀ {minEvent minBucket}, Walk c day first (k + 1) minEvent minBucket →
        ∃ found, (if ((day + k) % c.nBuckets + 1) % c.nBuckets = c.lastBucket then
            some (.least minEvent minBucket)
          else c.search turns (((day + k) % c.nBuckets + 1) % c.nBuckets)
            (UInt64.add ((day + k + 1) * c.width) c.width) minEvent minBucket) = some found ∧
          Finds c found := by
      intro minEvent minBucket walk
      have next : ((day + k) % c.nBuckets + 1) % c.nBuckets = (day + (k + 1)) % c.nBuckets := by
        rw [Nat.mod_add_mod, Nat.add_assoc]
      rw [next]
      obtain rfl | rest : turns = 0 ∨ 0 < turns := by omega
      · have whole : k + 1 = c.nBuckets := by omega
        rw [whole] at walk ⊢
        rw [Nat.add_mod_right, if_pos day_.symm]
        exact ⟨_, rfl, walk.year h some_⟩
      · have notBack : ¬ (day + (k + 1)) % c.nBuckets = c.lastBucket := by
          rw [day_]
          intro same
          have whole := Nat.sub_mod_eq_zero_of_mod_eq same
          rw [Nat.add_sub_cancel_left, Nat.mod_eq_of_lt (by omega)] at whole
          exact absurd whole (Nat.succ_ne_zero k)
        have top : UInt64.add ((day + k + 1) * c.width) c.width =
            (day + (k + 1) + 1) * c.width := by
          have few := h.few
          have narrow := h.narrow
          have days : (k + 1) * c.width ≤ 65536 * (3 * 2 ^ 40) := Nat.mul_le_mul (by omega) narrow
          rw [UInt64.add_of_lt, ← Nat.succ_mul]
          · rfl
          · rw [Nat.add_assoc day, Nat.add_mul]
            omega
        rw [if_neg notBack, top]
        exact ih walk (by omega) rest
    rw [CalendarScheduler.search]
    cases next_ : nextEvent c.reverse (c.bucket ((day + k) % c.nBuckets)) with
    | none => exact goOn (walk.empty h next_)
    | some next =>
      by_cases today : next.key.ts < (day + k + 1) * c.width
      · simp only [if_pos today]
        exact ⟨_, rfl, walk.today h next_ today⟩
      · simp only [if_neg today]
        have later := walk.later h next_ (not_lt.mp today) before
        by_cases less : next.key.lt minEvent.key = true
        · simp only [if_pos less] at later ⊢
          exact goOn later
        · simp only [if_neg less] at later ⊢
          exact goOn later

end Walk

section Next

theorem Cursor.search (cursor : Cursor c) (h : Filed c) (some_ : c.events ≠ []) (first : Event)
    (far : 2 ^ 40 ≤ first.key.ts) :
    ∃ found, c.search c.nBuckets c.lastBucket c.bucketTop first none = some found ∧
      Finds c found := by
  have walk : Walk c (c.lastPrio / c.width) first 0 first none :=
    { ahead := fun ev member => Nat.div_le_div_right (cursor.passed ev member)
      least := fun _ _ j lt => absurd lt (Nat.not_lt_zero j)
      source := .inl ⟨rfl, rfl, fun _ _ j lt => absurd lt (Nat.not_lt_zero j)⟩ }
  have before : ∀ ev ∈ c.events, ev.key.rank < first.key.rank := fun ev member =>
    EventKey.rank_lt_of_ts (Nat.lt_of_lt_of_le (cursor.inTime ev member) far)
  have inTime : c.lastPrio / c.width * c.width < 2 ^ 40 :=
    Nat.lt_of_le_of_lt (Nat.div_mul_le_self _ _) cursor.lastPrio
  have found := walk.search h some_ before cursor.lastBucket inTime (Nat.add_zero c.nBuckets)
    h.some_
  rwa [cursor.lastBucket, cursor.bucketTop]

theorem peekNext_spec (profile : BuildProfile) (cursor : Cursor c) (h : Filed c)
    (some_ : c.events ≠ [])
    (counted : c.qSize ≠ 0) :
    ∃ ev, c.peekNext profile = some ev ∧ Least c.events ev := by
  have notEmpty : c.isEmpty = false := beq_eq_false_iff_ne.mpr counted
  rw [peekNext, notEmpty, Bool.not_false, nsAssert_true]
  obtain ⟨found, search, finds⟩ := cursor.search h some_
    { impl := 0, key := { ts := 2 ^ 64 - 1, uid := 2 ^ 32 - 1, context := 0 } } (by decide)
  simp only [some_bind, search]
  cases found with
  | today i bucketTop next => exact ⟨next, rfl, finds.1⟩
  | least minEvent minBucket => exact ⟨minEvent, rfl, finds.1⟩

/-- What `DoRemoveNext` does: the least event leaves, and the cursor moves to it. -/
structure Removed (c : CalendarScheduler) (ev : Event) (c' : CalendarScheduler) : Prop where
  least : Least c.events ev
  events : c.events.Perm (ev :: c'.events)
  filed : Filed c'
  cursor : Cursor c'
  lastPrio : c'.lastPrio = ev.key.ts
  frame : ∃ buckets lastBucket bucketTop lastPrio,
    c' = { c with buckets, lastBucket, bucketTop, lastPrio }

theorem Cursor.removed (cursor : Cursor c) (h : Filed c) (least : Least c.events ev)
    (next : nextEvent c.reverse (c.bucket (c.hash ev.key.ts)) = some ev) :
    Removed c ev { c with
      buckets := c.buckets.modify (c.hash ev.key.ts) (pop c.reverse)
      lastBucket := c.hash ev.key.ts
      bucketTop := (ev.key.ts / c.width + 1) * c.width
      lastPrio := ev.key.ts } := by
  obtain ⟨filed, events⟩ := h.pop (h.hash_lt _) next
  have remains : ∀ other ∈ (c.buckets.modify (c.hash ev.key.ts) (pop c.reverse)).flatten,
      other ∈ c.events := fun other member =>
    events.mem_iff.mpr (List.mem_cons_of_mem ev member)
  refine ⟨least, events, filed, ?_, rfl, _, _, _, _, rfl⟩
  exact
    { lastPrio := cursor.inTime ev least.1
      lastBucket := rfl
      bucketTop := rfl
      passed := fun other member => EventKey.ts_le_of_rank (least.2 other (remains other member))
      inTime := fun other member => cursor.inTime other (remains other member) }

theorem doRemoveNext_spec (profile : BuildProfile) (cursor : Cursor c) (h : Filed c)
    (some_ : c.events ≠ [])
    (counted : c.qSize ≠ 0) :
    ∃ ev c', c.doRemoveNext profile = some (ev, c') ∧ Removed c ev c' := by
  have notEmpty : c.isEmpty = false := beq_eq_false_iff_ne.mpr counted
  rw [doRemoveNext, notEmpty, Bool.not_false, nsAssert_true]
  obtain ⟨found, search, finds⟩ := cursor.search h some_
    { impl := 0, key := { ts := 2 ^ 64 - 1, uid := 0, context := 2 ^ 32 - 1 } } (by decide)
  simp only [Option.bind_eq_bind, Option.bind_some, search]
  cases found with
  | today i bucketTop next =>
    obtain ⟨least, next_, rfl, rfl⟩ := finds
    exact ⟨next, _, rfl, cursor.removed h least next_⟩
  | least minEvent minBucket =>
    obtain ⟨least, rfl, next_⟩ := finds
    have narrow := dayEnd_eq h.narrow (cursor.inTime minEvent least.1)
    simp only [Option.bind_some, next_, narrow]
    exact ⟨minEvent, _, rfl, cursor.removed h least next_⟩

end Next

end Ns3.CalendarScheduler
