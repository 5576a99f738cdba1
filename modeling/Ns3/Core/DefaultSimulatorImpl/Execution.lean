import Ns3.Core.DefaultSimulatorImpl.Order
import Ns3.Core.ListScheduler

/-!
# Whole simulations

Every step of a simulation keeps the events in order, whatever the running events and other
threads call. The counter of events that are not executed yet is an `int`: it is right as long
as the scheduler holds fewer than 2^31 events, while the ids allow twice as many.
-/

namespace Ns3

open Scheduler Run List Option

namespace DefaultSimulatorImpl

variable {σ : Type} {Q : PriorityQueue σ} {s t : DefaultSimulatorImpl σ} {profile : BuildProfile}
  {call : SimulatorCall σ}

section

variable (h : Sound Q s)
include h

theorem Sound.setPhase (stop : Bool) (phase : RunPhase) :
    Sound Q { s with stop, phase } where
  consistent :=
    let c := h.consistent
    ⟨c.count, c.low, c.bound, c.unique, c.later, c.inserted, c.issued, c.kept, c.recent, c.past,
      c.sorted, c.executed, c.skipped, c.impls, c.removed, c.known, c.ids, c.counted⟩
  flag := h.flag

theorem Sound.begin_ (fits : ∀ ev ∈ s.eventsWithContext, s.currentTs + ev.timestamp < 2 ^ 64) :
    ∃ t, s.begin_ Q.toScheduler = some t ∧ Sound Q t ∧ s.currentTs ≤ t.currentTs := by
  obtain ⟨t, run, sound, forward⟩ := h.processEventsWithContext fits
  refine ⟨{ t with stop := false, phase := .loop }, ?_, sound.setPhase false .loop, forward⟩
  simp [DefaultSimulatorImpl.begin_, run]

theorem Sound.finish (fits : ∀ ev ∈ s.eventsWithContext, s.currentTs + ev.timestamp < 2 ^ 64) :
    ∃ t, s.finish Q.toScheduler = some t ∧ Sound Q t ∧ s.currentTs ≤ t.currentTs := by
  obtain ⟨t, run, sound, forward⟩ := h.processEventsWithContext fits
  refine ⟨{ t with phase := .loop }, ?_, sound.setPhase t.stop .loop, forward⟩
  simp [DefaultSimulatorImpl.finish, run]

theorem Sound.next :
    ∃ t, s.next Q.toScheduler profile = some t ∧ Sound Q t ∧ s.currentTs ≤ t.currentTs := by
  rw [DefaultSimulatorImpl.next, Q.isEmpty_eq]
  split
  case isTrue goesOn =>
    have some_ : queued Q s ≠ [] := by
      simp only [Bool.and_eq_true, Bool.not_eq_true', isEmpty_eq_false_iff] at goesOn
      exact goesOn.1
    obtain ⟨t, run, consistent, follows⟩ := h.consistent.processOneEvent some_
    exact ⟨t, run, h.follows follows consistent, follows.time⟩
  case isFalse =>
    have none_lost : (!(Q.stored s.events).isEmpty || s.unscheduledEvents = 0) = true := by
      rw [h.consistent.counted, queued]
      cases Q.stored s.events with
      | nil => rfl
      | cons ev events => rfl
    refine ⟨{ s with phase := .outside }, ?_, h.setPhase s.stop .outside, le_rfl⟩
    simp [none_lost]

/-- What the program promises: there are fewer than 2^32 - 4 events, their times fit, and the
new scheduler is empty; the loop that fills it may go through all events. -/
def Proper (Q : PriorityQueue σ) (s : DefaultSimulatorImpl σ) : SimulatorCall σ → Prop
  | .schedule delay | .scheduleWithContext _ delay =>
    4 + (s.impls + 1) < 2 ^ 32 ∧ delay + s.currentTs < 2 ^ 63
  | .scheduleNow => 4 + (s.impls + 1) < 2 ^ 32 ∧ s.currentTs < 2 ^ 63
  | .inject _ _ => 4 + (s.impls + 1) < 2 ^ 32
  | .setScheduler rounds new => Q.stored new = [] ∧ (queued Q s).length < rounds
  | .run | .finish => ∀ ev ∈ s.eventsWithContext, s.currentTs + ev.timestamp < 2 ^ 63
  | .cancel _ | .remove _ | .stop | .next => True

theorem Sound.call_default : s.cancel {} = s ∧ s.remove Q.toScheduler {} = some s := ⟨rfl, rfl⟩

/-- Every call returns, keeps the events in order and does not turn time back. -/
theorem Sound.step (profile : BuildProfile) (proper : Proper Q s call) :
    ∃ t, s.step Q.toScheduler profile call = some t ∧ Sound Q t ∧ s.currentTs ≤ t.currentTs := by
  cases call with
  | schedule delay =>
    obtain ⟨t, run, consistent, follows⟩ :=
      h.consistent.schedule proper.1 (proper.2.trans (by decide))
    exact ⟨t, run, h.follows follows consistent, follows.time⟩
  | scheduleNow =>
    have fits : 0 + s.currentTs < 2 ^ 64 := by
      rw [Nat.zero_add]
      exact proper.2.trans (by decide)
    obtain ⟨t, run, consistent, follows⟩ := h.consistent.schedule proper.1 fits
    exact ⟨t, run, h.follows follows consistent, follows.time⟩
  | scheduleWithContext context delay =>
    obtain ⟨t, run, consistent, follows⟩ :=
      h.consistent.scheduleWithContext proper.1 (proper.2.trans (by decide))
    exact ⟨t, run, h.follows follows consistent, follows.time⟩
  | inject context delay => exact ⟨_, rfl, h.inject proper context delay, le_rfl⟩
  | cancel i =>
    obtain mem | default_ := s.getD_ids i
    · obtain ⟨consistent, follows⟩ := h.consistent.cancel mem
      exact ⟨_, rfl, h.follows follows consistent, follows.time⟩
    · refine ⟨s, ?_, h, le_rfl⟩
      rw [DefaultSimulatorImpl.step, default_, h.call_default.1]
  | remove i =>
    obtain mem | default_ := s.getD_ids i
    · obtain ⟨t, run, consistent, follows⟩ := h.consistent.remove mem
      exact ⟨t, run, h.follows follows consistent, follows.time⟩
    · refine ⟨s, ?_, h, le_rfl⟩
      rw [DefaultSimulatorImpl.step, default_, h.call_default.2]
  | setScheduler rounds new =>
    obtain ⟨t, run, consistent, follows⟩ := h.consistent.setScheduler proper.1 proper.2
    exact ⟨t, run, h.follows follows consistent, follows.time⟩
  | stop => exact ⟨_, rfl, h.setPhase true s.phase, le_rfl⟩
  | run =>
    rw [DefaultSimulatorImpl.step]
    split
    case isTrue => exact h.begin_ fun ev mem => (proper ev mem).trans (by decide)
    case isFalse => exact ⟨s, rfl, h, le_rfl⟩
  | next =>
    rw [DefaultSimulatorImpl.step]
    split
    case isTrue => exact h.next
    case isFalse => exact ⟨s, rfl, h, le_rfl⟩
  | finish =>
    rw [DefaultSimulatorImpl.step]
    split
    case isTrue => exact h.finish fun ev mem => (proper ev mem).trans (by decide)
    case isFalse => exact ⟨s, rfl, h, le_rfl⟩

end

/-- The simulator before its first event. -/
def start (events : σ) : DefaultSimulatorImpl σ := { events }

theorem start_sound {events : σ} (empty : Q.stored events = []) : Sound Q (start events) where
  consistent := by
    refine ⟨rfl, le_rfl, (by decide : 4 + 0 < 2 ^ 32), ?_, ?_, List.Pairwise.nil,
      forall_mem_nil _, ?_, (by decide : 0 < 4), forall_mem_nil _, List.Pairwise.nil,
      .refl _, forall_mem_nil _, ?_, forall_mem_nil _, forall_mem_nil _,
      forall_mem_nil _, ?_⟩
    · rw [queued, start, empty]
      exact nodup_nil
    · rw [queued, start, empty]
      exact forall_mem_nil _
    · rw [queued, start, empty]
      exact forall_mem_nil _
    · rw [queued, start, empty]
      exact .rfl
    · rw [queued, start, empty]
      rfl
  flag _ := rfl

/-! ## The contract -/

/-- What holds at every moment. The executed events are in the order of time, and in the order
of their insertion among those of one time. Every `EventImpl` waits (for the main thread or in
the scheduler), was taken from the scheduler, or was removed, and only one of these; what was
taken was executed unless it had been cancelled. An id has expired when its event has started,
was cancelled or was removed. -/
structure InOrder (Q : PriorityQueue σ) (s : DefaultSimulatorImpl σ) : Prop where
  order : s.executed.Pairwise fun a b =>
    a.key.ts < b.key.ts ∨ a.key.ts = b.key.ts ∧ [a, b].Sublist s.inserted
  once : (s.executed.map (·.impl)).Nodup
  past : ∀ ev ∈ s.executed, ev.key.ts ≤ s.currentTs
  ahead : ∀ ev ∈ queued Q s, s.currentTs ≤ ev.key.ts
  partition : (s.eventsWithContext.map (·.impl) ++ ((queued Q s).map (·.impl) ++
    (s.taken.map (·.impl) ++ s.removed))).Perm (List.range s.impls)
  executed : ∀ ev ∈ s.taken, ev ∈ s.executed ↔ ev.impl ∉ s.cancelled
  taken : s.executed.Sublist s.taken
  removed : ∀ k ∈ s.removed, k ∈ s.cancelled
  expired : ∀ id ∈ s.ids, s.isExpired id = true ↔ ∃ k, id.impl = some k ∧
    (k ∈ s.taken.map (·.impl) ∨ k ∈ s.cancelled ∨ k ∈ s.removed)

theorem pair_sublist {α : Type} {f : α → Nat} {l : List α} {a b : α}
    (sorted : l.Pairwise fun x y => f x < f y) (memA : a ∈ l) (memB : b ∈ l) (less : f a < f b) :
    [a, b].Sublist l := by
  obtain ⟨front, back, rfl⟩ := append_of_mem memA
  obtain ⟨-, later, apart⟩ := pairwise_append.mp sorted
  obtain before | after := mem_append.mp memB
  · exact absurd less (Nat.lt_asymm (apart b before a mem_cons_self))
  · obtain rfl | after := mem_cons.mp after
    · exact absurd less (Nat.lt_irrefl _)
    · exact (((singleton_sublist.mpr after).cons_cons a)).trans (sublist_append_right _ _)

theorem Sound.inOrder (h : Sound Q s) : InOrder Q s := by
  have c := h.consistent
  refine ⟨?_, ?_, fun ev mem => ?_, fun ev mem => ?_, c.impls, c.skipped, c.executed, c.removed,
    fun id mem => ?_⟩
  · have sorted := c.sorted.sublist c.executed
    refine sorted.imp_of_mem fun {a b} memA memB less => ?_
    refine (Prod.Lex.toLex_lt_toLex.mp less).imp_right fun ⟨same, uid⟩ => ⟨same, ?_⟩
    have known {ev : Event} (mem : ev ∈ s.executed) : ev ∈ s.inserted :=
      c.kept ev (mem_append_right _ (c.executed.subset mem))
    exact pair_sublist c.inserted (known memA) (known memB) uid
  · exact (c.executed.map _).nodup c.apart.2.2.1
  · obtain less | ⟨same, -⟩ := (rank_le_iff s ev).mp (c.past ev (c.executed.subset mem))
    · exact less.le
    · exact same.le
  · obtain less | ⟨same, -⟩ := Prod.Lex.toLex_lt_toLex.mp (c.later ev mem)
    · exact less.le
    · exact same.le
  · rw [c.isExpired_iff mem]
    refine exists_congr fun k => and_congr_right fun _ => or_congr_right ?_
    exact ⟨.inl, fun gone => gone.elim (·) (c.removed k)⟩

/-- The counter is right. -/
def Counted (Q : PriorityQueue σ) (s : DefaultSimulatorImpl σ) : Prop :=
  s.unscheduledEvents = (queued Q s).length

theorem Sound.counted_iff (h : Sound Q s) : Counted Q s ↔ (queued Q s).length < 2 ^ 31 := by
  rw [Counted, h.consistent.counted]
  constructor
  · intro same
    have bound := int32_lt (queued Q s).length
    omega
  · intro small
    exact int32_of_bounds (by omega) (by omega)

/-- Every run executes the events once and in order, without an assertion that fails. The
counter agrees with the scheduler throughout the run if and only if the scheduler never holds
2^31 events. -/
theorem executes_in_order (Q : PriorityQueue σ) (profile : BuildProfile) {events : σ}
    {calls : List (SimulatorCall σ)} (empty : Q.stored events = [])
    (proper : Meets (step Q.toScheduler profile) (Proper Q) (start events) calls) :
    (∃ t, exec (step Q.toScheduler profile) (start events) calls = some t) ∧
    Always (step Q.toScheduler profile) (InOrder Q) (start events) calls ∧
    Meets (step Q.toScheduler profile) (fun s call => ∀ t,
      s.step Q.toScheduler profile call = some t → s.currentTs ≤ t.currentTs) (start events) calls ∧
    (Always (step Q.toScheduler profile) (Counted Q) (start events) calls ↔
      Always (step Q.toScheduler profile) (fun s => (queued Q s).length < 2 ^ 31) (start events)
        calls) := by
  have start := start_sound empty
  have preserved (s : DefaultSimulatorImpl σ) (call : SimulatorCall σ) (t : DefaultSimulatorImpl σ)
      (sound : Sound Q s) (proper : Proper Q s call)
      (run : s.step Q.toScheduler profile call = some t) : Sound Q t ∧
      s.currentTs ≤ t.currentTs := by
    obtain ⟨t', run', facts⟩ := sound.step profile proper
    obtain rfl := some.inj (run.symm.trans run')
    exact facts
  refine ⟨?_, ?_, ?_, ?_⟩
  · obtain ⟨t, run, -⟩ := Run.total start proper fun s call sound proper => by
      obtain ⟨t, run, sound', -⟩ := sound.step profile proper
      exact ⟨t, run, sound'⟩
    exact ⟨t, run⟩
  · refine Always.of_invariant start proper
      (fun s sound => sound.inOrder) fun s call t sound proper run => ?_
    exact (preserved s call t sound proper run).1
  · refine Meets.of_invariant start proper ?_ fun s call sound proper t run => ?_
    · exact fun s call t sound proper run => (preserved s call t sound proper run).1
    · exact (preserved s call t sound proper run).2
  · refine Run.always_congr start proper
      (fun s sound => sound.counted_iff) fun s call t sound proper run => ?_
    exact (preserved s call t sound proper run).1

/-! ## Two simulations over the list scheduler -/

/-- The list scheduler is a priority queue. -/
def listQueue (profile : BuildProfile) : PriorityQueue ListScheduler where
  toScheduler := ListScheduler.scheduler profile
  stored := ListScheduler.events
  isEmpty_eq _ := rfl
  insert_spec s ev _ := ⟨_, rfl, SortedInsert.insert_perm _ ev s.events⟩
  removeNext_spec s _ some_ := s.removeNext_spec some_
  remove_spec s ev unique mem := s.remove_spec profile ev unique mem

instance (s : DefaultSimulatorImpl σ) : (call : SimulatorCall σ) → Decidable (Proper Q s call)
  | .schedule delay | .scheduleWithContext _ delay =>
    inferInstanceAs (Decidable (4 + (s.impls + 1) < 2 ^ 32 ∧ delay + s.currentTs < 2 ^ 63))
  | .scheduleNow => inferInstanceAs (Decidable (4 + (s.impls + 1) < 2 ^ 32 ∧ s.currentTs < 2 ^ 63))
  | .inject _ _ => inferInstanceAs (Decidable (4 + (s.impls + 1) < 2 ^ 32))
  | .setScheduler rounds new =>
    inferInstanceAs (Decidable (Q.stored new = [] ∧ (queued Q s).length < rounds))
  | .run | .finish => inferInstanceAs
      (Decidable (∀ ev ∈ s.eventsWithContext, s.currentTs + ev.timestamp < 2 ^ 63))
  | .cancel _ | .remove _ | .stop | .next => isTrue trivial

/-- A cancelled event, one from another thread and a new scheduler. -/
def mixedCalls : List (SimulatorCall ListScheduler) :=
  [.schedule 5, .schedule 5, .scheduleNow, .run, .next, .inject 1 2, .scheduleWithContext 3 7,
    .cancel 0, .setScheduler 9 {}, .finish, .next, .finish, .next, .finish, .next, .remove 1,
      .finish,
    .next, .finish, .next]

theorem executes_in_order_mixed :
    (∃ t, exec (step (listQueue .debug).toScheduler .debug) (start {}) mixedCalls = some t) ∧
    Always (step (listQueue .debug).toScheduler .debug) (InOrder (listQueue .debug)) (start {})
      mixedCalls ∧
    Meets (step (listQueue .debug).toScheduler .debug) (fun s call => ∀ t,
      s.step (listQueue .debug).toScheduler .debug call = some t → s.currentTs ≤ t.currentTs)
      (start {}) mixedCalls ∧
    (Always (step (listQueue .debug).toScheduler .debug) (Counted (listQueue .debug)) (start {})
        mixedCalls ↔
      Always (step (listQueue .debug).toScheduler .debug)
        (fun s => (queued (listQueue .debug) s).length < 2 ^ 31) (start {}) mixedCalls) :=
  executes_in_order (listQueue .debug) .debug rfl (by decide)

/-- Nothing but `Schedule` was called. -/
structure Untouched (s : DefaultSimulatorImpl σ) : Prop where
  taken : s.taken = []
  removed : s.removed = []
  waiting : s.eventsWithContext = []
  time : s.currentTs = 0

theorem Sound.length (h : Sound Q s) (untouched : Untouched s) : (queued Q s).length = s.impls := by
  have length := h.consistent.impls.length_eq
  rw [untouched.taken, untouched.removed, untouched.waiting] at length
  simpa using length

theorem Untouched.schedule (h : Untouched s) {delay : Nat}
    (run : s.schedule Q.toScheduler delay = some t) : Untouched t ∧ t.impls = s.impls + 1 := by
  simp only [DefaultSimulatorImpl.schedule, insertEvent, bind_returns, pure_returns] at run
  obtain ⟨_, ⟨events, -, rfl⟩, rfl⟩ := run
  exact ⟨⟨h.taken, h.removed, h.waiting, h.time⟩, rfl⟩

/-- After `n` calls of `Schedule` there are `n` events in the scheduler. -/
theorem Sound.scheduleMany (h : Sound Q s) (profile : BuildProfile) (untouched : Untouched s)
    (n : Nat)
    (bound : 4 + (s.impls + n) < 2 ^ 32) :
    Meets (DefaultSimulatorImpl.step Q.toScheduler profile) (Proper Q) s
      (List.replicate n (.schedule 0)) ∧
      ∃ t, exec (DefaultSimulatorImpl.step Q.toScheduler profile) s
        (List.replicate n (.schedule 0)) = some t ∧
        Sound Q t ∧ (queued Q t).length = s.impls + n := by
  induction n generalizing s with
  | zero => exact ⟨trivial, s, rfl, h, h.length untouched⟩
  | succ n ih =>
    have proper : Proper Q s (.schedule 0) := by
      refine ⟨by omega, ?_⟩
      rw [untouched.time]
      decide
    obtain ⟨m, call, sound, -⟩ := h.step profile proper
    obtain ⟨untouched', impls⟩ := untouched.schedule call
    obtain ⟨meets, t, run, sound', length⟩ := ih sound untouched' (by omega)
    refine ⟨Meets.cons proper call meets, t, exec_cons_eq_some.mpr ⟨m, call, run⟩, sound', ?_⟩
    omega

/-- A program schedules 2^31 events before it runs the simulator. -/
theorem counter_overflows :
    Meets (step (listQueue .debug).toScheduler .debug) (Proper (listQueue .debug)) (start {})
      (List.replicate (2 ^ 31) (.schedule 0)) ∧
    ¬ Always (step (listQueue .debug).toScheduler .debug) (Counted (listQueue .debug)) (start {})
      (List.replicate (2 ^ 31) (.schedule 0)) := by
  have sound : Sound (listQueue .debug) (start {}) := start_sound rfl
  obtain ⟨meets, t, run, sound', length⟩ :=
    sound.scheduleMany .debug ⟨rfl, rfl, rfl, rfl⟩ (2 ^ 31) (by decide : 4 + (0 + 2 ^ 31) < 2 ^ 32)
  refine ⟨meets, fun always => ?_⟩
  have small := sound'.counted_iff.mp (always.last run)
  rw [length] at small
  exact Nat.lt_irrefl _ (small.trans_le (Nat.le_add_left _ _))

end DefaultSimulatorImpl

end Ns3
