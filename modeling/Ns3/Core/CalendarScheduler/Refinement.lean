import Mathlib.Data.Finset.Card
import Mathlib.Order.Interval.Finset.Nat
import Ns3.Core.CalendarScheduler.Resize

/-!
# The calendar scheduler and the sorted set of its events

Every call keeps the calendar tidy and does to the stored events what it does to
a sorted set.
-/

namespace Ns3.CalendarScheduler

open Scheduler List Option

variable {c : CalendarScheduler} {ev : Event} {stored : List Event} {profile : BuildProfile}

section Calls

/-- `Insert`. -/
theorem Tidy.insert (h : Tidy c) (profile : BuildProfile)
    (fresh : ∀ other ∈ c.events, other.key.uid ≠ ev.key.uid) (passed : c.lastPrio ≤ ev.key.ts)
    (inTime : ev.key.ts < 2 ^ 40) (room : c.events.length + 1 < 2 ^ 32) :
    ∃ c', c.insert profile ev = some c' ∧ Tidy c' ∧ c'.events.Perm (ev :: c.events) ∧
      c'.lastPrio = c.lastPrio := by
  have unequal : ∀ other ∈ c.events, ev.key.rank ≠ other.key.rank := by
    intro other member same
    exact fresh other member (congrArg (fun r => (ofLex r).2) same.symm)
  obtain ⟨filed, events⟩ := h.filed.doInsert unequal
  have tidy : Tidy { c.doInsert ev with qSize := UInt32.add c.qSize 1 } := by
    refine ⟨filed.moved _ _ _ _, ?_, (h.unique.cons fresh).perm events.symm, ?_⟩
    · exact
        { lastPrio := h.cursor.lastPrio
          lastBucket := h.cursor.lastBucket
          bucketTop := h.cursor.bucketTop
          passed := by
            intro other member
            obtain rfl | member := mem_cons.mp (events.mem_iff.mp member)
            · exact passed
            · exact h.cursor.passed other member
          inTime := by
            intro other member
            obtain rfl | member := mem_cons.mp (events.mem_iff.mp member)
            · exact inTime
            · exact h.cursor.inTime other member }
    · have length := events.length_eq
      have counted := h.counted
      rw [length_cons] at length
      show UInt32.add c.qSize 1 = (c.doInsert ev).events.length
      rw [UInt32.add_of_lt (by omega)]
      omega
  obtain ⟨c', resizes, resized⟩ := tidy.resizeUp profile
  exact ⟨c', resizes, resized.tidy, resized.events.trans events, resized.lastPrio⟩

theorem Tidy.less {c' : CalendarScheduler} {qSize : Nat} (h : Tidy c)
    (events : c.events.Perm (ev :: c'.events)) (filed : Filed c') (cursor : Cursor c')
    (one : c.qSize = qSize + 1) : Tidy { c' with qSize } := by
  refine ⟨filed.moved _ _ _ _, ?_, (h.unique.perm events).tail, ?_⟩
  · exact ⟨cursor.lastPrio, cursor.lastBucket, cursor.bucketTop, cursor.passed, cursor.inTime⟩
  · have length := events.length_eq
    have counted := h.counted
    rw [length_cons] at length
    show qSize = c'.events.length
    omega

theorem Tidy.count (h : Tidy c) (some_ : c.events ≠ []) (room : c.events.length < 2 ^ 32) :
    c.isEmpty = false ∧ ∃ qSize, c.qSize = qSize + 1 ∧ UInt32.sub c.qSize 1 = qSize := by
  have counted := h.counted
  have pos := length_pos_iff.mpr some_
  refine ⟨beq_eq_false_iff_ne.mpr (by omega), c.qSize - 1, by omega, ?_⟩
  rw [UInt32.sub_of_le (by omega) (by omega)]

/-- `RemoveNext`. -/
theorem Tidy.removeNext (h : Tidy c) (profile : BuildProfile) (some_ : c.events ≠ [])
    (room : c.events.length < 2 ^ 32) :
    ∃ ev c', c.removeNext profile = some (ev, c') ∧ Tidy c' ∧ Least c.events ev ∧
      c.events.Perm (ev :: c'.events) ∧ c'.lastPrio = ev.key.ts := by
  obtain ⟨notEmpty, qSize, one, left⟩ := h.count some_ room
  obtain ⟨ev, c₁, removes, removed⟩ :=
    doRemoveNext_spec profile h.cursor h.filed some_ (by rw [one]; exact Nat.succ_ne_zero qSize)
  obtain ⟨least, events, filed, cursor, lastPrio, b, l, top, p, eq⟩ := removed
  have same : c₁.qSize = c.qSize := by rw [eq]
  obtain ⟨c', resizes, resized⟩ := (h.less events filed cursor one).resizeDown profile
  refine ⟨ev, c', ?_, resized.tidy, least, ?_, resized.lastPrio.trans lastPrio⟩
  · simp only [CalendarScheduler.removeNext, bind_returns, pure_returns]
    refine ⟨(), by rw [notEmpty]; exact nsAssert_true profile, (ev, c₁), removes, c', ?_, rfl⟩
    rw [same, left]
    exact resizes
  · exact events.trans (resized.events.symm.cons ev)

/-- `Remove`. -/
theorem Tidy.remove (h : Tidy c) (profile : BuildProfile) (member : ev ∈ c.events)
    (room : c.events.length < 2 ^ 32) :
    ∃ c', c.remove profile ev = some c' ∧ Tidy c' ∧ c.events.Perm (ev :: c'.events) ∧
      c'.lastPrio = c.lastPrio := by
  obtain ⟨notEmpty, qSize, one, left⟩ := h.count (ne_nil_of_mem member) room
  have here := h.filed.mem_events.mp member
  have lt := h.filed.hash_lt ev.key.ts
  -- The first event with the id is the one to remove.
  have only : ∀ other ∈ c.bucket (c.hash ev.key.ts),
      (other.key.uid == ev.key.uid) = true → other = ev := by
    intro other member' same
    have stored : other ∈ c.events := by
      rw [h.filed.mem_events, h.filed.days _ other member']
      exact member'
    exact h.unique.eq_of_uid stored member (eq_of_beq same)
  have found : (c.bucket (c.hash ev.key.ts)).find?
      (fun stored => stored.key.uid == ev.key.uid) = some ev := by
    have some_ : ((c.bucket (c.hash ev.key.ts)).find?
        (fun stored => stored.key.uid == ev.key.uid)).isSome = true :=
      find?_isSome.mpr ⟨ev, here, beq_self_eq_true ev.key.uid⟩
    obtain ⟨other, search⟩ := isSome_iff_exists.mp some_
    have same := find?_some search
    rw [search, only other (mem_of_find?_eq_some search) same]
  have erased : (c.bucket (c.hash ev.key.ts)).Perm (ev ::
      (c.bucket (c.hash ev.key.ts)).eraseP fun stored => stored.key.uid == ev.key.uid) := by
    obtain ⟨other, front, back, -, same, whole, rest⟩ := exists_of_eraseP
      (p := fun stored => stored.key.uid == ev.key.uid) here (beq_self_eq_true ev.key.uid)
    obtain rfl := only other (by rw [whole]; simp) same
    rw [rest]
    conv_lhs => rw [whole]
    exact perm_middle
  have filed : Filed { c with
      buckets := c.buckets.modify (c.hash ev.key.ts) fun bucket =>
        bucket.eraseP fun stored => stored.key.uid == ev.key.uid } := by
    refine h.filed.modify lt (fun other member => ?_) ?_
    · exact h.filed.days _ other (mem_of_mem_eraseP member)
    · exact (h.filed.sorted _).sublist eraseP_sublist
  have events : c.events.Perm (ev :: (c.buckets.modify (c.hash ev.key.ts) fun bucket =>
      bucket.eraseP fun stored => stored.key.uid == ev.key.uid).flatten) := by
    obtain ⟨others, same, modified⟩ := flatten_modify c.buckets (h.filed.length ▸ lt)
    refine same.trans ((erased.append_right others).trans ?_)
    exact ((modified _).symm.cons ev)
  have cursor : Cursor { c with
      buckets := c.buckets.modify (c.hash ev.key.ts) fun bucket =>
        bucket.eraseP fun stored => stored.key.uid == ev.key.uid } :=
    { h.cursor with
      passed := fun other member => h.cursor.passed other
        (events.mem_iff.mpr (mem_cons_of_mem ev member))
      inTime := fun other member => h.cursor.inTime other
        (events.mem_iff.mpr (mem_cons_of_mem ev member)) }
  obtain ⟨c', resizes, resized⟩ := (h.less events filed cursor one).resizeDown profile
  refine ⟨c', ?_, resized.tidy, events.trans (resized.events.symm.cons ev), resized.lastPrio⟩
  rw [CalendarScheduler.remove, notEmpty, Bool.not_false, nsAssert_true]
  simp only [some_bind, found, beq_self_eq_true, nsAssert_true, left]
  exact resizes

theorem Tidy.peekNext (h : Tidy c) (profile : BuildProfile) (some_ : c.events ≠ [])
    (room : c.events.length < 2 ^ 32) :
    ∃ ev, c.peekNext profile = some ev ∧ Least c.events ev := by
  obtain ⟨-, qSize, one, -⟩ := h.count some_ room
  exact peekNext_spec profile h.cursor h.filed some_ (by rw [one]; exact Nat.succ_ne_zero qSize)

theorem Tidy.start (reverse : Bool) : Tidy (start reverse) := by
  have none_ : (CalendarScheduler.start reverse).events = [] := rfl
  refine ⟨Filed.init (by decide) (by decide) (by decide) (by decide), ?_, ?_, rfl⟩
  · exact
      { lastPrio := Nat.two_pow_pos 40
        lastBucket := rfl
        bucketTop := by
          exact dayEnd_eq (by decide) (by decide)
        passed := fun ev _ => Nat.zero_le _
        inTime := fun ev member => absurd member (by rw [none_]; exact not_mem_nil) }
  · rw [none_]
    exact nodup_nil

end Calls

section Runs

variable {s s' : Session CalendarScheduler} {asked : Call}

/-- What the simulator promises beyond unique ids: ids from `EventId::UID::VALID`
on, and times that are not past and fit. -/
def Timely (s : Session CalendarScheduler) : Call → Prop
  | .insert ev => s.now ≤ ev.key.ts ∧ ev.key.ts < 2 ^ 40 ∧ 4 ≤ ev.key.uid ∧ ev.key.uid < 2 ^ 32
  | _ => True

instance (s : Session CalendarScheduler) : (c : Call) → Decidable (Timely s c)
  | .insert _ => inferInstanceAs (Decidable (_ ∧ _ ∧ _ ∧ _))
  | .remove _ | .removeNext => instDecidableTrue

/-- Every event is in the bucket of its day, and the calendar is the sorted set of
the stored events. -/
def Sound (profile : BuildProfile) (s : Session CalendarScheduler) : Prop :=
  (∀ i, ∀ ev ∈ s.scheduler.bucket i, s.scheduler.hash ev.key.ts = i) ∧
    Refines (scheduler profile) events s

/-- The invariant of a run. -/
structure Good (s : Session CalendarScheduler) : Prop where
  tidy : Tidy s.scheduler
  contents : s.scheduler.events.Perm s.stored
  now : s.scheduler.lastPrio = s.now
  ids : ∀ ev ∈ s.stored, 4 ≤ ev.key.uid ∧ ev.key.uid < 2 ^ 32

theorem Good.room (good : Good s) : s.scheduler.events.length + 1 < 2 ^ 32 := by
  have unique : (s.stored.map fun ev => ev.key.uid).Nodup := good.tidy.unique.perm good.contents
  have range : (s.stored.map fun ev => ev.key.uid).toFinset ⊆ Finset.Ico 4 (2 ^ 32) := by
    intro uid member
    obtain ⟨ev, stored, rfl⟩ := List.mem_map.mp (List.mem_toFinset.mp member)
    exact Finset.mem_Ico.mpr (good.ids ev stored)
  have count := Finset.card_le_card range
  rw [toFinset_card_of_nodup unique, Nat.card_Ico, length_map,
    ← good.contents.length_eq] at count
  omega

theorem Good.nonempty (good : Good s) (some_ : s.stored ≠ []) : s.scheduler.events ≠ [] := by
  intro none_
  have same := good.contents
  rw [none_] at same
  exact some_ same.nil_eq.symm

theorem Good.sound (good : Good s) (profile : BuildProfile) : Sound profile s := by
  have room := Nat.lt_of_succ_lt good.room
  refine ⟨good.tidy.filed.days, good.contents, ?_, fun some_ => ?_, fun ev member => ?_⟩
  · have length := good.contents.length_eq
    show s.scheduler.isEmpty = s.stored.isEmpty
    rw [isEmpty, good.tidy.counted, length, Bool.eq_iff_iff, beq_iff_eq,
      isEmpty_iff_length_eq_zero]
  · obtain ⟨shown, peeks, least'⟩ := good.tidy.peekNext profile (good.nonempty some_) room
    obtain ⟨ev, c', removes, -, least, events, -⟩ :=
      good.tidy.removeNext profile (good.nonempty some_) room
    obtain rfl := least.unique good.tidy.unique least'
    refine ⟨ev, c', least.perm good.contents, peeks, removes, ?_⟩
    have erased := (good.contents.symm.trans events).erase ev
    rw [erase_cons_head] at erased
    exact erased.symm
  · obtain ⟨c', removes, -, events, -⟩ :=
      good.tidy.remove profile (good.contents.mem_iff.mpr member) room
    have erased := (good.contents.symm.trans events).erase ev
    rw [erase_cons_head] at erased
    exact ⟨c', removes, erased.symm⟩

/-- Every call that the simulator makes returns and keeps the invariant. -/
theorem Good.call (good : Good s) (profile : BuildProfile) (allowed : Allowed s asked)
    (timely : Timely s asked) :
    ∃ s', Scheduler.call (scheduler profile) s asked = some s' ∧ Good s' := by
  have room := good.room
  cases asked with
  | insert ev =>
    obtain ⟨past, inTime, valid⟩ := timely
    obtain ⟨c', inserts, tidy, events, now⟩ := good.tidy.insert profile
      (fun other member => allowed other (good.contents.mem_iff.mp member))
      (good.now.trans_le past) inTime room
    refine ⟨{ s with scheduler := c', stored := ev :: s.stored }, ?_, tidy,
      events.trans (good.contents.cons ev), now.trans good.now,
      forall_mem_cons.mpr ⟨valid, good.ids⟩⟩
    exact bind_returns.mpr ⟨c', inserts, rfl⟩
  | remove ev =>
    obtain ⟨c', removes, tidy, events, now⟩ := good.tidy.remove profile
      (good.contents.mem_iff.mpr allowed) (Nat.lt_of_succ_lt room)
    have erased := (good.contents.symm.trans events).erase ev
    rw [erase_cons_head] at erased
    refine ⟨{ s with scheduler := c', stored := s.stored.erase ev }, ?_, tidy, erased.symm,
      now.trans good.now, fun other member => good.ids other (mem_of_mem_erase member)⟩
    exact bind_returns.mpr ⟨c', removes, rfl⟩
  | removeNext =>
    obtain ⟨ev, c', removes, tidy, -, events, now⟩ := good.tidy.removeNext profile
      (good.nonempty allowed) (Nat.lt_of_succ_lt room)
    have erased := (good.contents.symm.trans events).erase ev
    rw [erase_cons_head] at erased
    refine ⟨{ scheduler := c', stored := s.stored.erase ev, now := ev.key.ts }, ?_, tidy,
      erased.symm, now, fun other member => good.ids other (mem_of_mem_erase member)⟩
    exact bind_returns.mpr ⟨(ev, c'), removes, rfl⟩

/-- In both modes and every build, every call of a run returns, and the calendar is
the sorted set of its events in every state. -/
theorem refines_sorted_set (profile : BuildProfile) (reverse : Bool) (calls : List Call)
    (domain : Run.Meets (Scheduler.call (scheduler profile)) (fun s c => Allowed s c ∧ Timely s c)
      ⟨start reverse, [], 0⟩ calls) :
    Run.Always (Scheduler.call (scheduler profile)) (Sound profile) ⟨start reverse, [], 0⟩ calls ∧
      ∃ s, Run.exec (Scheduler.call (scheduler profile)) ⟨start reverse, [], 0⟩ calls = some s := by
  have good : Good ⟨start reverse, [], 0⟩ :=
    ⟨Tidy.start reverse, List.Perm.nil, rfl, fun ev member => absurd member not_mem_nil⟩
  constructor
  · refine Run.Always.of_invariant good domain (fun _ good => good.sound profile) ?_
    rintro s c t good ⟨allowed, timely⟩ run
    obtain ⟨t', run', good'⟩ := good.call profile allowed timely
    exact some.inj (run'.symm.trans run) ▸ good'
  · obtain ⟨s, run, -⟩ := Run.total good domain fun s c good inside =>
      good.call profile inside.1 inside.2
    exact ⟨s, run⟩

/-- An event of a time, with its time as its id. -/
def sample (ts : Nat) : Event := { impl := ts, key := { ts, uid := ts, context := 0 } }

/-- The fifth insertion doubles the buckets of a calendar in descending order. -/
theorem refines_sorted_set_resized :
    Run.Always (Scheduler.call (scheduler .debug)) (Sound .debug) ⟨start true, [], 0⟩
        [.insert (sample 40), .insert (sample 10), .insert (sample 30), .insert (sample 20),
          .insert (sample 700), .remove (sample 30), .removeNext, .removeNext] ∧
      ∃ s, Run.exec (Scheduler.call (scheduler .debug)) ⟨start true, [], 0⟩
        [.insert (sample 40), .insert (sample 10), .insert (sample 30), .insert (sample 20),
          .insert (sample 700), .remove (sample 30), .removeNext, .removeNext] = some s :=
  refines_sorted_set .debug true
    [.insert (sample 40), .insert (sample 10), .insert (sample 30), .insert (sample 20),
      .insert (sample 700), .remove (sample 30), .removeNext, .removeNext] (by decide)

end Runs

end Ns3.CalendarScheduler
