import Ns3.TrafficControl.CoDelQueueDisc.NullItem

/-!
# Shifted times

Two runs whose calls are made at shifted times are related through every branch of the algorithm.
The clock has units of 1024 nanoseconds, and its times are compared as unsigned numbers of 32 bits:
the runs are the same for a shift by whole units while the clock and the end of the interval do
not wrap.
-/

namespace Ns3.CoDelQueueDisc

variable {ι : Type} (ops : QueueDiscItemOps ι) (c : Config) (k now : Int)

/-- The time of a call. -/
def Call.time : Call ι → Int
  | .enqueue now _ => now
  | .dequeue now => now

/-- The same call at a time that is later by a number of nanoseconds. -/
def Call.shift (delay : Int) : Call ι → Call ι
  | .enqueue now item => .enqueue (now + delay) item
  | .dequeue now => .dequeue (now + delay)

/-- The interval from this time ends before the clock wraps. -/
def Unwrapped : Prop := 0 < now / 2 ^ 10 ∧ now / 2 ^ 10 + time2CoDel c.interval < 2 ^ 32
  deriving Decidable

/-- The drop rate of the last dropping state is resumed: it ended a short time ago. -/
def Resumes (v : Vars) : Prop :=
  1 < UInt32.sub v.count v.lastCount ∧ UInt32.sub v.count v.lastCount < 2 ^ 31 ∧
    codelTimeBefore (UInt32.sub (codelGetTime now) v.dropNext)
      (16 * time2CoDel c.interval % 2 ^ 32) = true

/-- The variables on entry to the dropping state with a count. -/
def entered (v : Vars) (count recInvSqrt : Nat) : Vars :=
  { v with
    count, lastCount := count, dropping := true, recInvSqrt
    dropNext := controlLaw (codelGetTime now) (time2CoDel c.interval) recInvSqrt }

/-! ## The relation -/

/-- The times of the next drop differ by `k` units. -/
def NextShifted (next next' : Nat) : Prop :=
  (next' : Int) = next + k ∧ next < 2 ^ 32 ∧ next' < 2 ^ 32

/-- The variables of two runs whose clocks differ by `k` units. The next drop of an algorithm that
has never been in the dropping state is not looked at. -/
structure Shifted (v v' : Vars) : Prop where
  count : v'.count = v.count
  lastCount : v'.lastCount = v.lastCount
  dropping : v'.dropping = v.dropping
  recInvSqrt : v'.recInvSqrt = v.recInvSqrt
  started : v'.firstAboveTime = 0 ↔ v.firstAboveTime = 0
  firstAboveTime : v.firstAboveTime ≠ 0 → (v'.firstAboveTime : Int) = v.firstAboveTime + k
  dropNext : v.dropping = true ∨ v.count ≠ v.lastCount → NextShifted k v.dropNext v'.dropNext

/-- An item whose time stamp is later by `k` units. -/
def later (item : Stamped ι) : Stamped ι := (item.1, item.2 + 2 ^ 10 * k)

/-- What is known at the end of the two runs' calls. -/
structure AtEnd.Shifted (r r' : AtEnd ι) : Prop where
  vars : CoDelQueueDisc.Shifted k r.vars r'.vars
  item : r'.item = r.item.map (later k)
  queue : r'.queue = r.queue.map (later k)
  isMarked : r'.isMarked = r.isMarked
  events : r'.events = r.events

/-- The states of the two runs. -/
structure Follows (s s' : CoDelQueueDisc ι) : Prop where
  vars : Shifted k s.vars s'.vars
  queue : s'.queue = s.queue.map (later k)
  events : s'.events = s.events

variable {ops c k now} {v v' : Vars} {item : Stamped ι} {queue : List (Stamped ι)}
  {s s' : CoDelQueueDisc ι}

/-! ## The clock -/

theorem Unwrapped.clock (unwrapped : Unwrapped c now) :
    (codelGetTime now : Int) = now / 2 ^ 10 := by
  obtain ⟨positive, below⟩ := unwrapped
  rw [codelGetTime, time2CoDel, Int.toNat_of_nonneg (Int.emod_nonneg _ (by decide))]
  exact Int.emod_eq_of_lt (Int.le_of_lt positive) (by omega)

theorem clock_shift (unwrapped : Unwrapped c now) (unwrapped' : Unwrapped c (now + 2 ^ 10 * k)) :
    (codelGetTime (now + 2 ^ 10 * k) : Int) = codelGetTime now + k := by
  rw [unwrapped.clock, unwrapped'.clock]
  omega

theorem Unwrapped.interval (unwrapped : Unwrapped c now) :
    codelGetTime now + time2CoDel c.interval < 2 ^ 32 := by
  have clock := unwrapped.clock
  have below := unwrapped.2
  omega

theorem sojourn_shift : now + 2 ^ 10 * k - (later k item).2 = now - item.2 := by
  rw [later]
  omega

theorem nBytes_shift : nBytes ops (queue.map (later k)) = nBytes ops queue := by
  rw [nBytes, nBytes, List.map_map]
  rfl

theorem reciprocalDivide_le (a r : Nat) : reciprocalDivide a (r * 2 ^ 16 % 2 ^ 32) ≤ a := by
  have bound : r * 2 ^ 16 % 2 ^ 32 < 2 ^ 32 := Nat.mod_lt _ (by decide)
  refine Nat.le_trans (Nat.mod_le _ _) (Nat.div_le_of_le_mul ?_)
  rw [Nat.mul_comm]
  exact Nat.mul_le_mul_right a (Nat.le_of_lt bound)

theorem controlLaw_eq {t interval : Nat} (r : Nat) (below : t + interval < 2 ^ 32) :
    controlLaw t interval r = t + reciprocalDivide interval (r * 2 ^ 16 % 2 ^ 32) := by
  have bound := reciprocalDivide_le interval r
  exact UInt32.add_of_lt (by omega)

theorem controlLaw_shift {t t' interval r : Nat} (shifted : (t' : Int) = t + k)
    (below : t + interval < 2 ^ 32) (below' : t' + interval < 2 ^ 32) :
    NextShifted k (controlLaw t interval r) (controlLaw t' interval r) := by
  have bound := reciprocalDivide_le interval r
  rw [NextShifted, controlLaw_eq r below, controlLaw_eq r below']
  omega

theorem after_shift {a b a' b' : Nat} (ha : (a' : Int) = a + k) (hb : (b' : Int) = b + k) :
    codelTimeAfter a' b' = codelTimeAfter a b := by
  rw [codelTimeAfter, codelTimeAfter]
  congr 1
  exact propext (by omega)

theorem afterEq_shift {a b a' b' : Nat} (ha : (a' : Int) = a + k) (hb : (b' : Int) = b + k) :
    codelTimeAfterEq a' b' = codelTimeAfterEq a b := by
  rw [codelTimeAfterEq, codelTimeAfterEq]
  congr 1
  exact propext (by omega)

theorem sub_same (a : Nat) : UInt32.sub a a = 0 := by
  rw [UInt32.sub]
  omega

theorem sub_shift {a b a' b' : Nat} (ha : (a' : Int) = a + k) (hb : (b' : Int) = b + k)
    (bound : b < 2 ^ 32) (bound' : b' < 2 ^ 32) : UInt32.sub a' b' = UInt32.sub a b := by
  rw [UInt32.sub, UInt32.sub]
  omega

/-! ## The algorithm -/

theorem Shifted.reset (shifted : Shifted k v v') :
    Shifted k { v with firstAboveTime := 0 } { v' with firstAboveTime := 0 } :=
  { shifted with started := Iff.rfl, firstAboveTime := fun h => absurd rfl h }

theorem Shifted.leave (shifted : Shifted k v v') :
    Shifted k { v with dropping := false } { v' with dropping := false } :=
  { shifted with
    dropping := rfl
    dropNext := fun left => shifted.dropNext (left.imp_left fun h => absurd h Bool.false_ne_true) }

section

variable (unwrapped : Unwrapped c now) (unwrapped' : Unwrapped c (now + 2 ^ 10 * k))

include unwrapped unwrapped'

variable (ops item queue) in
/-- Both runs find the same drop fine, and what they set the time to differs by the shift. -/
theorem okToDrop_shift (shifted : Shifted k v v') :
    (okToDrop ops c (now + 2 ^ 10 * k) v' (some (later k item)) (queue.map (later k))).1 =
        (okToDrop ops c now v (some item) queue).1 ∧
      Shifted k (okToDrop ops c now v (some item) queue).2
        (okToDrop ops c (now + 2 ^ 10 * k) v' (some (later k item)) (queue.map (later k))).2 := by
  have clock := clock_shift unwrapped unwrapped'
  rw [okToDrop, okToDrop]
  simp only [sojourn_shift, nBytes_shift, shifted.started]
  split
  · exact ⟨rfl, shifted.reset⟩
  · split
    · have ends := UInt32.add_of_lt unwrapped.interval
      have ends' := UInt32.add_of_lt unwrapped'.interval
      have positive := unwrapped.1
      have positive' := unwrapped'.1
      have at_ := unwrapped.clock
      refine ⟨rfl, { shifted with started := ?_, firstAboveTime := ?_ }⟩
      · simp only [ends, ends']
        omega
      · simp only [ends, ends']
        omega
    · rename_i started
      exact ⟨after_shift clock (shifted.firstAboveTime started), shifted⟩

omit unwrapped unwrapped' in
theorem Shifted.counted (shifted : Shifted k v v') (dropping : v.dropping = true) :
    Shifted k (counted v) (counted v') := by
  have newton : newtonStep v'.recInvSqrt (UInt32.add v'.count 1) =
      newtonStep v.recInvSqrt (UInt32.add v.count 1) := by
    rw [shifted.recInvSqrt, shifted.count]
  exact { shifted with
    count := congrArg (UInt32.add · 1) shifted.count
    recInvSqrt := newton
    dropNext := fun _ => shifted.dropNext (.inl dropping) }

section

variable (shifted : Shifted k v v') (dropping : v.dropping = true)
include shifted dropping

theorem Shifted.nextDrop (due : codelTimeAfterEq (codelGetTime now) v.dropNext = true) :
    Shifted k (nextDrop c v) (nextDrop c v') := by
  have next := shifted.dropNext (.inl dropping)
  have clock := clock_shift unwrapped unwrapped'
  have interval := unwrapped.interval
  have interval' := unwrapped'.interval
  have past : v.dropNext ≤ codelGetTime now := by
    have nonneg := of_decide_eq_true due
    omega
  have counted := shifted.counted dropping
  refine { counted with dropNext := fun _ => ?_ }
  rw [CoDelQueueDisc.nextDrop, CoDelQueueDisc.nextDrop]
  simp only [counted.recInvSqrt, counted_dropNext]
  exact controlLaw_shift next.1 (by omega) (by have := next.1; omega)

theorem dropLoop_marked_shift {marked : ι} (mark : markTarget ops c item.1 = some marked) :
    AtEnd.Shifted k (dropLoop ops c now v item queue)
      (dropLoop ops c (now + 2 ^ 10 * k) v' (later k item) (queue.map (later k))) := by
  have clock := clock_shift unwrapped unwrapped'
  have counted := shifted.counted dropping
  have mark' : markTarget ops c (later k item).1 = some marked := mark
  rw [dropLoop_marked mark, dropLoop_marked mark']
  refine ⟨{ counted with dropNext := fun _ => ?_ }, rfl, rfl, rfl, rfl⟩
  rw [counted.recInvSqrt]
  exact controlLaw_shift clock unwrapped.interval unwrapped'.interval

/-- The rounds of the loop drop the same packets. -/
theorem dropLoop_shift (due : codelTimeAfterEq (codelGetTime now) v.dropNext = true) :
    AtEnd.Shifted k (dropLoop ops c now v item queue)
      (dropLoop ops c (now + 2 ^ 10 * k) v' (later k item) (queue.map (later k))) := by
  have clock := clock_shift unwrapped unwrapped'
  induction queue generalizing v v' item with
  | nil =>
    cases mark : markTarget ops c item.1 with
    | some marked => exact dropLoop_marked_shift unwrapped unwrapped' shifted dropping mark
    | none =>
      have mark' : markTarget ops c (later k item).1 = none := mark
      rw [dropLoop_last mark, List.map_nil, dropLoop_last mark']
      exact ⟨(shifted.counted dropping).reset.leave, rfl, rfl, rfl, rfl⟩
  | cons next queue ih =>
    cases mark : markTarget ops c item.1 with
    | some marked => exact dropLoop_marked_shift unwrapped unwrapped' shifted dropping mark
    | none =>
      have counted := shifted.counted dropping
      have mark' : markTarget ops c (later k item).1 = none := mark
      obtain ⟨ok, checked⟩ := okToDrop_shift ops next queue unwrapped unwrapped' counted
      rw [dropLoop_next mark, List.map_cons, dropLoop_next mark', ok]
      split
      case isTrue fine =>
        have nextDrop := shifted.nextDrop unwrapped unwrapped' dropping due
        rw [afterEq_shift clock (nextDrop.dropNext (.inl dropping)).1]
        split
        case isTrue again =>
          have rest : AtEnd.Shifted k
              (dropLoop ops c now (CoDelQueueDisc.nextDrop c v) next queue) _ :=
            ih nextDrop dropping again
          exact ⟨rest.vars, rest.item, rest.queue, rest.isMarked,
            congrArg (Event.targetExceededDrop item.1 :: ·) rest.events⟩
        case isFalse => exact ⟨nextDrop, rfl, rfl, rfl, rfl⟩
      case isFalse => exact ⟨checked.leave, rfl, rfl, rfl, rfl⟩

end

omit unwrapped unwrapped' in
theorem enterVars_resumes (resumes : Resumes c now v) :
    enterVars c now v = entered c now v (UInt32.sub v.count v.lastCount)
      (newtonStep v.recInvSqrt (UInt32.sub v.count v.lastCount)) := by
  rw [enterVars]
  split
  · rfl
  · contradiction

omit unwrapped unwrapped' in
theorem enterVars_fresh (fresh : ¬ Resumes c now v) :
    enterVars c now v = entered c now v 1 0xffff := by
  rw [enterVars]
  split
  · contradiction
  · rfl

section

variable (shifted : Shifted k v v')
include shifted

theorem Shifted.entered (count recInvSqrt : Nat) :
    Shifted k (entered c now v count recInvSqrt)
      (entered c (now + 2 ^ 10 * k) v' count recInvSqrt) :=
  { shifted with
    count := rfl, lastCount := rfl, dropping := rfl, recInvSqrt := rfl
    dropNext := fun _ => controlLaw_shift (clock_shift unwrapped unwrapped') unwrapped.interval
      unwrapped'.interval }

theorem resumes_shift : Resumes c (now + 2 ^ 10 * k) v' ↔ Resumes c now v := by
  rw [Resumes, Resumes, shifted.count, shifted.lastCount]
  refine and_congr_right fun several => ?_
  have apart : v.count ≠ v.lastCount := by
    intro same
    rw [same, sub_same] at several
    exact absurd several (by decide)
  obtain ⟨next, bound, bound'⟩ := shifted.dropNext (.inr apart)
  rw [sub_shift (clock_shift unwrapped unwrapped') next bound bound']

theorem enterVars_shift : Shifted k (enterVars c now v) (enterVars c (now + 2 ^ 10 * k) v') := by
  have same := resumes_shift unwrapped unwrapped' shifted
  by_cases resumes : Resumes c now v
  · rw [enterVars_resumes resumes, enterVars_resumes (same.mpr resumes), shifted.count,
      shifted.lastCount, shifted.recInvSqrt]
    exact shifted.entered unwrapped unwrapped' _ _
  · rw [enterVars_fresh resumes, enterVars_fresh (same.not.mpr resumes)]
    exact shifted.entered unwrapped unwrapped' _ _

theorem enter_shift : AtEnd.Shifted k (enter ops c now v item queue)
      (enter ops c (now + 2 ^ 10 * k) v' (later k item) (queue.map (later k))) := by
  have same : markTarget ops c (later k item).1 = markTarget ops c item.1 := rfl
  rw [enter, enter, same]
  cases markTarget ops c item.1 with
  | some marked => exact ⟨enterVars_shift unwrapped unwrapped' shifted, rfl, rfl, rfl, rfl⟩
  | none =>
    cases queue with
    | nil => exact ⟨enterVars_shift unwrapped unwrapped' shifted.reset, rfl, rfl, rfl, rfl⟩
    | cons next queue =>
      have checked := (okToDrop_shift ops next queue unwrapped unwrapped' shifted).2
      exact ⟨enterVars_shift unwrapped unwrapped' checked, rfl, rfl, rfl, rfl⟩

theorem examine_shift : AtEnd.Shifted k (examine ops c now v item queue)
      (examine ops c (now + 2 ^ 10 * k) v' (later k item) (queue.map (later k))) := by
  have clock := clock_shift unwrapped unwrapped'
  obtain ⟨ok, checked⟩ := okToDrop_shift ops item queue unwrapped unwrapped' shifted
  rw [examine, examine]
  simp only [ok, checked.dropping]
  split
  case isTrue dropping =>
    rw [afterEq_shift clock (checked.dropNext (.inl dropping)).1]
    split
    · exact ⟨checked.leave, rfl, rfl, rfl, rfl⟩
    · split
      case isTrue due => exact dropLoop_shift unwrapped unwrapped' checked dropping due
      case isFalse => exact ⟨checked, rfl, rfl, rfl, rfl⟩
  case isFalse =>
    split
    · exact enter_shift unwrapped unwrapped' checked
    · exact ⟨checked, rfl, rfl, rfl, rfl⟩

end

omit unwrapped unwrapped' in
theorem finish_shift {r r' : AtEnd ι} (follows : Follows k s s') (shifted : AtEnd.Shifted k r r') :
    Option.Rel (Follows k) (finish ops c now s r) (finish ops c (now + 2 ^ 10 * k) s' r') := by
  rw [finish, finish, shifted.item]
  cases r.item with
  | none => exact .none
  | some item =>
    refine .some ⟨shifted.vars, shifted.queue, ?_⟩
    simp only [sojourn_shift, shifted.isMarked, shifted.events, follows.events]
    rfl

theorem doDequeue_shift (follows : Follows k s s') :
    Option.Rel (Follows k) (doDequeue ops c now s) (doDequeue ops c (now + 2 ^ 10 * k) s') := by
  rw [doDequeue, doDequeue, follows.queue]
  cases s.queue with
  | nil => exact .some ⟨follows.vars.leave, rfl, congrArg (· ++ _) follows.events⟩
  | cons item queue =>
    rw [List.map_cons]
    simp only [sojourn_shift]
    change Option.Rel _ _ (ite ((c.useL4s && isL4s ops item.1) = true) _ _)
    split
    · refine .some ⟨follows.vars, rfl, ?_⟩
      simp only [follows.events]
      rfl
    · exact finish_shift follows (examine_shift unwrapped unwrapped' follows.vars)

end

theorem doEnqueue_shift (follows : Follows k s s') (item : ι) :
    Follows k (doEnqueue ops c now item s) (doEnqueue ops c (now + 2 ^ 10 * k) item s') := by
  have size : sizeWith ops c s'.queue item = sizeWith ops c s.queue item := by
    rw [sizeWith, sizeWith, follows.queue, nBytes_shift, List.length_map]
  rw [doEnqueue, doEnqueue, size]
  split
  · exact { follows with events := congrArg (· ++ _) follows.events }
  · refine { follows with queue := ?_ }
    simp only [follows.queue, List.map_append]
    rfl

variable (k) in
theorem follows_initial : Follows k ({} : CoDelQueueDisc ι) {} where
  vars :=
    { count := rfl, lastCount := rfl, dropping := rfl, recInvSqrt := rfl, started := Iff.rfl
      firstAboveTime := fun h => absurd rfl h
      dropNext := fun h => h.elim (absurd · Bool.false_ne_true) (absurd rfl ·) }
  queue := rfl
  events := rfl

variable (ops c k) in
/-- The runs of calls whose times differ by `k` units of the clock have the same events, while
neither clock wraps. -/
theorem events_shift (calls : List (Call ι))
    (unwrapped : ∀ call ∈ calls,
      Unwrapped c call.time ∧ Unwrapped c (call.time + 2 ^ 10 * k)) :
    (Run.exec (step ops c) {} (calls.map (Call.shift (2 ^ 10 * k)))).map CoDelQueueDisc.events =
      (Run.exec (step ops c) {} calls).map CoDelQueueDisc.events := by
  have related : Option.Rel (Follows k) (Run.exec (step ops c) {} calls)
      (Run.exec (step ops c) {} (calls.map (Call.shift (2 ^ 10 * k)))) := by
    refine Run.exec_related (follows_initial k) ?_
    intro call mem s s' follows
    obtain ⟨here, there⟩ := unwrapped call mem
    cases call with
    | enqueue now item => exact .some (doEnqueue_shift follows item)
    | dequeue now => exact doDequeue_shift here there follows
  generalize Run.exec (step ops c) {} calls = r,
    Run.exec (step ops c) {} (calls.map (Call.shift (2 ^ 10 * k))) = r' at related ⊢
  cases related with
  | none => rfl
  | some follows => exact congrArg some follows.events

/-- Three packets that come at 100 s, and two dequeues, the second 100 ms after the first, with a
shift by 97 million units. -/
theorem events_shift_dequeues : let ops : QueueDiscItemOps Nat :=
      { getSize := fun _ => 1500, dsField := fun _ => none, mark := fun _ => none }
    let calls : List (Call Nat) :=
      [.enqueue 100000000000 1, .enqueue 100000000000 2, .enqueue 100000000000 3,
        .dequeue 100010000383, .dequeue 100110000128]
    (Run.exec (step ops {}) {} (calls.map (Call.shift (2 ^ 10 * 97000000)))).map
        CoDelQueueDisc.events =
      (Run.exec (step ops {}) {} calls).map CoDelQueueDisc.events := by
  intro ops calls
  exact events_shift ops {} 97000000 calls (by decide)

/-- A shift by 1 ns changes the unit of one time and not that of another, and with it whether the
interval is over. With a shift by whole units the clock wraps between the two dequeues, and the
interval is never over. -/
theorem shifts_differ : let ops : QueueDiscItemOps Nat :=
      { getSize := fun _ => 1500, dsField := fun _ => none, mark := fun _ => none }
    let calls : List (Call Nat) :=
      [.enqueue 100000000000 1, .enqueue 100000000000 2, .enqueue 100000000000 3,
        .dequeue 100010000383, .dequeue 100110000128]
    let outcome (calls : List (Call Nat)) :=
      (Run.exec (step ops {}) {} calls).map CoDelQueueDisc.events
    outcome (calls.map (Call.shift 1)) ≠ outcome calls ∧
      outcome (calls.map (Call.shift (2 ^ 10 * 4197203624))) ≠ outcome calls := by
  decide

end Ns3.CoDelQueueDisc
