import Ns3.TrafficControl.CoDelQueueDisc.Basic

/-!
# A queue that runs empty

`DoDequeue` reads the time stamp of the item that it has at its end. When it has dropped the last
packet there is no such item. This takes a threshold of zero bytes, since otherwise the packet
that empties the queue is never dropped.
-/

namespace Ns3.CoDelQueueDisc

variable {ι : Type} (ops : QueueDiscItemOps ι) (c : Config) (now : Int)

/-- The item has waited for at least the target. -/
def AboveTarget (item : Stamped ι) : Prop :=
  codelTimeBefore (time2CoDel (now - item.2)) (time2CoDel c.target) = false
  deriving Decidable

/-- The variables with one more drop counted. -/
def counted (v : Vars) : Vars :=
  let count := UInt32.add v.count 1
  { v with count, recInvSqrt := newtonStep v.recInvSqrt count }

/-- The variables after a drop in the dropping state. -/
def nextDrop (v : Vars) : Vars :=
  let v := counted v
  { v with dropNext := controlLaw v.dropNext (time2CoDel c.interval) v.recInvSqrt }

/-- The drop times of the control law are due for all of these items, and each has waited for the
target and is dropped instead of marked. -/
def AllDue : Vars → List (Stamped ι) → Prop
  | _, [] => True
  | v, item :: rest =>
    codelTimeAfterEq (codelGetTime now) v.dropNext = true ∧ markTarget ops c item.1 = none ∧
      AboveTarget c now item ∧ AllDue (nextDrop c v) rest

/-- The interval since the sojourn time went above the target is over. -/
def IntervalOver (v : Vars) : Prop :=
  v.firstAboveTime ≠ 0 ∧ codelTimeAfter (codelGetTime now) v.firstAboveTime = true
  deriving Decidable

/-- A dequeue drops every packet of the queue: with a threshold of zero bytes and the interval
over, all are due in the dropping state, or there is only one outside of it. -/
def Drains (s : CoDelQueueDisc ι) : Prop :=
  match s.queue with
  | [] => False
  | item :: queue =>
    (c.useL4s && isL4s ops item.1) = false ∧ c.minBytes = 0 ∧ IntervalOver now s.vars ∧
      if s.vars.dropping then AllDue ops c now s.vars (item :: queue)
      else queue = [] ∧ AboveTarget c now item ∧ markTarget ops c item.1 = none

variable {ops c now} {v : Vars} {item : Stamped ι} {queue : List (Stamped ι)}
  {s : CoDelQueueDisc ι}

@[simp] theorem counted_dropNext : (counted v).dropNext = v.dropNext := rfl

/-! ## `OkToDrop` -/

theorem okToDrop_iff :
    (okToDrop ops c now v (some item) queue).1 = true ↔
      AboveTarget c now item ∧ c.minBytes ≤ nBytes ops queue ∧ IntervalOver now v := by
  rw [okToDrop, AboveTarget, IntervalOver]
  split
  case isTrue below =>
    refine iff_of_false Bool.false_ne_true ?_
    rintro ⟨above, enough, _⟩
    rw [above, Bool.false_or, decide_eq_true_eq] at below
    exact Nat.not_lt.mpr enough below
  case isFalse above =>
    rw [Bool.or_eq_true, not_or, Bool.not_eq_true, decide_eq_true_eq, Nat.not_lt] at above
    split
    case isTrue zero =>
      refine iff_of_false Bool.false_ne_true ?_
      rintro ⟨_, _, started, _⟩
      exact started zero
    case isFalse started => simp [above.1, above.2, started]

theorem okToDrop_vars (ok : (okToDrop ops c now v (some item) queue).1 = true) :
    okToDrop ops c now v (some item) queue = (true, v) := by
  obtain ⟨above, enough, started, after⟩ := okToDrop_iff.mp ok
  have enough := decide_eq_false (Nat.not_lt.mpr enough)
  rw [okToDrop]
  rw [if_neg (by rw [above, enough]; exact Bool.false_ne_true), if_neg started, after]

/-! ## The loop -/

theorem dropLoop_marked {marked : ι} (mark : markTarget ops c item.1 = some marked) :
    dropLoop ops c now v item queue =
      { vars := { counted v with
          dropNext := controlLaw (codelGetTime now) (time2CoDel c.interval) (counted v).recInvSqrt }
        item := some (marked, item.2), queue, isMarked := true
        events := [.targetExceededMark marked] } := by
  rw [dropLoop, mark]
  rfl

example {m : ι} (mark : markTarget ops c item.1 = some m) :
    (dropLoop ops c now v item []).isMarked := by rw [dropLoop, mark]

theorem dropLoop_last (unmarked : markTarget ops c item.1 = none) :
    dropLoop ops c now v item [] =
      { vars := { counted v with dropping := false, firstAboveTime := 0 }, item := none, queue := []
        events := [.targetExceededDrop item.1] } := by
  rw [dropLoop, unmarked]
  rfl

/-- A round of the loop that drops its item and has another one. -/
theorem dropLoop_next {next : Stamped ι} (unmarked : markTarget ops c item.1 = none) :
    dropLoop ops c now v item (next :: queue) =
      if (okToDrop ops c now (counted v) (some next) queue).1 then
        if codelTimeAfterEq (codelGetTime now) (nextDrop c v).dropNext then
          let r := dropLoop ops c now (nextDrop c v) next queue
          { r with events := .targetExceededDrop item.1 :: r.events }
        else
          { vars := nextDrop c v, item := some next, queue
            events := [.targetExceededDrop item.1] }
      else
        { vars := { (okToDrop ops c now (counted v) (some next) queue).2 with dropping := false }
          item := some next, queue, events := [.targetExceededDrop item.1] } := by
  rw [dropLoop, unmarked]
  cases ok : (okToDrop ops c now (counted v) (some next) queue).1 with
  | false =>
    rw [counted] at ok ⊢
    simp [ok]
  | true =>
    have same := okToDrop_vars ok
    rw [counted] at same
    simp only [same, Bool.not_true, Bool.false_eq_true, ↓reduceIte]
    rfl

/-- The loop in the dropping state runs out of packets if and only if all of them are due. -/
theorem dropLoop_item (interval : IntervalOver now v) :
    (dropLoop ops c now v item queue).item = none ↔
      markTarget ops c item.1 = none ∧ (queue ≠ [] → c.minBytes = 0) ∧
        AllDue ops c now (nextDrop c v) queue := by
  induction queue generalizing v item with
  | nil =>
    rw [dropLoop]
    cases unmarked : markTarget ops c item.1 with
    | some marked => simp
    | none => simp [AllDue]
  | cons next queue ih =>
    cases unmarked : markTarget ops c item.1 with
    | some marked => simp [dropLoop, unmarked]
    | none =>
      have later : IntervalOver now (nextDrop c v) := interval
      have reached : (dropLoop ops c now v item (next :: queue)).item =
          if (okToDrop ops c now (counted v) (some next) queue).1 ∧
              codelTimeAfterEq (codelGetTime now) (nextDrop c v).dropNext then
            (dropLoop ops c now (nextDrop c v) next queue).item
          else some next := by
        rw [dropLoop_next unmarked, ite_and]
        split
        · split
          · rfl
          · rfl
        · rfl
      rw [reached]
      split
      case isTrue both =>
        obtain ⟨ok, due⟩ := both
        obtain ⟨above, enough, _⟩ := okToDrop_iff.mp ok
        rw [ih later]
        constructor
        · rintro ⟨dropped, zero, rest⟩
          refine ⟨rfl, fun _ => ?_, due, dropped, above, rest⟩
          cases queue with
          | nil => exact Nat.le_zero.mp enough
          | cons => exact zero (List.cons_ne_nil _ _)
        · rintro ⟨_, zero, _, dropped, _, rest⟩
          exact ⟨dropped, fun _ => zero (List.cons_ne_nil _ _), rest⟩
      case isFalse kept =>
        refine iff_of_false (Option.some_ne_none _) ?_
        rintro ⟨_, zero, due, _, above, _⟩
        have enough : c.minBytes ≤ nBytes ops queue := zero (List.cons_ne_nil _ _) ▸ Nat.zero_le _
        exact kept ⟨okToDrop_iff.mpr ⟨above, enough, interval⟩, due⟩

/-! ## `DoDequeue` -/

theorem enter_item : (enter ops c now v item queue).item = none ↔
    markTarget ops c item.1 = none ∧ queue = [] := by
  rw [enter]
  cases unmarked : markTarget ops c item.1 with
  | some marked => simp
  | none => simp

/-- An item that ends with none behind it was fine to drop, and the drops went on to the end. -/
theorem examine_item : (examine ops c now v item queue).item = none ↔
    c.minBytes = 0 ∧ IntervalOver now v ∧
      if v.dropping then AllDue ops c now v (item :: queue)
      else queue = [] ∧ AboveTarget c now item ∧ markTarget ops c item.1 = none := by
  cases ok : (okToDrop ops c now v (some item) queue).1 with
  | false =>
    have kept : (examine ops c now v item queue).item = some item := by
      rw [examine]
      simp only [ok, Bool.not_false, ↓reduceIte, Bool.false_eq_true]
      split
      · rfl
      · rfl
    rw [kept]
    refine iff_of_false (Option.some_ne_none _) ?_
    rintro ⟨zero, interval, rest⟩
    have enough : c.minBytes ≤ nBytes ops queue := zero ▸ Nat.zero_le _
    have above : AboveTarget c now item := by
      split at rest
      · exact rest.2.2.1
      · exact rest.2.1
    rw [okToDrop_iff.mpr ⟨above, enough, interval⟩] at ok
    cases ok
  | true =>
    obtain ⟨above, enough, interval⟩ := okToDrop_iff.mp ok
    have lastOne : queue = [] → c.minBytes = 0 := by
      rintro rfl
      exact Nat.le_zero.mp enough
    rw [examine, okToDrop_vars ok]
    simp only [Bool.not_true, Bool.false_eq_true, ↓reduceIte]
    split
    case isTrue dropping =>
      split
      case isTrue due =>
        rw [dropLoop_item interval]
        constructor
        · rintro ⟨dropped, zero, rest⟩
          refine ⟨?_, interval, due, dropped, above, rest⟩
          exact (Classical.em (queue = [])).elim lastOne zero
        · rintro ⟨zero, _, _, dropped, _, rest⟩
          exact ⟨dropped, fun _ => zero, rest⟩
      case isFalse early =>
        refine iff_of_false (Option.some_ne_none _) ?_
        rintro ⟨_, _, due, _⟩
        exact early due
    case isFalse =>
      rw [enter_item]
      constructor
      · rintro ⟨dropped, last⟩
        exact ⟨lastOne last, interval, last, above, dropped⟩
      · rintro ⟨_, _, last, _, dropped⟩
        exact ⟨dropped, last⟩

theorem finish_none {r : AtEnd ι} : finish ops c now s r = none ↔ r.item = none := by
  rw [finish]
  cases r.item with
  | none => simp
  | some item => simp

theorem doDequeue_none : doDequeue ops c now s = none ↔ Drains ops c now s := by
  rw [doDequeue, Drains]
  cases s.queue with
  | nil => simp
  | cons item queue =>
    simp only
    cases l4s : c.useL4s && isL4s ops item.1 with
    | true => simp
    | false =>
      simp only [Bool.false_eq_true, ↓reduceIte, true_and]
      rw [finish_none, examine_item]

variable (ops c) in
/-- The runs in which no null item is read are those in which no dequeue drops the whole queue. -/
theorem returns_iff_never_drains (calls : List (Call ι)) :
    (∃ s, Run.exec (step ops c) {} calls = some s) ↔
      Run.Meets (step ops c) (fun s call => ∀ now, call = .dequeue now → ¬ Drains ops c now s)
        {} calls := by
  apply Run.returns_iff_meets
  intro s call
  cases call with
  | enqueue now item =>
    refine iff_of_true ⟨_, rfl⟩ ?_
    rintro now' ⟨⟩
  | dequeue now =>
    have reads : (∃ t, step ops c s (.dequeue now) = some t) ↔ ¬ Drains ops c now s := by
      rw [← doDequeue_none]
      exact Option.ne_none_iff_exists'.symm
    rw [reads]
    constructor
    · rintro drained now' ⟨⟩
      exact drained
    · intro each
      exact each now rfl

/-- Without a threshold, the second of two packets is dropped on entry to the dropping state, 200 ms
after both have come, and no item is left. -/
theorem lastPacket_drained :
    Run.exec (step { getSize := id, dsField := fun _ => none, mark := fun _ => none }
        { minBytes := 0 }) {}
      [.enqueue 1000000000 1500, .enqueue 1000000000 1500, .dequeue 1010000000,
        .dequeue 1200000000] = none := by
  decide

end Ns3.CoDelQueueDisc
