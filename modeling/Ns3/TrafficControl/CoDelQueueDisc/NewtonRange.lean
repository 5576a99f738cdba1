import Ns3.Library.InverseSqrt
import Ns3.TrafficControl.CoDelQueueDisc.TimeShift

/-!
# The range of the Newton steps

`NewtonStep` is called each time a drop is counted, and when the dropping state is entered with
the drop rate of the last one. Its estimate is kept between the calls while the count goes up by
one, wraps, or falls to the drops of the last dropping state. The estimate never exceeds the
inverse square root of the count.
-/

namespace Ns3.CoDelQueueDisc

/-- The arguments of a call of `NewtonStep`. -/
structure NewtonCall where
  recInvSqrt : Nat
  count : Nat
  deriving DecidableEq

namespace NewtonCall

/-- `invsqrt`, without wrapping. -/
def invsqrt (n : NewtonCall) : Nat := n.recInvSqrt * 2 ^ 16

/-- `invsqrt2`. -/
def invsqrt2 (n : NewtonCall) : Nat := n.invsqrt * n.invsqrt / 2 ^ 32

/-- The difference, without wrapping. -/
def difference (n : NewtonCall) : Nat := 3 * 2 ^ 32 - n.count * n.invsqrt2

/-- The result before the cast. -/
def beforeCast (n : NewtonCall) : Nat :=
  n.difference / 2 ^ 2 * n.invsqrt / 2 ^ (32 - 2 + 1) / 2 ^ 16

/-- No operation of the call wraps, and the cast loses nothing. -/
structure InRange (n : NewtonCall) : Prop where
  invsqrt : n.invsqrt < 2 ^ 32
  invsqrt2 : n.invsqrt2 < 2 ^ 32
  subtraction : n.count * n.invsqrt2 ≤ 3 * 2 ^ 32
  product : n.difference / 2 ^ 2 * n.invsqrt < 2 ^ 64
  beforeCast : n.beforeCast < 2 ^ 16

end NewtonCall

section

variable {ι : Type} (ops : QueueDiscItemOps ι) (c : Config)

/-! ## The calls of `NewtonStep` -/

/-- `dropLoop`, with its calls of `NewtonStep`. -/
def dropLoopLogged (now : Int) (v : Vars) (item : Stamped ι) (queue : List (Stamped ι)) :
    AtEnd ι × List NewtonCall :=
  let count := UInt32.add v.count 1
  let newton : NewtonCall := { recInvSqrt := v.recInvSqrt, count }
  let v := { v with count, recInvSqrt := newtonStep v.recInvSqrt count }
  match markTarget ops c item.1 with
  | some marked =>
    ({ vars := { v with
        dropNext := controlLaw (codelGetTime now) (time2CoDel c.interval) v.recInvSqrt }
       item := some (marked, item.2), queue, isMarked := true
       events := [.targetExceededMark marked] }, [newton])
  | none =>
    let dropped := .targetExceededDrop item.1
    match queue with
    | [] =>
      let v := (okToDrop ops c now v none []).2
      ({ vars := { v with dropping := false }, item := none, queue := []
         events := [dropped] }, [newton])
    | next :: queue =>
      let (ok, v) := okToDrop ops c now v (some next) queue
      if !ok then
        ({ vars := { v with dropping := false }, item := some next, queue
           events := [dropped] }, [newton])
      else
        let v := { v with
          dropNext := controlLaw v.dropNext (time2CoDel c.interval) v.recInvSqrt }
        if codelTimeAfterEq (codelGetTime now) v.dropNext then
          let r := dropLoopLogged now v next queue
          ({ r.1 with events := dropped :: r.1.events }, newton :: r.2)
        else ({ vars := v, item := some next, queue, events := [dropped] }, [newton])

instance (now : Int) (v : Vars) : Decidable (Resumes c now v) :=
  inferInstanceAs (Decidable (_ ∧ _ ∧ _))

/-- The calls of `NewtonStep` by `enterVars`: one if the drop rate is resumed. -/
def enterVarsCalls (now : Int) (v : Vars) : List NewtonCall :=
  if Resumes c now v then
    [{ recInvSqrt := v.recInvSqrt, count := UInt32.sub v.count v.lastCount }]
  else []

/-- The calls of `NewtonStep` by `enter`. -/
def enterCalls (now : Int) (v : Vars) (item : Stamped ι) (queue : List (Stamped ι)) :
    List NewtonCall :=
  match markTarget ops c item.1 with
  | some _ => enterVarsCalls c now v
  | none => enterVarsCalls c now (okToDrop ops c now v queue.head? queue.tail).2

/-- `examine`, with its calls of `NewtonStep`. -/
def examineLogged (now : Int) (v : Vars) (item : Stamped ι) (queue : List (Stamped ι)) :
    AtEnd ι × List NewtonCall :=
  let (ok, v) := okToDrop ops c now v (some item) queue
  if v.dropping then
    if !ok then ({ vars := { v with dropping := false }, item := some item, queue }, [])
    else if codelTimeAfterEq
      (codelGetTime now) v.dropNext then dropLoopLogged ops c now v item queue
    else ({ vars := v, item := some item, queue }, [])
  else if ok then (enter ops c now v item queue, enterCalls ops c now v item queue)
  else ({ vars := v, item := some item, queue }, [])

/-- The calls of `NewtonStep` that one call of the queue disc makes. -/
def newtonCalls (s : CoDelQueueDisc ι) : Call ι → List NewtonCall
  | .enqueue _ _ => []
  | .dequeue now => match s.queue with
      | [] => []
      | item :: queue =>
        if c.useL4s && isL4s ops item.1 then [] else (examineLogged ops c now s.vars item queue).2

end

/-! ## One Newton step -/

/-- The estimate is no more than the inverse square root of the count. -/
structure Estimate (v : Vars) : Prop where
  count : v.count < 2 ^ 32
  lastCount : v.lastCount < 2 ^ 31
  recInvSqrt : v.recInvSqrt < 2 ^ 16
  below : v.count * v.recInvSqrt ^ 2 ≤ 2 ^ 32

namespace NewtonCall

variable {n : NewtonCall}

theorem invsqrt2_eq (n : NewtonCall) : n.invsqrt2 = n.recInvSqrt ^ 2 := by
  have square : n.invsqrt * n.invsqrt = n.recInvSqrt ^ 2 * 2 ^ 32 := by
    rw [invsqrt]
    ring
  rw [invsqrt2, square, Nat.mul_div_cancel _ (by decide)]

theorem beforeCast_le (n : NewtonCall) :
    n.beforeCast * (2 * 2 ^ 32) ≤ (3 * 2 ^ 32 - n.count * n.recInvSqrt ^ 2) * n.recInvSqrt := by
  have quarter := Nat.div_mul_le_self n.difference (2 ^ 2)
  have scaled : n.difference / 2 ^ 2 * n.invsqrt =
      n.difference / 2 ^ 2 * n.recInvSqrt * 2 ^ 16 := (Nat.mul_assoc _ _ _).symm
  have truncated := Nat.div_mul_le_self (n.difference / 2 ^ 2 * n.invsqrt)
    (2 ^ (32 - 2 + 1) * 2 ^ 16)
  have product := Nat.mul_le_mul_right n.recInvSqrt quarter
  have power : 2 ^ (32 - 2 + 1) * 2 ^ 16 = 2 ^ 47 := by norm_num
  rw [← Nat.div_div_eq_div_mul, ← beforeCast, power] at truncated
  calc n.beforeCast * (2 * 2 ^ 32)
      ≤ n.difference * n.recInvSqrt := by linarith
    _ = (3 * 2 ^ 32 - n.count * n.recInvSqrt ^ 2) * n.recInvSqrt := by
        rw [difference, invsqrt2_eq]

theorem inRange (estimate : n.recInvSqrt < 2 ^ 16)
    (below : n.count * n.recInvSqrt ^ 2 ≤ 3 * 2 ^ 32) (last : n.count = 0 → n.recInvSqrt ≤ 1) :
    n.InRange := by
  have subtraction : n.count * n.invsqrt2 ≤ 3 * 2 ^ 32 := by
    rw [invsqrt2_eq]
    exact below
  have inside : n.invsqrt < 2 ^ 32 := by
    rw [invsqrt]
    omega
  refine ⟨inside, ?_, subtraction, ?_, ?_⟩
  · rw [invsqrt2_eq]
    exact (Nat.pow_lt_pow_left estimate (by decide)).trans_le (by decide)
  · have factor : n.difference / 2 ^ 2 ≤ 3 * 2 ^ 30 := by
      rw [difference]
      omega
    exact (Nat.mul_le_mul factor inside.le).trans_lt (by decide)
  · have step := n.beforeCast_le
    by_cases zero : n.count = 0
    · -- the count has wrapped: the estimate is no more than one
      rw [zero, Nat.zero_mul, Nat.sub_zero] at step
      omega
    · exact InverseSqrt.step_lt (s := 2 ^ 16) (by omega) estimate below step

theorem InRange.newtonStep_eq (h : n.InRange) : newtonStep n.recInvSqrt n.count = n.beforeCast := by
  have whole : n.recInvSqrt * 2 ^ 16 % 2 ^ 32 = n.invsqrt := Nat.mod_eq_of_lt h.invsqrt
  have times : UInt64.mul n.count n.invsqrt2 = n.count * n.invsqrt2 :=
    UInt64.mul_of_lt (h.subtraction.trans_lt (by decide))
  have minus : UInt64.sub (3 * 2 ^ 32) (n.count * n.invsqrt2) = n.difference :=
    UInt64.sub_of_le h.subtraction (by decide)
  have product : UInt64.mul (n.difference / 2 ^ 2) n.invsqrt = n.difference / 2 ^ 2 * n.invsqrt :=
    UInt64.mul_of_lt h.product
  simp only [newtonStep, whole]
  rw [← NewtonCall.invsqrt2, times, minus, product]
  exact Nat.mod_eq_of_lt h.beforeCast

theorem InRange.step (h : n.InRange) :
    newtonStep n.recInvSqrt n.count < 2 ^ 16 ∧
      n.count * newtonStep n.recInvSqrt n.count ^ 2 ≤ 2 ^ 32 := by
  rw [h.newtonStep_eq]
  have subtraction := h.subtraction
  rw [invsqrt2_eq] at subtraction
  exact ⟨h.beforeCast, InverseSqrt.step_le (by decide) subtraction n.beforeCast_le⟩

end NewtonCall

/-! ## The steps of the algorithm -/

section

variable {ι : Type} {ops : QueueDiscItemOps ι} {c : Config} {now : Int} {v : Vars}
  {item : Stamped ι} {queue : List (Stamped ι)}

section

variable (estimate : Estimate v)
include estimate

theorem Estimate.okToDrop (next : Option (Stamped ι)) :
    Estimate (okToDrop ops c now v next queue).2 := by
  have reset (time : Nat) : Estimate { v with firstAboveTime := time } :=
    ⟨estimate.count, estimate.lastCount, estimate.recInvSqrt, estimate.below⟩
  cases next with
  | none => exact reset 0
  | some next =>
    rw [CoDelQueueDisc.okToDrop]
    split
    · exact reset 0
    · split
      · exact reset _
      · exact estimate

/-- One more drop is counted. -/
theorem Estimate.counted :
    NewtonCall.InRange { recInvSqrt := v.recInvSqrt, count := UInt32.add v.count 1 } ∧
      Estimate (counted v) := by
  have square : v.recInvSqrt ^ 2 ≤ 2 ^ 32 := Nat.pow_le_pow_left estimate.recInvSqrt.le 2
  have below := estimate.below
  have bounds := estimate.count
  have inRange : NewtonCall.InRange
      { recInvSqrt := v.recInvSqrt, count := UInt32.add v.count 1 } := by
    by_cases wraps : v.count + 1 = 2 ^ 32
    · have zero : UInt32.add v.count 1 = 0 := by rw [UInt32.add, wraps, Nat.mod_self]
      refine NewtonCall.inRange estimate.recInvSqrt ?_ fun _ => ?_
      · simp [zero]
      · -- the count was so large that the estimate can only be zero or one
        by_contra large
        have two : 2 ≤ v.recInvSqrt := Nat.not_le.mp large
        have four : 2 ^ 2 ≤ v.recInvSqrt ^ 2 := Nat.pow_le_pow_left two 2
        have product : v.count * 2 ^ 2 ≤ v.count * v.recInvSqrt ^ 2 := Nat.mul_le_mul_left _ four
        omega
    · have next : UInt32.add v.count 1 = v.count + 1 := UInt32.add_of_lt (by omega)
      refine NewtonCall.inRange estimate.recInvSqrt ?_ ?_
      · simp only [next, Nat.add_mul, Nat.one_mul]
        omega
      · simp [next]
  obtain ⟨small, bounded⟩ := inRange.step
  exact ⟨inRange, UInt32.add_lt _ _, estimate.lastCount, small, bounded⟩

/-- The drop rate of the last dropping state is resumed with no more drops than are counted. -/
theorem Estimate.resumes (resumes : Resumes c now v) :
    NewtonCall.InRange
        { recInvSqrt := v.recInvSqrt, count := UInt32.sub v.count v.lastCount } ∧
      Estimate (entered c now v (UInt32.sub v.count v.lastCount)
        (newtonStep v.recInvSqrt (UInt32.sub v.count v.lastCount))) := by
  obtain ⟨several, positive, -⟩ := resumes
  have lasts := estimate.lastCount
  have fewer : UInt32.sub v.count v.lastCount ≤ v.count := by
    -- a count that has wrapped below the last one gives a negative `delta`
    simp only [UInt32.sub] at positive ⊢
    omega
  have inRange : NewtonCall.InRange
      { recInvSqrt := v.recInvSqrt, count := UInt32.sub v.count v.lastCount } := by
    refine NewtonCall.inRange estimate.recInvSqrt ?_ ?_
    · have smaller := Nat.mul_le_mul_right (v.recInvSqrt ^ 2) fewer
      exact smaller.trans (estimate.below.trans (by decide))
    · intro zero
      simp only at zero
      omega
  obtain ⟨small, bounded⟩ := inRange.step
  exact ⟨inRange, positive.trans (by decide), positive, small, bounded⟩

/-- The calls are in range, and the variables keep the estimate. -/
structure Ranged (vars : Vars) (calls : List NewtonCall) : Prop where
  vars : Estimate vars
  calls : ∀ n ∈ calls, n.InRange

theorem Ranged.none : Ranged v [] :=
  ⟨estimate, nofun⟩

theorem Ranged.one {n : NewtonCall} (inRange : n.InRange) :
    Ranged v [n] :=
  ⟨estimate, fun _ mem => List.mem_singleton.mp mem ▸ inRange⟩

theorem Estimate.leave (dropping : Bool) (dropNext : Nat) :
    Estimate { v with dropping, dropNext } :=
  ⟨estimate.count, estimate.lastCount, estimate.recInvSqrt, estimate.below⟩

/-- The loop of the dropping state. -/
theorem dropLoopLogged_spec :
    (dropLoopLogged ops c now v item queue).1 = dropLoop ops c now v item queue ∧
      Ranged (dropLoopLogged ops c now v item queue).1.vars
        (dropLoopLogged ops c now v item queue).2 := by
  induction queue generalizing v item with
  | nil =>
    obtain ⟨inRange, next⟩ := estimate.counted
    rw [dropLoopLogged, dropLoop]
    cases markTarget ops c item.1 with
    | some marked => exact ⟨rfl, .one (next.leave _ _) inRange⟩
    | none => exact ⟨rfl, .one ((next.okToDrop none).leave _ _) inRange⟩
  | cons second queue ih =>
    obtain ⟨inRange, next⟩ := estimate.counted
    rw [dropLoopLogged, dropLoop]
    cases markTarget ops c item.1 with
    | some marked => exact ⟨rfl, .one (next.leave _ _) inRange⟩
    | none =>
      simp only
      generalize step : okToDrop ops c now
        { v with
          count := UInt32.add v.count 1
          recInvSqrt := newtonStep v.recInvSqrt (UInt32.add v.count 1) }
        (some second) queue = r
      have checked : Estimate r.2 := step ▸ next.okToDrop _
      split
      · exact ⟨rfl, .one (checked.leave _ _) inRange⟩
      · split
        · obtain ⟨same, rest⟩ := @ih _ second (checked.leave r.2.dropping
            (controlLaw r.2.dropNext (time2CoDel c.interval) r.2.recInvSqrt))
          refine ⟨by rw [← same], rest.vars, ?_⟩
          intro n mem
          rcases List.mem_cons.mp mem with rfl | mem
          · exact inRange
          · exact rest.calls n mem
        · exact ⟨rfl, .one (checked.leave _ _) inRange⟩

theorem enterVars_ranged : Ranged (enterVars c now v) (enterVarsCalls c now v) := by
  rw [enterVarsCalls]
  split
  case isTrue resumes =>
    obtain ⟨inRange, kept⟩ := estimate.resumes resumes
    rw [enterVars_resumes resumes]
    exact .one kept inRange
  case isFalse fresh =>
    rw [enterVars_fresh fresh]
    refine .none ⟨?_, ?_, ?_, ?_⟩ <;> simp only [entered] <;> decide

theorem enter_ranged :
    Ranged (enter ops c now v item queue).vars (enterCalls ops c now v item queue) := by
  have checked : Estimate (okToDrop ops c now v queue.head? queue.tail).2 := estimate.okToDrop _
  rw [enter, enterCalls]
  cases markTarget ops c item.1 with
  | some marked => exact enterVars_ranged estimate
  | none => exact enterVars_ranged checked

theorem examineLogged_spec :
    (examineLogged ops c now v item queue).1 = examine ops c now v item queue ∧
      Ranged (examineLogged ops c now v item queue).1.vars
        (examineLogged ops c now v item queue).2 := by
  rw [examineLogged, examine]
  generalize step : okToDrop ops c now v (some item) queue = r
  have checked : Estimate r.2 := step ▸ estimate.okToDrop _
  simp only
  split
  · split
    · exact ⟨rfl, .none (checked.leave _ _)⟩
    · split
      · exact dropLoopLogged_spec checked
      · exact ⟨rfl, .none checked⟩
  · split
    · exact ⟨rfl, enter_ranged checked⟩
    · exact ⟨rfl, .none checked⟩

end

end

section

variable {ι : Type} (ops : QueueDiscItemOps ι) (c : Config)

theorem finish_vars {now : Int} {s t : CoDelQueueDisc ι} {r : AtEnd ι}
    (returns : finish ops c now s r = some t) : t.vars = r.vars := by
  obtain ⟨item, -, last⟩ := bind_returns.mp returns
  cases last
  rfl

/-- A call keeps the estimate, and its calls of `NewtonStep` are in range. -/
theorem step_ranged {s : CoDelQueueDisc ι} (call : Call ι) (estimate : Estimate s.vars) :
    (∀ n ∈ newtonCalls ops c s call, n.InRange) ∧
      ∀ t, step ops c s call = some t → Estimate t.vars := by
  cases call with
  | enqueue now item =>
    refine ⟨fun n mem => absurd mem List.not_mem_nil, fun t returns => ?_⟩
    cases returns
    rw [doEnqueue]
    split
    · exact estimate
    · exact estimate
  | dequeue now =>
    rw [newtonCalls]
    simp only [step, doDequeue]
    cases s.queue with
    | nil =>
      refine ⟨fun n mem => absurd mem List.not_mem_nil, fun t returns => ?_⟩
      cases returns
      exact estimate.leave _ _
    | cons item queue =>
      simp only
      split
      · refine ⟨fun n mem => absurd mem List.not_mem_nil, fun t returns => ?_⟩
        cases returns
        exact estimate
      · obtain ⟨same, ranged⟩ : (examineLogged ops c now s.vars item queue).1 = _ ∧
          Ranged _ _ :=
          examineLogged_spec estimate
        refine ⟨ranged.calls, fun t returns => ?_⟩
        rw [finish_vars ops c returns, ← same]
        exact ranged.vars

/-- In every run, every call of `NewtonStep` stays in range. -/
theorem newtonStep_inRange (calls : List (Call ι)) :
    Run.Meets (step ops c) (fun s call => ∀ n ∈ newtonCalls ops c s call, n.InRange) {} calls := by
  refine Run.Meets.of_invariant (I := fun s => Estimate s.vars) (C := fun _ _ => True) ?_
    (Run.Meets.of_forall (fun _ _ => trivial) _ _) ?_ ?_
  · refine ⟨?_, ?_, ?_, ?_⟩ <;> simp only <;> decide
  · intro s call t estimate _ returns
    exact (step_ranged ops c call estimate).2 t returns
  · intro s call estimate _
    exact (step_ranged ops c call estimate).1

end

end Ns3.CoDelQueueDisc
