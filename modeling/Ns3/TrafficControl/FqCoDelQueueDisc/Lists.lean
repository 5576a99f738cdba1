import Ns3.TrafficControl.FqCoDelQueueDisc.Basic

/-!
# The lists of flows

Whatever `DoEnqueue` and `DoDequeue` do, the status of a flow says in which list it waits,
and a flow that holds packets waits. `DoDequeue` is a sequence of moves of single flows;
each takes a flow that is first in its list, so that what holds in a run is proved once for
every move.
-/

namespace Ns3.FqCoDelQueueDisc

open List Option

variable {q q' : FqCoDelQueueDisc} {i j : Nat} {flow : FqCoDelFlow} {rest : List Nat}

/-- The status of the flow of a class. -/
def statusOf (q : FqCoDelQueueDisc) (i : Nat) : Option FlowStatus := q.classes[i]?.map (·.status)

theorem statusOf_eq (here : q.classes[i]? = some flow) : q.statusOf i = some flow.status := by
  rw [statusOf, here, map_some]

theorem classes_update (here : q.classes[i]? = some flow) (flow' : FqCoDelFlow) (j : Nat) :
    (q.update i flow').classes[j]? = if j = i then some flow' else q.classes[j]? := by
  have inside : i < q.classes.length := (List.getElem?_eq_some_iff.mp here).1
  simp [update, getElem?_set, inside, eq_comm (a := i)]

theorem statusOf_update (here : q.classes[i]? = some flow) (flow' : FqCoDelFlow) (j : Nat) :
    (q.update i flow').statusOf j = if j = i then some flow'.status else q.statusOf j := by
  rw [statusOf, classes_update here]
  split
  · rfl
  · rfl

/-- The status of every flow says in which list it waits, and no flow that holds packets is
left out. -/
structure Listed (q : FqCoDelQueueDisc) : Prop where
  nodup : (q.newFlows ++ q.oldFlows).Nodup
  new : ∀ i, i ∈ q.newFlows ↔ q.statusOf i = some .newFlow
  old : ∀ i, i ∈ q.oldFlows ↔ q.statusOf i = some .oldFlow
  held : ∀ (i : Nat) (flow : FqCoDelFlow), q.classes[i]? = some flow → flow.queue ≠ [] →
    flow.status ≠ .inactive

/-- The bounds of the deficits of the flows that wait, for packets up to a size. -/
def Bounded (maxSize : Nat) (q : FqCoDelQueueDisc) : Prop :=
  ∀ (i : Nat) (flow : FqCoDelFlow), q.classes[i]? = some flow → flow.status ≠ .inactive →
    -(maxSize : Int) < flow.deficit ∧ flow.deficit ≤ q.quantum

/-- All packets that are held have at most this size. -/
def Sized (maxSize : Nat) (q : FqCoDelQueueDisc) : Prop :=
  ∀ flow ∈ q.classes, ∀ item ∈ flow.queue, item.size ≤ maxSize

/-- The state between calls. -/
structure Good (maxSize : Nat) (q : FqCoDelQueueDisc) : Prop extends Listed q where
  bounded : Bounded maxSize q
  sized : Sized maxSize q

/-! ## Moves of `DoDequeue` -/

/-- A move of the flow that is first in its list, with the bytes that are returned. -/
inductive Move : FqCoDelQueueDisc → Option (Nat × Nat) → FqCoDelQueueDisc → Prop where
  | turnNew {q : FqCoDelQueueDisc} {i : Nat} {rest : List Nat} {flow : FqCoDelFlow}
      (front : q.newFlows = i :: rest) (here : q.classes[i]? = some flow)
      (spent : flow.deficit ≤ 0) : Move q none (q.turnNew i rest flow)
  | turnOld {q : FqCoDelQueueDisc} {i : Nat} {rest : List Nat} {flow : FqCoDelFlow}
      (front : q.oldFlows = i :: rest) (here : q.classes[i]? = some flow)
      (spent : flow.deficit ≤ 0) : Move q none (q.turnOld i rest flow)
  | retireNew {q : FqCoDelQueueDisc} {i : Nat} {rest : List Nat} {flow : FqCoDelFlow}
      (front : q.newFlows = i :: rest) (here : q.classes[i]? = some flow) :
      Move q none (q.retire i flow)
  | retireOld {q : FqCoDelQueueDisc} {i : Nat} {rest : List Nat} {flow : FqCoDelFlow}
      (empty : q.newFlows = []) (front : q.oldFlows = i :: rest)
      (here : q.classes[i]? = some flow) : Move q none (q.retire i flow)
  | serve {q : FqCoDelQueueDisc} {i : Nat} {flow : FqCoDelFlow} {item : QueueDiscItem}
      {queue : List QueueDiscItem} (waits : flow.status ≠ .inactive)
      (here : q.classes[i]? = some flow) (more : 0 < flow.deficit)
      (holds : (item :: queue).Sublist flow.queue) :
      Move q (some (i, item.size)) (q.serve i flow item queue)

variable {flow' : FqCoDelFlow} {rounds : Nat}

theorem Listed.change (h : Listed q) (here : q.classes[i]? = some flow)
    (classes : q'.classes = (q.update i flow').classes)
    (nodup : (q'.newFlows ++ q'.oldFlows).Nodup)
    (new : ∀ j, j ∈ q'.newFlows ↔ if j = i then flow'.status = .newFlow else j ∈ q.newFlows)
    (old : ∀ j, j ∈ q'.oldFlows ↔ if j = i then flow'.status = .oldFlow else j ∈ q.oldFlows)
    (held : flow'.queue ≠ [] → flow'.status ≠ .inactive) : Listed q' := by
  have status (j : Nat) : q'.statusOf j = if j = i then some flow'.status else q.statusOf j := by
    rw [← statusOf_update here, statusOf, statusOf, classes]
  refine ⟨nodup, fun j => ?_, fun j => ?_, fun j other there => ?_⟩
  · rw [new, status]
    split
    · simp
    · exact h.new j
  · rw [old, status]
    split
    · simp
    · exact h.old j
  · rw [classes, classes_update here] at there
    split at there
    · cases there
      exact held
    · exact h.held j other there

theorem Listed.front_new (h : Listed q) (front : q.newFlows = i :: rest)
    (here : q.classes[i]? = some flow) : flow.status = .newFlow := by
  have status := (h.new i).mp (by rw [front]; exact mem_cons_self)
  rw [statusOf_eq here] at status
  exact some.inj status

theorem Listed.front_old (h : Listed q) (front : q.oldFlows = i :: rest)
    (here : q.classes[i]? = some flow) : flow.status = .oldFlow := by
  have status := (h.old i).mp (by rw [front]; exact mem_cons_self)
  rw [statusOf_eq here] at status
  exact some.inj status

theorem Listed.move {served : Option (Nat × Nat)} (h : Listed q) (move : Move q served q') :
    Listed q' := by
  have nodup := h.nodup
  cases move with
  | turnNew front here spent =>
    refine h.change here rfl ?_ (fun j => ?_) (fun j => ?_) (fun _ => nofun)
    all_goals simp only [turnNew, FqCoDelFlow.increaseDeficit, front]
    all_goals grind
  | turnOld front here spent =>
    have status := h.front_old front here
    refine h.change here rfl ?_ (fun j => ?_) (fun j => ?_) (fun _ => ?_)
    all_goals simp only [turnOld, FqCoDelFlow.increaseDeficit, front, status]
    all_goals grind [update]
  | retireNew front here =>
    have some_ : q.newFlows ≠ [] := by
      rw [front]
      exact cons_ne_nil _ _
    rw [retire, if_pos some_]
    refine h.change here rfl ?_ (fun j => ?_) (fun j => ?_) (fun _ => nofun)
    all_goals grind
  | retireOld empty front here =>
    rw [retire, if_neg (not_not.mpr empty)]
    refine h.change here rfl ?_ (fun j => ?_) (fun j => ?_) (fun some_ => absurd rfl some_)
    all_goals simp [front, update, empty]
    all_goals grind
  | serve waits here more holds =>
    refine h.change here rfl nodup (fun j => ?_) (fun j => ?_) (fun _ => waits)
    all_goals simp only [serve, FqCoDelFlow.increaseDeficit, update]
    · split
      case isTrue same => rw [same, h.new, statusOf_eq here, some.injEq]
      case isFalse => rfl
    · split
      case isTrue same => rw [same, h.old, statusOf_eq here, some.injEq]
      case isFalse => rfl

/-- Moves one after the other, with what is returned. -/
inductive Moves : FqCoDelQueueDisc → List (Nat × Nat) → FqCoDelQueueDisc → Prop where
  | refl (q : FqCoDelQueueDisc) : Moves q [] q
  | step {q r t : FqCoDelQueueDisc} {served : Option (Nat × Nat)} {later : List (Nat × Nat)}
      (move : Move q served r) (moves : Moves r later t) : Moves q (served.toList ++ later) t

variable {served : Option (Nat × Nat)} {first later : List (Nat × Nat)} {t : FqCoDelQueueDisc}

theorem Moves.trans (h : Moves q first q') (h' : Moves q' later t) : Moves q
    (first ++ later) t := by
  induction h with
  | refl => exact h'
  | step move _ ih =>
    rw [append_assoc]
    exact .step move (ih h')

theorem Move.moves (move : Move q served q') : Moves q served.toList q' := by
  have one := Moves.step move (.refl q')
  rwa [append_nil] at one

theorem Listed.moves (h : Listed q) (moves : Moves q first q') : Listed q' := by
  induction moves with
  | refl => exact h
  | step move _ ih => exact ih (h.move move)

/-! ## The functions are sequences of moves -/

/-- The first flow that has a deficit left. -/
structure Selected (q : FqCoDelQueueDisc) (i : Nat) (flow : FqCoDelFlow) : Prop where
  here : q.classes[i]? = some flow
  more : 0 < flow.deficit
  front : (∃ rest, q.newFlows = i :: rest) ∨ q.newFlows = [] ∧ ∃ rest, q.oldFlows = i :: rest

/-- What the loops found, if not that there is no flow. -/
def Finds (q : FqCoDelQueueDisc) (otherwise : Prop) : Option Nat → Prop
  | some i => ∃ flow, Selected q i flow
  | none => otherwise

theorem selectNew_moves {found : Option Nat} {waiting : List Nat} (front : q.newFlows = waiting)
    (run : selectNew waiting q = some (found, q')) :
    Moves q [] q' ∧ Finds q' (q'.newFlows = []) found := by
  induction waiting generalizing q with
  | nil =>
    simp only [selectNew, some.injEq, Prod.mk.injEq] at run
    obtain ⟨rfl, rfl⟩ := run
    exact ⟨.refl q, front⟩
  | cons i rest ih =>
    simp only [selectNew, bind_returns] at run
    obtain ⟨flow, here, run⟩ := run
    split at run
    case isTrue spent =>
      obtain ⟨moves, selected⟩ := ih rfl run
      exact ⟨(Move.turnNew front here spent).moves.trans moves, selected⟩
    case isFalse more =>
      simp only [some.injEq, Prod.mk.injEq] at run
      obtain ⟨rfl, rfl⟩ := run
      exact ⟨.refl q, flow, here, Int.not_le.mp more, .inl ⟨rest, front⟩⟩

theorem selectOld_moves {found : Option Nat} (empty : q.newFlows = [])
    (run : selectOld rounds q = some (found, q')) :
    Moves q [] q' ∧ Finds q' (q'.newFlows = [] ∧ q'.oldFlows = []) found := by
  induction rounds generalizing q with
  | zero => cases run
  | succ rounds ih =>
    rw [selectOld] at run
    split at run
    case h_1 none_ =>
      simp only [some.injEq, Prod.mk.injEq] at run
      obtain ⟨rfl, rfl⟩ := run
      exact ⟨.refl q, empty, none_⟩
    case h_2 i rest front =>
      simp only [bind_returns] at run
      obtain ⟨flow, here, run⟩ := run
      split at run
      case isTrue spent =>
        have still : (q.turnOld i rest flow).newFlows = [] := empty
        obtain ⟨moves, selected⟩ := ih still run
        exact ⟨(Move.turnOld front here spent).moves.trans moves, selected⟩
      case isFalse more =>
        simp only [some.injEq, Prod.mk.injEq] at run
        obtain ⟨rfl, rfl⟩ := run
        exact ⟨.refl q, flow, here, Int.not_le.mp more, .inr ⟨empty, rest, front⟩⟩

theorem select_moves {found : Option Nat}
    (run : select rounds q = some (found, q')) :
    Moves q [] q' ∧ Finds q' (q'.newFlows = [] ∧ q'.oldFlows = []) found := by
  simp only [select, bind_returns] at run
  obtain ⟨⟨new, r⟩, first, run⟩ := run
  obtain ⟨moves, selected⟩ := selectNew_moves rfl first
  cases new with
  | some i =>
    cases run
    exact ⟨moves, selected⟩
  | none =>
    obtain ⟨moves', selected'⟩ := selectOld_moves selected run
    exact ⟨moves.trans moves', selected'⟩

/-- What `DoDequeue` returned, in bytes. -/
def returned (found : Option (Nat × QueueDiscItem)) : List (Nat × Nat) :=
  (found.map fun p => (p.1, p.2.size)).toList

theorem Selected.waits (h : Selected q i flow) (listed : Listed q) : flow.status ≠ .inactive := by
  obtain ⟨rest, front⟩ | ⟨-, rest, front⟩ := h.front
  · rw [listed.front_new front h.here]
    exact nofun
  · rw [listed.front_old front h.here]
    exact nofun

theorem Selected.retire (h : Selected q i flow) : Move q none (q.retire i flow) := by
  obtain ⟨rest, front⟩ | ⟨empty, rest, front⟩ := h.front
  · exact .retireNew front h.here
  · exact .retireOld empty front h.here

theorem doDequeue_moves {found : Option (Nat × QueueDiscItem)} {drops : List Nat}
    (h : Listed q) (run : doDequeue rounds drops q = some (found, q')) :
    Moves q (returned found) q' ∧ (found = none → q'.newFlows = [] ∧ q'.oldFlows = []) := by
  induction rounds generalizing q drops with
  | zero => cases run
  | succ rounds ih =>
    simp only [doDequeue, bind_eq_bind, bind_eq_some_iff] at run
    obtain ⟨⟨selected, r⟩, selects, run⟩ := run
    obtain ⟨moves, found_⟩ := select_moves selects
    have listed := h.moves moves
    cases selected with
    | none =>
      cases run
      exact ⟨moves, fun _ => found_⟩
    | some i =>
      obtain ⟨flow, chosen⟩ := found_
      simp only [chosen.here, bind_some] at run
      split at run
      case h_1 =>
        obtain ⟨moves', last⟩ := ih (listed.move chosen.retire) run
        exact ⟨moves.trans (chosen.retire.moves.trans moves'), last⟩
      case h_2 item queue taken =>
        cases run
        refine ⟨moves.trans (Move.serve (chosen.waits listed) chosen.here chosen.more ?_).moves,
          nofun⟩
        rw [← taken]
        exact drop_sublist _ _

/-! ## `DoDequeue` terminates -/

/-- How often the deficit of a flow can be increased before it is positive, at most. -/
def need (q : FqCoDelQueueDisc) (i : Nat) : Nat :=
  match q.classes[i]? with
  | none => 0
  | some flow => (1 - flow.deficit).toNat

/-- The same for the flows of a list. -/
def needs (q : FqCoDelQueueDisc) (waiting : List Nat) : Nat := (waiting.map q.need).sum

/-- The moves that are left before a packet is returned, at most. -/
def measure (q : FqCoDelQueueDisc) : Nat :=
  q.needs q.newFlows + q.needs q.oldFlows + 2 * q.newFlows.length + q.oldFlows.length

@[simp] theorem needs_cons (q : FqCoDelQueueDisc) (i : Nat) (waiting : List Nat) :
    q.needs (i :: waiting) = q.need i + q.needs waiting := by
  rw [needs, map_cons, sum_cons, needs]

@[simp] theorem needs_concat (q : FqCoDelQueueDisc) (waiting : List Nat) (i : Nat) :
    q.needs (waiting ++ [i]) = q.needs waiting + q.need i := by
  rw [needs, map_append, sum_append, ← needs]
  simp

theorem need_eq (here : q.classes[i]? = some flow) : q.need i = (1 - flow.deficit).toNat := by
  rw [need, here]

theorem need_other (here : q.classes[i]? = some flow) {waiting : List Nat}
    (out : i ∉ waiting) : (q.update i flow').needs waiting = q.needs waiting := by
  refine congrArg List.sum (map_congr_left fun j mem => ?_)
  have other : j ≠ i := fun same => out (same ▸ mem)
  rw [need, need, classes_update here, if_neg other]

theorem need_self (here : q.classes[i]? = some flow) :
    (q.update i flow').need i = (1 - flow'.deficit).toNat := by
  rw [need, classes_update here, if_pos rfl]

theorem int32_quantum {quantum : Nat} (small : quantum < 2 ^ 31) :
    int32 (quantum : Int) = quantum := int32_of_bounds (by omega) (by omega)

theorem increaseDeficit_quantum {quantum maxSize : Nat} (pos : 0 < quantum)
    (small : quantum < 2 ^ 31)
    (size : maxSize < 2 ^ 31) (low : -(maxSize : Int) < flow.deficit) (spent : flow.deficit ≤ 0) :
    (flow.increaseDeficit quantum).deficit = flow.deficit + quantum := by
  rw [FqCoDelFlow.increaseDeficit, int32_quantum small]
  exact int32_of_bounds (by omega) (by omega)

theorem increaseDeficit_size (flow : FqCoDelFlow) {size maxSize quantum : Nat}
    (small : quantum < 2 ^ 31)
    (bound : maxSize < 2 ^ 31) (le : size ≤ maxSize) (more : 0 < flow.deficit)
    (high : flow.deficit ≤ quantum) :
    (flow.increaseDeficit (-(size : Int))).deficit = flow.deficit - size := by
  have amount : int32 (-(size : Int)) = -size := int32_of_bounds (by omega) (by omega)
  rw [FqCoDelFlow.increaseDeficit, amount]
  exact int32_of_bounds (by omega) (by omega)

variable {maxSize : Nat}

theorem Good.limits (h : Good maxSize q) (here : q.classes[i]? = some flow)
    (waits : flow.status ≠ .inactive) : -(maxSize : Int) < flow.deficit ∧
    flow.deficit ≤ q.quantum :=
  h.bounded i flow here waits

/-- Every move but the last takes something from the measure. -/
theorem Good.move_measure (h : Good maxSize q) (pos : 0 < q.quantum) (small : q.quantum < 2 ^ 31)
    (bound : maxSize < 2 ^ 31) (move : Move q none q') : measure q' < measure q := by
  have nodup := h.nodup
  cases move with
  | @turnNew i rest flow front here spent =>
    have waits : flow.status ≠ .inactive := by
      rw [h.front_new front here]
      exact nofun
    have deficit := increaseDeficit_quantum pos small bound (h.limits here waits).1 spent
    rw [front] at nodup
    rw [cons_append, nodup_cons, mem_append, not_or] at nodup
    have out := nodup.1
    have after : measure (q.turnNew i rest flow) =
        (q.update i { flow.increaseDeficit q.quantum with status := .oldFlow }).needs rest +
        (q.update i { flow.increaseDeficit q.quantum with status := .oldFlow }).needs
          (q.oldFlows ++ [i]) + 2 * rest.length + (q.oldFlows ++ [i]).length := rfl
    rw [after, needs_concat, need_other here out.1, need_other here out.2,
      need_self here, measure,
      front, needs_cons, need_eq here]
    simp only [length_append, length_cons, length_nil, deficit]
    omega
  | @turnOld i rest flow front here spent =>
    have waits : flow.status ≠ .inactive := by
      rw [h.front_old front here]
      exact nofun
    have deficit := increaseDeficit_quantum pos small bound (h.limits here waits).1 spent
    rw [front, nodup_append] at nodup
    have outNew : i ∉ q.newFlows := fun mem => nodup.2.2 i mem i mem_cons_self rfl
    have outRest := (nodup_cons.mp nodup.2.1).1
    have after : measure (q.turnOld i rest flow) =
        (q.update i (flow.increaseDeficit q.quantum)).needs q.newFlows +
        (q.update i (flow.increaseDeficit q.quantum)).needs (rest ++ [i]) +
          2 * q.newFlows.length + (rest ++ [i]).length := rfl
    rw [after, needs_concat, need_other here outNew, need_other here outRest, need_self here,
      measure, front, needs_cons, need_eq here, deficit]
    simp only [length_append, length_cons, length_nil]
    omega
  | @retireNew i rest flow front here =>
    rw [front] at nodup
    rw [cons_append, nodup_cons, mem_append, not_or] at nodup
    have out := nodup.1
    have some_ : q.newFlows ≠ [] := by
      rw [front]
      exact cons_ne_nil _ _
    have after : measure (q.retire i flow) =
        (q.update i { flow with status := .oldFlow, queue := [] }).needs rest +
        (q.update i { flow with status := .oldFlow, queue := [] }).needs (q.oldFlows ++ [i]) +
          2 * rest.length + (q.oldFlows ++ [i]).length := by
      rw [retire, if_pos some_, measure, front]
      rfl
    rw [after, needs_concat, need_other here out.1, need_other here out.2,
      need_self here, measure,
      front, needs_cons, need_eq here]
    simp only [length_append, length_cons, length_nil]
    omega
  | @retireOld i rest flow empty front here =>
    rw [front, nodup_append] at nodup
    have out := (nodup_cons.mp nodup.2.1).1
    have after : measure (q.retire i flow) =
        (q.update i { flow with status := .inactive, queue := [] }).needs [] +
        (q.update i { flow with status := .inactive, queue := [] }).needs rest +
          2 * ([] : List Nat).length + rest.length := by
      rw [retire, if_neg (not_not.mpr empty), measure, front]
      simp only [update, empty, tail_cons]
      rfl
    rw [after, need_other here out, measure, front, empty, needs_cons, length_cons]
    simp only [needs, map_nil, sum_nil]
    omega

theorem Good.change (h : Good maxSize q) (listed : Listed q') (here : q.classes[i]? = some flow)
    (classes : q'.classes = (q.update i flow').classes)
    (quantum : q'.quantum = q.quantum)
    (bounds : flow'.status ≠ .inactive →
      -(maxSize : Int) < flow'.deficit ∧ flow'.deficit ≤ q.quantum)
    (queue : flow'.queue.Sublist flow.queue) : Good maxSize q' := by
  refine ⟨listed, fun j other there => ?_, fun other mem item holds => ?_⟩
  · rw [classes, classes_update here] at there
    rw [quantum]
    split at there
    · cases there
      exact bounds
    · exact h.bounded j other there
  · rw [classes] at mem
    obtain old | rfl := mem_or_eq_of_mem_set mem
    · exact h.sized other old item holds
    · exact h.sized flow (mem_of_getElem? here) item (queue.subset holds)

theorem Move.quantum (move : Move q served q') : q'.quantum = q.quantum := by
  cases move with
  | turnNew => rfl
  | turnOld => rfl
  | retireNew =>
    rw [retire]
    split <;> rfl
  | retireOld =>
    rw [retire]
    split <;> rfl
  | serve => rfl

theorem Good.move (h : Good maxSize q) (pos : 0 < q.quantum) (small : q.quantum < 2 ^ 31)
    (bound : maxSize < 2 ^ 31) (move : Move q served q') : Good maxSize q' := by
  have listed := h.toListed.move move
  cases move with
  | @turnNew i rest flow front here spent =>
    have waits : flow.status ≠ .inactive := by
      rw [h.front_new front here]
      exact nofun
    have low := (h.limits here waits).1
    have deficit := increaseDeficit_quantum pos small bound low spent
    refine h.change listed here rfl rfl (fun _ => ?_) (.refl _)
    simp only [deficit]
    omega
  | @turnOld i rest flow front here spent =>
    have waits : flow.status ≠ .inactive := by
      rw [h.front_old front here]
      exact nofun
    have low := (h.limits here waits).1
    have deficit := increaseDeficit_quantum pos small bound low spent
    refine h.change listed here rfl rfl (fun _ => ?_) (.refl _)
    omega
  | @retireNew i rest flow front here =>
    have waits : flow.status ≠ .inactive := by
      rw [h.front_new front here]
      exact nofun
    have some_ : q.newFlows ≠ [] := by
      rw [front]
      exact cons_ne_nil _ _
    rw [retire, if_pos some_] at listed ⊢
    have limits := h.limits here waits
    exact h.change listed here rfl rfl (fun _ => limits) (nil_sublist _)
  | @retireOld i rest flow empty front here =>
    rw [retire, if_neg (not_not.mpr empty)] at listed ⊢
    exact h.change listed here rfl rfl (fun active => absurd rfl active) (nil_sublist _)
  | @serve i flow item queue waits here more holds =>
    have size := h.sized flow (mem_of_getElem? here) item (holds.subset mem_cons_self)
    have high := (h.limits here waits).2
    have deficit := increaseDeficit_size { flow with queue } small bound size more high
    refine h.change listed here rfl rfl (fun _ => ?_)
      ((sublist_cons_self item queue).trans holds)
    rw [deficit]
    simp only
    omega

theorem Good.moves (h : Good maxSize q) (pos : 0 < q.quantum) (small : q.quantum < 2 ^ 31)
    (bound : maxSize < 2 ^ 31) (moves : Moves q first q') :
    Good maxSize q' ∧ q'.quantum = q.quantum := by
  induction moves with
  | refl => exact ⟨h, rfl⟩
  | step move _ ih =>
    have same := move.quantum
    obtain ⟨good, quantum⟩ := ih (h.move pos small bound move) (same ▸ pos) (same ▸ small)
    exact ⟨good, quantum.trans same⟩

theorem Listed.class_of_new (h : Listed q) (mem : i ∈ q.newFlows) :
    ∃ flow, q.classes[i]? = some flow := by
  have status := (h.new i).mp mem
  rw [statusOf, map_eq_some_iff] at status
  obtain ⟨flow, here, -⟩ := status
  exact ⟨flow, here⟩

theorem Listed.class_of_old (h : Listed q) (mem : i ∈ q.oldFlows) :
    ∃ flow, q.classes[i]? = some flow := by
  have status := (h.old i).mp mem
  rw [statusOf, map_eq_some_iff] at status
  obtain ⟨flow, here, -⟩ := status
  exact ⟨flow, here⟩

theorem Good.selectNew (h : Good maxSize q) (pos : 0 < q.quantum) (small : q.quantum < 2 ^ 31)
    (bound : maxSize < 2 ^ 31) {waiting : List Nat} (front : q.newFlows = waiting) :
    ∃ found q', selectNew waiting q = some (found, q') ∧ Good maxSize q' ∧
      q'.quantum = q.quantum ∧ measure q' ≤ measure q ∧ (found = none → q'.newFlows = []) := by
  induction waiting generalizing q with
  | nil => exact ⟨none, q, rfl, h, rfl, Nat.le_refl _, fun _ => front⟩
  | cons i rest ih =>
    obtain ⟨flow, here⟩ := h.class_of_new (front ▸ mem_cons_self)
    by_cases spent : flow.deficit ≤ 0
    · have move := Move.turnNew front here spent
      have less := h.move_measure pos small bound move
      obtain ⟨found, q', run, good, same, le, last⟩ :=
        ih (h.move pos small bound move) pos small rfl
      refine ⟨found, q', ?_, good, same, Nat.le_trans le (Nat.le_of_lt less), last⟩
      simp [FqCoDelQueueDisc.selectNew, here, if_pos spent, run]
    · refine ⟨some i, q, ?_, h, rfl, Nat.le_refl _, nofun⟩
      simp [FqCoDelQueueDisc.selectNew, here, if_neg spent]

theorem Good.selectOld (h : Good maxSize q) (pos : 0 < q.quantum) (small : q.quantum < 2 ^ 31)
    (bound : maxSize < 2 ^ 31) (empty : q.newFlows = [])
    (enough : measure q < rounds) :
    ∃ found q', selectOld rounds q = some (found, q') ∧ Good maxSize q' ∧
      q'.quantum = q.quantum ∧ measure q' ≤ measure q := by
  induction rounds generalizing q with
  | zero => cases enough
  | succ rounds ih =>
    rw [FqCoDelQueueDisc.selectOld]
    split
    case h_1 => exact ⟨none, q, rfl, h, rfl, Nat.le_refl _⟩
    case h_2 i rest front =>
      obtain ⟨flow, here⟩ := h.class_of_old (front ▸ mem_cons_self)
      by_cases spent : flow.deficit ≤ 0
      · have move := Move.turnOld front here spent
        have less := h.move_measure pos small bound move
        have still : (q.turnOld i rest flow).newFlows = [] := empty
        obtain ⟨found, q', run, good, same, le⟩ :=
          ih (h.move pos small bound move) pos small still (by omega)
        refine ⟨found, q', ?_, good, same, Nat.le_trans le (Nat.le_of_lt less)⟩
        simp [here, if_pos spent, run]
      · refine ⟨some i, q, ?_, h, rfl, Nat.le_refl _⟩
        simp [here, if_neg spent]

theorem Good.select (h : Good maxSize q) (pos : 0 < q.quantum) (small : q.quantum < 2 ^ 31)
    (bound : maxSize < 2 ^ 31) (enough : measure q < rounds) :
    ∃ found q', select rounds q = some (found, q') ∧ Good maxSize q' ∧
      q'.quantum = q.quantum ∧ measure q' ≤ measure q := by
  obtain ⟨found, r, run, good, same, le, last⟩ := h.selectNew pos small bound rfl
  cases found with
  | some i => exact ⟨some i, r, by rw [FqCoDelQueueDisc.select, run]; rfl, good, same, le⟩
  | none =>
    obtain ⟨found, q', run', good', same', le'⟩ :=
      good.selectOld (same ▸ pos) (same ▸ small) bound (last rfl) (Nat.lt_of_le_of_lt le enough)
    exact ⟨found, q', by rw [FqCoDelQueueDisc.select, run]; exact run', good', same'.trans same,
      Nat.le_trans le' le⟩

/-- Enough rounds are enough. -/
theorem Good.doDequeue (h : Good maxSize q) (pos : 0 < q.quantum) (small : q.quantum < 2 ^ 31)
    (bound : maxSize < 2 ^ 31) (enough : measure q < rounds) (drops : List Nat) :
    ∃ found q', doDequeue rounds drops q = some (found, q') := by
  induction rounds generalizing q drops with
  | zero => cases enough
  | succ rounds ih =>
    obtain ⟨found, r, run, good, same, le⟩ := h.select pos small bound enough
    obtain ⟨-, finds⟩ := select_moves run
    simp only [FqCoDelQueueDisc.doDequeue, run, bind_eq_bind, bind_some]
    cases found with
    | none => exact ⟨none, r, rfl⟩
    | some i =>
      obtain ⟨flow, chosen⟩ := finds
      simp only [chosen.here, bind_some]
      split
      case h_1 =>
        have less := good.move_measure (same ▸ pos) (same ▸ small) bound chosen.retire
        have quantum := chosen.retire.quantum.trans same
        exact ih (good.move (same ▸ pos) (same ▸ small) bound chosen.retire) (quantum ▸ pos)
          (quantum ▸ small) (by omega) drops.tail
      case h_2 item queue taken => exact ⟨_, _, rfl⟩

/-! ## `DoEnqueue` -/

/-- The old flows stay as they are, up to their packets. -/
structure Keeps (q q' : FqCoDelQueueDisc) : Prop where
  quantum : q'.quantum = q.quantum
  old : q'.oldFlows = q.oldFlows
  deficit : ∀ (i : Nat) (flow : FqCoDelFlow), q.classes[i]? = some flow → flow.status = .oldFlow →
    ∃ flow', q'.classes[i]? = some flow' ∧ flow'.status = .oldFlow ∧ flow'.deficit = flow.deficit

theorem Keeps.refl (q : FqCoDelQueueDisc) : Keeps q q :=
  ⟨rfl, rfl, fun _ flow here status => ⟨flow, here, status, rfl⟩⟩

theorem Keeps.trans (h : Keeps q q') (h' : Keeps q' t) : Keeps q t := by
  refine ⟨h'.quantum.trans h.quantum, h'.old.trans h.old, fun i flow here status => ?_⟩
  obtain ⟨flow', here', status', same⟩ := h.deficit i flow here status
  obtain ⟨flow'', here'', status'', same'⟩ := h'.deficit i flow' here' status'
  exact ⟨flow'', here'', status'', same'.trans same⟩

theorem keeps_update (here : q.classes[i]? = some flow)
    (classes : q'.classes = (q.update i flow').classes) (quantum : q'.quantum = q.quantum)
    (old : q'.oldFlows = q.oldFlows)
    (deficit : flow.status = .oldFlow → flow'.status = .oldFlow ∧ flow'.deficit = flow.deficit) :
    Keeps q q' := by
  refine ⟨quantum, old, fun j other there status => ?_⟩
  rw [classes, classes_update here]
  split
  case isTrue same =>
    subst same
    obtain rfl := some.inj (there.symm.trans here)
    exact ⟨flow', rfl, deficit status⟩
  case isFalse => exact ⟨other, there, status, rfl⟩

theorem Good.queueIndex (h : Good maxSize q) {flowHash index : Nat}
    (run : queueIndex flowHash q = some (index, q')) : Good maxSize q' ∧ Keeps q q' := by
  rw [FqCoDelQueueDisc.queueIndex] at run
  split at run
  · rw [setAssociativeHash] at run
    split at run
    · cases run
    · cases run
      exact ⟨⟨⟨h.nodup, h.new, h.old, h.held⟩, h.bounded, h.sized⟩, rfl, rfl,
        (Keeps.refl q).deficit⟩
  · split at run
    · cases run
    · cases run
      exact ⟨h, .refl q⟩

/-- A new class is an inactive flow without packets. -/
theorem Good.flowAt (h : Good maxSize q) (index : Nat) :
    Good maxSize (flowAt index q).2 ∧ Keeps q (flowAt index q).2 := by
  rw [FqCoDelQueueDisc.flowAt]
  split
  case h_1 => exact ⟨h, .refl q⟩
  case h_2 =>
    have classes (j : Nat) : (q.classes ++ [({ index } : FqCoDelFlow)])[j]? =
        if j < q.classes.length then q.classes[j]?
        else if j = q.classes.length then some { index } else none := by
      grind
    have status (j : Nat) (waits : FlowStatus) (active : waits ≠ .inactive) :
        ((q.classes ++ [({ index } : FqCoDelFlow)])[j]?.map (·.status) = some waits) ↔
          q.statusOf j = some waits := by
      rw [classes, statusOf]
      grind
    refine ⟨⟨⟨h.nodup, fun j => ?_, fun j => ?_, fun j flow here => ?_⟩, fun j flow here => ?_,
      fun flow mem => ?_⟩, rfl, rfl, fun j flow here status => ?_⟩
    · exact (h.new j).trans (status j .newFlow nofun).symm
    · exact (h.old j).trans (status j .oldFlow nofun).symm
    · rw [classes] at here
      split at here
      · exact h.held j flow here
      · split at here
        · cases here
          exact fun some_ => absurd rfl some_
        · cases here
    · rw [classes] at here
      split at here
      · exact h.bounded j flow here
      · split at here
        · cases here
          exact fun active => absurd rfl active
        · cases here
    · obtain old | new := mem_append.mp mem
      · exact h.sized flow old
      · rw [mem_singleton.mp new]
        exact nofun
    · refine ⟨flow, ?_, status, rfl⟩
      rw [getElem?_append_left (List.getElem?_eq_some_iff.mp here).1]
      exact here

theorem awake_spec (flow : FqCoDelFlow) {quantum : Nat} (small : quantum < 2 ^ 31) :
    ({ flow.setDeficit quantum with status := .newFlow } : FqCoDelFlow).status = .newFlow ∧
      ({ flow.setDeficit quantum with status := .newFlow } : FqCoDelFlow).queue = flow.queue ∧
      ({ flow.setDeficit quantum with status := .newFlow } : FqCoDelFlow).deficit = quantum := by
  have amount := int32_quantum small
  simp [FqCoDelFlow.setDeficit, amount]

/-- The selected flow waits, once it is activated. -/
theorem Good.activate (h : Good maxSize q) (pos : 0 < q.quantum) (small : q.quantum < 2 ^ 31)
    (here : q.classes[i]? = some flow) :
    Good maxSize (activate i flow q) ∧ Keeps q (activate i flow q) ∧
      ∃ flow', (activate i flow q).classes[i]? = some flow' ∧ flow'.status ≠ .inactive := by
  rw [FqCoDelQueueDisc.activate]
  split
  case isTrue asleep =>
    have nodup := h.nodup
    have status := statusOf_eq here
    rw [asleep] at status
    have outNew : i ∉ q.newFlows := fun mem => by
      rw [h.new, status] at mem
      cases mem
    have outOld : i ∉ q.oldFlows := fun mem => by
      rw [h.old, status] at mem
      cases mem
    obtain ⟨status', queue', deficit'⟩ := awake_spec flow small
    generalize ({ flow.setDeficit q.quantum with status := .newFlow } : FqCoDelFlow) = flow'
      at status' queue' deficit' ⊢
    have listed : Listed { q.update i flow' with newFlows := q.newFlows ++ [i] } := by
      refine h.toListed.change here rfl ?_ (fun j => ?_) (fun j => ?_)
        (fun _ => by rw [status']; exact nofun)
      all_goals simp only [update, status']
      all_goals grind
    refine ⟨h.change listed here rfl rfl (fun _ => ?_) (queue' ▸ .refl _),
      keeps_update here rfl rfl rfl ?_, flow', ?_, by rw [status']; exact nofun⟩
    · rw [deficit']
      omega
    · intro old
      rw [asleep] at old
      cases old
    · exact (classes_update here flow' i).trans (if_pos rfl)
  case isFalse awake => exact ⟨h, .refl q, flow, here, awake⟩

theorem dropLoop_sublist {dropBatchSize threshold count len : Nat}
    {queue queue' : List QueueDiscItem}
    (run : dropLoop dropBatchSize threshold count len queue = some queue') :
    queue'.Sublist queue := by
  induction queue generalizing count len with
  | nil => cases run
  | cons item queue ih =>
    simp only [dropLoop] at run
    split at run
    · exact (ih run).cons item
    · obtain rfl := some.inj run
      exact sublist_cons_self item queue

theorem Good.fqCoDelDrop (h : Good maxSize q) (run : fqCoDelDrop q = some q') :
    Good maxSize q' ∧ Keeps q q' := by
  simp only [FqCoDelQueueDisc.fqCoDelDrop, bind_returns, pure_returns] at run
  obtain ⟨flow, here, queue, drops, rfl⟩ := run
  generalize (fatFlow 0 (0, 0) q.classes).2 = i at here
  have part := dropLoop_sublist drops
  have status := statusOf_eq here
  have held (some_ : queue ≠ []) : flow.status ≠ .inactive := by
    refine h.held i flow here fun none_ => some_ ?_
    rw [none_] at part
    exact sublist_nil.mp part
  have listed : Listed (q.update i { flow with queue }) := by
    refine h.toListed.change here rfl h.nodup (fun j => ?_) (fun j => ?_) held
    · split
      case isTrue same => rw [same, update, h.new, status, some.injEq]
      case isFalse => rfl
    · split
      case isTrue same => rw [same, update, h.old, status, some.injEq]
      case isFalse => rfl
  have limits := h.bounded i flow here
  exact ⟨h.change listed here rfl rfl limits part, keeps_update here rfl rfl rfl fun old =>
    ⟨old, rfl⟩⟩

/-- The packet goes into the queue of a flow that waits. -/
theorem Good.store (h : Good maxSize q) (here : q.classes[i]? = some flow)
    (waits : flow.status ≠ .inactive) {item : QueueDiscItem} (size : item.size ≤ maxSize) :
    Good maxSize (q.update i { flow with queue := flow.queue ++ [item] }) ∧
      Keeps q (q.update i { flow with queue := flow.queue ++ [item] }) := by
  have status := statusOf_eq here
  have listed : Listed (q.update i { flow with queue := flow.queue ++ [item] }) := by
    refine h.toListed.change here rfl h.nodup (fun j => ?_) (fun j => ?_) (fun _ => waits)
    · split
      case isTrue same => rw [same, update, h.new, status, some.injEq]
      case isFalse => rfl
    · split
      case isTrue same => rw [same, update, h.old, status, some.injEq]
      case isFalse => rfl
  refine ⟨⟨listed, fun j other there => ?_, fun other mem packet holds => ?_⟩,
    keeps_update here rfl rfl rfl fun old => ⟨old, rfl⟩⟩
  · rw [classes_update here] at there
    split at there
    · cases there
      have limits := h.limits here waits
      exact fun _ => limits
    · exact h.bounded j other there
  · obtain old | rfl := mem_or_eq_of_mem_set mem
    · exact h.sized other old packet holds
    · obtain old | new := mem_append.mp holds
      · exact h.sized flow (mem_of_getElem? here) packet old
      · rw [mem_singleton.mp new]
        exact size

/-- `DoEnqueue` keeps the state good, and the old flows as they are. -/
theorem Good.doEnqueue (h : Good maxSize q) (pos : 0 < q.quantum) (small : q.quantum < 2 ^ 31)
    {item : QueueDiscItem} (size : item.size ≤ maxSize) {flowHash : Option Nat}
    {stored overload : Bool} (run : doEnqueue item flowHash stored overload q = some q') :
    Good maxSize q' ∧ Keeps q q' := by
  cases flowHash with
  | none =>
    cases run
    exact ⟨h, .refl q⟩
  | some flowHash =>
    simp only [FqCoDelQueueDisc.doEnqueue, bind_returns] at run
    obtain ⟨⟨index, q₁⟩, indexes, flow, here, flow', here', run⟩ := run
    obtain ⟨good₁, keeps₁⟩ := h.queueIndex indexes
    obtain ⟨good₂, keeps₂⟩ := good₁.flowAt index
    generalize (FqCoDelQueueDisc.flowAt index q₁).2 = q₂ at good₂ keeps₂ here here' run
    have keeps := keeps₁.trans keeps₂
    have pos₂ : 0 < q₂.quantum := keeps.quantum ▸ pos
    have small₂ : q₂.quantum < 2 ^ 31 := keeps.quantum ▸ small
    obtain ⟨good₃, keeps₃, awake, here'', waits⟩ := good₂.activate pos₂ small₂ here
    obtain rfl := some.inj (here''.symm.trans here')
    have keeps := keeps.trans keeps₃
    have last {q₃ : FqCoDelQueueDisc} (good : Good maxSize q₃) (keeps : Keeps q q₃)
        (run : (if overload = true then FqCoDelQueueDisc.fqCoDelDrop q₃ else some q₃) = some q') :
        Good maxSize q' ∧ Keeps q q' := by
      split at run
      · obtain ⟨good', keeps'⟩ := good.fqCoDelDrop run
        exact ⟨good', keeps.trans keeps'⟩
      · cases run
        exact ⟨good, keeps⟩
    cases stored with
    | true =>
      obtain ⟨good₄, keeps₄⟩ := good₃.store here' waits size
      exact last good₄ (keeps.trans keeps₄) run
    | false => exact last good₃ keeps run

/-! ## Runs -/

/-- The states of a queue disc whose packets have at most this size, under any interleaving
of the two calls. -/
inductive Reachable (maxSize : Nat) (start : FqCoDelQueueDisc) : FqCoDelQueueDisc → Prop where
  | start : Reachable maxSize start start
  | enqueue {q q' : FqCoDelQueueDisc} {item : QueueDiscItem} {flowHash : Option Nat}
      {stored overload : Bool} (reached : Reachable maxSize start q) (size : item.size ≤ maxSize)
      (run : doEnqueue item flowHash stored overload q = some q') : Reachable maxSize start q'
  | dequeue {q q' : FqCoDelQueueDisc} {rounds : Nat} {drops : List Nat}
      {found : Option (Nat × QueueDiscItem)} (reached : Reachable maxSize start q)
      (run : doDequeue rounds drops q = some (found, q')) : Reachable maxSize start q'

/-- A queue disc without flows yet. -/
structure IsNew (q : FqCoDelQueueDisc) : Prop where
  classes : q.classes = []
  newFlows : q.newFlows = []
  oldFlows : q.oldFlows = []

theorem IsNew.good (h : IsNew q) (maxSize : Nat) : Good maxSize q := by
  have none_ (j : Nat) : q.classes[j]? = none := by rw [h.classes, getElem?_nil]
  refine ⟨⟨?_, fun j => ?_, fun j => ?_, fun j flow here => ?_⟩, fun j flow here => ?_,
    fun flow mem => ?_⟩
  · rw [h.newFlows, h.oldFlows]
    exact nodup_nil
  · rw [h.newFlows, statusOf, none_]
    simp
  · rw [h.oldFlows, statusOf, none_]
    simp
  · rw [none_] at here
    cases here
  · rw [none_] at here
    cases here
  · rw [h.classes] at mem
    cases mem

theorem Reachable.good {start : FqCoDelQueueDisc} (new : IsNew start) (pos : 0 < start.quantum)
    (small : start.quantum < 2 ^ 31) (bound : maxSize < 2 ^ 31)
    (reached : Reachable maxSize start q) : Good maxSize q ∧ q.quantum = start.quantum := by
  induction reached with
  | start => exact ⟨new.good maxSize, rfl⟩
  | enqueue _ size run ih =>
    obtain ⟨good, same⟩ := ih
    obtain ⟨good', keeps⟩ := good.doEnqueue (same ▸ pos) (same ▸ small) size run
    exact ⟨good', keeps.quantum.trans same⟩
  | dequeue _ run ih =>
    obtain ⟨good, same⟩ := ih
    obtain ⟨moves, -⟩ := doDequeue_moves good.toListed run
    obtain ⟨good', same'⟩ := good.moves (same ▸ pos) (same ▸ small) bound moves
    exact ⟨good', same'.trans same⟩

theorem Listed.empty (h : Listed q) (new : q.newFlows = []) (old : q.oldFlows = []) :
    ∀ flow ∈ q.classes, flow.queue = [] := by
  intro flow mem
  obtain ⟨i, here⟩ := getElem?_of_mem mem
  by_contra some_
  have active := h.held i flow here some_
  have status := statusOf_eq here
  cases waits : flow.status with
  | inactive => exact active waits
  | newFlow =>
    rw [waits, ← h.new, new] at status
    cases status
  | oldFlow =>
    rw [waits, ← h.old, old] at status
    cases status

/-- In every state that is reached the lists and the statuses agree, no flow that holds
packets is left out, and `DoDequeue` returns; it returns no packet only if none is left. -/
theorem flows_listed (start : FqCoDelQueueDisc) (new : IsNew start) (pos : 0 < start.quantum)
    (small : start.quantum < 2 ^ 31) (maxSize : Nat) (bound : maxSize < 2 ^ 31)
    (reached : Reachable maxSize start q) :
    Listed q ∧ (∃ enough, ∀ rounds drops, enough < rounds →
        ∃ found q', doDequeue rounds drops q = some (found, q')) ∧
      ∀ rounds drops q', doDequeue rounds drops q = some (none, q') →
        ∀ flow ∈ q'.classes, flow.queue = [] := by
  obtain ⟨good, same⟩ := reached.good new pos small bound
  refine ⟨good.toListed, ⟨measure q, fun rounds drops enough => ?_⟩, fun rounds drops q' run => ?_⟩
  · exact good.doDequeue (same ▸ pos) (same ▸ small) bound enough drops
  · obtain ⟨moves, last⟩ := doDequeue_moves good.toListed run
    obtain ⟨new, old⟩ := last rfl
    exact (good.toListed.moves moves).empty new old

/-- After a packet of a new flow, with the set associative hash. -/
theorem flows_listed_first :
    ∃ q, doEnqueue ⟨0, 1000⟩ (some 5) true false
        { quantum := 1514, flows := 16, enableSetAssociativeHash := true } = some q ∧
      Listed q ∧ (∃ enough, ∀ rounds drops, enough < rounds →
        ∃ found q', doDequeue rounds drops q = some (found, q')) ∧
      ∀ rounds drops q', doDequeue rounds drops q = some (none, q') →
        ∀ flow ∈ q'.classes, flow.queue = [] := by
  refine ⟨_, rfl, ?_⟩
  exact flows_listed { quantum := 1514, flows := 16, enableSetAssociativeHash := true }
    ⟨rfl, rfl, rfl⟩ (by decide) (by decide) 1500 (by decide)
    (@Reachable.enqueue 1500 _ _ _ ⟨0, 1000⟩ (some 5) true false .start (by decide) rfl)

end Ns3.FqCoDelQueueDisc
