import Ns3.TrafficControl.QueueDisc.Basic

/-!
# The FqCoDel queue disc

Packets are classified into flows, each with a queue disc of its own. Flows that hold
packets wait in one of two lists, and are served in turn as long as their deficit is
positive; a flow without deficit gets another quantum and moves to the end of the old flows.

The children may drop packets: what CoDel decides is part of a call, and so is whether the
current size exceeds the maximum, which the base class counts.
-/

namespace Ns3

/-- `FqCoDelFlow::FlowStatus`. -/
inductive FlowStatus where
  | inactive
  | newFlow
  | oldFlow
  deriving DecidableEq

/-- `FqCoDelFlow`, with the packets of its queue disc. -/
structure FqCoDelFlow where
  deficit : Int := 0
  status : FlowStatus := .inactive
  index : Nat := 0
  queue : List QueueDiscItem := []
  deriving DecidableEq

/-- `SetDeficit`. -/
def FqCoDelFlow.setDeficit (deficit : Nat) (flow : FqCoDelFlow) : FqCoDelFlow :=
  { flow with deficit := int32 deficit }

/-- `IncreaseDeficit`. -/
def FqCoDelFlow.increaseDeficit (deficit : Int) (flow : FqCoDelFlow) : FqCoDelFlow :=
  { flow with deficit := int32 (flow.deficit + int32 deficit) }

/-- `GetNBytes` of the queue disc of a flow. -/
def FqCoDelFlow.nBytes (flow : FqCoDelFlow) : Nat := (flow.queue.map (·.size)).sum % 2 ^ 32

/-- `FqCoDelQueueDisc`. A flow is named by the number of its class. -/
structure FqCoDelQueueDisc where
  quantum : Nat
  flows : Nat
  setWays : Nat := 8
  dropBatchSize : Nat := 64
  enableSetAssociativeHash : Bool := false
  classes : List FqCoDelFlow := []
  flowsIndices : Nat → Option Nat := fun _ => none
  tags : Nat → Option Nat := fun _ => none
  newFlows : List Nat := []
  oldFlows : List Nat := []

namespace FqCoDelQueueDisc

/-! ## `DoEnqueue` -/

/-- The queue has not been created, is associated with this flow or is inactive. -/
def usable (flowHash : Nat) (q : FqCoDelQueueDisc) (i : Nat) : Bool :=
  match q.flowsIndices i with
  | none => true
  | some c => q.tags i == some flowHash ||
      (match q.classes[c]? with
      | none => false
      | some flow => flow.status == .inactive)

/-- `SetAssociativeHash`: the first usable queue of the set, or else the first one. -/
def setAssociativeHash (flowHash : Nat) (q : FqCoDelQueueDisc) : Option (Nat × FqCoDelQueueDisc) :=
  if q.flows = 0 ∨ q.setWays = 0 then none
  else
    let h := flowHash % q.flows
    let innerHash := h % q.setWays
    let outerHash := h - innerHash
    let i := ((List.range' outerHash q.setWays).find? (usable flowHash q)).getD outerHash
    some (i, { q with tags := Function.update q.tags i (some flowHash) })

/-- The index of the queue of a flow. -/
def queueIndex (flowHash : Nat) (q : FqCoDelQueueDisc) : Option (Nat × FqCoDelQueueDisc) :=
  if q.enableSetAssociativeHash then setAssociativeHash flowHash q
  else if q.flows = 0 then none else some (flowHash % q.flows, q)

/-- The class of a queue, created if there is none. -/
def flowAt (h : Nat) (q : FqCoDelQueueDisc) : Nat × FqCoDelQueueDisc :=
  match q.flowsIndices h with
  | some c => (c, q)
  | none => (q.classes.length, { q with
      classes := q.classes ++ [{ index := h }]
      flowsIndices := Function.update q.flowsIndices h (some q.classes.length) })

/-- The flow of a class is replaced. -/
def update (i : Nat) (flow : FqCoDelFlow) (q : FqCoDelQueueDisc) : FqCoDelQueueDisc :=
  { q with classes := q.classes.set i flow }

/-- An inactive flow becomes a new one. -/
def activate (i : Nat) (flow : FqCoDelFlow) (q : FqCoDelQueueDisc) : FqCoDelQueueDisc :=
  if flow.status = .inactive then
    { q.update i { flow.setDeficit q.quantum with status := .newFlow } with
      newFlows := q.newFlows ++ [i] }
  else q

/-- The fat flow, with its backlog. -/
def fatFlow : Nat → Nat × Nat → List FqCoDelFlow → Nat × Nat
  | _, found, [] => found
  | i, (maxBacklog, index), flow :: flows =>
    fatFlow (i + 1)
      (if maxBacklog < flow.nBytes then (flow.nBytes, i) else (maxBacklog, index)) flows

/-- The loop of `FqCoDelDrop`. There is no check that the queue returned a packet. -/
def dropLoop (dropBatchSize threshold : Nat) : Nat → Nat → List QueueDiscItem →
    Option (List QueueDiscItem)
  | _, _, [] => none
  | count, len, item :: queue =>
    let len := UInt32.add len item.size
    let count := UInt32.add count 1
    if count < dropBatchSize ∧
      len < threshold then dropLoop dropBatchSize threshold count len queue
    else some queue

/-- `FqCoDelDrop`. -/
def fqCoDelDrop (q : FqCoDelQueueDisc) : Option FqCoDelQueueDisc := do
  let (maxBacklog, index) := fatFlow 0 (0, 0) q.classes
  let flow ← q.classes[index]?
  let queue ← dropLoop q.dropBatchSize (maxBacklog / 2) 0 0 flow.queue
  return q.update index { flow with queue }

/-- `DoEnqueue` of a packet with this hash, if it was classified. -/
def doEnqueue (item : QueueDiscItem) (flowHash : Option Nat) (stored overload : Bool)
    (q : FqCoDelQueueDisc) : Option FqCoDelQueueDisc :=
  match flowHash with
  | none => some q
  | some flowHash => do
      let (h, q) ← queueIndex flowHash q
      let (i, q) := flowAt h q
      let q := activate i (← q.classes[i]?) q
      let flow ← q.classes[i]?
      let q := if stored then q.update i { flow with queue := flow.queue ++ [item] } else q
      if overload then fqCoDelDrop q else some q

/-! ## `DoDequeue` -/

/-- The first new flow, without deficit, gets a quantum and becomes an old one. -/
def turnNew (i : Nat) (rest : List Nat) (flow : FqCoDelFlow) (q : FqCoDelQueueDisc) :
    FqCoDelQueueDisc :=
  { q.update i { flow.increaseDeficit q.quantum with status := .oldFlow } with
    newFlows := rest, oldFlows := q.oldFlows ++ [i] }

/-- The first old flow, without deficit, gets a quantum and moves to the end. -/
def turnOld (i : Nat) (rest : List Nat) (flow : FqCoDelFlow) (q : FqCoDelQueueDisc) :
    FqCoDelQueueDisc :=
  { q.update i (flow.increaseDeficit q.quantum) with oldFlows := rest ++ [i] }

/-- The loop over the new flows. -/
def selectNew : List Nat → FqCoDelQueueDisc → Option (Option Nat × FqCoDelQueueDisc)
  | [], q => some (none, q)
  | i :: rest, q => do
      let flow ← q.classes[i]?
      if flow.deficit ≤ 0 then selectNew rest (q.turnNew i rest flow) else some (some i, q)

/-- The loop over the old flows. -/
def selectOld : Nat → FqCoDelQueueDisc → Option (Option Nat × FqCoDelQueueDisc)
  | 0, _ => none
  | rounds + 1, q =>
    match q.oldFlows with
    | [] => some (none, q)
    | i :: rest => do
        let flow ← q.classes[i]?
        if flow.deficit ≤ 0 then selectOld rounds (q.turnOld i rest flow) else some (some i, q)

/-- The two loops. -/
def select (rounds : Nat) (q : FqCoDelQueueDisc) : Option (Option Nat × FqCoDelQueueDisc) := do
  match ← selectNew q.newFlows q with
  | (some i, q) => some (some i, q)
  | (none, q) => selectOld rounds q

/-- The queue disc of the selected flow had no packet. -/
def retire (i : Nat) (flow : FqCoDelFlow) (q : FqCoDelQueueDisc) : FqCoDelQueueDisc :=
  if q.newFlows ≠ [] then
    { q.update i { flow with status := .oldFlow, queue := [] } with
      oldFlows := q.oldFlows ++ [i], newFlows := q.newFlows.tail }
  else
    { q.update i { flow with status := .inactive, queue := [] } with oldFlows := q.oldFlows.tail }

/-- The packet that the queue disc of the selected flow returned is subtracted from the
deficit of the flow. -/
def serve (i : Nat) (flow : FqCoDelFlow) (item : QueueDiscItem) (queue : List QueueDiscItem)
    (q : FqCoDelQueueDisc) : FqCoDelQueueDisc :=
  q.update i (FqCoDelFlow.increaseDeficit (-(item.size : Int)) { flow with queue })

/-- `DoDequeue`. Each call of `Dequeue` of a child drops some packets first. The packet is
returned with its flow. -/
def doDequeue : Nat → List Nat → FqCoDelQueueDisc →
    Option (Option (Nat × QueueDiscItem) × FqCoDelQueueDisc)
  | 0, _, _ => none
  | rounds + 1, drops, q => do
      match ← select (rounds + 1) q with
      | (none, q) => some (none, q)
      | (some i, q) => do
          let flow ← q.classes[i]?
          match flow.queue.drop (drops.headD 0) with
          | [] => doDequeue rounds drops.tail (q.retire i flow)
          | item :: queue => some (some (i, item), q.serve i flow item queue)

end FqCoDelQueueDisc

end Ns3
