import Ns3.Core.Assert
import Ns3.Library.Run
import Mathlib.Algebra.Group.Int.Defs
import Mathlib.Algebra.GroupWithZero.Nat

/-!
# The CoDel queue disc

`CoDelQueueDisc` keeps its packets in one internal queue. While the packets that it dequeues have
waited for longer than the target, it drops or marks some of them, at times that a control law
sets on a clock of 32 bits in units of 1024 nanoseconds.

What a packet is stays open: the queue disc asks for its size and its DS field, and asks it to
mark itself.
-/

namespace Ns3

/-- The virtual functions of `QueueDiscItem`. `mark` gives the marked item if `Mark` returns
true. -/
structure QueueDiscItemOps (ι : Type) where
  getSize : ι → Nat
  dsField : ι → Option (BitVec 8)
  mark : ι → Option ι

/-- `QueueSizeUnit`. -/
inductive QueueSizeUnit where
  | packets
  | bytes
  deriving DecidableEq

namespace CoDelQueueDisc

/-- The attributes, with times in nanoseconds. -/
structure Config where
  useEcn : Bool := false
  useL4s : Bool := false
  unit : QueueSizeUnit := .bytes
  maxSize : Nat := 1500 * 1000
  minBytes : Nat := 1500
  interval : Int := 100000000
  target : Int := 5000000
  ceThreshold : Int := 2 ^ 63 - 1
  deriving DecidableEq

/-- An item and its time stamp. -/
abbrev Stamped (ι : Type) := ι × Int

/-- The variables of the algorithm. -/
structure Vars where
  count : Nat := 0
  lastCount : Nat := 0
  dropping : Bool := false
  recInvSqrt : Nat := 0xffff
  firstAboveTime : Nat := 0
  dropNext : Nat := 0
  deriving DecidableEq

/-! ## Times -/

/-- `Time2CoDel`. -/
def time2CoDel (t : Int) : Nat := (t / 2 ^ 10 % 2 ^ 32).toNat

/-- `CoDelGetTime`. -/
def codelGetTime (now : Int) : Nat := time2CoDel now

/-- `CoDelTimeAfter`. -/
def codelTimeAfter (a b : Nat) : Bool := (a : Int) - (b : Int) > 0

/-- `CoDelTimeAfterEq`. -/
def codelTimeAfterEq (a b : Nat) : Bool := (a : Int) - (b : Int) ≥ 0

/-- `CoDelTimeBefore`. -/
def codelTimeBefore (a b : Nat) : Bool := (a : Int) - (b : Int) < 0

/-- `ReciprocalDivide`. -/
def reciprocalDivide (a r : Nat) : Nat := a * r / 2 ^ 32 % 2 ^ 32

/-- `NewtonStep`. -/
def newtonStep (recInvSqrt count : Nat) : Nat :=
  let invsqrt := recInvSqrt * 2 ^ 16 % 2 ^ 32
  let invsqrt2 := invsqrt * invsqrt / 2 ^ 32
  let val := UInt64.sub (3 * 2 ^ 32) (UInt64.mul count invsqrt2)
  let val := val / 2 ^ 2
  let val := UInt64.mul val invsqrt / 2 ^ (32 - 2 + 1)
  val / 2 ^ 16 % 2 ^ 16

/-- `ControlLaw`. -/
def controlLaw (t interval recInvSqrt : Nat) : Nat :=
  UInt32.add t (reciprocalDivide interval (recInvSqrt * 2 ^ 16 % 2 ^ 32))

section

variable {ι : Type} (ops : QueueDiscItemOps ι) (c : Config)

/-- `GetNBytes` of the internal queue. -/
def nBytes (queue : List (Stamped ι)) : Nat := (queue.map fun x => ops.getSize x.1).sum % 2 ^ 32

/-- What happens to a packet. -/
inductive Event (ι : Type) where
  | overlimitDrop (item : ι)
  | targetExceededDrop (item : ι)
  | targetExceededMark (item : ι)
  | ceThresholdExceededMark (item : ι)
  | returned (item : Option ι)
  deriving DecidableEq

/-! ## `OkToDrop` -/

/-- `OkToDrop`, with the queue behind the item. -/
def okToDrop (now : Int) (v : Vars) (item : Option (Stamped ι)) (queue : List (Stamped ι)) :
    Bool × Vars :=
  match item with
  | none => (false, { v with firstAboveTime := 0 })
  | some item =>
    let sojournTime := time2CoDel (now - item.2)
    if codelTimeBefore sojournTime (time2CoDel c.target) || nBytes ops queue < c.minBytes then
      (false, { v with firstAboveTime := 0 })
    else if v.firstAboveTime = 0 then
      (false, { v with
        firstAboveTime := UInt32.add (codelGetTime now) (time2CoDel c.interval) })
    else (codelTimeAfter (codelGetTime now) v.firstAboveTime, v)

/-! ## `DoDequeue` -/

/-- What is known at the end of `DoDequeue`. -/
structure AtEnd (ι : Type) where
  vars : Vars
  item : Option (Stamped ι)
  queue : List (Stamped ι)
  isMarked : Bool := false
  events : List (Event ι) := []
  deriving DecidableEq

/-- `m_useEcn && Mark (item, TARGET_EXCEEDED_MARK)`. -/
def markTarget (item : ι) : Option ι := if c.useEcn then ops.mark item else none

/-- The rounds of the loop in the dropping state, from one in which the next drop is due. -/
def dropLoop (now : Int) (v : Vars) (item : Stamped ι) (queue : List (Stamped ι)) : AtEnd ι :=
  let count := UInt32.add v.count 1
  let v := { v with count, recInvSqrt := newtonStep v.recInvSqrt count }
  match markTarget ops c item.1 with
  | some marked =>
    { vars := { v with
        dropNext := controlLaw (codelGetTime now) (time2CoDel c.interval) v.recInvSqrt }
      item := some (marked, item.2), queue, isMarked := true
      events := [.targetExceededMark marked] }
  | none =>
    let dropped := .targetExceededDrop item.1
    match queue with
    | [] =>
      let v := (okToDrop ops c now v none []).2
      { vars := { v with dropping := false }, item := none, queue := [], events := [dropped] }
    | next :: queue =>
      let (ok, v) := okToDrop ops c now v (some next) queue
      if !ok then
        { vars := { v with dropping := false }, item := some next, queue, events := [dropped] }
      else
        let v := { v with
          dropNext := controlLaw v.dropNext (time2CoDel c.interval) v.recInvSqrt }
        if codelTimeAfterEq (codelGetTime now) v.dropNext then
          let r := dropLoop now v next queue
          { r with events := dropped :: r.events }
        else { vars := v, item := some next, queue, events := [dropped] }

/-- The count with which the dropping state is entered. -/
def enterVars (now : Int) (v : Vars) : Vars :=
  let v := { v with dropping := true }
  let delta := UInt32.sub v.count v.lastCount
  -- `delta` is an `int`
  let v := if 1 < delta ∧ delta < 2 ^ 31 ∧
        codelTimeBefore (UInt32.sub (codelGetTime now) v.dropNext)
          (16 * time2CoDel c.interval % 2 ^ 32) then
      { v with count := delta, recInvSqrt := newtonStep v.recInvSqrt delta }
    else { v with count := 1, recInvSqrt := 0xffff }
  let v := { v with lastCount := v.count }
  { v with dropNext := controlLaw (codelGetTime now) (time2CoDel c.interval) v.recInvSqrt }

/-- The dropping state is entered with an item that is marked or dropped. -/
def enter (now : Int) (v : Vars) (item : Stamped ι) (queue : List (Stamped ι)) : AtEnd ι :=
  match markTarget ops c item.1 with
  | some marked =>
    { vars := enterVars c now v, item := some (marked, item.2), queue, isMarked := true
      events := [.targetExceededMark marked] }
  | none =>
    let v := (okToDrop ops c now v queue.head? queue.tail).2
    { vars := enterVars c now v, item := queue.head?, queue := queue.tail
      events := [.targetExceededDrop item.1] }

/-- What `DoDequeue` does with an item up to its end. -/
def examine (now : Int) (v : Vars) (item : Stamped ι) (queue : List (Stamped ι)) : AtEnd ι :=
  let (ok, v) := okToDrop ops c now v (some item) queue
  if v.dropping then
    if !ok then { vars := { v with dropping := false }, item := some item, queue }
    else if codelTimeAfterEq (codelGetTime now) v.dropNext then dropLoop ops c now v item queue
    else { vars := v, item := some item, queue }
  else if ok then enter ops c now v item queue
  else { vars := v, item := some item, queue }

end

end CoDelQueueDisc

/-- `CoDelQueueDisc`, and what has happened to its packets. -/
structure CoDelQueueDisc (ι : Type) where
  vars : CoDelQueueDisc.Vars := {}
  queue : List (CoDelQueueDisc.Stamped ι) := []
  events : List (CoDelQueueDisc.Event ι) := []
  deriving DecidableEq

namespace CoDelQueueDisc

variable {ι : Type} (ops : QueueDiscItemOps ι) (c : Config)

/-- The end of `DoDequeue`: `none` if it reads the time stamp of no item. -/
def finish (now : Int) (s : CoDelQueueDisc ι) (r : AtEnd ι) : Option (CoDelQueueDisc ι) := do
  let item ← r.item
  let ldelay := time2CoDel (now - item.2)
  let marked := if !r.isMarked && !c.useL4s && c.useEcn &&
      codelTimeAfter ldelay (time2CoDel c.ceThreshold) then ops.mark item.1 else none
  return { vars := r.vars, queue := r.queue
           events := s.events ++ r.events ++ match marked with
             | some item => [.ceThresholdExceededMark item, .returned (some item)]
             | none => [.returned (some item.1)] }

/-- Is it an ECT1 or a CE packet? -/
def isL4s (item : ι) : Bool :=
  (ops.dsField item).any fun tosByte => tosByte &&& 0x3 == 1 || tosByte &&& 0x3 == 3

/-- `DoDequeue`. -/
def doDequeue (now : Int) (s : CoDelQueueDisc ι) : Option (CoDelQueueDisc ι) :=
  match s.queue with
  | [] => some { s with
      vars := { s.vars with dropping := false }, events := s.events ++ [.returned none] }
  | item :: queue =>
    let ldelay := time2CoDel (now - item.2)
    if c.useL4s && isL4s ops item.1 then
      let marked := if codelTimeAfter ldelay (time2CoDel c.ceThreshold) then ops.mark item.1
        else none
      some { s with
        queue
        events := s.events ++ match marked with
          | some item => [.ceThresholdExceededMark item, .returned (some item)]
          | none => [.returned (some item.1)] }
    else finish ops c now s (examine ops c now s.vars item queue)

/-- `GetCurrentSize () + item`. -/
def sizeWith (queue : List (Stamped ι)) (item : ι) : Nat :=
  match c.unit with
  | .packets => UInt32.add (queue.length % 2 ^ 32) 1
  | .bytes => UInt32.add (nBytes ops queue) (ops.getSize item)

/-- `DoEnqueue`, and the time stamp that `Enqueue` sets. The internal queue has the same limit. -/
def doEnqueue (now : Int) (item : ι) (s : CoDelQueueDisc ι) : CoDelQueueDisc ι :=
  if sizeWith ops c s.queue item > c.maxSize then
    { s with events := s.events ++ [.overlimitDrop item] }
  else { s with queue := s.queue ++ [(item, now)] }

/-- A call at a time. -/
inductive Call (ι : Type) where
  | enqueue (now : Int) (item : ι)
  | dequeue (now : Int)

/-- One call. -/
def step (s : CoDelQueueDisc ι) : Call ι → Option (CoDelQueueDisc ι)
  | .enqueue now item => some (doEnqueue ops c now item s)
  | .dequeue now => doDequeue ops c now s

end CoDelQueueDisc

end Ns3
