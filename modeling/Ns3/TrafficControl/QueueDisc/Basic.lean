import Ns3.Core.Assert
import Mathlib.Logic.Function.Basic
import Mathlib.Algebra.GroupWithZero.Nat

/-!
# Queue discs

A root queue disc has classes with child queue discs, each of which stores its packets in
one internal queue. The internal queues and the children notify the disc above them of what
they enqueue, dequeue and drop, and each disc counts what it is notified of.

What `DoEnqueue` and `DoDequeue` of a queue disc decide is left open: a call says which
packets they drop, and which child they ask.
-/

namespace Ns3

/-- `QueueDiscItem`: the packet and its `GetSize ()`. -/
structure QueueDiscItem where
  uid : Nat
  size : Nat
  deriving DecidableEq

namespace QueueDisc

/-- `QueueDisc::Stats`. -/
structure Stats where
  nTotalReceivedPackets : Nat := 0
  nTotalReceivedBytes : Nat := 0
  nTotalEnqueuedPackets : Nat := 0
  nTotalEnqueuedBytes : Nat := 0
  nTotalDequeuedPackets : Nat := 0
  nTotalDequeuedBytes : Nat := 0
  nTotalDroppedPackets : Nat := 0
  nTotalDroppedBytes : Nat := 0
  nTotalDroppedPacketsBeforeEnqueue : Nat := 0
  nTotalDroppedBytesBeforeEnqueue : Nat := 0
  nDroppedPacketsBeforeEnqueue : String → Nat := fun _ => 0
  nDroppedBytesBeforeEnqueue : String → Nat := fun _ => 0
  nTotalDroppedPacketsAfterDequeue : Nat := 0
  nTotalDroppedBytesAfterDequeue : Nat := 0
  nDroppedPacketsAfterDequeue : String → Nat := fun _ => 0
  nDroppedBytesAfterDequeue : String → Nat := fun _ => 0

end QueueDisc

/-- The members of `QueueDisc` that count packets. -/
structure QueueDisc where
  nPackets : Nat := 0
  nBytes : Nat := 0
  stats : QueueDisc.Stats := {}
  requeued : Option QueueDiscItem := none
  peeked : Bool := false

namespace QueueDisc

/-- `INTERNAL_QUEUE_DROP`. -/
def internalQueueDrop : String := "Dropped by internal queue"

/-- `CHILD_QUEUE_DISC_DROP`. -/
def childQueueDiscDrop : String := "(Dropped by child queue disc) "

/-- The first statements of `Enqueue`. -/
def received (d : QueueDisc) (item : QueueDiscItem) : QueueDisc :=
  { d with stats := { d.stats with
      nTotalReceivedPackets := UInt32.add d.stats.nTotalReceivedPackets 1
      nTotalReceivedBytes := UInt64.add d.stats.nTotalReceivedBytes item.size } }

/-- `PacketEnqueued`. -/
def packetEnqueued (d : QueueDisc) (item : QueueDiscItem) : QueueDisc :=
  { d with
    nPackets := UInt32.add d.nPackets 1
    nBytes := UInt32.add d.nBytes item.size
    stats := { d.stats with
      nTotalEnqueuedPackets := UInt32.add d.stats.nTotalEnqueuedPackets 1
      nTotalEnqueuedBytes := UInt64.add d.stats.nTotalEnqueuedBytes item.size } }

/-- `PacketDequeued`. -/
def packetDequeued (d : QueueDisc) (item : QueueDiscItem) : QueueDisc :=
  if !d.peeked then
    { d with
      nPackets := UInt32.sub d.nPackets 1
      nBytes := UInt32.sub d.nBytes item.size
      stats := { d.stats with
        nTotalDequeuedPackets := UInt32.add d.stats.nTotalDequeuedPackets 1
        nTotalDequeuedBytes := UInt64.add d.stats.nTotalDequeuedBytes item.size } }
  else d

/-- `DropBeforeEnqueue`. -/
def dropBeforeEnqueue (d : QueueDisc) (item : QueueDiscItem) (reason : String) : QueueDisc :=
  let packets := d.stats.nDroppedPacketsBeforeEnqueue
  let bytes := d.stats.nDroppedBytesBeforeEnqueue
  { d with stats := { d.stats with
      nTotalDroppedPackets := UInt32.add d.stats.nTotalDroppedPackets 1
      nTotalDroppedBytes := UInt64.add d.stats.nTotalDroppedBytes item.size
      nTotalDroppedPacketsBeforeEnqueue :=
        UInt32.add d.stats.nTotalDroppedPacketsBeforeEnqueue 1
      nTotalDroppedBytesBeforeEnqueue :=
        UInt64.add d.stats.nTotalDroppedBytesBeforeEnqueue item.size
      nDroppedPacketsBeforeEnqueue :=
        Function.update packets reason (UInt32.add (packets reason) 1)
      nDroppedBytesBeforeEnqueue :=
        Function.update bytes reason (UInt64.add (bytes reason) item.size) } }

/-- The counters that `DropAfterDequeue` updates first. -/
def countDropAfterDequeue (d : QueueDisc) (item : QueueDiscItem) (reason : String) : QueueDisc :=
  let packets := d.stats.nDroppedPacketsAfterDequeue
  let bytes := d.stats.nDroppedBytesAfterDequeue
  { d with stats := { d.stats with
      nTotalDroppedPackets := UInt32.add d.stats.nTotalDroppedPackets 1
      nTotalDroppedBytes := UInt64.add d.stats.nTotalDroppedBytes item.size
      nTotalDroppedPacketsAfterDequeue := UInt32.add d.stats.nTotalDroppedPacketsAfterDequeue 1
      nTotalDroppedBytesAfterDequeue :=
        UInt64.add d.stats.nTotalDroppedBytesAfterDequeue item.size
      nDroppedPacketsAfterDequeue :=
        Function.update packets reason (UInt32.add (packets reason) 1)
      nDroppedBytesAfterDequeue :=
        Function.update bytes reason (UInt64.add (bytes reason) item.size) } }

/-- `DropAfterDequeue`: while a packet is peeked, the packet was not counted as dequeued. -/
def dropAfterDequeue (d : QueueDisc) (item : QueueDiscItem) (reason : String) : QueueDisc :=
  let d := d.countDropAfterDequeue item reason
  if d.peeked then { ({ d with peeked := false }).packetDequeued item with peeked := true } else d

/-- What `Dequeue` does about the packet in `m_requeued`. -/
def takeRequeued (d : QueueDisc) (item : QueueDiscItem) : QueueDisc :=
  let d := { d with requeued := none }
  if d.peeked then ({ d with peeked := false }).packetDequeued item else d

/-- The assertions of `Enqueue`. -/
def assertReceived (profile : BuildProfile) (d : QueueDisc) : Option Unit := do
  nsAssert profile (d.stats.nTotalReceivedPackets =
    UInt32.add d.stats.nTotalDroppedPacketsBeforeEnqueue d.stats.nTotalEnqueuedPackets)
  nsAssert profile (d.stats.nTotalReceivedBytes =
    UInt64.add d.stats.nTotalDroppedBytesBeforeEnqueue d.stats.nTotalEnqueuedBytes)

/-- The assertions of `Dequeue`. -/
def assertHeld (profile : BuildProfile) (d : QueueDisc) : Option Unit := do
  nsAssert profile (d.nPackets =
    UInt32.sub d.stats.nTotalEnqueuedPackets d.stats.nTotalDequeuedPackets)
  nsAssert profile (d.nBytes =
    UInt64.sub d.stats.nTotalEnqueuedBytes d.stats.nTotalDequeuedBytes)

/-! ## The tree -/

/-- A child queue disc and its internal queue. -/
structure Child where
  disc : QueueDisc := {}
  queue : List QueueDiscItem := []

/-- A root queue disc and the child queue discs of its classes. -/
structure Tree where
  root : QueueDisc := {}
  children : List Child := []

/-- The internal queue of a child enqueued a packet. -/
def enqueued (item : QueueDiscItem) (i : Nat) (c : Child) (t : Tree) : Tree where
  root := t.root.packetEnqueued item
  children := t.children.set i { c with
    disc := c.disc.packetEnqueued item
    queue := c.queue ++ [item] }

/-- The internal queue of a child dequeued its first packet. -/
def dequeued (item : QueueDiscItem) (rest : List QueueDiscItem) (i : Nat) (c : Child) (t : Tree) :
    Tree where
  root := if c.disc.peeked then t.root else t.root.packetDequeued item
  children := t.children.set i { c with disc := c.disc.packetDequeued item, queue := rest }

/-- A child, or the internal queue of a child, drops a packet before it is enqueued. -/
def childDropBeforeEnqueue (item : QueueDiscItem) (reason : String) (i : Nat) (c : Child)
    (t : Tree) :
    Tree where
  root := t.root.dropBeforeEnqueue item (childQueueDiscDrop ++ reason)
  children := t.children.set i { c with disc := c.disc.dropBeforeEnqueue item reason }

/-- A child drops a packet that its internal queue has dequeued. -/
def childDropAfterDequeue (item : QueueDiscItem) (reason : String) (i : Nat) (c : Child)
    (t : Tree) :
    Tree where
  root := (if c.disc.peeked then t.root.packetDequeued item else t.root).dropAfterDequeue item
    (childQueueDiscDrop ++ reason)
  children := t.children.set i { c with disc := c.disc.dropAfterDequeue item reason }

/-- A child takes the first packet of its internal queue, if there is one, and drops it. -/
def childDrops (i : Nat) : List String → Tree → Option Tree
  | [], t => some t
  | reason :: reasons, t => do
      let c ← t.children[i]?
      match c.queue with
      | [] => childDrops i reasons t
      | item :: rest => do
          let t := dequeued item rest i c t
          let c ← t.children[i]?
          childDrops i reasons (childDropAfterDequeue item reason i c t)

/-- The root takes packets from internal queues, and drops them. -/
def rootDrops : List (Nat × String) → Tree → Option Tree
  | [], t => some t
  | (i, reason) :: others, t => do
      let c ← t.children[i]?
      match c.queue with
      | [] => rootDrops others t
      | item :: rest => do
          let t := dequeued item rest i c t
          rootDrops others { t with root := t.root.dropAfterDequeue item reason }

/-! ## `Enqueue` -/

/-- What becomes of a packet in a child: its internal queue takes it, or is full, or the
child drops it. -/
inductive Outcome where
  | store
  | full
  | drop (reason : String)
  deriving DecidableEq

/-- The packet is stored or dropped. -/
def settle (item : QueueDiscItem) (i : Nat) (c : Child) (t : Tree) : Outcome → Tree
  | .store => enqueued item i c t
  | .full => childDropBeforeEnqueue item internalQueueDrop i c t
  | .drop reason => childDropBeforeEnqueue item reason i c t

/-- What `DoEnqueue` of a child decides, with the reasons for the packets it drops from its
internal queue. -/
structure ChildEnqueue where
  before : List String := []
  outcome : Outcome := .store
  after : List String := []
  deriving DecidableEq

variable (profile : BuildProfile)

/-- `Enqueue` of a child. -/
def childEnqueue (item : QueueDiscItem) (i : Nat) (script : ChildEnqueue) (t : Tree) :
    Option (Bool × Tree) := do
  let c ← t.children[i]?
  let t := { t with children := t.children.set i { c with disc := c.disc.received item } }
  let t ← childDrops i script.before t
  let c ← t.children[i]?
  let t ← childDrops i script.after (settle item i c t script.outcome)
  let c ← t.children[i]?
  c.disc.assertReceived profile
  return (script.outcome = .store, t)

/-- What `DoEnqueue` of the root decides: it drops the packet, or offers it to a child. -/
inductive Target where
  | drop (reason : String)
  | child (i : Nat) (script : ChildEnqueue)
  deriving DecidableEq

/-- The same, with the packets it drops from the internal queues. -/
structure RootEnqueue where
  before : List (Nat × String) := []
  target : Target
  after : List (Nat × String) := []
  deriving DecidableEq

/-- The root drops the packet, or calls `Enqueue` of the child. -/
def offer (item : QueueDiscItem) (t : Tree) : Target → Option (Bool × Tree)
  | .drop reason => some (false, { t with root := t.root.dropBeforeEnqueue item reason })
  | .child i script => childEnqueue profile item i script t

/-- `Enqueue` of the root. -/
def enqueue (item : QueueDiscItem) (script : RootEnqueue) (t : Tree) : Option (Bool × Tree) := do
  let t := { t with root := t.root.received item }
  let t ← rootDrops script.before t
  let (retval, t) ← offer profile item t script.target
  let t ← rootDrops script.after t
  t.root.assertReceived profile
  return (retval, t)

/-! ## `Dequeue` and `Peek` -/

/-- What `DoDequeue` of a child decides: the reasons for the packets it drops, and whether
it returns the next one. -/
structure ChildDequeue where
  drops : List String := []
  last : Bool := true
  deriving DecidableEq

/-- `DoDequeue` of a child. -/
def childDoDequeue (i : Nat) (script : ChildDequeue) (t : Tree) :
    Option (Option QueueDiscItem × Tree) := do
  let t ← childDrops i script.drops t
  let c ← t.children[i]?
  match c.queue with
  | [] => some (none, t)
  | item :: rest =>
    if script.last then some (some item, dequeued item rest i c t) else some (none, t)

/-- `Dequeue` of a child. -/
def childDequeue (i : Nat) (script : ChildDequeue) (t : Tree) :
    Option (Option QueueDiscItem × Tree) := do
  let c ← t.children[i]?
  let (item, t) ← match c.disc.requeued with
    | some item => some (some item, {
        root := if c.disc.peeked then t.root.packetDequeued item else t.root
        children := t.children.set i { c with disc := c.disc.takeRequeued item } })
    | none => childDoDequeue i script t
  let c ← t.children[i]?
  c.disc.assertHeld profile
  return (item, t)

/-- What `DoDequeue` of the root does next. -/
inductive RootAction where
  | drop (i : Nat) (reason : String)
  | ask (i : Nat) (script : ChildDequeue)
  deriving DecidableEq

/-- `DoDequeue` of the root: the first packet that a child returns. -/
def doDequeue : List RootAction → Tree → Option (Option QueueDiscItem × Tree)
  | [], t => some (none, t)
  | .drop i reason :: actions, t => do doDequeue actions (← rootDrops [(i, reason)] t)
  | .ask i script :: actions, t => do
      match ← childDequeue profile i script t with
      | (some item, t) => some (some item, t)
      | (none, t) => doDequeue actions t

/-- `Dequeue` of the root. -/
def dequeue (actions : List RootAction) (t : Tree) : Option (Option QueueDiscItem × Tree) := do
  let (item, t) ← match t.root.requeued with
    | some item => some (some item, { t with root := t.root.takeRequeued item })
    | none => doDequeue profile actions t
  t.root.assertHeld profile
  return (item, t)

/-- `Peek` sets `m_peeked` before it dequeues a packet. -/
def markPeeked (t : Tree) : Tree := { t with root := { t.root with peeked := true } }

/-- `Peek` keeps the packet; if there is none, nothing is peeked. -/
def keepPeeked (item : Option QueueDiscItem) (t : Tree) : Tree :=
  let root := { t.root with requeued := item }
  { t with root := if item.isNone then { root with peeked := false } else root }

/-- `Peek` of the root. -/
def peek (actions : List RootAction) (t : Tree) : Option (Option QueueDiscItem × Tree) := do
  match t.root.requeued with
  | some item => some (some item, t)
  | none => do
      let (item, t) ← dequeue profile actions (markPeeked t)
      return (item, keepPeeked item t)

/-- The calls on a root queue disc. -/
inductive Call where
  | enqueue (item : QueueDiscItem) (script : RootEnqueue)
  | dequeue (actions : List RootAction)
  | peek (actions : List RootAction)
  deriving DecidableEq

/-- One call. -/
def step (t : Tree) : Call → Option Tree
  | .enqueue item script => (enqueue profile item script t).map (·.2)
  | .dequeue actions => (dequeue profile actions t).map (·.2)
  | .peek actions => (peek profile actions t).map (·.2)

/-- A root with this number of classes. -/
def start (classes : Nat) : Tree := { children := List.replicate classes {} }

end QueueDisc

end Ns3
