import Ns3.Network.Packet
import Ns3.Library.Run

/-!
# Packet tags, copied on write

A `PacketTagList` is the head of a list of `TagData`, and lists share their tails. Each
`TagData` counts the pointers to it. A list that changes behind a shared node copies the
shared nodes before the place of the change.

An address is the number of the allocation it comes from, and is never used again. Access
to freed memory, or outside an object, ends the program.
-/

namespace Ns3

/-- What a family of subclasses of `Tag` does: `Serialize` and `Deserialize` for each type
identifier. A tag reads no more than it wrote, and its size is below the limit of
`CreateTagData`. -/
structure TagClass (V : Type) where
  serialize : Nat → V → List Byte
  deserialize : Nat → List Byte → V
  reads : ∀ tid v rest, deserialize tid (serialize tid v ++ rest) = v
  fits : ∀ tid v, (serialize tid v).length < 2 ^ 32 - 1

/-- `PacketTagList::TagData`; the size is the length of `data`. -/
structure TagData where
  next : Option Nat
  count : Nat
  tid : Nat
  data : List Byte
  deriving DecidableEq

/-- The `TagData` of the program, and `m_next` of its `PacketTagList` objects. -/
structure PacketTagLists where
  nodes : List (Option TagData) := []
  lists : List (Option Nat) := []
  deriving DecidableEq

/-- A place that a `TagData**` points to. -/
inductive Link where
  | head (list : Nat)
  | next (node : Nat)
  deriving DecidableEq

namespace PacketTagLists

/-- The node at an address in use. -/
def read (w : PacketTagLists) (a : Nat) : Option TagData := w.nodes[a]?.join

/-- The memory at an address: a node, or nothing after `free`. -/
def put (w : PacketTagLists) (a : Nat) (node : Option TagData) : PacketTagLists :=
  { w with nodes := w.nodes.set a node }

/-- `std::free`. -/
def free (w : PacketTagLists) (a : Nat) : PacketTagLists := w.put a none

/-- `free` of a pointer that may be null. -/
def freeIf (w : PacketTagLists) : Option Nat → PacketTagLists
  | none => w
  | some a => w.free a

/-- `count++`. -/
def increment (w : PacketTagLists) (a : Nat) : Option PacketTagLists := do
  let node ← w.read a
  return w.put a (some { node with count := UInt32.add node.count 1 })

/-- `count++` behind a pointer that may be null. -/
def incrementIf (w : PacketTagLists) : Option Nat → Option PacketTagLists
  | none => some w
  | some a => w.increment a

/-- `count--`. -/
def decrement (w : PacketTagLists) (a : Nat) : Option PacketTagLists := do
  let node ← w.read a
  return w.put a (some { node with count := UInt32.sub node.count 1 })

/-- `*link = p`. -/
def setLink (w : PacketTagLists) (link : Link) (p : Option Nat) : Option PacketTagLists :=
  match link with
  | .head list =>
    if list < w.lists.length then some { w with lists := w.lists.set list p } else none
  | .next a => do
      let node ← w.read a
      return w.put a (some { node with next := p })

/-- `CreateTagData`, and the members that are set next. -/
def create (profile : BuildProfile) (w : PacketTagLists) (node : TagData) :
    Option (Nat × PacketTagLists) := do
  nsAssert profile (node.data.length < 2 ^ 32 - 1)
  return (w.nodes.length, { w with nodes := w.nodes ++ [some node] })

/-! ## `COWTraverse` -/

/-- What the search from the head meets first. -/
inductive Found where
  | nothing
  | tag (cur : Nat) (prevNext : Link)
  | merge (cur : Nat) (prevNext : Link)
  deriving DecidableEq

/-- The search from the head of the list. The first number bounds the rounds. -/
def search (w : PacketTagLists) (tid : Nat) : Nat → Link → Option Nat → Option Found
  | _, _, none => some .nothing
  | 0, _, some _ => none
  | rounds + 1, prevNext, some cur => do
      let node ← w.read cur
      if node.count > 1 then some (.merge cur prevNext)
      else if node.tid = tid then some (.tag cur prevNext)
      else w.search tid rounds (.next cur) node.next

/-- Whether the tag exists behind a pointer. -/
def present (w : PacketTagLists) (tid : Nat) : Nat → Option Nat → Option Bool
  | _, none => some false
  | 0, some _ => none
  | rounds + 1, some it => do
      let node ← w.read it
      if node.tid = tid then some true else w.present tid rounds node.next

/-- One round of the loop that copies shared nodes: the copy, and the next node. -/
def copyNode (profile : BuildProfile) (w : PacketTagLists) (prevNext : Link) (cur : Nat) :
    Option (Nat × Nat × PacketTagLists) := do
  let node ← w.read cur
  nsAssert profile (node.count > 1)
  let w ← w.decrement cur
  let (copy, w) ← w.create profile { node with count := 1 }
  let next ← node.next
  let w ← w.increment next
  let w ← w.setLink prevNext (some copy)
  return (copy, next, w)

/-- The loop that copies the nodes before the tag. -/
def copyBefore (profile : BuildProfile) (tid : Nat) :
    Nat → PacketTagLists → Link → Nat → Option (PacketTagLists × Link × Nat)
  | rounds, w, prevNext, cur => do
      let node ← w.read cur
      if node.tid = tid then some (w, prevNext, cur)
      else
        match rounds with
        | 0 => none
        | rounds + 1 => do
            let (copy, next, w) ← w.copyNode profile prevNext cur
            copyBefore profile tid rounds w (.next copy) next

/-- A writer of `COWTraverse`. -/
abbrev CowWriter (ρ : Type) := PacketTagLists → Bool → Nat → Link → Option (ρ × PacketTagLists)

/-- `COWTraverse`: what the writer returns, if the tag is found. -/
def cowTraverse {ρ : Type} (profile : BuildProfile) (w : PacketTagLists) (list tid : Nat)
    (writer : CowWriter ρ) : Option (Option ρ × PacketTagLists) := do
  let head ← w.lists[list]?
  match ← w.search tid (w.nodes.length + 1) (.head list) head with
  | .nothing => some (none, w)
  | .tag cur prevNext => do
      let (out, w) ← writer w true cur prevNext
      return (some out, w)
  | .merge cur prevNext => do
      if !(← w.present tid (w.nodes.length + 1) (some cur)) then some (none, w)
      else
        let (w, prevNext, cur) ← copyBefore profile tid (w.nodes.length + 1) w prevNext cur
        let node ← w.read cur
        nsAssert profile (node.count > 1)
        let (out, w) ← writer w false cur prevNext
        return (some out, w)

variable {V : Type} (T : TagClass V)

/-- `RemoveWriter`: the value of the tag that is removed. -/
def removeWriter : CowWriter V := fun w preMerge cur prevNext => do
  let node ← w.read cur
  let w ← w.setLink prevNext node.next
  if preMerge then some (T.deserialize node.tid node.data, w.free cur)
  else do
    let w ← w.decrement cur
    let w ← w.incrementIf node.next
    return (T.deserialize node.tid node.data, w)

/-- `tag.Serialize (TagBuffer (data, data + size))`. -/
def serializeInto (bytes data : List Byte) : Option (List Byte) :=
  if bytes.length ≤ data.length then some (bytes ++ data.drop bytes.length) else none

/-- `ReplaceWriter`. -/
def replaceWriter (profile : BuildProfile) (tid : Nat) (v : V) : CowWriter Unit :=
  fun w preMerge cur prevNext => do
    let node ← w.read cur
    if preMerge then do
      let data ← serializeInto (T.serialize tid v) node.data
      return ((), w.put cur (some { node with data }))
    else do
      let w ← w.decrement cur
      let (copy, w) ← w.create profile ⟨node.next, 1, tid, T.serialize tid v⟩
      let w ← w.incrementIf node.next
      let w ← w.setLink prevNext (some copy)
      return ((), w)

/-! ## The methods -/

/-- `Remove`. -/
def remove (profile : BuildProfile) (list tid : Nat) (w : PacketTagLists) :
    Option (Option V × PacketTagLists) :=
  w.cowTraverse profile list tid (removeWriter T)

/-- `Add`. -/
def add (profile : BuildProfile) (list tid : Nat) (v : V) (w : PacketTagLists) :
    Option PacketTagLists := do
  let head ← w.lists[list]?
  if profile = .debug then
    nsAssert profile (!(← w.present tid (w.nodes.length + 1) head))
  let (node, w) ← w.create profile ⟨head, 1, tid, T.serialize tid v⟩
  w.setLink (.head list) (some node)

/-- `Replace`. -/
def replace (profile : BuildProfile) (list tid : Nat) (v : V) (w : PacketTagLists) :
    Option (Bool × PacketTagLists) := do
  let (found, w) ← w.cowTraverse profile list tid (replaceWriter T profile tid v)
  if found.isSome then some (true, w)
  else do
    let w ← w.add T profile list tid v
    return (false, w)

/-- The loop of `Peek`. -/
def peekFrom (w : PacketTagLists) (tid : Nat) : Nat → Option Nat → Option (Option V)
  | _, none => some none
  | 0, some _ => none
  | rounds + 1, some cur => do
      let node ← w.read cur
      if node.tid = tid then some (some (T.deserialize node.tid node.data))
      else peekFrom w tid rounds node.next

/-- `Peek`. -/
def peek (list tid : Nat) (w : PacketTagLists) : Option (Option V) := do
  let head ← w.lists[list]?
  w.peekFrom T tid (w.nodes.length + 1) head

/-- The loop of `RemoveAll`, and the `free` behind it. -/
def removeAllFrom : Nat → PacketTagLists → Option Nat → Option Nat → Option PacketTagLists
  | _, w, prev, none => some (w.freeIf prev)
  | 0, _, _, some _ => none
  | rounds + 1, w, prev, some cur => do
      let w ← w.decrement cur
      let node ← w.read cur
      if node.count > 0 then some (w.freeIf prev)
      else removeAllFrom rounds (w.freeIf prev) (some cur) node.next

/-- `RemoveAll`. -/
def removeAll (list : Nat) (w : PacketTagLists) : Option PacketTagLists := do
  let head ← w.lists[list]?
  let w ← removeAllFrom (w.nodes.length + 1) w none head
  w.setLink (.head list) none

/-- The constructor of an empty list. -/
def construct (w : PacketTagLists) : PacketTagLists := { w with lists := w.lists ++ [none] }

/-- The copy constructor. -/
def copy (o : Nat) (w : PacketTagLists) : Option PacketTagLists := do
  let head ← w.lists[o]?
  { w with lists := w.lists ++ [head] }.incrementIf head

/-- `operator=`. -/
def assign (list o : Nat) (w : PacketTagLists) : Option PacketTagLists := do
  if (← w.lists[list]?) = (← w.lists[o]?) then some w
  else
    let w ← w.removeAll list
    let head ← w.lists[o]?
    let w ← w.setLink (.head list) head
    w.incrementIf head

/-- The calls of a program on its lists. -/
inductive Call (V : Type) where
  | construct
  | copy (o : Nat)
  | assign (list o : Nat)
  | add (list tid : Nat) (v : V)
  | remove (list tid : Nat)
  | replace (list tid : Nat) (v : V)
  | peek (list tid : Nat)
  | removeAll (list : Nat)
  | destroy (list : Nat)
  deriving DecidableEq

/-- What a call returns. -/
inductive Result (V : Type) where
  | done
  | tag (v : Option V)
  | found (b : Bool)
  deriving DecidableEq

/-- One call. The destructor leaves an empty list behind. -/
def step (profile : BuildProfile) (w : PacketTagLists) : Call V → Option (Result V × PacketTagLists)
  | .construct => some (.done, w.construct)
  | .copy o => do return (.done, ← w.copy o)
  | .assign list o => do return (.done, ← w.assign list o)
  | .add list tid v => do return (.done, ← w.add T profile list tid v)
  | .remove list tid => do
      let (v, w) ← w.remove T profile list tid
      return (.tag v, w)
  | .replace list tid v => do
      let (b, w) ← w.replace T profile list tid v
      return (.found b, w)
  | .peek list tid => do return (.tag (← w.peek T list tid), w)
  | .removeAll list | .destroy list => do return (.done, ← w.removeAll list)

end PacketTagLists

end Ns3
