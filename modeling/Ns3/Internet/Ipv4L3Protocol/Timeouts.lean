import Ns3.Internet.Ipv4L3Protocol.Basic
import Ns3.Library.Run

/-!
# Timeouts of incomplete datagrams

The fragments of a datagram are kept until the datagram is complete or its timeout expires. The
expiry times stand in one list, and one event of the simulator at a time is scheduled for the
first of them. A completed datagram takes its entry out of the middle of the list and leaves the
event behind.
-/

namespace Ns3

namespace Ipv4L3Protocol

/-- An entry of `m_timeoutEventList`. The node of the list that holds it has a number, so that an
iterator is the number of a node. -/
structure TimeoutEntry where
  node : Nat
  expiry : Int
  key : FragmentKey
  header : Ipv4Header
  iif : Nat
  deriving DecidableEq

/-- `Fragments` with `m_timeoutIter`. -/
structure TimedFragments extends Fragments where
  timeoutIter : Nat
  deriving DecidableEq

/-- What is reported to others. -/
inductive Report where
  | timeExceeded (header : Ipv4Header) (packet : Packet)
  | drop (header : Ipv4Header) (packet : Packet) (iif : Nat)
  | complete (packet : Packet)
  deriving DecidableEq

end Ipv4L3Protocol

/-- The members of `Ipv4L3Protocol` that reassembly uses, with the time of the simulator, the times
at which a scheduled `HandleTimeout` is still to run, and what has been reported. -/
structure Ipv4L3Protocol where
  now : Int := 0
  mapFragments : FragmentKey → Option Ipv4L3Protocol.TimedFragments := fun _ => none
  timeoutEventList : List Ipv4L3Protocol.TimeoutEntry := []
  nextNode : Nat := 0
  scheduled : List Int := []
  reports : List Ipv4L3Protocol.Report := []

namespace Ipv4L3Protocol

/-- The loop of `GetPartialPacket`. -/
def Fragments.partialFrom (profile : BuildProfile) :
    Packet → Nat → List (Packet × Nat) → Option Packet
  | p, _, [] => some p
  | p, lastEndOffset, it :: rest =>
    if lastEndOffset > it.2 then do
      let newStart := lastEndOffset - it.2
      let newSize := UInt32.sub it.1.length newStart
      let tempFragment ← it.1.createFragment profile newStart newSize
      let p := p.addAtEnd tempFragment
      partialFrom profile p (uint16 p.length) rest
    else
      let p := if lastEndOffset = it.2 then p.addAtEnd it.1 else p
      partialFrom profile p (uint16 p.length) rest

/-- `GetPartialPacket`. -/
def Fragments.getPartialPacket (profile : BuildProfile) (f : Fragments) : Option Packet :=
  match f.fragments with
  | [] => none
  | it :: rest => if it.2 > 0 then some [] else Fragments.partialFrom profile [] 0 (it :: rest)

variable (profile : BuildProfile) (fragmentExpirationTimeout : Int)

/-- `Simulator::Schedule` of `HandleTimeout`. -/
def schedule (delay : Int) (s : Ipv4L3Protocol) : Option Ipv4L3Protocol := do
  nsAssert profile (0 ≤ delay)
  return { s with scheduled := s.scheduled ++ [s.now + delay] }

/-- An event for the first entry of the list. -/
def scheduleFirst (s : Ipv4L3Protocol) : Option Ipv4L3Protocol :=
  if s.timeoutEventList.isEmpty then schedule profile fragmentExpirationTimeout s else some s

/-- `SetTimeout`: the iterator and the state. -/
def setTimeout (key : FragmentKey) (header : Ipv4Header) (iif : Nat) (s : Ipv4L3Protocol) :
    Option (Nat × Ipv4L3Protocol) := do
  let s ← scheduleFirst profile fragmentExpirationTimeout s
  let entry : TimeoutEntry :=
    { node := s.nextNode, expiry := s.now + fragmentExpirationTimeout, key, header, iif }
  return (s.nextNode, { s with
    timeoutEventList := s.timeoutEventList ++ [entry], nextNode := s.nextNode + 1 })

/-- `m_timeoutEventList.erase`, of a node of the list. -/
def eraseTimeout (iter : Nat) (s : Ipv4L3Protocol) : Option Ipv4L3Protocol :=
  if s.timeoutEventList.any (·.node = iter) then
    some { s with timeoutEventList := s.timeoutEventList.filter (·.node ≠ iter) }
  else none

/-- `ProcessFragment` from the fragments that the datagram has. -/
def collectFragment (packet : Packet) (header : Ipv4Header) (fragments : TimedFragments)
    (s : Ipv4L3Protocol) : Option Ipv4L3Protocol :=
  let added := fragments.addFragment packet header.fragmentOffset (!header.isLastFragment)
  if added.isEntire then do
    let packet ← added.getPacket profile
    let s ← eraseTimeout fragments.timeoutIter s
    return { s with
      mapFragments := Function.update s.mapFragments header.key none
      reports := s.reports ++ [.complete packet] }
  else
    let added := { toFragments := added, timeoutIter := fragments.timeoutIter }
    some { s with mapFragments := Function.update s.mapFragments header.key (some added) }

/-- `ProcessFragment`. -/
def processTimed (packet : Packet) (header : Ipv4Header) (iif : Nat) (s : Ipv4L3Protocol) :
    Option Ipv4L3Protocol :=
  match s.mapFragments header.key with
  | none => do
      let (iter, s) ← setTimeout profile fragmentExpirationTimeout header.key header iif s
      collectFragment profile packet header { timeoutIter := iter } s
  | some fragments => collectFragment profile packet header fragments s

/-- `HandleFragmentsTimeout`: `none` if there are no fragments under the key. -/
def handleFragmentsTimeout (key : FragmentKey) (header : Ipv4Header) (iif : Nat)
    (s : Ipv4L3Protocol) : Option Ipv4L3Protocol := do
  let fragments ← s.mapFragments key
  let packet ← fragments.getPartialPacket profile
  let icmp := if packet.length > 8 then [.timeExceeded header packet] else []
  return { s with
    mapFragments := Function.update s.mapFragments key none
    reports := s.reports ++ icmp ++ [.drop header packet iif] }

/-- The loop of `HandleTimeout`, over the list. -/
def expireFrom : List TimeoutEntry → Ipv4L3Protocol → Option Ipv4L3Protocol
  | [], s => some { s with timeoutEventList := [] }
  | entry :: rest, s =>
    if entry.expiry = s.now then do
      let s ← handleFragmentsTimeout profile entry.key entry.header entry.iif s
      expireFrom rest { s with timeoutEventList := rest }
    else some { s with timeoutEventList := entry :: rest }

/-- `HandleTimeout`. -/
def handleTimeout (s : Ipv4L3Protocol) : Option Ipv4L3Protocol := do
  let s ← expireFrom profile s.timeoutEventList s
  match s.timeoutEventList with
  | [] => some s
  | entry :: _ => schedule profile (entry.expiry - s.now) s

/-- The events of the simulator: a fragment arrives, a scheduled `HandleTimeout` runs, or anything
else happens. -/
inductive Event where
  | fragment (time : Int) (packet : Packet) (header : Ipv4Header) (iif : Nat)
  | timeout (time : Int)
  | other (time : Int)
  deriving DecidableEq

/-- The time of an event. -/
def Event.time : Event → Int
  | .fragment time _ _ _ => time
  | .timeout time => time
  | .other time => time

/-- One event. -/
def handle (s : Ipv4L3Protocol) : Event → Option Ipv4L3Protocol
  | .fragment time packet header iif =>
    processTimed profile fragmentExpirationTimeout packet header iif { s with now := time }
  | .timeout time =>
    handleTimeout profile { s with now := time, scheduled := s.scheduled.erase time }
  | .other time => some { s with now := time }

/-- The event can happen: a timeout only if it has been scheduled. -/
def Pending (s : Ipv4L3Protocol) : Event → Prop
  | .fragment .. => True
  | .timeout time => time ∈ s.scheduled
  | .other _ => True

/-- The simulator runs events in the order of their times: the time does not go back, and no
scheduled event is passed over. -/
def Next (s : Ipv4L3Protocol) (e : Event) : Prop :=
  s.now ≤ e.time ∧ (∀ time ∈ s.scheduled, e.time ≤ time) ∧ Pending s e

instance (s : Ipv4L3Protocol) (e : Event) : Decidable (Pending s e) :=
  match e with
  | .fragment .. => instDecidableTrue
  | .timeout time => inferInstanceAs (Decidable (time ∈ s.scheduled))
  | .other _ => instDecidableTrue

instance (s : Ipv4L3Protocol) (e : Event) : Decidable (Next s e) :=
  inferInstanceAs (Decidable (_ ∧ _ ∧ _))

end Ipv4L3Protocol

end Ns3
