import Ns3.Internet.ArpCache

/-!
# Address resolution

`ArpL3Protocol::Lookup` gives the hardware address of a destination, or keeps the packet and asks
for it. A reply makes the entry alive and gives its packets back to `Ipv4Interface::Send`, which
looks the destination up again. Modelled are the cache of one device and its interface, which is
up: `Lookup` is called by an interface that is up.
-/

namespace Ns3

namespace ArpL3Protocol

open ArpCache

/-- What is read of an `ArpHeader`. -/
structure ArpHeader (α : Type) where
  type : Nat
  macSource : α
  macDest : α
  ipv4Source : Ipv4Address
  ipv4Dest : Ipv4Address
  deriving DecidableEq

/-- `IsRequest`. -/
def ArpHeader.isRequest {α : Type} (arp : ArpHeader α) : Bool := arp.type = 1

/-- `IsReply`. -/
def ArpHeader.isReply {α : Type} (arp : ArpHeader α) : Bool := arp.type = 2

/-- The interface: its local addresses, the address of its device, and the destinations that
`Ipv4Interface::Send` does not look up, which are local, broadcast and multicast addresses. -/
structure Interface (α : Type) where
  addresses : List Ipv4Address
  deviceAddress : α
  isDirect : Ipv4Address → Bool

variable {α ι : Type} [DecidableEq α] [Inhabited α] (profile : BuildProfile) (c : Attributes)
  (i : Interface α) (now : Int)

/-- `MarkWaitReply` of the entry of an address, and the schedule of `SendArpRequest`. -/
def waitReply (packet : ι) (destination : Ipv4Address) (e : Entry α ι) (cache : ArpCache α ι) :
    Option (Option α × ArpCache α ι × List (Output α ι)) := do
  let e ← e.markWaitReply profile now packet
  let cache ← (cache.setEntry destination e).startWaitReplyTimer profile c now
  return (none, cache, [.scheduledRequest destination])

/-- `Lookup`: the hardware address if it is known. `NS_FATAL_ERROR` ends the program. -/
def lookup (packet : ι) (destination : Ipv4Address) (cache : ArpCache α ι) :
    Option (Option α × ArpCache α ι × List (Output α ι)) :=
  match cache.lookup destination with
  | some e =>
    if e.isExpired c now then
      match e.state with
      | .dead => waitReply profile c now packet destination e cache
      | .alive => waitReply profile c now packet destination e cache
      | _ => none
    else
      match e.state with
      | .dead => some (none, cache, [.dropped packet])
      | .alive => some (some e.macAddress, cache, [])
      | .waitReply => do
          match ← e.updateWaitReply profile c packet with
          | some e => return (none, cache.setEntry destination e, [])
          | none => return (none, cache, [.dropped packet])
      | .permanent => some (some e.macAddress, cache, [])
      | .staticAutogenerated => some (some e.macAddress, cache, [])
  | none => waitReply profile c now packet destination { macAddress := default } cache

/-- `Ipv4Interface::Send` of a packet whose destination is looked up. -/
def resolve (packet : ι) (destination : Ipv4Address) (cache : ArpCache α ι) :
    Option (ArpCache α ι × List (Output α ι)) := do
  let (found, cache, outputs) ← lookup profile c now packet destination cache
  match found with
  | some hardwareDestination => return (cache, outputs ++ [.sent packet (some hardwareDestination)])
  | none => return (cache, outputs)

/-- `Ipv4Interface::Send`. -/
def interfaceSend (packet : ι) (destination : Ipv4Address) (cache : ArpCache α ι) :
    Option (ArpCache α ι × List (Output α ι)) :=
  if i.isDirect destination then some (cache, [.sent packet none])
  else resolve profile c now packet destination cache

/-- The loop of `Receive` over the packets that wait for a reply. -/
def deliver (destination : Ipv4Address) : Nat → ArpCache α ι →
    Option (ArpCache α ι × List (Output α ι))
  | 0, _ => none
  | rounds + 1, cache => do
      let e ← cache.lookup destination
      match e.pending with
      | [] => return (cache, [])
      | packet :: pending =>
        let cache := cache.setEntry destination { e with pending }
        let (cache, first) ← interfaceSend profile c i now packet destination cache
        let (cache, later) ← deliver destination rounds cache
        return (cache, first ++ later)

/-- The reply of `Receive`. The loop may take a packet back once before it ends. -/
def receiveReply (arp : ArpHeader α) (cache : ArpCache α ι) :
    Option (ArpCache α ι × List (Output α ι)) :=
  match cache.lookup arp.ipv4Source with
  | some e =>
    if e.state = .waitReply then do
      let e ← e.markAlive profile now arp.macSource
      deliver profile c i now arp.ipv4Source (e.pending.length + 2)
        (cache.setEntry arp.ipv4Source e)
    else some (cache, [.refused])
  | none => some (cache, [.refused])

/-- `Receive`, over the local addresses. -/
def receive (arp : ArpHeader α) (cache : ArpCache α ι) :
    List Ipv4Address → Option (ArpCache α ι × List (Output α ι))
  | [] => some (cache, [])
  | address :: rest =>
    if arp.isRequest ∧ arp.ipv4Dest = address then some (cache, [.reply arp.ipv4Source])
    else if arp.isReply ∧ arp.ipv4Dest = address ∧ arp.macDest = i.deviceAddress then
      receiveReply profile c i now arp cache
    else receive arp cache rest

/-! ## Runs -/

/-- A simulation: the packets that `Lookup` has been given, those that `Flush` has deleted, and
what has been done. -/
structure Simulation (α ι : Type) where
  now : Int
  cache : ArpCache α ι
  given : List ι := []
  flushed : List ι := []
  outputs : List (Output α ι) := []
  deriving DecidableEq

/-- The events. -/
inductive Event (α ι : Type) where
  | lookup (time : Int) (packet : ι) (destination : Ipv4Address)
  | receive (time : Int) (arp : ArpHeader α)
  | timeout (time : Int)
  | flush (time : Int)
  deriving DecidableEq

/-- The time of an event. -/
def Event.time : Event α ι → Int
  | .lookup time _ _ => time
  | .receive time _ => time
  | .timeout time => time
  | .flush time => time

/-- One event. -/
def handle (s : Simulation α ι) : Event α ι → Option (Simulation α ι)
  | .lookup time packet destination => do
      let (cache, outputs) ← resolve profile c time packet destination s.cache
      return { s with
        now := time, cache, given := s.given ++ [packet], outputs := s.outputs ++ outputs }
  | .receive time arp => do
      let (cache, outputs) ← receive profile c i time arp s.cache i.addresses
      return { s with now := time, cache, outputs := s.outputs ++ outputs }
  | .timeout time => do
      let (cache, outputs) ← s.cache.handleWaitReplyTimeout profile c time
      return { s with now := time, cache, outputs := s.outputs ++ outputs }
  | .flush time => some { s with
      now := time, cache := s.cache.flush, flushed := s.flushed ++ pendingPackets s.cache.entries }

/-- The simulator runs events in the order of their times: the time does not go back and stays in
the range of `Time`, and an event at a later time does not pass over the timer. -/
def Next (s : Simulation α ι) (e : Event α ι) : Prop :=
  s.now ≤ e.time ∧ e.time ≤ Entry.timeMax ∧
    (s.now < e.time → ∀ t ∈ s.cache.waitReplyTimer, e.time ≤ t) ∧
    match e with
    | .timeout time => s.cache.waitReplyTimer = some time
    | _ => True

instance (s : Simulation α ι) : DecidablePred (Next s)
  | .timeout _ => inferInstanceAs (Decidable (_ ∧ _ ∧ (_ → _) ∧ _ = _))
  | .lookup _ _ _ | .receive _ _ | .flush _ => inferInstanceAs (Decidable (_ ∧ _ ∧ (_ → _) ∧ True))

end ArpL3Protocol

end Ns3
