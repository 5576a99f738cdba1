import Ns3.Internet.Ipv4StaticRouting.Basic

/-!
# Endpoints of transport protocols

`Ipv4EndPointDemux` keeps the endpoints of a transport protocol. A packet that comes in is for the
endpoint that matches it best, and it is a fatal error if there is more than one.
-/

namespace Ns3

/-- `Ipv4Address::GetAny`. -/
def Ipv4Address.getAny : Ipv4Address := 0

/-- `CombineMask`. -/
def Ipv4Address.combineMask (a : Ipv4Address) (mask : Ipv4Mask) : Ipv4Address := a &&& mask

/-- `Ipv4EndPoint`. A pointer to an endpoint is its number, and that to a device the device's. -/
structure Ipv4EndPoint where
  id : Nat
  localAddr : Ipv4Address
  localPort : BitVec 16
  peerAddr : Ipv4Address := Ipv4Address.getAny
  peerPort : BitVec 16 := 0
  boundNetDevice : Option Nat := none
  rxEnabled : Bool := true
  deriving DecidableEq

/-- The members of `Ipv4InterfaceAddress` that the demultiplexer reads. -/
structure Ipv4InterfaceAddress where
  addrLocal : Ipv4Address
  mask : Ipv4Mask
  deriving DecidableEq

/-- `Ipv4Interface`. -/
structure Ipv4Interface where
  device : Nat
  addresses : List Ipv4InterfaceAddress
  deriving DecidableEq

/-- `Ipv4EndPointDemux`. -/
structure Ipv4EndPointDemux where
  endPoints : List Ipv4EndPoint := []
  nextId : Nat := 0
  deriving DecidableEq

namespace Ipv4EndPointDemux

/-- `LookupLocal`. -/
def lookupLocal (boundNetDevice : Option Nat) (addr : Ipv4Address) (port : BitVec 16)
    (s : Ipv4EndPointDemux) : Bool :=
  s.endPoints.any fun i =>
    i.localPort == port && i.localAddr == addr && i.boundNetDevice == boundNetDevice

/-- A new endpoint at the end of the list. -/
def pushBack (endPoint : Ipv4EndPoint) (s : Ipv4EndPointDemux) : Ipv4EndPointDemux :=
  { endPoints := s.endPoints ++ [{ endPoint with id := s.nextId }], nextId := s.nextId + 1 }

/-- `Allocate`, with an address and a port. `none` is a null pointer. -/
def allocateLocal (boundNetDevice : Option Nat) (address : Ipv4Address) (port : BitVec 16)
    (s : Ipv4EndPointDemux) : Option Ipv4EndPointDemux :=
  if lookupLocal boundNetDevice address port s || lookupLocal none address port s then none
  else some (pushBack { id := s.nextId, localAddr := address, localPort := port } s)

/-- `Allocate`, with a port. -/
def allocatePort (boundNetDevice : Option Nat) (port : BitVec 16) (s : Ipv4EndPointDemux) :
    Option Ipv4EndPointDemux :=
  allocateLocal boundNetDevice Ipv4Address.getAny port s

/-- `Allocate`, with both addresses and ports. -/
def allocatePeer (boundNetDevice : Option Nat) (localAddress : Ipv4Address)
    (localPort : BitVec 16) (peerAddress : Ipv4Address) (peerPort : BitVec 16)
    (s : Ipv4EndPointDemux) : Option Ipv4EndPointDemux :=
  if s.endPoints.any fun i =>
      i.localPort == localPort && i.localAddr == localAddress && i.peerPort == peerPort &&
        i.peerAddr == peerAddress &&
        (i.boundNetDevice == boundNetDevice || i.boundNetDevice.isNone) then none
  else some (pushBack
    { id := s.nextId, localAddr := localAddress, localPort, peerAddr := peerAddress, peerPort } s)

/-- `BindToNetDevice` of an endpoint. -/
def bindToNetDevice (endPoint : Nat) (netdevice : Option Nat) (s : Ipv4EndPointDemux) :
    Ipv4EndPointDemux :=
  { s with endPoints := s.endPoints.map fun i =>
      if i.id = endPoint then { i with boundNetDevice := netdevice } else i }

/-- `DeAllocate`. -/
def deAllocate (endPoint : Nat) (s : Ipv4EndPointDemux) : Ipv4EndPointDemux :=
  { s with endPoints := s.endPoints.eraseP (·.id = endPoint) }

/-! ## `Lookup` -/

/-- A packet that comes in. -/
structure Incoming where
  daddr : Ipv4Address
  dport : BitVec 16
  saddr : Ipv4Address
  sport : BitVec 16
  incomingInterface : Ipv4Interface
  deriving DecidableEq

/-- `localAddressIsSubnetAny`: the local address is that of a subnet of the interface, and the
destination is in the subnet. -/
def isSubnetAny (localAddr daddr : Ipv4Address) (interface : Ipv4Interface) : Bool :=
  interface.addresses.any fun addr =>
    let addrNetpart := addr.addrLocal.combineMask addr.mask
    localAddr == addrNetpart && addrNetpart == daddr.combineMask addr.mask

/-- `localAddressMatchesWildCard`. -/
def matchesWildCard (localAddr daddr : Ipv4Address) (interface : Ipv4Interface) : Bool :=
  localAddr != daddr &&
    (localAddr == Ipv4Address.getAny || isSubnetAny localAddr daddr interface)

/-- The endpoint can receive packets for this port over this interface. -/
def receives (p : Incoming) (endP : Ipv4EndPoint) : Bool :=
  endP.rxEnabled && endP.localPort == p.dport &&
    endP.boundNetDevice.all (· == p.incomingInterface.device)

/-- The remote address and port match exactly. -/
def remoteExact (p : Incoming) (endP : Ipv4EndPoint) : Bool :=
  endP.peerAddr == p.saddr && endP.peerPort == p.sport

/-- The remote address and port are wildcards. -/
def remoteWildCard (endP : Ipv4EndPoint) : Bool :=
  endP.peerAddr == Ipv4Address.getAny && endP.peerPort == 0

/-- The endpoint goes into `retval4`. -/
def case4 (p : Incoming) (endP : Ipv4EndPoint) : Bool :=
  receives p endP && endP.localAddr == p.daddr && remoteExact p endP

/-- The endpoint goes into `retval3`. -/
def case3 (p : Incoming) (endP : Ipv4EndPoint) : Bool :=
  receives p endP && matchesWildCard endP.localAddr p.daddr p.incomingInterface &&
    remoteExact p endP

/-- The endpoint goes into `retval2`. -/
def case2 (p : Incoming) (endP : Ipv4EndPoint) : Bool :=
  receives p endP && endP.localAddr == p.daddr && remoteWildCard endP

/-- The endpoint goes into `retval1`. -/
def case1 (p : Incoming) (endP : Ipv4EndPoint) : Bool :=
  receives p endP && matchesWildCard endP.localAddr p.daddr p.incomingInterface &&
    remoteWildCard endP

/-- The most exact matches. -/
def mostExact (p : Incoming) (s : Ipv4EndPointDemux) : List Ipv4EndPoint :=
  let retval4 := s.endPoints.filter (case4 p)
  let retval3 := s.endPoints.filter (case3 p)
  let retval2 := s.endPoints.filter (case2 p)
  let retval1 := s.endPoints.filter (case1 p)
  if !retval4.isEmpty then retval4
  else if !retval3.isEmpty then retval3
  else if !retval2.isEmpty then retval2
  else retval1

/-- `Lookup`: `none` if there are too many endpoints. -/
def lookup (p : Incoming) (s : Ipv4EndPointDemux) : Option (List Ipv4EndPoint) := do
  let retval := mostExact p s
  nsAbortIf (retval.length > 1)
  return retval

/-! ## Calls -/

/-- A call of `Allocate`, with what is passed to it, or of `DeAllocate`. -/
inductive Call where
  | port (boundNetDevice : Option Nat) (port : BitVec 16)
  | addressPort (boundNetDevice : Option Nat) (address : Ipv4Address) (port : BitVec 16)
  | fourTuple (boundNetDevice : Option Nat) (localAddress : Ipv4Address) (localPort : BitVec 16)
      (peerAddress : Ipv4Address) (peerPort : BitVec 16)
  | deAllocate (endPoint : Nat)
  deriving DecidableEq

/-- A new endpoint is bound to the device that was passed to `Allocate`. -/
def bound (netdevice : Option Nat) (s : Ipv4EndPointDemux) (allocated : Option Ipv4EndPointDemux) :
    Ipv4EndPointDemux :=
  match allocated with
  | none => s
  | some t => bindToNetDevice s.nextId netdevice t

/-- One call. -/
def step (s : Ipv4EndPointDemux) : Call → Option Ipv4EndPointDemux
  | .port device port => some (bound device s (allocatePort device port s))
  | .addressPort device address port => some (bound device s (allocateLocal device address port s))
  | .fourTuple device localAddress localPort peerAddress peerPort =>
    some (bound device s
      (allocatePeer device localAddress localPort peerAddress peerPort s))
  | .deAllocate endPoint => some (deAllocate endPoint s)

end Ipv4EndPointDemux

end Ns3
