import Ns3.Core.Assert
import Ns3.Library.Run

/-!
# Static routes

`Ipv4StaticRouting` keeps its routes in the order in which they were added. A lookup walks over
them once and keeps the best match so far.
-/

namespace Ns3

abbrev Ipv4Address := BitVec 32

abbrev Ipv4Mask := BitVec 32

namespace Ipv4Mask

/-- `IsMatch`. -/
def isMatch (mask : Ipv4Mask) (a b : Ipv4Address) : Bool := (a &&& mask) == (b &&& mask)

/-- The loop of `GetPrefixLength`. The first number bounds the rounds. -/
def prefixLengthFrom : Nat → BitVec 32 → Nat
  | 0, _ => 0
  | rounds + 1, mask => if mask = 0 then 0 else prefixLengthFrom rounds (mask <<< 1) + 1

/-- `GetPrefixLength`. -/
def getPrefixLength (mask : Ipv4Mask) : Nat := prefixLengthFrom 32 mask

example : ∀ n : Fin 33, getPrefixLength (BitVec.allOnes 32 <<< (32 - n.val)) = n := by
  decide +kernel

/-- `GetOnes`. -/
def getOnes : Ipv4Mask := BitVec.allOnes 32

/-- `GetZero`. -/
def getZero : Ipv4Mask := 0

theorem getPrefixLength_le (mask : Ipv4Mask) : mask.getPrefixLength ≤ 32 := by
  have each (rounds : Nat) : ∀ mask, prefixLengthFrom rounds mask ≤ rounds := by
    induction rounds with
    | zero => exact fun _ => Nat.le_refl 0
    | succ rounds ih =>
      intro mask
      rw [prefixLengthFrom]
      split
      · exact Nat.zero_le _
      · exact Nat.succ_le_succ (ih _)
  exact each 32 mask

/-- The rounds suffice: the loop ends when no bits are left. -/
theorem shift_getPrefixLength (mask : Ipv4Mask) : mask <<< mask.getPrefixLength = 0 := by
  have each (rounds : Nat) : ∀ mask : BitVec 32, mask <<< rounds = 0 →
      mask <<< prefixLengthFrom rounds mask = 0 := by
    induction rounds with
    | zero => exact fun _ => id
    | succ rounds ih =>
      intro mask gone
      rw [prefixLengthFrom]
      split
      case isTrue none_ => exact (BitVec.shiftLeft_zero mask).trans none_
      case isFalse =>
        rw [Nat.add_comm, BitVec.shiftLeft_add]
        refine ih _ ?_
        rw [← BitVec.shiftLeft_add, Nat.add_comm, gone]
  exact each 32 mask (BitVec.shiftLeft_eq_zero (Nat.le_refl 32))

end Ipv4Mask

/-- `IsLocalMulticast`. -/
def Ipv4Address.isLocalMulticast (a : Ipv4Address) : Bool := a &&& 0xffffff00 == 0xe0000000

/-- `Ipv4RoutingTableEntry`. -/
structure Ipv4RoutingTableEntry where
  dest : Ipv4Address
  destNetworkMask : Ipv4Mask
  gateway : Ipv4Address
  interface : BitVec 32
  deriving DecidableEq

/-- `Ipv4Route`. -/
structure Ipv4Route (Device : Type) where
  destination : Ipv4Address
  source : Ipv4Address
  gateway : Ipv4Address
  outputDevice : Device
  deriving DecidableEq

/-- What a lookup asks of `m_ipv4`. -/
structure Ipv4 (Device : Type) where
  getNetDevice : BitVec 32 → Device
  sourceAddressSelection : BitVec 32 → Ipv4Address → Ipv4Address
  getInterfaceForDevice : Device → BitVec 32
  firstAddress : BitVec 32 → Ipv4Address

namespace Ipv4StaticRouting

/-- A route with its metric. -/
abbrev Entry := Ipv4RoutingTableEntry × BitVec 32

/-- `m_networkRoutes`. -/
abbrev NetworkRoutes := List Entry

/-! ## The table -/

/-- `LookupRoute`: is the route in the table with this metric? -/
def lookupRoute (routes : NetworkRoutes) (route : Ipv4RoutingTableEntry) (metric : BitVec 32) :
    Bool :=
  routes.any fun j => j.1.dest == route.dest && j.1.destNetworkMask == route.destNetworkMask &&
    j.1.gateway == route.gateway && j.1.interface == route.interface && j.2 == metric

/-- `AddNetworkRouteTo`. -/
def addNetworkRouteTo (routes : NetworkRoutes) (network : Ipv4Address) (networkMask : Ipv4Mask)
    (nextHop : Ipv4Address) (interface metric : BitVec 32) : NetworkRoutes :=
  let route : Ipv4RoutingTableEntry := ⟨network, networkMask, nextHop, interface⟩
  if lookupRoute routes route metric then routes else routes ++ [(route, metric)]

/-- `AddHostRouteTo`. -/
def addHostRouteTo (routes : NetworkRoutes) (dest nextHop : Ipv4Address)
    (interface metric : BitVec 32) : NetworkRoutes :=
  addNetworkRouteTo routes dest Ipv4Mask.getOnes nextHop interface metric

/-- `SetDefaultRoute`. -/
def setDefaultRoute (routes : NetworkRoutes) (nextHop : Ipv4Address)
    (interface metric : BitVec 32) : NetworkRoutes :=
  addNetworkRouteTo routes 0 Ipv4Mask.getZero nextHop interface metric

/-- `RemoveRoute`. -/
def removeRoute (profile : BuildProfile) (routes : NetworkRoutes) (index : Nat) :
    Option NetworkRoutes :=
  if index < routes.length then some (routes.eraseIdx index)
  else do
    nsAssert profile false
    return routes

/-- `NotifyInterfaceDown`. -/
def notifyInterfaceDown (routes : NetworkRoutes) (i : BitVec 32) : NetworkRoutes :=
  routes.filter fun it => it.1.interface ≠ i

/-- A change of the table. -/
inductive RoutingCall where
  | addNetworkRouteTo (network : Ipv4Address) (networkMask : Ipv4Mask) (nextHop : Ipv4Address)
      (interface metric : BitVec 32)
  | addHostRouteTo (dest nextHop : Ipv4Address) (interface metric : BitVec 32)
  | setDefaultRoute (nextHop : Ipv4Address) (interface metric : BitVec 32)
  | removeRoute (index : Nat)
  | notifyInterfaceDown (i : BitVec 32)
  deriving DecidableEq

/-- One change. -/
def step (profile : BuildProfile) (routes : NetworkRoutes) : RoutingCall → Option NetworkRoutes
  | .addNetworkRouteTo network networkMask nextHop interface metric =>
    some (addNetworkRouteTo routes network networkMask nextHop interface metric)
  | .addHostRouteTo dest nextHop interface metric =>
    some (addHostRouteTo routes dest nextHop interface metric)
  | .setDefaultRoute nextHop interface metric =>
    some (setDefaultRoute routes nextHop interface metric)
  | .removeRoute index => removeRoute profile routes index
  | .notifyInterfaceDown i => some (notifyInterfaceDown routes i)

/-! ## `LookupStatic` -/

section Lookup

variable {Device : Type} [DecidableEq Device] (ipv4 : Ipv4 Device)

/-- The route made from an entry of the table. -/
def routeFrom (route : Ipv4RoutingTableEntry) : Ipv4Route Device where
  destination := route.dest
  source := ipv4.sourceAddressSelection route.interface route.dest
  gateway := route.gateway
  outputDevice := ipv4.getNetDevice route.interface

/-- The loop of `LookupStatic`. -/
def lookupFrom (dest : Ipv4Address) (oif : Option Device) :
    Nat → BitVec 32 → Option (Ipv4Route Device) → NetworkRoutes → Option (Ipv4Route Device)
  | _, _, rtentry, [] => rtentry
  | longestMask, shortestMetric, rtentry, (j, metric) :: rest =>
    let mask := j.destNetworkMask
    let masklen := mask.getPrefixLength
    if !mask.isMatch dest j.dest then lookupFrom dest oif longestMask shortestMetric rtentry rest
    else if oif.any (· ≠ ipv4.getNetDevice j.interface) then
      lookupFrom dest oif longestMask shortestMetric rtentry rest
    else if masklen < longestMask then
      lookupFrom dest oif longestMask shortestMetric rtentry rest
    else
      let shortestMetric := if masklen > longestMask then 0xffffffff else shortestMetric
      let longestMask := masklen
      if metric > shortestMetric then
        lookupFrom dest oif longestMask shortestMetric rtentry rest
      else
        let shortestMetric := metric
        let rtentry := some (routeFrom ipv4 j)
        if masklen = 32 then rtentry
        else lookupFrom dest oif longestMask shortestMetric rtentry rest

/-- `LookupStatic`: `none` if the assertion fails. -/
def lookupStatic (profile : BuildProfile) (routes : NetworkRoutes) (dest : Ipv4Address)
    (oif : Option Device) : Option (Option (Ipv4Route Device)) :=
  if dest.isLocalMulticast then do
    nsAssert profile oif.isSome
    let oif ← oif
    return some { destination := dest
                  source := ipv4.firstAddress (ipv4.getInterfaceForDevice oif)
                  gateway := 0
                  outputDevice := oif }
  else some (lookupFrom ipv4 dest oif 0 0xffffffff none routes)

end Lookup

end Ipv4StaticRouting

end Ns3
