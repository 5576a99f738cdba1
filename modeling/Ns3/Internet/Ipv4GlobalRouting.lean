import Ns3.Internet.Ipv4StaticRouting.Basic
import Ns3.Internet.Ipv4StaticRouting.Lookup
import Mathlib.Data.List.Basic

/-!
# Global routes

`Ipv4GlobalRouting` keeps routes to hosts, routes to networks and external routes in three lists.
A lookup collects the routes of the first kind that has a match and takes one of them.
-/

namespace Ns3

namespace Ipv4RoutingTableEntry

/-- `CreateHostRouteTo`. Without a gateway it is the zero address. -/
def createHostRouteTo (dest gateway : Ipv4Address) (interface : BitVec 32) :
    Ipv4RoutingTableEntry :=
  ⟨dest, Ipv4Mask.getOnes, gateway, interface⟩

/-- `CreateNetworkRouteTo`. Without a gateway it is the zero address. -/
def createNetworkRouteTo (network : Ipv4Address) (networkMask : Ipv4Mask) (gateway : Ipv4Address)
    (interface : BitVec 32) : Ipv4RoutingTableEntry :=
  ⟨network, networkMask, gateway, interface⟩

/-- `IsHost`. -/
def isHost (route : Ipv4RoutingTableEntry) : Bool := route.destNetworkMask == Ipv4Mask.getOnes

@[simp] theorem isHost_createHostRouteTo (dest gateway : Ipv4Address) (interface : BitVec 32) :
    (createHostRouteTo dest gateway interface).isHost = true := beq_self_eq_true _

end Ipv4RoutingTableEntry

/-- `Ipv4GlobalRouting`. -/
structure Ipv4GlobalRouting where
  randomEcmpRouting : Bool := false
  hostRoutes : List Ipv4RoutingTableEntry := []
  networkRoutes : List Ipv4RoutingTableEntry := []
  asExternalRoutes : List Ipv4RoutingTableEntry := []
  deriving DecidableEq

namespace Ipv4GlobalRouting

open Ipv4RoutingTableEntry

/-! ## The table -/

/-- `AddHostRouteTo`. -/
def addHostRouteTo (dest nextHop : Ipv4Address) (interface : BitVec 32) (s : Ipv4GlobalRouting) :
    Ipv4GlobalRouting :=
  { s with hostRoutes := s.hostRoutes ++ [createHostRouteTo dest nextHop interface] }

/-- `AddNetworkRouteTo`. -/
def addNetworkRouteTo (network : Ipv4Address) (networkMask : Ipv4Mask) (nextHop : Ipv4Address)
    (interface : BitVec 32) (s : Ipv4GlobalRouting) : Ipv4GlobalRouting :=
  { s with networkRoutes :=
      s.networkRoutes ++ [createNetworkRouteTo network networkMask nextHop interface] }

/-- `AddASExternalRouteTo`. -/
def addASExternalRouteTo (network : Ipv4Address) (networkMask : Ipv4Mask) (nextHop : Ipv4Address)
    (interface : BitVec 32) (s : Ipv4GlobalRouting) : Ipv4GlobalRouting :=
  { s with asExternalRoutes :=
      s.asExternalRoutes ++ [createNetworkRouteTo network networkMask nextHop interface] }

/-- `RemoveRoute`: the index counts through the three lists. -/
def removeRoute (profile : BuildProfile) (index : Nat) (s : Ipv4GlobalRouting) :
    Option Ipv4GlobalRouting :=
  if index < s.hostRoutes.length then some { s with hostRoutes := s.hostRoutes.eraseIdx index }
  else
    let index := index - s.hostRoutes.length
    if index < s.networkRoutes.length then
      some { s with networkRoutes := s.networkRoutes.eraseIdx index }
    else
      let index := index - s.networkRoutes.length
      if index < s.asExternalRoutes.length then
        some { s with asExternalRoutes := s.asExternalRoutes.eraseIdx index }
      else do
        nsAssert profile false
        return s

/-- A call that changes the table, or the attribute. -/
inductive RoutingCall where
  | addHostRouteTo (dest nextHop : Ipv4Address) (interface : BitVec 32)
  | addNetworkRouteTo (network : Ipv4Address) (networkMask : Ipv4Mask) (nextHop : Ipv4Address)
      (interface : BitVec 32)
  | addASExternalRouteTo (network : Ipv4Address) (networkMask : Ipv4Mask) (nextHop : Ipv4Address)
      (interface : BitVec 32)
  | removeRoute (index : Nat)
  | setRandomEcmpRouting (value : Bool)
  deriving DecidableEq

/-- One call. -/
def step (profile : BuildProfile) (s : Ipv4GlobalRouting) : RoutingCall → Option Ipv4GlobalRouting
  | .addHostRouteTo dest nextHop interface => some (addHostRouteTo dest nextHop interface s)
  | .addNetworkRouteTo network networkMask nextHop interface =>
    some (addNetworkRouteTo network networkMask nextHop interface s)
  | .addASExternalRouteTo network networkMask nextHop interface =>
    some (addASExternalRouteTo network networkMask nextHop interface s)
  | .removeRoute index => removeRoute profile index s
  | .setRandomEcmpRouting value => some { s with randomEcmpRouting := value }

/-! ## `LookupGlobal` -/

section Lookup

variable {Device : Type} [DecidableEq Device] (ipv4 : Ipv4 Device)

/-- The route made from an entry of the table. -/
def routeFrom (route : Ipv4RoutingTableEntry) : Ipv4Route Device where
  destination := route.dest
  source := ipv4.firstAddress route.interface
  gateway := route.gateway
  outputDevice := ipv4.getNetDevice route.interface

variable (dest : Ipv4Address) (oif : Option Device)

/-- The entry is not skipped because of the output device. -/
def onRequested (route : Ipv4RoutingTableEntry) : Bool :=
  !oif.any (· ≠ ipv4.getNetDevice route.interface)

/-- The test in the loop over the routes to hosts. -/
def isDest (i : Ipv4RoutingTableEntry) : Bool := i.dest == dest && onRequested ipv4 oif i

/-- The loop over the routes to hosts. -/
def hostRoutesTo (profile : BuildProfile) :
    List Ipv4RoutingTableEntry → Option (List Ipv4RoutingTableEntry)
  | [] => some []
  | i :: rest => do
      nsAssert profile i.isHost
      let later ← hostRoutesTo profile rest
      return if isDest ipv4 dest oif i then i :: later else later

/-- The test in the loops over the routes to networks. -/
def leadsTo (j : Ipv4RoutingTableEntry) : Bool :=
  j.destNetworkMask.isMatch dest j.dest && onRequested ipv4 oif j

/-- `allRoutes`: external routes only if there are no others, and one of them at most. -/
def allRoutes (profile : BuildProfile) (s : Ipv4GlobalRouting) :
    Option (List Ipv4RoutingTableEntry) := do
  let hosts ← hostRoutesTo ipv4 dest oif profile s.hostRoutes
  let routes := if hosts.isEmpty then s.networkRoutes.filter (leadsTo ipv4 dest oif) else hosts
  return if routes.isEmpty then (s.asExternalRoutes.find? (leadsTo ipv4 dest oif)).toList
    else routes

/-- `LookupGlobal`, with `m_rand->GetInteger`: `none` if the program ends. -/
def lookupGlobal (getInteger : Nat → Nat → Nat) (profile : BuildProfile) (s : Ipv4GlobalRouting) :
    Option (Option (Ipv4Route Device)) := do
  let routes ← allRoutes ipv4 dest oif profile s
  if routes.isEmpty then return none
  let selectIndex := if s.randomEcmpRouting then getInteger 0 (routes.length - 1) else 0
  let route ← routes[selectIndex]?
  return some (routeFrom ipv4 route)

end Lookup

end Ipv4GlobalRouting

end Ns3

/-!
## Which global route a lookup returns

The lookup takes the first entry it collects. Among the routes to networks that is the one
installed first, whatever its prefix.
-/

namespace Ns3.Ipv4GlobalRouting

open Ipv4RoutingTableEntry

open Ipv4StaticRouting (numbered)

variable {Device : Type} [DecidableEq Device] {ipv4 : Ipv4 Device} {dest : Ipv4Address}
  {oif : Option Device} {s t : Ipv4GlobalRouting} {profile : BuildProfile}
  {i j h : Ipv4RoutingTableEntry} {routes : List Ipv4RoutingTableEntry}

section Spec

variable (ipv4 dest oif)

/-- The entry leaves by the requested device, if one is requested. -/
def Requested (j : Ipv4RoutingTableEntry) : Prop := ∀ d ∈ oif, d = ipv4.getNetDevice j.interface

/-- A route to the host itself. -/
def HostMatch (i : Ipv4RoutingTableEntry) : Prop := i.dest = dest ∧ Requested ipv4 oif i

/-- A route to a network that contains the destination. -/
def Matches (j : Ipv4RoutingTableEntry) : Prop :=
  j.destNetworkMask.isMatch dest j.dest = true ∧ Requested ipv4 oif j

/-- The matching route to a network with no longer prefix than its own among them. -/
structure Longest (routes : List Ipv4RoutingTableEntry) (j : Ipv4RoutingTableEntry) : Prop where
  mem : j ∈ routes
  isMatch : Matches ipv4 dest oif j
  longest : ∀ k ∈ routes, Matches ipv4 dest oif k →
    k.destNetworkMask.getPrefixLength ≤ j.destNetworkMask.getPrefixLength

/-- The entries that a lookup may use: to the host, else by the longest prefix, else external. -/
inductive Preferred (s : Ipv4GlobalRouting) (j : Ipv4RoutingTableEntry) : Prop
  | host (mem : j ∈ s.hostRoutes) (isMatch : HostMatch ipv4 dest oif j)
  | network (noHost : ∀ i ∈ s.hostRoutes, ¬ HostMatch ipv4 dest oif i)
      (longest : Longest ipv4 dest oif s.networkRoutes j)
  | external (noHost : ∀ i ∈ s.hostRoutes, ¬ HostMatch ipv4 dest oif i)
      (noNetwork : ∀ i ∈ s.networkRoutes, ¬ Matches ipv4 dest oif i)
      (mem : j ∈ s.asExternalRoutes) (isMatch : Matches ipv4 dest oif j)

/-- No entry of the table matches. -/
structure NoMatch (s : Ipv4GlobalRouting) : Prop where
  host : ∀ i ∈ s.hostRoutes, ¬ HostMatch ipv4 dest oif i
  network : ∀ j ∈ s.networkRoutes, ¬ Matches ipv4 dest oif j
  external : ∀ k ∈ s.asExternalRoutes, ¬ Matches ipv4 dest oif k

/-- The lookup returns null if and only if nothing matches, and otherwise a preferred route. -/
def HonoursLongestPrefix (getInteger : Nat → Nat → Nat) (profile : BuildProfile)
    (s : Ipv4GlobalRouting) : Prop :=
  ∃ rtentry, lookupGlobal ipv4 dest oif getInteger profile s = some rtentry ∧
    (rtentry = none ↔ NoMatch ipv4 dest oif s) ∧
    ∀ route ∈ rtentry, ∃ j, Preferred ipv4 dest oif s j ∧ route = routeFrom ipv4 j

/-- Unless a host matches, the first matching route to a network leads where one with the longest
prefix leads. -/
def FirstLongest (s : Ipv4GlobalRouting) : Prop :=
  (∃ i ∈ s.hostRoutes, HostMatch ipv4 dest oif i) ∨
    ∀ h ∈ s.networkRoutes.find? (leadsTo ipv4 dest oif),
      ∃ j, Longest ipv4 dest oif s.networkRoutes j ∧ routeFrom ipv4 j = routeFrom ipv4 h

end Spec

theorem onRequested_iff : onRequested ipv4 oif j = true ↔ Requested ipv4 oif j := by
  cases oif with
  | none => exact iff_of_true rfl fun d mem => by cases mem
  | some d => simp [onRequested, Requested]

theorem leadsTo_iff : leadsTo ipv4 dest oif j = true ↔ Matches ipv4 dest oif j := by
  rw [leadsTo, Bool.and_eq_true, onRequested_iff, Matches]

theorem isDest_iff : isDest ipv4 dest oif i = true ↔ HostMatch ipv4 dest oif i := by
  rw [isDest, Bool.and_eq_true, onRequested_iff, beq_iff_eq, HostMatch]

theorem hostRoutesTo_eq (hosts : ∀ i ∈ routes, i.isHost = true) :
    hostRoutesTo ipv4 dest oif profile routes =
      some (routes.filter (isDest ipv4 dest oif)) := by
  induction routes with
  | nil => rfl
  | cons i rest ih =>
    have here : i.isHost = true := hosts i List.mem_cons_self
    have later := ih fun k mem => hosts k (List.mem_cons_of_mem i mem)
    simp [hostRoutesTo, here, later, List.filter_cons]

/-! ## The table of a run -/

/-- Every route among those to hosts is one. -/
def AllHosts (s : Ipv4GlobalRouting) : Prop := ∀ i ∈ s.hostRoutes, i.isHost = true

theorem AllHosts.step {call : RoutingCall} (all : AllHosts s)
    (returns : step profile s call = some t) : AllHosts t := by
  cases call with
  | addHostRouteTo dest nextHop interface =>
    cases returns
    intro i mem
    obtain before | new := List.mem_append.mp mem
    · exact all i before
    · rw [List.mem_singleton.mp new]
      exact isHost_createHostRouteTo dest nextHop interface
  | addNetworkRouteTo network networkMask nextHop interface =>
    cases returns
    exact all
  | addASExternalRouteTo network networkMask nextHop interface =>
    cases returns
    exact all
  | setRandomEcmpRouting value =>
    cases returns
    exact all
  | removeRoute index =>
    simp only [Ipv4GlobalRouting.step, removeRoute] at returns
    split at returns
    · cases returns
      exact fun i mem => all i (List.mem_of_mem_eraseIdx mem)
    · split at returns
      · cases returns
        exact all
      · split at returns
        · cases returns
          exact all
        · obtain ⟨_, -, same⟩ := bind_returns.mp returns
          cases same
          exact all

theorem AllHosts.run {calls : List RoutingCall} (all : AllHosts s)
    (run : Run.exec (Ipv4GlobalRouting.step profile) s calls = some t) : AllHosts t :=
  Run.invariant all (Run.Meets.of_forall (fun _ _ => trivial) s calls)
    (fun _ _ _ all _ returns => all.step returns) run

/-! ## The lookup -/

/-- The first entry the lookup may collect. -/
def firstRoute (ipv4 : Ipv4 Device) (dest : Ipv4Address) (oif : Option Device)
    (s : Ipv4GlobalRouting) : Option Ipv4RoutingTableEntry :=
  (s.hostRoutes.find? (isDest ipv4 dest oif)).or
    ((s.networkRoutes.find? (leadsTo ipv4 dest oif)).or
      (s.asExternalRoutes.find? (leadsTo ipv4 dest oif)))

theorem head?_ite_isEmpty {α : Type} (l m : List α) :
    (if l.isEmpty then m else l).head? = l.head?.or m.head? := by
  cases l <;> rfl

theorem lookupGlobal_eq {getInteger : Nat → Nat → Nat} (all : AllHosts s)
    (noEcmp : s.randomEcmpRouting = false) :
    lookupGlobal ipv4 dest oif getInteger profile s =
      some ((firstRoute ipv4 dest oif s).map (routeFrom ipv4)) := by
  have collects : ∃ routes, allRoutes ipv4 dest oif profile s = some routes ∧
      routes.head? = firstRoute ipv4 dest oif s := by
    refine ⟨_, by rw [allRoutes, hostRoutesTo_eq all]; rfl, ?_⟩
    rw [head?_ite_isEmpty, head?_ite_isEmpty, List.head?_filter, List.head?_filter,
      Option.head?_toList, Option.or_assoc, firstRoute]
  obtain ⟨routes, collected, first⟩ := collects
  simp only [lookupGlobal, collected, noEcmp, ← first, some_bind]
  cases routes <;> rfl

/-- With the table of any run and random ECMP disabled, the longest prefix is honoured if and only
if the first matching route to a network leads where the longest one leads. -/
theorem honoursLongestPrefix_iff {calls : List RoutingCall}
    (run : Run.exec (step profile) {} calls = some s) (noEcmp : s.randomEcmpRouting = false)
    (ipv4 : Ipv4 Device) (getInteger : Nat → Nat → Nat) (dest : Ipv4Address)
    (oif : Option Device) :
    HonoursLongestPrefix ipv4 dest oif getInteger profile s ↔ FirstLongest ipv4 dest oif s := by
  have all : AllHosts s := AllHosts.run (fun _ mem => absurd mem List.not_mem_nil) run
  have lookup : lookupGlobal ipv4 dest oif getInteger profile s =
      some ((firstRoute ipv4 dest oif s).map (routeFrom ipv4)) := lookupGlobal_eq all noEcmp
  cases host : s.hostRoutes.find? (isDest ipv4 dest oif) with
  | some i =>
    have mem := List.mem_of_find?_eq_some host
    have isMatch := isDest_iff.mp (List.find?_some host)
    rw [firstRoute, host, Option.some_or, Option.map_some] at lookup
    refine iff_of_true ⟨_, lookup, ?_, ?_⟩ (Or.inl ⟨i, mem, isMatch⟩)
    · exact iff_of_false (Option.some_ne_none _) fun nothing => nothing.host i mem isMatch
    · intro route found
      cases found
      exact ⟨i, .host mem isMatch, rfl⟩
  | none =>
    have noHost : ∀ i ∈ s.hostRoutes, ¬ HostMatch ipv4 dest oif i := fun i mem isMatch =>
      List.find?_eq_none.mp host i mem (isDest_iff.mpr isMatch)
    cases network : s.networkRoutes.find? (leadsTo ipv4 dest oif) with
    | some h =>
      have mem := List.mem_of_find?_eq_some network
      have isMatch := leadsTo_iff.mp (List.find?_some network)
      rw [firstRoute, host, network, Option.none_or, Option.some_or, Option.map_some] at lookup
      constructor
      · rintro ⟨rtentry, returns, -, preferred⟩
        cases lookup.symm.trans returns
        refine Or.inr fun h' first => ?_
        cases network.symm.trans first
        obtain ⟨j, preferred, same⟩ := preferred _ rfl
        cases preferred with
        | host mem isMatch => exact absurd isMatch (noHost j mem)
        | network _ longest => exact ⟨j, longest, same.symm⟩
        | external _ noNetwork => exact absurd isMatch (noNetwork h mem)
      · intro first
        have leads : ∃ j, Longest ipv4 dest oif s.networkRoutes j ∧
            routeFrom ipv4 j = routeFrom ipv4 h := by
          obtain ⟨i, memHost, matchHost⟩ | leads := first
          · exact absurd matchHost (noHost i memHost)
          · exact leads h network
        obtain ⟨j, longest, same⟩ := leads
        refine ⟨_, lookup, ?_, fun route found => ?_⟩
        · exact iff_of_false (Option.some_ne_none _) fun nothing =>
            nothing.network h mem isMatch
        · cases found
          exact ⟨j, .network noHost longest, same.symm⟩
    | none =>
      have noNetwork : ∀ j ∈ s.networkRoutes, ¬ Matches ipv4 dest oif j := fun j mem isMatch =>
        List.find?_eq_none.mp network j mem (leadsTo_iff.mpr isMatch)
      rw [firstRoute, host, network, Option.none_or, Option.none_or] at lookup
      refine iff_of_true ⟨_, lookup, ?_, ?_⟩ (Or.inr fun h first => ?_)
      · rw [Option.map_eq_none_iff, List.find?_eq_none]
        constructor
        · exact fun none_ => ⟨noHost, noNetwork, fun k mem isMatch =>
            none_ k mem (leadsTo_iff.mpr isMatch)⟩
        · exact fun nothing k mem found => nothing.external k mem (leadsTo_iff.mp found)
      · intro route found
        obtain ⟨k, external, rfl⟩ := Option.map_eq_some_iff.mp found
        exact ⟨k, .external noHost noNetwork (List.mem_of_find?_eq_some external)
          (leadsTo_iff.mp (List.find?_some external)), rfl⟩
      · cases network.symm.trans first

/-- 10.1.0.0/16 by interface 2. -/
def inner : RoutingCall := .addNetworkRouteTo 0x0a010000 0xffff0000 0x0a000002 2

/-- 10.0.0.0/8 by interface 1. -/
def outer : RoutingCall := .addNetworkRouteTo 0x0a000000 0xff000000 0x0a000001 1

/-- The longer prefix was installed first. -/
theorem honoursLongestPrefix_inner :
    ∃ s, Run.exec (step .debug) {} [inner, outer] = some s ∧
      HonoursLongestPrefix numbered 0x0a010203 none (fun first _ => first) .debug s := by
  let s : Ipv4GlobalRouting := addNetworkRouteTo 0x0a000000 0xff000000 0x0a000001 1
    (addNetworkRouteTo 0x0a010000 0xffff0000 0x0a000002 2 {})
  have run : Run.exec (step .debug) {} [inner, outer] = some s := rfl
  refine ⟨s, run, ?_⟩
  refine (honoursLongestPrefix_iff run rfl numbered _ 0x0a010203 none).mpr
    (Or.inr fun h first => ?_)
  have found : s.networkRoutes.find? (leadsTo numbered 0x0a010203 none) =
      some ⟨0x0a010000, 0xffff0000, 0x0a000002, 2⟩ := by decide
  cases found.symm.trans first
  refine ⟨_, ⟨by decide, leadsTo_iff.mp (List.find?_some found), fun k mem _ => ?_⟩, rfl⟩
  rcases List.mem_pair.mp mem with rfl | rfl
  · exact Nat.le_refl _
  · decide

/-- Installed second, it is not used. -/
theorem shorterPrefix_first :
    ∃ s, Run.exec (step .debug) {} [outer, inner] = some s ∧
      ¬ HonoursLongestPrefix numbered 0x0a010203 none (fun first _ => first) .debug s := by
  let s : Ipv4GlobalRouting := addNetworkRouteTo 0x0a010000 0xffff0000 0x0a000002 2
    (addNetworkRouteTo 0x0a000000 0xff000000 0x0a000001 1 {})
  refine ⟨s, rfl, ?_⟩
  rintro ⟨rtentry, returns, -, preferred⟩
  have value : lookupGlobal numbered 0x0a010203 none (fun first _ => first) .debug s =
      some (some ⟨0x0a000000, 1, 0x0a000001, 1⟩) := by decide
  cases value.symm.trans returns
  obtain ⟨j, preferred, same⟩ := preferred _ rfl
  cases preferred with
  | host mem => cases mem
  | external _ _ mem => cases mem
  | network _ longest =>
    rcases List.mem_pair.mp longest.mem with rfl | rfl
    · have isMatch : Matches numbered 0x0a010203 none ⟨0x0a010000, 0xffff0000, 0x0a000002, 2⟩ :=
        leadsTo_iff.mp (by decide)
      exact absurd (longest.longest _ (by decide) isMatch) (by decide)
    · exact absurd same (by decide)

end Ns3.Ipv4GlobalRouting
