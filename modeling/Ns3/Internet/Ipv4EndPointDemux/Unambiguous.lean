import Ns3.Internet.Ipv4EndPointDemux.Basic

/-!
# One endpoint for each packet

Two endpoints are both the best match of a packet only if their peers are the same, some interface
serves both, and their local addresses are the same or both wildcards for one destination. The
checks of `Allocate` refuse such a pair with two exceptions: an endpoint without a device behind
one that is bound to a device, and two different wildcards.
-/

namespace Ns3.Ipv4EndPointDemux

open List Option

/-- The endpoint receives packets of the interface. -/
def Serves (interface : Ipv4Interface) (e : Ipv4EndPoint) : Prop :=
  e.boundNetDevice.all (· == interface.device) = true

/-- The endpoints have the same local port and the same peer. -/
def SamePeer (a b : Ipv4EndPoint) : Prop :=
  a.localPort = b.localPort ∧ a.peerAddr = b.peerAddr ∧ a.peerPort = b.peerPort
  deriving Decidable

/-- Both local addresses are wildcards for a destination. -/
def BothWildCard (interface : Ipv4Interface) (a b : Ipv4EndPoint) : Prop :=
  ∃ daddr, matchesWildCard a.localAddr daddr interface = true ∧
    matchesWildCard b.localAddr daddr interface = true

/-- Both endpoints match packets of the host equally well. -/
def Clash (host : List Ipv4Interface) (a b : Ipv4EndPoint) : Prop :=
  SamePeer a b ∧ ∃ i ∈ host, Serves i a ∧ Serves i b ∧
    (a.localAddr = b.localAddr ∨ BothWildCard i a b)

/-- A clash with an endpoint that `Allocate` does not look for. -/
def Missed (host : List Ipv4Interface) (new e : Ipv4EndPoint) : Prop :=
  SamePeer new e ∧ ∃ i ∈ host, Serves i new ∧ Serves i e ∧
    ((new.localAddr = e.localAddr ∧ new.boundNetDevice = none ∧ e.boundNetDevice ≠ none) ∨
      (new.localAddr ≠ e.localAddr ∧ BothWildCard i new e))

/-- The endpoint that a call asks for. -/
def request (s : Ipv4EndPointDemux) : Call → Option Ipv4EndPoint
  | .port device port => some
      { id := s.nextId, localAddr := Ipv4Address.getAny, localPort := port
        boundNetDevice := device }
  | .addressPort device address port => some
      { id := s.nextId, localAddr := address, localPort := port, boundNetDevice := device }
  | .fourTuple device localAddress localPort peerAddress peerPort => some
      { id := s.nextId, localAddr := localAddress, localPort, peerAddr := peerAddress, peerPort
        boundNetDevice := device }
  | .deAllocate _ => none

/-- The endpoint that a call creates. -/
def created (s : Ipv4EndPointDemux) (call : Call) : Option Ipv4EndPoint :=
  let returns := match call with
    | .port device port => (allocatePort device port s).isSome
    | .addressPort device address port => (allocateLocal device address port s).isSome
    | .fourTuple device localAddress localPort peerAddress peerPort =>
      (allocatePeer device localAddress localPort peerAddress peerPort s).isSome
    | .deAllocate _ => false
  if returns then request s call else none

/-- No endpoint that is there clashes unnoticed with one that the call creates. -/
def Noticed (host : List Ipv4Interface) (s : Ipv4EndPointDemux) (call : Call) : Prop :=
  ∀ new, created s call = some new → ∀ e ∈ s.endPoints, ¬ Missed host new e

variable {host : List Ipv4Interface} {s t : Ipv4EndPointDemux} {a b e new : Ipv4EndPoint}
  {p : Incoming} {call : Call}

/-! ## `Lookup` -/

theorem length_filter_le_one {α : Type} {R : α → α → Prop} {q : α → Bool} {l : List α}
    (apart : l.Pairwise R) (only : ∀ a b, q a = true → q b = true → ¬ R a b) :
    (l.filter q).length ≤ 1 := by
  have filtered : (l.filter q).Pairwise R := apart.sublist filter_sublist
  cases found : l.filter q with
  | nil => exact Nat.zero_le 1
  | cons a rest =>
    cases rest with
    | nil => exact Nat.le_refl 1
    | cons b rest =>
      have first : a ∈ l.filter q := found ▸ mem_cons_self
      have second : b ∈ l.filter q := found ▸ mem_cons_of_mem a mem_cons_self
      rw [found] at filtered
      have related := (pairwise_cons.mp filtered).1 b mem_cons_self
      exact absurd related
        (only a b (mem_filter.mp first).2 (mem_filter.mp second).2)

theorem receives_iff : receives p e = true ↔
    e.rxEnabled = true ∧ e.localPort = p.dport ∧ Serves p.incomingInterface e := by
  rw [receives, Serves, Bool.and_eq_true, Bool.and_eq_true, beq_iff_eq, and_assoc]

theorem remoteExact_iff : remoteExact p e = true ↔ e.peerAddr = p.saddr ∧ e.peerPort = p.sport := by
  rw [remoteExact, Bool.and_eq_true, beq_iff_eq, beq_iff_eq]

theorem remoteWildCard_iff : remoteWildCard e = true ↔
    e.peerAddr = Ipv4Address.getAny ∧ e.peerPort = 0 := by
  rw [remoteWildCard, Bool.and_eq_true, beq_iff_eq, beq_iff_eq]

/-- Both endpoints are in the same class for the packet. -/
theorem clash_of_both {remote : Ipv4EndPoint → Bool} {addr : Ipv4Address} {port : BitVec 16}
    (peer : ∀ e, remote e = true → e.peerAddr = addr ∧ e.peerPort = port)
    (mem : p.incomingInterface ∈ host) (ha : receives p a = true) (hb : receives p b = true)
    (ra : remote a = true) (rb : remote b = true)
    (localAddr : a.localAddr = b.localAddr ∨ BothWildCard p.incomingInterface a b) :
    Clash host a b := by
  obtain ⟨-, porta, servesa⟩ := receives_iff.mp ha
  obtain ⟨-, portb, servesb⟩ := receives_iff.mp hb
  obtain ⟨addra, peera⟩ := peer a ra
  obtain ⟨addrb, peerb⟩ := peer b rb
  exact ⟨⟨porta.trans portb.symm, addra.trans addrb.symm, peera.trans peerb.symm⟩,
    p.incomingInterface, mem, servesa, servesb, localAddr⟩

/-- Without clashes each class has at most one endpoint. -/
theorem length_mostExact (apart : s.endPoints.Pairwise fun a b => ¬ Clash host a b)
    (mem : p.incomingInterface ∈ host) : (mostExact p s).length ≤ 1 := by
  have exactRemote (e : Ipv4EndPoint) (h : remoteExact p e = true) := (remoteExact_iff).mp h
  have wildRemote (e : Ipv4EndPoint) (h : remoteWildCard e = true) := (remoteWildCard_iff).mp h
  have length4 : (s.endPoints.filter (case4 p)).length ≤ 1 := by
    refine length_filter_le_one apart fun a b ha hb apart => apart ?_
    rw [case4, Bool.and_eq_true, Bool.and_eq_true, beq_iff_eq] at ha hb
    exact clash_of_both exactRemote mem ha.1.1 hb.1.1 ha.2 hb.2 (.inl (ha.1.2.trans hb.1.2.symm))
  have length3 : (s.endPoints.filter (case3 p)).length ≤ 1 := by
    refine length_filter_le_one apart fun a b ha hb apart => apart ?_
    rw [case3, Bool.and_eq_true, Bool.and_eq_true] at ha hb
    exact clash_of_both exactRemote mem ha.1.1 hb.1.1 ha.2 hb.2 (.inr ⟨p.daddr, ha.1.2, hb.1.2⟩)
  have length2 : (s.endPoints.filter (case2 p)).length ≤ 1 := by
    refine length_filter_le_one apart fun a b ha hb apart => apart ?_
    rw [case2, Bool.and_eq_true, Bool.and_eq_true, beq_iff_eq] at ha hb
    exact clash_of_both wildRemote mem ha.1.1 hb.1.1 ha.2 hb.2 (.inl (ha.1.2.trans hb.1.2.symm))
  have length1 : (s.endPoints.filter (case1 p)).length ≤ 1 := by
    refine length_filter_le_one apart fun a b ha hb apart => apart ?_
    rw [case1, Bool.and_eq_true, Bool.and_eq_true] at ha hb
    exact clash_of_both wildRemote mem ha.1.1 hb.1.1 ha.2 hb.2 (.inr ⟨p.daddr, ha.1.2, hb.1.2⟩)
  rw [mostExact]
  split
  · exact length4
  · split
    · exact length3
    · split
      · exact length2
      · exact length1

theorem lookup_eq (one : (mostExact p s).length ≤ 1) : lookup p s = some (mostExact p s) := by
  rw [lookup]
  simp [decide_eq_false (Nat.not_lt.mpr one), nsAbortIf]

/-! ## `Allocate` -/

/-- The numbers of the endpoints are below the next one, and no two endpoints clash. -/
structure Distinct (host : List Ipv4Interface) (s : Ipv4EndPointDemux) : Prop where
  fresh : ∀ e ∈ s.endPoints, e.id < s.nextId
  apart : s.endPoints.Pairwise fun a b => ¬ Clash host a b

/-- What `Allocate` looks for: the same local and remote addresses and ports, and no device or the
one that is passed. -/
def Refused (new e : Ipv4EndPoint) : Prop :=
  SamePeer new e ∧ new.localAddr = e.localAddr ∧
    (e.boundNetDevice = new.boundNetDevice ∨ e.boundNetDevice = none)

/-- A clash is found or missed. -/
theorem Clash.missed (clash : Clash host new e) (accepted : ¬ Refused new e) :
    Missed host new e := by
  obtain ⟨peer, i, mem, serves, serves', local_⟩ := clash
  refine ⟨peer, i, mem, serves, serves', ?_⟩
  by_cases same : new.localAddr = e.localAddr
  · have other : ¬ (e.boundNetDevice = new.boundNetDevice ∨ e.boundNetDevice = none) :=
      fun device => accepted ⟨peer, same, device⟩
    obtain ⟨different, bound⟩ := not_or.mp other
    refine .inl ⟨same, ?_, bound⟩
    cases own : new.boundNetDevice with
    | none => rfl
    | some d =>
      obtain ⟨d', its⟩ := ne_none_iff_exists'.mp bound
      rw [Serves, own, all_some, beq_iff_eq] at serves
      rw [Serves, its, all_some, beq_iff_eq] at serves'
      exact absurd (its.trans (own.trans (congrArg some (serves.trans serves'.symm))).symm)
        different
  · exact .inr ⟨same, local_.resolve_left same⟩

theorem bound_pushBack (fresh : ∀ e ∈ s.endPoints, e.id < s.nextId) (device : Option Nat) :
    bound device s (some (pushBack e s)) =
      { endPoints := s.endPoints ++ [{ e with id := s.nextId, boundNetDevice := device }]
        nextId := s.nextId + 1 } := by
  have others : s.endPoints.map (fun i =>
      if i.id = s.nextId then { i with boundNetDevice := device } else i) = s.endPoints := by
    refine (map_congr_left fun i mem => ?_).trans (List.map_id _)
    exact if_neg (Nat.ne_of_lt (fresh i mem))
  rw [bound, bindToNetDevice, pushBack]
  simp [others]

theorem lookupLocal_false {device : Option Nat} {addr : Ipv4Address} {port : BitVec 16}
    (unused : lookupLocal device addr port s = false) (mem : e ∈ s.endPoints)
    (samePort : e.localPort = port) (sameAddr : e.localAddr = addr) :
    e.boundNetDevice ≠ device := by
  intro sameDevice
  refine List.any_eq_false.mp unused e mem ?_
  rw [samePort, sameAddr, sameDevice]
  simp

/-- `Allocate` with an address and a port refuses more than it has to. -/
theorem allocateLocal_cases (device : Option Nat) (address : Ipv4Address) (port : BitVec 16)
    (s : Ipv4EndPointDemux) :
    allocateLocal device address port s = none ∨
      allocateLocal device address port s =
          some (pushBack { id := s.nextId, localAddr := address, localPort := port } s) ∧
        ∀ e ∈ s.endPoints, ¬ Refused
          { id := s.nextId, localAddr := address, localPort := port, boundNetDevice := device }
          e := by
  rw [allocateLocal]
  split
  case isTrue => exact .inl rfl
  case isFalse unused =>
    rw [Bool.or_eq_true, not_or, Bool.not_eq_true, Bool.not_eq_true] at unused
    refine .inr ⟨rfl, ?_⟩
    rintro e mem ⟨⟨samePort, -⟩, sameAddr, same | unbound⟩
    · exact lookupLocal_false unused.1 mem samePort.symm sameAddr.symm same
    · exact lookupLocal_false unused.2 mem samePort.symm sameAddr.symm unbound

theorem allocatePeer_cases (device : Option Nat) (localAddress : Ipv4Address)
    (localPort : BitVec 16) (peerAddress : Ipv4Address) (peerPort : BitVec 16)
    (s : Ipv4EndPointDemux) :
    allocatePeer device localAddress localPort peerAddress peerPort s = none ∨
      allocatePeer device localAddress localPort peerAddress peerPort s =
          some (pushBack { id := s.nextId, localAddr := localAddress, localPort
                           peerAddr := peerAddress, peerPort } s) ∧
        ∀ e ∈ s.endPoints, ¬ Refused
          { id := s.nextId, localAddr := localAddress, localPort, peerAddr := peerAddress
            peerPort, boundNetDevice := device } e := by
  rw [allocatePeer]
  split
  case isTrue => exact .inl rfl
  case isFalse unused =>
    rw [Bool.not_eq_true, List.any_eq_false] at unused
    refine .inr ⟨rfl, ?_⟩
    rintro e mem ⟨⟨samePort, samePeerAddr, samePeerPort⟩, sameAddr, device⟩
    refine unused e mem ?_
    simp only [Bool.and_eq_true, Bool.or_eq_true, beq_iff_eq, isNone_iff_eq_none]
    exact ⟨⟨⟨⟨samePort.symm, sameAddr.symm⟩, samePeerPort.symm⟩, samePeerAddr.symm⟩, device⟩

/-- What a call of `Allocate` comes to that returns a null pointer or a new endpoint. -/
theorem bound_cases {device : Option Nat} {allocated : Option Ipv4EndPointDemux}
    (fresh : ∀ e ∈ s.endPoints, e.id < s.nextId)
    (isCreated : created s call = if allocated.isSome then some new else none)
    (id : new.id = s.nextId) (isDevice : new.boundNetDevice = device)
    (isNew : { e with id := s.nextId, boundNetDevice := device } = new)
    (cases_ : allocated = none ∨
      allocated = some (pushBack e s) ∧ ∀ e ∈ s.endPoints, ¬ Refused new e) :
    ((bound device s allocated).endPoints.Sublist s.endPoints ∧
        (bound device s allocated).nextId = s.nextId) ∨
      ∃ new, created s call = some new ∧ (∀ e ∈ s.endPoints, ¬ Refused new e) ∧
        new.id = s.nextId ∧
        bound device s allocated =
          { endPoints := s.endPoints ++ [new], nextId := s.nextId + 1 } := by
  obtain rfl | ⟨rfl, accepted⟩ := cases_
  · exact .inl ⟨.refl _, rfl⟩
  · exact .inr ⟨new, isCreated, accepted, id, (bound_pushBack fresh device).trans (by rw [isNew])⟩

/-- A call takes endpoints away, or adds one that the checks do not refuse. -/
theorem step_cases (fresh : ∀ e ∈ s.endPoints, e.id < s.nextId) (returns : step s call = some t) :
    (t.endPoints.Sublist s.endPoints ∧ t.nextId = s.nextId) ∨
      ∃ new, created s call = some new ∧ (∀ e ∈ s.endPoints, ¬ Refused new e) ∧
        new.id = s.nextId ∧ t = { endPoints := s.endPoints ++ [new], nextId := s.nextId + 1 } := by
  cases call with
  | port device port =>
    cases returns
    exact bound_cases fresh rfl rfl rfl rfl (allocateLocal_cases device _ port s)
  | addressPort device address port =>
    cases returns
    exact bound_cases fresh rfl rfl rfl rfl (allocateLocal_cases device address port s)
  | fourTuple device localAddress localPort peerAddress peerPort =>
    cases returns
    exact bound_cases fresh rfl rfl rfl rfl
      (allocatePeer_cases device localAddress localPort peerAddress peerPort s)
  | deAllocate endPoint =>
    cases returns
    exact .inl ⟨eraseP_sublist, rfl⟩

/-! ## Runs -/

theorem SamePeer.symm (same : SamePeer a b) : SamePeer b a :=
  ⟨same.1.symm, same.2.1.symm, same.2.2.symm⟩

theorem Clash.symm (clash : Clash host a b) : Clash host b a := by
  obtain ⟨peer, i, mem, serves, serves', local_⟩ := clash
  refine ⟨peer.symm, i, mem, serves', serves, local_.imp Eq.symm ?_⟩
  rintro ⟨daddr, wild, wild'⟩
  exact ⟨daddr, wild', wild⟩

theorem Distinct.step (distinct : Distinct host s) (noticed : Noticed host s call)
    (returns : step s call = some t) : Distinct host t := by
  obtain ⟨fewer, same⟩ | ⟨new, isCreated, accepted, id, rfl⟩ := step_cases distinct.fresh returns
  · refine ⟨fun e mem => ?_, distinct.apart.sublist fewer⟩
    rw [same]
    exact distinct.fresh e (fewer.subset mem)
  · refine ⟨fun e mem => ?_, pairwise_append.mpr
      ⟨distinct.apart, pairwise_singleton _ _, ?_⟩⟩
    · obtain before | added := mem_append.mp mem
      · exact Nat.lt_succ_of_lt (distinct.fresh e before)
      · rw [mem_singleton.mp added, id]
        exact Nat.lt_succ_self _
    · intro e mem e' added clash
      obtain rfl := mem_singleton.mp added
      exact noticed e' isCreated e mem (clash.symm.missed (accepted e mem))

theorem distinct_initial : Distinct host {} where
  fresh := nofun
  apart := List.Pairwise.nil

/-- While no `Allocate` misses a clash, every packet that comes in over an interface of the host
has at most one best match, and `Lookup` returns it. -/
theorem lookup_unambiguous (calls : List Call)
    (noticed : Run.Meets Ipv4EndPointDemux.step (Noticed host) {} calls) :
    Run.Always Ipv4EndPointDemux.step
      (fun s => ∀ p : Incoming, p.incomingInterface ∈ host →
        (mostExact p s).length ≤ 1 ∧ lookup p s = some (mostExact p s)) {} calls := by
  refine Run.Always.of_invariant distinct_initial noticed ?_ fun s call t distinct noticed =>
    distinct.step noticed
  intro s distinct p mem
  have one := length_mostExact distinct.apart mem
  exact ⟨one, lookup_eq one⟩

theorem noticed_of_otherPeers (other : ((created s call).all fun new =>
    s.endPoints.all fun e => decide (¬ SamePeer new e)) = true) : Noticed host s call := by
  intro new isCreated e mem missed
  rw [isCreated, all_some, List.all_eq_true] at other
  exact of_decide_eq_true (other e mem) missed.1

/-- A server for all peers, the connection to one of them, a second server, and the first one
again after it has been closed. -/
theorem lookup_unambiguous_servers :
    let host : List Ipv4Interface := [⟨1, [⟨0x0a000001, 0xffffff00⟩]⟩]
    let calls : List Call :=
      [.port none 80, .fourTuple none 0x0a000001 80 0x0a000002 5000,
        .addressPort (some 1) 0x0a000001 443, .deAllocate 0, .port (some 1) 80]
    Run.Always Ipv4EndPointDemux.step
      (fun s => ∀ p : Incoming, p.incomingInterface ∈ host →
        (mostExact p s).length ≤ 1 ∧ lookup p s = some (mostExact p s)) {} calls := by
  intro host calls
  refine lookup_unambiguous calls (Run.Meets.mono (C := fun s call =>
    ((created s call).all fun new => s.endPoints.all fun e => decide (¬ SamePeer new e)) = true)
    ?_ fun s call => noticed_of_otherPeers)
  decide

/-- The same address and port for a device and then without one: both calls return an endpoint, and
a packet that comes in over the device is for both. -/
theorem deviceFirst_twoEndPoints :
    let i : Ipv4Interface := ⟨1, [⟨0x0a000001, 0xffffff00⟩]⟩
    let calls : List Call :=
      [.addressPort (some 1) 0x0a000001 80, .addressPort none 0x0a000001 80]
    ∃ s, Run.exec Ipv4EndPointDemux.step {} calls = some s ∧ s.endPoints.length = 2 ∧
      lookup ⟨0x0a000001, 80, 0x0a000002, 5000, i⟩ s = none := by
  refine ⟨_, rfl, ?_⟩
  decide

end Ns3.Ipv4EndPointDemux
