import Ns3.Internet.GlobalRouting.Exits
import Mathlib.Data.List.Induction

/-!
# Exits belong to one link

The interface of an exit comes from the record that is examined, and its next hop from the
first record back that carries the root's id. With parallel links these can be two links.
-/

namespace Ns3

open ShortestPath List Option

namespace GlobalRouteManagerImpl

variable {ε : Type} {node : RootNode} {profile : BuildProfile} {rounds : Nat}
  {db : GlobalRouteManagerLSDB} {far : Nat → Nat} {root : GlobalRoutingLSA}
  {v w : SPFVertex RootExits} {s t : SPFState RootExits} {tree rest : List (SPFVertex RootExits)}
  {todo : List SPFRecord} {rec : SPFRecord}

/-! ## Links, networks and interfaces -/

/-- The point-to-point links: `far` gives the address at the other end. A stub network is none
of the routers and transit networks. -/
structure Links (db : GlobalRouteManagerLSDB) (far : Nat → Nat) : Prop where
  ends : ∀ r ∈ db, ∀ l ∈ r.linkRecords, l.linkType = .pointToPoint → ∃ w ∈ db,
    w.linkStateId = l.linkId ∧ ∃ back ∈ w.linkRecords, back.linkType = .pointToPoint ∧
      back.linkId = r.linkStateId ∧ back.linkData = far l.linkData
  back : ∀ r ∈ db, ∀ l ∈ r.linkRecords, l.linkType = .pointToPoint →
    far (far l.linkData) = l.linkData
  stub : ∀ r ∈ db, ∀ l ∈ r.linkRecords, l.linkType = .stubNetwork → ∀ lsa ∈ db,
    l.linkId ≠ lsa.linkStateId

/-- The interface of the root's node with this address. -/
def AtInterface (node : RootNode) (i : Int) (a : Nat) : Prop :=
  ∃ interfaces, ∃ k : Nat, ∃ addresses, node.interfaces = some interfaces ∧
    interfaces[k]? = some addresses ∧
    i = (k : Int) ∧ a ∈ addresses

/-- A link record that is not that of a stub network. -/
def IsLink (l : GlobalRoutingLinkRecord) : Prop :=
  l.linkType = .pointToPoint ∨ l.linkType = .transitNetwork
  deriving Decidable

/-- The root's LSA describes the interfaces of its node: each link record is that of one
interface, and an interface with an address in the prefix of a network is attached to it. -/
structure Describes (node : RootNode) (db : GlobalRouteManagerLSDB) (root : GlobalRoutingLSA) :
    Prop where
  here : ∀ l ∈ root.linkRecords, IsLink l → ∃ i, AtInterface node i l.linkData
  small : ∀ i a, AtInterface node i a → a < 2 ^ 32
  addresses : ∀ i j a, AtInterface node i a → AtInterface node j a → i = j
  one : ∀ l ∈ root.linkRecords, ∀ l' ∈ root.linkRecords, IsLink l → IsLink l' → ∀ i,
    AtInterface node i l.linkData → AtInterface node i l'.linkData → l = l'
  inPrefix : ∀ l ∈ root.linkRecords, l.linkType = .transitNetwork → ∀ n ∈ db,
    n.linkStateId = l.linkId →
      l.linkData &&& n.networkLSANetworkMask = n.linkStateId &&& n.networkLSANetworkMask
  onlyPrefix : ∀ l ∈ root.linkRecords, l.linkType = .transitNetwork → ∀ n ∈ db,
    n.linkStateId = l.linkId → ∀ i a, AtInterface node i a →
      a &&& n.networkLSANetworkMask = n.linkStateId &&& n.networkLSANetworkMask →
      ∃ l' ∈ root.linkRecords, l'.linkType = .transitNetwork ∧ l'.linkId = l.linkId ∧
        AtInterface node i l'.linkData

/-- The next hop is the address of a neighbour on the link, or on the network, of the
interface. -/
def OnOneLink (node : RootNode) (db : GlobalRouteManagerLSDB) (root : GlobalRoutingLSA)
    (far : Nat → Nat) (exit : NodeExit) : Prop :=
  (∃ l ∈ root.linkRecords, l.linkType = .pointToPoint ∧ AtInterface node exit.2 l.linkData ∧
    exit.1 = far l.linkData) ∨
  ∃ l ∈ root.linkRecords, l.linkType = .transitNetwork ∧ AtInterface node exit.2 l.linkData ∧
    ∃ r ∈ db, ∃ l' ∈ r.linkRecords, l'.linkType = .transitNetwork ∧ l'.linkId = l.linkId ∧
      l'.linkData = exit.1

/-- `FindOutgoingInterfaceId` finds an interface with an address in the prefix, if there is
one. -/
theorem findOutgoingInterfaceId_spec {a : Nat} (amask : Nat) {i : Int} {b : Nat}
    (there : AtInterface node i b) (same : b &&& amask = a &&& amask) :
    ∃ b', AtInterface node (node.findOutgoingInterfaceId a amask) b' ∧
      b' &&& amask = a &&& amask := by
  obtain ⟨interfaces, k, addresses, interfacesEq, at_, -, mem⟩ := there
  simp only [RootNode.findOutgoingInterfaceId, interfacesEq, RootNode.getInterfaceForPrefix]
  cases found : interfaces.findIdx? fun addresses => addresses.any fun x =>
    x &&& amask = a &&& amask with
  | none =>
    have none_ := findIdx?_eq_none_iff.mp found addresses (mem_of_getElem? at_)
    have some_ : (addresses.any fun x => decide (x &&& amask = a &&& amask)) = true :=
      List.any_eq_true.mpr ⟨b, mem, decide_eq_true same⟩
    exact absurd (none_.symm.trans some_) nofun
  | some j =>
    obtain ⟨bound, holds, -⟩ := findIdx?_eq_some_iff_getElem.mp found
    obtain ⟨b', mem', same'⟩ := List.any_eq_true.mp holds
    exact ⟨b', ⟨interfaces, j, _, interfacesEq, getElem?_eq_getElem bound, rfl, mem'⟩,
      of_decide_eq_true same'⟩

variable {l : GlobalRoutingLinkRecord} {X : ExitRules ε}

/-- The outgoing interface of a link is that of its record. -/
theorem outgoing_link (describes : Describes node db root)
    (mem : l ∈ root.linkRecords) (link : IsLink l) :
    AtInterface node (node.findOutgoingInterfaceId l.linkData) l.linkData := by
  obtain ⟨i, there⟩ := describes.here l mem link
  obtain ⟨b, found, same⟩ := findOutgoingInterfaceId_spec 0xffffffff there rfl
  have full (a : Nat) (small : a < 2 ^ 32) : a &&& 0xffffffff = a :=
    (Nat.and_two_pow_sub_one_eq_mod a 32).trans (Nat.mod_eq_of_lt small)
  rw [full b (describes.small _ b found), full _ (describes.small i _ there)] at same
  rwa [same] at found

/-- The outgoing interface of a network is attached to it. -/
theorem outgoing_network (describes : Describes node db root)
    {n : GlobalRoutingLSA} (mem : l ∈ root.linkRecords) (transit : l.linkType = .transitNetwork)
    (member : n ∈ db) (id : n.linkStateId = l.linkId) :
    ∃ l' ∈ root.linkRecords, l'.linkType = .transitNetwork ∧ l'.linkId = n.linkStateId ∧
      AtInterface node (node.findOutgoingInterfaceId n.linkStateId n.networkLSANetworkMask)
        l'.linkData := by
  obtain ⟨i, there⟩ := describes.here l mem (.inr transit)
  obtain ⟨b, found, same⟩ :=
    findOutgoingInterfaceId_spec _ there (describes.inPrefix l mem transit n member id)
  obtain ⟨l', mem', transit', id', at_⟩ :=
    describes.onlyPrefix l mem transit n member id _ b found same
  exact ⟨l', mem', transit', id'.trans id.symm, at_⟩

/-! ## The states of a run -/

/-- The states of a run of `SPFCalculate`: `todo` are the records of `v` that remain. -/
inductive Reaches (X : ExitRules ε) (db : GlobalRouteManagerLSDB) (root : GlobalRoutingLSA) :
    SPFVertex ε → List SPFRecord → List (SPFVertex ε) → SPFState ε → Prop
  | start : Reaches X db root (rootVertex X root) root.records [rootVertex X root]
    (initialState root)
  | examine {v : SPFVertex ε} {rec : SPFRecord} {todo : List SPFRecord} {tree : List (SPFVertex ε)}
      {s t : SPFState ε} : Reaches X db root v (rec :: todo) tree s →
      GlobalRouteManagerImpl.examine X db root v s rec = some t → Reaches X db root v todo tree t
  | pop {v w : SPFVertex ε} {tree rest : List (SPFVertex ε)} {s : SPFState ε} :
      Reaches X db root v [] tree s → s.candidate = w :: rest →
      Reaches X db root w w.lsa.records (tree ++ [w]) (s.popped w rest)

theorem Reaches.searching {v : SPFVertex ε} {tree : List (SPFVertex ε)}
    {s : SPFState ε} (h : Reaches X db root v todo tree s) (symmetric : Symmetric db)
    (member : root ∈ db) : Searching db root v todo tree s := by
  induction h with
  | start => exact searching_start X symmetric member
  | examine _ returns ih => exact ih.examine symmetric returns
  | pop _ candidates ih => exact ih.pop symmetric candidates

/-- The exits that the vertices hold during a run, and those that are set in the loop over the
links of a router behind a network, whether it ends or not. -/
inductive Stored (node : RootNode) (profile : BuildProfile) (rounds : Nat)
    (db : GlobalRouteManagerLSDB) (root : GlobalRoutingLSA) (exit : NodeExit) : Prop
  | held {v u : SPFVertex RootExits} {todo : List SPFRecord} {tree : List (SPFVertex RootExits)}
      {s : SPFState RootExits} : Reaches (exitRules node profile rounds) db root v todo tree s →
      u ∈ tree ++ s.candidate → exit ∈ u.exits.ecmpRootExits →
        Stored node profile rounds db root exit
  | set {v w : SPFVertex RootExits} {addr k : Nat} {todo : List SPFRecord}
      {tree : List (SPFVertex RootExits)} {s : SPFState RootExits} {e : RootExits} {ended : Bool} :
      Reaches (exitRules node profile rounds) db root v (.attached addr :: todo) tree s →
      v.vertexId ≠ root.linkStateId → v.vertexType = .network → w.lsa ∈ db →
      w ∈ s.candidate ∨ w.exits = {} →
      throughNetwork profile k root v w = some (e, ended) →
      exit ∈ e.ecmpRootExits → Stored node profile rounds db root exit

/-! ## When the exits belong to one link -/

/-- For each link of the root that is taken up, the first record back from the neighbour is
that of the same link. A link is taken up unless an earlier one leads to the same neighbour at
a smaller metric. -/
def LinksAgree (db : GlobalRouteManagerLSDB) (root : GlobalRoutingLSA) (far : Nat → Nat) : Prop :=
  ∀ before l after, root.linkRecords = before ++ l :: after → l.linkType = .pointToPoint →
    l.linkId ≠ root.linkStateId →
    (∀ l' ∈ before, l'.linkType = .pointToPoint → l'.linkId = l.linkId → l.metric ≤ l'.metric) →
    ∀ w ∈ db, w.linkStateId = l.linkId → ∀ back,
      (w.linkRecords.find? fun r => r.linkId = root.linkStateId) = some back →
      back.linkData ≠ 0 → back.linkData = far l.linkData

/-- No network of the root is as near through another vertex. -/
def NoTies (db : GlobalRouteManagerLSDB) (root : GlobalRoutingLSA) : Prop :=
  ∀ l ∈ root.linkRecords, l.linkType = .transitNetwork →
    IsLeast {d | Walk (Edge db) root.linkStateId l.linkId d} l.metric →
    ∀ u c e, u ≠ root.linkStateId → Walk (Edge db) root.linkStateId u e → Edge db u c l.linkId →
      e + c ≠ l.metric

/-! ## The invariant -/

/-- An exit that has no next hop, or belongs to one link. -/
def Good (node : RootNode) (db : GlobalRouteManagerLSDB) (root : GlobalRoutingLSA) (far : Nat → Nat)
    (exit : NodeExit) : Prop :=
  exit.1 ≠ 0 → OnOneLink node db root far exit

/-- The exit to a network of the root. -/
def networkExit (node : RootNode) (u : SPFVertex RootExits) : NodeExit :=
  (0, node.findOutgoingInterfaceId u.vertexId u.lsa.networkLSANetworkMask)

/-- Where the exits of a vertex come from. -/
structure Accounts (node : RootNode) (db : GlobalRouteManagerLSDB) (root : GlobalRoutingLSA)
    (far : Nat → Nat) (tree : List (SPFVertex RootExits)) (u : SPFVertex RootExits) : Prop where
  good : ∀ e ∈ u.exits.ecmpRootExits, Good node db root far e
  parents : ∀ p ∈ u.exits.parents, ∃ d c, At tree p d ∧ Edge db p c u.vertexId ∧
    d + c = u.distanceFromRoot
  origin : u.vertexType = .network → ∀ e ∈ u.exits.ecmpRootExits, e = networkExit node u ∨
    ∃ p ∈ u.exits.parents, p ≠ root.linkStateId
  fromRoot : u.vertexType = .network → root.linkStateId ∈ u.exits.parents →
    networkExit node u ∈ u.exits.ecmpRootExits

/-- All vertices account for their exits. While the root's records are examined, the distance
of a neighbour is the least metric of the records so far. -/
structure Accounted (node : RootNode) (db : GlobalRouteManagerLSDB) (root : GlobalRoutingLSA)
    (far : Nat → Nat) (v : SPFVertex RootExits) (todo : List SPFRecord)
    (tree : List (SPFVertex RootExits)) (s : SPFState RootExits) : Prop where
  all : ∀ u ∈ tree ++ s.candidate, Accounts node db root far tree u
  first : v.vertexId = root.linkStateId → tree = [v] ∧ ∃ done, root.records = done ++ todo ∧
    ∀ l, .link l ∈ done → IsLink l → l.linkId ≠ root.linkStateId →
      ∃ u ∈ s.candidate, u.vertexId = l.linkId ∧ u.distanceFromRoot ≤ l.metric

/-- An edge to a network is a link record of a router. -/
theorem edge_to_network (symmetric : Symmetric db) {u c : Nat} {n : GlobalRoutingLSA}
    (member : n ∈ db)
    (network : n.lsType = .networkLSA) (edge : Edge db u c n.linkStateId) :
    ∃ r ∈ db, r.linkStateId = u ∧ r.lsType = .routerLSA ∧ ∃ l ∈ r.linkRecords,
      l.linkType = .transitNetwork ∧ l.linkId = n.linkStateId ∧ l.metric = c := by
  generalize target : n.linkStateId = id at edge
  cases edge with
  | @link r l memR kind mem type =>
    refine ⟨r, memR, rfl, kind, l, mem, type.resolve_left fun pointToPoint => ?_, rfl, rfl⟩
    obtain ⟨w, memW, router, id, -⟩ := symmetric.pointToPoint r memR l mem pointToPoint
    obtain rfl := eq_of_id symmetric member memW (target.trans id.symm)
    exact absurd (network.symm.trans router) nofun
  | @attached n' r addr memN kind mem found =>
    obtain ⟨r', memR, router, found', -⟩ := symmetric.attached n' memN kind addr mem
    obtain rfl := some.inj (found.symm.trans found')
    obtain rfl := eq_of_id symmetric member memR target
    exact absurd (network.symm.trans router) nofun

theorem Searching.at_root (h : Searching db root v todo tree s) {d : Nat}
    (mem : At tree root.linkStateId d) : d = 0 :=
  Nat.le_zero.mp (h.frontier.least _ d mem 0 .nil)

/-- The single exit of a network of the root is that to the network itself. -/
theorem single_exit (h : Searching db root v todo tree s) (symmetric : Symmetric db)
    (router : root.lsType = .routerLSA) (memberRoot : root ∈ db)
    (ties : profile = .debug ∨ NoTies db root) {u : SPFVertex RootExits} (mem : u ∈ tree)
    (accounts : Accounts node db root far tree u) (network : u.vertexType = .network)
    (parent : root.linkStateId ∈ u.exits.parents) {exit : NodeExit}
    (returns : u.exits.getRootExitDirection profile = some exit) :
    exit = networkExit node u ∧ ∃ l ∈ root.linkRecords, l.linkType = .transitNetwork ∧
      l.linkId = u.vertexId := by
  have member := h.members u (mem_append_left _ mem)
  have kind := vertexType_network.mp network
  obtain ⟨d, c, atRoot, edge, sum⟩ := accounts.parents _ parent
  obtain rfl := h.at_root atRoot
  obtain ⟨r, memR, id, -, l, memL, transit, idL, metric⟩ :=
    edge_to_network symmetric member kind edge
  obtain rfl := eq_of_id symmetric memR memberRoot id
  refine ⟨?_, l, memL, transit, idL⟩
  have there : exit ∈ u.exits.ecmpRootExits := by
    obtain ⟨_, -, head⟩ := bind_returns.mp returns
    exact mem_of_mem_head? head
  obtain debug | noTies := ties
  · subst debug
    obtain ⟨_, asserted, -⟩ := bind_returns.mp returns
    have other := accounts.fromRoot network parent
    -- at most one exit, and both are among the exits
    match exits : u.exits.ecmpRootExits, asserted, other, there with
    | [e], _, other, there => rw [mem_singleton.mp there, mem_singleton.mp other]
  · obtain same | ⟨p, memP, apart⟩ := accounts.origin network exit there
    · exact same
    · obtain ⟨d', c', inside, edge', sum'⟩ := accounts.parents p memP
      rw [Nat.zero_add, ← metric] at sum
      have least := h.frontier.isLeast ⟨u, mem, rfl, rfl⟩
      rw [← sum, ← show l.linkId = u.vertexId from idL] at least
      refine absurd ?_
        (noTies l memL transit least p c' d' apart (h.frontier.treeWalk _ _ inside) ?_)
      · exact sum'.trans sum.symm
      · rw [idL]
        exact edge'

/-! ## One record -/

/-- A record that leads back to a vertex is not that of a stub network, and its kind says what
the vertex is. -/
theorem record_kind (symmetric : Symmetric db) (links : Links db far) {r lsa : GlobalRoutingLSA}
    (memR : r ∈ db) (member : lsa ∈ db) (mem : l ∈ r.linkRecords)
    (id : l.linkId = lsa.linkStateId) :
    l.linkType = .pointToPoint ∧ lsa.lsType = .routerLSA ∨
      l.linkType = .transitNetwork ∧ lsa.lsType = .networkLSA := by
  cases type : l.linkType with
  | unknown => exact absurd type (symmetric.records r memR l mem).1
  | stubNetwork => exact absurd id (links.stub r memR l mem type lsa member)
  | pointToPoint =>
    obtain ⟨w, memW, router, idW, -⟩ := symmetric.pointToPoint r memR l mem type
    obtain rfl := eq_of_id symmetric memW member (idW.trans id)
    exact .inl ⟨rfl, router⟩
  | transitNetwork =>
    obtain ⟨n, memN, network, idN, -⟩ := symmetric.transit r memR l mem type
    obtain rfl := eq_of_id symmetric memN member (idN.trans id)
    exact .inr ⟨rfl, network⟩

/-- The exits that are set for a router behind a network. -/
theorem good_throughNetwork (h : Searching db root v todo tree s) (symmetric : Symmetric db)
    (links : Links db far) (describes : Describes node db root) (router : root.lsType = .routerLSA)
    (memberRoot : root ∈ db) (ties : profile = .debug ∨ NoTies db root)
    (accounts : Accounts node db root far tree v) (network : v.vertexType = .network)
    (member : w.lsa ∈ db) (before : ∀ exit ∈ w.exits.ecmpRootExits, Good node db root far exit)
    {e : RootExits} {ended : Bool}
    (returns : throughNetwork profile rounds root v w = some (e, ended)) :
    ∀ exit ∈ e.ecmpRootExits, Good node db root far exit := by
  intro exit mem
  have direction (exit : NodeExit) (returns : v.exits.getRootExitDirection profile = some exit) :
      exit ∈ v.exits.ecmpRootExits := by
    obtain ⟨_, -, head⟩ := bind_returns.mp returns
    exact mem_of_mem_head? head
  obtain ⟨first, same | ⟨single, l, found, memL, id, set⟩⟩ | ⟨-, -, single, found, set⟩ :=
    throughNetwork_cases returns
  · exact before exit (same ▸ mem)
  · -- the link record of the router and the interface of the root are on the network
    intro _
    have parent : root.linkStateId ∈ v.exits.parents := mem_of_mem_head? first
    obtain ⟨rfl, l', memL', transit', id'⟩ :=
      single_exit h symmetric router memberRoot ties h.current accounts network parent found
    have memV := h.members v (mem_append_left _ h.current)
    obtain ⟨l'', mem'', transit'', id'', there⟩ :=
      outgoing_network describes memL' transit' memV id'.symm
    rw [set, mem_singleton] at mem
    subst mem
    refine .inr ⟨l'', mem'', transit'', there, w.lsa, member, l, memL, ?_, id.trans id''.symm, rfl⟩
    obtain ⟨-, kind⟩ | ⟨transit, -⟩ := record_kind symmetric links member memV memL id
    · exact absurd (kind.symm.trans (vertexType_network.mp network)) nofun
    · exact transit
  · rw [set, mem_singleton] at mem
    subst mem
    exact accounts.good exit (direction exit found)

theorem Improves.nearest {c : Nat} {others : List (SPFVertex ε)}
    {v w u : SPFVertex ε} {tree : List (SPFVertex ε)} {s t : SPFState ε}
    (improves : Improves X db root v rec s t w c others)
    (h : Searching db root v (rec :: todo) tree s) (mem : u ∈ s.candidate)
    (id : u.vertexId = w.vertexId) : w.distanceFromRoot ≤ u.distanceFromRoot := by
  obtain ⟨-, unexplored⟩ | ⟨cw, same, idC, nearer⟩ := improves.change.before
  · have candidate := (h.waiting _).mpr ⟨u, mem, id⟩
    exact absurd (unexplored.symm.trans candidate) nofun
  · have nodup := h.ids
    rw [map_append] at nodup
    have memC : cw ∈ s.candidate := same.mem_iff.mpr mem_cons_self
    rw [inj_on_of_nodup_map (nodup_append.mp nodup).2.1 mem memC (id.trans idC.symm)]
    exact nearer

theorem Improves.outside {c : Nat} {others : List (SPFVertex ε)}
    {v w u : SPFVertex ε} {tree : List (SPFVertex ε)} {s t : SPFState ε}
    (improves : Improves X db root v rec s t w c others)
    (h : Searching db root v (rec :: todo) tree s) (mem : u ∈ tree) : u.vertexId ≠ w.vertexId := by
  intro id
  have inside := (h.inTree _).mpr ⟨u, mem, id⟩
  obtain ⟨-, unexplored⟩ | ⟨cw, same, idC, -⟩ := improves.change.before
  · exact absurd (unexplored.symm.trans inside) nofun
  · have candidate := (h.waiting _).mpr ⟨cw, same.mem_iff.mpr mem_cons_self, idC⟩
    exact absurd (candidate.symm.trans inside) nofun

/-- At the root the record that is examined is taken up. -/
theorem Accounted.takes {c : Nat}
    {others : List (SPFVertex RootExits)}
    (accounted : Accounted node db root far v (.link l :: todo) tree s)
    (h : Searching db root v (.link l :: todo) tree s) (router : root.lsType = .routerLSA)
    (improves : Improves (exitRules node profile rounds) db root v (.link l) s t w c others)
    (atRoot : v.vertexId = root.linkStateId) : IsLink l ∧ l.linkId = w.vertexId ∧
      l.linkId ≠ root.linkStateId ∧ ∃ before after, root.linkRecords = before ++ l :: after ∧
        ∀ l' ∈ before, l'.linkType = .pointToPoint → l'.linkId = l.linkId →
          l.metric ≤ l'.metric := by
  obtain ⟨link, metric, id⟩ := (improves.leads c w.vertexId).mpr ⟨rfl, rfl⟩
  have other : l.linkId ≠ root.linkStateId := by
    rw [← id, ← atRoot]
    exact (improves.outside h h.current).symm
  obtain ⟨-, done, split_, found⟩ := accounted.first atRoot
  rw [GlobalRoutingLSA.records, router] at split_
  obtain ⟨before, rest, records, rfl, restEq⟩ := map_eq_append_iff.mp split_
  obtain ⟨l', after, rfl, same, -⟩ := map_eq_cons_iff.mp restEq
  obtain rfl := SPFRecord.link.inj same
  refine ⟨link, id.symm, other, before, after, records, fun l'' mem type same => ?_⟩
  obtain ⟨u, waits, idU, short⟩ := found l'' (List.mem_map_of_mem mem) (.inl type) (same ▸ other)
  have nearest := improves.nearest h waits (idU.trans (same.trans id.symm))
  have start : v.distanceFromRoot = 0 := h.at_root (atRoot ▸ ⟨v, h.current, rfl, rfl⟩)
  rw [improves.distance, start, Nat.zero_add, metric] at nearest
  exact nearest.trans short

/-- The exits of a new path to `w` are accounted for. -/
theorem Accounted.calculated {u : SPFVertex RootExits} {c : Nat}
    {others : List (SPFVertex RootExits)}
    (accounted : Accounted node db root far v (rec :: todo) tree s)
    (h : Searching db root v (rec :: todo) tree s) (symmetric : Symmetric db)
    (links : Links db far) (describes : Describes node db root) (router : root.lsType = .routerLSA)
    (memberRoot : root ∈ db) (ties : profile = .debug ∨ NoTies db root)
    (agree : LinksAgree db root far)
    (improves : Improves (exitRules node profile rounds) db root v rec s t w c others)
    (lsa : u.lsa = w.lsa) (before : u ∈ s.candidate ∨ u.exits = {}) {e : RootExits}
    (returns : nexthop node profile rounds root v u (linkOf rec) = some e) :
    Accounts node db root far tree { w with exits := e } := by
  have accounts := accounted.all v (mem_append_left _ h.current)
  have memV := h.members v (mem_append_left _ h.current)
  have memU : u.lsa ∈ db := lsa ▸ improves.member
  have id : u.vertexId = w.vertexId := congrArg GlobalRoutingLSA.linkStateId lsa
  obtain ⟨parents, cases_⟩ := nexthop_cases returns
  have sameType : u.vertexType = w.vertexType := by
    rw [SPFVertex.vertexType, SPFVertex.vertexType, lsa]
  have fromRouter (network : w.vertexType = .network) : v.vertexType ≠ .network := by
    intro networkV
    obtain ⟨r, memR, idR, kind, -⟩ := edge_to_network symmetric improves.member
      (vertexType_network.mp network) improves.edge
    obtain rfl := eq_of_id symmetric memR memV idR
    cases kind.symm.trans (vertexType_network.mp networkV)
  refine ⟨?_, fun p mem => ?_, fun network exit mem => ?_, fun network mem => ?_⟩
  · intro exit mem
    obtain ⟨atRoot, kind, l, back, link, found, set⟩ | ⟨-, -, set⟩ | ⟨-, network, e', through,
      set⟩ |
      ⟨-, -, set⟩ := cases_
    · -- the neighbour of the root at the other end of the record
      rw [show ({ w with exits := e } : SPFVertex RootExits).exits = e from rfl, set,
        mem_singleton] at mem
      subst mem
      intro notZero
      obtain rfl : rec = .link l := by
        cases rec with
        | link l' => exact congrArg _ (some.inj link)
        | attached addr => cases link
      obtain ⟨isLink, idL, other, front, after, records, takes⟩ :=
        accounted.takes h router improves atRoot
      have memL : l ∈ root.linkRecords := by
        rw [records]
        exact mem_append_right _ mem_cons_self
      obtain ⟨pointToPoint, -⟩ | ⟨-, network⟩ :=
        record_kind symmetric links memberRoot improves.member memL idL
      · rw [lsa] at found
        exact .inl ⟨l, memL, pointToPoint, outgoing_link describes memL isLink,
          agree front l after records pointToPoint other takes w.lsa improves.member idL.symm back
            found
            notZero⟩
      · cases kind.symm.trans (sameType.trans (vertexType_network.mpr network))
    · rw [show ({ w with exits := e } : SPFVertex RootExits).exits = e from rfl, set,
        mem_singleton] at mem
      exact fun notZero => absurd (mem ▸ rfl) notZero
    · refine good_throughNetwork h symmetric links describes router memberRoot ties accounts network
        memU (fun exit mem => ?_) through exit (set ▸ mem)
      obtain there | empty := before
      · exact (accounted.all u (mem_append_right _ there)).good exit mem
      · rw [empty] at mem
        cases mem
    · exact accounts.good exit (set ▸ mem)
  · rw [show ({ w with exits := e } : SPFVertex RootExits).exits = e from rfl, parents,
      mem_singleton] at mem
    subst mem
    exact ⟨_, c, ⟨v, h.current, rfl, rfl⟩, improves.edge, improves.distance.symm⟩
  · obtain ⟨-, kind, -⟩ | ⟨-, -, set⟩ | ⟨-, networkV, -⟩ | ⟨other, -⟩ := cases_
    · cases kind.symm.trans (sameType.trans network)
    · rw [show ({ w with exits := e } : SPFVertex RootExits).exits = e from rfl, set,
        mem_singleton] at mem
      rw [mem, id, lsa]
      exact .inl rfl
    · exact absurd networkV (fromRouter network)
    · exact .inr ⟨v.vertexId, parents ▸ mem_cons_self, other⟩
  · have atRoot : v.vertexId = root.linkStateId := by
      rw [show ({ w with exits := e } : SPFVertex RootExits).exits = e from rfl, parents,
        mem_singleton] at mem
      exact mem.symm
    obtain ⟨-, kind, -⟩ | ⟨-, -, set⟩ | ⟨other, -⟩ | ⟨other, -⟩ := cases_
    · cases kind.symm.trans (sameType.trans network)
    · rw [show ({ w with exits := e } : SPFVertex RootExits).exits = e from rfl, set,
        mem_singleton, id, lsa]
      rfl
    · exact absurd atRoot other
    · exact absurd atRoot other

/-- Two vertices with the same distance are merged. -/
theorem Accounts.merge {cw : SPFVertex RootExits} {e : RootExits}
    (old : Accounts node db root far tree cw)
    (new : Accounts node db root far tree { w with exits := e })
    (lsa : cw.lsa = w.lsa) (distance : cw.distanceFromRoot = w.distanceFromRoot)
    (merged : w.exits = RootExits.merge node.pointer cw.exits e) :
    Accounts node db root far tree w := by
  have id : cw.vertexId = w.vertexId := congrArg GlobalRoutingLSA.linkStateId lsa
  have sameType : cw.vertexType = w.vertexType := by
    rw [SPFVertex.vertexType, SPFVertex.vertexType, lsa]
  have sameExit : networkExit node cw = networkExit node w := by
    rw [networkExit, networkExit, id, lsa]
  refine ⟨fun exit mem => ?_, fun p mem => ?_, fun network exit mem => ?_, fun network mem => ?_⟩
  · rw [merged, mem_merge] at mem
    exact mem.elim (old.good exit) (new.good exit)
  · rw [merged, mem_merge_parents] at mem
    obtain mem | mem := mem
    · obtain ⟨d, c, facts⟩ := old.parents p mem
      rw [id, distance] at facts
      exact ⟨d, c, facts⟩
    · exact new.parents p mem
  · rw [merged, mem_merge] at mem
    rw [merged]
    simp only [mem_merge_parents]
    obtain mem | mem := mem
    · obtain same | ⟨p, there, other⟩ := old.origin (sameType.trans network) exit mem
      · exact .inl (same.trans sameExit)
      · exact .inr ⟨p, .inl there, other⟩
    · obtain same | ⟨p, there, other⟩ := new.origin network exit mem
      · exact .inl same
      · exact .inr ⟨p, .inr there, other⟩
  · rw [merged, mem_merge_parents] at mem
    rw [merged, mem_merge]
    obtain mem | mem := mem
    · exact .inl (sameExit ▸ old.fromRoot (sameType.trans network) mem)
    · exact .inr (new.fromRoot network mem)

theorem Accounts.mono {tree' : List (SPFVertex RootExits)} (h : Accounts node db root far tree w)
    (grows : ∀ u ∈ tree, u ∈ tree') : Accounts node db root far tree' w := by
  refine ⟨h.good, fun p mem => ?_, h.origin, h.fromRoot⟩
  obtain ⟨d, c, ⟨u, there, facts⟩, edge, sum⟩ := h.parents p mem
  exact ⟨d, c, ⟨u, grows u there, facts⟩, edge, sum⟩

theorem Change.others_subset {v w u : SPFVertex ε} {s : SPFState ε}
    {others : List (SPFVertex ε)} (change : Change X root v rec s w others) (mem : u ∈ others) :
    u ∈ s.candidate := by
  obtain ⟨same, -⟩ | ⟨cw, same, -⟩ := change.before
  · exact same.mem_iff.mpr mem
  · exact same.mem_iff.mpr (mem_cons_of_mem cw mem)

/-- No candidate is lost or gets farther away. -/
theorem Improves.keeps {c : Nat} {others : List (SPFVertex ε)}
    {v w u : SPFVertex ε} {s t : SPFState ε} (improves : Improves X db root v rec s t w c others)
    (mem : u ∈ s.candidate) :
    ∃ u' ∈ t.candidate, u'.vertexId = u.vertexId ∧ u'.distanceFromRoot ≤ u.distanceFromRoot := by
  obtain ⟨same, -⟩ | ⟨cw, same, id, nearer⟩ := improves.change.before
  · exact ⟨u, improves.after.mem_iff.mpr (mem_cons_of_mem w (same.mem_iff.mp mem)), rfl,
      le_rfl⟩
  · obtain rfl | mem := mem_cons.mp (same.mem_iff.mp mem)
    · exact ⟨w, improves.after.mem_iff.mpr mem_cons_self, id.symm, nearer⟩
    · exact ⟨u, improves.after.mem_iff.mpr (mem_cons_of_mem w mem), rfl, le_rfl⟩

section Run

variable (symmetric : Symmetric db) (links : Links db far) (describes : Describes node db root)
  (router : root.lsType = .routerLSA) (memberRoot : root ∈ db)
  (ties : profile = .debug ∨ NoTies db root) (agree : LinksAgree db root far)

include symmetric links describes router memberRoot ties agree

/-- What one record does keeps the exits accounted for. -/
theorem Accounted.examine (accounted : Accounted node db root far v (rec :: todo) tree s)
    (h : Searching db root v (rec :: todo) tree s)
    (returns : examine (exitRules node profile rounds) db root v s rec = some t) :
    Accounted node db root far v todo tree t := by
  obtain ⟨rfl, known⟩ | ⟨w, c, others, improves⟩ := h.examine_step symmetric returns
  · refine ⟨accounted.all, fun atRoot => ?_⟩
    obtain ⟨single, done, split_, found⟩ := accounted.first atRoot
    refine ⟨single, done ++ [rec], by rw [split_, append_assoc, singleton_append],
      fun l mem link other => ?_⟩
    obtain mem | mem := mem_append.mp mem
    · exact found l mem link other
    · obtain rfl := mem_singleton.mp mem
      obtain ⟨u, inside, id⟩ | ⟨u, waits, id, nearer⟩ := known l.metric l.linkId ⟨link, rfl, rfl⟩
      · rw [single, mem_singleton] at inside
        rw [inside, atRoot] at id
        exact absurd id.symm other
      · have start : v.distanceFromRoot = 0 := h.at_root (atRoot ▸ ⟨v, h.current, rfl, rfl⟩)
        rw [start, Nat.zero_add] at nearer
        exact ⟨u, waits, id, nearer.le⟩
  · refine ⟨fun u mem => ?_, fun atRoot => ?_⟩
    · obtain inside | mem := mem_append.mp mem
      · exact accounted.all u (mem_append_left _ inside)
      obtain rfl | mem := mem_cons.mp (improves.after.mem_iff.mp mem)
      · cases improves.change with
        | new same unexplored returns =>
          exact accounted.calculated
            (u := { lsa := u.lsa, exits := {} }) h symmetric links describes
            router memberRoot ties agree improves rfl (.inr rfl) returns
        | @merged cw e same lsa distance returns merged =>
          have old := accounted.all cw
            (mem_append_right _ (same.mem_iff.mpr mem_cons_self))
          exact old.merge
            (accounted.calculated (u := { lsa := u.lsa, exits := {} }) h symmetric links
            describes router memberRoot ties agree improves rfl
              (.inr rfl) returns) lsa distance merged
        | @nearer cw same lsa less returns =>
          exact accounted.calculated h symmetric links describes router memberRoot ties agree
            improves lsa (.inl (same.mem_iff.mpr mem_cons_self)) returns
      · exact accounted.all u (mem_append_right _ (improves.change.others_subset mem))
    · obtain ⟨single, done, split_, found⟩ := accounted.first atRoot
      refine ⟨single, done ++ [rec], by rw [split_, append_assoc, singleton_append],
        fun l mem link other => ?_⟩
      obtain mem | mem := mem_append.mp mem
      · obtain ⟨u, waits, id, short⟩ := found l mem link other
        obtain ⟨u', waits', id', short'⟩ := improves.keeps waits
        exact ⟨u', waits', id'.trans id, short'.trans short⟩
      · obtain rfl := mem_singleton.mp mem
        obtain ⟨metric, id⟩ := (improves.leads l.metric l.linkId).mp ⟨link, rfl, rfl⟩
        have start : v.distanceFromRoot = 0 := h.at_root (atRoot ▸ ⟨v, h.current, rfl, rfl⟩)
        refine ⟨w, improves.after.mem_iff.mpr mem_cons_self, id.symm, ?_⟩
        rw [improves.distance, start, Nat.zero_add, metric]

omit links describes router memberRoot ties agree symmetric in
theorem Accounted.pop (accounted : Accounted node db root far v [] tree s)
    (h : Searching db root v [] tree s) (next : Searching db root w w.lsa.records (tree ++ [w]) t)
    (candidates : s.candidate = w :: rest) (state : t = s.popped w rest) :
    Accounted node db root far w w.lsa.records (tree ++ [w]) t := by
  refine ⟨fun u mem => ?_, fun atRoot => ?_⟩
  · have there : u ∈ tree ++ s.candidate := by
      rw [state, SPFState.popped, append_assoc, singleton_append, ← candidates] at mem
      exact mem
    exact (accounted.all u there).mono fun u mem => mem_append_left _ mem
  · -- the root is in the tree already
    obtain ⟨u, inside, id, -⟩ := h.frontier.origin
    have nodup := next.ids
    rw [map_append, map_append] at nodup
    have apart := (nodup_append.mp (nodup_append.mp nodup).1).2.2
    exact absurd (id.trans atRoot.symm) (apart _ (List.mem_map_of_mem inside) _ mem_cons_self)

omit links describes router memberRoot ties agree symmetric in
theorem accounted_start : Accounted node db root far
    (rootVertex (exitRules node profile rounds) root)
    root.records [rootVertex (exitRules node profile rounds) root] (initialState root) := by
  refine ⟨fun u mem => ?_, fun _ => ⟨rfl, [], rfl, by simp⟩⟩
  rw [initialState, append_nil, mem_singleton] at mem
  subst mem
  exact ⟨forall_mem_nil _, forall_mem_nil _, fun _ => forall_mem_nil _,
    by simp [rootVertex, exitRules]⟩

theorem Reaches.accounted (h : Reaches (exitRules node profile rounds) db root v todo tree s) :
    Accounted node db root far v todo tree s := by
  induction h with
  | start => exact accounted_start
  | examine reached returns ih =>
    exact ih.examine symmetric links describes router memberRoot ties agree
      (reached.searching symmetric memberRoot) returns
  | pop reached candidates ih =>
    have h := reached.searching symmetric memberRoot
    exact ih.pop h (h.pop symmetric candidates) candidates rfl

/-- Every exit of a run belongs to one link. -/
theorem Stored.good {exit : NodeExit} (stored : Stored node profile rounds db root exit) :
    Good node db root far exit := by
  cases stored with
  | held reached mem there =>
    exact ((reached.accounted symmetric links describes router memberRoot ties agree).all _
      mem).good
      exit there
  | @set v w addr k todo tree s e ended reached other network member before returns there =>
    have accounted := reached.accounted symmetric links describes router memberRoot ties agree
    have h := reached.searching symmetric memberRoot
    refine good_throughNetwork h symmetric links describes router memberRoot ties
      (accounted.all v (mem_append_left _ h.current)) network member (fun exit mem => ?_)
      returns exit there
    obtain waits | empty := before
    · exact (accounted.all w (mem_append_right _ waits)).good exit mem
    · rw [empty] at mem
      cases mem

end Run

/-! ## The other direction -/

theorem root_records (router : root.lsType = .routerLSA) :
    root.records = root.linkRecords.map .link := by
  rw [GlobalRoutingLSA.records, router]

/-- At the root the calculation of the exits returns. -/
theorem nexthop_at_root (symmetric : Symmetric db) (links : Links db far)
    (router : root.lsType = .routerLSA) (memberRoot : root ∈ db) {u : SPFVertex RootExits}
    (atRoot : v.vertexId = root.linkStateId) (here : rec ∈ root.records) (memU : u.lsa ∈ db)
    (leads : ∃ c, Leads db rec c u.vertexId) :
    ∃ e, (exitRules node profile rounds).nexthop root v u (linkOf rec) = some e := by
  rw [root_records router] at here
  obtain ⟨l, memL, rfl⟩ := List.mem_map.mp here
  obtain ⟨c, -, -, id⟩ := leads
  simp only [exitRules, nexthop, if_pos atRoot]
  obtain ⟨pointToPoint, kind⟩ | ⟨-, kind⟩ :=
    record_kind symmetric links memberRoot memU memL id.symm
  · -- a neighbour has a record back
    obtain ⟨w, memW, idW, back, memB, -, idB, -⟩ := links.ends root memberRoot l memL pointToPoint
    obtain rfl := eq_of_id symmetric memU memW (id.trans idW.symm)
    have some_ : (u.lsa.linkRecords.find? fun l => l.linkId = v.vertexId).isSome = true :=
      find?_isSome.mpr ⟨back, memB, decide_eq_true (idB.trans atRoot.symm)⟩
    obtain ⟨l', found⟩ := isSome_iff_exists.mp some_
    have type : u.vertexType = .router := by rw [SPFVertex.vertexType, kind]
    simp only [type, linkOf, spfGetNextLink_none, found, some_bind]
    exact ⟨_, rfl⟩
  · simp only [vertexType_network.mpr kind]
    exact ⟨_, rfl⟩

/-- The records of the root are all examined: `done` came before. -/
theorem reaches_root (symmetric : Symmetric db) (links : Links db far)
    (router : root.lsType = .routerLSA)
    (memberRoot : root ∈ db) {done todo : List SPFRecord} (split_ : root.records = done ++ todo) :
    ∃ s, Reaches (exitRules node profile rounds) db root
        (rootVertex (exitRules node profile rounds) root) todo
        [rootVertex (exitRules node profile rounds) root] s ∧
      ∀ u ∈ s.candidate, ∃ l, .link l ∈ done ∧ l.linkId = u.vertexId ∧
        u.distanceFromRoot = l.metric := by
  induction done using List.reverseRecOn generalizing todo with
  | nil =>
    subst split_
    exact ⟨initialState root, .start, nofun⟩
  | append_singleton done rec ih =>
    rw [append_assoc, singleton_append] at split_
    obtain ⟨s, reached, sources⟩ := ih split_
    have here : rec ∈ root.records := by
      rw [split_]
      exact mem_append_right _ mem_cons_self
    have h := reached.searching symmetric memberRoot
    obtain ⟨t, returns⟩ := h.examine_returns symmetric fun u memU leads _ =>
      nexthop_at_root symmetric links router memberRoot rfl here memU leads
    have old (u : SPFVertex RootExits) (mem : u ∈ s.candidate) : ∃ l, .link l ∈ done ++ [rec] ∧
        l.linkId = u.vertexId ∧ u.distanceFromRoot = l.metric := by
      obtain ⟨l, there, facts⟩ := sources u mem
      exact ⟨l, mem_append_left _ there, facts⟩
    refine ⟨t, reached.examine returns, fun u mem => ?_⟩
    obtain ⟨rfl, -⟩ | ⟨w, c, others, improves⟩ := h.examine_step symmetric returns
    · exact old u mem
    · obtain rfl | mem := mem_cons.mp (improves.after.mem_iff.mp mem)
      · rw [root_records router] at here
        obtain ⟨l, -, rfl⟩ := List.mem_map.mp here
        obtain ⟨-, metric, id⟩ := (improves.leads c u.vertexId).mpr ⟨rfl, rfl⟩
        refine ⟨l, mem_append_right _ mem_cons_self, id.symm, ?_⟩
        rw [improves.distance, ← metric]
        exact Nat.zero_add c
      · exact old u (improves.change.others_subset mem)

/-- A link that is taken up gives its neighbour an exit: the interface of the link, and the
first record back. -/
theorem stored_of_taken (symmetric : Symmetric db) (links : Links db far)
    (router : root.lsType = .routerLSA) (memberRoot : root ∈ db)
    {before after : List GlobalRoutingLinkRecord} {l back : GlobalRoutingLinkRecord}
    {lsa : GlobalRoutingLSA} (records : root.linkRecords = before ++ l :: after)
    (pointToPoint : l.linkType = .pointToPoint) (other : l.linkId ≠ root.linkStateId)
    (takes : ∀ l' ∈ before, l'.linkType = .pointToPoint → l'.linkId = l.linkId →
      l.metric ≤ l'.metric)
    (member : lsa ∈ db) (idLsa : lsa.linkStateId = l.linkId)
    (found : (lsa.linkRecords.find? fun r => r.linkId = root.linkStateId) = some back) :
    Stored node profile rounds db root
      (back.linkData, node.findOutgoingInterfaceId l.linkData) := by
  have split_ : root.records = before.map .link ++ .link l :: after.map .link := by
    rw [root_records router, records, map_append, map_cons]
  have here : .link l ∈ root.records := by
    rw [split_]
    exact mem_append_right _ mem_cons_self
  have memL : l ∈ root.linkRecords := by
    rw [records]
    exact mem_append_right _ mem_cons_self
  have inBefore (l' : GlobalRoutingLinkRecord) (mem : l' ∈ before) : l' ∈ root.linkRecords := by
    rw [records]
    exact mem_append_left _ mem
  obtain ⟨-, kind⟩ | ⟨wrong, -⟩ := record_kind symmetric links memberRoot member memL idLsa.symm
  swap
  · exact absurd (pointToPoint.symm.trans wrong) nofun
  obtain ⟨s, reached, sources⟩ :=
    @reaches_root node profile rounds db far root symmetric links router memberRoot _ _ split_
  have h := reached.searching symmetric memberRoot
  obtain ⟨t, returns⟩ := h.examine_returns symmetric fun u memU leads _ =>
    nexthop_at_root symmetric links router memberRoot rfl here memU leads
  obtain ⟨-, known⟩ | ⟨w, c, others, improves⟩ := h.examine_step symmetric returns
  · obtain ⟨u, inside, id⟩ | ⟨u, waits, id, nearer⟩ :=
      known l.metric l.linkId ⟨.inl pointToPoint, rfl, rfl⟩
    · rw [mem_singleton.mp inside] at id
      exact absurd id.symm other
    · obtain ⟨l', there, id', metric⟩ := sources u waits
      obtain ⟨l'', mem'', same⟩ := List.mem_map.mp there
      obtain rfl := SPFRecord.link.inj same
      have sameId : l''.linkId = l.linkId := id'.trans id
      obtain ⟨type, -⟩ | ⟨-, wrong⟩ :=
        record_kind symmetric links memberRoot member (inBefore l'' mem'') (sameId.trans idLsa.symm)
      · have least := takes l'' mem'' type sameId
        rw [metric, show (rootVertex (exitRules node profile rounds) root).distanceFromRoot = 0 from
          rfl,
          Nat.zero_add] at nearer
        exact absurd nearer (Nat.not_lt.mpr least)
      · exact absurd (kind.symm.trans wrong) nofun
  · obtain ⟨-, -, id⟩ := (improves.leads c w.vertexId).mpr ⟨rfl, rfl⟩
    obtain rfl : w.lsa = lsa := eq_of_id symmetric improves.member member (id.trans idLsa.symm)
    have sets (u : SPFVertex RootExits) (lsa : u.lsa = w.lsa) (e : RootExits)
        (returns : (exitRules node profile rounds).nexthop root
          (rootVertex (exitRules node profile rounds) root) u (linkOf (.link l)) = some e) :
        (back.linkData, node.findOutgoingInterfaceId l.linkData) ∈ e.ecmpRootExits := by
      have type : u.vertexType = .router := by rw [SPFVertex.vertexType, lsa, kind]
      obtain ⟨-, ⟨-, -, l', back', link, found', set⟩ | ⟨-, wrong, -⟩ | ⟨wrong, -⟩ | ⟨wrong, -⟩⟩ :=
        nexthop_cases returns
      · cases link
        rw [lsa] at found'
        obtain rfl := some.inj (found.symm.trans found')
        rw [set]
        exact mem_cons_self
      · exact absurd type wrong
      · exact absurd rfl wrong
      · exact absurd rfl wrong
    refine .held (reached.examine returns)
      (mem_append_right _ (improves.after.mem_iff.mpr mem_cons_self)) ?_
    cases improves.change with
    | new same unexplored returns => exact sets { lsa := w.lsa, exits := {} } rfl _ returns
    | merged same lsa distance returns merged =>
      rw [merged]
      exact mem_merge.mpr (.inr (sets { lsa := w.lsa, exits := {} } rfl _ returns))
    | nearer same lsa less returns => exact sets _ lsa _ returns

/-- The exits of every run belong to one link if, and in builds with assertions only if, the
records of each link of the root agree. -/
theorem exits_on_one_link (node : RootNode) (profile : BuildProfile) (rounds : Nat)
    {db : GlobalRouteManagerLSDB} {far : Nat → Nat} {root : GlobalRoutingLSA}
    (symmetric : Symmetric db) (links : Links db far) (describes : Describes node db root)
    (router : root.lsType = .routerLSA) (memberRoot : root ∈ db) :
    (LinksAgree db root far → (profile = .debug ∨ NoTies db root) →
      ∀ exit, Stored node profile rounds db root exit → exit.1 ≠ 0 →
        OnOneLink node db root far exit) ∧
    ((∀ exit, Stored node profile rounds db root exit → exit.1 ≠ 0 →
      OnOneLink node db root far exit) → LinksAgree db root far) := by
  constructor
  · intro agree ties exit stored
    exact stored.good symmetric links describes router memberRoot ties agree
  · intro all before l after records pointToPoint other takes lsa member idLsa back found notZero
    have memL : l ∈ root.linkRecords := by
      rw [records]
      exact List.mem_append_right _ List.mem_cons_self
    have stored : Stored node profile rounds db root
        (back.linkData, node.findOutgoingInterfaceId l.linkData) :=
      stored_of_taken symmetric links router memberRoot records pointToPoint other takes member
        idLsa
        found
    have there := outgoing_link describes memL (.inl pointToPoint)
    obtain ⟨l', memL', type, there', hop⟩ | ⟨l', memL', type, there', -⟩ := all _ stored notZero
    · obtain rfl := describes.one l memL l' memL' (.inl pointToPoint) (.inl type) _ there there'
      exact hop
    · obtain rfl := describes.one l memL l' memL' (.inl pointToPoint) (.inr type) _ there there'
      exact absurd (pointToPoint.symm.trans type) nofun

/-! ## Single and parallel links -/

theorem atInterface_iff {interfaces : List (List Nat)} {pointer : Nat → Nat} {i : Int} {a : Nat} :
    AtInterface ⟨some interfaces, pointer⟩ i a ↔
      ∃ k : Nat, ∃ addresses, interfaces[k]? = some addresses ∧ i = k ∧ a ∈ addresses := by
  constructor
  · rintro ⟨_, k, addresses, same, facts⟩
    cases same
    exact ⟨k, addresses, facts⟩
  · rintro ⟨k, addresses, facts⟩
    exact ⟨interfaces, k, addresses, rfl, facts⟩

/-- Router 1 of `smallDatabase` with its interface. -/
def smallNode : RootNode := ⟨some [[11]], id⟩

def smallFar (a : Nat) : Nat := if a = 11 then 12 else 11

def smallRoot : GlobalRoutingLSA where
  lsType := .routerLSA
  linkStateId := 1
  linkRecords := [⟨.pointToPoint, 2, 11, 4⟩, ⟨.stubNetwork, 12, 255, 4⟩]

theorem smallNode_at {i : Int} {a : Nat} : AtInterface smallNode i a ↔ i = 0 ∧ a = 11 := by
  rw [smallNode, atInterface_iff]
  constructor
  · rintro ⟨k, addresses, there, rfl, mem⟩
    cases k with
    | zero =>
      cases there
      exact ⟨rfl, mem_singleton.mp mem⟩
    | succ k => cases there
  · rintro ⟨rfl, rfl⟩
    exact ⟨0, [11], rfl, rfl, mem_cons_self⟩

theorem smallNode_describes : Describes smallNode smallDatabase smallRoot := by
  refine ⟨?_, ?_, ?_, ?_, ?_, ?_⟩
  · intro l mem link
    have data : ∀ l ∈ smallRoot.linkRecords, l.linkType = .pointToPoint ∨
      l.linkType = .transitNetwork →
        l.linkData = 11 := by decide
    exact ⟨0, (smallNode_at).mpr ⟨rfl, data l mem link⟩⟩
  · intro i a there
    rw [((smallNode_at).mp there).2]
    decide
  · intro i j a there there'
    rw [((smallNode_at).mp there).1, ((smallNode_at).mp there').1]
  · intro l mem l' mem' link link' i _ _
    have only : ∀ l ∈ smallRoot.linkRecords, ∀ l' ∈ smallRoot.linkRecords,
        (l.linkType = .pointToPoint ∨ l.linkType = .transitNetwork) →
        (l'.linkType = .pointToPoint ∨ l'.linkType = .transitNetwork) → l = l' := by decide
    exact only l mem l' mem' link link'
  · decide
  · intro l mem type
    have none_ : ∀ l ∈ smallRoot.linkRecords, l.linkType ≠ .transitNetwork := by decide
    exact absurd type (none_ l mem)

theorem exits_on_one_link_small :
    (LinksAgree smallDatabase smallRoot smallFar →
      (BuildProfile.debug = .debug ∨ NoTies smallDatabase smallRoot) →
      ∀ exit, Stored smallNode .debug 3 smallDatabase smallRoot exit → exit.1 ≠ 0 →
        OnOneLink smallNode smallDatabase smallRoot smallFar exit) ∧
    ((∀ exit, Stored smallNode .debug 3 smallDatabase smallRoot exit → exit.1 ≠ 0 →
      OnOneLink smallNode smallDatabase smallRoot smallFar exit) →
      LinksAgree smallDatabase smallRoot smallFar) :=
  exits_on_one_link smallNode .debug 3 smallDatabase_symmetric ⟨by decide, by decide, by decide⟩
    smallNode_describes rfl List.mem_cons_self

/-- Two routers with two links between them. -/
def parallelDatabase : GlobalRouteManagerLSDB :=
  [{ lsType := .routerLSA, linkStateId := 1,
     linkRecords := [⟨.pointToPoint, 2, 11, 4⟩, ⟨.pointToPoint, 2, 13, 4⟩] },
   { lsType := .routerLSA, linkStateId := 2,
     linkRecords := [⟨.pointToPoint, 1, 12, 4⟩, ⟨.pointToPoint, 1, 14, 4⟩] }]

def parallelRoot : GlobalRoutingLSA where
  lsType := .routerLSA
  linkStateId := 1
  linkRecords := [⟨.pointToPoint, 2, 11, 4⟩, ⟨.pointToPoint, 2, 13, 4⟩]

def parallelNode : RootNode := ⟨some [[11], [13]], id⟩

def parallelFar (a : Nat) : Nat :=
  if a = 11 then 12 else if a = 12 then 11 else if a = 13 then 14 else 13

theorem parallelNode_at {i : Int} {a : Nat} :
    AtInterface parallelNode i a ↔ i = 0 ∧ a = 11 ∨ i = 1 ∧ a = 13 := by
  rw [parallelNode, atInterface_iff]
  constructor
  · rintro ⟨k, addresses, there, rfl, mem⟩
    match k, there with
    | 0, there =>
      cases there
      exact .inl ⟨rfl, mem_singleton.mp mem⟩
    | 1, there =>
      cases there
      exact .inr ⟨rfl, mem_singleton.mp mem⟩
  · rintro (⟨rfl, rfl⟩ | ⟨rfl, rfl⟩)
    · exact ⟨0, [11], rfl, rfl, mem_cons_self⟩
    · exact ⟨1, [13], rfl, rfl, mem_cons_self⟩

theorem parallelNode_describes_of {db : GlobalRouteManagerLSDB} {root : GlobalRoutingLSA}
    (data : ∀ l ∈ root.linkRecords, l.linkData = 11 ∨ l.linkData = 13)
    (none_ : ∀ l ∈ root.linkRecords, l.linkType ≠ .transitNetwork)
    (injective : ∀ l ∈ root.linkRecords, ∀ l' ∈ root.linkRecords, l.linkData = l'.linkData →
      l = l') :
    Describes parallelNode db root := by
  refine ⟨fun l mem _ => ?_, fun i a there => ?_, fun i j a there there' => ?_,
    fun l mem l' mem' _ _ i there there' => ?_, fun l mem type => absurd type (none_ l mem),
    fun l mem type => absurd type (none_ l mem)⟩
  · obtain first | second := data l mem
    · exact ⟨0, (parallelNode_at).mpr (.inl ⟨rfl, first⟩)⟩
    · exact ⟨1, (parallelNode_at).mpr (.inr ⟨rfl, second⟩)⟩
  · obtain ⟨-, rfl⟩ | ⟨-, rfl⟩ := (parallelNode_at).mp there <;> decide
  · have first := (parallelNode_at).mp there
    have second := (parallelNode_at).mp there'
    omega
  · have same : l.linkData = l'.linkData := by
      have first := (parallelNode_at).mp there
      have second := (parallelNode_at).mp there'
      omega
    exact injective l mem l' mem' same

theorem parallelNode_describes : Describes parallelNode parallelDatabase parallelRoot :=
  parallelNode_describes_of (by decide) (by decide) (by decide)

/-- The exit by the second interface gets the address on the first link. -/
theorem parallel_links_mixed : Symmetric parallelDatabase ∧ Links parallelDatabase parallelFar ∧
    Describes parallelNode parallelDatabase parallelRoot ∧ parallelRoot ∈ parallelDatabase ∧
    Stored parallelNode .debug 3 parallelDatabase parallelRoot (12, 1) ∧
    ¬ OnOneLink parallelNode parallelDatabase parallelRoot parallelFar (12, 1) := by
  have symmetric : Symmetric parallelDatabase := by refine ⟨?_, ?_, ?_, ?_, ?_, ?_, ?_⟩ <;> decide
  have links : Links parallelDatabase parallelFar := ⟨by decide, by decide, by decide⟩
  refine ⟨symmetric, links, parallelNode_describes, List.mem_cons_self, ?_, ?_⟩
  · have stored := @stored_of_taken parallelNode .debug 3 parallelDatabase parallelFar parallelRoot
      symmetric links rfl List.mem_cons_self [⟨.pointToPoint, 2, 11, 4⟩] []
      ⟨.pointToPoint, 2, 13, 4⟩ ⟨.pointToPoint, 1, 12, 4⟩
      { lsType := .routerLSA, linkStateId := 2,
        linkRecords := [⟨.pointToPoint, 1, 12, 4⟩, ⟨.pointToPoint, 1, 14, 4⟩] }
      rfl rfl (by decide) (by decide) (by decide) rfl rfl
    exact stored
  · rintro (⟨l, mem, -, there, hop⟩ | ⟨l, mem, type, -⟩)
    · rw [parallelNode, atInterface_iff] at there
      obtain ⟨k, addresses, there, one, data⟩ := there
      obtain rfl : k = 1 := (Int.ofNat.inj one).symm
      cases there
      rw [List.mem_singleton.mp data] at hop
      exact absurd hop (by decide)
    · have none_ : ∀ l ∈ parallelRoot.linkRecords, l.linkType ≠ .transitNetwork := by decide
      exact absurd type (none_ l mem)

end GlobalRouteManagerImpl

end Ns3
