import Ns3.Internet.GlobalRouting.Routes

/-!
# Equal-cost exits

The exits of a vertex are the first hops of all its shortest paths, as long as a network that
such a path passes has a single first hop: `SPFNexthopCalculation` copies one exit through a
network, and asserts that there is no other.
-/

namespace Ns3

open ShortestPath List Option

namespace GlobalRouteManagerImpl

variable {node : RootNode} {rounds : Nat} {db : GlobalRouteManagerLSDB} {far : Nat → Nat}
  {root : GlobalRoutingLSA} {v w u : SPFVertex RootExits} {s t : SPFState RootExits}
  {tree rest : List (SPFVertex RootExits)} {done todo : List SPFRecord} {rec : SPFRecord}
  {hop : Hop}

/-- No network that a shortest path passes has two first hops. -/
def SingleHop (node : RootNode) (db : GlobalRouteManagerLSDB) (root : GlobalRoutingLSA)
    (far : Nat → Nat) : Prop :=
  ∀ n ∈ db, n.lsType = .networkLSA → ∀ d,
    IsLeast {e | Walk (Edge db) root.linkStateId n.linkStateId e} d →
    (∃ r, Edge db n.linkStateId 0 r ∧ IsLeast {e | Walk (Edge db) root.linkStateId r e} d) →
    ∀ hop hop', Route node db root far n.linkStateId d hop →
      Route node db root far n.linkStateId d hop' → hop = hop'

/-- What is given of the database and of the root's node. -/
structure Setting (node : RootNode) (db : GlobalRouteManagerLSDB) (root : GlobalRoutingLSA)
    (far : Nat → Nat) : Prop where
  symmetric : Symmetric db
  links : Links db far
  plain : Plain db
  describes : Describes node db root
  router : root.lsType = .routerLSA
  memberRoot : root ∈ db

theorem Plain.unique (plain : Plain db) {r : GlobalRoutingLSA} (member : r ∈ db)
    {l l' : GlobalRoutingLinkRecord} (mem : l ∈ r.linkRecords) (mem' : l' ∈ r.linkRecords)
    (link : IsLink l) (link' : IsLink l') (same : l.linkId = l'.linkId) : l = l' := by
  have single := plain.single r member
  obtain ⟨front, back, records⟩ := append_of_mem mem
  rw [records] at single mem'
  obtain ⟨-, later, apart⟩ := pairwise_append.mp single
  obtain before | after := mem_append.mp mem'
  · exact absurd same.symm (apart l' before l mem_cons_self link' link)
  · obtain rfl | after := mem_cons.mp after
    · rfl
    · exact absurd same ((pairwise_cons.mp later).1 l' after link link')

/-! ## The last step of a path -/

/-- A link of the root gives its neighbour one hop. -/
theorem lastStep_root (setting : Setting node db root far) {l : GlobalRoutingLinkRecord}
    (mem : l ∈ root.linkRecords) (link : IsLink l) {i : Int}
    (there : AtInterface node i l.linkData) :
    LastStep node db root far root.linkStateId 0 l.metric l.linkId hop ↔
      hop = if l.linkType = .pointToPoint then .via (far l.linkData) i else .onNetwork i := by
  have only {l' : GlobalRoutingLinkRecord} {i' : Int} (mem' : l' ∈ root.linkRecords)
    (link' : IsLink l')
      (there' : AtInterface node i' l'.linkData) (same : l'.linkId = l.linkId) : l' = l ∧
      i' = i := by
    obtain rfl := setting.plain.unique setting.memberRoot mem' mem link' link same
    exact ⟨rfl, setting.describes.addresses _ _ _ there' there⟩
  constructor
  · generalize cost : l.metric = c
    generalize target : l.linkId = id
    intro last
    cases last with
    | link mem' type there' =>
      obtain ⟨rfl, rfl⟩ := only mem' (.inl type) there' target.symm
      rw [if_pos type]
    | network mem' type there' =>
      obtain ⟨rfl, rfl⟩ := only mem' (.inr type) there' target.symm
      simp [type]
    | attached before => exact absurd (before.pos setting.plain setting.memberRoot) (by omega)
    | further before => exact absurd (before.pos setting.plain setting.memberRoot) (by omega)
  · rintro rfl
    split
    case isTrue type => exact .link mem type there
    case isFalse other => exact .network mem (link.resolve_left other) there

/-- The first record back from a neighbour is that of the link. -/
theorem find_back (setting : Setting node db root far) {l back : GlobalRoutingLinkRecord}
    {lsa : GlobalRoutingLSA} (mem : l ∈ root.linkRecords) (type : l.linkType = .pointToPoint)
    (member : lsa ∈ db) (id : lsa.linkStateId = l.linkId)
    (found : (lsa.linkRecords.find? fun r => r.linkId = root.linkStateId) = some back) :
    back.linkData = far l.linkData := by
  obtain ⟨w, memW, idW, back', memB', type', idB', data⟩ :=
    setting.links.ends root setting.memberRoot l mem type
  obtain rfl := eq_of_id setting.symmetric memW member (idW.trans id.symm)
  have memB := mem_of_find?_eq_some found
  have idB : back.linkId = root.linkStateId := by simpa using find?_some found
  have kind : IsLink back := by
    obtain ⟨kind, -⟩ | ⟨kind, -⟩ :=
      record_kind setting.symmetric setting.links member setting.memberRoot memB idB
    · exact .inl kind
    · exact .inr kind
  rw [setting.plain.unique member memB memB' kind (.inl type') (idB.trans idB'.symm), data]

theorem exits_of_only {p pd c id : Nat} {hop₀ : Hop}
    (only : ∀ hop, LastStep node db root far p pd c id hop ↔ hop = hop₀) (exit : NodeExit) :
    exit ∈ [hop₀.exit] ↔ ∃ hop, LastStep node db root far p pd c id hop ∧ hop.exit = exit := by
  rw [mem_singleton]
  constructor
  · rintro rfl
    exact ⟨hop₀, (only hop₀).mpr rfl, rfl⟩
  · rintro ⟨hop, last, rfl⟩
    rw [(only hop).mp last]

/-- Behind a network with one hop there is one hop. -/
theorem lastStep_network (setting : Setting node db root far) {n : GlobalRoutingLSA} {d : Nat}
    {hop₀ : Hop} (memN : n ∈ db) (network : n.lsType = .networkLSA)
    (one : ∀ hop, Route node db root far n.linkStateId d hop ↔ hop = hop₀)
    {r : GlobalRoutingLSA} (memR : r ∈ db) {l : GlobalRoutingLinkRecord} (mem : l ∈ r.linkRecords)
    (type : l.linkType = .transitNetwork) (id : l.linkId = n.linkStateId)
    (edge : Edge db n.linkStateId 0 r.linkStateId) :
    LastStep node db root far n.linkStateId d 0 r.linkStateId hop ↔
      hop = hop₀.behind l.linkData := by
  have notRoot : n.linkStateId ≠ root.linkStateId := by
    intro same
    obtain rfl := eq_of_id setting.symmetric memN setting.memberRoot same
    exact absurd (network.symm.trans setting.router) nofun
  constructor
  · generalize target : r.linkStateId = w
    generalize cost : 0 = c
    generalize start : n.linkStateId = p at one notRoot id
    intro last
    cases last with
    | link => exact absurd rfl notRoot
    | network => exact absurd rfl notRoot
    | @attached _ _ i r' l' before _ memR' mem' type' id' =>
      obtain rfl := (one _).mp before
      obtain rfl := eq_of_id setting.symmetric memR memR' target
      rw [setting.plain.unique memR mem mem' (.inr type) (.inr type') (id.trans id'.symm)]
      rfl
    | further before =>
      obtain rfl := (one _).mp before
      rfl
  · rintro rfl
    have route := (one hop₀).mpr rfl
    cases hop₀ with
    | onNetwork i => exact .attached route edge memR mem type id
    | via nextHop i => exact .further route edge

/-- A route to a router has a next hop. -/
theorem Route.via_of_router (setting : Setting node db root far) {r : GlobalRoutingLSA} {d : Nat}
    (memR : r ∈ db) (router : r.lsType = .routerLSA)
    (route : Route node db root far r.linkStateId d hop) : ∃ nextHop i, hop = .via nextHop i := by
  generalize target : r.linkStateId = id at route
  cases route with
  | link => exact ⟨_, _, rfl⟩
  | @network l i mem type =>
    obtain ⟨n, memN, kind, idN, -⟩ :=
      setting.symmetric.transit root setting.memberRoot l mem type
    obtain rfl := eq_of_id setting.symmetric memR memN (target.trans idN.symm)
    exact absurd (router.symm.trans kind) nofun
  | attached => exact ⟨_, _, rfl⟩
  | further => exact ⟨_, _, rfl⟩

/-- From a router other than the root the hops are handed on. -/
theorem lastStep_router (setting : Setting node db root far) {r : GlobalRoutingLSA} {d c id : Nat}
    (memR : r ∈ db) (router : r.lsType = .routerLSA) (other : r.linkStateId ≠ root.linkStateId)
    (edge : Edge db r.linkStateId c id) :
    LastStep node db root far r.linkStateId d c id hop ↔
      Route node db root far r.linkStateId d hop := by
  constructor
  · generalize start : r.linkStateId = p at other
    intro last
    cases last with
    | link => exact absurd rfl other
    | network => exact absurd rfl other
    | attached before =>
      rw [← start] at before
      obtain ⟨_, _, wrong⟩ := before.via_of_router setting memR router
      cases wrong
    | further before => exact before
  · intro route
    obtain ⟨nextHop, i, rfl⟩ := route.via_of_router setting memR router
    exact .further route edge

/-! ## What the code computes for one path -/

/-- The exits are the first hops of all paths of the vertex's distance. -/
def Final (node : RootNode) (db : GlobalRouteManagerLSDB) (root : GlobalRoutingLSA)
    (far : Nat → Nat)
    (u : SPFVertex RootExits) : Prop :=
  ∀ exit, exit ∈ u.exits.ecmpRootExits ↔
    ∃ hop, Route node db root far u.vertexId u.distanceFromRoot hop ∧ hop.exit = exit

/-- A vertex has exits and parents; the parents are in the tree and on paths of its distance. -/
structure Formed (db : GlobalRouteManagerLSDB) (tree : List (SPFVertex RootExits))
    (u : SPFVertex RootExits) : Prop where
  parents : u.exits.parents ≠ []
  tight : ∀ p ∈ u.exits.parents, ∃ d c, At tree p d ∧ Edge db p c u.vertexId ∧
    d + c = u.distanceFromRoot
  some_ : u.exits.ecmpRootExits ≠ []
  nodup : u.exits.ecmpRootExits.Nodup

/-- The exits `e` are the first hops of the paths to `id` through `v`. -/
structure Computes (node : RootNode) (db : GlobalRouteManagerLSDB) (root : GlobalRoutingLSA)
    (far : Nat → Nat) (v : SPFVertex RootExits) (c id : Nat) (e : RootExits) : Prop where
  parents : e.parents = [v.vertexId]
  some_ : e.ecmpRootExits ≠ []
  nodup : e.ecmpRootExits.Nodup
  exits : ∀ exit, exit ∈ e.ecmpRootExits ↔
    ∃ hop, LastStep node db root far v.vertexId v.distanceFromRoot c id hop ∧ hop.exit = exit

theorem Computes.single {c id : Nat} {e : RootExits} {hop₀ : Hop}
    (parents : e.parents = [v.vertexId])
    (exits : e.ecmpRootExits = [hop₀.exit])
    (only : ∀ hop, LastStep node db root far v.vertexId v.distanceFromRoot c id hop ↔ hop = hop₀) :
    Computes node db root far v c id e where
  parents := parents
  some_ := exits ▸ cons_ne_nil _ _
  nodup := exits ▸ nodup_singleton _
  exits exit := exits ▸ exits_of_only only exit

section

variable (setting : Setting node db root far) (h : Searching db root v (rec :: todo) tree s)
include setting h

/-- From the root. -/
theorem computes_at_root (atRoot : v.vertexId = root.linkStateId)
    {c : Nat} (memU : u.lsa ∈ db) (leads : Leads db rec c u.vertexId) :
    ∃ e, nexthop node .debug rounds root v u (linkOf rec) = some e ∧
      Computes node db root far v c u.vertexId e := by
  have start : v.distanceFromRoot = 0 := h.at_root (atRoot ▸ ⟨v, h.current, rfl, rfl⟩)
  have memV := h.members v (mem_append_left _ h.current)
  have vRoot : v.lsa = root := eq_of_id setting.symmetric memV setting.memberRoot atRoot
  have here : rec ∈ root.records := vRoot ▸ h.rest rec mem_cons_self
  obtain ⟨e, returns⟩ : ∃ e, (exitRules node .debug rounds).nexthop root v u (linkOf rec) =
    some e :=
    nexthop_at_root setting.symmetric setting.links setting.router setting.memberRoot atRoot here
      memU
      ⟨c, leads⟩
  rw [root_records setting.router] at here
  obtain ⟨l, memL, rfl⟩ := List.mem_map.mp here
  obtain ⟨link, rfl, id⟩ := leads
  refine ⟨e, returns, ?_⟩
  obtain ⟨parents, ⟨-, kind, l', back, same, found, exits⟩ | ⟨-, kind, exits⟩ | ⟨other, -⟩ | ⟨other,
    -⟩⟩ :=
    nexthop_cases returns
  · cases same
    have type : l.linkType = .pointToPoint := by
      refine link.resolve_right fun transit => ?_
      obtain ⟨n, memN, network, idN, -⟩ :=
        setting.symmetric.transit root setting.memberRoot l memL transit
      obtain rfl := eq_of_id setting.symmetric memU memN (id.trans idN.symm)
      cases kind.symm.trans (vertexType_network.mpr network)
    have only (hop : Hop) := @lastStep_root node db far root hop setting l memL link _
      (outgoing_link setting.describes memL link)
    rw [if_pos type, ← atRoot, ← start, ← id] at only
    refine .single parents ?_ only
    rw [exits, find_back setting memL type memU id found]
    rfl
  · have type : l.linkType = .transitNetwork := by
      refine link.resolve_left fun pointToPoint => ?_
      obtain ⟨w, memW, router, idW, -⟩ :=
        setting.symmetric.pointToPoint root setting.memberRoot l memL pointToPoint
      obtain rfl := eq_of_id setting.symmetric memU memW (id.trans idW.symm)
      exact absurd (by rw [SPFVertex.vertexType, router]) kind
    obtain ⟨l', memL', transit', id', there⟩ :=
      outgoing_network setting.describes memL type memU id
    obtain rfl := setting.plain.unique setting.memberRoot memL' memL (.inr transit') link
      (id'.trans id)
    have only (hop : Hop) := @lastStep_root node db far root hop setting l' memL link _ there
    rw [if_neg (by rw [type]; decide), ← atRoot, ← start, ← id] at only
    refine .single parents ?_ only
    exact exits
  · exact absurd atRoot other
  · exact absurd atRoot other

/-- From a router. -/
theorem computes_at_router (other : v.vertexId ≠ root.linkStateId)
    (final : Final node db root far v) (formed : Formed db tree v)
    (router : v.lsa.lsType = .routerLSA)
    {c : Nat} (edge : Edge db v.vertexId c u.vertexId) :
    ∃ e, nexthop node .debug rounds root v u (linkOf rec) = some e ∧
      Computes node db root far v c u.vertexId e := by
  have memV := h.members v (mem_append_left _ h.current)
  have type : v.vertexType = .router := by rw [SPFVertex.vertexType, router]
  refine ⟨(u.exits.inheritAllRootExitDirections v.exits).setParent v.vertexId, ?_, rfl,
    formed.some_,
    formed.nodup, fun exit => ?_⟩
  · simp only [nexthop, if_neg other, type]
    rfl
  · refine (final exit).trans (exists_congr fun hop => and_congr_left fun _ => ?_)
    exact (lastStep_router setting memV router other edge).symm

end

theorem exits_eq_single {exits : List NodeExit} {exit : NodeExit} (some_ : exits ≠ [])
    (nodup : exits.Nodup) (same : ∀ e ∈ exits, e = exit) : exits = [exit] := by
  cases exits with
  | nil => exact absurd rfl some_
  | cons e rest =>
    obtain rfl := same e mem_cons_self
    cases rest with
    | nil => rfl
    | cons e' rest =>
      obtain rfl := same e' (mem_cons_of_mem _ mem_cons_self)
      exact absurd mem_cons_self (nodup_cons.mp nodup).1

/-- A record of a network that leads to a router outside the tree. -/
theorem network_record (setting : Setting node db root far)
    (h : Searching db root v (rec :: todo) tree s) (network : v.lsa.lsType = .networkLSA)
    (memU : u.lsa ∈ db) {c : Nat} (leads : Leads db rec c u.vertexId)
    (outside : ∀ x ∈ tree, x.vertexId ≠ u.vertexId) :
    c = 0 ∧ Edge db v.vertexId 0 u.vertexId ∧
      IsLeast {e | Walk (Edge db) root.linkStateId u.vertexId e} v.distanceFromRoot ∧
      ∃ l ∈ u.lsa.linkRecords, l.linkType = .transitNetwork ∧ l.linkId = v.vertexId := by
  have memV := h.members v (mem_append_left _ h.current)
  have here := h.rest rec mem_cons_self
  have edge := (edge_iff setting.symmetric memV).mpr ⟨rec, here, leads⟩
  rw [GlobalRoutingLSA.records, network] at here
  obtain ⟨addr, mem, rfl⟩ := List.mem_map.mp here
  obtain ⟨rfl, r, found, id⟩ := leads
  obtain ⟨r', memR, -, found', l, memL, transit, idL, -⟩ :=
    setting.symmetric.attached v.lsa memV network addr mem
  obtain rfl := some.inj (found.symm.trans found')
  obtain rfl := eq_of_id setting.symmetric memU memR id
  refine ⟨rfl, edge, ⟨?_, fun e walk => ?_⟩, l, memL, transit, idL⟩
  · exact (h.frontier.treeWalk _ _ ⟨v, h.current, rfl, rfl⟩).snoc edge
  · obtain ⟨d, -, x, inside, id, -⟩ | long := h.reach walk
    · exact absurd id (outside x inside)
    · exact long

/-- From a network. -/
theorem computes_at_network (setting : Setting node db root far)
    (single : SingleHop node db root far)
    (h : Searching db root v (rec :: todo) tree s) (other : v.vertexId ≠ root.linkStateId)
    (all : ∀ x ∈ tree, x.vertexId ≠ root.linkStateId → Formed db tree x ∧ Final node db root far x)
    (network : v.lsa.lsType = .networkLSA) {c : Nat} (memU : u.lsa ∈ db)
    (leads : Leads db rec c u.vertexId) (outside : ∀ x ∈ tree, x.vertexId ≠ u.vertexId)
    (more : Nat) :
    ∃ e, nexthop node .debug (more + 2) root v u (linkOf rec) = some e ∧
      Computes node db root far v c u.vertexId e := by
  have memV := h.members v (mem_append_left _ h.current)
  have type : v.vertexType = .network := vertexType_network.mpr network
  obtain ⟨formed, final⟩ := all v h.current other
  obtain ⟨rfl, edge, least, l, memL, transit, idL⟩ :=
    network_record setting h network memU leads outside
  -- a single first hop, so a single exit
  obtain ⟨exit₀, there⟩ := exists_mem_of_ne_nil _ formed.some_
  obtain ⟨hop₀, route, rfl⟩ := (final exit₀).mp there
  have one (hop : Hop) : Route node db root far v.vertexId v.distanceFromRoot hop ↔ hop = hop₀ := by
    refine ⟨fun route' => ?_, fun same => same ▸ route⟩
    exact single v.lsa memV network _ (h.frontier.isLeast ⟨v, h.current, rfl, rfl⟩) ⟨_,
      edge, least⟩ _ _
      route' route
  have exits : v.exits.ecmpRootExits = [hop₀.exit] := by
    refine exits_eq_single formed.some_ formed.nodup fun exit mem => ?_
    obtain ⟨hop, route', rfl⟩ := (final exit).mp mem
    rw [(one hop).mp route']
  have direction : v.exits.getRootExitDirection .debug = some hop₀.exit := by
    simp [RootExits.getRootExitDirection, exits]
  have only (hop : Hop) :=
    @lastStep_network node db far root hop setting v.lsa v.distanceFromRoot hop₀
    memV network one u.lsa memU l memL transit idL edge
  simp only [nexthop, if_neg other, type, throughNetwork]
  obtain ⟨q, parents, parentsEq⟩ := exists_cons_of_ne_nil formed.parents
  have tight := formed.tight q (parentsEq ▸ mem_cons_self)
  obtain ⟨d, c, inside, edge', sum⟩ := tight
  obtain ⟨r, memR, idR, routerR, l', memL', transit', idL', rfl⟩ :=
    edge_to_network setting.symmetric memV network edge'
  by_cases parentRoot : q = root.linkStateId
  · -- the network is one of the root
    obtain rfl := h.at_root (parentRoot ▸ inside)
    obtain rfl := eq_of_id setting.symmetric memR setting.memberRoot (idR.trans parentRoot)
    obtain ⟨i, at_⟩ := setting.describes.here l' memL' (.inr transit')
    have direct : Route node db r far l'.linkId l'.metric (.onNetwork i) :=
      .network memL' transit' at_
    rw [Nat.zero_add] at sum
    rw [idL', sum] at direct
    obtain rfl := (one _).mp direct
    have kinds (l'' : GlobalRoutingLinkRecord) (mem : l'' ∈ u.lsa.linkRecords)
        (id : l''.linkId = v.vertexId) : IsLink l'' := by
      obtain ⟨kind, -⟩ | ⟨kind, -⟩ := record_kind setting.symmetric setting.links memU memV mem id
      · exact .inl kind
      · exact .inr kind
    obtain ⟨l'', found⟩ : ∃ l'', spfGetNextLink u.lsa v.vertexId none = some l'' := by
      rw [spfGetNextLink_none]
      exact isSome_iff_exists.mp (find?_isSome.mpr ⟨l, memL, decide_eq_true idL⟩)
    obtain ⟨mem'', id''⟩ := spfGetNextLink_mem found
    obtain rfl := setting.plain.unique memU mem'' memL (kinds l'' mem'' id'') (.inr transit)
      (id''.trans idL.symm)
    have pairs : u.lsa.linkRecords.Pairwise fun a b => a.linkId = v.vertexId →
        b.linkId ≠ v.vertexId := by
      refine (setting.plain.single u.lsa memU).imp_of_mem fun {a b} memA memB apart idA idB => ?_
      exact apart (kinds a memA idA) (kinds b memB idB) (idA.trans idB.symm)
    have loop := @hopLoop_only u.lsa v.vertexId i l'' found pairs more u.exits
    refine ⟨((u.exits.setRootExitDirection l''.linkData i).setParent v.vertexId), ?_,
      .single rfl rfl only⟩
    simp [parentsEq, head?_cons, parentRoot, found, direction, Hop.exit, loop]
  · -- the exit is copied; the parent is a router with a next hop
    have notRoot : (v.exits.parents.head? = some root.linkStateId) = False := by
      rw [parentsEq, head?_cons, some.injEq]
      exact eq_false parentRoot
    refine ⟨(u.exits.setRootExitDirection hop₀.exit.1 hop₀.exit.2).setParent v.vertexId, ?_, ?_⟩
    · simp only [notRoot, if_false, direction, some_bind, pure_some]
      rfl
    · obtain ⟨x, memX, idX, rfl⟩ := inside
      obtain ⟨formedX, finalX⟩ := all x memX (idX ▸ parentRoot)
      obtain ⟨exit, there⟩ := exists_mem_of_ne_nil _ formedX.some_
      obtain ⟨hop, routeX, -⟩ := (finalX exit).mp there
      have idX' : r.linkStateId = x.vertexId := idR.trans idX.symm
      obtain ⟨nextHop, i, rfl⟩ : ∃ nextHop i, hop = .via nextHop i :=
        Route.via_of_router setting memR routerR (idX' ▸ routeX)
      have longer := Route.further routeX (idX.symm ▸ edge')
      rw [sum] at longer
      obtain rfl := (one _).mp longer
      exact .single rfl rfl only

/-- From any vertex of the tree. -/
theorem computes (setting : Setting node db root far) (single : SingleHop node db root far)
    (h : Searching db root v (rec :: todo) tree s)
    (all : ∀ x ∈ tree, x.vertexId ≠ root.linkStateId → Formed db tree x ∧ Final node db root far x)
    {c : Nat} (memU : u.lsa ∈ db) (leads : Leads db rec c u.vertexId)
    (outside : ∀ x ∈ tree, x.vertexId ≠ u.vertexId) (more : Nat) :
    ∃ e, nexthop node .debug (more + 2) root v u (linkOf rec) = some e ∧
      Computes node db root far v c u.vertexId e := by
  have memV := h.members v (mem_append_left _ h.current)
  by_cases atRoot : v.vertexId = root.linkStateId
  · exact computes_at_root setting h atRoot memU leads
  · obtain ⟨formed, final⟩ := all v h.current atRoot
    obtain router | network := setting.symmetric.kinds v.lsa memV
    · have edge := (edge_iff setting.symmetric memV).mpr ⟨rec, h.rest rec mem_cons_self, leads⟩
      exact computes_at_router setting h atRoot final formed router edge
    · exact computes_at_network setting single h atRoot all network memU leads outside more

/-! ## The invariant -/

/-- An edge of the tree that has been relaxed: all edges, but of the current vertex only those
of the records `done`. -/
def Relaxed (db : GlobalRouteManagerLSDB) (v : SPFVertex RootExits) (done : List SPFRecord)
    (p : SPFVertex RootExits) (c id : Nat) : Prop :=
  p.vertexId = v.vertexId ∧ (∃ rec ∈ done, Leads db rec c id) ∨
    p.vertexId ≠ v.vertexId ∧ Edge db p.vertexId c id

/-- The exits of the tree are final, and those of a candidate are the first hops of the paths
along relaxed edges. -/
structure Exact (node : RootNode) (db : GlobalRouteManagerLSDB) (root : GlobalRoutingLSA)
    (far : Nat → Nat) (v : SPFVertex RootExits) (done todo : List SPFRecord)
    (tree : List (SPFVertex RootExits)) (s : SPFState RootExits) : Prop where
  split_ : v.lsa.records = done ++ todo
  final : ∀ u ∈ tree, u.vertexId ≠ root.linkStateId → Formed db tree u ∧ Final node db root far u
  formed : ∀ u ∈ s.candidate, Formed db tree u
  waiting : ∀ u ∈ s.candidate, ∀ exit, exit ∈ u.exits.ecmpRootExits ↔
    ∃ p ∈ tree, ∃ c hop, Relaxed db v done p c u.vertexId ∧
      p.distanceFromRoot + c = u.distanceFromRoot ∧
      LastStep node db root far p.vertexId p.distanceFromRoot c u.vertexId hop ∧ hop.exit = exit
  seen : ∀ p ∈ tree, ∀ c id, Relaxed db v done p c id → (∃ u ∈ tree, u.vertexId = id) ∨
    ∃ u ∈ s.candidate, u.vertexId = id ∧ u.distanceFromRoot ≤ p.distanceFromRoot + c
  closed : Closed db root tree

theorem relaxed_append {p : SPFVertex RootExits} {c id : Nat} :
    Relaxed db v (done ++ [rec]) p c id ↔
      Relaxed db v done p c id ∨ p.vertexId = v.vertexId ∧ Leads db rec c id := by
  constructor
  · rintro (⟨same, rec', mem, leads⟩ | other)
    · obtain mem | mem := mem_append.mp mem
      · exact .inl (.inl ⟨same, rec', mem, leads⟩)
      · exact .inr ⟨same, mem_singleton.mp mem ▸ leads⟩
    · exact .inl (.inr other)
  · rintro ((⟨same, rec', mem, leads⟩ | other) | ⟨same, leads⟩)
    · exact .inl ⟨same, rec', mem_append_left _ mem, leads⟩
    · exact .inr other
    · exact .inl ⟨same, rec, mem_append_right _ mem_cons_self, leads⟩

section

variable (h : Searching db root v todo tree s)
include h

theorem Searching.tree_inj {a b : SPFVertex RootExits}
    (memA : a ∈ tree) (memB : b ∈ tree) (same : a.vertexId = b.vertexId) : a = b := by
  have nodup := h.ids
  rw [map_append] at nodup
  exact inj_on_of_nodup_map (nodup_append.mp nodup).1 memA memB same

theorem Searching.candidate_inj {a b : SPFVertex RootExits}
    (memA : a ∈ s.candidate) (memB : b ∈ s.candidate) (same : a.vertexId = b.vertexId) : a = b := by
  have nodup := h.ids
  rw [map_append] at nodup
  exact inj_on_of_nodup_map (nodup_append.mp nodup).2.1 memA memB same

theorem Searching.apart {a b : SPFVertex RootExits}
    (memA : a ∈ tree) (memB : b ∈ s.candidate) : a.vertexId ≠ b.vertexId := by
  have nodup := h.ids
  rw [map_append] at nodup
  exact (nodup_append.mp nodup).2.2 _ (List.mem_map_of_mem memA) _ (List.mem_map_of_mem memB)

end

theorem Formed.mono {tree' : List (SPFVertex RootExits)} (h : Formed db tree u)
    (grows : ∀ x ∈ tree, x ∈ tree') : Formed db tree' u := by
  refine ⟨h.parents, fun p mem => ?_, h.some_, h.nodup⟩
  obtain ⟨d, c, ⟨x, there, facts⟩, edge, sum⟩ := h.tight p mem
  exact ⟨d, c, ⟨x, grows x there, facts⟩, edge, sum⟩

/-- A record that is passed over. -/
theorem Exact.skip (x : Exact node db root far v done (rec :: todo) tree s)
    (h : Searching db root v (rec :: todo) tree s)
    (known : ∀ c id, Leads db rec c id → (∃ u ∈ tree, u.vertexId = id) ∨
      ∃ u ∈ s.candidate, u.vertexId = id ∧ u.distanceFromRoot < v.distanceFromRoot + c) :
    Exact node db root far v (done ++ [rec]) todo tree s := by
  refine ⟨by rw [x.split_, append_assoc, singleton_append], x.final, x.formed,
    fun u mem exit => ?_, fun p mem c id relaxed => ?_, x.closed⟩
  · rw [x.waiting u mem exit]
    refine exists_congr fun p => and_congr_right fun memP => exists_congr fun c =>
      exists_congr fun hop => ?_
    rw [relaxed_append, or_and_right]
    refine (or_iff_left ?_).symm
    rintro ⟨⟨same, leads⟩, sum, -⟩
    obtain rfl := h.tree_inj memP h.current same
    obtain ⟨u', inside, id⟩ | ⟨u', waits, id, nearer⟩ := known c u.vertexId leads
    · exact h.apart inside mem id
    · obtain rfl := h.candidate_inj waits mem id
      omega
  · obtain relaxed | ⟨same, leads⟩ := relaxed_append.mp relaxed
    · exact x.seen p mem c id relaxed
    · obtain rfl := h.tree_inj mem h.current same
      exact (known c id leads).imp_right fun ⟨u, waits, id, nearer⟩ => ⟨u, waits, id, nearer.le⟩

/-- The exits of the vertex that a record leads to. -/
structure Settles (node : RootNode) (db : GlobalRouteManagerLSDB) (root : GlobalRoutingLSA)
    (far : Nat → Nat) (v : SPFVertex RootExits) (done : List SPFRecord) (rec : SPFRecord)
    (tree : List (SPFVertex RootExits)) (w : SPFVertex RootExits) : Prop where
  formed : Formed db tree w
  exits : ∀ exit, exit ∈ w.exits.ecmpRootExits ↔
    ∃ p ∈ tree, ∃ c hop, Relaxed db v (done ++ [rec]) p c w.vertexId ∧
      p.distanceFromRoot + c = w.distanceFromRoot ∧
      LastStep node db root far p.vertexId p.distanceFromRoot c w.vertexId hop ∧ hop.exit = exit

variable {X : ExitRules RootExits}

/-- A first path, or a shorter one: its first hops are all. -/
theorem Computes.settles {c : Nat} {others : List (SPFVertex RootExits)}
    (computes : Computes node db root far v c w.vertexId w.exits)
    (h : Searching db root v (rec :: todo) tree s)
    (improves : Improves X db root v rec s t w c others)
    (new : ∀ p ∈ tree, ∀ c', Relaxed db v done p c' w.vertexId →
      p.distanceFromRoot + c' ≠ w.distanceFromRoot) :
        Settles node db root far v done rec tree w where
  formed := by
    refine ⟨?_, fun p mem => ?_, computes.some_, computes.nodup⟩
    · rw [computes.parents]
      exact cons_ne_nil _ _
    · rw [computes.parents, mem_singleton] at mem
      subst mem
      exact ⟨_, c, ⟨v, h.current, rfl, rfl⟩, improves.edge, improves.distance.symm⟩
  exits exit := by
    rw [computes.exits]
    constructor
    · rintro ⟨hop, last, rfl⟩
      have leads := (improves.leads c w.vertexId).mpr ⟨rfl, rfl⟩
      exact ⟨v, h.current, c, hop, relaxed_append.mpr (.inr ⟨rfl, leads⟩),
        improves.distance.symm, last,
        rfl⟩
    · rintro ⟨p, memP, c', hop, relaxed, sum, last, rfl⟩
      obtain relaxed | ⟨same, leads⟩ := relaxed_append.mp relaxed
      · exact absurd sum (new p memP c' relaxed)
      · obtain rfl := h.tree_inj memP h.current same
        obtain ⟨rfl, -⟩ := (improves.leads c' w.vertexId).mp leads
        exact ⟨hop, last, rfl⟩

/-- Another path of the same length: its first hops are added. -/
theorem Computes.settles_merged {c : Nat} {others : List (SPFVertex RootExits)}
    {cw : SPFVertex RootExits} {e : RootExits}
    (computes : Computes node db root far v c w.vertexId e)
    (x : Exact node db root far v done (rec :: todo) tree s)
    (h : Searching db root v (rec :: todo) tree s)
    (improves : Improves X db root v rec s t w c others) (memC : cw ∈ s.candidate)
    (lsa : cw.lsa = w.lsa) (distance : cw.distanceFromRoot = w.distanceFromRoot)
    (merged : w.exits = RootExits.merge node.pointer cw.exits e) :
    Settles node db root far v done rec tree w where
  formed := by
    have formed := x.formed cw memC
    have id : cw.vertexId = w.vertexId := congrArg GlobalRoutingLSA.linkStateId lsa
    refine ⟨fun none_ => ?_, fun p mem => ?_, fun none_ => ?_, merged ▸ merge_nodup node cw.exits e⟩
    · obtain ⟨p, mem⟩ := exists_mem_of_ne_nil _ formed.parents
      have there : p ∈ w.exits.parents := merged ▸ mem_merge_parents.mpr (.inl mem)
      exact absurd (none_ ▸ there) not_mem_nil
    · rw [merged, mem_merge_parents, computes.parents, mem_singleton] at mem
      obtain mem | rfl := mem
      · obtain ⟨d, c', facts⟩ := formed.tight p mem
        rw [id, distance] at facts
        exact ⟨d, c', facts⟩
      · exact ⟨_, c, ⟨v, h.current, rfl, rfl⟩, improves.edge, improves.distance.symm⟩
    · obtain ⟨exit, mem⟩ := exists_mem_of_ne_nil _ formed.some_
      have there : exit ∈ w.exits.ecmpRootExits := merged ▸ mem_merge.mpr (.inl mem)
      exact absurd (none_ ▸ there) not_mem_nil
  exits exit := by
    have id : cw.vertexId = w.vertexId := congrArg GlobalRoutingLSA.linkStateId lsa
    have old := x.waiting cw memC exit
    rw [id, distance] at old
    rw [merged, mem_merge, old, computes.exits]
    constructor
    · rintro (⟨p, memP, c', hop, relaxed, facts⟩ | ⟨hop, last, rfl⟩)
      · exact ⟨p, memP, c', hop, relaxed_append.mpr (.inl relaxed), facts⟩
      · have leads := (improves.leads c w.vertexId).mpr ⟨rfl, rfl⟩
        exact ⟨v, h.current, c, hop, relaxed_append.mpr (.inr ⟨rfl, leads⟩), improves.distance.symm,
          last, rfl⟩
    · rintro ⟨p, memP, c', hop, relaxed, sum, last, rfl⟩
      obtain relaxed | ⟨same, leads⟩ := relaxed_append.mp relaxed
      · exact .inl ⟨p, memP, c', hop, relaxed, sum, last, rfl⟩
      · obtain rfl := h.tree_inj memP h.current same
        obtain ⟨rfl, -⟩ := (improves.leads c' w.vertexId).mp leads
        exact .inr ⟨hop, last, rfl⟩

/-- A record that leads to a candidate. -/
theorem Exact.improve (setting : Setting node db root far) (single : SingleHop node db root far)
    {more c : Nat} {others : List (SPFVertex RootExits)}
    (x : Exact node db root far v done (rec :: todo) tree s)
    (h : Searching db root v (rec :: todo) tree s)
    (improves : Improves (exitRules node .debug (more + 2)) db root v rec s t w c others) :
    Exact node db root far v (done ++ [rec]) todo tree t := by
  have next := h.improve improves
  have memW : w ∈ t.candidate := improves.after.mem_iff.mpr mem_cons_self
  have outside (p : SPFVertex RootExits) (mem : p ∈ tree) : p.vertexId ≠ w.vertexId :=
    improves.outside h mem
  have leads := (improves.leads c w.vertexId).mpr ⟨rfl, rfl⟩
  have computed {u : SPFVertex RootExits} {e : RootExits} (lsa : u.lsa = w.lsa)
      (returns : nexthop node .debug (more + 2) root v u (linkOf rec) = some e) :
      Computes node db root far v c w.vertexId e := by
    have id : u.vertexId = w.vertexId := congrArg GlobalRoutingLSA.linkStateId lsa
    obtain ⟨e', returns', spec⟩ := computes setting single h x.final (lsa ▸ improves.member)
      (id ▸ leads)
      (fun p mem => id ▸ outside p mem) more
    obtain rfl := some.inj (returns.symm.trans returns')
    exact id ▸ spec
  have settles : Settles node db root far v done rec tree w := by
    cases improves.change with
    | new same unexplored returns =>
      refine (computed (u := { lsa := w.lsa, exits := {} }) rfl returns).settles h improves
        fun p memP c' relaxed _ => ?_
      obtain ⟨u, inside, id⟩ | ⟨u, waits, id, -⟩ := x.seen p memP c' _ relaxed
      · exact outside u inside id
      · have candidate := (h.waiting _).mpr ⟨u, waits, id⟩
        exact absurd (unexplored.symm.trans candidate) nofun
    | @merged cw e same lsa distance returns merged =>
      exact (computed (u := { lsa := w.lsa, exits := {} }) rfl returns).settles_merged x h
        improves
        (same.mem_iff.mpr mem_cons_self) lsa distance merged
    | @nearer cw same lsa less returns =>
      refine (computed lsa returns).settles h improves fun p memP c' relaxed sum => ?_
      obtain ⟨u, inside, id⟩ | ⟨u, waits, id, short⟩ := x.seen p memP c' _ relaxed
      · exact outside u inside id
      · have idC : cw.vertexId = w.vertexId := congrArg GlobalRoutingLSA.linkStateId lsa
        obtain rfl := h.candidate_inj waits (same.mem_iff.mpr mem_cons_self)
          (id.trans idC.symm)
        omega
  refine ⟨by rw [x.split_, append_assoc, singleton_append], x.final, fun u mem => ?_,
    fun u mem exit => ?_, fun p mem c' id relaxed => ?_, x.closed⟩
  · obtain rfl | there := mem_cons.mp (improves.after.mem_iff.mp mem)
    · exact settles.formed
    · exact x.formed u (improves.change.others_subset there)
  · obtain rfl | there := mem_cons.mp (improves.after.mem_iff.mp mem)
    · exact settles.exits exit
    · have other : u.vertexId ≠ w.vertexId := by
        intro same
        have nodup := next.ids
        rw [map_append] at nodup
        have cands := (improves.after.map (·.vertexId)).nodup_iff.mp
          (nodup_append.mp nodup).2.1
        rw [map_cons] at cands
        exact (nodup_cons.mp cands).1 (same ▸ List.mem_map_of_mem there)
      rw [x.waiting u (improves.change.others_subset there)]
      refine exists_congr fun p => and_congr_right fun memP => exists_congr fun c' =>
        exists_congr fun hop => ?_
      rw [relaxed_append, or_and_right]
      refine (or_iff_left ?_).symm
      rintro ⟨⟨-, leads'⟩, -⟩
      exact other ((improves.leads c' u.vertexId).mp leads').2
  · obtain relaxed | ⟨same, leads'⟩ := relaxed_append.mp relaxed
    · refine (x.seen p mem c' id relaxed).imp_right fun ⟨u, waits, idU, short⟩ => ?_
      obtain ⟨u', waits', idU', short'⟩ := improves.keeps waits
      exact ⟨u', waits', idU'.trans idU, short'.trans short⟩
    · obtain rfl := h.tree_inj mem h.current same
      obtain ⟨rfl, rfl⟩ := (improves.leads c' id).mp leads'
      exact .inr ⟨w, memW, rfl, improves.distance.le⟩

/-! ## The whole search -/

/-- One round of the loop of `SPFNext`. -/
theorem Exact.examine (setting : Setting node db root far) (single : SingleHop node db root far)
    (more : Nat) (x : Exact node db root far v done (rec :: todo) tree s)
    (h : Searching db root v (rec :: todo) tree s) :
    ∃ t, examine (exitRules node .debug (more + 2)) db root v s rec = some t ∧
      Searching db root v todo tree t ∧ Exact node db root far v (done ++ [rec]) todo tree t := by
  obtain ⟨t, returns⟩ :
    ∃ t, GlobalRouteManagerImpl.examine (exitRules node .debug (more + 2)) db root
      v s rec = some t := by
    refine h.examine_returns setting.symmetric fun u memU leads outside => ?_
    obtain ⟨c, leads⟩ := leads
    have apart (p : SPFVertex RootExits) (mem : p ∈ tree) : p.vertexId ≠ u.vertexId :=
      fun same => outside ((h.inTree _).mpr ⟨p, mem, same⟩)
    obtain ⟨e, returns, -⟩ := computes setting single h x.final memU leads apart more
    exact ⟨e, returns⟩
  refine ⟨t, returns, h.examine setting.symmetric returns, ?_⟩
  obtain ⟨rfl, known⟩ | ⟨w, c, others, improves⟩ := h.examine_step setting.symmetric returns
  · exact x.skip h known
  · exact x.improve setting single h improves

theorem Exact.examineAll (setting : Setting node db root far) (single : SingleHop node db root far)
    (more : Nat) (x : Exact node db root far v done todo tree s)
    (h : Searching db root v todo tree s) :
    ∃ t, todo.foldlM
      (GlobalRouteManagerImpl.examine (exitRules node .debug (more + 2)) db root v) s =
        some t ∧
      Searching db root v [] tree t ∧ Exact node db root far v v.lsa.records [] tree t := by
  induction todo generalizing done s with
  | nil =>
    have all := x.split_
    rw [append_nil] at all
    exact ⟨s, rfl, h, all ▸ x⟩
  | cons rec todo ih =>
    obtain ⟨m, first, h', x'⟩ := x.examine setting single more h
    obtain ⟨t, later, facts⟩ := ih x' h'
    refine ⟨t, ?_, facts⟩
    rw [foldlM_cons, first]
    exact later

theorem relaxed_all (symmetric : Symmetric db) (memV : v.lsa ∈ db) {p : SPFVertex RootExits}
    {c id : Nat} :
    Relaxed db v v.lsa.records p c id ↔ Edge db p.vertexId c id := by
  rw [Relaxed, ← edge_iff symmetric memV]
  constructor
  · rintro (⟨same, edge⟩ | ⟨-, edge⟩)
    · rw [same]
      exact edge
    · exact edge
  · intro edge
    by_cases same : p.vertexId = v.vertexId
    · rw [same] at edge
      exact .inl ⟨same, edge⟩
    · exact .inr ⟨same, edge⟩

/-- The exits of a vertex that is popped are final. -/
theorem Exact.pop (setting : Setting node db root far)
    (x : Exact node db root far v v.lsa.records [] tree s) (h : Searching db root v [] tree s)
    (candidates : s.candidate = w :: rest) :
    Exact node db root far w [] w.lsa.records (tree ++ [w]) (s.popped w rest) := by
  have memV := h.members v (mem_append_left _ h.current)
  have memW : w ∈ s.candidate := candidates ▸ mem_cons_self
  have keeps (u : SPFVertex RootExits) (mem : u ∈ rest) : u ∈ s.candidate :=
    candidates ▸ mem_cons_of_mem w mem
  have grows (u : SPFVertex RootExits) (mem : u ∈ tree) : u ∈ tree ++ [w] := mem_append_left _ mem
  have finalW : Final node db root far w := by
    intro exit
    rw [x.waiting w memW]
    constructor
    · rintro ⟨p, memP, c, hop, -, sum, last, same⟩
      exact ⟨hop, route_iff.mpr ⟨_, _, c, sum.symm, last⟩, same⟩
    · rintro ⟨hop, route, same⟩
      obtain ⟨p, pd, c, sum, last⟩ := route_iff.mp route
      have edge := last.edge setting.memberRoot setting.router
      obtain ⟨u, inside, rfl, rfl⟩ :=
        h.predecessor setting.symmetric setting.plain setting.memberRoot
        setting.router candidates (last.walk setting.memberRoot setting.router) edge sum.symm
      exact ⟨u, inside, c, hop, (relaxed_all setting.symmetric memV).mpr edge, sum.symm, last, same⟩
  refine ⟨rfl, fun u mem other => ?_, fun u mem => (x.formed u (keeps u mem)).mono grows,
    fun u mem exit => ?_, fun p mem c id relaxed => ?_,
    x.closed.pop h setting.symmetric setting.plain setting.memberRoot setting.router candidates⟩
  · obtain mem | mem := mem_append.mp mem
    · exact ⟨(x.final u mem other).1.mono grows, (x.final u mem other).2⟩
    · obtain rfl := mem_singleton.mp mem
      exact ⟨(x.formed u memW).mono grows, finalW⟩
  · rw [x.waiting u (keeps u mem)]
    constructor
    · rintro ⟨p, memP, c, hop, relaxed, facts⟩
      exact ⟨p, grows p memP, c, hop,
        .inr ⟨h.apart memP memW, (relaxed_all setting.symmetric memV).mp relaxed⟩, facts⟩
    · rintro ⟨p, memP, c, hop, relaxed, facts⟩
      obtain ⟨-, rec, none_, -⟩ | ⟨other, edge⟩ := relaxed
      · cases none_
      · obtain memP | memP := mem_append.mp memP
        · exact ⟨p, memP, c, hop, (relaxed_all setting.symmetric memV).mpr edge, facts⟩
        · exact absurd (mem_singleton.mp memP ▸ rfl) other
  · obtain ⟨-, rec, none_, -⟩ | ⟨other, edge⟩ := relaxed
    · cases none_
    · obtain mem | mem := mem_append.mp mem
      · obtain ⟨u, inside, idU⟩ | ⟨u, waits, idU, short⟩ :=
          x.seen p mem c id ((relaxed_all setting.symmetric memV).mpr edge)
        · exact .inl ⟨u, grows u inside, idU⟩
        · rw [candidates] at waits
          obtain rfl | waits := mem_cons.mp waits
          · exact .inl ⟨u, mem_append_right _ mem_cons_self, idU⟩
          · exact .inr ⟨u, waits, idU, short⟩
      · exact absurd (mem_singleton.mp mem ▸ rfl) other

theorem exact_start {more : Nat} :
    Exact node db root far (rootVertex (exitRules node .debug (more + 2)) root) [] root.records
      [rootVertex (exitRules node .debug (more + 2)) root] (initialState root) := by
  refine ⟨rfl, fun u mem other => ?_, nofun, nofun, fun p mem c id relaxed => ?_, closed_start⟩
  · rw [mem_singleton.mp mem] at other
    exact absurd rfl other
  · obtain ⟨-, rec, none_, -⟩ | ⟨other, -⟩ := relaxed
    · cases none_
    · rw [mem_singleton.mp mem] at other
      exact absurd rfl other

/-- The main loop ends, and all exits are final. -/
theorem Exact.loop (setting : Setting node db root far) (single : SingleHop node db root far)
    {more : Nat} (x : Exact node db root far v [] v.lsa.records tree s)
    (h : Searching db root v v.lsa.records tree s) (enough : db.length < rounds + tree.length) :
    ∃ popped, spfLoop (exitRules node .debug (more + 2)) db root rounds v s = some popped ∧
      ∀ u ∈ popped, Final node db root far u := by
  induction rounds generalizing v s tree with
  | zero =>
    have short := h.length_le
    omega
  | succ rounds ih =>
    obtain ⟨t, next, done, exact_⟩ := x.examineAll setting single more h
    rw [spfLoop, spfNext, next]
    simp only [some_bind]
    cases candidates : t.candidate with
    | nil => exact ⟨[], rfl, forall_mem_nil _⟩
    | cons w rest =>
      have longer : db.length < rounds + (tree ++ [w]).length := by
        rw [length_append, length_singleton]
        omega
      have popped := exact_.pop setting done candidates
      obtain ⟨later, run, final⟩ := ih popped (done.pop setting.symmetric candidates) longer
      refine ⟨w :: later, by simp [run],
        fun u mem => ?_⟩
      obtain rfl | mem := mem_cons.mp mem
      · obtain ⟨r, memR, idR, -⟩ := done.frontier.origin
        have other := done.apart memR (candidates ▸ mem_cons_self)
        exact (popped.final u (mem_append_right _ mem_cons_self) (idR ▸ other.symm)).2
      · exact final u mem

/-! ## A network with two first hops -/

theorem spfNext_of_spfLoop {popped : List (SPFVertex RootExits)}
    (run : spfLoop X db root rounds v s = some popped) : ∃ t, spfNext X db root v s = some t := by
  cases rounds with
  | zero => cases run
  | succ rounds =>
    obtain ⟨t, next, -⟩ := bind_returns.mp run
    exact ⟨t, next⟩

/-- Each vertex that is popped has its records examined, after those of the tree before it. -/
theorem Searching.turn (setting : Setting node db root far)
    {popped : List (SPFVertex RootExits)} (h : Searching db root v v.lsa.records tree s)
    (closed : Closed db root tree) (run : spfLoop X db root rounds v s = some popped) :
    ∀ u ∈ popped, ∃ front s' t, Searching db root u u.lsa.records (front ++ [u]) s' ∧
      Closed db root front ∧ spfNext X db root u s' = some t := by
  induction rounds generalizing v s tree popped with
  | zero => cases run
  | succ rounds ih =>
    obtain ⟨t, next, returns⟩ := bind_returns.mp run
    have done := h.examineAll setting.symmetric next
    cases candidates : t.candidate with
    | nil =>
      rw [candidates] at returns
      cases returns
      exact nofun
    | cons w rest =>
      rw [candidates] at returns
      obtain ⟨later, further, returns⟩ := bind_returns.mp returns
      cases returns
      have popped := done.pop setting.symmetric candidates
      have closed' := closed.pop done setting.symmetric setting.plain setting.memberRoot
        setting.router candidates
      intro u mem
      obtain rfl | mem := mem_cons.mp mem
      · obtain ⟨t', next'⟩ := spfNext_of_spfLoop further
        exact ⟨tree, _, t', popped, closed, next'⟩
      · exact ih popped closed' further u mem

/-- The moment at which a record is examined. -/
theorem Searching.examine_at (h : Searching db root v todo tree s)
    (symmetric : Symmetric db)
    (returns : todo.foldlM (GlobalRouteManagerImpl.examine X db root v) s = some t)
    (mem : rec ∈ todo) :
    ∃ todo' m m', Searching db root v (rec :: todo') tree m ∧
      GlobalRouteManagerImpl.examine X db root v m rec = some m' := by
  induction todo generalizing s with
  | nil => cases mem
  | cons first todo ih =>
    obtain ⟨m, returns', later⟩ := bind_returns.mp returns
    obtain rfl | mem := mem_cons.mp mem
    · exact ⟨todo, s, m, h, returns'⟩
    · exact ih (h.examine symmetric returns') later mem

/-- Through a network that the router has a link to, the exit of the network is read. -/
theorem throughNetwork_reads {profile : BuildProfile} {l : GlobalRoutingLinkRecord}
    {result : RootExits × Bool} (found : spfGetNextLink w.lsa v.vertexId none = some l)
    (returns : throughNetwork profile rounds root v w = some result) :
    ∃ exit, v.exits.getRootExitDirection profile = some exit := by
  rw [throughNetwork] at returns
  split at returns
  · simp only [found, bind_returns] at returns
    obtain ⟨exit, direction, -⟩ := returns
    exact ⟨exit, direction⟩
  · simp only [bind_returns] at returns
    obtain ⟨exit, direction, -⟩ := returns
    exact ⟨exit, direction⟩

/-- An exit that is read in a debug build is the only one. -/
theorem RootExits.only_exit {e : RootExits} {exit a b : NodeExit}
    (reads : e.getRootExitDirection .debug = some exit) (memA : a ∈ e.ecmpRootExits)
    (memB : b ∈ e.ecmpRootExits) : a = b := by
  have short : e.ecmpRootExits.length ≤ 1 := by
    by_contra long
    simp [RootExits.getRootExitDirection, nsAssert, long] at reads
  generalize e.ecmpRootExits = exits at short memA memB
  cases exits with
  | nil => cases memA
  | cons only rest =>
    obtain rfl := eq_nil_of_length_eq_zero (Nat.le_zero.mp (Nat.le_of_succ_le_succ short))
    exact (mem_singleton.mp memA).trans (mem_singleton.mp memB).symm

theorem Change.returns {others : List (SPFVertex RootExits)}
    (change : Change X root v rec s w others) :
    ∃ u e, u.lsa = w.lsa ∧ X.nexthop root v u (linkOf rec) = some e := by
  cases change with
  | new _ _ returns => exact ⟨{ lsa := w.lsa, exits := X.fresh }, _, rfl, returns⟩
  | merged _ _ _ returns => exact ⟨{ lsa := w.lsa, exits := X.fresh }, _, rfl, returns⟩
  | nearer _ lsa _ returns => exact ⟨_, _, lsa, returns⟩

/-- At its turn the exit of a network on a shortest path is read. -/
theorem Searching.reads_exit (setting : Setting node db root far) {n r : Nat}
    {front : List (SPFVertex RootExits)}
    (h : Searching db root v v.lsa.records (front ++ [v]) s) (closed : Closed db root front)
    (next : spfNext (exitRules node .debug rounds) db root v s = some t)
    (network : v.lsa.lsType = .networkLSA) (id : v.vertexId = n) (edge : Edge db n 0 r)
    (least : IsLeast {e | Walk (Edge db) root.linkStateId r e} v.distanceFromRoot)
    (positive : 1 ≤ v.distanceFromRoot) :
    ∃ exit, v.exits.getRootExitDirection .debug = some exit := by
  subst id
  have memV := h.members v (mem_append_left _ h.current)
  have walkV := h.frontier.treeWalk _ _ ⟨v, h.current, rfl, rfl⟩
  have notRoot : v.vertexId ≠ root.linkStateId := by
    intro same
    have vRoot : v.lsa = root := eq_of_id setting.symmetric memV setting.memberRoot same
    exact absurd ((vRoot ▸ network).symm.trans setting.router) nofun
  obtain ⟨rec, here, leads⟩ := (edge_iff setting.symmetric memV).mp edge
  obtain ⟨todo', m, m', there, returns⟩ := h.examine_at setting.symmetric next here
  obtain ⟨-, known⟩ | ⟨w, c, others, improves⟩ := there.examine_step setting.symmetric returns
  · -- the router would have come before the network
    obtain ⟨u, inside, idU⟩ | ⟨u, waits, idU, nearer⟩ := known 0 r leads
    · have distance : u.distanceFromRoot = v.distanceFromRoot := by
        refine (there.frontier.isLeast ⟨u, inside, rfl, rfl⟩).unique ?_
        rw [idU]
        exact least
      obtain inside | inside := mem_append.mp inside
      · have other : u.vertexId ≠ root.linkStateId := by
          intro same
          have zero := least.2 (show Walk (Edge db) root.linkStateId r 0 by
            rw [← idU, same]
            exact .nil)
          omega
        obtain ⟨v', before, id', -⟩ := closed u inside other v.vertexId v.distanceFromRoot 0 walkV
          (idU ▸ edge) distance.symm
        have nodup := there.ids
        rw [map_append, map_append] at nodup
        have apart := (nodup_append.mp (nodup_append.mp nodup).1).2.2
        exact absurd id'
          (apart _ (List.mem_map_of_mem before) _ (List.mem_map_of_mem mem_cons_self))
      · obtain rfl := mem_singleton.mp inside
        obtain ⟨-, x, memX, idX, router⟩ := edge_free setting.symmetric setting.plain edge
        obtain rfl := eq_of_id setting.symmetric memV memX (idU.trans idX.symm)
        exact absurd (router.symm.trans network) nofun
    · have walk := there.frontier.candidateWalk _ _ ⟨u, waits, rfl, rfl⟩
      have far_ := least.2 (show Walk (Edge db) root.linkStateId r u.distanceFromRoot from
        idU ▸ walk)
      omega
  · have toW := ((improves.leads 0 r).mp leads).2
    obtain ⟨u, e, lsa, returns⟩ := improves.change.returns
    obtain ⟨-, ⟨atRoot, -⟩ | ⟨atRoot, -⟩ | ⟨-, -, e', through, -⟩ | ⟨-, other, -⟩⟩ :=
      nexthop_cases returns
    · exact absurd atRoot notRoot
    · exact absurd atRoot notRoot
    · have outside (p : SPFVertex RootExits) (mem : p ∈ front ++ [v]) : p.vertexId ≠ w.vertexId :=
        improves.outside there mem
      obtain ⟨-, -, -, l, memL, -, idL⟩ :=
        network_record (u := w) setting there network improves.member (toW ▸ leads) outside
      have found : (spfGetNextLink u.lsa v.vertexId none).isSome := by
        rw [spfGetNextLink_none, lsa]
        exact find?_isSome.mpr ⟨l, memL, decide_eq_true idL⟩
      obtain ⟨l', found⟩ := isSome_iff_exists.mp found
      exact throughNetwork_reads found through
    · exact absurd (vertexType_network.mpr network) other

/-- So it has one first hop. -/
theorem singleHop_of_final (setting : Setting node db root far) {bound : Nat}
    {popped : List (SPFVertex RootExits)}
    (run : spfLoop (exitRules node .debug rounds) db root bound
      (rootVertex (exitRules node .debug rounds) root) (initialState root) = some popped)
    (final : ∀ u ∈ popped, Final node db root far u) : SingleHop node db root far := by
  intro n memN network d least ⟨r, edge, leastR⟩ hop hop' route route'
  have start := searching_start (exitRules node .debug rounds) setting.symmetric setting.memberRoot
  obtain ⟨v, t, done, empty⟩ := start.loop setting.symmetric run
  have undone (u c id) : ¬ (u = v.vertexId ∧ ∃ rec ∈ ([] : List SPFRecord), Leads db rec c id) :=
    fun ⟨_, _, mem, _⟩ => absurd mem not_mem_nil
  obtain ⟨d', u, inside, id, rfl⟩ := (done.frontier.complete undone (fun w d ⟨_, mem, _⟩ => by
    rw [empty] at mem
    exact absurd mem not_mem_nil)).mp ⟨d, least.1⟩
  have memU := done.members u (mem_append_left _ inside)
  obtain rfl : u.lsa = n := eq_of_id setting.symmetric memU memN id
  obtain rfl : u.distanceFromRoot = d := (done.frontier.isLeast ⟨u, inside, rfl, rfl⟩).unique least
  obtain mem | mem := mem_append.mp inside
  · rw [mem_singleton.mp mem] at network
    exact absurd (network.symm.trans setting.router) nofun
  · obtain ⟨front, s', t', searching, closed, next⟩ := start.turn setting closed_start run u mem
    have positive := route.pos setting.plain setting.memberRoot
    obtain ⟨exit, reads⟩ :=
      searching.reads_exit setting closed next network rfl edge leastR positive
    refine route.exit_inj setting.plain setting.links setting.memberRoot route' ?_
    exact RootExits.only_exit reads ((final u mem _).mpr ⟨hop, route, rfl⟩)
      ((final u mem _).mpr ⟨hop', route', rfl⟩)

/-- The calculation returns, with all exits final, if and only if no network that a shortest path
passes has two first hops. -/
theorem exits_complete_iff (node : RootNode) {db : GlobalRouteManagerLSDB} {root : GlobalRoutingLSA}
    {far : Nat → Nat} (setting : Setting node db root far) {bound : Nat}
    (enough : db.length ≤ bound)
    {rounds : Nat} (two : 2 ≤ rounds) :
    (∃ popped, spfCalculate (exitRules node .debug rounds) db bound root.linkStateId = some popped ∧
      ∀ u ∈ popped, Final node db root far u) ↔ SingleHop node db root far := by
  have runs : spfCalculate (exitRules node .debug rounds) db bound root.linkStateId =
      spfLoop (exitRules node .debug rounds) db root bound
        (rootVertex (exitRules node .debug rounds) root)
        (initialState root) := by
    rw [spfCalculate, getLSA_spec setting.symmetric setting.memberRoot]
    rfl
  rw [runs]
  constructor
  · rintro ⟨popped, run, final⟩
    exact singleHop_of_final setting run final
  · intro single
    obtain ⟨more, rfl⟩ := Nat.exists_eq_add_of_le' two
    exact exact_start.loop setting single
      (searching_start (exitRules node .debug (more + 2)) setting.symmetric setting.memberRoot)
      (Nat.lt_succ_of_le enough)

theorem smallDatabase_plain : Plain smallDatabase := by
  refine ⟨?_, ?_, ?_⟩ <;> decide

theorem exits_complete_small :
    (∃ popped, spfCalculate (exitRules smallNode .debug 2) smallDatabase 4 1 = some popped ∧
      ∀ u ∈ popped, Final smallNode smallDatabase smallRoot smallFar u) ↔
      SingleHop smallNode smallDatabase smallRoot smallFar :=
  exits_complete_iff smallNode ⟨smallDatabase_symmetric, ⟨by decide, by decide, by decide⟩,
    smallDatabase_plain, smallNode_describes, rfl, List.mem_cons_self⟩ (Nat.le_refl 4)
      (Nat.le_refl 2)

/-- A root with two neighbours, and a fourth router beyond a network of both. -/
def diamondDatabase : GlobalRouteManagerLSDB :=
  [{ lsType := .routerLSA, linkStateId := 1,
     linkRecords := [⟨.pointToPoint, 2, 11, 1⟩, ⟨.pointToPoint, 3, 13, 1⟩] },
   { lsType := .routerLSA, linkStateId := 2,
     linkRecords := [⟨.pointToPoint, 1, 12, 1⟩, ⟨.transitNetwork, 20, 20, 1⟩] },
   { lsType := .routerLSA, linkStateId := 3,
     linkRecords := [⟨.pointToPoint, 1, 14, 1⟩, ⟨.transitNetwork, 20, 21, 1⟩] },
   { lsType := .routerLSA, linkStateId := 4, linkRecords := [⟨.transitNetwork, 20, 22, 1⟩] },
   { lsType := .networkLSA, linkStateId := 20, attachedRouters := [20, 21, 22] }]

def diamondRoot : GlobalRoutingLSA where
  lsType := .routerLSA
  linkStateId := 1
  linkRecords := [⟨.pointToPoint, 2, 11, 1⟩, ⟨.pointToPoint, 3, 13, 1⟩]

/-- The network has two exits: the assertion fails, and without it the fourth router gets one. -/
theorem diamond_fails : Setting parallelNode diamondDatabase diamondRoot parallelFar ∧
      spfCalculate (exitRules parallelNode .debug 2) diamondDatabase 5 1 = none ∧
      (spfCalculate (exitRules parallelNode .optimized 2) diamondDatabase 5 1).map
          (·.map fun u => (u.vertexId, u.exits.ecmpRootExits)) =
        some [(2, [(12, 0)]), (3, [(14, 1)]), (20, [(12, 0), (14, 1)]), (4, [(12, 0)])] ∧
      Route parallelNode diamondDatabase diamondRoot parallelFar 4 2 (.via 14 1) := by
  have links : Links diamondDatabase parallelFar := ⟨by decide, by decide, by decide⟩
  have symmetric : Symmetric diamondDatabase := by refine ⟨?_, ?_, ?_, ?_, ?_, ?_, ?_⟩ <;> decide
  have plain : Plain diamondDatabase := by refine ⟨?_, ?_, ?_⟩ <;> decide
  have describes : Describes parallelNode diamondDatabase diamondRoot :=
    parallelNode_describes_of (by decide) (by decide) (by decide)
  refine ⟨⟨symmetric, links, plain, describes, rfl, List.mem_cons_self⟩, by decide, by decide, ?_⟩
  have first : Route parallelNode diamondDatabase diamondRoot parallelFar 3 1 (.via 14 1) :=
    @Route.link parallelNode diamondDatabase diamondRoot parallelFar ⟨.pointToPoint, 3, 13, 1⟩ 1
      (by decide) rfl (parallelNode_at.mpr (.inr ⟨rfl, rfl⟩))
  have toNetwork : Edge diamondDatabase 3 1 20 :=
    (@edge_iff diamondDatabase symmetric diamondDatabase[2] (by decide) _ _).mpr
      ⟨.link ⟨.transitNetwork, 20, 21, 1⟩, by decide, .inr rfl, rfl, rfl⟩
  have toRouter : Edge diamondDatabase 20 0 4 :=
    (@edge_iff diamondDatabase symmetric diamondDatabase[4] (by decide) _ _).mpr
      ⟨.attached 22, by decide, rfl, diamondDatabase[3], by decide, rfl⟩
  exact (first.further toNetwork).further toRouter

end GlobalRouteManagerImpl

end Ns3
