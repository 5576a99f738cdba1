import Ns3.Internet.GlobalRouting.OneLink

/-!
# First hops

The first hops of the shortest paths, as the database describes them: the neighbour at the
other end of a link, or a router on a network of the root. Networks come before the routers
behind them, so when a vertex is popped all its predecessors on shortest paths are in the tree.
-/

namespace Ns3

open ShortestPath

/-- How the root reaches a vertex: on a network of its own, or by a next hop. -/
inductive Hop where
  | onNetwork (outIf : Int)
  | via (nextHop : Nat) (outIf : Int)
  deriving DecidableEq

/-- The pair that the code stores; the next hop to a network of the root is 0.0.0.0. -/
def Hop.exit : Hop → NodeExit
  | onNetwork outIf => (0, outIf)
  | via nextHop outIf => (nextHop, outIf)

/-- The hop to a router with this address on a network. -/
def Hop.behind (address : Nat) : Hop → Hop
  | onNetwork outIf => via address outIf
  | via nextHop outIf => via nextHop outIf

namespace GlobalRouteManagerImpl

/-- A path from the root to a vertex, with its cost and its first hop. -/
inductive Route (node : RootNode) (db : GlobalRouteManagerLSDB) (root : GlobalRoutingLSA)
    (far : Nat → Nat) : Nat → Nat → Hop → Prop
  | link {l : GlobalRoutingLinkRecord} {i : Int} : l ∈ root.linkRecords →
      l.linkType = .pointToPoint → AtInterface node i l.linkData →
      Route node db root far l.linkId l.metric (.via (far l.linkData) i)
  | network {l : GlobalRoutingLinkRecord} {i : Int} : l ∈ root.linkRecords →
      l.linkType = .transitNetwork → AtInterface node i l.linkData →
      Route node db root far l.linkId l.metric (.onNetwork i)
  | attached {n d : Nat} {i : Int} {r : GlobalRoutingLSA} {l : GlobalRoutingLinkRecord} :
      Route node db root far n d (.onNetwork i) → Edge db n 0 r.linkStateId → r ∈ db →
      l ∈ r.linkRecords → l.linkType = .transitNetwork → l.linkId = n →
      Route node db root far r.linkStateId d (.via l.linkData i)
  | further {u d c w nextHop : Nat} {i : Int} : Route node db root far u d (.via nextHop i) →
      Edge db u c w → Route node db root far w (d + c) (.via nextHop i)

/-- The last step of a path, from `p` at the distance `pd`. -/
inductive LastStep (node : RootNode) (db : GlobalRouteManagerLSDB) (root : GlobalRoutingLSA)
    (far : Nat → Nat) : Nat → Nat → Nat → Nat → Hop → Prop
  | link {l : GlobalRoutingLinkRecord} {i : Int} : l ∈ root.linkRecords →
      l.linkType = .pointToPoint → AtInterface node i l.linkData →
      LastStep node db root far root.linkStateId 0 l.metric l.linkId (.via (far l.linkData) i)
  | network {l : GlobalRoutingLinkRecord} {i : Int} : l ∈ root.linkRecords →
      l.linkType = .transitNetwork → AtInterface node i l.linkData →
      LastStep node db root far root.linkStateId 0 l.metric l.linkId (.onNetwork i)
  | attached {n d : Nat} {i : Int} {r : GlobalRoutingLSA} {l : GlobalRoutingLinkRecord} :
      Route node db root far n d (.onNetwork i) → Edge db n 0 r.linkStateId → r ∈ db →
      l ∈ r.linkRecords → l.linkType = .transitNetwork → l.linkId = n →
      LastStep node db root far n d 0 r.linkStateId (.via l.linkData i)
  | further {u d c w nextHop : Nat} {i : Int} : Route node db root far u d (.via nextHop i) →
      Edge db u c w → LastStep node db root far u d c w (.via nextHop i)

/-- A database with positive metrics, addresses other than 0.0.0.0, at most one link between two
routers and one interface of a router on each network. -/
structure Plain (db : GlobalRouteManagerLSDB) : Prop where
  metric : ∀ r ∈ db, ∀ l ∈ r.linkRecords, IsLink l → 1 ≤ l.metric
  address : ∀ r ∈ db, ∀ l ∈ r.linkRecords, IsLink l → l.linkData ≠ 0
  single : ∀ r ∈ db, r.linkRecords.Pairwise fun l l' => IsLink l → IsLink l' → l.linkId ≠ l'.linkId

variable {ε : Type} {X : ExitRules ε} {node : RootNode} {profile : BuildProfile} {rounds : Nat}
  {db : GlobalRouteManagerLSDB} {far : Nat → Nat} {root : GlobalRoutingLSA} {v w : SPFVertex ε}
  {s t : SPFState ε} {tree rest : List (SPFVertex ε)} {todo : List SPFRecord} {rec : SPFRecord}
  {id d : Nat} {hop : Hop}

theorem route_iff : Route node db root far id d hop ↔
    ∃ p pd c, d = pd + c ∧ LastStep node db root far p pd c id hop := by
  constructor
  · intro route
    cases route with
    | link mem type there => exact ⟨_, 0, _, (Nat.zero_add _).symm, .link mem type there⟩
    | network mem type there => exact ⟨_, 0, _, (Nat.zero_add _).symm, .network mem type there⟩
    | attached before edge member mem type same =>
      exact ⟨_, d, 0, rfl, .attached before edge member mem type same⟩
    | further before edge => exact ⟨_, _, _, rfl, .further before edge⟩
  · rintro ⟨p, pd, c, rfl, last⟩
    cases last with
    | link mem type there => exact (Nat.zero_add _).symm ▸ .link mem type there
    | network mem type there => exact (Nat.zero_add _).symm ▸ .network mem type there
    | attached before edge member mem type same => exact .attached before edge member mem type same
    | further before edge => exact .further before edge

section

variable (memberRoot : root ∈ db) (router : root.lsType = .routerLSA)
include memberRoot router

theorem LastStep.edge {p pd c : Nat}
    (last : LastStep node db root far p pd c id hop) : Edge db p c id := by
  cases last with
  | link mem type => exact .link memberRoot router mem (.inl type)
  | network mem type => exact .link memberRoot router mem (.inr type)
  | attached _ edge => exact edge
  | further _ edge => exact edge

theorem Route.walk
    (route : Route node db root far id d hop) : Walk (Edge db) root.linkStateId id d := by
  induction route with
  | link mem type => exact .one (.link memberRoot router mem (.inl type))
  | network mem type => exact .one (.link memberRoot router mem (.inr type))
  | attached _ edge _ _ _ _ ih => exact ih.snoc edge
  | further _ edge ih => exact ih.snoc edge

theorem LastStep.walk {p pd c : Nat}
    (last : LastStep node db root far p pd c id hop) : Walk (Edge db) root.linkStateId p pd := by
  cases last with
  | link => exact .nil
  | network => exact .nil
  | attached before => exact before.walk memberRoot router
  | further before => exact before.walk memberRoot router

end

theorem Route.pos (plain : Plain db) (memberRoot : root ∈ db)
    (route : Route node db root far id d hop) : 1 ≤ d := by
  induction route with
  | @link l i mem type => exact plain.metric root memberRoot l mem (.inl type)
  | @network l i mem type => exact plain.metric root memberRoot l mem (.inr type)
  | attached _ _ _ _ _ _ ih => exact ih
  | further _ _ ih => exact ih.trans (Nat.le_add_right _ _)

/-- A next hop is the address of an interface. -/
theorem Route.nextHop_ne (plain : Plain db) (links : Links db far) (memberRoot : root ∈ db)
    (route : Route node db root far id d hop) {nextHop : Nat} {i : Int}
    (via : hop = .via nextHop i) :
    nextHop ≠ 0 := by
  induction route with
  | @link l i mem type =>
    obtain ⟨w, memW, -, back, memB, typeB, -, data⟩ := links.ends root memberRoot l mem type
    obtain ⟨rfl, -⟩ := Hop.via.inj via
    exact data ▸ plain.address w memW back memB (.inl typeB)
  | network => cases via
  | @attached n d i r l _ _ member mem type =>
    obtain ⟨rfl, -⟩ := Hop.via.inj via
    exact plain.address r member l mem (.inr type)
  | further _ _ ih => exact ih via

theorem Route.exit_inj (plain : Plain db) (links : Links db far) (memberRoot : root ∈ db)
    {hop' : Hop} (route : Route node db root far id d hop)
    (route' : Route node db root far id d hop') (same : hop.exit = hop'.exit) : hop = hop' := by
  cases hop with
  | onNetwork i =>
    cases hop' with
    | onNetwork i' => exact congrArg _ (Prod.mk.inj same).2
    | via nextHop i' =>
      exact absurd (Prod.mk.inj same).1.symm (route'.nextHop_ne plain links memberRoot rfl)
  | via nextHop i =>
    cases hop' with
    | onNetwork i' =>
      exact absurd (Prod.mk.inj same).1 (route.nextHop_ne plain links memberRoot rfl)
    | via nextHop' i' =>
      cases same
      rfl

/-! ## Predecessors -/

/-- Vertices nearer than the current one are in the tree. -/
theorem Searching.reach (h : Searching db root v todo tree s) {u e : Nat}
    (walk : Walk (Edge db) root.linkStateId u e) :
    (∃ d, d ≤ e ∧ At tree u d) ∨ v.distanceFromRoot ≤ e := by
  induction walk with
  | nil => exact .inl ⟨0, le_rfl, h.frontier.origin⟩
  | @snoc u w d c before step ih =>
    obtain ⟨d', short, mem⟩ | far := ih
    · obtain ⟨rfl, -⟩ | ⟨f, there⟩ | ⟨f, small, x, waits, -, rfl⟩ :=
        h.frontier.relaxed u d' c w mem step
      · obtain rfl := h.distance_eq mem
        exact .inr (short.trans (Nat.le_add_right _ _))
      · exact .inl ⟨f, h.frontier.least w f there _ (before.snoc step), there⟩
      · exact .inr ((h.ahead x waits).trans (small.trans (Nat.add_le_add_right short c)))
    · exact .inr (far.trans (Nat.le_add_right _ _))

/-- All predecessors of a vertex on shortest paths are in the tree with it. -/
def Closed (db : GlobalRouteManagerLSDB) (root : GlobalRoutingLSA) (tree : List (SPFVertex ε)) :
    Prop :=
  ∀ u ∈ tree, u.vertexId ≠ root.linkStateId → ∀ p pd c, Walk (Edge db) root.linkStateId p pd →
    Edge db p c u.vertexId → pd + c = u.distanceFromRoot → At tree p pd

/-- An edge of cost 0 leads from a network to a router. -/
theorem edge_free (symmetric : Symmetric db) (plain : Plain db) {u w : Nat} (edge : Edge db u 0 w) :
    (∃ n ∈ db, n.linkStateId = u ∧ n.lsType = .networkLSA) ∧
      ∃ r ∈ db, r.linkStateId = w ∧ r.lsType = .routerLSA := by
  generalize cost : 0 = c at edge
  cases edge with
  | @link r l memR kind mem type =>
    have positive := plain.metric r memR l mem type
    omega
  | @attached n r addr memN kind mem found =>
    obtain ⟨r', memR, router, found', -⟩ := symmetric.attached n memN kind addr mem
    obtain rfl := Option.some.inj (found.symm.trans found')
    exact ⟨⟨n, memN, rfl, kind⟩, r, memR, rfl, router⟩

/-- When a vertex is popped its predecessors on shortest paths are in the tree. -/
theorem Searching.predecessor (h : Searching db root v [] tree s) (symmetric : Symmetric db)
    (plain : Plain db) (memberRoot : root ∈ db) (router : root.lsType = .routerLSA)
    (candidates : s.candidate = w :: rest) {p pd c : Nat}
    (walk : Walk (Edge db) root.linkStateId p pd) (edge : Edge db p c w.vertexId)
    (sum : pd + c = w.distanceFromRoot) : At tree p pd := by
  have done (u c id) : ¬ (u = v.vertexId ∧ ∃ rec ∈ ([] : List SPFRecord), Leads db rec c id) :=
    fun ⟨_, _, mem, _⟩ => absurd mem List.not_mem_nil
  have memW : w ∈ s.candidate := candidates ▸ List.mem_cons_self
  have first (u : SPFVertex ε) (mem : u ∈ s.candidate) : rank w ≤ rank u := by
    have sorted := h.sorted
    rw [candidates] at sorted mem
    obtain rfl | mem := List.mem_cons.mp mem
    · exact le_rfl
    · exact (List.pairwise_cons.mp sorted).1 u mem
  have near (u : SPFVertex ε) (mem : u ∈ s.candidate) :
    w.distanceFromRoot ≤ u.distanceFromRoot := by
    obtain less | ⟨same, -⟩ := Prod.Lex.toLex_le_toLex.mp (first u mem)
    · exact less.le
    · exact same.le
  -- a walk shorter than the distance of `w` ends in the tree
  have inside {x e : Nat} (walk : Walk (Edge db) root.linkStateId x e)
    (short : e < w.distanceFromRoot) :
      ∃ f, f ≤ e ∧ At tree x f := by
    obtain found | ⟨y, f, small, u, waits, -, rfl⟩ := h.frontier.reach done walk
    · exact found
    · exact absurd (near u waits) (by omega)
  have outside (e : Nat) : ¬ At tree w.vertexId e := by
    rintro ⟨u, there, id, -⟩
    have nodup := h.ids
    rw [List.map_append] at nodup
    exact (List.nodup_append.mp nodup).2.2 _ (List.mem_map_of_mem there) _
      (List.mem_map_of_mem memW) id
  have least {e : Nat} (walk : Walk (Edge db) root.linkStateId w.vertexId e) :
    w.distanceFromRoot ≤ e :=
    h.frontier.nearest done outside (fun x f ⟨u, waits, _, same⟩ => same ▸ near u waits) walk
  have exact_ {f : Nat} (there : At tree p f) : f = pd := by
    have short := h.frontier.least p f there pd walk
    have long := least ((h.frontier.treeWalk p f there).snoc edge)
    omega
  obtain rfl | positive := Nat.eq_zero_or_pos c
  · obtain ⟨⟨n, memN, rfl, network⟩, r, memR, idR, routerW⟩ := edge_free symmetric plain edge
    -- the network has been reached through a router that is nearer
    generalize target : n.linkStateId = id at walk
    cases walk with
    | nil =>
      obtain rfl := eq_of_id symmetric memN memberRoot target
      exact absurd (router.symm.trans network) nofun
    | @snoc u _ d c' before step =>
      have step' := target ▸ step
      obtain ⟨x, memX, rfl, -, l, memL, transit, idL, rfl⟩ :=
        edge_to_network symmetric memN network step'
      have metric := plain.metric x memX l memL (.inr transit)
      obtain ⟨f, short, there⟩ := inside before (by omega)
      obtain undone | ⟨e, known⟩ | ⟨e, small, u, waits, id, rfl⟩ :=
        h.frontier.relaxed _ f _ _ there step
      · exact absurd undone (done _ _ _)
      · have known' : At tree n.linkStateId e := target ▸ known
        exact exact_ known' ▸ known
      · -- a network comes before a router at the same distance
        have memU := h.members u (List.mem_append_right _ waits)
        obtain rfl : u.lsa = n := eq_of_id symmetric memU memN (id.trans target.symm)
        have memW' := h.members w (List.mem_append_right _ memW)
        obtain rfl : w.lsa = r := eq_of_id symmetric memW' memR idR.symm
        have wFirst := first u waits
        have typeW : w.vertexType ≠ .network := fun type =>
          absurd (routerW.symm.trans (vertexType_network.mp type)) nofun
        rw [rank, rank, if_pos (vertexType_network.mpr network), if_neg typeW,
          Prod.Lex.toLex_le_toLex] at wFirst
        omega
  · obtain ⟨f, -, there⟩ := inside walk (by omega)
    exact exact_ there ▸ there

/-- The tree stays closed. -/
theorem Closed.pop (closed : Closed db root tree) (h : Searching db root v [] tree s)
    (symmetric : Symmetric db) (plain : Plain db) (memberRoot : root ∈ db)
    (router : root.lsType = .routerLSA) (candidates : s.candidate = w :: rest) :
    Closed db root (tree ++ [w]) := by
  intro u mem other p pd c walk edge sum
  have there : At tree p pd := by
    obtain mem | mem := List.mem_append.mp mem
    · exact closed u mem other p pd c walk edge sum
    · obtain rfl := List.mem_singleton.mp mem
      exact h.predecessor symmetric plain memberRoot router candidates walk edge sum
  obtain ⟨q, inside, facts⟩ := there
  exact ⟨q, List.mem_append_left _ inside, facts⟩

theorem closed_start : Closed db root [rootVertex X root] := by
  intro u mem other
  rw [List.mem_singleton.mp mem] at other
  exact absurd rfl other

end GlobalRouteManagerImpl

end Ns3
