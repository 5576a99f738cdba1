import Ns3.Internet.GlobalRouting.Installed

/-!
# Routers with a single link

All paths from such a router begin with its link, so every vertex has the exit of the neighbour.
`CheckForStubNode` takes the neighbour's address from the first point-to-point record that carries
the root's id, and `SPFNexthopCalculation` from the first record of any kind.
-/

namespace Ns3.GlobalRouteManagerImpl

open ShortestPath List Option

variable {node : RootNode} {profile : BuildProfile} {hops rounds : Nat}
  {db : GlobalRouteManagerLSDB} {root : GlobalRoutingLSA} {l first : GlobalRoutingLinkRecord}
  {v w : SPFVertex RootExits} {s t : SPFState RootExits} {tree rest : List (SPFVertex RootExits)}
  {todo : List SPFRecord} {rec : SPFRecord} {e : NodeExit}

/-- The root has one record that leads to another vertex, and it is a point-to-point record. -/
structure SingleLink (db : GlobalRouteManagerLSDB) (root : GlobalRoutingLSA)
    (l : GlobalRoutingLinkRecord) : Prop where
  symmetric : Symmetric db
  member : root ∈ db
  router : root.lsType = .routerLSA
  only : (root.linkRecords.filter fun l => IsLink l) = [l]
  pointToPoint : l.linkType = .pointToPoint

/-- The first record of the neighbour that a search finds. -/
def FirstRecord (db : GlobalRouteManagerLSDB) (l : GlobalRoutingLinkRecord)
    (search : GlobalRoutingLinkRecord → Bool) (record : GlobalRoutingLinkRecord) : Prop :=
  ∃ w ∈ db, w.linkStateId = l.linkId ∧ w.linkRecords.find? search = some record

/-- Its first record that carries the root's id. -/
def FirstBack (db : GlobalRouteManagerLSDB) (root : GlobalRoutingLSA)
    (l : GlobalRoutingLinkRecord) : GlobalRoutingLinkRecord → Prop :=
  FirstRecord db l fun lr => lr.linkId = root.linkStateId

/-- Its first point-to-point record that does. -/
def FirstPointToPointBack (db : GlobalRouteManagerLSDB) (root : GlobalRoutingLSA)
    (l : GlobalRoutingLinkRecord) : GlobalRoutingLinkRecord → Prop :=
  FirstRecord db l fun lr => lr.linkType = .pointToPoint && lr.linkId = root.linkStateId

/-- Both records hold the same address, where the full calculation installs routes: the neighbour
is not the root itself, and the interface of the link is found. -/
def NextHopsAgree (node : RootNode) (db : GlobalRouteManagerLSDB) (root : GlobalRoutingLSA)
    (l : GlobalRoutingLinkRecord) : Prop :=
  l.linkId ≠ root.linkStateId → 0 ≤ node.findOutgoingInterfaceId l.linkData →
    ∀ first back, FirstBack db root l first → FirstPointToPointBack db root l back →
      BitVec.ofNat 32 first.linkData = .ofNat 32 back.linkData

/-- The exit that the root's neighbour gets. -/
def exitBy (node : RootNode) (l first : GlobalRoutingLinkRecord) : NodeExit :=
  (first.linkData, node.findOutgoingInterfaceId l.linkData)

namespace SingleLink

theorem mem (single : SingleLink db root l) : l ∈ root.linkRecords := by
  have here : l ∈ root.linkRecords.filter fun l => IsLink l := by
    rw [single.only]
    exact mem_cons_self
  exact (mem_filter.mp here).1

theorem eq (single : SingleLink db root l) {l' : GlobalRoutingLinkRecord}
    (mem : l' ∈ root.linkRecords) (link : IsLink l') : l' = l := by
  have here : l' ∈ root.linkRecords.filter fun l => IsLink l :=
    mem_filter.mpr ⟨mem, decide_eq_true link⟩
  rw [single.only] at here
  exact mem_singleton.mp here

theorem neighbour (single : SingleLink db root l) : ∃ w ∈ db, w.lsType = .routerLSA ∧
    w.linkStateId = l.linkId ∧ ∃ back ∈ w.linkRecords,
      back.linkType = .pointToPoint ∧ back.linkId = root.linkStateId :=
  single.symmetric.pointToPoint root single.member l single.mem single.pointToPoint

theorem firstRecord (single : SingleLink db root l) {search : GlobalRoutingLinkRecord → Bool}
    (finds : ∀ lr : GlobalRoutingLinkRecord, lr.linkType = .pointToPoint →
      lr.linkId = root.linkStateId → search lr = true) :
    ∃ record, FirstRecord db l search record := by
  obtain ⟨w, memW, -, idW, back, memB, typeB, idB⟩ := single.neighbour
  obtain ⟨record, found⟩ := isSome_iff_exists.mp
    (find?_isSome.mpr ⟨back, memB, finds back typeB idB⟩)
  exact ⟨record, w, memW, idW, found⟩

theorem firstRecord_unique (single : SingleLink db root l)
    {search : GlobalRoutingLinkRecord → Bool} {a b : GlobalRoutingLinkRecord}
    (isA : FirstRecord db l search a) (isB : FirstRecord db l search b) : a = b := by
  obtain ⟨w, memW, idW, found⟩ := isA
  obtain ⟨w', memW', idW', found'⟩ := isB
  obtain rfl := eq_of_id single.symmetric memW memW' (idW.trans idW'.symm)
  exact some.inj (found.symm.trans found')

theorem leads (single : SingleLink db root l) (here : rec ∈ root.records) {c id : Nat}
    (leads : Leads db rec c id) : rec = .link l ∧ id = l.linkId := by
  rw [root_records single.router] at here
  obtain ⟨l', memL, rfl⟩ := List.mem_map.mp here
  obtain ⟨link, -, rfl⟩ := leads
  obtain rfl := single.eq memL link
  exact ⟨rfl, rfl⟩

end SingleLink

/-! ## The exits during the search -/

/-- Every vertex but the root has the exit of the neighbour, and comes after its parents. -/
structure Behind (root : GlobalRoutingLSA) (e : NodeExit) (tree : List (SPFVertex RootExits))
    (s : SPFState RootExits) : Prop where
  exits : ∀ u ∈ tree ++ s.candidate, u.vertexId ≠ root.linkStateId → u.exits.ecmpRootExits = [e]
  parents : ∀ u ∈ tree ++ s.candidate, u.vertexType = .network →
    root.linkStateId ∉ u.exits.parents
  waiting : ∀ u ∈ s.candidate, ∀ p ∈ u.exits.parents, ∃ x ∈ tree, x.vertexId = p
  ordered : ∀ front u back, tree = front ++ u :: back → ∀ p ∈ u.exits.parents,
    ∃ x ∈ front, x.vertexId = p

/-- What the calculation of the exits gives to a vertex that is not in the tree. -/
theorem Behind.nexthop (behind : Behind root e tree s) (single : SingleLink db root l)
    (back : FirstBack db root l first) (same : e = exitBy node l first)
    (h : Searching db root v (rec :: todo) tree s) {u : SPFVertex RootExits} {c : Nat}
    (memU : u.lsa ∈ db) (leads : Leads db rec c u.vertexId) {e' : RootExits}
    (returns : GlobalRouteManagerImpl.nexthop node profile hops root v u (linkOf rec) = some e') :
    e'.ecmpRootExits = [e] ∧ e'.parents = [v.vertexId] ∧
      (u.vertexType = .network → v.vertexId ≠ root.linkStateId) := by
  obtain ⟨parents, cases_⟩ := nexthop_cases returns
  have current := mem_append_left s.candidate h.current
  have memV := h.members v current
  -- from the root only the neighbour is reached, which is a router
  have fromRoot (atRoot : v.vertexId = root.linkStateId) :
      rec = .link l ∧ u.vertexId = l.linkId ∧ u.vertexType = .router := by
    obtain rfl := eq_of_id single.symmetric memV single.member atRoot
    obtain ⟨link, id⟩ := single.leads (h.rest rec mem_cons_self) leads
    obtain ⟨w, memW, router, idW, -⟩ := single.neighbour
    obtain rfl := eq_of_id single.symmetric memU memW (id.trans idW.symm)
    refine ⟨link, id, ?_⟩
    rw [SPFVertex.vertexType, router]
  refine ⟨?_, parents, fun network atRoot => ?_⟩
  · obtain ⟨atRoot, -, l', back', linkEq, found, exits⟩ | ⟨atRoot, other, -⟩ |
      ⟨other, network, e'', through, exits⟩ | ⟨other, -, exits⟩ := cases_
    · obtain ⟨rfl, id, -⟩ := fromRoot atRoot
      cases linkEq
      obtain ⟨w, memW, idW, foundW⟩ := back
      obtain rfl := eq_of_id single.symmetric memU memW (id.trans idW.symm)
      obtain rfl := some.inj (found.symm.trans foundW)
      rw [exits, same]
      rfl
    · exact absurd (fromRoot atRoot).2.2 other
    · obtain ⟨parent, -⟩ | ⟨-, -, exit, direction, set⟩ := throughNetwork_cases through
      · exact absurd (mem_of_mem_head? parent) (behind.parents v current network)
      · rw [RootExits.getRootExitDirection, behind.exits v current other] at direction
        obtain ⟨_, -, head⟩ := bind_returns.mp direction
        rw [exits, set, ← some.inj head]
    · rw [exits]
      exact behind.exits v current other
  · rw [(fromRoot atRoot).2.2] at network
    cases network

/-- The calculation returns. -/
theorem Behind.nexthop_returns (behind : Behind root e tree s) (single : SingleLink db root l)
    (h : Searching db root v (rec :: todo) tree s) {u : SPFVertex RootExits} {c : Nat}
    (memU : u.lsa ∈ db) (leads : Leads db rec c u.vertexId) :
    ∃ e', GlobalRouteManagerImpl.nexthop node profile hops root v u (linkOf rec) = some e' := by
  have current := mem_append_left s.candidate h.current
  have memV := h.members v current
  by_cases atRoot : v.vertexId = root.linkStateId
  · obtain rfl := eq_of_id single.symmetric memV single.member atRoot
    obtain ⟨rfl, id⟩ := single.leads (h.rest rec mem_cons_self) leads
    obtain ⟨w, memW, router, idW, back, memB, -, idB⟩ := single.neighbour
    obtain rfl := eq_of_id single.symmetric memU memW (id.trans idW.symm)
    have type : u.vertexType = .router := by rw [SPFVertex.vertexType, router]
    obtain ⟨l', found⟩ := isSome_iff_exists.mp (find?_isSome.mpr
      ⟨back, memB, decide_eq_true (idB.trans atRoot.symm)⟩ :
        (u.lsa.linkRecords.find? fun l => l.linkId = v.vertexId).isSome = true)
    simp only [GlobalRouteManagerImpl.nexthop, if_pos atRoot, type, linkOf, spfGetNextLink_none,
      found, some_bind]
    exact ⟨_, rfl⟩
  · rw [GlobalRouteManagerImpl.nexthop, if_neg atRoot]
    cases type : v.vertexType with
    | network =>
      have other : v.exits.parents.head? ≠ some root.linkStateId := fun parent =>
        behind.parents v current type (mem_of_mem_head? parent)
      have direction : v.exits.getRootExitDirection profile = some e := by
        simp [RootExits.getRootExitDirection, behind.exits v current atRoot]
      simp only [throughNetwork, if_neg other, direction, some_bind, pure_some, if_true]
      exact ⟨_, rfl⟩
    | router => exact ⟨_, rfl⟩
    | unknown => exact ⟨_, rfl⟩

theorem merge_single {a b : RootExits} (here : a.ecmpRootExits = [e])
    (there : b.ecmpRootExits = [e]) :
    (RootExits.merge node.pointer a b).ecmpRootExits = [e] := by
  rw [RootExits.merge, here, there]
  simp only [SortedInsert.sort, singleton_append, foldl_cons, foldl_nil,
    SortedInsert.insert]
  split <;> simp [listUnique]

theorem Behind.examine (behind : Behind root e tree s) (single : SingleLink db root l)
    (back : FirstBack db root l first) (same : e = exitBy node l first)
    (h : Searching db root v (rec :: todo) tree s)
    (returns :
      GlobalRouteManagerImpl.examine (exitRules node profile hops) db root v s rec = some t) :
    Behind root e tree t := by
  obtain ⟨rfl, -⟩ | ⟨w, c, others, improves⟩ := h.examine_step single.symmetric returns
  · exact behind
  have leads : Leads db rec c w.vertexId := (improves.leads c w.vertexId).mpr ⟨rfl, rfl⟩
  have old (u : SPFVertex RootExits) (mem : u ∈ others) : u ∈ s.candidate :=
    improves.change.others_subset mem
  have current : ∃ x ∈ tree, x.vertexId = v.vertexId := ⟨v, h.current, rfl⟩
  -- the vertex that the record leads to
  have new : w.exits.ecmpRootExits = [e] ∧
      (w.vertexType = .network → root.linkStateId ∉ w.exits.parents) ∧
      ∀ p ∈ w.exits.parents, ∃ x ∈ tree, x.vertexId = p := by
    have calculated {u : SPFVertex RootExits} {e' : RootExits} (lsa : u.lsa = w.lsa)
        (returns :
          GlobalRouteManagerImpl.nexthop node profile hops root v u (linkOf rec) = some e') :
        e'.ecmpRootExits = [e] ∧ e'.parents = [v.vertexId] ∧
          (w.vertexType = .network → v.vertexId ≠ root.linkStateId) := by
      have id : u.vertexId = w.vertexId := congrArg GlobalRoutingLSA.linkStateId lsa
      have type : u.vertexType = w.vertexType := by rw [SPFVertex.vertexType, lsa]; rfl
      rw [← type]
      exact behind.nexthop single back same h (lsa ▸ improves.member) (id ▸ leads) returns
    have alone {parents : List Nat} (set : parents = [v.vertexId]) :
        (w.vertexType = .network → v.vertexId ≠ root.linkStateId) →
        (w.vertexType = .network → root.linkStateId ∉ parents) ∧
          ∀ p ∈ parents, ∃ x ∈ tree, x.vertexId = p := by
      intro apart
      subst set
      refine ⟨fun network mem => apart network (mem_singleton.mp mem).symm, fun p mem => ?_⟩
      rw [mem_singleton.mp mem]
      exact current
    cases improves.change with
    | new _ _ nexthop =>
      obtain ⟨exits, parents, apart⟩ := @calculated { lsa := w.lsa, exits := {} } _ rfl nexthop
      exact ⟨exits, alone parents apart⟩
    | nearer _ lsa _ nexthop =>
      obtain ⟨exits, parents, apart⟩ := calculated lsa nexthop
      exact ⟨exits, alone parents apart⟩
    | @merged cw e' same' lsa _ nexthop merge =>
      obtain ⟨exits, parents, apart⟩ := @calculated { lsa := w.lsa, exits := {} } _ rfl nexthop
      obtain ⟨alone, there⟩ := alone parents apart
      have memC : cw ∈ s.candidate := same'.mem_iff.mpr mem_cons_self
      have memC' := mem_append_right tree memC
      have outside : cw.vertexId ≠ root.linkStateId := by
        intro atRoot
        have waits := (h.waiting cw.vertexId).mpr ⟨cw, memC, rfl⟩
        obtain ⟨u, inside, id, -⟩ := h.frontier.origin
        have known := (h.inTree cw.vertexId).mpr ⟨u, inside, id.trans atRoot.symm⟩
        cases waits.symm.trans known
      have type : cw.vertexType = w.vertexType := by rw [SPFVertex.vertexType, lsa]; rfl
      refine ⟨?_, fun network mem => ?_, fun p mem => ?_⟩
      · rw [merge]
        exact merge_single (behind.exits cw memC' outside) exits
      · rw [merge] at mem
        obtain mem | mem := mem_merge_parents.mp mem
        · exact behind.parents cw memC' (type.trans network) mem
        · exact alone network mem
      · rw [merge] at mem
        obtain mem | mem := mem_merge_parents.mp mem
        · exact behind.waiting cw memC p mem
        · exact there p mem
  obtain ⟨exits, network, parents⟩ := new
  have split_ {u : SPFVertex RootExits} (mem : u ∈ tree ++ t.candidate) :
      u = w ∨ u ∈ tree ++ s.candidate := by
    obtain inside | mem := mem_append.mp mem
    · exact .inr (mem_append_left _ inside)
    · obtain rfl | mem := mem_cons.mp (improves.after.mem_iff.mp mem)
      · exact .inl rfl
      · exact .inr (mem_append_right _ (old u mem))
  refine ⟨fun u mem other => ?_, fun u mem type => ?_, fun u mem => ?_, behind.ordered⟩
  · obtain rfl | mem := split_ mem
    · exact exits
    · exact behind.exits u mem other
  · obtain rfl | mem := split_ mem
    · exact network type
    · exact behind.parents u mem type
  · obtain rfl | mem := mem_cons.mp (improves.after.mem_iff.mp mem)
    · exact parents
    · exact behind.waiting u (old u mem)

theorem behind_start {X : ExitRules RootExits} (fresh : X.fresh = {}) :
    Behind root e [rootVertex X root] (initialState root) := by
  have only (u : SPFVertex RootExits) (mem : u ∈ [rootVertex X root]) : u = rootVertex X root :=
    mem_singleton.mp mem
  have none_ (p : Nat) : p ∉ (rootVertex X root).exits.parents := by
    simp only [rootVertex, fresh]
    exact not_mem_nil
  refine ⟨fun u mem other => ?_, fun u mem _ => ?_, forall_mem_nil _, fun front u back split_ p mem => ?_⟩
  · rw [only u mem] at other
    exact absurd rfl other
  · rw [only u mem]
    exact none_ _
  · have memU : u ∈ [rootVertex X root] := by
      rw [split_]
      exact mem_append_right _ mem_cons_self
    rw [only u memU] at mem
    exact absurd mem (none_ p)

/-- The parents of a vertex that is popped are in the tree. -/
theorem Behind.pop (behind : Behind root e tree s) (candidates : s.candidate = w :: rest) :
    Behind root e (tree ++ [w]) (s.popped w rest) := by
  have all : tree ++ [w] ++ (s.popped w rest).candidate = tree ++ s.candidate := by
    rw [candidates, append_assoc, singleton_append]
    rfl
  refine ⟨?_, ?_, fun u mem p parent => ?_, fun front u back split_ p parent => ?_⟩
  · rw [all]
    exact behind.exits
  · rw [all]
    exact behind.parents
  · obtain ⟨x, inside, id⟩ := behind.waiting u (candidates ▸ mem_cons_of_mem w mem) p parent
    exact ⟨x, mem_append_left _ inside, id⟩
  · cases back using List.reverseRecOn with
    | nil =>
      obtain ⟨rfl, last⟩ := append_inj' split_ rfl
      obtain rfl := singleton_inj.mp last
      exact behind.waiting w (candidates ▸ mem_cons_self) p parent
    | append_singleton back x =>
      have longer : tree ++ [w] = (front ++ u :: back) ++ [x] := by
        rw [split_, append_assoc, cons_append]
      exact behind.ordered front u back (append_inj' longer rfl).1 p parent

/-- The loop of `SPFNext` returns. -/
theorem Behind.examineAll (behind : Behind root e tree s) (single : SingleLink db root l)
    (back : FirstBack db root l first) (same : e = exitBy node l first)
    (h : Searching db root v todo tree s) :
    ∃ t, todo.foldlM (GlobalRouteManagerImpl.examine (exitRules node profile hops) db root v) s =
        some t ∧ Searching db root v [] tree t ∧ Behind root e tree t := by
  induction todo generalizing s with
  | nil => exact ⟨s, rfl, h, behind⟩
  | cons rec todo ih =>
    obtain ⟨m, step⟩ := h.examine_returns (X := exitRules node profile hops) single.symmetric
      fun u memU ⟨_, leads⟩ _ => behind.nexthop_returns single h memU leads
    obtain ⟨t, later, facts⟩ := ih (behind.examine single back same h step)
      (h.examine single.symmetric step)
    refine ⟨t, ?_, facts⟩
    rw [foldlM_cons, step]
    exact later

/-- The main loop returns with the whole tree. -/
theorem Behind.loop (behind : Behind root e tree s) (single : SingleLink db root l)
    (back : FirstBack db root l first) (same : e = exitBy node l first)
    (h : Searching db root v v.lsa.records tree s) (enough : db.length < rounds + tree.length) :
    ∃ popped u t, spfLoop (exitRules node profile hops) db root rounds v s = some popped ∧
      Searching db root u [] (tree ++ popped) t ∧ t.candidate = [] ∧
      Behind root e (tree ++ popped) t := by
  induction rounds generalizing v s tree with
  | zero =>
    have short := h.length_le
    omega
  | succ rounds ih =>
    obtain ⟨t, next, done, behind'⟩ :=
      @Behind.examineAll node profile hops db root l first v s tree v.lsa.records e
        behind single back same h
    rw [spfLoop, spfNext, next]
    simp only [some_bind]
    cases candidates : t.candidate with
    | nil => exact ⟨[], v, t, rfl, by rwa [append_nil], candidates, by rwa [append_nil]⟩
    | cons w rest =>
      have longer : db.length < rounds + (tree ++ [w]).length := by
        rw [length_append, length_singleton]
        omega
      obtain ⟨later, u, t', run, final, empty, behindAll⟩ := ih (behind'.pop candidates)
        (done.pop single.symmetric candidates) longer
      rw [append_assoc, singleton_append] at final behindAll
      refine ⟨w :: later, u, t', ?_, final, empty, behindAll⟩
      simp [run]

/-! ## The routes of both calculations -/

theorem countTransits_eq (records : List GlobalRoutingLinkRecord) :
    countTransits records = ((records.filter fun l => IsLink l).length,
      (records.filter fun l => IsLink l).getLast?) := by
  induction records using List.reverseRecOn with
  | nil => rfl
  | append_singleton records l ih =>
    rw [countTransits] at ih ⊢
    rw [foldl_append, ih, filter_append, foldl_cons, foldl_nil]
    cases type : l.linkType <;> simp [IsLink, type]

/-- The default route. -/
theorem SingleLink.checkForStubNode (single : SingleLink db root l) {back : GlobalRoutingLinkRecord}
    (found : FirstPointToPointBack db root l back) (gr : Ipv4GlobalRouting) :
    GlobalRouteManagerImpl.checkForStubNode node db root.linkStateId gr =
      some (true, .addNetworkRouteTo 0 0 (.ofNat 32 back.linkData)
        (.ofInt 32 (node.findOutgoingInterfaceId l.linkData)) gr) := by
  obtain ⟨w, memW, idW, found⟩ := found
  have neighbour := getLSA_spec single.symmetric memW
  rw [idW] at neighbour
  rw [GlobalRouteManagerImpl.checkForStubNode, getLSA_spec single.symmetric single.member]
  simp only [some_bind, countTransits_eq, single.only, length_singleton,
    getLast?_singleton, single.pointToPoint, neighbour, found]
  rfl

/-- The routes of the whole calculation, when all vertices but the root have the same exit. -/
theorem spfRoutes_extends {popped : List (SPFVertex RootExits)} (symmetric : Symmetric db)
    (member : root ∈ db)
    (run : spfCalculate (exitRules node profile hops) db rounds root.linkStateId = some popped)
    (nodup : ((rootVertex (exitRules node profile hops) root :: popped).map (·.vertexId)).Nodup)
    (ordered : ∀ front u back,
      rootVertex (exitRules node profile hops) root :: popped = front ++ u :: back →
        ∀ p ∈ u.exits.parents, ∃ x ∈ front, x.vertexId = p)
    (members : ∀ u ∈ popped, u.lsa ∈ db) (exits : ∀ u ∈ popped, u.exits.ecmpRootExits = [e])
    (short : popped.length ≤ rounds) :
    ∃ gr, spfRoutes node profile hops rounds db root.linkStateId = some gr ∧ Extends e {} gr ∧
      ∀ u ∈ popped, u.vertexType = .router → 0 ≤ e.2 → node.interfaces.isNone = false →
        ∀ lr ∈ u.lsa.linkRecords, lr.linkType = .pointToPoint →
          ∃ r ∈ gr.hostRoutes, LeadsBy e r := by
  have vertices (part : List (SPFVertex RootExits)) (inside : ∀ u ∈ part, u ∈ popped)
      (gr : Ipv4GlobalRouting) :
      ∃ gr', part.foldlM (addVertex node profile) gr = some gr' ∧ Extends e gr gr' := by
    refine extends_foldlM id (fun u mem gr => ?_) gr
    have known : u.vertexType ≠ .unknown := by
      obtain type | type := vertexType_cases symmetric (members u (inside u mem)) <;>
        exact type ▸ nofun
    exact extends_vertex known (exits u (inside u mem)) gr
  obtain ⟨gr, added, first⟩ := vertices popped (fun _ mem => mem) {}
  obtain ⟨⟨marks, gr'⟩, stubs, second⟩ :=
    @extends_spfProcessStubs node root popped _ e _ (fun u mem => mem_cons_of_mem _ mem) nodup
      ordered (fun u mem other => (mem_cons.mp mem).elim
        (fun same => absurd (same ▸ rfl) other) (exits u)) [] popped (rounds + 1) rfl
      (Nat.lt_succ_of_le short) (fun _ => false, gr)
  refine ⟨gr', ?_, first.trans second, fun u mem type known node_ lr memL pointToPoint => ?_⟩
  · rw [spfRoutes, getLSA_spec symmetric member]
    simp [run, added, stubs]
  · obtain ⟨front, back, split_⟩ := append_of_mem mem
    obtain ⟨gr₁, before, -⟩ := vertices front
      (fun u' mem' => split_ ▸ mem_append_left _ mem') {}
    obtain ⟨r, memR, leads⟩ := mem_spfIntraAddRouter (exits u mem) known node_ memL pointToPoint gr₁
    obtain ⟨gr₂, after, third⟩ := vertices back
      (fun u' mem' => split_ ▸ mem_append_right _ (mem_cons_of_mem u mem'))
      (spfIntraAddRouter node u gr₁)
    have here : addVertex node profile gr₁ u = some (spfIntraAddRouter node u gr₁) := by
      rw [addVertex, type]
    have all : popped.foldlM (addVertex node profile) {} = some gr₂ := by
      rw [split_, foldlM_append, before]
      simp [here, after]
    obtain rfl := some.inj (all.symm.trans added)
    exact ⟨r, second.kept r (third.kept r memR), leads⟩

/-- The whole tree of a root with a single link. -/
theorem SingleLink.spfCalculate (node : RootNode) (profile : BuildProfile) (hops : Nat)
    (single : SingleLink db root l) (back : FirstBack db root l first)
    (enough : db.length ≤ rounds) :
    ∃ popped u t,
      GlobalRouteManagerImpl.spfCalculate (exitRules node profile hops) db rounds root.linkStateId =
        some popped ∧
      Searching db root u [] (rootVertex (exitRules node profile hops) root :: popped) t ∧
      t.candidate = [] ∧
      Behind root (exitBy node l first)
        (rootVertex (exitRules node profile hops) root :: popped) t := by
  obtain ⟨popped, u, t, run, final, facts⟩ :=
    (behind_start rfl).loop single back rfl
      (searching_start (exitRules node profile hops) single.symmetric single.member)
      (Nat.lt_succ_of_le enough)
  refine ⟨popped, u, t, ?_, final, facts⟩
  rw [GlobalRouteManagerImpl.spfCalculate, getLSA_spec single.symmetric single.member]
  exact run

theorem SingleLink.alone (single : SingleLink db root l) (self : l.linkId = root.linkStateId)
    {id d : Nat} (walk : Walk (Edge db) root.linkStateId id d) : id = root.linkStateId := by
  induction walk with
  | nil => rfl
  | snoc _ step ih =>
    rw [ih] at step
    obtain ⟨rec, here, leads⟩ := (edge_iff single.symmetric single.member).mp step
    exact (single.leads here leads).2.trans self

theorem isNone_of_known {a : Nat} (known : 0 ≤ node.findOutgoingInterfaceId a) :
    node.interfaces.isNone = false := by
  rw [RootNode.findOutgoingInterfaceId] at known
  cases interfaces : node.interfaces with
  | none =>
    simp only [interfaces] at known
    exact absurd known (by decide)
  | some _ => rfl

/-- The routes of the full calculation have the next hop and the interface of the default route if
and only if both take the same address from the neighbour's records. -/
theorem stubNode_agrees_iff (node : RootNode) (profile : BuildProfile) {hops rounds : Nat}
    {db : GlobalRouteManagerLSDB} {root : GlobalRoutingLSA} {l : GlobalRoutingLinkRecord}
    (single : SingleLink db root l) (enough : db.length ≤ rounds) :
    ∃ nextHop interface gr,
      (∀ before, checkForStubNode node db root.linkStateId before =
        some (true, .addNetworkRouteTo 0 0 nextHop interface before)) ∧
      spfRoutes node profile hops rounds db root.linkStateId = some gr ∧
      ((∀ r ∈ gr.hostRoutes ++ gr.networkRoutes, r.gateway = nextHop ∧ r.interface = interface) ↔
        NextHopsAgree node db root l) := by
  obtain ⟨first, firstBack⟩ : ∃ first, FirstBack db root l first :=
    single.firstRecord fun lr _ id => decide_eq_true id
  obtain ⟨back, pointToPoint⟩ : ∃ back, FirstPointToPointBack db root l back :=
    single.firstRecord fun lr type id => by simp [type, id]
  obtain ⟨popped, u, t, run, final, empty, behind⟩ :=
    SingleLink.spfCalculate node profile hops single firstBack enough
  have nodup := final.ids
  have short := final.length_le
  rw [empty, List.append_nil] at nodup
  rw [List.length_cons] at short
  have inTree (u : SPFVertex RootExits) (mem : u ∈ popped) :
      u ∈ (rootVertex (exitRules node profile hops) root :: popped) ++ t.candidate :=
    List.mem_append_left _ (List.mem_cons_of_mem _ mem)
  have other (u : SPFVertex RootExits) (mem : u ∈ popped) : u.vertexId ≠ root.linkStateId := by
    intro same
    have inside := List.mem_map_of_mem (f := fun v : SPFVertex RootExits => v.vertexId) mem
    rw [same] at inside
    exact (List.nodup_cons.mp nodup).1 inside
  have routes {e : NodeExit} (exits : ∀ u ∈ popped, u.exits.ecmpRootExits = [e]) :=
    spfRoutes_extends single.symmetric single.member run nodup behind.ordered
      (fun u mem => final.members u (inTree u mem)) exits (by omega)
  have exits (u : SPFVertex RootExits) (mem : u ∈ popped) :=
    behind.exits u (inTree u mem) (other u mem)
  obtain ⟨gr, full, extends_, reached⟩ := routes exits
  refine ⟨.ofNat 32 back.linkData, .ofInt 32 (node.findOutgoingInterfaceId l.linkData), gr,
    single.checkForStubNode pointToPoint, full,
    fun all apart known first' back' isFirst isBack => ?_, fun agree r mem => ?_⟩
  · obtain rfl := single.firstRecord_unique firstBack isFirst
    obtain rfl := single.firstRecord_unique pointToPoint isBack
    -- the neighbour is popped, and has a route to its end of the link
    obtain ⟨w, memW, router, idW, lr, memL, type, -⟩ := single.neighbour
    obtain ⟨d, v, memV, id, -⟩ := (final.frontier.complete
      (fun _ _ _ ⟨_, _, none_, _⟩ => absurd none_ List.not_mem_nil)
      (fun _ _ ⟨_, waits, _⟩ => absurd (empty ▸ waits) List.not_mem_nil)).mp
      ⟨_, .one (.link single.member single.router single.mem (.inl single.pointToPoint))⟩
    obtain rfl | memV := List.mem_cons.mp memV
    · exact absurd id.symm apart
    obtain rfl := eq_of_id single.symmetric (final.members v (inTree v memV)) memW
      (id.trans idW.symm)
    have typeV : v.vertexType = .router := by rw [SPFVertex.vertexType, router]
    obtain ⟨r, memR, gateway, -⟩ := reached v memV typeV known (isNone_of_known known) lr memL type
    exact gateway.symm.trans (all r (List.mem_append_left _ memR)).1
  · by_cases self : l.linkId = root.linkStateId
    · -- nothing is reached, so no exit leads to a route
      have nothing (u : SPFVertex RootExits) (mem : u ∈ popped) :
          u.exits.ecmpRootExits = [((0, -1) : NodeExit)] := by
        have walk := final.frontier.treeWalk u.vertexId u.distanceFromRoot
          ⟨u, List.mem_cons_of_mem _ mem, rfl, rfl⟩
        exact absurd (single.alone self walk) (other u mem)
      obtain ⟨gr', full', extends', -⟩ := routes nothing
      obtain rfl := Option.some.inj (full.symm.trans full')
      obtain before | ⟨known, -⟩ := extends'.added r mem
      · cases before
      · exact absurd known (by decide)
    · obtain before | ⟨known, gateway, interface⟩ := extends_.added r mem
      · cases before
      · exact ⟨gateway.trans (agree self known first back firstBack pointToPoint), interface⟩

theorem smallRoot_singleLink : SingleLink smallDatabase smallRoot ⟨.pointToPoint, 2, 11, 4⟩ where
  symmetric := smallDatabase_symmetric
  member := mem_cons_self
  router := rfl
  only := by decide
  pointToPoint := rfl

theorem stubNode_agrees_iff_small :
    ∃ nextHop interface gr,
      (∀ before, checkForStubNode smallNode smallDatabase 1 before =
        some (true, .addNetworkRouteTo 0 0 nextHop interface before)) ∧
      spfRoutes smallNode .debug 3 4 smallDatabase 1 = some gr ∧
      ((∀ r ∈ gr.hostRoutes ++ gr.networkRoutes, r.gateway = nextHop ∧ r.interface = interface) ↔
        NextHopsAgree smallNode smallDatabase smallRoot ⟨.pointToPoint, 2, 11, 4⟩) :=
  stubNode_agrees_iff smallNode .debug smallRoot_singleLink (Nat.le_refl 4)

/-- The neighbour's first record is that of a stub network whose address is the id of router 1. -/
def stubFirstDatabase : GlobalRouteManagerLSDB :=
  [{ lsType := .routerLSA, linkStateId := 1, linkRecords := [⟨.pointToPoint, 2, 11, 4⟩] },
   { lsType := .routerLSA, linkStateId := 2,
     linkRecords := [⟨.stubNetwork, 1, 0xffffffff, 4⟩, ⟨.pointToPoint, 1, 12, 4⟩] }]

def stubFirstRoot : GlobalRoutingLSA where
  lsType := .routerLSA
  linkStateId := 1
  linkRecords := [⟨.pointToPoint, 2, 11, 4⟩]

/-- The full calculation takes the mask of the stub network for the next hop. -/
theorem stubNode_differs : SingleLink stubFirstDatabase stubFirstRoot ⟨.pointToPoint, 2, 11, 4⟩ ∧
    checkForStubNode smallNode stubFirstDatabase 1 {} =
      some (true, .addNetworkRouteTo 0 0 12 0 {}) ∧
    ∃ gr, spfRoutes smallNode .debug 3 2 stubFirstDatabase 1 = some gr ∧
      ∃ r ∈ gr.hostRoutes, r = .createHostRouteTo 12 0xffffffff 0 ∧ r.gateway ≠ 12 := by
  refine ⟨⟨⟨?_, ?_, ?_, ?_, ?_, ?_, ?_⟩, List.mem_cons_self, rfl, ?_, rfl⟩, ?_,
    .addNetworkRouteTo 1 0xffffffff 0xffffffff 0 (.addHostRouteTo 12 0xffffffff 0 {}), ?_,
    .createHostRouteTo 12 0xffffffff 0, ?_⟩ <;> decide

end Ns3.GlobalRouteManagerImpl
