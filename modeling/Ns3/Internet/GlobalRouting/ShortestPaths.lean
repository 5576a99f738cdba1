import Ns3.Internet.GlobalRouting.Search

/-!
# Shortest paths

The main loop of `SPFCalculate` pops each vertex that has a path from the root, in the order
of the distances, and each distance is the least cost of a path.
-/

namespace Ns3

open ShortestPath List Option

namespace GlobalRouteManagerImpl

variable {ε : Type} {X : ExitRules ε} {db : GlobalRouteManagerLSDB} {root : GlobalRoutingLSA}
  {v w : SPFVertex ε} {s t : SPFState ε} {tree rest popped : List (SPFVertex ε)}
  {todo : List SPFRecord} {rounds : Nat}

theorem Searching.examineAll (h : Searching db root v todo tree s) (symmetric : Symmetric db)
    (returns : todo.foldlM (GlobalRouteManagerImpl.examine X db root v) s = some t) :
    Searching db root v [] tree t := by
  induction todo generalizing s with
  | nil =>
    cases returns
    exact h
  | cons rec todo ih =>
    obtain ⟨m, first, later⟩ := bind_returns.mp returns
    exact ih (h.examine symmetric first) later

/-- The nearest candidate goes to the tree. -/
theorem Searching.pop (h : Searching db root v [] tree s) (symmetric : Symmetric db)
    (candidates : s.candidate = w :: rest) :
    Searching db root w w.lsa.records (tree ++ [w]) (s.popped w rest) := by
  have mem : w ∈ s.candidate := candidates ▸ mem_cons_self
  have member := h.members w (mem_append_right _ mem)
  have nodup := h.ids
  rw [map_append, candidates, map_cons] at nodup
  obtain ⟨-, later, apart⟩ := nodup_append.mp nodup
  obtain ⟨fresh, -⟩ := nodup_cons.mp later
  have nearest (u : SPFVertex ε) (there : u ∈ s.candidate) :
      w.distanceFromRoot ≤ u.distanceFromRoot := by
    have sorted := h.sorted
    rw [candidates] at sorted there
    obtain rfl | there := mem_cons.mp there
    · exact le_rfl
    · obtain less | ⟨same, -⟩ :=
        Prod.Lex.toLex_le_toLex.mp ((pairwise_cons.mp sorted).1 u there)
      · exact less.le
      · exact same.le
  have keeps (u : SPFVertex ε) (there : u ∈ rest) : u ∈ s.candidate :=
    candidates ▸ mem_cons_of_mem w there
  have all : (tree ++ [w] ++ rest) = tree ++ s.candidate := by
    rw [candidates, append_assoc, singleton_append]
  have status (id : Nat) : (s.popped w rest).status id =
      if id = w.vertexId then .inSPFTree else s.status id := Function.update_apply _ _ _ _
  refine ⟨fun u there => h.members u (all ▸ there), ?_, fun id => ?_, fun id => ?_, ?_,
    mem_append_right _ mem_cons_self, fun _ here => here, ?_, fun u there => ?_,
    fun u there => nearest u (keeps u there), ?_, ?_, fun u there => ?_⟩
  · rw [SPFState.popped, all]
    exact h.ids
  · rw [status]
    split
    case isTrue same =>
      exact ⟨fun _ => ⟨w, mem_append_right _ mem_cons_self, same.symm⟩, fun _ => rfl⟩
    case isFalse other =>
      rw [h.inTree]
      constructor
      · rintro ⟨u, there, id⟩
        exact ⟨u, mem_append_left _ there, id⟩
      · rintro ⟨u, there, id⟩
        obtain there | there := mem_append.mp there
        · exact ⟨u, there, id⟩
        · exact absurd (mem_singleton.mp there ▸ id.symm) other
  · rw [status]
    split
    case isTrue same =>
      refine ⟨nofun, fun ⟨u, there, id⟩ => absurd ?_ fresh⟩
      rw [← same, ← id]
      exact List.mem_map_of_mem there
    case isFalse other =>
      rw [h.waiting]
      constructor
      · rintro ⟨u, there, id⟩
        rw [candidates] at there
        obtain rfl | there := mem_cons.mp there
        · exact absurd id.symm other
        · exact ⟨u, there, id⟩
      · rintro ⟨u, there, id⟩
        exact ⟨u, keeps u there, id⟩
  · have sorted := h.sorted
    rw [candidates] at sorted
    exact (pairwise_cons.mp sorted).2
  · refine h.frontier.settle (fun u c id undone => ?_) ⟨w, mem, rfl, rfl⟩ (fun e inside => ?_)
      (fun id e waits => ?_) (fun id e => ?_) (fun id e => ?_) (fun c id edge => ?_)
    · obtain ⟨-, rec, there, -⟩ := undone
      cases there
    · obtain ⟨u, there, id, -⟩ := inside
      exact apart _ (List.mem_map_of_mem there) _ mem_cons_self id
    · obtain ⟨u, there, -, rfl⟩ := waits
      exact nearest u there
    · constructor
      · rintro ⟨u, there, rfl, rfl⟩
        obtain there | there := mem_append.mp there
        · exact .inl ⟨u, there, rfl, rfl⟩
        · obtain rfl := mem_singleton.mp there
          exact .inr ⟨rfl, rfl⟩
      · rintro (⟨u, there, facts⟩ | ⟨rfl, rfl⟩)
        · exact ⟨u, mem_append_left _ there, facts⟩
        · exact ⟨w, mem_append_right _ mem_cons_self, rfl, rfl⟩
    · constructor
      · rintro ⟨u, there, rfl, rfl⟩
        refine ⟨⟨u, keeps u there, rfl, rfl⟩, fun same => fresh ?_⟩
        rw [← same]
        exact List.mem_map_of_mem there
      · rintro ⟨⟨u, there, rfl, rfl⟩, other⟩
        rw [candidates] at there
        obtain rfl | there := mem_cons.mp there
        · exact absurd rfl other
        · exact ⟨u, there, rfl, rfl⟩
    · exact ⟨rfl, (edge_iff symmetric member).mp edge⟩
  · obtain there | there := mem_append.mp there
    · exact (h.behind u there).trans (h.ahead w mem)
    · rw [mem_singleton.mp there]
  · refine pairwise_append.mpr
      ⟨h.inOrder, pairwise_singleton _ _, fun a memA b memB => ?_⟩
    rw [mem_singleton.mp memB]
    exact (h.behind a memA).trans (h.ahead w mem)
  · have bound := h.bound w mem
    rw [length_append, length_singleton, Nat.add_mul, Nat.one_mul]
    exact Nat.add_le_add_right bound _
  · have bound := h.bound u (keeps u there)
    rw [length_append, Nat.add_mul]
    exact bound.trans (Nat.le_add_right _ _)

/-- Before the first round of the loop. -/
theorem searching_start (X : ExitRules ε) (symmetric : Symmetric db) (member : root ∈ db) :
    Searching db root (rootVertex X root) root.records [rootVertex X root] (initialState root) := by
  have status (id : Nat) : (initialState root : SPFState ε).status id =
      if id = root.linkStateId then .inSPFTree else .notExplored := by
    simp only [initialState, Function.update_apply]
  have single (u : SPFVertex ε) (mem : u ∈ [rootVertex X root]) : u = rootVertex X root :=
    mem_singleton.mp mem
  refine ⟨fun u mem => ?_, nodup_singleton _, fun id => ?_, fun id => ?_, List.Pairwise.nil,
    mem_cons_self, fun _ here => here, ⟨?_, ?_, ?_, ?_, ?_⟩, fun u mem => ?_, nofun,
    pairwise_singleton _ _, ?_, nofun⟩
  · rw [single u mem]
    exact member
  · rw [status]
    split
    case isTrue same => exact ⟨fun _ => ⟨_, mem_cons_self, same.symm⟩, fun _ => rfl⟩
    case isFalse other =>
      refine ⟨nofun, fun ⟨u, mem, id⟩ => absurd ?_ other⟩
      rw [← id, single u mem]
      rfl
  · rw [status]
    split
    case isTrue => exact ⟨nofun, fun ⟨_, mem, _⟩ => absurd mem not_mem_nil⟩
    case isFalse => exact ⟨nofun, fun ⟨_, mem, _⟩ => absurd mem not_mem_nil⟩
  · exact ⟨_, mem_cons_self, rfl, rfl⟩
  · rintro id d ⟨u, mem, rfl, rfl⟩
    rw [single u mem]
    exact .nil
  · rintro id d ⟨_, mem, -⟩
    cases mem
  · rintro id d ⟨u, mem, rfl, rfl⟩ e -
    rw [single u mem]
    exact Nat.zero_le e
  · rintro id d c id' ⟨u, mem, rfl, rfl⟩ edge
    rw [single u mem] at edge ⊢
    exact .inl ⟨rfl, (edge_iff symmetric member).mp edge⟩
  · rw [single u mem]
  · simp [rootVertex]

/-- A run of the main loop that ends has emptied the queue. -/
theorem Searching.loop (h : Searching db root v v.lsa.records tree s) (symmetric : Symmetric db)
    (returns : spfLoop X db root rounds v s = some popped) :
    ∃ u t, Searching db root u [] (tree ++ popped) t ∧ t.candidate = [] := by
  induction rounds generalizing v s tree popped with
  | zero => cases returns
  | succ rounds ih =>
    obtain ⟨t, next, returns⟩ := bind_returns.mp returns
    have done := h.examineAll symmetric next
    cases candidates : t.candidate with
    | nil =>
      rw [candidates] at returns
      cases returns
      exact ⟨v, t, by rwa [append_nil], candidates⟩
    | cons w rest =>
      rw [candidates] at returns
      obtain ⟨later, run, returns⟩ := bind_returns.mp returns
      cases returns
      obtain ⟨u, t', final⟩ := ih (done.pop symmetric candidates) run
      rw [append_assoc, singleton_append] at final
      exact ⟨u, t', final⟩

/-! ## Termination -/

/-- The calculation of the exits does not fail. -/
def ExitRules.Total (X : ExitRules ε) : Prop := ∀ root v w l, ∃ exits, X.nexthop root v w l =
    some exits

/-- One round of the loop of `SPFNext` returns when the calculation of the exits does. -/
theorem Searching.examine_returns {rec : SPFRecord} (h : Searching db root v (rec :: todo) tree s)
    (symmetric : Symmetric db) (exist : ∀ u : SPFVertex ε, u.lsa ∈ db →
      (∃ c, Leads db rec c u.vertexId) → s.status u.vertexId ≠ .inSPFTree →
        ∃ exits, X.nexthop root v u (linkOf rec) = some exits) :
    ∃ t, GlobalRouteManagerImpl.examine X db root v s rec = some t := by
  have member := h.members v (mem_append_left _ h.current)
  have calculates (u : SPFVertex ε) (memU : u.lsa ∈ db) (leads : ∃ c, Leads db rec c u.vertexId)
      (outside : s.status u.vertexId ≠ .inSPFTree) (d : Nat) :
      ∃ w, spfNexthopCalculation X root v u (linkOf rec) d = some w := by
    obtain ⟨exits, calculated⟩ := exist u memU leads outside
    exact ⟨{ u with exits, distanceFromRoot := d }, by simp [spfNexthopCalculation, calculated]⟩
  obtain ⟨passes, -⟩ | ⟨w_lsa, memW, c, small, considers, distance, leads⟩ :=
    examine_cases X symmetric member (h.rest rec mem_cons_self) (h.fits symmetric)
  · exact ⟨s, passes s⟩
  have here : ∃ c, Leads db rec c w_lsa.linkStateId := ⟨c, (leads c _).mpr ⟨rfl, rfl⟩⟩
  rw [considers, considerLSA, distance]
  cases status : s.status w_lsa.linkStateId with
  | inSPFTree => exact ⟨s, rfl⟩
  | notExplored =>
    have outside : s.status w_lsa.linkStateId ≠ .inSPFTree := status ▸ by decide
    obtain ⟨w, calculated⟩ := calculates { lsa := w_lsa, exits := X.fresh } memW here outside
      (v.distanceFromRoot + c)
    exact ⟨_, by simp only [some_bind, calculated]; rfl⟩
  | candidate =>
    obtain ⟨cw, found⟩ := find_isSome ((h.waiting _).mp status)
    have memC : cw.lsa ∈ db := h.members cw (mem_append_right _ (mem_of_find?_eq_some found))
    have outside : s.status w_lsa.linkStateId ≠ .inSPFTree := status ▸ by decide
    have id := (modify_spec found).1
    simp only [some_bind, found]
    split
    case isTrue => exact ⟨s, rfl⟩
    case isFalse =>
      split
      case isTrue =>
        obtain ⟨w, calculated⟩ := calculates { lsa := w_lsa, exits := X.fresh } memW here outside
          (v.distanceFromRoot + c)
        exact ⟨_, by simp only [calculated]; rfl⟩
      case isFalse =>
        obtain ⟨w, calculated⟩ := calculates cw memC (id ▸ here) (id ▸ outside)
          (v.distanceFromRoot + c)
        exact ⟨_, by simp only [calculated]; rfl⟩

theorem Searching.examineAll_returns (h : Searching db root v todo tree s)
    (symmetric : Symmetric db)
    (total : ExitRules.Total X) :
    ∃ t, todo.foldlM (GlobalRouteManagerImpl.examine X db root v) s = some t := by
  induction todo generalizing s with
  | nil => exact ⟨s, rfl⟩
  | cons rec todo ih =>
    obtain ⟨m, first⟩ := h.examine_returns symmetric fun u _ _ _ => total root v u _
    obtain ⟨t, later⟩ := ih (h.examine symmetric first)
    refine ⟨t, ?_⟩
    rw [foldlM_cons, first]
    exact later

/-- Each round of the main loop adds a vertex to the tree. -/
theorem Searching.loop_returns (h : Searching db root v v.lsa.records tree s)
    (symmetric : Symmetric db) (total : ExitRules.Total X)
    (enough : db.length < rounds + tree.length) :
    ∃ popped, spfLoop X db root rounds v s = some popped := by
  induction rounds generalizing v s tree with
  | zero =>
    have short := h.length_le
    omega
  | succ rounds ih =>
    obtain ⟨t, next⟩ := h.examineAll_returns symmetric total
    have done := h.examineAll symmetric next
    rw [spfLoop, spfNext, next]
    simp only [some_bind]
    cases candidates : t.candidate with
    | nil => exact ⟨[], rfl⟩
    | cons w rest =>
      have longer : db.length < rounds + (tree ++ [w]).length := by
        rw [length_append, length_singleton]
        omega
      obtain ⟨later, run⟩ := ih (done.pop symmetric candidates) longer
      exact ⟨w :: later, by simp [run]⟩

/-! ## The result -/

/-- Whatever is done with the exits, the main loop ends and computes the shortest paths. -/
theorem computes_shortest_paths (X : ExitRules ε) (total : ExitRules.Total X)
    {db : GlobalRouteManagerLSDB} (symmetric : Symmetric db) {root : GlobalRoutingLSA}
    (member : root ∈ db) {rounds : Nat} (enough : db.length ≤ rounds) :
    ∃ popped, spfCalculate X db rounds root.linkStateId = some popped ∧
      (popped.map (·.vertexId)).Nodup ∧
      popped.Pairwise (fun a b => a.distanceFromRoot ≤ b.distanceFromRoot) ∧
      (∀ id, (∃ v ∈ popped, v.vertexId = id) ↔
        id ≠ root.linkStateId ∧ ∃ d, Walk (Edge db) root.linkStateId id d) ∧
      ∀ v ∈ popped, IsLeast
        {d | Walk (Edge db) root.linkStateId v.vertexId d} v.distanceFromRoot := by
  have start := searching_start X symmetric member
  have more : db.length < rounds + [rootVertex X root].length := Nat.lt_succ_of_le enough
  obtain ⟨popped, run⟩ := start.loop_returns symmetric total more
  obtain ⟨u, t, final, empty⟩ := start.loop symmetric run
  have undone (u' c id) : ¬ (u' = u.vertexId ∧ ∃ rec ∈ ([] : List SPFRecord), Leads db rec c id) :=
    fun ⟨_, _, mem, _⟩ => absurd mem List.not_mem_nil
  have nodup := final.ids
  rw [empty, List.append_nil, List.singleton_append, List.map_cons] at nodup
  obtain ⟨fresh, distinct⟩ := List.nodup_cons.mp nodup
  refine ⟨popped, ?_, distinct, (List.pairwise_cons.mp final.inOrder).2, fun id => ?_,
    fun v mem => ?_⟩
  · rw [spfCalculate, getLSA_spec symmetric member]
    exact run
  · have reached := final.frontier.complete undone (fun w d ⟨_, mem, _⟩ => by
      rw [empty] at mem
      exact absurd mem List.not_mem_nil) (v := id)
    rw [reached]
    constructor
    · rintro ⟨v, mem, rfl⟩
      refine ⟨fun same => fresh ?_, _, v, List.mem_cons_of_mem _ mem, rfl, rfl⟩
      have inside := List.mem_map_of_mem (f := fun v : SPFVertex ε => v.vertexId) mem
      rwa [same] at inside
    · rintro ⟨other, d, v, mem, rfl, rfl⟩
      obtain rfl | mem := List.mem_cons.mp mem
      · exact absurd rfl other
      · exact ⟨v, mem, rfl⟩
  · exact final.frontier.isLeast ⟨v, List.mem_cons_of_mem _ mem, rfl, rfl⟩

/-- Two routers with a link between them, and a third one beyond a network. -/
def smallDatabase : GlobalRouteManagerLSDB :=
  [{ lsType := .routerLSA, linkStateId := 1,
     linkRecords := [⟨.pointToPoint, 2, 11, 4⟩, ⟨.stubNetwork, 12, 255, 4⟩] },
   { lsType := .routerLSA, linkStateId := 2,
     linkRecords := [⟨.pointToPoint, 1, 12, 4⟩, ⟨.transitNetwork, 20, 20, 7⟩] },
   { lsType := .routerLSA, linkStateId := 3, linkRecords := [⟨.transitNetwork, 20, 21, 1⟩] },
   { lsType := .networkLSA, linkStateId := 20, attachedRouters := [20, 21] }]

/-- Exits that are not looked at. -/
def noExits : ExitRules Unit := ⟨(), fun _ _ _ _ => some (), fun _ _ => ()⟩

theorem smallDatabase_symmetric : Symmetric smallDatabase := by
  refine ⟨?_, ?_, ?_, ?_, ?_, ?_, ?_⟩ <;> decide

theorem computes_shortest_paths_small :
    ∃ popped, spfCalculate noExits smallDatabase 4 1 = some popped ∧
      (popped.map (·.vertexId)).Nodup ∧
      popped.Pairwise (fun a b => a.distanceFromRoot ≤ b.distanceFromRoot) ∧
      (∀ id, (∃ v ∈ popped, v.vertexId = id) ↔ id ≠ 1 ∧ ∃ d, Walk (Edge smallDatabase) 1 id d) ∧
      ∀ v ∈ popped, IsLeast {d | Walk (Edge smallDatabase) 1 v.vertexId d} v.distanceFromRoot :=
  computes_shortest_paths noExits (fun _ _ _ _ => ⟨(), rfl⟩) smallDatabase_symmetric
    List.mem_cons_self (Nat.le_refl 4)

example : (spfCalculate noExits smallDatabase 4 1).map
    (·.map fun v => (v.vertexId, v.distanceFromRoot)) =
    some [(2, 4), (20, 11), (3, 11)] := by decide

end GlobalRouteManagerImpl

end Ns3
