import Ns3.Internet.GlobalRouting.OneLink
import Ns3.Internet.Ipv4GlobalRouting

/-!
# The routes that are installed

`SPFCalculate` installs routes at the root: to the addresses of a router and to a network when
their vertex is popped, and to the stub networks when the tree is complete. A root with a single
link gets a default route instead.
-/

namespace Ns3.GlobalRouteManagerImpl

open Ipv4GlobalRouting (addHostRouteTo addNetworkRouteTo)

/-! ## The routes of a vertex -/

/-- The loop over the exits of a vertex: a route for each one, unless its interface is negative. -/
def addExits (add : Ipv4Address → BitVec 32 → Ipv4GlobalRouting → Ipv4GlobalRouting)
    (exits : List NodeExit) (gr : Ipv4GlobalRouting) : Ipv4GlobalRouting :=
  exits.foldl (fun gr exit =>
    if exit.2 ≥ 0 then add (.ofNat 32 exit.1) (.ofInt 32 exit.2) gr else gr) gr

/-- `SPFIntraAddRouter`. Without a node of the root nothing is added. -/
def spfIntraAddRouter (node : RootNode) (v : SPFVertex RootExits) (gr : Ipv4GlobalRouting) :
    Ipv4GlobalRouting :=
  if node.interfaces.isNone then gr
  else v.lsa.linkRecords.foldl (fun gr lr =>
    if lr.linkType ≠ .pointToPoint then gr
    else addExits (addHostRouteTo (.ofNat 32 lr.linkData)) v.exits.ecmpRootExits gr) gr

/-- `SPFIntraAddTransit`. -/
def spfIntraAddTransit (node : RootNode) (v : SPFVertex RootExits) (gr : Ipv4GlobalRouting) :
    Ipv4GlobalRouting :=
  if node.interfaces.isNone then gr
  else
    let tempmask := BitVec.ofNat 32 v.lsa.networkLSANetworkMask
    let tempip := BitVec.ofNat 32 v.lsa.linkStateId &&& tempmask
    addExits (addNetworkRouteTo tempip tempmask) v.exits.ecmpRootExits gr

/-- `SPFIntraAddStub`. -/
def spfIntraAddStub (node : RootNode) (root : GlobalRoutingLSA) (l : GlobalRoutingLinkRecord)
    (v : SPFVertex RootExits) (gr : Ipv4GlobalRouting) : Ipv4GlobalRouting :=
  if v.vertexId = root.linkStateId then gr
  else if node.interfaces.isNone then gr
  else
    let tempmask := BitVec.ofNat 32 l.linkData
    let tempip := BitVec.ofNat 32 l.linkId &&& tempmask
    addExits (addNetworkRouteTo tempip tempmask) v.exits.ecmpRootExits gr

/-! ## The whole calculation -/

/-- What the main loop of `SPFCalculate` adds for a vertex that is popped. -/
def addVertex (node : RootNode) (profile : BuildProfile) (gr : Ipv4GlobalRouting)
    (v : SPFVertex RootExits) : Option Ipv4GlobalRouting :=
  match v.vertexType with
  | .router => some (spfIntraAddRouter node v gr)
  | .network => some (spfIntraAddTransit node v gr)
  | .unknown => do
      nsAssert profile false
      return gr

/-- The children of a vertex, as `SPFVertexAddParent` has added them: each vertex that is popped
is added to its parents. -/
def children (popped : List (SPFVertex RootExits)) (v : SPFVertex RootExits) :
    List (SPFVertex RootExits) :=
  popped.flatMap fun w => (w.exits.parents.filter (· = v.vertexId)).map fun _ => w

/-- The loop of `SPFProcessStubs` over the link records of a router. -/
def addStubs (node : RootNode) (root : GlobalRoutingLSA) (v : SPFVertex RootExits)
    (gr : Ipv4GlobalRouting) : Ipv4GlobalRouting :=
  if v.vertexType = .router then
    v.lsa.linkRecords.foldl (fun gr l =>
      if l.linkType = .stubNetwork then spfIntraAddStub node root l v gr else gr) gr
  else gr

/-- `SPFProcessStubs`, with a bound on the depth: which vertices are processed, and the routes. -/
def spfProcessStubs (node : RootNode) (root : GlobalRoutingLSA)
    (popped : List (SPFVertex RootExits)) :
    Nat → SPFVertex RootExits → (Nat → Bool) × Ipv4GlobalRouting →
      Option ((Nat → Bool) × Ipv4GlobalRouting)
  | 0, _, _ => none
  | depth + 1, v, (processed, gr) =>
    (children popped v).foldlM (fun s w =>
      if s.1 w.vertexId then some s
      else (spfProcessStubs node root popped depth w s).map fun t =>
        (Function.update t.1 w.vertexId true, t.2)) (processed, addStubs node root v gr)

/-- `SPFCalculate` with the routes that it installs, where `CheckForStubNode` does not replace it.
There are no external LSAs. -/
def spfRoutes (node : RootNode) (profile : BuildProfile) (hops rounds : Nat)
    (db : GlobalRouteManagerLSDB) (addr : Nat) : Option Ipv4GlobalRouting := do
  let root ← db.getLSA addr
  let popped ← spfCalculate (exitRules node profile hops) db rounds addr
  let gr ← popped.foldlM (addVertex node profile) {}
  let (_, gr) ← spfProcessStubs node root popped (rounds + 1)
    (rootVertex (exitRules node profile hops) root) (fun _ => false, gr)
  return gr

/-! ## `CheckForStubNode` -/

/-- The loop over the records: how many lead to another router or to a network, and the last of
them. -/
def countTransits (records : List GlobalRoutingLinkRecord) : Nat × Option GlobalRoutingLinkRecord :=
  records.foldl (fun (transits, transitLink) l =>
    if l.linkType = .transitNetwork then (transits + 1, some l)
    else if l.linkType = .pointToPoint then (transits + 1, some l)
    else (transits, transitLink)) (0, none)

/-- `CheckForStubNode`. -/
def checkForStubNode (node : RootNode) (db : GlobalRouteManagerLSDB) (addr : Nat)
    (gr : Ipv4GlobalRouting) : Option (Bool × Ipv4GlobalRouting) := do
  let rlsa ← db.getLSA addr
  let (transits, transitLink) := countTransits rlsa.linkRecords
  if transits = 0 then return (true, gr)
  if transits ≠ 1 then return (false, gr)
  let transitLink ← transitLink
  if transitLink.linkType ≠ .pointToPoint then return (false, gr)
  let w_lsa ← db.getLSA transitLink.linkId
  match w_lsa.linkRecords.find? fun lr =>
    lr.linkType = .pointToPoint && lr.linkId = rlsa.linkStateId with
  | none => return (false, gr)
  | some lr => return (true, addNetworkRouteTo 0 0 (.ofNat 32 lr.linkData)
      (.ofInt 32 (node.findOutgoingInterfaceId transitLink.linkData)) gr)

variable {node : RootNode} {profile : BuildProfile} {root : GlobalRoutingLSA}
  {popped : List (SPFVertex RootExits)} {v : SPFVertex RootExits} {e : NodeExit}
  {gr gr' gr'' : Ipv4GlobalRouting}

/-! ## What is added by one exit -/

/-- The route leads by this exit. -/
def LeadsBy (e : NodeExit) (r : Ipv4RoutingTableEntry) : Prop :=
  r.gateway = .ofNat 32 e.1 ∧ r.interface = .ofInt 32 e.2

/-- Routes by an exit are added to the table, if its interface is not negative. -/
structure Extends (e : NodeExit) (gr gr' : Ipv4GlobalRouting) : Prop where
  added : ∀ r ∈ gr'.hostRoutes ++ gr'.networkRoutes,
    r ∈ gr.hostRoutes ++ gr.networkRoutes ∨ 0 ≤ e.2 ∧ LeadsBy e r
  kept : ∀ r ∈ gr.hostRoutes, r ∈ gr'.hostRoutes

theorem Extends.refl (e : NodeExit) (gr : Ipv4GlobalRouting) : Extends e gr gr :=
  ⟨fun _ mem => .inl mem, fun _ mem => mem⟩

theorem Extends.trans (first : Extends e gr gr') (second : Extends e gr' gr'') :
    Extends e gr gr'' := by
  refine ⟨fun r mem => ?_, fun r mem => second.kept r (first.kept r mem)⟩
  obtain before | new := second.added r mem
  · exact first.added r before
  · exact .inr new

theorem extends_addHostRouteTo (known : 0 ≤ e.2) (dest : Ipv4Address) :
    Extends e gr (addHostRouteTo dest (.ofNat 32 e.1) (.ofInt 32 e.2) gr) := by
  refine ⟨fun r mem => ?_, fun r mem => List.mem_append_left _ mem⟩
  obtain mem | mem := List.mem_append.mp mem
  · obtain mem | new := List.mem_append.mp mem
    · exact .inl (List.mem_append_left _ mem)
    · rw [List.mem_singleton.mp new]
      exact .inr ⟨known, rfl, rfl⟩
  · exact .inl (List.mem_append_right _ mem)

theorem extends_addNetworkRouteTo (known : 0 ≤ e.2) (dest mask : BitVec 32) :
    Extends e gr (addNetworkRouteTo dest mask (.ofNat 32 e.1) (.ofInt 32 e.2) gr) := by
  refine ⟨fun r mem => ?_, fun r mem => mem⟩
  obtain mem | mem := List.mem_append.mp mem
  · exact .inl (List.mem_append_left _ mem)
  · obtain mem | new := List.mem_append.mp mem
    · exact .inl (List.mem_append_right _ mem)
    · rw [List.mem_singleton.mp new]
      exact .inr ⟨known, rfl, rfl⟩

theorem extends_addExits {add : Ipv4Address → BitVec 32 → Ipv4GlobalRouting → Ipv4GlobalRouting}
    (each : 0 ≤ e.2 → Extends e gr (add (.ofNat 32 e.1) (.ofInt 32 e.2) gr)) :
    Extends e gr (addExits add [e] gr) := by
  rw [addExits, List.foldl_cons, List.foldl_nil]
  split
  · exact each ‹_›
  · exact .refl e gr

theorem extends_foldl {β : Type} {f : Ipv4GlobalRouting → β → Ipv4GlobalRouting}
    (each : ∀ gr b, Extends e gr (f gr b)) (list : List β) (gr : Ipv4GlobalRouting) :
    Extends e gr (list.foldl f gr) := by
  induction list generalizing gr with
  | nil => exact .refl e gr
  | cons b rest ih => exact (each gr b).trans (ih (f gr b))

/-- A loop whose rounds return and extend the table that their state holds. -/
theorem extends_foldlM {σ β : Type} (table : σ → Ipv4GlobalRouting) {f : σ → β → Option σ}
    {list : List β}
    (each : ∀ b ∈ list, ∀ s, ∃ t, f s b = some t ∧ Extends e (table s) (table t)) (s : σ) :
    ∃ t, list.foldlM f s = some t ∧ Extends e (table s) (table t) := by
  induction list generalizing s with
  | nil => exact ⟨s, rfl, .refl e _⟩
  | cons b rest ih =>
    obtain ⟨m, step, first⟩ := each b List.mem_cons_self s
    obtain ⟨t, later, second⟩ := ih (fun b mem => each b (List.mem_cons_of_mem _ mem)) m
    refine ⟨t, ?_, first.trans second⟩
    rw [List.foldlM_cons, step]
    exact later

theorem extends_link (single : v.exits.ecmpRootExits = [e]) (gr : Ipv4GlobalRouting)
    (lr : GlobalRoutingLinkRecord) : Extends e gr
      (if lr.linkType ≠ .pointToPoint then gr
        else addExits (addHostRouteTo (.ofNat 32 lr.linkData)) v.exits.ecmpRootExits gr) := by
  split
  · exact .refl e gr
  · rw [single]
    exact extends_addExits fun known => extends_addHostRouteTo known _

theorem extends_router (single : v.exits.ecmpRootExits = [e]) (gr : Ipv4GlobalRouting) :
    Extends e gr (spfIntraAddRouter node v gr) := by
  unfold spfIntraAddRouter
  split
  · exact .refl e gr
  · exact extends_foldl (extends_link single) _ gr

theorem extends_transit (single : v.exits.ecmpRootExits = [e]) (gr : Ipv4GlobalRouting) :
    Extends e gr (spfIntraAddTransit node v gr) := by
  unfold spfIntraAddTransit
  split
  · exact .refl e gr
  · dsimp only
    rw [single]
    exact extends_addExits fun known => extends_addNetworkRouteTo known _ _

theorem extends_stubs (single : v.vertexId ≠ root.linkStateId → v.exits.ecmpRootExits = [e])
    (gr : Ipv4GlobalRouting) : Extends e gr (addStubs node root v gr) := by
  unfold addStubs
  split
  · refine extends_foldl (fun gr l => ?_) _ gr
    split
    · unfold spfIntraAddStub
      split
      · exact .refl e gr
      · split
        · exact .refl e gr
        · dsimp only
          rw [single ‹_›]
          exact extends_addExits fun known => extends_addNetworkRouteTo known _ _
    · exact .refl e gr
  · exact .refl e gr

/-- A neighbour's link has a route, if the interface is known. -/
theorem mem_spfIntraAddRouter (single : v.exits.ecmpRootExits = [e]) (known : 0 ≤ e.2)
    (some_ : node.interfaces.isNone = false) {lr : GlobalRoutingLinkRecord}
    (mem : lr ∈ v.lsa.linkRecords) (type : lr.linkType = .pointToPoint) (gr : Ipv4GlobalRouting) :
    ∃ r ∈ (spfIntraAddRouter node v gr).hostRoutes, LeadsBy e r := by
  rw [spfIntraAddRouter, some_, if_neg Bool.false_ne_true]
  obtain ⟨front, back, records⟩ := List.append_of_mem mem
  rw [records, List.foldl_append, List.foldl_cons]
  refine ⟨_, (extends_foldl (extends_link single) back _).kept
    (.createHostRouteTo (.ofNat 32 lr.linkData) (.ofNat 32 e.1) (.ofInt 32 e.2)) ?_, rfl, rfl⟩
  rw [if_neg (not_not.mpr type), single, addExits, List.foldl_cons, List.foldl_nil, if_pos known]
  exact List.mem_append_right _ List.mem_cons_self

theorem extends_vertex (known : v.vertexType ≠ .unknown) (single : v.exits.ecmpRootExits = [e])
    (gr : Ipv4GlobalRouting) :
    ∃ gr', addVertex node profile gr v = some gr' ∧ Extends e gr gr' := by
  unfold addVertex
  cases type : v.vertexType with
  | router => exact ⟨_, rfl, extends_router single gr⟩
  | network => exact ⟨_, rfl, extends_transit single gr⟩
  | unknown => exact absurd type known

/-! ## The stub networks -/

theorem mem_children {w : SPFVertex RootExits} :
    w ∈ children popped v ↔ w ∈ popped ∧ v.vertexId ∈ w.exits.parents := by
  simp only [children, List.mem_flatMap, List.mem_map, List.mem_filter, decide_eq_true_eq]
  constructor
  · rintro ⟨w', mem, p, ⟨parent, rfl⟩, rfl⟩
    exact ⟨mem, parent⟩
  · rintro ⟨mem, parent⟩
    exact ⟨w, mem, _, ⟨parent, rfl⟩, rfl⟩

/-- When children come after their parents, the recursion is no deeper than the tree is long. -/
theorem extends_spfProcessStubs {tree : List (SPFVertex RootExits)}
    (inside : ∀ w ∈ popped, w ∈ tree) (nodup : (tree.map (·.vertexId)).Nodup)
    (ordered : ∀ front u back, tree = front ++ u :: back → ∀ p ∈ u.exits.parents,
      ∃ x ∈ front, x.vertexId = p)
    (single : ∀ u ∈ tree, u.vertexId ≠ root.linkStateId → u.exits.ecmpRootExits = [e])
    {front back : List (SPFVertex RootExits)} {depth : Nat} (split_ : tree = front ++ v :: back)
    (deep : back.length < depth) (s : (Nat → Bool) × Ipv4GlobalRouting) :
    ∃ t, spfProcessStubs node root popped depth v s = some t ∧ Extends e s.2 t.2 := by
  induction depth generalizing v front back s with
  | zero => cases deep
  | succ depth ih =>
    have memV : v ∈ tree := split_ ▸ List.mem_append_right _ List.mem_cons_self
    have stubs := @extends_stubs node root v e (single v memV) s.2
    have each : ∀ w ∈ children popped v, ∀ s : (Nat → Bool) × Ipv4GlobalRouting, ∃ t,
        (if s.1 w.vertexId then some s
          else (spfProcessStubs node root popped depth w s).map fun t =>
            (Function.update t.1 w.vertexId true, t.2)) = some t ∧ Extends e s.2 t.2 := by
      intro w child s
      obtain ⟨mem, parent⟩ := mem_children.mp child
      split
      · exact ⟨s, rfl, .refl e _⟩
      -- a child comes later in the tree
      obtain ⟨before, after, at_⟩ := List.append_of_mem (inside w mem)
      obtain ⟨x, earlier, id⟩ := ordered before w after at_ v.vertexId parent
      obtain rfl : x = v := List.inj_on_of_nodup_map nodup
        (at_ ▸ List.mem_append_left _ earlier) memV id
      obtain ⟨before', between, rfl⟩ := List.append_of_mem earlier
      have shorter : after.length < depth := by
        have distinct := split_ ▸ List.Nodup.of_map _ nodup
        obtain ⟨-, later, apart⟩ := List.nodup_append.mp distinct
        rw [split_, List.append_assoc, List.cons_append, List.append_cons_inj_of_notMem
          (fun there => apart x there x List.mem_cons_self rfl)
          (List.nodup_cons.mp later).1] at at_
        rw [at_.2.2, List.length_append, List.length_cons] at deep
        omega
      obtain ⟨t, returns, more⟩ := ih at_ shorter s
      exact ⟨(Function.update t.1 w.vertexId true, t.2), by rw [returns]; rfl, more⟩
    obtain ⟨t, loop, more⟩ := extends_foldlM Prod.snd each (s.1, addStubs node root v s.2)
    exact ⟨t, loop, stubs.trans more⟩

end Ns3.GlobalRouteManagerImpl
