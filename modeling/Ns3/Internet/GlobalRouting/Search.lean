import Ns3.Internet.GlobalRouting.Basic
import Ns3.Library.ShortestPath
import Mathlib.Data.List.Perm.Basic
import Mathlib.Data.List.Nodup

/-!
# The search for shortest paths

The link state database is a graph of routers and networks. The statuses of the LSAs and the
sorted queue of candidates keep the frontier of a search for shortest paths in it, so the
vertices are popped in the order of their distances, each once and at its least distance.
-/

namespace Ns3

open ShortestPath List Option

/-- The edges of the database: a link record of a router leads to its neighbour or to a
network at its metric, and a network leads to its attached routers at no cost. -/
inductive Edge (db : GlobalRouteManagerLSDB) : Nat → Nat → Nat → Prop
  | link {r : GlobalRoutingLSA} {l : GlobalRoutingLinkRecord} : r ∈ db → r.lsType = .routerLSA →
      l ∈ r.linkRecords → l.linkType = .pointToPoint ∨ l.linkType = .transitNetwork →
      Edge db r.linkStateId l.metric l.linkId
  | attached {n r : GlobalRoutingLSA} {addr : Nat} : n ∈ db → n.lsType = .networkLSA →
      addr ∈ n.attachedRouters → db.getLSAByLinkData addr = some r →
      Edge db n.linkStateId 0 r.linkStateId

/-- A database with symmetric link records: each point-to-point record has a record back, each
transit record names a network that has its router attached, and each attached router of a
network has a transit record to it. -/
structure Symmetric (db : GlobalRouteManagerLSDB) : Prop where
  ids : (db.map (·.linkStateId)).Nodup
  few : db.length < 2 ^ 16
  kinds : ∀ lsa ∈ db, lsa.lsType = .routerLSA ∨ lsa.lsType = .networkLSA
  records : ∀ r ∈ db, ∀ l ∈ r.linkRecords, l.linkType ≠ .unknown ∧ l.metric < 2 ^ 16
  pointToPoint : ∀ r ∈ db, ∀ l ∈ r.linkRecords, l.linkType = .pointToPoint →
    ∃ w ∈ db, w.lsType = .routerLSA ∧ w.linkStateId = l.linkId ∧
      ∃ back ∈ w.linkRecords, back.linkType = .pointToPoint ∧ back.linkId = r.linkStateId
  transit : ∀ r ∈ db, ∀ l ∈ r.linkRecords, l.linkType = .transitNetwork →
    ∃ n ∈ db, n.lsType = .networkLSA ∧ n.linkStateId = l.linkId ∧ l.linkData ∈ n.attachedRouters
  attached : ∀ n ∈ db, n.lsType = .networkLSA → ∀ addr ∈ n.attachedRouters,
    ∃ r ∈ db, r.lsType = .routerLSA ∧ db.getLSAByLinkData addr = some r ∧
      ∃ l ∈ r.linkRecords, l.linkType = .transitNetwork ∧ l.linkId = n.linkStateId ∧
        l.linkData = addr

namespace GlobalRouteManagerImpl

variable {ε : Type} {X : ExitRules ε} {db : GlobalRouteManagerLSDB} {root w_lsa : GlobalRoutingLSA}
  {v w : SPFVertex ε} {s t : SPFState ε} {tree : List (SPFVertex ε)} {todo : List SPFRecord}
  {rec : SPFRecord}

/-! ## Vertices and their records -/

/-- Where a record leads, and at which cost. -/
def Leads (db : GlobalRouteManagerLSDB) (rec : SPFRecord) (c id : Nat) : Prop :=
  match rec with
  | .link l => (l.linkType = .pointToPoint ∨ l.linkType = .transitNetwork) ∧ c = l.metric ∧
    id = l.linkId
  | .attached addr => c = 0 ∧ ∃ r, db.getLSAByLinkData addr = some r ∧ id = r.linkStateId

theorem eq_of_id (symmetric : Symmetric db) {a b : GlobalRoutingLSA} (memA : a ∈ db) (memB : b ∈ db)
    (same : a.linkStateId = b.linkStateId) : a = b :=
  inj_on_of_nodup_map symmetric.ids memA memB same

/-- The edges that leave an LSA are its records. -/
theorem edge_iff (symmetric : Symmetric db) {lsa : GlobalRoutingLSA} (mem : lsa ∈ db) {c id : Nat} :
    Edge db lsa.linkStateId c id ↔ ∃ rec ∈ lsa.records, Leads db rec c id := by
  constructor
  · intro edge
    generalize from_ : lsa.linkStateId = u at edge
    cases edge with
    | @link r l member kind here type =>
      obtain rfl := eq_of_id symmetric mem member from_
      refine ⟨.link l, ?_, type, rfl, rfl⟩
      rw [GlobalRoutingLSA.records, kind]
      exact List.mem_map_of_mem here
    | @attached n r addr member kind here found =>
      obtain rfl := eq_of_id symmetric mem member from_
      refine ⟨.attached addr, ?_, rfl, r, found, rfl⟩
      rw [GlobalRoutingLSA.records, kind]
      exact List.mem_map_of_mem here
  · rintro ⟨rec, here, leads⟩
    rw [GlobalRoutingLSA.records] at here
    obtain kind | kind := symmetric.kinds lsa mem
    · simp only [kind] at here
      obtain ⟨l, member, rfl⟩ := List.mem_map.mp here
      obtain ⟨type, rfl, rfl⟩ := leads
      exact .link mem kind member type
    · simp only [kind] at here
      obtain ⟨addr, member, rfl⟩ := List.mem_map.mp here
      obtain ⟨rfl, r, found, rfl⟩ := leads
      exact .attached mem kind member found

/-! ## The candidate queue -/

/-- The order of the candidates: nearer ones first, and networks before routers. -/
def rank (v : SPFVertex ε) : ℕ ×ₗ ℕ :=
  toLex (v.distanceFromRoot, if v.vertexType = .network then 0 else 1)

theorem vertexType_cases (symmetric : Symmetric db) (mem : v.lsa ∈ db) :
    v.vertexType = .router ∨ v.vertexType = .network := by
  rw [SPFVertex.vertexType]
  obtain kind | kind := symmetric.kinds v.lsa mem
  · exact .inl (by rw [kind])
  · exact .inr (by rw [kind])

theorem vertexType_network : v.vertexType = .network ↔ v.lsa.lsType = .networkLSA := by
  rw [SPFVertex.vertexType]
  cases v.lsa.lsType <;> simp

theorem compare_spec (symmetric : Symmetric db) (memV : v.lsa ∈ db) (memW : w.lsa ∈ db) :
    SortedInsert.Compares CandidateQueue.compareSPFVertex rank v w := by
  rw [SortedInsert.Compares, CandidateQueue.compareSPFVertex, rank, rank, Prod.Lex.toLex_lt_toLex]
  split
  case isTrue nearer => simp [nearer]
  case isFalse notNearer =>
    split
    case isTrue same =>
      obtain typeV | typeV := vertexType_cases symmetric memV <;>
        obtain typeW | typeW := vertexType_cases symmetric memW <;>
          simp [same, typeV, typeW]
    case isFalse apart => simp [notNearer, apart]

variable {candidates : List (SPFVertex ε)}

/-- Where `Find` finds a vertex, and what is changed there. -/
theorem modify_spec {addr : Nat} {cw : SPFVertex ε}
    (found : CandidateQueue.find candidates addr = some cw) :
    cw.vertexId = addr ∧ ∃ front back, candidates = front ++ cw :: back ∧
      ∀ change, CandidateQueue.modify addr change candidates = front ++ change cw :: back := by
  induction candidates with
  | nil => cases found
  | cons u rest ih =>
    rw [CandidateQueue.find, find?_cons] at found
    by_cases here : u.vertexId = addr
    · simp only [here, decide_true, some.injEq] at found
      obtain rfl := found
      exact ⟨here, [], rest, rfl, fun change => by rw [CandidateQueue.modify, if_pos here]; rfl⟩
    · simp only [here, decide_false] at found
      obtain ⟨id, front, back, rfl, modified⟩ := ih found
      refine ⟨id, u :: front, back, rfl, fun change => ?_⟩
      rw [CandidateQueue.modify, if_neg here, modified]
      rfl

theorem find_isSome {addr : Nat}
    (mem : ∃ u ∈ candidates, u.vertexId = addr) :
    ∃ cw, CandidateQueue.find candidates addr = some cw := by
  obtain ⟨u, there, id⟩ := mem
  refine isSome_iff_exists.mp (find?_isSome.mpr ⟨u, there, ?_⟩)
  exact decide_eq_true id

/-! ## The invariant -/

/-- The ids and distances of some vertices. -/
def At (vertices : List (SPFVertex ε)) (id d : Nat) : Prop :=
  ∃ u ∈ vertices, u.vertexId = id ∧ u.distanceFromRoot = d

/-- The largest metric. -/
def maxMetric : Nat := 2 ^ 16 - 1

/-- While the records `todo` of `v` remain to be examined: `v` is the last vertex of the tree. -/
structure Searching (db : GlobalRouteManagerLSDB) (root : GlobalRoutingLSA) (v : SPFVertex ε)
    (todo : List SPFRecord) (tree : List (SPFVertex ε)) (s : SPFState ε) : Prop where
  members : ∀ u ∈ tree ++ s.candidate, u.lsa ∈ db
  ids : ((tree ++ s.candidate).map (·.vertexId)).Nodup
  inTree : ∀ id, s.status id = .inSPFTree ↔ ∃ u ∈ tree, u.vertexId = id
  waiting : ∀ id, s.status id = .candidate ↔ ∃ u ∈ s.candidate, u.vertexId = id
  sorted : s.candidate.Pairwise fun a b => rank a ≤ rank b
  current : v ∈ tree
  rest : ∀ rec ∈ todo, rec ∈ v.lsa.records
  frontier : Frontier (Edge db) root.linkStateId (At tree) (At s.candidate)
    fun u c id => u = v.vertexId ∧ ∃ rec ∈ todo, Leads db rec c id
  behind : ∀ u ∈ tree, u.distanceFromRoot ≤ v.distanceFromRoot
  ahead : ∀ u ∈ s.candidate, v.distanceFromRoot ≤ u.distanceFromRoot
  inOrder : tree.Pairwise fun a b => a.distanceFromRoot ≤ b.distanceFromRoot
  near : v.distanceFromRoot + maxMetric ≤ tree.length * maxMetric
  bound : ∀ u ∈ s.candidate, u.distanceFromRoot ≤ tree.length * maxMetric

theorem Searching.length_le (h : Searching db root v todo tree s) : tree.length ≤ db.length := by
  have nodup := h.ids
  rw [map_append] at nodup
  have nodup := (nodup_append.mp nodup).1
  have inside : (tree.map (·.vertexId)).Subset (db.map (·.linkStateId)) := by
    intro id mem
    obtain ⟨u, there, rfl⟩ := List.mem_map.mp mem
    exact List.mem_map_of_mem (h.members u (mem_append_left _ there))
  have short := (subperm_of_subset nodup inside).length_le
  rwa [length_map, length_map] at short

theorem Searching.fits (h : Searching db root v todo tree s) (symmetric : Symmetric db) :
    v.distanceFromRoot + maxMetric < 2 ^ 32 := by
  have near := h.near
  have short := h.length_le
  have few := symmetric.few
  unfold maxMetric at *
  omega

/-! ## One record -/

theorem Searching.distance_eq (h : Searching db root v todo tree s) {d : Nat}
    (mem : At tree v.vertexId d) : d = v.distanceFromRoot := by
  obtain ⟨u, there, id, rfl⟩ := mem
  have nodup := h.ids
  rw [map_append] at nodup
  rw [inj_on_of_nodup_map (nodup_append.mp nodup).1 there h.current id]

/-- A record that leads nowhere new changes nothing. -/
theorem Searching.skip (h : Searching db root v (rec :: todo) tree s)
    (known : ∀ c id, Leads db rec c id → (∃ e, At tree id e) ∨
      ∃ e, e ≤ v.distanceFromRoot + c ∧ At s.candidate id e) : Searching db root v todo tree s := by
  refine ⟨h.members, h.ids, h.inTree, h.waiting, h.sorted, h.current,
    fun rec' mem => h.rest rec' (mem_cons_of_mem rec mem), ?_, h.behind, h.ahead, h.inOrder,
    h.near, h.bound⟩
  refine h.frontier.relax (fun w d mem => .inl mem) (fun w d mem => ⟨d, Nat.le_refl d, mem⟩) ?_
  rintro u d c w mem ⟨rfl, rec', there, leads⟩
  obtain rfl := h.distance_eq mem
  obtain rfl | there := mem_cons.mp there
  · exact .inr (known c w leads)
  · exact .inl ⟨rfl, rec', there, leads⟩

/-- The link record among the two kinds of records. -/
def linkOf : SPFRecord → Option GlobalRoutingLinkRecord
  | .link l => some l
  | .attached _ => none

/-- How the vertex `w` comes among the candidates, when the others stay what they were. -/
inductive Change (X : ExitRules ε) (root : GlobalRoutingLSA) (v : SPFVertex ε) (rec : SPFRecord)
    (s : SPFState ε) (w : SPFVertex ε) (others : List (SPFVertex ε)) : Prop
  | new : s.candidate.Perm others → s.status w.vertexId = .notExplored →
      X.nexthop root v { lsa := w.lsa, exits := X.fresh } (linkOf rec) = some w.exits →
      Change X root v rec s w others
  | merged {cw : SPFVertex ε} {e : ε} : s.candidate.Perm (cw :: others) → cw.lsa = w.lsa →
      cw.distanceFromRoot = w.distanceFromRoot →
      X.nexthop root v { lsa := w.lsa, exits := X.fresh } (linkOf rec) = some e →
      w.exits = X.merge cw.exits e → Change X root v rec s w others
  | nearer {cw : SPFVertex ε} : s.candidate.Perm (cw :: others) → cw.lsa = w.lsa →
      w.distanceFromRoot < cw.distanceFromRoot → X.nexthop root v cw (linkOf rec) = some w.exits →
      Change X root v rec s w others

/-- A record leads to the vertex `w`, which becomes a candidate, or gets a path that is as
short or shorter. -/
structure Improves (X : ExitRules ε) (db : GlobalRouteManagerLSDB) (root : GlobalRoutingLSA)
    (v : SPFVertex ε) (rec : SPFRecord) (s t : SPFState ε) (w : SPFVertex ε) (c : Nat)
    (others : List (SPFVertex ε)) : Prop where
  member : w.lsa ∈ db
  leads : ∀ c' id, Leads db rec c' id ↔ c' = c ∧ id = w.vertexId
  small : c ≤ maxMetric
  distance : w.distanceFromRoot = v.distanceFromRoot + c
  edge : Edge db v.vertexId c w.vertexId
  change : Change X root v rec s w others
  after : t.candidate.Perm (w :: others)
  sorted : t.candidate.Pairwise fun a b => rank a ≤ rank b
  status : t.status = Function.update s.status w.vertexId .candidate

theorem Change.before {others : List (SPFVertex ε)} (h : Change X root v rec s w others) :
    s.candidate.Perm others ∧ s.status w.vertexId = .notExplored ∨
      ∃ cw, s.candidate.Perm (cw :: others) ∧ cw.vertexId = w.vertexId ∧
        w.distanceFromRoot ≤ cw.distanceFromRoot := by
  cases h with
  | new same unexplored => exact .inl ⟨same, unexplored⟩
  | merged same lsa equal =>
    exact .inr ⟨_, same, congrArg GlobalRoutingLSA.linkStateId lsa, equal.ge⟩
  | nearer same lsa less => exact .inr ⟨_, same, congrArg GlobalRoutingLSA.linkStateId lsa, less.le⟩

theorem Searching.improve {c : Nat} {others : List (SPFVertex ε)}
    (h : Searching db root v (rec :: todo) tree s)
    (improves : Improves X db root v rec s t w c others) :
    Searching db root v todo tree t := by
  obtain ⟨member, leads, small, distance, edge, change, after, sorted, status⟩ := improves
  have before := change.before
  have old (u : SPFVertex ε) (mem : u ∈ others) : u ∈ s.candidate := by
    obtain ⟨same, -⟩ | ⟨cw, same, -⟩ := before
    · exact same.mem_iff.mpr mem
    · exact same.mem_iff.mpr (mem_cons_of_mem cw mem)
  have new (u : SPFVertex ε) (mem : u ∈ t.candidate) : u = w ∨ u ∈ others :=
    mem_cons.mp (after.mem_iff.mp mem)
  have fresh : s.status w.vertexId ≠ .inSPFTree := by
    obtain ⟨-, unexplored⟩ | ⟨cw, same, id, -⟩ := before
    · exact unexplored ▸ nofun
    · have waits := (h.waiting w.vertexId).mpr ⟨cw, same.mem_iff.mpr mem_cons_self, id⟩
      exact waits ▸ nofun
  have isTree (id : Nat) : t.status id = .inSPFTree ↔ s.status id = .inSPFTree := by
    rw [status, Function.update_apply]
    split
    case isTrue same => exact ⟨nofun, fun inside => absurd (same ▸ inside) fresh⟩
    case isFalse => exact Iff.rfl
  have isWaiting (id : Nat) : t.status id = .candidate ↔ id = w.vertexId ∨
    s.status id = .candidate := by
    rw [status, Function.update_apply]
    split
    case isTrue same => exact ⟨fun _ => .inl same, fun _ => rfl⟩
    case isFalse apart => exact ⟨.inr, fun waits => waits.resolve_left apart⟩
  refine ⟨?_, ?_, fun id => (isTree id).trans (h.inTree id), fun id => ?_, sorted, h.current,
    fun rec' mem => h.rest rec' (mem_cons_of_mem rec mem), ?_, h.behind,
      fun u mem => ?_, h.inOrder,
    h.near, fun u mem => ?_⟩
  · intro u mem
    obtain inside | mem := mem_append.mp mem
    · exact h.members u (mem_append_left _ inside)
    · obtain rfl | mem := new u mem
      · exact member
      · exact h.members u (mem_append_right _ (old u mem))
  · have moved : ((tree ++ t.candidate).map (·.vertexId)).Perm
        (w.vertexId :: (tree ++ others).map (·.vertexId)) :=
      ((after.append_left tree).trans perm_middle).map _
    refine moved.nodup_iff.mpr ?_
    obtain ⟨same, unexplored⟩ | ⟨cw, same, id, -⟩ := before
    · have was := ((same.append_left tree).map (·.vertexId)).nodup_iff.mp h.ids
      refine nodup_cons.mpr ⟨fun mem => ?_, was⟩
      obtain ⟨u, there, id⟩ := List.mem_map.mp mem
      obtain inside | waits := mem_append.mp there
      · exact fresh ((h.inTree _).mpr ⟨u, inside, id⟩)
      · have candidate := (h.waiting _).mpr ⟨u, old u waits, id⟩
        exact absurd (unexplored.symm.trans candidate) nofun
    · have was := ((same.append_left tree).trans perm_middle).map (·.vertexId)
      have nodup := was.nodup_iff.mp h.ids
      rw [map_cons, id] at nodup
      exact nodup
  · rw [isWaiting, h.waiting]
    constructor
    · rintro (rfl | ⟨u, mem, rfl⟩)
      · exact ⟨w, after.mem_iff.mpr mem_cons_self, rfl⟩
      · obtain ⟨same, -⟩ | ⟨cw, same, id, -⟩ := before
        · exact ⟨u, after.mem_iff.mpr (mem_cons_of_mem w (same.mem_iff.mp mem)), rfl⟩
        · obtain rfl | mem := mem_cons.mp (same.mem_iff.mp mem)
          · exact ⟨w, after.mem_iff.mpr mem_cons_self, id.symm⟩
          · exact ⟨u, after.mem_iff.mpr (mem_cons_of_mem w mem), rfl⟩
    · rintro ⟨u, mem, rfl⟩
      obtain rfl | mem := new u mem
      · exact .inl rfl
      · exact .inr ⟨u, old u mem, rfl⟩
  · refine h.frontier.relax ?_ ?_ ?_
    · rintro id d ⟨u, mem, rfl, rfl⟩
      obtain rfl | mem := new u mem
      · rw [distance]
        exact .inr ((h.frontier.treeWalk _ _ ⟨v, h.current, rfl, rfl⟩).snoc edge)
      · exact .inl ⟨u, old u mem, rfl, rfl⟩
    · rintro id d ⟨u, mem, rfl, rfl⟩
      obtain ⟨same, -⟩ | ⟨cw, same, id, nearer⟩ := before
      · refine ⟨_, le_rfl, u, ?_, rfl, rfl⟩
        exact after.mem_iff.mpr (mem_cons_of_mem w (same.mem_iff.mp mem))
      · obtain rfl | mem := mem_cons.mp (same.mem_iff.mp mem)
        · exact ⟨_, nearer, w, after.mem_iff.mpr mem_cons_self, id.symm, rfl⟩
        · exact ⟨_, le_rfl, u, after.mem_iff.mpr (mem_cons_of_mem w mem), rfl, rfl⟩
    · rintro u d c' id mem ⟨rfl, rec', there, leads'⟩
      obtain rfl := h.distance_eq mem
      obtain rfl | there := mem_cons.mp there
      · obtain ⟨rfl, rfl⟩ := (leads c' id).mp leads'
        refine .inr (.inr ⟨_, le_rfl, w, ?_, rfl, distance⟩)
        exact after.mem_iff.mpr mem_cons_self
      · exact .inl ⟨rfl, rec', there, leads'⟩
  · obtain rfl | mem := new u mem
    · exact distance ▸ Nat.le_add_right _ _
    · exact h.ahead u (old u mem)
  · obtain rfl | mem := new u mem
    · rw [distance]
      exact (Nat.add_le_add_left small _).trans h.near
    · exact h.bound u (old u mem)

theorem getLSA_spec (symmetric : Symmetric db) (member : w_lsa ∈ db) :
    db.getLSA w_lsa.linkStateId = some w_lsa := by
  rw [GlobalRouteManagerLSDB.getLSA]
  obtain ⟨found, there⟩ := isSome_iff_exists.mp
    (find?_isSome.mpr ⟨w_lsa, member, decide_eq_true rfl⟩ :
      (db.find? fun lsa => lsa.linkStateId = w_lsa.linkStateId).isSome = true)
  have id : found.linkStateId = w_lsa.linkStateId := by simpa using find?_some there
  rw [there, eq_of_id symmetric (mem_of_find?_eq_some there) member id]

/-- Each record is passed over, or leads to one LSA of the database. -/
theorem examine_cases (X : ExitRules ε) (symmetric : Symmetric db) (member : v.lsa ∈ db)
    (here : rec ∈ v.lsa.records) (fits : v.distanceFromRoot + maxMetric < 2 ^ 32) :
    (∀ s, examine X db root v s rec = some s) ∧ (∀ c id, ¬ Leads db rec c id) ∨
    ∃ w_lsa ∈ db, ∃ c ≤ maxMetric,
      (∀ s, examine X db root v s rec = considerLSA X root v w_lsa (linkOf rec) s) ∧
      distanceThrough v (linkOf rec) = some (v.distanceFromRoot + c) ∧
      ∀ c' id, Leads db rec c' id ↔ c' = c ∧ id = w_lsa.linkStateId := by
  rw [GlobalRoutingLSA.records] at here
  obtain kind | kind := symmetric.kinds v.lsa member
  · simp only [kind] at here
    obtain ⟨l, there, rfl⟩ := List.mem_map.mp here
    obtain ⟨known, metric⟩ := symmetric.records v.lsa member l there
    have small : l.metric ≤ maxMetric := Nat.le_pred_of_lt metric
    have distance : distanceThrough v (linkOf (.link l)) =
      some (v.distanceFromRoot + l.metric) := by
      simp only [distanceThrough, kind, linkOf, map_some]
      rw [UInt32.add_of_lt (by omega)]
    cases type : l.linkType with
    | unknown => exact absurd type known
    | stubNetwork =>
      refine .inl ⟨fun s => by simp only [examine, type], fun c id leads => ?_⟩
      obtain wrong | wrong := leads.1
      · cases type.symm.trans wrong
      · cases type.symm.trans wrong
    | pointToPoint =>
      obtain ⟨w, mem, -, id, -⟩ := symmetric.pointToPoint v.lsa member l there type
      refine .inr ⟨w, mem, l.metric, small, fun s => ?_, distance, fun c' id' => ?_⟩
      · simp [examine, type, ← id, getLSA_spec symmetric mem, linkOf]
      · simp [Leads, type, id]
    | transitNetwork =>
      obtain ⟨w, mem, -, id, -⟩ := symmetric.transit v.lsa member l there type
      refine .inr ⟨w, mem, l.metric, small, fun s => ?_, distance, fun c' id' => ?_⟩
      · simp [examine, type, ← id, getLSA_spec symmetric mem, linkOf]
      · simp [Leads, type, id]
  · simp only [kind] at here
    obtain ⟨addr, there, rfl⟩ := List.mem_map.mp here
    obtain ⟨r, mem, -, found, -⟩ := symmetric.attached v.lsa member kind addr there
    refine .inr ⟨r, mem, 0, Nat.zero_le _, fun s => ?_, ?_, fun c' id' => ?_⟩
    · simp only [examine, found, linkOf]
    · simp [distanceThrough, kind]
    · simp [Leads, found]

/-- What `SPFNext` does with an LSA, when the calculation of the exits returns. -/
theorem considerLSA_cases {l : Option GlobalRoutingLinkRecord} {d : Nat}
    (distance : distanceThrough v l = some d)
    (returns : considerLSA X root v w_lsa l s = some t) :
    s.status w_lsa.linkStateId = .inSPFTree ∧ t = s ∨
    (s.status w_lsa.linkStateId = .notExplored ∧ ∃ w,
      spfNexthopCalculation X root v { lsa := w_lsa, exits := X.fresh } l d = some w ∧
      t.status = Function.update s.status w_lsa.linkStateId .candidate ∧
      t.candidate = CandidateQueue.push w s.candidate) ∨
    s.status w_lsa.linkStateId = .candidate ∧ ∃ cw,
      CandidateQueue.find s.candidate w_lsa.linkStateId = some cw ∧
      (cw.distanceFromRoot < d ∧ t = s ∨
      (cw.distanceFromRoot = d ∧ ∃ w,
        spfNexthopCalculation X root v { lsa := w_lsa, exits := X.fresh } l d = some w ∧
        t.status = s.status ∧ t.candidate = CandidateQueue.modify w_lsa.linkStateId
          (fun cw => { cw with exits := X.merge cw.exits w.exits }) s.candidate) ∨
      d < cw.distanceFromRoot ∧ ∃ w, spfNexthopCalculation X root v cw l d = some w ∧
        t.status = s.status ∧ t.candidate = CandidateQueue.reorder
          (CandidateQueue.modify w_lsa.linkStateId (fun _ => w) s.candidate)) := by
  rw [considerLSA, distance] at returns
  cases status : s.status w_lsa.linkStateId with
  | inSPFTree =>
    simp only [status, some.injEq] at returns
    exact .inl ⟨rfl, returns.symm⟩
  | notExplored =>
    simp only [status, bind_eq_bind, bind_some, Option.pure_def,
      bind_eq_some_iff, some.injEq] at returns
    obtain ⟨w, calculated, rfl⟩ := returns
    exact .inr (.inl ⟨rfl, w, calculated, rfl, rfl⟩)
  | candidate =>
    simp only [status, bind_eq_bind, bind_some, Option.pure_def,
      bind_eq_some_iff] at returns
    obtain ⟨cw, found, returns⟩ := returns
    refine .inr (.inr ⟨rfl, cw, found, ?_⟩)
    split at returns
    case isTrue nearer => exact .inl ⟨nearer, (some.inj returns).symm⟩
    case isFalse notNearer =>
      split at returns
      case isTrue same =>
        simp only [bind_eq_some_iff, some.injEq] at returns
        obtain ⟨w, calculated, rfl⟩ := returns
        exact .inr (.inl ⟨same, w, calculated, rfl, rfl⟩)
      case isFalse apart =>
        simp only [bind_eq_some_iff, some.injEq] at returns
        obtain ⟨w, calculated, rfl⟩ := returns
        exact .inr (.inr ⟨by omega, w, calculated, rfl, rfl⟩)

theorem push_sorted (symmetric : Symmetric db)
    (members : ∀ u ∈ candidates, u.lsa ∈ db) (member : w.lsa ∈ db)
    (sorted : candidates.Pairwise fun a b => rank a ≤ rank b) :
    (CandidateQueue.push w candidates).Pairwise fun a b => rank a ≤ rank b :=
  SortedInsert.insert_sorted (fun u mem => compare_spec symmetric member (members u mem)) sorted

theorem reorder_sorted (symmetric : Symmetric db)
    (members : ∀ u ∈ candidates, u.lsa ∈ db) :
    (CandidateQueue.reorder candidates).Pairwise fun a b => rank a ≤ rank b :=
  SortedInsert.sort_sorted fun u memU u' memU' => compare_spec symmetric (members u memU)
    (members u' memU')

theorem spfNexthopCalculation_eq {l : Option GlobalRoutingLinkRecord} {d : Nat} {u : SPFVertex ε}
    (returns : spfNexthopCalculation X root v u l d = some w) :
    w.lsa = u.lsa ∧ w.distanceFromRoot = d ∧ X.nexthop root v u l = some w.exits := by
  simp only [spfNexthopCalculation, bind_returns, pure_returns] at returns
  obtain ⟨exits, calculated, rfl⟩ := returns
  exact ⟨rfl, rfl, calculated⟩

/-- One round of the loop of `SPFNext` passes a record over, or finds a path to a vertex. -/
theorem Searching.examine_step (h : Searching db root v (rec :: todo) tree s)
    (symmetric : Symmetric db)
    (returns : GlobalRouteManagerImpl.examine X db root v s rec = some t) :
    (t = s ∧ ∀ c id, Leads db rec c id → (∃ u ∈ tree, u.vertexId = id) ∨
      ∃ u ∈ s.candidate, u.vertexId = id ∧ u.distanceFromRoot < v.distanceFromRoot + c) ∨
    ∃ w c others, Improves X db root v rec s t w c others := by
  have member := h.members v (mem_append_left _ h.current)
  have here := h.rest rec mem_cons_self
  obtain ⟨passes, nowhere⟩ | ⟨w_lsa, memW, c, small, considers, distance, leads⟩ :=
    examine_cases X symmetric member here (h.fits symmetric)
  · refine .inl ⟨some.inj (returns.symm.trans (passes s)), fun c id leads => ?_⟩
    exact absurd leads (nowhere c id)
  have edge : Edge db v.vertexId c w_lsa.linkStateId :=
    (edge_iff symmetric member).mpr ⟨rec, here, (leads c _).mpr ⟨rfl, rfl⟩⟩
  have waiting (u : SPFVertex ε) (mem : u ∈ s.candidate) : u.lsa ∈ db :=
    h.members u (mem_append_right _ mem)
  rw [considers] at returns
  obtain ⟨status, rfl⟩ | ⟨status, w, calculated, newStatus, pushed⟩ | ⟨status, cw, found, change⟩ :=
    considerLSA_cases distance returns
  · obtain ⟨u, inside, id⟩ := (h.inTree _).mp status
    refine .inl ⟨rfl, fun c' id' leads' => .inl ⟨u, inside, ?_⟩⟩
    rw [id, ((leads c' id').mp leads').2]
  · obtain ⟨lsa, d, exits⟩ := spfNexthopCalculation_eq calculated
    obtain rfl : w.lsa = w_lsa := lsa
    refine .inr ⟨w, c, s.candidate, memW, leads, small, d, edge,
      .new .rfl status exits, ?_, ?_, newStatus⟩
    · rw [pushed]
      exact SortedInsert.insert_perm _ w s.candidate
    · rw [pushed]
      exact push_sorted symmetric waiting memW h.sorted
  · obtain ⟨id, front, back, candidates, modified⟩ := modify_spec found
    have same : s.candidate.Perm (cw :: (front ++ back)) := by
      rw [candidates]
      exact perm_middle
    have memC : cw ∈ s.candidate := same.mem_iff.mpr mem_cons_self
    obtain rfl : cw.lsa = w_lsa := eq_of_id symmetric (waiting cw memC) memW id
    have unchanged : s.status = Function.update s.status cw.vertexId .candidate := by
      rw [SPFVertex.vertexId, ← status, Function.update_eq_self]
    obtain ⟨nearer, rfl⟩ | ⟨equal, w, calculated, newStatus, merged⟩ |
      ⟨less, w, calculated, newStatus, reordered⟩ := change
    · refine .inl ⟨rfl, fun c' id' leads' => .inr ⟨cw, memC, ?_, ?_⟩⟩
      · exact ((leads c' id').mp leads').2.symm
      · rw [((leads c' id').mp leads').1]
        exact nearer
    · obtain ⟨-, -, exits⟩ := spfNexthopCalculation_eq calculated
      rw [modified] at merged
      refine .inr ⟨{ cw with exits := X.merge cw.exits w.exits }, c, front ++ back, memW,
        leads, small,
        equal, edge, .merged same rfl rfl exits rfl, ?_, ?_, newStatus.trans unchanged⟩
      · rw [merged]
        exact perm_middle
      · rw [merged]
        have sorted := h.sorted
        rw [candidates] at sorted
        rw [← pairwise_map (f := rank), map_append, map_cons] at sorted ⊢
        exact sorted
    · obtain ⟨lsa, d, exits⟩ := spfNexthopCalculation_eq calculated
      have idW : w.vertexId = cw.vertexId := congrArg GlobalRoutingLSA.linkStateId lsa
      have memW' : w.lsa ∈ db := lsa ▸ memW
      rw [modified] at reordered
      refine .inr ⟨w, c, front ++ back, memW', idW ▸ leads, small, d, idW ▸ edge,
        .nearer same lsa.symm (d ▸ less) exits, ?_, ?_, idW ▸ newStatus.trans unchanged⟩
      · rw [reordered]
        exact (SortedInsert.sort_perm _ _).trans perm_middle
      · rw [reordered]
        refine reorder_sorted symmetric fun u mem => ?_
        obtain rfl | mem := mem_cons.mp (perm_middle.mem_iff.mp mem)
        · exact memW'
        · exact waiting u (same.mem_iff.mpr (mem_cons_of_mem cw mem))

theorem Searching.examine (h : Searching db root v (rec :: todo) tree s) (symmetric : Symmetric db)
    (returns : examine X db root v s rec = some t) : Searching db root v todo tree t := by
  obtain ⟨rfl, known⟩ | ⟨w, c, others, improves⟩ := h.examine_step symmetric returns
  · refine h.skip fun c id leads => ?_
    obtain ⟨u, inside, id⟩ | ⟨u, waits, id, nearer⟩ := known c id leads
    · exact .inl ⟨_, u, inside, id, rfl⟩
    · exact .inr ⟨_, nearer.le, u, waits, id, rfl⟩
  · exact h.improve improves

end GlobalRouteManagerImpl

end Ns3
