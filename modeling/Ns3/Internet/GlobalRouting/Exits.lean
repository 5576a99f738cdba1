import Ns3.Internet.GlobalRouting.ShortestPaths

/-!
# Exits from the root

The rules by which `SPFNexthopCalculation` finds the exits of a vertex: the pairs of a next hop
and an interface by which the root reaches it. `m_parents` is sorted by the addresses of the
vertex objects, which the model is given.
-/

namespace Ns3

/-- `SPFVertex::NodeExit_t`: the next hop and the outgoing interface. -/
abbrev NodeExit := Nat × Int

/-- `m_ecmpRootExits` and `m_parents`, the parents by their ids. -/
structure RootExits where
  ecmpRootExits : List NodeExit := []
  parents : List Nat := []
  deriving DecidableEq

/-- `std::list::unique`. -/
def listUnique {α : Type} [DecidableEq α] : List α → List α
  | [] => []
  | [a] => [a]
  | a :: b :: rest => if a = b then listUnique (b :: rest) else a :: listUnique (b :: rest)

theorem mem_listUnique {α : Type} [DecidableEq α] {x : α} {l : List α} :
    x ∈ listUnique l ↔ x ∈ l := by
  induction l using listUnique.induct with
  | case1 => simp [listUnique]
  | case2 => simp [listUnique]
  | case3 a rest ih => simp [listUnique, ih]
  | case4 a b rest apart ih => simp [listUnique, if_neg apart, ih]

/-- On a sorted list it leaves no duplicate. -/
theorem listUnique_nodup {α β : Type} [DecidableEq α] [LinearOrder β] {rank : α → β}
    (injective : ∀ a b, rank a = rank b → a = b) {l : List α}
    (sorted : l.Pairwise fun a b => rank a ≤ rank b) : (listUnique l).Nodup := by
  induction l using listUnique.induct with
  | case1 => exact List.nodup_nil
  | case2 a => exact List.nodup_singleton a
  | case3 a rest ih =>
    rw [listUnique, if_pos rfl]
    exact ih (List.pairwise_cons.mp sorted).2
  | case4 a b rest apart ih =>
    obtain ⟨first, later⟩ := List.pairwise_cons.mp sorted
    rw [listUnique, if_neg apart]
    refine List.nodup_cons.mpr ⟨fun mem => apart ?_, ih later⟩
    -- what is equal to the first element comes next to it
    have below := first b List.mem_cons_self
    obtain rfl | mem := List.mem_cons.mp ((mem_listUnique).mp mem)
    · rfl
    · exact injective a b (le_antisymm below ((List.pairwise_cons.mp later).1 a mem))

namespace RootExits

/-- `operator<` on pairs. -/
def exitLess (a b : NodeExit) : Bool := a.1 < b.1 || a.1 = b.1 && a.2 < b.2

/-- `SetRootExitDirection`. -/
def setRootExitDirection (nextHop : Nat) (id : Int) (e : RootExits) : RootExits :=
  { e with ecmpRootExits := [(nextHop, id)] }

/-- `GetRootExitDirection` without an index. -/
def getRootExitDirection (profile : BuildProfile) (e : RootExits) : Option NodeExit := do
  nsAssert profile (e.ecmpRootExits.length ≤ 1)
  e.ecmpRootExits.head?

/-- `MergeRootExitDirections`, and `MergeParent` with the addresses of the vertices. -/
def merge (pointer : Nat → Nat) (e vertex : RootExits) : RootExits where
  ecmpRootExits := listUnique (SortedInsert.sort exitLess (e.ecmpRootExits ++ vertex.ecmpRootExits))
  parents := listUnique
    (SortedInsert.sort (fun a b => pointer a < pointer b) (e.parents ++ vertex.parents))

/-- `InheritAllRootExitDirections`. -/
def inheritAllRootExitDirections (e vertex : RootExits) : RootExits :=
  { e with ecmpRootExits := vertex.ecmpRootExits }

/-- `SetParent`. -/
def setParent (parent : Nat) (e : RootExits) : RootExits := { e with parents := [parent] }

end RootExits

/-- What the calculation finds outside the database: the addresses of the interfaces of the
root's node, if there is one, and those of the vertex objects. -/
structure RootNode where
  interfaces : Option (List (List Nat))
  pointer : Nat → Nat

namespace RootNode

/-- `Ipv4L3Protocol::GetInterfaceForPrefix`. -/
def getInterfaceForPrefix (interfaces : List (List Nat)) (address mask : Nat) : Int :=
  match interfaces.findIdx? fun addresses => addresses.any fun a =>
    a &&& mask = address &&& mask with
  | some i => i
  | none => -1

/-- `FindOutgoingInterfaceId`. -/
def findOutgoingInterfaceId (node : RootNode) (a : Nat) (amask : Nat := 0xffffffff) : Int :=
  match node.interfaces with
  | some interfaces => getInterfaceForPrefix interfaces a amask
  | none => -1

end RootNode

namespace GlobalRouteManagerImpl

/-- The loop of `SPFGetNextLink`. -/
def nextLinkLoop (id : Nat) : Bool → Bool → List GlobalRoutingLinkRecord →
    Option GlobalRoutingLinkRecord
  | _, _, [] => none
  | found_prev_link, skip, l :: rest =>
    if l.linkId = id then
      if !found_prev_link then nextLinkLoop id true skip rest
      else if !skip then some l
      else nextLinkLoop id found_prev_link false rest
    else nextLinkLoop id found_prev_link skip rest

/-- `SPFGetNextLink`. -/
def spfGetNextLink (v : GlobalRoutingLSA) (w : Nat) (prev_link : Option GlobalRoutingLinkRecord) :
    Option GlobalRoutingLinkRecord :=
  match prev_link with
  | none => nextLinkLoop w true false v.linkRecords
  | some _ => nextLinkLoop w false true v.linkRecords

/-- The loop over the links from the destination's router to a network, with a bound on its
rounds: the exits it has set, and whether it has ended. -/
def hopLoop (w : GlobalRoutingLSA) (v : Nat) (outIf : Int) :
    Nat → Option GlobalRoutingLinkRecord → RootExits → RootExits × Bool
  | 0, _, e => (e, false)
  | rounds + 1, linkRemote, e =>
    match spfGetNextLink w v linkRemote with
    | none => (e, true)
    | some l => hopLoop w v outIf rounds (some l) (e.setRootExitDirection l.linkData outIf)

example (w v i p e) : hopLoop w v i 0 p e = (e, false) ∧ nextLinkLoop v true true [] = none := by
  simp [hopLoop, nextLinkLoop]

/-- The exits of a router that `SPFNexthopCalculation` finds through a network: up to some
rounds of the loop, where the network is a neighbour of the root, and whether it has ended. -/
def throughNetwork (profile : BuildProfile) (rounds : Nat) (root : GlobalRoutingLSA)
    (v w : SPFVertex RootExits) : Option (RootExits × Bool) :=
  if v.exits.parents.head? = some root.linkStateId then do
    -- `outIf` is read in each round, the exits of `v` do not change
    match spfGetNextLink w.lsa v.vertexId none with
    | none => return (w.exits, true)
    | some _ =>
      let exit ← v.exits.getRootExitDirection profile
      return hopLoop w.lsa v.vertexId exit.2 rounds none w.exits
  else do
    let exit ← v.exits.getRootExitDirection profile
    return (w.exits.setRootExitDirection exit.1 exit.2, true)

/-- `SPFNexthopCalculation` for the exits and the parent of `w`. -/
def nexthop (node : RootNode) (profile : BuildProfile) (rounds : Nat) (root : GlobalRoutingLSA)
    (v w : SPFVertex RootExits) (l : Option GlobalRoutingLinkRecord) : Option RootExits :=
  if v.vertexId = root.linkStateId then
    match w.vertexType with
    | .router => do
        let l ← l
        let linkRemote ← spfGetNextLink w.lsa v.vertexId none
        return (w.exits.setRootExitDirection linkRemote.linkData
          (node.findOutgoingInterfaceId l.linkData)).setParent v.vertexId
    | _ => return (w.exits.setRootExitDirection 0 (node.findOutgoingInterfaceId w.vertexId
        w.lsa.networkLSANetworkMask)).setParent v.vertexId
  else
    match v.vertexType with
    | .network => do
        let (e, ended) ← throughNetwork profile rounds root v w
        if ended then return e.setParent v.vertexId else none
    | _ => return (w.exits.inheritAllRootExitDirections v.exits).setParent v.vertexId

/-- The rules of the code. -/
def exitRules (node : RootNode) (profile : BuildProfile) (rounds : Nat) : ExitRules RootExits where
  fresh := {}
  nexthop := nexthop node profile rounds
  merge := RootExits.merge node.pointer

variable {node : RootNode} {profile : BuildProfile} {rounds : Nat} {root : GlobalRoutingLSA}
  {v w : SPFVertex RootExits}

theorem mem_merge {e vertex : RootExits} {exit : NodeExit} :
    exit ∈ (RootExits.merge node.pointer e vertex).ecmpRootExits ↔
      exit ∈ e.ecmpRootExits ∨ exit ∈ vertex.ecmpRootExits := by
  rw [RootExits.merge, mem_listUnique, (SortedInsert.sort_perm _ _).mem_iff, List.mem_append]

theorem mem_merge_parents {e vertex : RootExits} {p : Nat} :
    p ∈ (RootExits.merge node.pointer e vertex).parents ↔ p ∈ e.parents ∨ p ∈ vertex.parents := by
  rw [RootExits.merge, mem_listUnique, (SortedInsert.sort_perm _ _).mem_iff, List.mem_append]

theorem merge_nodup (node : RootNode) (e vertex : RootExits) :
    (RootExits.merge node.pointer e vertex).ecmpRootExits.Nodup := by
  refine @listUnique_nodup _ _ _ _ (fun exit : NodeExit => toLex exit) (fun a b same => ?_) _
    (SortedInsert.sort_sorted fun a _ b _ => ?_)
  · exact toLex.injective same
  · simp [SortedInsert.Compares, RootExits.exitLess, Prod.Lex.lt_iff]

/-- `SPFGetNextLink` finds a record that carries the id. -/
theorem nextLinkLoop_mem {id : Nat} {found skip : Bool} {records : List GlobalRoutingLinkRecord}
    {l : GlobalRoutingLinkRecord} (returns : nextLinkLoop id found skip records = some l) :
    l ∈ records ∧ l.linkId = id := by
  induction records generalizing found skip with
  | nil => cases returns
  | cons r rest ih =>
    rw [nextLinkLoop] at returns
    split at returns
    case isTrue same =>
      split at returns
      · obtain ⟨mem, id⟩ := ih returns
        exact ⟨List.mem_cons_of_mem r mem, id⟩
      · split at returns
        · cases returns
          exact ⟨List.mem_cons_self, same⟩
        · obtain ⟨mem, id⟩ := ih returns
          exact ⟨List.mem_cons_of_mem r mem, id⟩
    case isFalse =>
      obtain ⟨mem, id⟩ := ih returns
      exact ⟨List.mem_cons_of_mem r mem, id⟩

theorem spfGetNextLink_mem {v : GlobalRoutingLSA} {id : Nat} {prev : Option GlobalRoutingLinkRecord}
    {l : GlobalRoutingLinkRecord} (returns : spfGetNextLink v id prev = some l) :
    l ∈ v.linkRecords ∧ l.linkId = id := by
  cases prev with
  | none => exact nextLinkLoop_mem returns
  | some prev => exact nextLinkLoop_mem returns

theorem spfGetNextLink_none (v : GlobalRoutingLSA) (id : Nat) :
    spfGetNextLink v id none = v.linkRecords.find? fun l => l.linkId = id := by
  rw [spfGetNextLink]
  induction v.linkRecords with
  | nil => rfl
  | cons l rest ih =>
    rw [nextLinkLoop, List.find?_cons, ih]
    by_cases same : l.linkId = id <;> simp [same]

theorem nextLinkLoop_none {id : Nat} {found skip : Bool} {records : List GlobalRoutingLinkRecord}
    (other : ∀ l ∈ records, l.linkId ≠ id) : nextLinkLoop id found skip records = none := by
  induction records with
  | nil => rfl
  | cons l rest ih =>
    rw [nextLinkLoop, if_neg (other l List.mem_cons_self)]
    exact ih fun l' mem => other l' (List.mem_cons_of_mem l mem)

theorem spfGetNextLink_only {v : GlobalRoutingLSA} {id : Nat} (prev : GlobalRoutingLinkRecord)
    (single : v.linkRecords.Pairwise fun l l' => l.linkId = id → l'.linkId ≠ id) :
    spfGetNextLink v id (some prev) = none := by
  rw [spfGetNextLink]
  generalize v.linkRecords = records at single ⊢
  induction records with
  | nil => rfl
  | cons l rest ih =>
    obtain ⟨first, later⟩ := List.pairwise_cons.mp single
    rw [nextLinkLoop]
    split
    case isTrue same => exact nextLinkLoop_none fun l' mem => first l' mem same
    case isFalse => exact ih later

theorem hopLoop_only {w : GlobalRoutingLSA} {id : Nat} {outIf : Int} {l : GlobalRoutingLinkRecord}
    (found : spfGetNextLink w id none = some l)
    (single : w.linkRecords.Pairwise fun l l' => l.linkId = id → l'.linkId ≠ id) (more : Nat)
    (e : RootExits) :
    hopLoop w id outIf (more + 2) none e = (e.setRootExitDirection l.linkData outIf, true) := by
  simp only [hopLoop, found, spfGetNextLink_only l single]

/-- The loop leaves the exits as they were, or sets one. -/
theorem hopLoop_spec {w : GlobalRoutingLSA} {id : Nat} {outIf : Int}
    {prev : Option GlobalRoutingLinkRecord} {e : RootExits} :
    (hopLoop w id outIf rounds prev e).1.ecmpRootExits = e.ecmpRootExits ∨
      ∃ l ∈ w.linkRecords, l.linkId = id ∧
        (hopLoop w id outIf rounds prev e).1.ecmpRootExits = [(l.linkData, outIf)] := by
  induction rounds generalizing prev e with
  | zero => exact .inl rfl
  | succ rounds ih =>
    rw [hopLoop]
    cases found : spfGetNextLink w id prev with
    | none => exact .inl rfl
    | some l =>
      obtain same | later := @ih (some l) (e.setRootExitDirection l.linkData outIf)
      · exact .inr ⟨l, (spfGetNextLink_mem found).1, (spfGetNextLink_mem found).2, same⟩
      · exact .inr later

/-- Exits of a router behind a network. -/
theorem throughNetwork_cases {e : RootExits} {ended : Bool}
    (returns : throughNetwork profile rounds root v w = some (e, ended)) :
    (v.exits.parents.head? = some root.linkStateId ∧
      (e.ecmpRootExits = w.exits.ecmpRootExits ∨ ∃ exit l,
        v.exits.getRootExitDirection profile = some exit ∧ l ∈ w.lsa.linkRecords ∧
          l.linkId = v.vertexId ∧ e.ecmpRootExits = [(l.linkData, exit.2)])) ∨
    v.exits.parents.head? ≠ some root.linkStateId ∧ ended = true ∧ ∃ exit,
      v.exits.getRootExitDirection profile = some exit ∧ e.ecmpRootExits = [exit] := by
  rw [throughNetwork] at returns
  split at returns
  case isTrue first =>
    refine .inl ⟨first, ?_⟩
    cases found : spfGetNextLink w.lsa v.vertexId none with
    | none =>
      simp only [found, Option.pure_def, Option.some.injEq, Prod.mk.injEq] at returns
      exact .inl (returns.1 ▸ rfl)
    | some l =>
      simp only [found, bind_returns, pure_returns] at returns
      obtain ⟨exit, direction, loop⟩ := returns
      have spec := @hopLoop_spec rounds w.lsa v.vertexId exit.2 none w.exits
      rw [loop] at spec
      exact spec.imp_right fun ⟨l, mem, id, set⟩ => ⟨exit, l, direction, mem, id, set⟩
  case isFalse other =>
    simp only [bind_returns, pure_returns, Prod.mk.injEq] at returns
    obtain ⟨exit, direction, rfl, rfl⟩ := returns
    exact .inr ⟨other, rfl, exit, direction, rfl⟩

/-- What `SPFNexthopCalculation` sets. -/
theorem nexthop_cases {l : Option GlobalRoutingLinkRecord} {e : RootExits}
    (returns : nexthop node profile rounds root v w l = some e) :
    e.parents = [v.vertexId] ∧
    ((v.vertexId = root.linkStateId ∧ w.vertexType = .router ∧ ∃ l' back, l = some l' ∧
        (w.lsa.linkRecords.find? fun l => l.linkId = root.linkStateId) = some back ∧
        e.ecmpRootExits = [(back.linkData, node.findOutgoingInterfaceId l'.linkData)]) ∨
      (v.vertexId = root.linkStateId ∧ w.vertexType ≠ .router ∧ e.ecmpRootExits =
        [(0, node.findOutgoingInterfaceId w.vertexId w.lsa.networkLSANetworkMask)]) ∨
      (v.vertexId ≠ root.linkStateId ∧ v.vertexType = .network ∧ ∃ e',
        throughNetwork profile rounds root v w = some (e', true) ∧
          e.ecmpRootExits = e'.ecmpRootExits) ∨
      v.vertexId ≠ root.linkStateId ∧ v.vertexType ≠ .network ∧
        e.ecmpRootExits = v.exits.ecmpRootExits) := by
  rw [nexthop] at returns
  split at returns
  case isTrue atRoot =>
    cases type : w.vertexType with
    | router =>
      simp only [type, bind_returns, pure_returns, spfGetNextLink_none] at returns
      obtain ⟨l', rfl, back, found, rfl⟩ := returns
      rw [atRoot] at found
      exact ⟨rfl, .inl ⟨atRoot, rfl, l', back, rfl, found, rfl⟩⟩
    | network =>
      simp only [type, Option.pure_def, Option.some.injEq] at returns
      obtain rfl := returns
      exact ⟨rfl, .inr (.inl ⟨atRoot, nofun, rfl⟩)⟩
    | unknown =>
      simp only [type, Option.pure_def, Option.some.injEq] at returns
      obtain rfl := returns
      exact ⟨rfl, .inr (.inl ⟨atRoot, nofun, rfl⟩)⟩
  case isFalse other =>
    cases type : v.vertexType with
    | network =>
      simp only [type, bind_returns] at returns
      obtain ⟨⟨e', ended⟩, through, returns⟩ := returns
      cases ended with
      | false => cases returns
      | true =>
        cases returns
        exact ⟨rfl, .inr (.inr (.inl ⟨other, rfl, e', through, rfl⟩))⟩
    | router =>
      simp only [type, Option.pure_def, Option.some.injEq] at returns
      obtain rfl := returns
      exact ⟨rfl, .inr (.inr (.inr ⟨other, nofun, rfl⟩))⟩
    | unknown =>
      simp only [type, Option.pure_def, Option.some.injEq] at returns
      obtain rfl := returns
      exact ⟨rfl, .inr (.inr (.inr ⟨other, nofun, rfl⟩))⟩

end GlobalRouteManagerImpl

end Ns3
