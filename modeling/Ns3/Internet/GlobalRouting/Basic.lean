import Ns3.Core.Assert
import Ns3.Library.SortedInsert
import Mathlib.Data.Prod.Lex
import Mathlib.Logic.Function.Basic

/-!
# Global routing

`GlobalRouteManagerImpl` computes the routes of one router from the link state database with
Dijkstra's algorithm. Vertices are routers and transit networks; an LSA holds the records of
its vertex. What a vertex knows of the exits from the root, and of its parents, is left to
`ExitRules` here.
-/

namespace Ns3

/-- `GlobalRoutingLinkRecord::LinkType`. -/
inductive LinkType where
  | unknown
  | pointToPoint
  | transitNetwork
  | stubNetwork
  deriving DecidableEq

/-- `GlobalRoutingLinkRecord`. -/
structure GlobalRoutingLinkRecord where
  linkType : LinkType
  linkId : Nat
  linkData : Nat
  metric : Nat
  deriving DecidableEq

/-- `GlobalRoutingLSA::LSType`, without those that the database does not store. -/
inductive LSType where
  | unknown
  | routerLSA
  | networkLSA
  deriving DecidableEq

/-- `GlobalRoutingLSA::SPFStatus`. -/
inductive SPFStatus where
  | notExplored
  | candidate
  | inSPFTree
  deriving DecidableEq

/-- `GlobalRoutingLSA`; its status is kept apart. -/
structure GlobalRoutingLSA where
  lsType : LSType
  linkStateId : Nat
  linkRecords : List GlobalRoutingLinkRecord := []
  networkLSANetworkMask : Nat := 0
  attachedRouters : List Nat := []
  deriving DecidableEq

/-- `GlobalRouteManagerLSDB`: the LSAs by their link state ids, in the order of these. -/
abbrev GlobalRouteManagerLSDB := List GlobalRoutingLSA

namespace GlobalRouteManagerLSDB

/-- `GetLSA`. -/
def getLSA (db : GlobalRouteManagerLSDB) (addr : Nat) : Option GlobalRoutingLSA :=
  db.find? fun lsa => lsa.linkStateId = addr

/-- `GetLSAByLinkData`. -/
def getLSAByLinkData (db : GlobalRouteManagerLSDB) (addr : Nat) : Option GlobalRoutingLSA :=
  db.find? fun lsa => lsa.linkRecords.any fun lr =>
    lr.linkType = .transitNetwork && lr.linkData = addr

end GlobalRouteManagerLSDB

/-- `SPFVertex::VertexType`. -/
inductive VertexType where
  | unknown
  | router
  | network
  deriving DecidableEq

def SPF_INFINITY : Nat := 0xffffffff

/-- `SPFVertex`, with its exits from the root and its parents in `exits`. -/
structure SPFVertex (ε : Type) where
  lsa : GlobalRoutingLSA
  distanceFromRoot : Nat := SPF_INFINITY
  exits : ε

namespace SPFVertex

variable {ε : Type}

/-- `GetVertexId`. -/
def vertexId (v : SPFVertex ε) : Nat := v.lsa.linkStateId

/-- `GetVertexType`. -/
def vertexType (v : SPFVertex ε) : VertexType :=
  match v.lsa.lsType with
  | .unknown => .unknown
  | .routerLSA => .router
  | .networkLSA => .network

end SPFVertex

/-! ## The candidate queue -/

namespace CandidateQueue

variable {ε : Type}

/-- `CompareSPFVertex`. -/
def compareSPFVertex (v1 v2 : SPFVertex ε) : Bool :=
  if v1.distanceFromRoot < v2.distanceFromRoot then true
  else if v1.distanceFromRoot = v2.distanceFromRoot then
    v1.vertexType = .network && v2.vertexType = .router
  else false

/-- `Push`. -/
def push (vNew : SPFVertex ε) (candidates : List (SPFVertex ε)) : List (SPFVertex ε) :=
  SortedInsert.insert compareSPFVertex vNew candidates

/-- `Find`. -/
def find (candidates : List (SPFVertex ε)) (addr : Nat) : Option (SPFVertex ε) :=
  candidates.find? fun v => v.vertexId = addr

/-- The vertex that `Find` returns is changed in its place. -/
def modify (addr : Nat) (change : SPFVertex ε → SPFVertex ε) :
    List (SPFVertex ε) → List (SPFVertex ε)
  | [] => []
  | v :: rest => if v.vertexId = addr then change v :: rest else v :: modify addr change rest

/-- `Reorder`. -/
def reorder (candidates : List (SPFVertex ε)) : List (SPFVertex ε) :=
  SortedInsert.sort compareSPFVertex candidates

end CandidateQueue

/-! ## The search -/

/-- How the exits of a vertex are found: those of a new vertex; `SPFNexthopCalculation` for a
root, `v`, `w` and the link record from `v` to `w`, without the distance it sets; and what
`SPFNext` merges for a second path of equal cost. -/
structure ExitRules (ε : Type) where
  fresh : ε
  nexthop : GlobalRoutingLSA → SPFVertex ε → SPFVertex ε → Option GlobalRoutingLinkRecord → Option ε
  merge : ε → ε → ε

/-- What `SPFNext` works on: the statuses of the LSAs and the candidates. -/
structure SPFState (ε : Type) where
  status : Nat → SPFStatus
  candidate : List (SPFVertex ε)

/-- What `SPFNext` examines: a link record of a router, or an attached router of a network. -/
inductive SPFRecord where
  | link (l : GlobalRoutingLinkRecord)
  | attached (addr : Nat)
  deriving DecidableEq

/-- The records of a vertex, as many as `numRecordsInVertex`. -/
def GlobalRoutingLSA.records (lsa : GlobalRoutingLSA) : List SPFRecord :=
  match lsa.lsType with
  | .routerLSA => lsa.linkRecords.map .link
  | .networkLSA => lsa.attachedRouters.map .attached
  | .unknown => []

/-- The status of a vertex that is popped. -/
def SPFState.popped {ε : Type} (w : SPFVertex ε) (rest : List (SPFVertex ε)) (s : SPFState ε) :
    SPFState ε where
  status := Function.update s.status w.vertexId .inSPFTree
  candidate := rest

namespace GlobalRouteManagerImpl

variable {ε : Type} (X : ExitRules ε) (db : GlobalRouteManagerLSDB) (root : GlobalRoutingLSA)

/-- `SPFNexthopCalculation`. -/
def spfNexthopCalculation (v w : SPFVertex ε) (l : Option GlobalRoutingLinkRecord)
    (distance : Nat) : Option (SPFVertex ε) := do
  let exits ← X.nexthop root v w l
  return { w with exits, distanceFromRoot := distance }

/-- The distance of `w` on the path through `v`. -/
def distanceThrough (v : SPFVertex ε) (l : Option GlobalRoutingLinkRecord) : Option Nat :=
  match v.lsa.lsType with
  | .routerLSA => l.map fun l => UInt32.add v.distanceFromRoot l.metric
  | _ => some v.distanceFromRoot

/-- The body of the loop of `SPFNext`, once `w_lsa` is found. -/
def considerLSA (v : SPFVertex ε) (w_lsa : GlobalRoutingLSA) (l : Option GlobalRoutingLinkRecord)
    (s : SPFState ε) : Option (SPFState ε) :=
  match s.status w_lsa.linkStateId with
  | .inSPFTree => some s
  | .notExplored => do
      let distance ← distanceThrough v l
      let w ← spfNexthopCalculation X root v { lsa := w_lsa, exits := X.fresh } l distance
      return {
        status := Function.update s.status w_lsa.linkStateId .candidate
        candidate := CandidateQueue.push w s.candidate }
  | .candidate => do
      let distance ← distanceThrough v l
      let cw ← CandidateQueue.find s.candidate w_lsa.linkStateId
      if cw.distanceFromRoot < distance then return s
      else if cw.distanceFromRoot = distance then
        let w ← spfNexthopCalculation X root v { lsa := w_lsa, exits := X.fresh } l distance
        return { s with
          candidate := CandidateQueue.modify w_lsa.linkStateId
            (fun cw => { cw with exits := X.merge cw.exits w.exits }) s.candidate }
      else
        let w ← spfNexthopCalculation X root v cw l distance
        return { s with
          candidate := CandidateQueue.reorder
            (CandidateQueue.modify w_lsa.linkStateId (fun _ => w) s.candidate) }

/-- One round of the loop of `SPFNext`. -/
def examine (v : SPFVertex ε) (s : SPFState ε) : SPFRecord → Option (SPFState ε)
  | .link l =>
    match l.linkType with
    | .stubNetwork => some s
    | .pointToPoint | .transitNetwork => do
        let w_lsa ← db.getLSA l.linkId
        considerLSA X root v w_lsa (some l) s
    | .unknown => none
  | .attached addr =>
    match db.getLSAByLinkData addr with
    | none => some s
    | some w_lsa => considerLSA X root v w_lsa none s

/-- `SPFNext`. -/
def spfNext (v : SPFVertex ε) (s : SPFState ε) : Option (SPFState ε) :=
  v.lsa.records.foldlM (examine X db root v) s

/-- The main loop of `SPFCalculate`, with a bound on its rounds: the vertices in the order in
which they are popped. -/
def spfLoop : Nat → SPFVertex ε → SPFState ε → Option (List (SPFVertex ε))
  | 0, _, _ => none
  | rounds + 1, v, s => do
      let s ← spfNext X db root v s
      match s.candidate with
      | [] => return []
      | w :: rest => return w :: (← spfLoop rounds w (s.popped w rest))

/-- The vertex of the root. -/
def rootVertex : SPFVertex ε := { lsa := root, distanceFromRoot := 0, exits := X.fresh }

/-- `Initialize`, and the root is in the tree. -/
def initialState : SPFState ε where
  status := Function.update (fun _ => .notExplored) root.linkStateId .inSPFTree
  candidate := []

/-- `SPFCalculate` from the root's vertex to the end of the main loop, when
`CheckForStubNode` does not replace it. -/
def spfCalculate (rounds : Nat) (addr : Nat) : Option (List (SPFVertex ε)) := do
  let root ← db.getLSA addr
  spfLoop X db root rounds (rootVertex X root) (initialState root)

end GlobalRouteManagerImpl

end Ns3
