import Ns3.TrafficControl.FqCoDelQueueDisc.Lists
import Ns3.Library.Run
import Mathlib.Algebra.Order.Group.Unbundled.Abs
import Mathlib.Algebra.Order.Group.Int

/-!
# Fairness

The old flows take turns: between two quanta of one of them every other one that stays gets
a quantum. What a flow is returned is paid for by its quanta, up to its deficit, which lies
between the size of a packet and a quantum. So two flows that stay old are returned the same
number of bytes, up to a constant.
-/

namespace Ns3.FqCoDelQueueDisc

open List Option

variable {q q' : FqCoDelQueueDisc} {i f g maxSize : Nat} {flow : FqCoDelFlow}

/-- The deficit of the flow of a class. -/
def deficitOf (q : FqCoDelQueueDisc) (i : Nat) : Int := (q.classes[i]?.map (·.deficit)).getD 0

theorem deficitOf_eq (here : q.classes[i]? = some flow) : q.deficitOf i = flow.deficit := by
  rw [deficitOf, here, map_some, getD_some]

theorem deficitOf_update (here : q.classes[i]? = some flow) (flow' : FqCoDelFlow) (f : Nat) :
    (q.update i flow').deficitOf f = if f = i then flow'.deficit else q.deficitOf f := by
  rw [deficitOf, classes_update here]
  split
  · rfl
  · rfl

/-- The bytes that were returned for a flow. -/
def bytesOf (f : Nat) (served : List (Nat × Nat)) : Nat :=
  (served.map fun p => if p.1 = f then p.2 else 0).sum

theorem bytesOf_append (f : Nat) (first later : List (Nat × Nat)) :
    bytesOf f (first ++ later) = bytesOf f first + bytesOf f later := by
  rw [bytesOf, map_append, sum_append, bytesOf, bytesOf]

/-! ## Turns -/

/-- The first of two flows stands before the other. -/
def Before (f g : Nat) (waiting : List Nat) : Prop := [f, g].Sublist waiting

theorem Before.concat {waiting : List Nat} (h : Before f g waiting) (i : Nat) :
    Before f g (waiting ++ [i]) := h.trans (sublist_append_left waiting [i])

theorem Before.rotate {rest : List Nat} (h : Before f g (i :: rest)) (once : (i :: rest).Nodup) :
    if i = f then Before g f (rest ++ [i]) else Before f g (rest ++ [i]) := by
  cases h with
  | cons _ h =>
    have other : i ≠ f := fun same => (nodup_cons.mp once).1 (same ▸ h.subset mem_cons_self)
    rw [if_neg other]
    exact Before.concat h i
  | cons_cons _ h =>
    rw [if_pos rfl]
    exact h.append (List.Sublist.refl [_])

theorem Before.second_ne {rest : List Nat} (h : Before f g (i :: rest)) (once : (i :: rest).Nodup) :
    i ≠ g := by
  rintro rfl
  cases h with
  | cons _ h => exact (nodup_cons.mp once).1 (h.subset (mem_cons_of_mem f mem_cons_self))
  | cons_cons _ h => exact (nodup_cons.mp once).1 (h.subset mem_cons_self)

theorem Before.tail {rest : List Nat} (h : Before f g (i :: rest)) (other : i ≠ f) :
    Before f g rest := by
  cases h with
  | cons _ h => exact h
  | cons_cons _ h => exact absurd rfl other

theorem before_or {waiting : List Nat} (ne : f ≠ g) (mem : f ∈ waiting) (mem' : g ∈ waiting) :
    Before f g waiting ∨ Before g f waiting := by
  induction waiting with
  | nil => cases mem
  | cons i rest ih =>
    obtain rfl | later := mem_cons.mp mem
    · left
      have later' := (mem_cons.mp mem').resolve_left ne.symm
      exact (singleton_sublist.mpr later').cons_cons f
    · obtain rfl | later' := mem_cons.mp mem'
      · right
        exact (singleton_sublist.mpr later).cons_cons g
      · exact (ih later later').imp (fun h => h.cons i) fun h => h.cons i

/-- The bytes returned for two flows since `q₀`, by their quanta and deficits. The one that
stood before the other is at most one quantum ahead. -/
def Turns (q₀ : FqCoDelQueueDisc) (f g : Nat) (served : List (Nat × Nat)) (q : FqCoDelQueueDisc) :
    Prop :=
  ∃ a b : Int, bytesOf f served + q.deficitOf f = q₀.quantum * a + q₀.deficitOf f ∧
    bytesOf g served + q.deficitOf g = q₀.quantum * b + q₀.deficitOf g ∧
    (a = b ∧ Before f g q.oldFlows ∨ a = b + 1 ∧ Before g f q.oldFlows)

variable {q₀ : FqCoDelQueueDisc} {served later : List (Nat × Nat)}

theorem Turns.frame (h : Turns q₀ f g served q) (deficitF : q'.deficitOf f = q.deficitOf f)
    (deficitG : q'.deficitOf g = q.deficitOf g)
    (order : ∀ x y, x = f ∧ y = g ∨ x = g ∧ y = f → Before x y q.oldFlows →
      Before x y q'.oldFlows) :
    Turns q₀ f g served q' := by
  obtain ⟨a, b, forF, forG, turns⟩ := h
  refine ⟨a, b, by rw [deficitF]; exact forF, by rw [deficitG]; exact forG, ?_⟩
  obtain ⟨even, before⟩ | ⟨ahead, before⟩ := turns
  · exact .inl ⟨even, order f g (.inl ⟨rfl, rfl⟩) before⟩
  · exact .inr ⟨ahead, order g f (.inr ⟨rfl, rfl⟩) before⟩

theorem Turns.mem (h : Turns q₀ f g served q) : f ∈ q.oldFlows ∧ g ∈ q.oldFlows := by
  obtain ⟨a, b, -, -, ⟨-, before⟩ | ⟨-, before⟩⟩ := h
  · exact ⟨before.subset mem_cons_self, before.subset
      (mem_cons_of_mem f mem_cons_self)⟩
  · exact ⟨before.subset (mem_cons_of_mem g mem_cons_self),
      before.subset mem_cons_self⟩

/-- A move keeps the turns, or one of the flows leaves. -/
theorem Turns.move (ne : f ≠ g) (good : Good maxSize q) (pos : 0 < q.quantum)
    (small : q.quantum < 2 ^ 31) (bound : maxSize < 2 ^ 31) (same : q.quantum = q₀.quantum)
    (h : Turns q₀ f g served q) {returns : Option (Nat × Nat)} (move : Move q returns q') :
    Turns q₀ f g (served ++ returns.toList) q' ∨ q'.statusOf f = some .inactive ∨
      q'.statusOf g = some .inactive := by
  obtain ⟨memF, memG⟩ := h.mem
  have nodup := good.nodup
  cases move with
  | @turnNew i rest flow front here spent =>
    rw [front, nodup_append] at nodup
    have otherF : f ≠ i := fun eq => nodup.2.2 i mem_cons_self f memF eq.symm
    have otherG : g ≠ i := fun eq => nodup.2.2 i mem_cons_self g memG eq.symm
    left
    rw [toList_none, append_nil]
    refine h.frame ?_ ?_ fun x y _ before => before.concat i
    · exact (deficitOf_update here _ f).trans (if_neg otherF)
    · exact (deficitOf_update here _ g).trans (if_neg otherG)
  | @turnOld i rest flow front here spent =>
    have waits : flow.status ≠ .inactive := by
      rw [good.front_old front here]
      exact nofun
    have deficit := increaseDeficit_quantum pos small bound (good.limits here waits).1 spent
    have once : (i :: rest).Nodup := front ▸ (nodup_append.mp nodup).2.1
    left
    rw [toList_none, append_nil]
    obtain ⟨a, b, forF, forG, turns⟩ := h
    have deficits (x : Nat) : (q.turnOld i rest flow).deficitOf x =
        if x = i then q.deficitOf i + q₀.quantum else q.deficitOf x := by
      rw [deficitOf_eq here, ← same, ← deficit]
      exact deficitOf_update here (flow.increaseDeficit q.quantum) x
    have more (c : Int) : (q₀.quantum : Int) * (c + 1) = q₀.quantum * c + q₀.quantum := by
      rw [Int.mul_add, Int.mul_one]
    rw [front] at turns
    obtain ⟨even, before⟩ | ⟨ahead, before⟩ := turns
    · have rotated := before.rotate once
      have otherG := (before.second_ne once).symm
      by_cases first : i = f
      · subst first
        rw [if_pos rfl] at rotated
        refine ⟨a + 1, b, ?_, ?_, .inr ⟨by omega, rotated⟩⟩
        · rw [deficits, if_pos rfl, more]
          omega
        · rw [deficits, if_neg otherG]
          exact forG
      · rw [if_neg first] at rotated
        refine ⟨a, b, ?_, ?_, .inl ⟨even, rotated⟩⟩
        · rw [deficits, if_neg (Ne.symm first)]
          exact forF
        · rw [deficits, if_neg otherG]
          exact forG
    · have rotated := before.rotate once
      have otherF := (before.second_ne once).symm
      by_cases first : i = g
      · subst first
        rw [if_pos rfl] at rotated
        refine ⟨a, b + 1, ?_, ?_, .inl ⟨ahead, rotated⟩⟩
        · rw [deficits, if_neg otherF]
          exact forF
        · rw [deficits, if_pos rfl, more]
          omega
      · rw [if_neg first] at rotated
        refine ⟨a, b, ?_, ?_, .inr ⟨ahead, rotated⟩⟩
        · rw [deficits, if_neg otherF]
          exact forF
        · rw [deficits, if_neg (Ne.symm first)]
          exact forG
  | @retireNew i rest flow front here =>
    rw [front, nodup_append] at nodup
    have otherF : f ≠ i := fun eq => nodup.2.2 i mem_cons_self f memF eq.symm
    have otherG : g ≠ i := fun eq => nodup.2.2 i mem_cons_self g memG eq.symm
    have some_ : q.newFlows ≠ [] := by
      rw [front]
      exact cons_ne_nil _ _
    left
    rw [toList_none, append_nil, retire, if_pos some_]
    refine h.frame ?_ ?_ fun x y _ before => before.concat i
    · exact (deficitOf_update here _ f).trans (if_neg otherF)
    · exact (deficitOf_update here _ g).trans (if_neg otherG)
  | @retireOld i rest flow empty front here =>
    rw [toList_none, append_nil, retire, if_neg (not_not.mpr empty)]
    have status (x : Nat) (first : x = i) :
        (q.update i { flow with status := .inactive, queue := [] }).statusOf x =
          some .inactive := by
      rw [statusOf_update here, if_pos first]
    by_cases first : f = i
    · exact .inr (.inl (status f first))
    · by_cases second : g = i
      · exact .inr (.inr (status g second))
      · left
        refine h.frame ?_ ?_ fun x y flows before => ?_
        · exact (deficitOf_update here _ f).trans (if_neg first)
        · exact (deficitOf_update here _ g).trans (if_neg second)
        · rw [front] at before
          simp only [front, tail_cons]
          obtain ⟨rfl, rfl⟩ | ⟨rfl, rfl⟩ := flows
          · exact before.tail (Ne.symm first)
          · exact before.tail (Ne.symm second)
  | @serve i flow item queue waits here more holds =>
    have size := good.sized flow (mem_of_getElem? here) item
      (holds.subset mem_cons_self)
    have high := (good.limits here waits).2
    have deficit := increaseDeficit_size { flow with queue } small bound size more high
    left
    obtain ⟨a, b, forF, forG, turns⟩ := h
    have balance (x : Nat) : (bytesOf x (served ++ [(i, item.size)]) : Int) +
        (q.serve i flow item queue).deficitOf x = bytesOf x served + q.deficitOf x := by
      have after := deficitOf_update here
        (FqCoDelFlow.increaseDeficit (-(item.size : Int)) { flow with queue }) x
      have now := deficitOf_eq here
      rw [serve, after, deficit, bytesOf_append]
      by_cases same : x = i
      · subst same
        simp only [bytesOf, map_cons, map_nil, sum_cons, sum_nil, if_true]
        omega
      · simp only [bytesOf, map_cons, map_nil, sum_cons, sum_nil, if_neg same,
          if_neg (Ne.symm same)]
        omega
    refine ⟨a, b, ?_, ?_, turns⟩
    · rw [toList_some, balance]
      exact forF
    · rw [toList_some, balance]
      exact forG

/-- A flow that is inactive stays so until a packet is enqueued. -/
theorem Move.inactive (listed : Listed q) {returns : Option (Nat × Nat)} (move : Move q returns q')
    (asleep : q.statusOf f = some .inactive) : q'.statusOf f = some .inactive := by
  have other {i : Nat} {flow : FqCoDelFlow} (here : q.classes[i]? = some flow)
      (active : flow.status ≠ .inactive) : f ≠ i := by
    rintro rfl
    rw [statusOf_eq here] at asleep
    exact active (some.inj asleep)
  cases move with
  | turnNew front here spent =>
    have ne := other here (by rw [listed.front_new front here]; exact nofun)
    exact ((statusOf_update here _ f).trans (if_neg ne)).trans asleep
  | turnOld front here spent =>
    have ne := other here (by rw [listed.front_old front here]; exact nofun)
    exact ((statusOf_update here _ f).trans (if_neg ne)).trans asleep
  | retireNew front here =>
    have ne := other here (by rw [listed.front_new front here]; exact nofun)
    rw [retire, if_pos (by rw [front]; exact cons_ne_nil _ _)]
    exact ((statusOf_update here _ f).trans (if_neg ne)).trans asleep
  | retireOld empty front here =>
    have ne := other here (by rw [listed.front_old front here]; exact nofun)
    rw [retire, if_neg (not_not.mpr empty)]
    exact ((statusOf_update here _ f).trans (if_neg ne)).trans asleep
  | serve waits here more holds =>
    exact ((statusOf_update here _ f).trans (if_neg (other here waits))).trans asleep

theorem Moves.inactive (listed : Listed q) (moves : Moves q later q')
    (asleep : q.statusOf f = some .inactive) : q'.statusOf f = some .inactive := by
  induction moves with
  | refl => exact asleep
  | step move _ ih => exact ih (listed.move move) (move.inactive listed asleep)

theorem Turns.moves (ne : f ≠ g) (good : Good maxSize q) (pos : 0 < q.quantum)
    (small : q.quantum < 2 ^ 31) (bound : maxSize < 2 ^ 31) (same : q.quantum = q₀.quantum)
    (h : Turns q₀ f g served q) (moves : Moves q later q') :
    Turns q₀ f g (served ++ later) q' ∨ q'.statusOf f = some .inactive ∨
      q'.statusOf g = some .inactive := by
  induction moves generalizing served with
  | refl => exact .inl (by rwa [append_nil])
  | step move moves ih =>
    have good' := good.move pos small bound move
    have quantum := move.quantum
    obtain turns | asleep | asleep := h.move ne good pos small bound same move
    · rw [← append_assoc]
      exact ih good' (quantum ▸ pos) (quantum ▸ small) (quantum.trans same) turns
    · exact .inr (.inl (moves.inactive good'.toListed asleep))
    · exact .inr (.inr (moves.inactive good'.toListed asleep))

/-! ## Intervals -/

/-- An interval in which both flows stay among the old ones, with the bytes that `DoDequeue`
returns in it. -/
inductive Interval (maxSize f g : Nat) (q₀ : FqCoDelQueueDisc) :
    List (Nat × Nat) → FqCoDelQueueDisc → Prop where
  | start (stayF : f ∈ q₀.oldFlows) (stayG : g ∈ q₀.oldFlows) : Interval maxSize f g q₀ [] q₀
  | enqueue {q q' : FqCoDelQueueDisc} {served : List (Nat × Nat)} {item : QueueDiscItem}
      {flowHash : Option Nat} {stored overload : Bool} (before : Interval maxSize f g q₀ served q)
      (size : item.size ≤ maxSize) (run : doEnqueue item flowHash stored overload q = some q')
      (stayF : f ∈ q'.oldFlows) (stayG : g ∈ q'.oldFlows) : Interval maxSize f g q₀ served q'
  | dequeue {q q' : FqCoDelQueueDisc} {served : List (Nat × Nat)} {rounds : Nat}
      {drops : List Nat} {found : Option (Nat × QueueDiscItem)}
      (before : Interval maxSize f g q₀ served q)
      (run : doDequeue rounds drops q = some (found, q'))
      (stayF : f ∈ q'.oldFlows) (stayG : g ∈ q'.oldFlows) :
      Interval maxSize f g q₀ (served ++ returned found) q'

theorem Turns.keeps (listed : Listed q) (h : Turns q₀ f g served q) (keeps : Keeps q q') :
    Turns q₀ f g served q' := by
  have same (x : Nat) (mem : x ∈ q.oldFlows) : q'.deficitOf x = q.deficitOf x := by
    obtain ⟨flow, here⟩ := listed.class_of_old mem
    have status := (listed.old x).mp mem
    rw [statusOf_eq here] at status
    obtain ⟨flow', here', -, deficit⟩ := keeps.deficit x flow here (some.inj status)
    rw [deficitOf_eq here, deficitOf_eq here', deficit]
  obtain ⟨memF, memG⟩ := h.mem
  exact h.frame (same f memF) (same g memG) fun x y _ before => keeps.old ▸ before

theorem Listed.awake (h : Listed q) (stay : f ∈ q.oldFlows) : q.statusOf f ≠ some .inactive := by
  rw [(h.old f).mp stay]
  exact nofun

/-- Both flows have taken turns all the time. -/
theorem Interval.turns (ne : f ≠ g) (good : Good maxSize q₀) (pos : 0 < q₀.quantum)
    (small : q₀.quantum < 2 ^ 31) (bound : maxSize < 2 ^ 31) (first : Before f g q₀.oldFlows)
    (h : Interval maxSize f g q₀ served q) :
    Good maxSize q ∧ q.quantum = q₀.quantum ∧ Turns q₀ f g served q := by
  induction h with
  | start => exact ⟨good, rfl, 0, 0, by simp [bytesOf], by simp [bytesOf], .inl ⟨rfl, first⟩⟩
  | enqueue _ size run _ _ ih =>
    obtain ⟨good, same, turns⟩ := ih
    obtain ⟨good', keeps⟩ := good.doEnqueue (same ▸ pos) (same ▸ small) size run
    exact ⟨good', keeps.quantum.trans same, turns.keeps good.toListed keeps⟩
  | dequeue _ run stayF stayG ih =>
    obtain ⟨good, same, turns⟩ := ih
    obtain ⟨moves, -⟩ := doDequeue_moves good.toListed run
    obtain ⟨good', same'⟩ := good.moves (same ▸ pos) (same ▸ small) bound moves
    refine ⟨good', same'.trans same, ?_⟩
    obtain turns | asleep | asleep :=
      turns.moves ne good (same ▸ pos) (same ▸ small) bound same moves
    · exact turns
    · exact absurd asleep (good'.awake stayF)
    · exact absurd asleep (good'.awake stayG)

theorem Good.deficit_old (good : Good maxSize q) (mem : f ∈ q.oldFlows) :
    -(maxSize : Int) < q.deficitOf f ∧ q.deficitOf f ≤ q.quantum := by
  obtain ⟨flow, here⟩ := good.class_of_old mem
  have status := (good.old f).mp mem
  rw [statusOf_eq here, some.injEq] at status
  rw [deficitOf_eq here]
  exact good.limits here (by rw [status]; exact nofun)

/-- The bound for the flow that stands first. -/
theorem Interval.bound (ne : f ≠ g) (good : Good maxSize q₀) (pos : 0 < q₀.quantum)
    (small : q₀.quantum < 2 ^ 31) (bound : maxSize < 2 ^ 31) (first : Before f g q₀.oldFlows)
    (h : Interval maxSize f g q₀ served q) :
    |(bytesOf f served : Int) - bytesOf g served| < 3 * q₀.quantum + 2 * maxSize := by
  obtain ⟨good', same, turns⟩ := h.turns ne good pos small bound first
  obtain ⟨memF', memG'⟩ := turns.mem
  have startF := good.deficit_old (first.subset mem_cons_self)
  have startG := good.deficit_old (first.subset (mem_cons_of_mem f mem_cons_self))
  have endF := good'.deficit_old memF'
  have endG := good'.deficit_old memG'
  obtain ⟨a, b, forF, forG, turns⟩ := turns
  have quanta : (q₀.quantum : Int) * a = q₀.quantum * b ∨
      (q₀.quantum : Int) * a = q₀.quantum * b + q₀.quantum := by
    obtain ⟨even, -⟩ | ⟨ahead, -⟩ := turns
    · exact .inl (by rw [even])
    · exact .inr (by rw [ahead, Int.mul_add, Int.mul_one])
  rw [abs_lt]
  omega

theorem Interval.swap (h : Interval maxSize f g q₀ served q) :
    Interval maxSize g f q₀ served q := by
  induction h with
  | start stayF stayG => exact .start stayG stayF
  | enqueue _ size run stayF stayG ih => exact .enqueue ih size run stayG stayF
  | dequeue _ run stayF stayG ih => exact .dequeue ih run stayG stayF

theorem Interval.stays (h : Interval maxSize f g q₀ served q) :
    f ∈ q₀.oldFlows ∧ g ∈ q₀.oldFlows := by
  induction h with
  | start stayF stayG => exact ⟨stayF, stayG⟩
  | enqueue _ _ _ _ _ ih => exact ih
  | dequeue _ _ _ _ ih => exact ih

/-- Two flows that stay old are returned the same number of bytes, up to three quanta and
two packets. -/
theorem flows_fair (start : FqCoDelQueueDisc) (new : IsNew start) (pos : 0 < start.quantum)
    (small : start.quantum < 2 ^ 31) (maxSize : Nat) (bound : maxSize < 2 ^ 31)
    (reached : Reachable maxSize start q₀) (f g : Nat) (h : Interval maxSize f g q₀ served q) :
    |(bytesOf f served : Int) - bytesOf g served| < 3 * start.quantum + 2 * maxSize := by
  obtain ⟨good, same⟩ := reached.good new pos small bound
  rw [← same] at pos small ⊢
  by_cases ne : f = g
  · rw [ne, Int.sub_self, abs_zero]
    omega
  · obtain ⟨memF, memG⟩ := h.stays
    obtain first | first := before_or ne memF memG
    · exact h.bound ne good pos small bound first
    · rw [abs_sub_comm]
      exact h.swap.bound (Ne.symm ne) good pos small bound first

/-! ## Packets of any size -/

/-- A call that a run makes. -/
inductive Call where
  | enqueue (item : QueueDiscItem) (flowHash : Nat)
  | dequeue
  deriving DecidableEq

/-- One call, of children that drop nothing. -/
def step (q : FqCoDelQueueDisc) : Call → Option FqCoDelQueueDisc
  | .enqueue item flowHash => doEnqueue item (some flowHash) true false q
  | .dequeue => (doDequeue 16 [] q).map Prod.snd

theorem Reachable.exec {start : FqCoDelQueueDisc} {calls : List Call}
    (reached : Reachable maxSize start q)
    (sized : ∀ c ∈ calls, ∀ item flowHash, c = .enqueue item flowHash → item.size ≤ maxSize)
    (run : Run.exec step q calls = some q') : Reachable maxSize start q' := by
  refine Run.invariant (C := fun _ c => ∀ item flowHash, c = .enqueue item flowHash →
    item.size ≤ maxSize) reached (Run.Meets.of_calls sized q) ?_ run
  intro r c t reached sized run
  cases c with
  | enqueue item flowHash =>
    have stores : doEnqueue item (some flowHash) true false r = some t := run
    exact .enqueue reached (sized item flowHash rfl) stores
  | dequeue =>
    obtain ⟨⟨found, t'⟩, returns, rfl⟩ := map_eq_some_iff.mp run
    exact .dequeue reached returns

/-- Some calls of `DoDequeue` in which both flows stay old, with the bytes returned. -/
def dequeues (f g : Nat) : Nat → List (Nat × Nat) → FqCoDelQueueDisc →
    Option (List (Nat × Nat) × FqCoDelQueueDisc)
  | 0, served, q => some (served, q)
  | calls + 1, served, q => do
      let (found, q) ← doDequeue 16 [] q
      if f ∈ q.oldFlows ∧ g ∈ q.oldFlows then dequeues f g calls (served ++ returned found) q
      else none

theorem Interval.dequeues (h : Interval maxSize f g q₀ served q) {calls : Nat}
    (run : dequeues f g calls served q = some (later, q')) : Interval maxSize f g q₀ later q' := by
  induction calls generalizing served q with
  | zero =>
    obtain ⟨rfl, rfl⟩ := run
    exact h
  | succ calls ih =>
    simp only [FqCoDelQueueDisc.dequeues, bind_returns] at run
    obtain ⟨⟨found, r⟩, returns, run⟩ := run
    split at run
    case isTrue stay => exact ih (.dequeue h returns stay.1 stay.2) run
    case isFalse => cases run

/-- Two flows, each with a packet of one byte and three packets of this size, that have
both become old. -/
def twoOldFlows (size : Nat) : List Call :=
  [.enqueue ⟨0, 1⟩ 0, .enqueue ⟨1, 1⟩ 1, .enqueue ⟨2, size⟩ 0, .enqueue ⟨3, size⟩ 1,
    .enqueue ⟨4, size⟩ 0, .enqueue ⟨5, size⟩ 1, .enqueue ⟨6, size⟩ 0, .enqueue ⟨7, size⟩ 1,
    .enqueue ⟨8, size⟩ 0, .dequeue, .dequeue, .dequeue]

theorem flows_fair_twoOld :
    ∃ q₀ served q, Reachable 2 { quantum := 1, flows := 2 } q₀ ∧ Interval 2 0 1 q₀ served q ∧
      |(bytesOf 0 served : Int) - bytesOf 1 served| < 3 * (1 : Nat) + 2 * (2 : Nat) := by
  obtain ⟨q₀, run, served, q, serves, stay⟩ : ∃ q₀,
      Run.exec step { quantum := 1, flows := 2 } (twoOldFlows 2) = some q₀ ∧
      ∃ served q, dequeues 0 1 3 [] q₀ = some (served, q) ∧ q₀.oldFlows = [0, 1] :=
    ⟨_, rfl, _, _, rfl, rfl⟩
  have reached : Reachable 2 { quantum := 1, flows := 2 } q₀ :=
    Reachable.start.exec (by simp [twoOldFlows]) run
  have interval : Interval 2 0 1 q₀ served q :=
    Interval.dequeues (.start (by simp [stay]) (by simp [stay])) serves
  exact ⟨q₀, served, q, reached, interval, flows_fair { quantum := 1, flows := 2 } ⟨rfl, rfl, rfl⟩
    (by decide) (by decide) 2 (by decide) reached 0 1 interval⟩

/-- Packets of more than `2^31` bytes increase the deficit, so that one flow is served alone. -/
theorem flows_unfair :
    ∃ q₀ served q, Reachable (2 ^ 32 - 1) { quantum := 1, flows := 2 } q₀ ∧
      Interval (2 ^ 32 - 1) 0 1 q₀ served q ∧
      ¬ |(bytesOf 0 served : Int) - bytesOf 1 served| < 3 * (1 : Nat) + 2 * (2 ^ 32 - 1 : Nat) := by
  obtain ⟨q₀, run, served, q, serves, stay, bytes⟩ : ∃ q₀,
      Run.exec step { quantum := 1, flows := 2 } (twoOldFlows (2 ^ 32 - 1)) = some q₀ ∧
      ∃ served q, dequeues 0 1 3 [] q₀ = some (served, q) ∧ q₀.oldFlows = [0, 1] ∧
        bytesOf 0 served = 3 * (2 ^ 32 - 1) ∧ bytesOf 1 served = 0 :=
    ⟨_, rfl, _, _, rfl, rfl, rfl, rfl⟩
  have reached : Reachable (2 ^ 32 - 1) { quantum := 1, flows := 2 } q₀ :=
    Reachable.start.exec (by simp [twoOldFlows]) run
  have interval : Interval (2 ^ 32 - 1) 0 1 q₀ served q :=
    Interval.dequeues (.start (by simp [stay]) (by simp [stay])) serves
  refine ⟨q₀, served, q, reached, interval, ?_⟩
  rw [bytes.1, bytes.2]
  decide

end Ns3.FqCoDelQueueDisc
