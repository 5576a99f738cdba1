import Mathlib.Data.Prod.Lex
import Mathlib.Data.List.Basic
import Mathlib.Data.List.Nodup
import Mathlib.Data.List.Perm.Basic
import Mathlib.Tactic.Common
import Ns3.Library.Run

/-!
# Schedulers

A scheduler stores the events of a simulation. Each implementation provides the
same five operations; the simulator inserts events, cancels stored ones and asks
for the next. A session keeps, beside the scheduler, the list of the events that
were inserted and not yet removed.
-/

namespace Ns3

/-- `Scheduler::EventKey`. -/
structure EventKey where
  ts : Nat
  uid : Nat
  context : Nat
  deriving DecidableEq

/-- `Scheduler::Event`. The pointer to the implementation is a number. -/
structure Event where
  impl : Nat
  key : EventKey
  deriving DecidableEq

namespace EventKey

/-- `operator<` on keys. -/
def lt (a b : EventKey) : Bool :=
  if a.ts < b.ts then true
  else if a.ts = b.ts ∧ a.uid < b.uid then true
  else false

/-- `operator>` on keys. -/
def gt (a b : EventKey) : Bool :=
  if a.ts > b.ts then true
  else if a.ts = b.ts ∧ a.uid > b.uid then true
  else false

/-- Time first, then the unique id. -/
def rank (k : EventKey) : ℕ ×ₗ ℕ := toLex (k.ts, k.uid)

theorem lt_eq (a b : EventKey) : a.lt b = decide (a.rank < b.rank) := by
  rw [lt, rank, rank, Bool.eq_iff_iff, decide_eq_true_eq, Prod.Lex.toLex_lt_toLex]
  split
  · next less => simp [less]
  · next notLess =>
      split
      · next same => simp [same]
      · next other => simpa [notLess] using other

theorem gt_eq (a b : EventKey) : a.gt b = b.lt a := by
  rw [gt, lt]
  simp [eq_comm]

theorem rank_lt_of_ts {a b : EventKey} (h : a.ts < b.ts) : a.rank < b.rank :=
  Prod.Lex.toLex_lt_toLex.mpr (.inl h)

theorem ts_le_of_rank {a b : EventKey} (h : a.rank ≤ b.rank) : a.ts ≤ b.ts :=
  not_lt.mp fun less => not_lt.mpr h (rank_lt_of_ts less)

end EventKey

/-- The virtual functions of `Scheduler`. `none` means that the call is made on
an empty list or violates an assertion. -/
structure Scheduler (σ : Type) where
  insert : σ → Event → Option σ
  isEmpty : σ → Bool
  peekNext : σ → Option Event
  removeNext : σ → Option (Event × σ)
  remove : σ → Event → Option σ

namespace Scheduler

/-- The event that comes before all stored ones. -/
def Least (stored : List Event) (ev : Event) : Prop :=
  ev ∈ stored ∧ ∀ other ∈ stored, ev.key.rank ≤ other.key.rank

theorem Least.perm {stored stored' : List Event} {ev : Event} (h : Least stored ev)
    (same : stored.Perm stored') : Least stored' ev :=
  ⟨same.mem_iff.mp h.1, fun other member => h.2 other (same.mem_iff.mpr member)⟩

/-- A call of the simulator. -/
inductive Call where
  | insert (ev : Event)
  | remove (ev : Event)
  | removeNext
  deriving DecidableEq

/-- A scheduler, the events inserted and not removed so far, and the time of the
event that `RemoveNext` returned last. -/
structure Session (σ : Type) where
  scheduler : σ
  stored : List Event
  now : Nat

section Session

variable {σ : Type} (S : Scheduler σ)

/-- One call, with the bookkeeping of what is stored. -/
def call (s : Session σ) : Call → Option (Session σ)
  | .insert ev => do
      let scheduler ← S.insert s.scheduler ev
      return { s with scheduler, stored := ev :: s.stored }
  | .remove ev => do
      let scheduler ← S.remove s.scheduler ev
      return { s with scheduler, stored := s.stored.erase ev }
  | .removeNext => do
      let (ev, scheduler) ← S.removeNext s.scheduler
      return { scheduler, stored := s.stored.erase ev, now := ev.key.ts }

/-- What a caller promises: unique ids, and removal only of what is stored. -/
def Allowed (s : Session σ) : Call → Prop
  | .insert ev => ∀ other ∈ s.stored, other.key.uid ≠ ev.key.uid
  | .remove ev => ev ∈ s.stored
  | .removeNext => s.stored ≠ []

instance (s : Session σ) : (c : Call) → Decidable (Allowed s c)
  | .insert ev => inferInstanceAs (Decidable (∀ other ∈ s.stored, other.key.uid ≠ ev.key.uid))
  | .remove ev => inferInstanceAs (Decidable (ev ∈ s.stored))
  | .removeNext => inferInstanceAs (Decidable (s.stored ≠ []))

/-- The scheduler is the sorted set of the stored events: it holds them, shows
the least one as the next, removes exactly that one as the next, and removes
each of them on request. -/
structure Refines (events : σ → List Event) (s : Session σ) : Prop where
  contents : (events s.scheduler).Perm s.stored
  isEmpty : S.isEmpty s.scheduler = s.stored.isEmpty
  next : s.stored ≠ [] → ∃ ev scheduler, Least s.stored ev ∧
    S.peekNext s.scheduler = some ev ∧ S.removeNext s.scheduler = some (ev, scheduler) ∧
      (events scheduler).Perm (s.stored.erase ev)
  remove : ∀ ev ∈ s.stored, ∃ scheduler, S.remove s.scheduler ev = some scheduler ∧
    (events scheduler).Perm (s.stored.erase ev)

end Session

/-- No two stored events have the same id. -/
def Unique (stored : List Event) : Prop := (stored.map fun ev => ev.key.uid).Nodup

section Unique

variable {stored stored' : List Event} {ev other : Event}

section

variable (h : Unique stored)
include h

theorem Unique.perm (same : stored.Perm stored') : Unique stored' :=
  (same.map _).nodup_iff.mp h

theorem Unique.nodup : stored.Nodup := List.Nodup.of_map _ h

theorem Unique.eq_of_uid (member : ev ∈ stored) (member' : other ∈ stored)
    (same : ev.key.uid = other.key.uid) : ev = other :=
  List.inj_on_of_nodup_map h member member' same

theorem Unique.eq_of_rank (member : ev ∈ stored) (member' : other ∈ stored)
    (same : ev.key.rank = other.key.rank) : ev = other :=
  h.eq_of_uid member member' (congrArg (fun r => (ofLex r).2) same)

theorem Unique.cons (fresh : ∀ other ∈ stored, other.key.uid ≠ ev.key.uid) :
    Unique (ev :: stored) := by
  refine List.nodup_cons.mpr ⟨fun member => ?_, h⟩
  obtain ⟨other, member, same⟩ := List.mem_map.mp member
  exact fresh other member same

end

theorem Unique.tail (h : Unique (ev :: stored)) : Unique stored := (List.nodup_cons.mp h).2

theorem Unique.erase (h : Unique stored) (ev : Event) : Unique (stored.erase ev) :=
  h.sublist ((List.erase_sublist).map _)

theorem Least.unique (h : Unique stored) (least : Least stored ev) (least' : Least stored other) :
    ev = other :=
  h.eq_of_rank least.1 least'.1 (le_antisymm (least.2 other least'.1) (least'.2 ev least.1))

end Unique

end Scheduler

end Ns3
