import Ns3.Core.Assert
import Ns3.Core.Scheduler
import Mathlib.Data.List.GetD

/-!
# The calendar scheduler

The events are in buckets, a bucket for every day of a year of `m_nBuckets` days
of `m_width` ticks. The search for the next event starts at the day of the last
one and goes through one year. When the number of events leaves a range, the
number of buckets is doubled or halved and the width is taken from the distances
between the next events.
-/

namespace Ns3

/-- `CalendarScheduler`. -/
structure CalendarScheduler where
  buckets : List (List Event)
  nBuckets : Nat
  width : Nat
  lastBucket : Nat
  bucketTop : Nat
  lastPrio : Nat
  qSize : Nat
  reverse : Bool
  deriving DecidableEq

namespace CalendarScheduler

section Buckets

/-- `NextEvent`: the event of a bucket that comes first. -/
def nextEvent (reverse : Bool) (bucket : List Event) : Option Event :=
  if reverse then bucket.getLast? else bucket.head?

/-- `Order`: the order of the events in a bucket. -/
def order (reverse : Bool) (a b : EventKey) : Bool := if reverse then a.gt b else a.lt b

/-- `Pop`. -/
def pop (reverse : Bool) (bucket : List Event) : List Event :=
  if reverse then bucket.dropLast else bucket.tail

/-- `Hash`. -/
def hash (c : CalendarScheduler) (ts : Nat) : Nat := ts / c.width % c.nBuckets

/-- `m_buckets[i]`. -/
def bucket (c : CalendarScheduler) (i : Nat) : List Event := c.buckets.getD i []

/-- `Init`. The old buckets are the caller's to keep. -/
def init (c : CalendarScheduler) (nBuckets width startPrio : Nat) : CalendarScheduler :=
  let c := { c with buckets := List.replicate nBuckets [], nBuckets, width, lastPrio := startPrio }
  { c with
    lastBucket := c.hash startPrio
    bucketTop := UInt64.mul (UInt64.add (startPrio / width) 1) width }

/-- The constructor, with the attribute `Reverse`. -/
def start (reverse : Bool) : CalendarScheduler :=
  init { buckets := [], nBuckets := 0, width := 0, lastBucket := 0, bucketTop := 0, lastPrio := 0,
         qSize := 0, reverse } 2 1 0

/-- The walk of `DoInsert` through a bucket. -/
def insertOrdered (reverse : Bool) (ev : Event) : List Event → List Event
  | [] => [ev]
  | other :: rest =>
    if order reverse ev.key other.key then ev :: other :: rest
    else other :: insertOrdered reverse ev rest

/-- `DoInsert`. -/
def doInsert (c : CalendarScheduler) (ev : Event) : CalendarScheduler :=
  { c with buckets := c.buckets.modify (c.hash ev.key.ts) (insertOrdered c.reverse ev) }

def isEmpty (c : CalendarScheduler) : Bool := c.qSize == 0

end Buckets

section Search

/-- How the walk of `PeekNext` and `DoRemoveNext` through the year ends: at an
event of the day the walk has come to, or with the least one of all buckets. -/
inductive Found where
  | today (bucket bucketTop : Nat) (next : Event)
  | least (minEvent : Event) (minBucket : Option Nat)

/-- The walk, with at most `turns` buckets to come. -/
def search (c : CalendarScheduler) : Nat → Nat → Nat → Event → Option Nat → Option Found
  | 0, _, _, _, _ => none
  | turns + 1, i, bucketTop, minEvent, minBucket =>
    let goOn := fun (minEvent : Event) (minBucket : Option Nat) =>
      let i := (i + 1) % c.nBuckets
      if i = c.lastBucket then some (.least minEvent minBucket)
      else c.search turns i (UInt64.add bucketTop c.width) minEvent minBucket
    match nextEvent c.reverse (c.bucket i) with
    | none => goOn minEvent minBucket
    | some next =>
      if next.key.ts < bucketTop then some (.today i bucketTop next)
      else if next.key.lt minEvent.key then goOn next (some i)
      else goOn minEvent minBucket

/-- `PeekNext`. -/
def peekNext (profile : BuildProfile) (c : CalendarScheduler) : Option Event := do
  nsAssert profile (!c.isEmpty)
  let minEvent := { impl := 0, key := { ts := 2 ^ 64 - 1, uid := 2 ^ 32 - 1, context := 0 } }
  match ← c.search c.nBuckets c.lastBucket c.bucketTop minEvent none with
  | .today _ _ next => return next
  | .least minEvent _ => return minEvent

/-- `DoRemoveNext`. -/
def doRemoveNext (profile : BuildProfile) (c : CalendarScheduler) :
    Option (Event × CalendarScheduler) := do
  nsAssert profile (!c.isEmpty)
  let minEvent := { impl := 0, key := { ts := 2 ^ 64 - 1, uid := 0, context := 2 ^ 32 - 1 } }
  match ← c.search c.nBuckets c.lastBucket c.bucketTop minEvent none with
  | .today i bucketTop next =>
    return (next, { c with
      lastBucket := i
      lastPrio := next.key.ts
      bucketTop
      buckets := c.buckets.modify i (pop c.reverse) })
  | .least minEvent minBucket =>
    let minKey := minEvent.key
    let minBucket ← minBucket
    let next ← nextEvent c.reverse (c.bucket minBucket)
    return (next, { c with
      lastPrio := minKey.ts
      lastBucket := c.hash minKey.ts
      bucketTop := UInt64.mul (UInt64.add (minKey.ts / c.width) 1) c.width
      buckets := c.buckets.modify minBucket (pop c.reverse) })

end Search

section Resize

/-- The first loop of `CalculateNewWidth`: the next events, taken out. -/
def gather (profile : BuildProfile) : Nat → CalendarScheduler →
    Option (List Event × CalendarScheduler)
  | 0, c => some ([], c)
  | n + 1, c => do
      let (ev, c) ← c.doRemoveNext profile
      let (samples, c) ← gather profile n c
      return (ev :: samples, c)

/-- The distances between neighbours. -/
def separations : List Event → List Nat
  | cur :: next :: rest => UInt64.sub next.key.ts cur.key.ts :: separations (next :: rest)
  | _ => []

/-- The average of `CalculateNewWidth` over the samples, without the distances that
are more than twice as long. -/
def averageWidth (nSamples : Nat) (samples : List Event) : Nat :=
  let totalSeparation := (separations samples).foldl UInt64.add 0
  let twiceAvg := UInt64.mul (totalSeparation / (nSamples - 1)) 2
  let totalSeparation :=
    ((separations samples).filter fun diff => decide (diff ≤ twiceAvg)).foldl UInt64.add 0
  max (UInt64.mul totalSeparation 3) 1

/-- `CalculateNewWidth`. -/
def calculateNewWidth (profile : BuildProfile) (c : CalendarScheduler) :
    Option (Nat × CalendarScheduler) :=
  if c.qSize < 2 then some (1, c)
  else do
    let nSamples := min (if c.qSize ≤ 5 then c.qSize else 5 + c.qSize / 10) 25
    let (samples, gathered) ← gather profile nSamples c
    let c := { samples.foldl doInsert gathered with
      lastBucket := c.lastBucket
      bucketTop := c.bucketTop
      lastPrio := c.lastPrio }
    return (averageWidth nSamples samples, c)

/-- `DoResize`. -/
def doResize (c : CalendarScheduler) (newSize newWidth : Nat) : CalendarScheduler :=
  c.buckets.flatten.foldl doInsert (c.init newSize newWidth c.lastPrio)

/-- `Resize`. -/
def resize (profile : BuildProfile) (c : CalendarScheduler) (newSize : Nat) :
    Option CalendarScheduler := do
  let (newWidth, c) ← c.calculateNewWidth profile
  return c.doResize newSize newWidth

/-- `ResizeUp`. -/
def resizeUp (profile : BuildProfile) (c : CalendarScheduler) : Option CalendarScheduler :=
  if c.nBuckets * 2 < c.qSize ∧ c.nBuckets < 32768 then c.resize profile (c.nBuckets * 2)
  else some c

/-- `ResizeDown`. -/
def resizeDown (profile : BuildProfile) (c : CalendarScheduler) : Option CalendarScheduler :=
  if c.qSize < c.nBuckets / 2 then c.resize profile (c.nBuckets / 2) else some c

end Resize

section Calls

/-- `Insert`. -/
def insert (profile : BuildProfile) (c : CalendarScheduler) (ev : Event) :
    Option CalendarScheduler :=
  let c := c.doInsert ev
  resizeUp profile { c with qSize := UInt32.add c.qSize 1 }

/-- `RemoveNext`. -/
def removeNext (profile : BuildProfile) (c : CalendarScheduler) :
    Option (Event × CalendarScheduler) := do
  nsAssert profile (!c.isEmpty)
  let (ev, c) ← c.doRemoveNext profile
  let c ← resizeDown profile { c with qSize := UInt32.sub c.qSize 1 }
  return (ev, c)

/-- `Remove`. -/
def remove (profile : BuildProfile) (c : CalendarScheduler) (ev : Event) :
    Option CalendarScheduler := do
  nsAssert profile (!c.isEmpty)
  let i := c.hash ev.key.ts
  match (c.bucket i).find? fun stored => stored.key.uid == ev.key.uid with
  | some stored =>
    nsAssert profile (ev.impl == stored.impl)
    resizeDown profile { c with
      buckets := c.buckets.modify i fun bucket =>
        bucket.eraseP fun stored => stored.key.uid == ev.key.uid
      qSize := UInt32.sub c.qSize 1 }
  | none => do
      nsAssert profile false
      return c

/-- The calendar as an implementation of `Scheduler`. -/
def scheduler (profile : BuildProfile) : Scheduler CalendarScheduler where
  insert := insert profile
  isEmpty := isEmpty
  peekNext := peekNext profile
  removeNext := removeNext profile
  remove := remove profile

/-- The events in the buckets. -/
def events (c : CalendarScheduler) : List Event := c.buckets.flatten

end Calls

end CalendarScheduler

end Ns3

/-!
## Buckets

A bucket is sorted, ascending or descending by the attribute `Reverse`, and holds
events of its own days only. Insertion and removal of the next event change one
bucket.
-/

namespace Ns3.CalendarScheduler

variable {c : CalendarScheduler} {ev : Event} {i j : Nat} {reverse : Bool} {bucket : List Event}

section Sorted

/-- The list is in the order of the mode. -/
def Sorted (reverse : Bool) (bucket : List Event) : Prop :=
  bucket.Pairwise fun a b => order reverse a.key b.key = true

theorem order_eq (reverse : Bool) (a b : EventKey) :
    order reverse a b = if reverse then decide (b.rank < a.rank) else decide (a.rank < b.rank) := by
  cases reverse
  · exact EventKey.lt_eq a b
  · exact (EventKey.gt_eq a b).trans (EventKey.lt_eq b a)

theorem order_trans {a b d : EventKey} (ab : order reverse a b = true)
    (bd : order reverse b d = true) : order reverse a d = true := by
  rw [order_eq] at *
  cases reverse <;> simp only [Bool.false_eq_true, if_false, if_true, decide_eq_true_eq] at *
  · exact ab.trans bd
  · exact bd.trans ab

theorem order_total {a b : EventKey} (ne : a.rank ≠ b.rank) (not : order reverse a b = false) :
    order reverse b a = true := by
  rw [order_eq] at *
  cases reverse <;>
    simp only [Bool.false_eq_true, if_false, if_true, decide_eq_true_eq, decide_eq_false_iff_not,
      not_lt] at *
  · exact lt_of_le_of_ne not ne.symm
  · exact lt_of_le_of_ne not ne

theorem insertOrdered_perm (reverse : Bool) (ev : Event) (bucket : List Event) :
    (insertOrdered reverse ev bucket).Perm (ev :: bucket) := by
  induction bucket with
  | nil => exact .rfl
  | cons other rest ih =>
    rw [insertOrdered]
    split
    · exact .rfl
    · exact (ih.cons other).trans (List.Perm.swap ev other rest)

theorem insertOrdered_sorted (sorted : Sorted reverse bucket)
    (fresh : ∀ other ∈ bucket, ev.key.rank ≠ other.key.rank) :
    Sorted reverse (insertOrdered reverse ev bucket) := by
  induction bucket with
  | nil => exact List.pairwise_singleton _ _
  | cons other rest ih =>
    obtain ⟨before, sorted'⟩ := List.pairwise_cons.mp sorted
    obtain ⟨ne, fresh'⟩ := List.forall_mem_cons.mp fresh
    rw [insertOrdered]
    cases first : order reverse ev.key other.key with
    | true =>
      refine List.pairwise_cons.mpr ⟨?_, sorted⟩
      exact List.forall_mem_cons.mpr
        ⟨first, fun x member => order_trans first (before x member)⟩
    | false =>
      refine List.pairwise_cons.mpr ⟨fun x member => ?_, ih sorted' fresh'⟩
      obtain rfl | member := List.mem_cons.mp ((insertOrdered_perm _ _ _).mem_iff.mp member)
      · exact order_total ne first
      · exact before x member

theorem nextEvent_eq_none : nextEvent reverse bucket = none ↔ bucket = [] := by
  cases reverse <;> simp [nextEvent]

/-- The event of a sorted bucket that `NextEvent` shows and `Pop` takes out. -/
theorem nextEvent_spec (sorted : Sorted reverse bucket)
    (next : nextEvent reverse bucket = some ev) :
    bucket.Perm (ev :: pop reverse bucket) ∧ Sorted reverse (pop reverse bucket) ∧
      ∀ other ∈ bucket, ev.key.rank ≤ other.key.rank := by
  cases reverse with
  | false =>
    obtain ⟨rest, rfl⟩ : ∃ rest, bucket = ev :: rest := by
      cases bucket with
      | nil => exact absurd next (by simp [nextEvent])
      | cons first rest => exact ⟨rest, by rw [Option.some.inj next]⟩
    obtain ⟨before, sorted'⟩ := List.pairwise_cons.mp sorted
    refine ⟨.rfl, sorted', List.forall_mem_cons.mpr ⟨le_rfl, ?_⟩⟩
    intro other member
    have less := before other member
    rw [order_eq, if_neg Bool.false_ne_true, decide_eq_true_eq] at less
    exact less.le
  | true =>
    have whole : bucket.dropLast ++ [ev] = bucket := List.dropLast_append_getLast? ev next
    generalize first : bucket.dropLast = front at whole
    subst whole
    obtain ⟨sorted', -, after⟩ := List.pairwise_append.mp sorted
    rw [pop, if_pos rfl, List.dropLast_concat]
    refine ⟨List.perm_append_singleton _ _, sorted', fun other member => ?_⟩
    obtain member | member := List.mem_append.mp member
    · have less := after other member ev (List.mem_singleton_self ev)
      rw [order_eq, if_pos rfl, decide_eq_true_eq] at less
      exact less.le
    · rw [List.mem_singleton.mp member]

end Sorted

section Modify

variable {α : Type*} {lists : List (List α)} {f : List α → List α}

theorem getD_modify (f : List α → List α) (lt : i < lists.length) :
    (lists.modify i f).getD j [] = if i = j then f (lists.getD i []) else lists.getD j [] := by
  simp only [List.getD_eq_getElem?_getD, List.getElem?_modify]
  split
  · next same =>
      subst same
      simp [lt]
  · simp

theorem flatten_modify (lists : List (List α)) (lt : i < lists.length) :
    ∃ others, lists.flatten.Perm (lists.getD i [] ++ others) ∧
      ∀ f, (lists.modify i f).flatten.Perm (f (lists.getD i []) ++ others) := by
  induction lists generalizing i with
  | nil => cases lt
  | cons first rest ih =>
    cases i with
    | zero => exact ⟨rest.flatten, by simp, fun f => by simp⟩
    | succ i =>
      obtain ⟨others, same, modified⟩ := ih (by simpa using lt)
      refine ⟨first ++ others, ?_, fun f => ?_⟩
      · rw [List.flatten_cons, List.getD_cons_succ]
        exact (same.append_left first).trans (List.perm_append_comm_assoc _ _ _)
      · rw [List.modify_succ_cons, List.flatten_cons, List.getD_cons_succ]
        exact ((modified f).append_left first).trans (List.perm_append_comm_assoc _ _ _)

end Modify

section Filed

/-- Every bucket is sorted and holds events of its days only. -/
structure Filed (c : CalendarScheduler) : Prop where
  length : c.buckets.length = c.nBuckets
  some_ : 1 ≤ c.nBuckets
  few : c.nBuckets ≤ 65536
  width : 1 ≤ c.width
  narrow : c.width ≤ 3 * 2 ^ 40
  days : ∀ i, ∀ ev ∈ c.bucket i, c.hash ev.key.ts = i
  sorted : ∀ i, Sorted c.reverse (c.bucket i)

theorem Filed.hash_lt (h : Filed c) (ts : Nat) : c.hash ts < c.nBuckets :=
  Nat.mod_lt _ h.some_

theorem Filed.mem_events (h : Filed c) : ev ∈ c.events ↔ ev ∈ c.bucket (c.hash ev.key.ts) := by
  rw [events, List.mem_flatten]
  constructor
  · rintro ⟨bucket, member, stored⟩
    obtain ⟨i, bound, rfl⟩ := List.getElem_of_mem member
    have here : ev ∈ c.bucket i := by
      rw [bucket, List.getD_eq_getElem _ _ bound]
      exact stored
    rwa [h.days i ev here]
  · intro stored
    have bound : c.hash ev.key.ts < c.buckets.length := h.length ▸ h.hash_lt _
    refine ⟨_, List.getElem_mem bound, ?_⟩
    rwa [bucket, List.getD_eq_getElem _ _ bound] at stored

theorem Filed.modify (h : Filed c) {f : List Event → List Event} (lt : i < c.nBuckets)
    (days : ∀ ev ∈ f (c.bucket i), c.hash ev.key.ts = i)
    (sorted : Sorted c.reverse (f (c.bucket i)))
    {lastBucket bucketTop lastPrio qSize : Nat} :
    Filed { c with buckets := c.buckets.modify i f, lastBucket, bucketTop, lastPrio, qSize } := by
  have changed : ∀ j, (c.buckets.modify i f).getD j [] =
      if i = j then f (c.bucket i) else c.bucket j := by
    intro j
    exact getD_modify f (h.length ▸ lt)
  exact
    { h with
      length := by
        rw [List.length_modify]
        exact h.length
      days := by
        intro j ev member
        rw [bucket, changed] at member
        split at member
        · next same => exact same ▸ days ev member
        · exact h.days j ev member
      sorted := by
        intro j
        rw [bucket, changed]
        split
        · exact sorted
        · exact h.sorted j }

theorem Filed.moved (h : Filed c) (lastBucket bucketTop lastPrio qSize : Nat) :
    Filed { c with lastBucket, bucketTop, lastPrio, qSize } :=
  ⟨h.length, h.some_, h.few, h.width, h.narrow, h.days, h.sorted⟩

theorem Filed.doInsert (h : Filed c) (fresh : ∀ other ∈ c.events, ev.key.rank ≠ other.key.rank) :
    Filed (c.doInsert ev) ∧ (c.doInsert ev).events.Perm (ev :: c.events) := by
  have lt := h.hash_lt ev.key.ts
  have inserted := insertOrdered_perm c.reverse ev (c.bucket (c.hash ev.key.ts))
  constructor
  · refine h.modify lt (fun other member => ?_) (insertOrdered_sorted (h.sorted _) ?_)
    · obtain rfl | member := List.mem_cons.mp (inserted.mem_iff.mp member)
      · rfl
      · exact h.days _ other member
    · intro other member
      have same := h.days _ other member
      exact fresh other (h.mem_events.mpr (same ▸ member))
  · obtain ⟨others, same, modified⟩ := flatten_modify c.buckets (h.length ▸ lt)
    refine (modified _).trans ((inserted.append_right others).trans ?_)
    exact (same.symm.cons ev)

theorem Filed.pop (h : Filed c) (lt : i < c.nBuckets)
    (next : nextEvent c.reverse (c.bucket i) = some ev)
    {lastBucket bucketTop lastPrio qSize : Nat} :
    Filed { c with
      buckets := c.buckets.modify i (pop c.reverse), lastBucket, bucketTop, lastPrio, qSize } ∧
    c.events.Perm (ev :: (c.buckets.modify i (pop c.reverse)).flatten) := by
  obtain ⟨whole, sorted, -⟩ := nextEvent_spec (h.sorted i) next
  refine ⟨h.modify lt (fun other member => ?_) sorted, ?_⟩
  · exact h.days i other (whole.mem_iff.mpr (List.mem_cons_of_mem ev member))
  · obtain ⟨others, same, modified⟩ := flatten_modify c.buckets (h.length ▸ lt)
    refine same.trans ((whole.append_right others).trans ?_)
    exact ((modified _).symm.cons ev)

end Filed

end Ns3.CalendarScheduler
