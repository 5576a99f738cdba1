import Ns3.Core.Assert
import Ns3.Core.Scheduler
import Ns3.Library.BinaryHeap
import Mathlib.Data.List.Range

/-!
# The heap scheduler

The events are in a vector, whose first slot is never used so that the root is
at position one. `Insert` appends an event and moves it up. `RemoveNext` and
`Remove` exchange an event with the last one, drop it and move the other down.
-/

namespace Ns3

/-- `HeapScheduler`. -/
structure HeapScheduler where
  heap : Array Event
  deriving DecidableEq

namespace HeapScheduler

/-- The event in the slot that is never used. -/
def empty : Event := { impl := 0, key := { ts := 0, uid := 0, context := 0 } }

/-- The constructor. -/
def start : HeapScheduler := { heap := #[empty] }

/-- `m_heap[id]`. -/
def «at» (h : HeapScheduler) (id : Nat) : Event := h.heap.getD id empty

def parent (id : Nat) : Nat := id / 2

def leftChild (id : Nat) : Nat := id * 2

def rightChild (id : Nat) : Nat := id * 2 + 1

def root : Nat := 1

def isRoot (id : Nat) : Bool := id == root

def last (h : HeapScheduler) : Nat := h.heap.size - 1

def isBottom (h : HeapScheduler) (id : Nat) : Bool := decide (h.heap.size ≤ id)

def exch (h : HeapScheduler) (a b : Nat) : HeapScheduler := { heap := h.heap.swapIfInBounds a b }

def isLessStrictly (h : HeapScheduler) (a b : Nat) : Bool := (h.at a).key.lt (h.at b).key

def smallest (h : HeapScheduler) (a b : Nat) : Nat := if h.isLessStrictly a b then a else b

def isEmpty (h : HeapScheduler) : Bool := h.heap.size == 1

/-- The loop of `BottomUp`. -/
def bottomUpFrom (h : HeapScheduler) (index : Nat) : HeapScheduler :=
  if 0 < index ∧ isRoot index = false ∧ h.isLessStrictly index (parent index) = true then
    bottomUpFrom (h.exch index (parent index)) (parent index)
  else h
termination_by index
decreasing_by
  unfold parent
  omega

/-- `BottomUp`. -/
def bottomUp (h : HeapScheduler) : HeapScheduler := h.bottomUpFrom h.last

@[simp] theorem size_exch (h : HeapScheduler) (a b : Nat) :
    (h.exch a b).heap.size = h.heap.size := by
  simp [exch]

/-- `TopDown`. Positions start at one. -/
def topDown (h : HeapScheduler) (index : Nat) : HeapScheduler :=
  if 0 < index ∧ h.isBottom (rightChild index) = false then
    let tmp := h.smallest (leftChild index) (rightChild index)
    if h.isLessStrictly index tmp then h
    else topDown (h.exch index tmp) tmp
  else if h.isBottom index then h
  else if h.isBottom (leftChild index) then h
  else if h.isLessStrictly index (leftChild index) then h
  else h.exch index (leftChild index)
termination_by h.heap.size - index
decreasing_by
  have bound : rightChild index < h.heap.size := by simp_all [isBottom]
  rw [size_exch, smallest]
  unfold leftChild rightChild at *
  split <;> omega

/-- `Insert`. -/
def insert (h : HeapScheduler) (ev : Event) : HeapScheduler :=
  bottomUp { heap := h.heap.push ev }

/-- `PeekNext`. -/
def peekNext (h : HeapScheduler) : Option Event :=
  if h.isEmpty then none else some (h.at root)

/-- `RemoveNext`. -/
def removeNext (h : HeapScheduler) : Option (Event × HeapScheduler) :=
  if h.isEmpty then none
  else some (h.at root, topDown { heap := (h.exch root h.last).heap.pop } root)

/-- The position of the first event with the id, which `Remove` searches for. -/
def position (h : HeapScheduler) (uid : Nat) : Option Nat :=
  (List.range' 1 h.last).find? fun i => uid == (h.at i).key.uid

/-- `Remove`. -/
def remove (profile : BuildProfile) (h : HeapScheduler) (ev : Event) : Option HeapScheduler :=
  match h.position ev.key.uid with
  | some i => do
      nsAssert profile ((h.at i).impl == ev.impl)
      return topDown { heap := (h.exch i h.last).heap.pop } i
  | none => do
      nsAssert profile false
      return h

/-- The heap as an implementation of `Scheduler`. -/
def scheduler (profile : BuildProfile) : Scheduler HeapScheduler where
  insert h ev := some (h.insert ev)
  isEmpty := isEmpty
  peekNext := peekNext
  removeNext := removeNext
  remove := remove profile

/-- The events in the vector. -/
def events (h : HeapScheduler) : List Event := h.heap.toList.drop 1

end HeapScheduler

end Ns3

/-!
## The loops of the heap scheduler

`BottomUp` and `TopDown` exchange events. They keep what is stored, and they
restore the heap order when it is broken at the position they start from only.
-/

namespace Ns3.HeapScheduler

open BinaryHeap

variable {h : HeapScheduler} {ev : Event} {a b i index : Nat}

/-- The key at a position, as the comparisons see it. -/
def ranks (h : HeapScheduler) (i : Nat) : ℕ ×ₗ ℕ := (h.at i).key.rank

/-- No event comes before the event at its parent position. -/
def HeapOrdered (h : HeapScheduler) : Prop := Ordered h.ranks h.last

theorem isLessStrictly_eq (h : HeapScheduler) (a b : Nat) :
    h.isLessStrictly a b = decide (h.ranks a < h.ranks b) :=
  EventKey.lt_eq _ _

section Exchange

@[simp] theorem last_exch (h : HeapScheduler) (a b : Nat) : (h.exch a b).last = h.last := by
  simp [last]

theorem at_exch (ha : a < h.heap.size) (hb : b < h.heap.size) (i : Nat) :
    (h.exch a b).at i = h.at (Equiv.swap a b i) := by
  have moved : (h.exch a b).heap = h.heap.swap a b := by
    rw [exch, Array.swapIfInBounds_def, dif_pos ha, dif_pos hb]
  simp only [«at», moved, Array.getD_eq_getD_getElem?, Array.getElem?_swap, Equiv.swap_apply_def]
  by_cases right : i = b
  · subst right
    by_cases left : i = a
    · subst left
      simp [ha]
    · simp [left, ha]
  · by_cases left : i = a
    · subst left
      simp [hb, Ne.symm right]
    · simp [left, right, Ne.symm left, Ne.symm right]

theorem ranks_exch (ha : a < h.heap.size) (hb : b < h.heap.size) :
    (h.exch a b).ranks = h.ranks ∘ Equiv.swap a b := by
  funext i
  rw [ranks, at_exch ha hb]
  rfl

theorem toList_eq (pos : 0 < h.heap.size) : h.heap.toList = h.at 0 :: h.events := by
  obtain ⟨⟨list⟩⟩ := h
  cases list with
  | nil => cases pos
  | cons first rest => rfl

theorem events_exch (ha : a < h.heap.size) (hb : b < h.heap.size) (pos : 0 < a) (pos' : 0 < b) :
    (h.exch a b).events.Perm h.events := by
  have same : (h.exch a b).heap.toList.Perm h.heap.toList := by
    rw [exch, Array.swapIfInBounds_def, dif_pos ha, dif_pos hb]
    exact (Array.swap_perm ha hb).toList
  have unused : (h.exch a b).at 0 = h.at 0 := by
    rw [at_exch ha hb, Equiv.swap_apply_of_ne_of_ne (by omega) (by omega)]
  rw [toList_eq (by rw [size_exch]; omega), toList_eq (by omega), unused] at same
  exact same.cons_inv

end Exchange

section Loops

theorem bottomUpFrom_events (bound : index < h.heap.size) :
    (h.bottomUpFrom index).events.Perm h.events ∧
      (h.bottomUpFrom index).heap.size = h.heap.size := by
  induction h, index using bottomUpFrom.induct with
  | case1 h index moves ih =>
    rw [bottomUpFrom, if_pos moves]
    obtain ⟨pos, notRoot, -⟩ := moves
    have two : 2 ≤ index := by
      have : index ≠ 1 := by simpa [isRoot, root] using notRoot
      omega
    have parent_ : parent index < index ∧ 0 < parent index := by
      unfold parent
      omega
    obtain ⟨events, size⟩ := ih (by rw [size_exch]; omega)
    refine ⟨events.trans ?_, size.trans (size_exch _ _ _)⟩
    exact events_exch bound (by omega) pos parent_.2
  | case2 h index stops =>
    rw [bottomUpFrom, if_neg stops]
    exact ⟨.rfl, rfl⟩

theorem bottomUpFrom_ordered (up : Up h.ranks h.last index) (pos : 0 < index)
    (bound : index < h.heap.size) : (h.bottomUpFrom index).HeapOrdered := by
  induction h, index using bottomUpFrom.induct with
  | case1 h index moves ih =>
    rw [bottomUpFrom, if_pos moves]
    obtain ⟨-, notRoot, less⟩ := moves
    have two : 2 ≤ index := by
      have : index ≠ 1 := by simpa [isRoot, root] using notRoot
      omega
    rw [isLessStrictly_eq, decide_eq_true_eq] at less
    unfold parent at less ih ⊢
    have le : index ≤ h.last := by
      unfold last
      omega
    refine ih ?_ (by omega) (by rw [size_exch]; omega)
    rw [ranks_exch bound (by omega), last_exch]
    exact up.step two le less
  | case2 h index stops =>
    rw [bottomUpFrom, if_neg stops]
    refine up.finish fun two => ?_
    by_contra less
    refine stops ⟨pos, ?_, ?_⟩
    · simp [isRoot, root]
      omega
    · rw [isLessStrictly_eq, decide_eq_true_eq]
      exact not_le.mp less

theorem smallest_cases (h : HeapScheduler) (a b : Nat) :
    (h.smallest a b = a ∨ h.smallest a b = b) ∧ h.ranks (h.smallest a b) ≤ h.ranks a ∧
      h.ranks (h.smallest a b) ≤ h.ranks b := by
  rw [smallest, isLessStrictly_eq]
  split
  · next less => exact ⟨.inl rfl, le_rfl, (decide_eq_true_eq.mp less).le⟩
  · next notLess => exact ⟨.inr rfl, not_lt.mp fun less => notLess (decide_eq_true less), le_rfl⟩

theorem isBottom_eq_false : h.isBottom i = false ↔ i < h.heap.size := by
  simp [isBottom]

theorem topDown_leaf (leaf : h.heap.size ≤ leftChild index) : h.topDown index = h := by
  have right : h.isBottom (rightChild index) = true := by
    refine decide_eq_true ?_
    simp only [leftChild, rightChild] at leaf ⊢
    omega
  have left : h.isBottom (leftChild index) = true := by simpa [isBottom] using leaf
  rw [topDown, if_neg (by simp [right]), if_pos left, ite_self]

/-- A turn of `TopDown`: it ends where no child is smaller, or it goes on from the
smaller child. -/
theorem topDown_cases (pos : 0 < index) :
    (h.topDown index = h ∧ ∀ c, c ≤ h.last → c / 2 = index → h.ranks index ≤ h.ranks c) ∨
      ∃ c, c / 2 = index ∧ c < h.heap.size ∧
        (∀ d, d ≤ h.last → d / 2 = index → h.ranks c ≤ h.ranks d) ∧
        h.ranks c ≤ h.ranks index ∧ h.topDown index = (h.exch index c).topDown c := by
  by_cases leaf : h.heap.size ≤ leftChild index
  · refine .inl ⟨topDown_leaf leaf, fun c le child => ?_⟩
    unfold leftChild at leaf
    unfold last at le
    omega
  rw [topDown]
  by_cases inside : h.isBottom (rightChild index) = false
  · rw [if_pos ⟨pos, inside⟩]
    obtain ⟨which, leLeft, leRight⟩ := h.smallest_cases (leftChild index) (rightChild index)
    rw [isBottom_eq_false] at inside
    have least : ∀ d, d ≤ h.last → d / 2 = index →
        h.ranks (h.smallest (leftChild index) (rightChild index)) ≤ h.ranks d := by
      intro d _ child
      obtain rfl | rfl : d = leftChild index ∨ d = rightChild index := by
        unfold leftChild rightChild
        omega
      · exact leLeft
      · exact leRight
    generalize h.smallest (leftChild index) (rightChild index) = c at which least
    have child : c / 2 = index ∧ c < h.heap.size := by
      simp only [leftChild, rightChild] at which inside
      omega
    simp only [isLessStrictly_eq]
    by_cases less : h.ranks index < h.ranks c
    · rw [if_pos (decide_eq_true less)]
      exact .inl ⟨rfl, fun d le parent => less.le.trans (least d le parent)⟩
    · rw [if_neg (by simpa using less)]
      exact .inr ⟨c, child.1, child.2, least, not_lt.mp less, rfl⟩
  · -- The left child is the only one, and it has no child.
    have right : h.heap.size ≤ rightChild index := by simpa [isBottom] using inside
    have bound : leftChild index < h.heap.size := not_le.mp leaf
    have only : ∀ d, d ≤ h.last → d / 2 = index → d = leftChild index := by
      simp only [last, leftChild, rightChild] at *
      omega
    have least : ∀ d, d ≤ h.last → d / 2 = index →
        h.ranks (leftChild index) ≤ h.ranks d := by
      intro d le child
      rw [only d le child]
    have here : h.isBottom index = false := by
      rw [isBottom_eq_false]
      simp only [leftChild] at bound
      omega
    rw [if_neg (fun both => inside both.2), if_neg (by simp [here]),
      if_neg (by simpa [isBottom] using bound), isLessStrictly_eq]
    by_cases less : h.ranks index < h.ranks (leftChild index)
    · rw [if_pos (decide_eq_true less)]
      exact .inl ⟨rfl, fun d le child => less.le.trans (least d le child)⟩
    · rw [if_neg (by simpa using less)]
      refine .inr ⟨leftChild index, ?_, bound, least, not_lt.mp less, ?_⟩
      · unfold leftChild
        omega
      · rw [topDown_leaf]
        simp only [size_exch, leftChild, rightChild] at *
        omega

theorem topDown_spec (pos : 0 < index) :
    (h.topDown index).events.Perm h.events ∧ (h.topDown index).heap.size = h.heap.size ∧
      (Down h.ranks h.last index → (h.topDown index).HeapOrdered) := by
  induction left : h.heap.size - index using Nat.strongRecOn generalizing h index with
  | ind left ih =>
    obtain ⟨stops, stop⟩ | ⟨c, child, bound, least, more, goes⟩ := topDown_cases (h := h) pos
    · rw [stops]
      exact ⟨.rfl, rfl, fun down => down.finish fun c _ => stop c⟩
    · have lt : index < c := by omega
      obtain ⟨events, size, ordered⟩ := ih ((h.exch index c).heap.size - c)
        (by rw [size_exch]; omega) (by omega : 0 < c) rfl
      rw [goes]
      refine ⟨events.trans (events_exch (by omega) bound pos (by omega)),
        size.trans (size_exch _ _ _), fun down => ordered ?_⟩
      rw [ranks_exch (by omega) bound, last_exch]
      exact down.step pos child (by unfold last; omega) least more

end Loops

end Ns3.HeapScheduler
