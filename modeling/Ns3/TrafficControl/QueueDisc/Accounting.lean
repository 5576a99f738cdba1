import Ns3.TrafficControl.QueueDisc.Basic
import Ns3.Library.Run

/-!
# What a queue disc counts

The counters of a disc are right modulo their range in every state: what was received is
dropped or enqueued, what was enqueued is dequeued or held. A packet that is dropped after it
was dequeued is counted as dequeued once, whether or not the root holds a peeked packet.
-/

namespace Ns3.QueueDisc

open List Option

variable {d : QueueDisc} {item : QueueDiscItem} {reason : String} {pending : List QueueDiscItem}
  {packets bytes : Nat} {t t' : Tree} {i : Nat} {c : Child} {profile : BuildProfile}

/-- The size of packets. -/
def total (items : List QueueDiscItem) : Nat := (items.map (·.size)).sum

@[simp] theorem total_nil : total [] = 0 := rfl

@[simp] theorem total_cons (item : QueueDiscItem) (items : List QueueDiscItem) :
    total (item :: items) = item.size + total items := rfl

theorem total_append (items others : List QueueDiscItem) :
    total (items ++ others) = total items + total others := by
  rw [total, map_append, sum_append]
  rfl

/-! ## One disc -/

/-- The counters of a disc that holds these packets and bytes, and has received packets that
it has neither enqueued nor dropped yet. -/
structure Books (d : QueueDisc) (pending : List QueueDiscItem) (packets bytes : Nat) : Prop where
  received : d.stats.nTotalReceivedPackets =
    (d.stats.nTotalDroppedPacketsBeforeEnqueue + d.stats.nTotalEnqueuedPackets + pending.length) %
      2 ^ 32
  receivedBytes : d.stats.nTotalReceivedBytes =
    (d.stats.nTotalDroppedBytesBeforeEnqueue + d.stats.nTotalEnqueuedBytes + total pending) % 2 ^ 64
  held : d.nPackets = packets % 2 ^ 32
  heldBytes : d.nBytes = bytes % 2 ^ 32
  enqueued : d.stats.nTotalEnqueuedPackets = (d.stats.nTotalDequeuedPackets + packets) % 2 ^ 32
  enqueuedBytes : d.stats.nTotalEnqueuedBytes = (d.stats.nTotalDequeuedBytes + bytes) % 2 ^ 64

/-- What is neither counted nor stored elsewhere stays. -/
structure SamePeek (d d' : QueueDisc) : Prop where
  peeked : d'.peeked = d.peeked
  requeued : d'.requeued = d.requeued

theorem Books.receive (h : Books d pending packets bytes) (item : QueueDiscItem) :
    Books (d.received item) (item :: pending) packets bytes := by
  obtain ⟨received, receivedBytes, held, heldBytes, enqueued, enqueuedBytes⟩ := h
  refine ⟨?_, ?_, held, heldBytes, enqueued, enqueuedBytes⟩
  · simp only [QueueDisc.received, UInt32.add, length_cons, received]
    omega
  · simp only [QueueDisc.received, UInt64.add, total_cons, receivedBytes]
    omega

theorem Books.enqueue (h : Books d (item :: pending) packets bytes) :
    Books (d.packetEnqueued item) pending (packets + 1) (bytes + item.size) := by
  obtain ⟨received, receivedBytes, held, heldBytes, enqueued, enqueuedBytes⟩ := h
  simp only [length_cons, total_cons] at received receivedBytes
  refine ⟨?_, ?_, ?_, ?_, ?_, ?_⟩
  all_goals simp only [packetEnqueued, UInt32.add, UInt64.add]
  all_goals omega

theorem Books.dropBefore (h : Books d (item :: pending) packets bytes) (reason : String) :
    Books (d.dropBeforeEnqueue item reason) pending packets bytes := by
  obtain ⟨received, receivedBytes, held, heldBytes, enqueued, enqueuedBytes⟩ := h
  simp only [length_cons, total_cons] at received receivedBytes
  refine ⟨?_, ?_, held, heldBytes, enqueued, enqueuedBytes⟩
  all_goals simp only [dropBeforeEnqueue, UInt32.add, UInt64.add]
  all_goals omega

theorem Books.dequeue (h : Books d pending (packets + 1) (bytes + item.size))
    (counts : d.peeked = false) : Books (d.packetDequeued item) pending packets bytes := by
  obtain ⟨received, receivedBytes, held, heldBytes, enqueued, enqueuedBytes⟩ := h
  simp only [packetDequeued, counts, Bool.not_false, if_true]
  refine ⟨received, receivedBytes, ?_, ?_, ?_, ?_⟩
  all_goals simp only [UInt32.add, UInt32.sub, UInt64.add]
  all_goals omega

theorem Books.countDrop (h : Books d pending packets bytes) (item : QueueDiscItem)
    (reason : String) : Books (d.countDropAfterDequeue item reason) pending packets bytes :=
  ⟨h.received, h.receivedBytes, h.held, h.heldBytes, h.enqueued, h.enqueuedBytes⟩

theorem Books.peekFlag (h : Books d pending packets bytes) (flag : Bool) :
    Books { d with peeked := flag } pending packets bytes :=
  ⟨h.received, h.receivedBytes, h.held, h.heldBytes, h.enqueued, h.enqueuedBytes⟩

theorem Books.requeue (h : Books d pending packets bytes) (item : Option QueueDiscItem) :
    Books { d with requeued := item } pending packets bytes :=
  ⟨h.received, h.receivedBytes, h.held, h.heldBytes, h.enqueued, h.enqueuedBytes⟩

theorem samePeek_dequeued (d : QueueDisc) (item : QueueDiscItem) :
    SamePeek d (d.packetDequeued item) := by
  rw [packetDequeued]
  split <;> exact ⟨rfl, rfl⟩

/-- What the disc does not count as dequeued while it peeks. -/
def uncounted (d : QueueDisc) (item : QueueDiscItem) : List QueueDiscItem :=
  if d.peeked then [item] else []

theorem Books.take (h : Books d pending (packets + 1) (bytes + item.size)) :
    Books (d.packetDequeued item) pending (packets + (d.uncounted item).length)
      (bytes + total (d.uncounted item)) := by
  cases flag : d.peeked with
  | false =>
    simp only [uncounted, flag, Bool.false_eq_true, if_false]
    exact h.dequeue flag
  | true =>
    simp only [uncounted, flag, if_true, packetDequeued, Bool.not_true,
      Bool.false_eq_true, if_false]
    exact h

theorem Books.drop (reason : String) (h : Books d pending (packets + (d.uncounted item).length)
      (bytes + total (d.uncounted item))) :
    Books (d.dropAfterDequeue item reason) pending packets bytes ∧
      SamePeek d (d.dropAfterDequeue item reason) := by
  have counted := h.countDrop item reason
  have still : (d.countDropAfterDequeue item reason).peeked = d.peeked := rfl
  rw [dropAfterDequeue]
  simp only [still]
  cases flag : d.peeked with
  | false =>
    simp only [uncounted, flag, Bool.false_eq_true, if_false] at counted ⊢
    exact ⟨counted, rfl, rfl⟩
  | true =>
    simp only [uncounted, flag, if_true] at counted ⊢
    have same := samePeek_dequeued { d.countDropAfterDequeue item reason with peeked := false } item
    exact ⟨((counted.peekFlag false).dequeue rfl).peekFlag true, flag.symm, same.requeued⟩

theorem Books.assertReceived (profile : BuildProfile) (h : Books d [] packets bytes) :
    d.assertReceived profile = some () := by
  have packets_ := h.received
  have bytes_ := h.receivedBytes
  simp [QueueDisc.assertReceived, UInt32.add, UInt64.add, packets_, bytes_]

theorem Books.assertHeld (profile : BuildProfile) (h : Books d pending packets bytes)
    (fits : bytes < 2 ^ 32) :
    d.assertHeld profile = some () := by
  have held : d.nPackets =
    UInt32.sub d.stats.nTotalEnqueuedPackets d.stats.nTotalDequeuedPackets := by
    have enqueued := h.enqueued
    rw [h.held, UInt32.sub]
    omega
  have heldBytes :
    d.nBytes = UInt64.sub d.stats.nTotalEnqueuedBytes d.stats.nTotalDequeuedBytes := by
    have enqueued := h.enqueuedBytes
    rw [h.heldBytes, UInt64.sub]
    omega
  simp [QueueDisc.assertHeld, held, heldBytes]

/-! ## The tree -/

/-- The number of packets in the internal queues. -/
def queued (t : Tree) : Nat := (t.children.map (·.queue.length)).sum

/-- The size of the packets in the internal queues. -/
def queuedBytes (t : Tree) : Nat := (t.children.map fun c => total c.queue).sum

theorem sum_set {α : Type} (f : α → Nat) {l : List α} {i : Nat} {a : α} (here : l[i]? = some a)
    (b : α) : ((l.set i b).map f).sum + f a = (l.map f).sum + f b := by
  induction l generalizing i with
  | nil => cases here
  | cons x l ih =>
    cases i with
    | zero =>
      cases here
      simp only [set_cons_zero, map_cons, sum_cons]
      omega
    | succ i =>
      have tail := ih (i := i) here
      simp only [set_cons_succ, map_cons, sum_cons]
      omega

theorem le_sum {α : Type} (f : α → Nat) {l : List α} {i : Nat} {a : α} (here : l[i]? = some a) :
    f a ≤ (l.map f).sum := by
  induction l generalizing i with
  | nil => cases here
  | cons x l ih =>
    cases i with
    | zero =>
      cases here
      exact Nat.le_add_right _ _
    | succ i => exact Nat.le_trans (ih (i := i) here) (Nat.le_add_left _ _)

/-- The state of the tree inside a call. The root has received `pending`, child `i` has
received `owed i`, and `hand` was taken from the queues without being counted. -/
structure Kept (t : Tree) (pending : List QueueDiscItem) (owed : Nat → List QueueDiscItem)
    (hand : List QueueDiscItem) : Prop where
  root : Books t.root pending (queued t + hand.length) (queuedBytes t + total hand)
  child : ∀ i c, t.children[i]? = some c → Books c.disc (owed i) c.queue.length (total c.queue)
  quiet : ∀ c ∈ t.children, c.disc.peeked = false ∧ c.disc.requeued = none

/-- The flags of the root and the children stay, and no packet is added. -/
structure Shrinks (t t' : Tree) : Prop where
  root : SamePeek t.root t'.root
  children : t'.children.length = t.children.length
  queued : queued t' ≤ queued t
  queuedBytes : queuedBytes t' ≤ queuedBytes t

theorem Shrinks.refl (t : Tree) : Shrinks t t :=
  ⟨⟨rfl, rfl⟩, rfl, Nat.le_refl _, Nat.le_refl _⟩

theorem Shrinks.trans {t'' : Tree} (first : Shrinks t t') (second : Shrinks t' t'') :
    Shrinks t t'' where
  root := ⟨second.root.peeked.trans first.root.peeked,
    second.root.requeued.trans first.root.requeued⟩
  children := second.children.trans first.children
  queued := Nat.le_trans second.queued first.queued
  queuedBytes := Nat.le_trans second.queuedBytes first.queuedBytes

variable {owed : Nat → List QueueDiscItem} {hand rest : List QueueDiscItem}

/-- The tree with another root and another child. -/
def update (t : Tree) (root : QueueDisc) (i : Nat) (c : Child) : Tree where
  root := root
  children := t.children.set i c

variable {root : QueueDisc} {c' : Child} {pending' hand' due : List QueueDiscItem}

theorem queued_update (here : t.children[i]? = some c) (root : QueueDisc) (c' : Child) :
    queued (update t root i c') + c.queue.length = queued t + c'.queue.length :=
  sum_set (·.queue.length) here c'

theorem queuedBytes_update (here : t.children[i]? = some c) (root : QueueDisc) (c' : Child) :
    queuedBytes (update t root i c') + total c.queue = queuedBytes t + total c'.queue :=
  sum_set (fun c : Child => total c.queue) here c'

theorem queued_disc (here : t.children[i]? = some c) (root disc : QueueDisc) :
    queued (update t root i ⟨disc, c.queue⟩) = queued t :=
  Nat.add_right_cancel (queued_update here root ⟨disc, c.queue⟩)

theorem queuedBytes_disc (here : t.children[i]? = some c) (root disc : QueueDisc) :
    queuedBytes (update t root i ⟨disc, c.queue⟩) = queuedBytes t :=
  Nat.add_right_cancel (queuedBytes_update here root ⟨disc, c.queue⟩)

section

variable (h : Kept t pending owed hand)
include h

theorem Kept.update (here : t.children[i]? = some c)
    (quiet : SamePeek c.disc c'.disc) (books : Books c'.disc due c'.queue.length (total c'.queue))
    (above : Books root pending' (queued (update t root i c') + hand'.length)
      (queuedBytes (QueueDisc.update t root i c') + total hand')) :
    Kept (QueueDisc.update t root i c') pending' (Function.update owed i due) hand' where
  root := above
  child j e there := by
    by_cases same : j = i
    · subst same
      have bound := (List.getElem?_eq_some_iff.mp here).1
      obtain rfl := some.inj ((getElem?_set_self bound).symm.trans there)
      rw [Function.update_self]
      exact books
    · rw [Function.update_of_ne same]
      exact h.child j e ((getElem?_set_ne (Ne.symm same)).symm.trans there)
  quiet e mem := by
    obtain old | rfl := mem_or_eq_of_mem_set mem
    · exact h.quiet e old
    · obtain ⟨peeked, requeued⟩ := h.quiet c (mem_of_getElem? here)
      exact ⟨quiet.peeked.trans peeked, quiet.requeued.trans requeued⟩

theorem Kept.update_books (here : t.children[i]? = some c)
    (quiet : SamePeek c.disc c'.disc)
    (books : Books c'.disc (owed i) c'.queue.length (total c'.queue))
    (above : Books root pending' (queued (QueueDisc.update t root i c') + hand'.length)
      (queuedBytes (QueueDisc.update t root i c') + total hand')) :
    Kept (QueueDisc.update t root i c') pending' owed hand' := by
  have kept := h.update here quiet books above
  rw [Function.update_eq_self] at kept
  exact kept

theorem Kept.quiet_at (here : t.children[i]? = some c) :
    c.disc.peeked = false ∧ c.disc.requeued = none :=
  h.quiet c (mem_of_getElem? here)

/-- What is taken from an internal queue is counted at once, or in the hand of a root that
peeks. -/
theorem Kept.dequeued (here : t.children[i]? = some c)
    (queue : c.queue = item :: rest) :
    Kept (dequeued item rest i c t) pending owed (t.root.uncounted item ++ hand) ∧
      Shrinks t (QueueDisc.dequeued item rest i c t) ∧
      queuedBytes (QueueDisc.dequeued item rest i c t) + item.size = queuedBytes t := by
  have quiet := (h.quiet_at here).1
  have shape : QueueDisc.dequeued item rest i c t =
      QueueDisc.update t (t.root.packetDequeued item) i ⟨c.disc.packetDequeued item, rest⟩ := by
    simp [QueueDisc.dequeued, QueueDisc.update, quiet]
  have books := h.child i c here
  have packets := queued_update here (t.root.packetDequeued item) ⟨c.disc.packetDequeued item, rest⟩
  have bytes := queuedBytes_update here (t.root.packetDequeued item)
    ⟨c.disc.packetDequeued item, rest⟩
  rw [queue] at books packets bytes
  simp only [length_cons, total_cons] at books packets bytes
  rw [Nat.add_comm item.size] at books
  rw [shape]
  generalize after : QueueDisc.update t (t.root.packetDequeued item) i
    ⟨c.disc.packetDequeued item, rest⟩ = t' at packets bytes
  constructor
  · have above := h.root
    have fewer : queued t + hand.length = queued t' + hand.length + 1 := by omega
    have smaller : queuedBytes t + total hand = queuedBytes t' + total hand + item.size := by omega
    rw [fewer, smaller] at above
    have taken := above.take
    rw [Nat.add_assoc, Nat.add_assoc, Nat.add_comm hand.length, Nat.add_comm (total hand),
      ← length_append, ← total_append, ← after] at taken
    rw [← after]
    exact h.update_books here (samePeek_dequeued c.disc item) (books.dequeue quiet) taken
  · rw [← after] at packets bytes ⊢
    exact ⟨⟨samePeek_dequeued t.root item, length_set, by omega, by omega⟩, by omega⟩

end

theorem Kept.rootDrop (reason : String) (h : Kept t pending owed (t.root.uncounted item ++ hand)) :
    Kept { t with root := t.root.dropAfterDequeue item reason } pending owed hand ∧
      Shrinks t { t with root := t.root.dropAfterDequeue item reason } := by
  have root := h.root
  rw [length_append, total_append, Nat.add_comm _ hand.length, Nat.add_comm _ (total hand),
    ← Nat.add_assoc, ← Nat.add_assoc] at root
  obtain ⟨books, same⟩ := root.drop reason
  exact ⟨⟨books, h.child, h.quiet⟩, same, rfl, Nat.le_refl _, Nat.le_refl _⟩

/-- A child drops what it took. -/
theorem Kept.childDrop (reason : String) (h : Kept t pending owed (t.root.uncounted item ++ hand))
    (here : t.children[i]? = some c) :
    Kept (childDropAfterDequeue item reason i c t) pending owed hand ∧
      Shrinks t (childDropAfterDequeue item reason i c t) := by
  obtain ⟨dropped, shrinks⟩ := h.rootDrop (childQueueDiscDrop ++ reason)
  have quiet := (h.quiet_at here).1
  have counted : c.disc.uncounted item = [] := by simp [uncounted, quiet]
  obtain ⟨books, same⟩ : Books (c.disc.dropAfterDequeue item reason) (owed i) c.queue.length
      (total c.queue) ∧ SamePeek c.disc (c.disc.dropAfterDequeue item reason) := by
    apply Books.drop
    rw [counted]
    exact h.child i c here
  generalize above : t.root.dropAfterDequeue item (childQueueDiscDrop ++ reason) =
    root at dropped shrinks
  have shape : childDropAfterDequeue item reason i c t =
      QueueDisc.update t root i ⟨c.disc.dropAfterDequeue item reason, c.queue⟩ := by
    simp [childDropAfterDequeue, QueueDisc.update, quiet, above]
  have packets := queued_disc here root (c.disc.dropAfterDequeue item reason)
  have bytes := queuedBytes_disc here root (c.disc.dropAfterDequeue item reason)
  rw [shape]
  constructor
  · apply h.update_books here same books
    rw [packets, bytes]
    exact dropped.root
  · exact ⟨shrinks.root, length_set, Nat.le_of_eq packets, Nat.le_of_eq bytes⟩

/-! ## Loops and calls -/

theorem Shrinks.uncounted (h : Shrinks t t') (item : QueueDiscItem) :
    t'.root.uncounted item = t.root.uncounted item := by
  simp only [QueueDisc.uncounted, h.root.peeked]

theorem child_at (inside : i < t.children.length) : ∃ c, t.children[i]? = some c :=
  ⟨_, getElem?_eq_getElem inside⟩

theorem childDrops_spec (reasons : List String) (h : Kept t pending owed hand)
    (inside : i < t.children.length) :
    ∃ t', childDrops i reasons t = some t' ∧ Kept t' pending owed hand ∧ Shrinks t t' := by
  induction reasons generalizing t with
  | nil => exact ⟨t, rfl, h, Shrinks.refl t⟩
  | cons reason reasons ih =>
    obtain ⟨c, here⟩ := child_at inside
    rw [childDrops, here]
    simp only [some_bind]
    cases queue : c.queue with
    | nil => exact ih h inside
    | cons item rest =>
      obtain ⟨taken, first, -⟩ := h.dequeued here queue
      rw [← first.uncounted] at taken
      have inside₁ : i < (dequeued item rest i c t).children.length := first.children ▸ inside
      obtain ⟨c₁, here₁⟩ := child_at inside₁
      obtain ⟨dropped, second⟩ := taken.childDrop reason here₁
      have both := first.trans second
      obtain ⟨t', run, kept, shrinks⟩ := ih dropped (both.children ▸ inside)
      exact ⟨t', by simp [here₁, run], kept, both.trans shrinks⟩

theorem rootDrops_spec (drops : List (Nat × String)) (h : Kept t pending owed hand)
    (inside : ∀ e ∈ drops, e.1 < t.children.length) :
    ∃ t', rootDrops drops t = some t' ∧ Kept t' pending owed hand ∧ Shrinks t t' := by
  induction drops generalizing t with
  | nil => exact ⟨t, rfl, h, Shrinks.refl t⟩
  | cons e drops ih =>
    obtain ⟨i, reason⟩ := e
    obtain ⟨c, here⟩ := child_at (inside (i, reason) mem_cons_self)
    have later (e : Nat × String) (mem : e ∈ drops) : e.1 < t.children.length :=
      inside e (mem_cons_of_mem _ mem)
    rw [rootDrops, here]
    simp only [some_bind]
    cases queue : c.queue with
    | nil => exact ih h later
    | cons item rest =>
      obtain ⟨taken, first, -⟩ := h.dequeued here queue
      rw [← first.uncounted] at taken
      obtain ⟨dropped, second⟩ := taken.rootDrop reason
      have both := first.trans second
      obtain ⟨t', run, kept, shrinks⟩ := ih dropped fun e mem => both.children ▸ later e mem
      exact ⟨t', run, kept, both.trans shrinks⟩

/-- What a call of `Enqueue` leaves of the flags and the number of children. -/
structure SameShape (t t' : Tree) : Prop where
  root : SamePeek t.root t'.root
  children : t'.children.length = t.children.length

theorem SameShape.trans {t'' : Tree} (first : SameShape t t') (second : SameShape t' t'') :
    SameShape t t'' where
  root := ⟨second.root.peeked.trans first.root.peeked,
    second.root.requeued.trans first.root.requeued⟩
  children := second.children.trans first.children

theorem Shrinks.shape (h : Shrinks t t') : SameShape t t' := ⟨h.root, h.children⟩

/-- A child stores or drops the packet that it and the root have received. -/
theorem Kept.settle (outcome : Outcome) (h : Kept t (item :: pending) owed hand)
    (here : t.children[i]? = some c) (due_ : owed i = item :: due) :
    Kept (settle item i c t outcome) pending (Function.update owed i due) hand ∧
      SameShape t (settle item i c t outcome) := by
  have books := h.child i c here
  rw [due_] at books
  have dropped (reason : String) :
      Kept (childDropBeforeEnqueue item reason i c t) pending (Function.update owed i due) hand ∧
        SameShape t (childDropBeforeEnqueue item reason i c t) := by
    refine ⟨?_, ⟨rfl, rfl⟩, length_set⟩
    refine h.update here ⟨rfl, rfl⟩ (books.dropBefore reason) ?_
    rw [queued_disc here, queuedBytes_disc here]
    exact h.root.dropBefore _
  cases outcome with
  | store =>
    have after : enqueued item i c t = QueueDisc.update t (t.root.packetEnqueued item) i
        ⟨c.disc.packetEnqueued item, c.queue ++ [item]⟩ := rfl
    have packets := queued_update here (t.root.packetEnqueued item)
      ⟨c.disc.packetEnqueued item, c.queue ++ [item]⟩
    have bytes := queuedBytes_update here (t.root.packetEnqueued item)
      ⟨c.disc.packetEnqueued item, c.queue ++ [item]⟩
    have stored := books.enqueue
    have length : (c.queue ++ [item]).length = c.queue.length + 1 := by simp
    have size : total (c.queue ++ [item]) = total c.queue + item.size := by simp [total_append]
    rw [← after] at packets bytes
    rw [length] at packets
    rw [size] at bytes
    rw [← length, ← size] at stored
    have above := h.root.enqueue
    have more : queued t + hand.length + 1 = queued
      (enqueued item i c t) + hand.length := by omega
    have larger : queuedBytes t + total hand + item.size =
        queuedBytes (enqueued item i c t) + total hand := by omega
    rw [more, larger] at above
    exact ⟨h.update here ⟨rfl, rfl⟩ stored above, ⟨rfl, rfl⟩, length_set⟩
  | full => exact dropped internalQueueDrop
  | drop reason => exact dropped reason

theorem childEnqueue_spec (profile : BuildProfile) (script : ChildEnqueue)
    (h : Kept t (item :: pending) (fun _ => []) hand) (inside : i < t.children.length) :
    ∃ retval t', childEnqueue profile item i script t = some (retval, t') ∧
      Kept t' pending (fun _ => []) hand ∧ SameShape t t' := by
  obtain ⟨c, here⟩ := child_at inside
  have books := (h.child i c here).receive item
  have kept₁ : Kept (update t t.root i ⟨c.disc.received item, c.queue⟩) (item :: pending)
      (Function.update (fun _ => []) i [item]) hand := by
    refine h.update here ⟨rfl, rfl⟩ books ?_
    rw [queued_disc here, queuedBytes_disc here]
    exact h.root
  have shape₁ : SameShape t (update t t.root i ⟨c.disc.received item, c.queue⟩) :=
    ⟨⟨rfl, rfl⟩, length_set⟩
  obtain ⟨t₂, run₂, kept₂, shrinks₂⟩ :=
    childDrops_spec script.before kept₁ (shape₁.children ▸ inside)
  have shape₂ := shape₁.trans shrinks₂.shape
  obtain ⟨c₂, here₂⟩ := child_at (t := t₂) (shape₂.children ▸ inside)
  obtain ⟨kept₃, settles⟩ := kept₂.settle script.outcome here₂ (Function.update_self _ _ _)
  have shape₃ := shape₂.trans settles
  rw [Function.update_idem, Function.update_eq_self] at kept₃
  obtain ⟨t₄, run₄, kept₄, shrinks₄⟩ :=
    childDrops_spec script.after kept₃ (shape₃.children ▸ inside)
  have shape₄ := shape₃.trans shrinks₄.shape
  obtain ⟨c₄, here₄⟩ := child_at (t := t₄) (shape₄.children ▸ inside)
  refine ⟨script.outcome = .store, t₄, ?_, kept₄, shape₄⟩
  have asserted := (kept₄.child i c₄ here₄).assertReceived profile
  simp only [childEnqueue, here, bind_eq_bind, bind_some]
  change (childDrops i script.before (update t t.root i ⟨c.disc.received item, c.queue⟩)).bind _ = _
  simp only [run₂, here₂, run₄, here₄, asserted, bind_some]
  rfl

/-- The children that a script names. -/
def Target.Within (classes : Nat) : Target → Prop
  | .drop _ => True
  | .child i _ => i < classes

def RootEnqueue.Within (classes : Nat) (script : RootEnqueue) : Prop :=
  (∀ e ∈ script.before, e.1 < classes) ∧ script.target.Within classes ∧
    ∀ e ∈ script.after, e.1 < classes

def RootAction.Within (classes : Nat) : RootAction → Prop
  | .drop i _ | .ask i _ => i < classes

instance (classes : Nat) : (target : Target) → Decidable (target.Within classes)
  | .drop _ => .isTrue trivial
  | .child i _ => inferInstanceAs (Decidable (i < classes))

instance (classes : Nat) (script : RootEnqueue) : Decidable (script.Within classes) :=
  inferInstanceAs (Decidable (_ ∧ _ ∧ _))

instance (classes : Nat) : (action : RootAction) → Decidable (action.Within classes)
  | .drop i _ | .ask i _ => inferInstanceAs (Decidable (i < classes))

theorem enqueue_spec (profile : BuildProfile) (item : QueueDiscItem) {script : RootEnqueue}
    (h : Kept t [] (fun _ => []) hand) (within : script.Within t.children.length) :
    ∃ retval t', enqueue profile item script t = some (retval, t') ∧
      Kept t' [] (fun _ => []) hand ∧ SameShape t t' := by
  obtain ⟨before, target, after⟩ := within
  have kept₁ : Kept { t with root := t.root.received item } [item] (fun _ => []) hand :=
    ⟨h.root.receive item, h.child, h.quiet⟩
  have shape₁ : SameShape t { t with root := t.root.received item } := ⟨⟨rfl, rfl⟩, rfl⟩
  obtain ⟨t₂, run₂, kept₂, shrinks₂⟩ := rootDrops_spec script.before kept₁ before
  have shape₂ := shape₁.trans shrinks₂.shape
  obtain ⟨retval, t₃, run₃, kept₃, shape₃⟩ : ∃ retval t₃,
      offer profile item t₂ script.target = some (retval, t₃) ∧ Kept t₃ [] (fun _ => []) hand ∧
        SameShape t₂ t₃ := by
    cases choice : script.target with
    | drop reason =>
      exact ⟨false, _, rfl, ⟨kept₂.root.dropBefore reason, kept₂.child, kept₂.quiet⟩,
        ⟨rfl, rfl⟩, rfl⟩
    | child i script =>
      rw [choice] at target
      exact childEnqueue_spec profile script kept₂ (shape₂.children ▸ target)
  have shape := shape₂.trans shape₃
  obtain ⟨t₄, run₄, kept₄, shrinks₄⟩ :=
    rootDrops_spec script.after kept₃ fun e mem => shape.children ▸ after e mem
  have asserted := kept₄.root.assertReceived profile
  refine ⟨retval, t₄, ?_, kept₄, shape.trans shrinks₄.shape⟩
  simp [enqueue, run₂, run₃, run₄, asserted]

/-- The packet that a call of `Dequeue` returns, as far as the root has not counted it. -/
def handOf (t : Tree) (found : Option QueueDiscItem) : List QueueDiscItem :=
  found.toList.flatMap t.root.uncounted

/-- What a call of `Dequeue` takes. -/
structure Takes (t : Tree) (found : Option QueueDiscItem) (t' : Tree) : Prop where
  shape : SameShape t t'
  queuedBytes : queuedBytes t' + total found.toList ≤ queuedBytes t

theorem childDequeue_spec (profile : BuildProfile) (script : ChildDequeue)
    (h : Kept t [] (fun _ => []) []) (inside : i < t.children.length)
    (fits : queuedBytes t < 2 ^ 32) :
    ∃ found t', childDequeue profile i script t = some (found, t') ∧
      Kept t' [] (fun _ => []) (handOf t found) ∧ Takes t found t' := by
  obtain ⟨c, here⟩ := child_at inside
  obtain ⟨t₁, run₁, kept₁, shrinks₁⟩ := childDrops_spec script.drops h inside
  obtain ⟨c₁, here₁⟩ := child_at (t := t₁) (shrinks₁.children ▸ inside)
  have does : ∃ found t', childDoDequeue i script t = some (found, t') ∧
      Kept t' [] (fun _ => []) (handOf t found) ∧ Takes t found t' := by
    simp only [childDoDequeue, run₁, here₁, some_bind]
    cases queue : c₁.queue with
    | nil => exact ⟨none, t₁, rfl, kept₁, shrinks₁.shape, shrinks₁.queuedBytes⟩
    | cons item rest =>
      cases last : script.last with
      | false => exact ⟨none, t₁, rfl, kept₁, shrinks₁.shape, shrinks₁.queuedBytes⟩
      | true =>
        obtain ⟨taken, second, size⟩ := kept₁.dequeued here₁ queue
        have both := shrinks₁.trans second
        refine ⟨some item, _, rfl, ?_, both.shape, ?_⟩
        · rw [shrinks₁.uncounted] at taken
          simpa [handOf] using taken
        · have fewer := shrinks₁.queuedBytes
          simp only [toList_some, total_cons, total_nil]
          omega
  obtain ⟨found, t', run, kept, takes⟩ := does
  obtain ⟨c', here'⟩ := child_at (t := t') (takes.shape.children ▸ inside)
  have small : total c'.queue < 2 ^ 32 := by
    have part := le_sum (fun c : Child => total c.queue) here'
    have fewer := takes.queuedBytes
    simp only [queuedBytes] at fits fewer
    omega
  have asserted := (kept.child i c' here').assertHeld profile small
  refine ⟨found, t', ?_, kept, takes⟩
  simp [childDequeue, here, (h.quiet_at here).2, run, here', asserted]

theorem doDequeue_spec (profile : BuildProfile) (actions : List RootAction)
    (h : Kept t [] (fun _ => []) []) (within : ∀ a ∈ actions, a.Within t.children.length)
    (fits : queuedBytes t < 2 ^ 32) :
    ∃ found t', doDequeue profile actions t = some (found, t') ∧
      Kept t' [] (fun _ => []) (handOf t found) ∧ Takes t found t' := by
  induction actions generalizing t with
  | nil => exact ⟨none, t, rfl, h, (Shrinks.refl t).shape, Nat.le_refl _⟩
  | cons action actions ih =>
    have here := within action mem_cons_self
    have later (a : RootAction) (mem : a ∈ actions) : a.Within t.children.length :=
      within a (mem_cons_of_mem _ mem)
    -- the rest of the loop, from a tree with the same flag
    have onward {t₁ : Tree} (kept : Kept t₁ [] (fun _ => []) []) (shape : SameShape t t₁)
        (fewer : queuedBytes t₁ ≤ queuedBytes t) : ∃ found t',
          doDequeue profile actions t₁ = some (found, t') ∧
            Kept t' [] (fun _ => []) (handOf t found) ∧ Takes t found t' := by
      obtain ⟨found, t', run, kept', takes⟩ := ih kept
        (fun a mem => shape.children ▸ later a mem) (Nat.lt_of_le_of_lt fewer fits)
      have flag : t₁.root.uncounted = t.root.uncounted := by
        funext item
        simp only [QueueDisc.uncounted, shape.root.peeked]
      have hand : handOf t₁ found = handOf t found := by rw [handOf, handOf, flag]
      exact ⟨found, t', run, hand ▸ kept', shape.trans takes.shape,
        Nat.le_trans takes.queuedBytes fewer⟩
    cases action with
    | drop i reason =>
      obtain ⟨t₁, run, kept, shrinks⟩ := rootDrops_spec [(i, reason)] h (by
        intro e mem
        rw [mem_singleton.mp mem]
        exact here)
      simp only [doDequeue, run, some_bind]
      exact onward kept shrinks.shape shrinks.queuedBytes
    | ask i script =>
      obtain ⟨found, t₁, run, kept, takes⟩ := childDequeue_spec profile script h here fits
      simp only [doDequeue, run, some_bind]
      cases found with
      | some item => exact ⟨some item, t₁, rfl, kept, takes⟩
      | none => exact onward kept takes.shape takes.queuedBytes

end Ns3.QueueDisc
