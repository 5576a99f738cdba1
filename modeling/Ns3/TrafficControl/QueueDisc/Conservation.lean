import Ns3.TrafficControl.QueueDisc.Accounting

/-!
# Runs of a queue disc

Between calls the root has counted everything but the packet it has peeked, which it still
holds. The counters are exact as long as what is held fits in their range; the number of
bytes has the smaller range of the two that the assertions compare.
-/

namespace Ns3.QueueDisc

variable {item : QueueDiscItem} {t t' : Tree} {profile : BuildProfile}

/-- The packets that are queued below the root, and the peeked one. -/
def heldPackets (t : Tree) : Nat := queued t + t.root.requeued.toList.length

/-- Their size. -/
def heldBytes (t : Tree) : Nat := queuedBytes t + total t.root.requeued.toList

/-- The state of the tree between calls. -/
structure Sound (t : Tree) : Prop where
  kept : Kept t [] (fun _ => []) t.root.requeued.toList
  peeked : t.root.peeked = t.root.requeued.isSome

/-- The counters of the root say what it holds, and where all packets went. -/
structure Accounted (t : Tree) : Prop where
  packets : t.root.nPackets = heldPackets t
  bytes : t.root.nBytes = heldBytes t
  received : t.root.stats.nTotalReceivedPackets = UInt32.add
    t.root.stats.nTotalDroppedPacketsBeforeEnqueue t.root.stats.nTotalEnqueuedPackets
  receivedBytes : t.root.stats.nTotalReceivedBytes = UInt64.add
    t.root.stats.nTotalDroppedBytesBeforeEnqueue t.root.stats.nTotalEnqueuedBytes
  enqueued : t.root.stats.nTotalEnqueuedPackets =
    UInt32.add t.root.stats.nTotalDequeuedPackets t.root.nPackets
  enqueuedBytes : t.root.stats.nTotalEnqueuedBytes =
    UInt64.add t.root.stats.nTotalDequeuedBytes t.root.nBytes

/-- What the root holds is in the range of its counters. -/
def InRange (t : Tree) : Prop := heldPackets t < 2 ^ 32 ∧ heldBytes t < 2 ^ 32
  deriving Decidable

theorem Sound.accounted_iff (sound : Sound t) : Accounted t ↔ InRange t := by
  obtain ⟨received, receivedBytes, held, heldBytes_, enqueued, enqueuedBytes⟩ := sound.kept.root
  constructor
  · intro accounted
    have packets := accounted.packets
    have bytes := accounted.bytes
    rw [held] at packets
    rw [heldBytes_] at bytes
    exact ⟨packets ▸ Nat.mod_lt _ (by decide), bytes ▸ Nat.mod_lt _ (by decide)⟩
  · rintro ⟨packets, bytes⟩
    have packets_ : t.root.nPackets = heldPackets t := held.trans (Nat.mod_eq_of_lt packets)
    have bytes_ : t.root.nBytes = heldBytes t := heldBytes_.trans (Nat.mod_eq_of_lt bytes)
    refine ⟨packets_, bytes_, received, receivedBytes, ?_, ?_⟩
    · rw [packets_]
      exact enqueued
    · rw [bytes_]
      exact enqueuedBytes

theorem Kept.takeRequeued (h : Kept t [] (fun _ => []) [item]) (peeked : t.root.peeked = true) :
    Kept { t with root := t.root.takeRequeued item } [] (fun _ => []) [] ∧
      (t.root.takeRequeued item).peeked = false ∧ (t.root.takeRequeued item).requeued = none := by
  have books := ((h.root.requeue none).peekFlag false).dequeue rfl
  have same := samePeek_dequeued { t.root with requeued := none, peeked := false } item
  have shape : t.root.takeRequeued item =
      ({ t.root with requeued := none, peeked := false } : QueueDisc).packetDequeued item := by
    simp [QueueDisc.takeRequeued, peeked]
  rw [shape]
  exact ⟨⟨books, h.child, h.quiet⟩, same.peeked, same.requeued⟩

theorem dequeue_spec (profile : BuildProfile) (actions : List RootAction)
    (h : Kept t [] (fun _ => []) []) (none_ : t.root.requeued = none)
    (within : ∀ a ∈ actions, a.Within t.children.length) (fits : queuedBytes t < 2 ^ 32) :
    ∃ found t', dequeue profile actions t = some (found, t') ∧
      Kept t' [] (fun _ => []) (handOf t found) ∧ SameShape t t' := by
  obtain ⟨found, t', run, kept, takes⟩ := doDequeue_spec profile actions h within fits
  have small : queuedBytes t' + total (handOf t found) < 2 ^ 32 := by
    have fewer := takes.queuedBytes
    have part : total (handOf t found) ≤ total found.toList := by
      cases found with
      | none => exact Nat.le_refl _
      | some item => cases flag : t.root.peeked <;> simp [handOf, uncounted, flag]
    omega
  have asserted := kept.root.assertHeld profile small
  refine ⟨found, t', ?_, kept, takes.shape⟩
  simp [dequeue, none_, run, asserted]

/-- The classes that a call names. -/
def Call.Within (classes : Nat) : Call → Prop
  | .enqueue _ script => script.Within classes
  | .dequeue actions | .peek actions => ∀ a ∈ actions, a.Within classes

instance (classes : Nat) : (call : Call) → Decidable (call.Within classes)
  | .enqueue _ script => inferInstanceAs (Decidable (script.Within classes))
  | .dequeue actions | .peek actions =>
    inferInstanceAs (Decidable (∀ a ∈ actions, a.Within classes))

theorem step_dequeue (profile : BuildProfile) {actions : List RootAction} (sound : Sound t)
    (within : ∀ a ∈ actions, a.Within t.children.length) (fits : heldBytes t < 2 ^ 32) :
    ∃ t', step profile t (.dequeue actions) = some t' ∧ Sound t' ∧
      t'.children.length = t.children.length := by
  obtain ⟨kept, flag⟩ := sound
  cases requeued : t.root.requeued with
  | none =>
    rw [requeued] at kept flag
    have small : queuedBytes t < 2 ^ 32 := Nat.lt_of_le_of_lt (Nat.le_add_right _ _) fits
    obtain ⟨found, t', run, kept', shape⟩ :=
      dequeue_spec profile actions kept requeued within small
    have counted : handOf t found = [] := by cases found <;> simp [handOf, uncounted, flag]
    rw [counted] at kept'
    have none_ : t'.root.requeued = none := shape.root.requeued.trans requeued
    refine ⟨t', by rw [step, run, Option.map_some], ⟨?_, ?_⟩, shape.children⟩
    · rw [none_]
      exact kept'
    · rw [none_, shape.root.peeked, flag]
  | some item =>
    rw [requeued] at kept flag
    obtain ⟨kept', peeked, none_⟩ := kept.takeRequeued flag
    have small : queuedBytes t + 0 < 2 ^ 32 := by
      rw [heldBytes] at fits
      omega
    have asserted := kept'.root.assertHeld profile small
    refine ⟨{ t with root := t.root.takeRequeued item }, ?_, ⟨?_, ?_⟩, rfl⟩
    · simp [step, dequeue, requeued, asserted]
    · rw [none_]
      exact kept'
    · rw [none_, peeked]
      rfl

theorem step_peek (profile : BuildProfile) {actions : List RootAction} (sound : Sound t)
    (within : ∀ a ∈ actions, a.Within t.children.length) (fits : heldBytes t < 2 ^ 32) :
    ∃ t', step profile t (.peek actions) = some t' ∧ Sound t' ∧
      t'.children.length = t.children.length := by
  cases requeued : t.root.requeued with
  | some item => exact ⟨t, by simp [step, peek, requeued], sound, rfl⟩
  | none =>
    obtain ⟨kept, flag⟩ := sound
    rw [requeued] at kept
    have small : queuedBytes t < 2 ^ 32 := Nat.lt_of_le_of_lt (Nat.le_add_right _ _) fits
    have peeking : Kept (markPeeked t) [] (fun _ => []) [] :=
      ⟨kept.root.peekFlag true, kept.child, kept.quiet⟩
    obtain ⟨found, t', run, kept', shape⟩ :=
      dequeue_spec profile actions peeking requeued within small
    have returns : step profile t (.peek actions) = some (keepPeeked found t') := by
      simp [step, peek, requeued, run]
    refine ⟨keepPeeked found t', returns, ?_, shape.children⟩
    cases found with
    | none => exact ⟨⟨(kept'.root.requeue none).peekFlag false, kept'.child, kept'.quiet⟩, rfl⟩
    | some item =>
      refine ⟨⟨kept'.root.requeue (some item), kept'.child, kept'.quiet⟩, ?_⟩
      exact shape.root.peeked

theorem step_spec (profile : BuildProfile) {call : Call} (sound : Sound t)
    (within : call.Within t.children.length) (fits : heldBytes t < 2 ^ 32) :
    ∃ t', step profile t call = some t' ∧ Sound t' ∧ t'.children.length = t.children.length := by
  cases call with
  | enqueue item script =>
    obtain ⟨retval, t', run, kept, shape⟩ := enqueue_spec profile item sound.kept within
    refine ⟨t', by rw [step, run, Option.map_some], ⟨?_, ?_⟩, shape.children⟩
    · rw [shape.root.requeued]
      exact kept
    · rw [shape.root.requeued, shape.root.peeked]
      exact sound.peeked
  | dequeue actions => exact step_dequeue profile sound within fits
  | peek actions => exact step_peek profile sound within fits

theorem start_sound (classes : Nat) : Sound (start classes) := by
  have zero {α : Type} (f : α → Nat) (a : α) (none_ : f a = 0) :
      ((List.replicate classes a).map f).sum = 0 := by simp [none_]
  have empty (c : Child) (mem : c ∈ (start classes).children) : c = {} :=
    (List.mem_replicate.mp mem).2
  have packets : queued (start classes) = 0 := zero _ _ rfl
  have bytes : queuedBytes (start classes) = 0 := zero _ _ rfl
  refine ⟨⟨?_, ?_, ?_⟩, rfl⟩
  · rw [packets, bytes]
    exact ⟨rfl, rfl, rfl, rfl, rfl, rfl⟩
  · intro i c here
    rw [empty c (List.mem_of_getElem? here)]
    exact ⟨rfl, rfl, rfl, rfl, rfl, rfl⟩
  · intro c mem
    rw [empty c mem]
    exact ⟨rfl, rfl⟩

theorem run_spec (profile : BuildProfile) {calls : List Call} (sound : Sound t)
    (within : ∀ c ∈ calls, c.Within t.children.length) :
    (Run.Always (step profile) Accounted t calls ↔ Run.Always (step profile) InRange t calls) ∧
      (Run.Always (step profile) InRange t calls → ∃ t', Run.exec (step profile) t calls =
        some t') := by
  induction calls generalizing t with
  | nil => exact ⟨sound.accounted_iff, fun _ => ⟨t, rfl⟩⟩
  | cons call calls ih =>
    have first := within call List.mem_cons_self
    have later (c : Call) (mem : c ∈ calls) : c.Within t.children.length :=
      within c (List.mem_cons_of_mem _ mem)
    constructor
    · constructor
      · rintro ⟨here, always⟩
        have range := sound.accounted_iff.mp here
        refine ⟨range, fun t' returns => ?_⟩
        obtain ⟨t₁, run, sound₁, length⟩ := step_spec profile sound first range.2
        obtain rfl := Option.some.inj (returns.symm.trans run)
        exact (ih sound₁ fun c mem => length ▸ later c mem).1.mp (always _ returns)
      · rintro ⟨range, always⟩
        refine ⟨sound.accounted_iff.mpr range, fun t' returns => ?_⟩
        obtain ⟨t₁, run, sound₁, length⟩ := step_spec profile sound first range.2
        obtain rfl := Option.some.inj (returns.symm.trans run)
        exact (ih sound₁ fun c mem => length ▸ later c mem).1.mpr (always _ returns)
    · rintro ⟨range, always⟩
      obtain ⟨t₁, run, sound₁, length⟩ := step_spec profile sound first range.2
      obtain ⟨t', rest⟩ := (ih sound₁ fun c mem => length ▸ later c mem).2 (always _ run)
      exact ⟨t', Run.exec_cons_eq_some.mpr ⟨t₁, run, rest⟩⟩

/-- The counters of a root queue disc are exact in every state of a run if and only if what
it holds is in their range in every state, and then all assertions hold. -/
theorem accounting_exact_iff (profile : BuildProfile) (classes : Nat) (calls : List Call)
    (within : ∀ c ∈ calls, c.Within classes) :
    (Run.Always (step profile) Accounted (start classes) calls ↔
      Run.Always (step profile) InRange (start classes) calls) ∧
    (Run.Always (step profile) InRange (start classes) calls →
      ∃ t, Run.exec (step profile) (start classes) calls = some t) := by
  have length : (start classes).children.length = classes := List.length_replicate
  exact run_spec profile (start_sound classes) fun c mem => length.symm ▸ within c mem

/-- The root peeks a packet, and then drops one from an internal queue. -/
def dropDuringPeek : List Call :=
  [.enqueue ⟨0, 100⟩ { target := .child 0 {} }, .enqueue ⟨1, 200⟩ { target := .child 1 {} },
    .peek [.ask 0 { drops := ["Target exceeded"] }, .ask 1 {}],
    .enqueue ⟨2, 300⟩ { target := .child 0 {}, after := [(0, "Overlimit drop")] },
    .dequeue [], .dequeue [.ask 1 {}]]

theorem accounting_dropDuringPeek :
    (Run.Always (step .debug) Accounted (start 2) dropDuringPeek ↔
      Run.Always (step .debug) InRange (start 2) dropDuringPeek) ∧
    (Run.Always (step .debug) InRange (start 2) dropDuringPeek →
      ∃ t, Run.exec (step .debug) (start 2) dropDuringPeek = some t) :=
  accounting_exact_iff .debug 2 dropDuringPeek (by decide)

/-- Four packets of a gibibyte each. -/
def gibibytes : List Call := List.replicate 4 (.enqueue ⟨0, 2 ^ 30⟩ { target := .child 0 {} })

/-- The number of bytes wraps to zero, and an assertion of `Dequeue` fails. -/
theorem accounting_wraps :
    ¬ Run.Always (step .debug) Accounted (start 1) gibibytes ∧
      Run.exec (step .debug) (start 1) (gibibytes ++ [.dequeue []]) = none := by
  refine ⟨fun always => ?_, by decide⟩
  obtain ⟨t, run, bytes, held⟩ : ∃ t, Run.exec (step .debug) (start 1) gibibytes = some t ∧
      t.root.nBytes = 0 ∧ heldBytes t = 2 ^ 32 := ⟨_, rfl, by decide, by decide⟩
  have counted := (always.last run).bytes
  rw [bytes, held] at counted
  cases counted

end Ns3.QueueDisc
