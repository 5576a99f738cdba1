import Ns3.TrafficControl.QueueDisc.Transmission

/-!
# Packets that have been sent

`GetStats` computes the number of sent packets from those that were dequeued. This module looks at
one queue disc, a root or a child, with the packets that its internal queues and child queue discs
hold. A call says which of them the queue disc takes and drops, and which one it returns. A record
is kept of the packets that have left the queue disc and of those that were dropped after they had
been dequeued.
-/

namespace Ns3.QueueDisc

/-- A queue disc, what is held below it, and the stop flags of the transmission queues of the
device, if it has flow control. -/
structure Counted where
  disc : QueueDisc := {}
  held : List QueueDiscItem := []
  device : Option (List Bool) := none
  phase : Phase := .idle
  left : List QueueDiscItem := []
  lost : List QueueDiscItem := []

/-- What `GetStats` subtracts for the packet in `m_requeued`. -/
def requeuedPackets (d : QueueDisc) : Nat := if d.requeued.isSome then 1 else 0

/-- The same for its size. -/
def requeuedBytes (d : QueueDisc) : Nat := d.requeued.elim 0 (·.size)

/-- `nTotalSentPackets` as `GetStats` computes it. -/
def sentPackets (d : QueueDisc) : Nat :=
  UInt32.sub (UInt32.sub d.stats.nTotalDequeuedPackets d.requeuedPackets)
    d.stats.nTotalDroppedPacketsAfterDequeue

/-- `nTotalSentBytes` as `GetStats` computes it. -/
def sentBytes (d : QueueDisc) : Nat :=
  UInt64.sub (UInt64.sub d.stats.nTotalDequeuedBytes d.requeuedBytes)
    d.stats.nTotalDroppedBytesAfterDequeue

/-- `GetStats`: what it sets. -/
def getStats (profile : BuildProfile) (d : QueueDisc) : Option (Nat × Nat) := do
  nsAssert profile (d.stats.nTotalDroppedPackets =
    UInt32.add d.stats.nTotalDroppedPacketsBeforeEnqueue d.stats.nTotalDroppedPacketsAfterDequeue)
  nsAssert profile (d.stats.nTotalDroppedBytes =
    UInt64.add d.stats.nTotalDroppedBytesBeforeEnqueue d.stats.nTotalDroppedBytesAfterDequeue)
  return (d.sentPackets, d.sentBytes)

namespace Counted

/-! ## What a subclass does -/

/-- Packets are taken from an internal queue or a child queue disc, each at a place among those
that are held, and are dropped. There may be none at the place. -/
def drops : List (Nat × String) → Counted → Counted
  | [], s => s
  | (i, reason) :: others, s =>
    match s.held[i]? with
    | none => drops others s
    | some item =>
      drops others { s with
        disc := (s.disc.packetDequeued item).dropAfterDequeue item reason
        held := s.held.eraseIdx i
        lost := s.lost ++ [item] }

/-- What `DoEnqueue` decides: the packets it drops, and the reason if it drops the new one. -/
structure EnqueueScript where
  before : List (Nat × String) := []
  dropped : Option String := none
  after : List (Nat × String) := []
  deriving DecidableEq

/-- The new packet is stored or dropped. -/
def store (item : QueueDiscItem) (dropped : Option String) (s : Counted) : Counted :=
  match dropped with
  | none => { s with disc := s.disc.packetEnqueued item, held := s.held ++ [item] }
  | some reason => { s with disc := s.disc.dropBeforeEnqueue item reason }

/-- What `DoDequeue` decides: the packets it drops, and the place of the one it returns. -/
structure DequeueScript where
  drops : List (Nat × String) := []
  next : Option Nat := some 0
  deriving DecidableEq

/-- `DoDequeue`. -/
def doDequeue (script : DequeueScript) (s : Counted) : Option QueueDiscItem × Counted :=
  let s := s.drops script.drops
  match script.next with
  | none => (none, s)
  | some i =>
    match s.held[i]? with
    | none => (none, s)
    | some item =>
      (some item, { s with disc := s.disc.packetDequeued item, held := s.held.eraseIdx i })

/-! ## The base class -/

variable (txQueueIndex : QueueDiscItem → Nat) (profile : BuildProfile) (quota : Nat)

/-- `Enqueue`. -/
def enqueue (item : QueueDiscItem) (script : EnqueueScript) (s : Counted) : Option Counted := do
  let s := { s with disc := s.disc.received item }
  let s := ((s.drops script.before).store item script.dropped).drops script.after
  s.disc.assertReceived profile
  return s

/-- `Dequeue`. -/
def dequeue (script : DequeueScript) (s : Counted) : Option (Option QueueDiscItem × Counted) := do
  let (item, s) := match s.disc.requeued with
    | some item => (some item, { s with disc := s.disc.takeRequeued item })
    | none => s.doDequeue script
  s.disc.assertHeld profile
  return (item, s)

/-- `Peek` sets `m_peeked` before it dequeues a packet. -/
def markPeeked (s : Counted) : Counted := { s with disc := { s.disc with peeked := true } }

/-- `Peek` keeps the packet; if there is none, nothing is peeked. -/
def keepPeeked (item : Option QueueDiscItem) (s : Counted) : Counted :=
  { s with disc := { s.disc with requeued := item, peeked := item.isSome && s.disc.peeked } }

/-- `Peek`. -/
def peek (script : DequeueScript) (s : Counted) : Option Counted := do
  match s.disc.requeued with
  | some _ => some s
  | none => do
      let (item, s) ← s.markPeeked.dequeue profile script
      return s.keepPeeked item

/-- `IsStopped` of a transmission queue. -/
def isStopped (s : Counted) (i : Nat) : Option Bool :=
  match s.device with
  | none => some false
  | some queues => queues[i]?

/-- `DequeuePacket` may ask for a packet that has not been seen. -/
def mayDequeue (s : Counted) : Option Bool :=
  match s.device with
  | none => some true
  | some queues => if 1 < queues.length then some true else queues[0]?.map (!·)

/-- `DequeuePacket`. -/
def dequeuePacket (script : DequeueScript) (s : Counted) :
    Option (Option QueueDiscItem × Counted) := do
  match s.disc.requeued with
  | some item =>
    if ← s.isStopped (txQueueIndex item) then return (none, s)
    else return (some item, { s with disc := s.disc.takeRequeued item })
  | none => if ← s.mayDequeue then s.dequeue profile script else return (none, s)

/-- `Requeue`. -/
def requeue (item : QueueDiscItem) (s : Counted) : Counted :=
  { s with disc := { s.disc with requeued := some item } }

/-- `Transmit`, up to the send callback. -/
def transmit (item : QueueDiscItem) (quota : Nat) (s : Counted) : Option Counted := do
  if ← s.isStopped (txQueueIndex item) then return { s.requeue item with phase := .idle }
  else return { s with left := s.left ++ [item], phase := .sending item quota }

/-- The next step of `Run`. -/
def proceed (script : DequeueScript) (s : Counted) : Option Counted := do
  match s.phase with
  | .idle => return s
  | .restart quota =>
    match ← s.dequeuePacket txQueueIndex profile script with
    | (none, s) => return { s with phase := .idle }
    | (some item, s) => s.transmit txQueueIndex item quota
  | .sending item quota =>
    let stopped ← s.isStopped (txQueueIndex item)
    if s.disc.nPackets = 0 ∨ stopped then return { s with phase := .idle }
    else
      let quota := UInt32.sub quota 1
      return { s with phase := if quota ≤ 0 then .idle else .restart quota }

/-- The calls on a queue disc, the steps of its `Run`, and what the device does. A subclass may
override `Peek` so that it only drops packets. -/
inductive Call where
  | enqueue (item : QueueDiscItem) (script : EnqueueScript)
  | dequeue (script : DequeueScript)
  | peek (script : DequeueScript)
  | peekOverridden (drops : List (Nat × String))
  | run
  | proceed (script : DequeueScript)
  | setStopped (i : Nat) (stopped : Bool)
  deriving DecidableEq

/-- One call. What `Dequeue` returns has left the queue disc. -/
def step (s : Counted) : Call → Option Counted
  | .enqueue item script => s.enqueue profile item script
  | .dequeue script => (s.dequeue profile script).map fun r =>
    { r.2 with left := r.2.left ++ r.1.toList }
  | .peek script => s.peek profile script
  | .peekOverridden drops => some (s.drops drops)
  | .run => some (if s.phase = .idle then { s with phase := .restart quota } else s)
  | .proceed script => s.proceed txQueueIndex profile script
  | .setStopped i stopped => some { s with device := s.device.map (·.set i stopped) }

end Counted

end Ns3.QueueDisc

/-!
## The statistics of sent packets

A packet in `m_requeued` that came back from the device was counted as dequeued, and one that was
peeked was not. `GetStats` subtracts both, so what it computes is right if and only if no peeked
packet waits, as long as the numbers are in the range of their counters.
-/

namespace Ns3.QueueDisc

variable {d : QueueDisc} {gone lost : List QueueDiscItem} {item : QueueDiscItem}

/-- The counters of a disc that has dequeued these packets without dropping them, and has dropped
those after it had dequeued them. -/
structure Tally (d : QueueDisc) (gone lost : List QueueDiscItem) : Prop where
  dequeued : d.stats.nTotalDequeuedPackets = (gone.length + lost.length) % 2 ^ 32
  dequeuedBytes : d.stats.nTotalDequeuedBytes = (total gone + total lost) % 2 ^ 64
  dropped : d.stats.nTotalDroppedPacketsAfterDequeue = lost.length % 2 ^ 32
  droppedBytes : d.stats.nTotalDroppedBytesAfterDequeue = total lost % 2 ^ 64
  drops : d.stats.nTotalDroppedPackets = UInt32.add d.stats.nTotalDroppedPacketsBeforeEnqueue
    d.stats.nTotalDroppedPacketsAfterDequeue
  dropsBytes : d.stats.nTotalDroppedBytes = UInt64.add d.stats.nTotalDroppedBytesBeforeEnqueue
    d.stats.nTotalDroppedBytesAfterDequeue

/-! ## Notifications -/

section

variable (tally : Tally d gone lost)
include tally

theorem Tally.received (item : QueueDiscItem) :
    Tally (d.received item) gone lost := { tally with }

theorem Tally.enqueued (item : QueueDiscItem) :
    Tally (d.packetEnqueued item) gone lost := { tally with }

theorem Tally.flags (requeued : Option QueueDiscItem) (peeked : Bool) :
    Tally { d with requeued, peeked } gone lost := { tally with }

theorem Tally.dropBefore (item : QueueDiscItem) (reason : String) :
    Tally (d.dropBeforeEnqueue item reason) gone lost := by
  obtain ⟨dequeued, dequeuedBytes, dropped, droppedBytes, drops, dropsBytes⟩ := tally
  refine ⟨dequeued, dequeuedBytes, dropped, droppedBytes, ?_, ?_⟩
  · simp only [dropBeforeEnqueue, drops, UInt32.add]
    omega
  · simp only [dropBeforeEnqueue, dropsBytes, UInt64.add]
    omega

theorem Tally.dequeue (item : QueueDiscItem)
    (counts : d.peeked = false) :
    Tally (d.packetDequeued item) (gone ++ [item]) lost := by
  obtain ⟨dequeued, dequeuedBytes, dropped, droppedBytes, drops, dropsBytes⟩ := tally
  simp only [packetDequeued, counts, Bool.not_false, if_true]
  refine ⟨?_, ?_, dropped, droppedBytes, drops, dropsBytes⟩
  · simp only [dequeued, UInt32.add, List.length_append, List.length_singleton]
    omega
  · simp only [dequeuedBytes, UInt64.add, total_append, total_cons, total_nil]
    omega

end

theorem packetDequeued_peeked (peeks : d.peeked = true) : d.packetDequeued item = d := by
  rw [packetDequeued, peeks]
  rfl

theorem Tally.countDrop (tally : Tally d (gone ++ [item]) lost) (reason : String) :
    Tally (d.countDropAfterDequeue item reason) gone (lost ++ [item]) := by
  obtain ⟨dequeued, dequeuedBytes, dropped, droppedBytes, drops, dropsBytes⟩ := tally
  constructor
  all_goals simp only [countDropAfterDequeue, UInt32.add, UInt64.add, List.length_append,
    List.length_singleton, total_append, total_cons, total_nil, dequeued, dequeuedBytes, dropped,
    droppedBytes, drops, dropsBytes]
  all_goals omega

theorem Tally.takeDrop (tally : Tally d gone lost) (item : QueueDiscItem) (reason : String) :
    Tally ((d.packetDequeued item).dropAfterDequeue item reason) gone (lost ++ [item]) := by
  cases flag : d.peeked with
  | false =>
    have counted := (tally.dequeue item flag).countDrop reason
    have still : ((d.packetDequeued item).countDropAfterDequeue item reason).peeked = false :=
      (samePeek_dequeued d item).peeked.trans flag
    rw [dropAfterDequeue]
    simp only [still, Bool.false_eq_true, if_false]
    exact counted
  | true =>
    rw [packetDequeued_peeked flag, dropAfterDequeue]
    have still : (d.countDropAfterDequeue item reason).peeked = true := flag
    simp only [still, if_true]
    -- counting it as dropped and as dequeued are independent of each other
    have counted := ((tally.flags d.requeued false).dequeue item rfl).countDrop reason
    exact { counted with }

theorem Tally.takeRequeued (tally : Tally d gone lost) (item : QueueDiscItem) :
    Tally (d.takeRequeued item) (if d.peeked then gone ++ [item] else gone) lost := by
  rw [QueueDisc.takeRequeued]
  cases flag : d.peeked with
  | false => exact tally.flags none false
  | true => exact (tally.flags none false).dequeue item rfl

theorem samePeek_dropped (d : QueueDisc) (item : QueueDiscItem) (reason : String) :
    SamePeek d (d.dropAfterDequeue item reason) := by
  have still : (d.countDropAfterDequeue item reason).peeked = d.peeked := rfl
  rw [dropAfterDequeue]
  simp only [still]
  cases flag : d.peeked with
  | false => exact ⟨rfl, rfl⟩
  | true =>
    have same := samePeek_dequeued
      { d.countDropAfterDequeue item reason with peeked := false } item
    exact ⟨flag.symm, same.requeued⟩

theorem Tally.getStats (profile : BuildProfile) (tally : Tally d gone lost) :
    d.getStats profile = some (d.sentPackets, d.sentBytes) := by
  rw [QueueDisc.getStats, decide_eq_true tally.drops, decide_eq_true tally.dropsBytes,
    nsAssert_true]
  rfl

namespace Counted

variable {s t : Counted} {profile : BuildProfile} {found : Option QueueDiscItem}
  {txQueueIndex : QueueDiscItem → Nat} {quota : Nat}

/-- The packet that waits although it was counted as dequeued. -/
def waiting (d : QueueDisc) : List QueueDiscItem := if d.peeked then [] else d.requeued.toList

/-- What was dequeued has left, waits or was dropped. -/
structure Recorded (s : Counted) : Prop where
  tally : Tally s.disc (s.left ++ waiting s.disc) s.lost
  flag : s.disc.peeked = true → s.disc.requeued ≠ none

/-! ## Calls -/

/-- What is dropped and dequeued leaves the rest as it is. -/
structure Frame (s t : Counted) : Prop where
  same : SamePeek s.disc t.disc
  left : t.left = s.left

theorem Frame.waiting (frame : Frame s t) : waiting t.disc = waiting s.disc := by
  rw [Counted.waiting, Counted.waiting, frame.same.peeked, frame.same.requeued]

theorem drops_spec (script : List (Nat × String)) (tally : Tally s.disc gone s.lost) :
    Tally (s.drops script).disc gone (s.drops script).lost ∧ Frame s (s.drops script) := by
  induction script generalizing s with
  | nil => exact ⟨tally, ⟨rfl, rfl⟩, rfl⟩
  | cons first others ih =>
    obtain ⟨i, reason⟩ := first
    rw [drops]
    split
    · exact ih tally
    · rename_i item _
      obtain ⟨counted, same, left⟩ := ih (s := { s with
        disc := (s.disc.packetDequeued item).dropAfterDequeue item reason
        held := s.held.eraseIdx i
        lost := s.lost ++ [item] }) (tally.takeDrop item reason)
      have taken := samePeek_dequeued s.disc item
      have dropped := samePeek_dropped (s.disc.packetDequeued item) item reason
      exact ⟨counted, ⟨same.peeked.trans (dropped.peeked.trans taken.peeked),
        same.requeued.trans (dropped.requeued.trans taken.requeued)⟩, left⟩

theorem Recorded.drops (recorded : Recorded s) (script : List (Nat × String)) :
    Recorded (s.drops script) := by
  obtain ⟨tally, frame⟩ := drops_spec script recorded.tally
  refine ⟨?_, ?_⟩
  · rw [frame.waiting, frame.left]
    exact tally
  · rw [frame.same.peeked, frame.same.requeued]
    exact recorded.flag

theorem Recorded.store (recorded : Recorded s) (item : QueueDiscItem) (dropped : Option String) :
    Recorded (s.store item dropped) := by
  cases dropped with
  | none => exact ⟨recorded.tally.enqueued item, recorded.flag⟩
  | some reason => exact ⟨recorded.tally.dropBefore item reason, recorded.flag⟩

theorem Recorded.enqueue {script : EnqueueScript} (recorded : Recorded s)
    (returns : s.enqueue profile item script = some t) : Recorded t := by
  obtain ⟨_, -, last⟩ := bind_returns.mp returns
  cases last
  have first : Recorded { s with disc := s.disc.received item } :=
    ⟨recorded.tally.received item, recorded.flag⟩
  exact ((first.drops script.before).store item script.dropped).drops script.after

variable {script : DequeueScript}

/-- `DoDequeue` counts the packet that it returns, unless it does so for `Peek`. -/
theorem doDequeue_spec (tally : Tally s.disc gone s.lost)
    (run : s.doDequeue script = (found, t)) :
    Tally t.disc (if s.disc.peeked then gone else gone ++ found.toList) t.lost ∧ Frame s t := by
  obtain ⟨counted, frame⟩ := drops_spec script.drops tally
  have nothing : found = none → t = s.drops script.drops →
      Tally t.disc (if s.disc.peeked then gone else gone ++ found.toList) t.lost ∧ Frame s t := by
    rintro rfl rfl
    rw [Option.toList_none, List.append_nil, ite_self]
    exact ⟨counted, frame⟩
  rw [Counted.doDequeue] at run
  split at run
  · obtain ⟨none_, same⟩ := Prod.mk.inj run
    exact nothing none_.symm same.symm
  · split at run
    · obtain ⟨none_, same⟩ := Prod.mk.inj run
      exact nothing none_.symm same.symm
    · rename_i item _
      cases run
      have taken := samePeek_dequeued (s.drops script.drops).disc item
      refine ⟨?_, ⟨taken.peeked.trans frame.same.peeked, taken.requeued.trans frame.same.requeued⟩,
        frame.left⟩
      cases flag : s.disc.peeked with
      | false => exact counted.dequeue _ (frame.same.peeked.trans flag)
      | true =>
        rw [packetDequeued_peeked (frame.same.peeked.trans flag)]
        exact counted

theorem dequeue_spec (tally : Tally s.disc gone s.lost)
    (none_ : s.disc.requeued = none) (run : s.dequeue profile script = some (found, t)) :
    Tally t.disc (if s.disc.peeked then gone else gone ++ found.toList) t.lost ∧ Frame s t := by
  rw [Counted.dequeue, none_] at run
  obtain ⟨_, -, last⟩ := bind_returns.mp run
  exact doDequeue_spec tally (Option.some.inj last)

/-- A packet that `Run` or `Dequeue` has taken, while no packet waits. -/
structure Taken (found : Option QueueDiscItem) (s : Counted) : Prop where
  tally : Tally s.disc (s.left ++ found.toList) s.lost
  requeued : s.disc.requeued = none
  peeked : s.disc.peeked = false

theorem Taken.recorded (taken : Taken none s) : Recorded s := by
  obtain ⟨tally, requeued, peeked⟩ := taken
  refine ⟨?_, fun flag => absurd (peeked.symm.trans flag) Bool.false_ne_true⟩
  rw [waiting, peeked, requeued]
  exact tally

theorem Recorded.takeRequeued (recorded : Recorded s) (waits : s.disc.requeued = some item) :
    Taken (some item) { s with disc := s.disc.takeRequeued item } := by
  obtain ⟨requeued, peeked⟩ := samePeek_takeRequeued s.disc item
  refine ⟨?_, requeued, peeked⟩
  have counted := recorded.tally.takeRequeued item
  rw [waiting, waits] at counted
  cases flag : s.disc.peeked with
  | false => simpa only [flag, Bool.false_eq_true, if_false, Option.toList_some] using counted
  | true => simpa only [flag, if_true, List.append_nil, Option.toList_some] using counted

theorem Recorded.not_peeked (recorded : Recorded s) (none_ : s.disc.requeued = none) :
    s.disc.peeked = false := by
  cases flag : s.disc.peeked with
  | false => rfl
  | true => exact absurd none_ (recorded.flag flag)

theorem Recorded.dequeue (recorded : Recorded s)
    (run : s.dequeue profile script = some (found, t)) : Taken found t ∧ t.left = s.left := by
  cases waits : s.disc.requeued with
  | some item =>
    rw [Counted.dequeue, waits] at run
    obtain ⟨_, -, last⟩ := bind_returns.mp run
    cases last
    exact ⟨recorded.takeRequeued waits, rfl⟩
  | none =>
    have quiet := recorded.not_peeked waits
    obtain ⟨tally, frame⟩ := dequeue_spec recorded.tally waits run
    refine ⟨⟨?_, frame.same.requeued.trans waits, frame.same.peeked.trans quiet⟩, frame.left⟩
    rw [quiet, waiting, quiet, waits, Option.toList_none] at tally
    rw [frame.left]
    simpa only [Bool.false_eq_true, if_false, List.append_nil] using tally

theorem Recorded.peek (recorded : Recorded s)
    (run : s.peek profile script = some t) : Recorded t := by
  rw [Counted.peek] at run
  cases waits : s.disc.requeued with
  | some item =>
    rw [waits] at run
    cases run
    exact recorded
  | none =>
    rw [waits] at run
    obtain ⟨⟨found, u⟩, dequeues, last⟩ := bind_returns.mp run
    cases last
    have quiet := recorded.not_peeked waits
    have before := recorded.tally
    rw [waiting, quiet, waits, Option.toList_none] at before
    obtain ⟨tally, frame⟩ := dequeue_spec (s := s.markPeeked)
      (before.flags s.disc.requeued true) waits dequeues
    have peeks : u.disc.peeked = true := frame.same.peeked
    have left : u.left = s.left := frame.left
    have nothing : waiting (u.keepPeeked found).disc = [] := by
      cases found with
      | none => rfl
      | some item => exact if_pos peeks
    refine ⟨?_, ?_⟩
    · rw [nothing]
      change Tally _ (u.left ++ []) u.lost
      rw [left]
      exact tally.flags found (found.isSome && u.disc.peeked)
    · cases found with
      | none => exact fun flag => absurd flag Bool.false_ne_true
      | some item => exact fun _ => Option.some_ne_none item

theorem Taken.transmit {quota : Nat} (taken : Taken (some item) s)
    (run : s.transmit txQueueIndex item quota = some t) : Recorded t := by
  obtain ⟨tally, requeued, peeked⟩ := taken
  obtain ⟨stopped, -, rest⟩ := bind_returns.mp run
  cases stopped with
  | true =>
    cases rest
    refine ⟨?_, fun _ => Option.some_ne_none item⟩
    have waits : waiting (s.requeue item).disc = [item] := if_neg (Bool.eq_false_iff.mp peeked)
    rw [waits]
    exact tally.flags (some item) s.disc.peeked
  | false =>
    cases rest
    have nothing : waiting s.disc = [] := by
      rw [waiting, peeked, requeued]
      rfl
    refine ⟨?_, fun flag => absurd (peeked.symm.trans flag) Bool.false_ne_true⟩
    rw [nothing, List.append_nil]
    exact tally

theorem Recorded.dequeuePacket (recorded : Recorded s)
    (run : s.dequeuePacket txQueueIndex profile script = some (found, t)) :
    (found = none ∧ Recorded t) ∨ ∃ item, found = some item ∧ Taken (some item) t := by
  rw [Counted.dequeuePacket] at run
  cases waits : s.disc.requeued with
  | some item =>
    rw [waits] at run
    obtain ⟨stopped, -, rest⟩ := bind_returns.mp run
    cases stopped with
    | true =>
      cases rest
      exact .inl ⟨rfl, recorded⟩
    | false =>
      cases rest
      exact .inr ⟨item, rfl, recorded.takeRequeued waits⟩
  | none =>
    rw [waits] at run
    obtain ⟨may, -, rest⟩ := bind_returns.mp run
    cases may with
    | false =>
      cases rest
      exact .inl ⟨rfl, recorded⟩
    | true =>
      have taken := (recorded.dequeue rest).1
      cases found with
      | none => exact .inl ⟨rfl, taken.recorded⟩
      | some item => exact .inr ⟨item, rfl, taken⟩

theorem Recorded.withPhase (recorded : Recorded s) (phase : Phase) :
    Recorded { s with phase } := ⟨recorded.tally, recorded.flag⟩

theorem Recorded.proceed (recorded : Recorded s)
    (run : s.proceed txQueueIndex profile script = some t) : Recorded t := by
  rw [Counted.proceed] at run
  cases phase : s.phase with
  | idle =>
    rw [phase] at run
    cases run
    exact recorded
  | restart quota =>
    rw [phase] at run
    obtain ⟨⟨found, u⟩, dequeues, rest⟩ := bind_returns.mp run
    obtain ⟨rfl, after⟩ | ⟨item, rfl, taken⟩ := recorded.dequeuePacket dequeues
    · cases rest
      exact after.withPhase .idle
    · exact taken.transmit rest
  | sending item quota =>
    rw [phase] at run
    obtain ⟨stopped, -, rest⟩ := bind_returns.mp run
    split at rest
    · cases rest
      exact recorded.withPhase .idle
    · cases rest
      exact recorded.withPhase _

theorem Recorded.step {call : Call} (recorded : Recorded s)
    (run : s.step txQueueIndex profile quota call = some t) : Recorded t := by
  cases call with
  | enqueue item script => exact recorded.enqueue run
  | dequeue script =>
    obtain ⟨⟨found, u⟩, dequeues, rfl⟩ := Option.map_eq_some_iff.mp run
    obtain ⟨tally, requeued, peeked⟩ := (recorded.dequeue dequeues).1
    have nothing : waiting u.disc = [] := by
      rw [waiting, peeked, requeued]
      rfl
    refine ⟨?_, fun flag => absurd (peeked.symm.trans flag) Bool.false_ne_true⟩
    rw [nothing, List.append_nil]
    exact tally
  | peek script => exact recorded.peek run
  | peekOverridden script =>
    cases run
    exact recorded.drops script
  | run =>
    cases run
    split
    · exact recorded.withPhase _
    · exact recorded
  | proceed script => exact recorded.proceed run
  | setStopped i stopped =>
    cases run
    exact ⟨recorded.tally, recorded.flag⟩

theorem recorded_initial (device : Option (List Bool)) : Recorded { device } where
  tally := ⟨rfl, rfl, rfl, rfl, rfl, rfl⟩
  flag := fun flag => absurd flag Bool.false_ne_true

/-! ## `GetStats` -/

/-- `GetStats` computes the packets that have left the queue disc, and no subtraction wraps. -/
structure Exact (profile : BuildProfile) (s : Counted) : Prop where
  stats : s.disc.getStats profile = some (s.left.length, total s.left)
  packets : s.disc.requeuedPackets ≤ s.disc.stats.nTotalDequeuedPackets ∧
    s.disc.stats.nTotalDroppedPacketsAfterDequeue ≤
      s.disc.stats.nTotalDequeuedPackets - s.disc.requeuedPackets
  bytes : s.disc.requeuedBytes ≤ s.disc.stats.nTotalDequeuedBytes ∧
    s.disc.stats.nTotalDroppedBytesAfterDequeue ≤
      s.disc.stats.nTotalDequeuedBytes - s.disc.requeuedBytes

/-- The packets that have left and the one that waits, with those that are counted as dropped, are
in the range of the counters. -/
def InRange (s : Counted) : Prop :=
  s.left.length + s.disc.stats.nTotalDroppedPacketsAfterDequeue + s.disc.requeuedPackets < 2 ^ 32 ∧
    total s.left + s.disc.stats.nTotalDroppedBytesAfterDequeue + s.disc.requeuedBytes < 2 ^ 64

theorem reduced_iff {m n r l : Nat} (pos : 0 < m) :
    (r ≤ (n + r + l) % m ∧ l % m ≤ (n + r + l) % m - r ∧ (n + r + l) % m - r - l % m = n) ↔
      n + l % m + r < m := by
  have same : (n + r + l) % m = (n + l % m + r) % m := by
    rw [Nat.add_right_comm, Nat.add_right_comm n (l % m), Nat.add_mod_mod, Nat.add_right_comm]
  have below := Nat.mod_lt (n + r + l) pos
  constructor
  · rintro ⟨first, second, rest⟩
    omega
  · intro fits
    rw [same, Nat.mod_eq_of_lt fits]
    omega

/-- No peeked packet waits. -/
def Unpeeked (s : Counted) : Prop := s.disc.requeued = none ∨ s.disc.peeked = false

theorem Unpeeked.waiting (unpeeked : Unpeeked s) : waiting s.disc = s.disc.requeued.toList := by
  rw [Counted.waiting]
  obtain none_ | quiet := unpeeked
  · rw [none_, Option.toList_none, ite_self]
  · rw [quiet]
    rfl

theorem requeuedPackets_eq (d : QueueDisc) : d.requeuedPackets = d.requeued.toList.length := by
  rw [requeuedPackets]
  cases d.requeued <;> rfl

theorem requeuedBytes_eq (d : QueueDisc) : d.requeuedBytes = total d.requeued.toList := by
  rw [requeuedBytes]
  cases d.requeued <;> rfl

/-- While no subtraction wraps, they are those of numbers. -/
theorem sent_eq (tally : Tally d gone lost)
    (packets : d.requeuedPackets ≤ d.stats.nTotalDequeuedPackets ∧
      d.stats.nTotalDroppedPacketsAfterDequeue ≤
        d.stats.nTotalDequeuedPackets - d.requeuedPackets)
    (bytes : d.requeuedBytes ≤ d.stats.nTotalDequeuedBytes ∧
      d.stats.nTotalDroppedBytesAfterDequeue ≤ d.stats.nTotalDequeuedBytes - d.requeuedBytes) :
    d.getStats profile = some (
      d.stats.nTotalDequeuedPackets - d.requeuedPackets -
        d.stats.nTotalDroppedPacketsAfterDequeue,
      d.stats.nTotalDequeuedBytes - d.requeuedBytes - d.stats.nTotalDroppedBytesAfterDequeue) := by
  have range : d.stats.nTotalDequeuedPackets < 2 ^ 32 := tally.dequeued ▸ Nat.mod_lt _ (by decide)
  have rangeBytes : d.stats.nTotalDequeuedBytes < 2 ^ 64 :=
    tally.dequeuedBytes ▸ Nat.mod_lt _ (by decide)
  rw [tally.getStats profile, sentPackets, sentBytes, UInt32.sub_of_le packets.1 range,
    UInt32.sub_of_le packets.2 (by omega), UInt64.sub_of_le bytes.1 rangeBytes,
    UInt64.sub_of_le bytes.2 (by omega)]

/-- With an unpeeked packet in `m_requeued`, or with none, the range decides. -/
theorem Recorded.exact_unpeeked (recorded : Recorded s) (unpeeked : Unpeeked s) :
    Exact profile s ↔ InRange s := by
  have tally := recorded.tally
  rw [unpeeked.waiting] at tally
  have packets := tally.dequeued
  have bytes := tally.dequeuedBytes
  rw [List.length_append, ← requeuedPackets_eq] at packets
  rw [total_append, ← requeuedBytes_eq] at bytes
  have inRange : InRange s ↔ _ ∧ _ :=
    and_congr (tally.dropped ▸ (reduced_iff (by decide)).symm)
      (tally.droppedBytes ▸ (reduced_iff (by decide)).symm)
  rw [inRange, ← packets, ← bytes]
  constructor
  · rintro ⟨stats, noWrap, noWrapBytes⟩
    rw [sent_eq tally noWrap noWrapBytes, Option.some.injEq, Prod.mk.injEq] at stats
    exact ⟨⟨noWrap.1, noWrap.2, stats.1⟩, noWrapBytes.1, noWrapBytes.2, stats.2⟩
  · rintro ⟨⟨first, second, rest⟩, firstBytes, secondBytes, restBytes⟩
    refine ⟨?_, ⟨first, second⟩, firstBytes, secondBytes⟩
    rw [sent_eq tally ⟨first, second⟩ ⟨firstBytes, secondBytes⟩, rest, restBytes]

theorem Recorded.exact_iff (recorded : Recorded s) :
    Exact profile s ↔ Unpeeked s ∧ InRange s := by
  by_cases unpeeked : Unpeeked s
  · rw [recorded.exact_unpeeked unpeeked, and_iff_right unpeeked]
  · -- one packet too many is subtracted
    refine iff_of_false ?_ fun both => unpeeked both.1
    rintro ⟨stats, noWrap, noWrapBytes⟩
    obtain ⟨some_, peeks⟩ := not_or.mp unpeeked
    rw [Bool.not_eq_false] at peeks
    have tally := recorded.tally
    rw [waiting, peeks, if_pos rfl, List.append_nil] at tally
    rw [sent_eq tally noWrap noWrapBytes, Option.some.injEq, Prod.mk.injEq] at stats
    have one : s.disc.requeuedPackets = 1 := if_pos (Option.isSome_iff_ne_none.mpr some_)
    have packets := tally.dequeued
    have dropped := tally.dropped
    omega

/-- In every state of every run, what `GetStats` computes is exact if and only if no peeked packet
waits and the numbers are in the range of their counters. -/
theorem getStats_iff (txQueueIndex : QueueDiscItem → Nat) (profile : BuildProfile) (quota : Nat)
    (device : Option (List Bool)) (calls : List Call) :
    Run.Always (Counted.step txQueueIndex profile quota)
      (fun s => Exact profile s ↔ Unpeeked s ∧ InRange s) { device } calls :=
  Run.Always.of_invariant (recorded_initial device)
    (Run.Meets.of_forall (fun _ _ => trivial) _ calls)
      (fun _ recorded => recorded.exact_iff) fun _ _ _ recorded _ run => recorded.step run

/-- A packet is enqueued and peeked: none has left, and the number of sent packets is the largest
of its range. -/
theorem peeked_wraps : ∃ s, Run.exec (Counted.step (fun _ => 0) .debug 64) {}
        [.enqueue ⟨1, 100⟩ {}, .peek {}] = some s ∧
      s.left = [] ∧ s.disc.getStats .debug = some (2 ^ 32 - 1, 2 ^ 64 - 100) := by
  refine ⟨_, rfl, rfl, ?_⟩
  decide

end Counted

end Ns3.QueueDisc
