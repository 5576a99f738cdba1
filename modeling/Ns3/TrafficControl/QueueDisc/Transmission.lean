import Ns3.TrafficControl.QueueDisc.Accounting
import Ns3.Library.Run
import Mathlib.Data.List.Perm.Subperm

/-!
# Transmission of packets

`Run` takes packets out of a root queue disc, adds their headers and gives them to the send
callback, until the queue disc is empty, the quota is used up or the transmission queue of
the device is stopped. A packet can wait in `m_requeued` in the meantime, because it was
peeked or because its transmission queue was found stopped.

What a subclass of `QueueDisc` overrides is a `Discipline`. The send callback may call the
queue disc again, so a `Run` is cut into steps, with other calls between them.
-/

namespace Ns3.QueueDisc

open List Option

/-- What a subclass of `QueueDisc` overrides. It leaves the members of the base class that
`Peek` and `Requeue` write alone, and produces packets that it holds, each once. -/
structure Discipline (σ : Type) where
  held : σ → List QueueDiscItem
  doEnqueue : QueueDiscItem → σ → QueueDisc → Option (Bool × σ × QueueDisc)
  doDequeue : σ → QueueDisc → Option (Option QueueDiscItem × σ × QueueDisc)
  enqueue_holds : ∀ {item c d stored c' d'}, doEnqueue item c d = some (stored, c', d') →
    (held c').Subperm (item :: held c)
  enqueue_keeps : ∀ {item c d stored c' d'}, doEnqueue item c d = some (stored, c', d') →
    SamePeek d d'
  dequeue_holds : ∀ {c d found c' d'}, doDequeue c d = some (found, c', d') →
    (found.toList ++ held c').Subperm (held c)
  dequeue_keeps : ∀ {c d found c' d'}, doDequeue c d = some (found, c', d') → SamePeek d d'

/-- Where `Run` stands, with what is left of its quota: before `Restart`, or in the send
callback. -/
inductive Phase where
  | idle
  | restart (quota : Nat)
  | sending (item : QueueDiscItem) (quota : Nat)
  deriving DecidableEq

/-- A root queue disc and the stop flags of the transmission queues of its device, if it
has flow control. Lists record the packets that were offered, that `DoDequeue` produced,
whose header was added, and that were sent, each with the number of its headers. -/
structure Sender (σ : Type) where
  disc : QueueDisc := {}
  contents : σ
  device : Option (List Bool) := none
  phase : Phase := .idle
  offered : List QueueDiscItem := []
  produced : List QueueDiscItem := []
  framed : List QueueDiscItem := []
  sent : List (QueueDiscItem × Nat) := []

variable {σ : Type} (D : Discipline σ) (txQueueIndex : QueueDiscItem → Nat)
  (profile : BuildProfile) (quota : Nat)

/-- `IsStopped` of a transmission queue; without flow control no queue is ever stopped. -/
def txStopped (s : Sender σ) (i : Nat) : Option Bool :=
  match s.device with
  | none => some false
  | some queues => queues[i]?

/-- `DequeuePacket` asks for a packet that has not been seen only if the queue disc may know
which queue is stopped, or the only one is not. -/
def mayDequeue (s : Sender σ) : Option Bool :=
  match s.device with
  | none => some true
  | some queues => if 1 < queues.length then some true else queues[0]?.map (!·)

/-- `Enqueue`. -/
def Sender.enqueue (item : QueueDiscItem) (s : Sender σ) : Option (Sender σ) := do
  let (_, contents, disc) ← D.doEnqueue item s.contents (s.disc.received item)
  disc.assertReceived profile
  return { s with contents, disc, offered := s.offered ++ [item] }

/-- `DoDequeue`. -/
def Sender.doDequeue (s : Sender σ) : Option (Option QueueDiscItem × Sender σ) := do
  let (found, contents, disc) ← D.doDequeue s.contents s.disc
  return (found, { s with contents, disc, produced := s.produced ++ found.toList })

/-- `Dequeue`. -/
def Sender.dequeue (s : Sender σ) : Option (Option QueueDiscItem × Sender σ) := do
  let (found, s) ← match s.disc.requeued with
    | some item => some (some item, { s with disc := s.disc.takeRequeued item })
    | none => s.doDequeue D
  s.disc.assertHeld profile
  return (found, s)

/-- `Peek` sets `m_peeked` before it dequeues a packet. -/
def Sender.markPeeked (s : Sender σ) : Sender σ := { s with disc := { s.disc with peeked := true } }

/-- `Peek` keeps the packet; if there is none, nothing is peeked. -/
def Sender.keepPeeked (found : Option QueueDiscItem) (s : Sender σ) : Sender σ :=
  { s with disc := { s.disc with requeued := found, peeked := found.isSome && s.disc.peeked } }

/-- `Peek`. -/
def Sender.peek (s : Sender σ) : Option (Sender σ) := do
  match s.disc.requeued with
  | some _ => some s
  | none => do
      let (found, s) ← s.markPeeked.dequeue D profile
      return s.keepPeeked found

/-- `AddHeader` of the packet. -/
def Sender.addHeader (item : QueueDiscItem) (s : Sender σ) : Option (Sender σ) := do
  nsAssert profile (item ∉ s.framed)
  return { s with framed := s.framed ++ [item] }

/-- `DequeuePacket`. -/
def Sender.dequeuePacket (s : Sender σ) : Option (Option QueueDiscItem × Sender σ) := do
  match s.disc.requeued with
  | some item =>
    if ← txStopped s (txQueueIndex item) then return (none, s)
    else return (some item, { s with disc := s.disc.takeRequeued item })
  | none =>
    if ← mayDequeue s then
      match ← s.dequeue D profile with
      | (none, s) => return (none, s)
      | (some item, s) => return (some item, ← s.addHeader profile item)
    else return (none, s)

/-- `Transmit`, up to the send callback. -/
def Sender.transmit (item : QueueDiscItem) (quota : Nat) (s : Sender σ) : Option (Sender σ) := do
  if ← txStopped s (txQueueIndex item) then
    return { s with disc := { s.disc with requeued := some item }, phase := .idle }
  else
    return { s with
      sent := s.sent ++ [(item, s.framed.count item)], phase := .sending item quota }

/-- The next step of `Run`. -/
def Sender.proceed (s : Sender σ) : Option (Sender σ) := do
  match s.phase with
  | .idle => return s
  | .restart quota =>
    match ← s.dequeuePacket D txQueueIndex profile with
    | (none, s) => return { s with phase := .idle }
    | (some item, s) => s.transmit txQueueIndex item quota
  | .sending item quota =>
    let stopped ← txStopped s (txQueueIndex item)
    if s.disc.nPackets = 0 ∨ stopped then return { s with phase := .idle }
    else
      let quota := UInt32.sub quota 1
      return { s with phase := if quota ≤ 0 then .idle else .restart quota }

/-- The calls on a root queue disc, the steps of its `Run`, and what the device does. -/
inductive SenderCall where
  | enqueue (item : QueueDiscItem)
  | peek
  | run
  | proceed
  | setStopped (i : Nat) (stopped : Bool)
  deriving DecidableEq

/-- One call. `Run` does nothing while another one is running. -/
def Sender.step (s : Sender σ) : SenderCall → Option (Sender σ)
  | .enqueue item => s.enqueue D profile item
  | .peek => s.peek D profile
  | .run => some (if s.phase = .idle then { s with phase := .restart quota } else s)
  | .proceed => s.proceed D txQueueIndex profile
  | .setStopped i stopped => some { s with device := s.device.map (·.set i stopped) }

/-! ## What is sent -/

/-- The packets that are sent are those that `DoDequeue` produced, in the same order, and
none is sent twice. -/
structure InOrder (s : Sender σ) : Prop where
  line : s.sent.map Prod.fst <+: s.produced
  once : (s.sent.map Prod.fst).Nodup

/-- And the header of each has been added once. -/
structure Delivered (s : Sender σ) : Prop extends InOrder s where
  framed : ∀ p ∈ s.sent, p.2 = 1

/-- The packet of an `Enqueue` was not offered before. -/
def Fresh (s : Sender σ) : SenderCall → Prop
  | .enqueue item => item ∉ s.offered
  | _ => True

/-- `Run` does not find a peeked packet whose transmission queue is not stopped. -/
def PeekedWaits (s : Sender σ) : SenderCall → Prop
  | .proceed => match s.phase, s.disc.requeued with
    | .restart _, some item => s.disc.peeked = true → txStopped s (txQueueIndex item) ≠ some false
    | _, _ => True
  | _ => True

/-- Every packet that was produced was sent or waits, and what waits has its header unless
it was peeked. -/
structure Lined (s : Sender σ) : Prop where
  line : s.produced = s.sent.map Prod.fst ++ s.disc.requeued.toList
  offered : (s.produced ++ D.held s.contents).Subperm s.offered
  once : s.offered.Nodup
  flag : s.disc.peeked = true → s.disc.requeued ≠ none
  framed : ∀ item ∈ s.framed, item ∈ s.produced
  waiting : ∀ item, s.disc.requeued = some item →
    s.framed.count item = if s.disc.peeked then 0 else 1

variable {D txQueueIndex profile quota} {s t : Sender σ} {item : QueueDiscItem}
  {found : Option QueueDiscItem}

theorem samePeek_takeRequeued (d : QueueDisc) (item : QueueDiscItem) :
    (d.takeRequeued item).requeued = none ∧ (d.takeRequeued item).peeked = false := by
  cases flag : d.peeked with
  | false => simp [takeRequeued, flag]
  | true =>
    have same := samePeek_dequeued { d with requeued := none, peeked := false } item
    simp only [takeRequeued, flag, if_true]
    exact ⟨same.requeued, same.peeked⟩

theorem Sender.doDequeue_spec (h : (s.produced ++ D.held s.contents).Subperm s.offered)
    (run : s.doDequeue D = some (found, t)) :
    ∃ contents disc, t = { s with contents, disc, produced := s.produced ++ found.toList } ∧
      SamePeek s.disc disc ∧ (t.produced ++ D.held contents).Subperm s.offered := by
  simp only [Sender.doDequeue, bind_returns, pure_returns, Prod.mk.injEq] at run
  obtain ⟨⟨found, contents, disc⟩, produced, rfl, rfl⟩ := run
  refine ⟨contents, disc, rfl, D.dequeue_keeps produced, ?_⟩
  rw [append_assoc]
  exact ((subperm_append_left s.produced).mpr (D.dequeue_holds produced)).trans h

theorem Sender.dequeue_spec (h : (s.produced ++ D.held s.contents).Subperm s.offered)
    (none_ : s.disc.requeued = none) (run : s.dequeue D profile = some (found, t)) :
    ∃ contents disc, t = { s with contents, disc, produced := s.produced ++ found.toList } ∧
      SamePeek s.disc disc ∧ (t.produced ++ D.held contents).Subperm s.offered := by
  simp only [Sender.dequeue, none_, bind_returns, pure_returns, Prod.mk.injEq] at run
  obtain ⟨⟨found, u⟩, produced, -, -, rfl, rfl⟩ := run
  exact Sender.doDequeue_spec h produced

theorem nodup_of_subperm {l l' : List QueueDiscItem} (h : l.Subperm l') (once : l'.Nodup) :
    l.Nodup := by
  obtain ⟨m, perm, sub⟩ := h
  exact perm.nodup_iff.mp (once.sublist sub)

section

variable (h : Lined D s)
include h

theorem Lined.new {held : List QueueDiscItem}
    (offered : ((s.produced ++ [item]) ++ held).Subperm s.offered) : s.framed.count item = 0 := by
  refine count_eq_zero.mpr fun mem => ?_
  have once := (nodup_append.mp (nodup_of_subperm offered h.once)).1
  exact (nodup_append.mp once).2.2 item (h.framed item mem) item mem_cons_self rfl

theorem Lined.enqueue (fresh : item ∉ s.offered)
    (run : s.enqueue D profile item = some t) : Lined D t ∧ t.sent = s.sent := by
  simp only [Sender.enqueue, bind_returns, pure_returns] at run
  obtain ⟨⟨stored, contents, disc⟩, stores, -, -, rfl⟩ := run
  have same := D.enqueue_keeps stores
  have peeked : disc.peeked = s.disc.peeked := same.peeked
  have requeued : disc.requeued = s.disc.requeued := same.requeued
  refine ⟨⟨?_, ?_, ?_, ?_, h.framed, ?_⟩, rfl⟩
  · rw [requeued]
    exact h.line
  · have more := (subperm_append_left s.produced).mpr (D.enqueue_holds stores)
    have moved : (s.produced ++ item :: D.held s.contents).Perm
        ((s.produced ++ D.held s.contents) ++ [item]) := by
      rw [append_assoc]
      exact (perm_append_singleton item _).symm.append_left s.produced
    exact (more.trans moved.subperm).trans ((subperm_append_right _).mpr h.offered)
  · refine nodup_append.mpr ⟨h.once, pairwise_singleton _ _, ?_⟩
    intro a old b new same
    exact fresh (mem_singleton.mp new ▸ same ▸ old)
  · rw [peeked, requeued]
    exact h.flag
  · rw [peeked, requeued]
    exact h.waiting

theorem Lined.peek (run : s.peek D profile = some t) :
    Lined D t ∧ t.sent = s.sent := by
  cases requeued : s.disc.requeued with
  | some item =>
    simp only [Sender.peek, requeued, some.injEq] at run
    exact ⟨run ▸ h, run ▸ rfl⟩
  | none =>
    simp only [Sender.peek, requeued, bind_returns, pure_returns] at run
    obtain ⟨⟨found, u⟩, dequeues, rfl⟩ := run
    obtain ⟨contents, disc, rfl, same, offered⟩ :=
      Sender.dequeue_spec (s := s.markPeeked) h.offered requeued dequeues
    have flag : disc.peeked = true := same.peeked
    have line := h.line
    rw [requeued, toList_none, append_nil] at line
    refine ⟨⟨?_, offered, h.once, ?_, fun item mem => ?_, fun item here => ?_⟩, rfl⟩
    · simp only [Sender.keepPeeked, Sender.markPeeked, line]
    · cases found with
      | none => exact nofun
      | some item => exact fun _ => nofun
    · exact mem_append_left _ (h.framed item mem)
    · -- the peeked packet is new, so it has no header yet
      obtain rfl : found = some item := here
      simp only [Sender.keepPeeked, isSome_some, flag, Bool.and_self, if_true]
      exact h.new offered

/-- `Run` has taken a packet, and nothing else waits. -/
structure InHand (D : Discipline σ) (item : QueueDiscItem) (s : Sender σ) : Prop where
  line : s.produced = s.sent.map Prod.fst ++ [item]
  offered : (s.produced ++ D.held s.contents).Subperm s.offered
  once : s.offered.Nodup
  framed : ∀ i ∈ s.framed, i ∈ s.produced
  requeued : s.disc.requeued = none
  peeked : s.disc.peeked = false

theorem Lined.take (here : s.disc.requeued = some item) :
    InHand D item { s with disc := s.disc.takeRequeued item } := by
  obtain ⟨requeued, peeked⟩ := samePeek_takeRequeued s.disc item
  have line := h.line
  rw [here] at line
  exact ⟨line, h.offered, h.once, h.framed, requeued, peeked⟩

/-- A packet is produced, and its header is added. -/
theorem Lined.produce (none_ : s.disc.requeued = none) {u : Sender σ}
    (dequeues : s.dequeue D profile = some (some item, u))
    (adds : u.addHeader profile item = some t) :
    InHand D item t ∧ t.framed.count item = 1 ∧ t.sent = s.sent ∧ t.device = s.device := by
  obtain ⟨contents, disc, rfl, same, offered⟩ := Sender.dequeue_spec h.offered none_ dequeues
  simp only [Sender.addHeader, bind_returns, pure_returns] at adds
  obtain ⟨-, -, rfl⟩ := adds
  have line := h.line
  rw [none_, toList_none, append_nil] at line
  have quiet : s.disc.peeked = false := by
    cases flag : s.disc.peeked with
    | false => rfl
    | true => exact absurd none_ (h.flag flag)
  refine ⟨⟨?_, offered, h.once, fun i mem => ?_, same.requeued.trans none_,
    same.peeked.trans quiet⟩, ?_, rfl, rfl⟩
  · simp [line]
  · obtain old | new := mem_append.mp mem
    · exact mem_append_left _ (h.framed i old)
    · exact mem_append_right _ new
  · have none_ := h.new offered
    simp [none_]

theorem Lined.produceNone (none_ : s.disc.requeued = none)
    (dequeues : s.dequeue D profile = some (none, t)) : Lined D t ∧ t.sent = s.sent := by
  obtain ⟨contents, disc, rfl, same, offered⟩ := Sender.dequeue_spec h.offered none_ dequeues
  have requeued : disc.requeued = s.disc.requeued := same.requeued
  have peeked : disc.peeked = s.disc.peeked := same.peeked
  refine ⟨⟨?_, offered, h.once, ?_, fun i mem => ?_, ?_⟩, rfl⟩
  · rw [toList_none, append_nil, requeued]
    exact h.line
  · rw [requeued, peeked]
    exact h.flag
  · exact mem_append_left _ (h.framed i mem)
  · rw [requeued, peeked]
    exact h.waiting

end

/-- The packet is sent, or it waits because its queue is stopped. -/
theorem InHand.transmit (h : InHand D item s) {left : Nat}
    (framed : txStopped s (txQueueIndex item) = some true → s.framed.count item = 1)
    (run : s.transmit txQueueIndex item left = some t) :
    Lined D t ∧ (t.sent = s.sent ∨ t.sent = s.sent ++ [(item, s.framed.count item)]) := by
  simp only [Sender.transmit, bind_returns] at run
  obtain ⟨stopped, known, run⟩ := run
  cases stopped with
  | true =>
    simp only [if_true, Option.pure_def, some.injEq] at run
    subst run
    refine ⟨⟨h.line, h.offered, h.once, fun _ => nofun, h.framed, fun i waits => ?_⟩, .inl rfl⟩
    cases waits
    simp only [h.peeked, Bool.false_eq_true, if_false]
    exact framed known
  | false =>
    simp only [Bool.false_eq_true, if_false, Option.pure_def, some.injEq] at run
    subst run
    refine ⟨⟨?_, h.offered, h.once, fun flag => ?_, h.framed, fun i waits => ?_⟩, .inr rfl⟩
    · simp [h.requeued, h.line]
    · rw [h.peeked] at flag
      cases flag
    · rw [h.requeued] at waits
      cases waits

/-- What a step of `Run` may send, when no peeked packet is taken. -/
def Sends (s t : Sender σ) : Prop := t.sent = s.sent ∨ ∃ item, t.sent = s.sent ++ [(item, 1)]

section

variable (h : Lined D s)
include h

theorem Lined.phase (phase : Phase) : Lined D { s with phase } :=
  ⟨h.line, h.offered, h.once, h.flag, h.framed, h.waiting⟩

/-- A step of `Run` before `DequeuePacket`. -/
theorem Lined.restart {left : Nat} (here : s.phase = .restart left)
    (run : s.proceed D txQueueIndex profile = some t) :
    Lined D t ∧ (PeekedWaits txQueueIndex s .proceed → Sends s t) := by
  simp only [Sender.proceed, here, bind_returns] at run
  obtain ⟨⟨found, u⟩, taken, run⟩ := run
  cases requeued : s.disc.requeued with
  | some item =>
    simp only [Sender.dequeuePacket, requeued, bind_returns] at taken
    obtain ⟨stopped, known, taken⟩ := taken
    cases stopped with
    | true =>
      obtain ⟨rfl, rfl⟩ := taken
      simp only [Option.pure_def, some.injEq] at run
      subst run
      exact ⟨h.phase .idle, fun _ => .inl rfl⟩
    | false =>
      obtain ⟨rfl, rfl⟩ := taken
      -- the flag is read twice without a change in between
      have unchanged : txStopped { s with disc := s.disc.takeRequeued item }
          (txQueueIndex item) = some false := known
      obtain ⟨lined, sent⟩ := (h.take requeued).transmit (by rw [unchanged]; nofun) run
      refine ⟨lined, fun waits => ?_⟩
      obtain same | more := sent
      · exact .inl same
      · refine .inr ⟨item, more.trans ?_⟩
        simp only [PeekedWaits, here, requeued] at waits
        have count := h.waiting item requeued
        rw [if_neg fun flag => waits flag known] at count
        rw [count]
  | none =>
    simp only [Sender.dequeuePacket, requeued, bind_eq_bind,
      bind_eq_some_iff] at taken
    obtain ⟨may, -, taken⟩ := taken
    cases may with
    | false =>
      obtain ⟨rfl, rfl⟩ := taken
      simp only [Option.pure_def, some.injEq] at run
      subst run
      exact ⟨h.phase .idle, fun _ => .inl rfl⟩
    | true =>
      simp only [if_true, bind_eq_some_iff] at taken
      obtain ⟨⟨produced, v⟩, dequeues, taken⟩ := taken
      cases produced with
      | none =>
        cases taken
        simp only [Option.pure_def, some.injEq] at run
        subst run
        obtain ⟨lined, sent⟩ := h.produceNone requeued dequeues
        exact ⟨lined.phase .idle, fun _ => .inl sent⟩
      | some item =>
        simp only [bind_eq_some_iff, Option.pure_def, some.injEq,
          Prod.mk.injEq] at taken
        obtain ⟨w, adds, rfl, rfl⟩ := taken
        obtain ⟨hand, count, sent, -⟩ := h.produce requeued dequeues adds
        obtain ⟨lined, later⟩ := hand.transmit (fun _ => count) run
        rw [count, sent] at later
        exact ⟨lined, fun _ => later.imp_right fun more => ⟨item, more⟩⟩

theorem Lined.proceed (run : s.proceed D txQueueIndex profile = some t) :
    Lined D t ∧ (PeekedWaits txQueueIndex s .proceed → Sends s t) := by
  cases here : s.phase with
  | idle =>
    simp only [Sender.proceed, here, Option.pure_def, some.injEq] at run
    exact ⟨run ▸ h, fun _ => run ▸ .inl rfl⟩
  | restart left => exact h.restart here run
  | sending item left =>
    simp only [Sender.proceed, here, bind_returns] at run
    obtain ⟨stopped, -, run⟩ := run
    split at run
    all_goals
      simp only [Option.pure_def, some.injEq] at run
      subst run
      exact ⟨h.phase _, fun _ => .inl rfl⟩

theorem Lined.step {call : SenderCall} (fresh : Fresh s call)
    (run : s.step D txQueueIndex profile quota call = some t) :
    Lined D t ∧ (PeekedWaits txQueueIndex s call → Sends s t) := by
  cases call with
  | enqueue item =>
    obtain ⟨lined, sent⟩ := h.enqueue fresh run
    exact ⟨lined, fun _ => .inl sent⟩
  | peek =>
    obtain ⟨lined, sent⟩ := h.peek run
    exact ⟨lined, fun _ => .inl sent⟩
  | run =>
    simp only [Sender.step, some.injEq] at run
    subst run
    split
    · exact ⟨h.phase _, fun _ => .inl rfl⟩
    · exact ⟨h, fun _ => .inl rfl⟩
  | proceed => exact h.proceed run
  | setStopped i stopped =>
    cases run
    exact ⟨⟨h.line, h.offered, h.once, h.flag, h.framed, h.waiting⟩, fun _ => .inl rfl⟩

/-- A peeked packet that `Run` takes is sent without its header. -/
theorem Lined.takesPeeked {call : SenderCall}
    (takes : ¬ PeekedWaits txQueueIndex s call) :
    ∃ t item, s.step D txQueueIndex profile quota call = some t ∧
      t.sent = s.sent ++ [(item, 0)] := by
  cases call with
  | proceed =>
    cases here : s.phase with
    | restart left =>
      cases requeued : s.disc.requeued with
      | some item =>
        simp only [PeekedWaits, here, requeued, Classical.not_imp, not_not] at takes
        obtain ⟨peeked, known⟩ := takes
        have unchanged (disc : QueueDisc) (phase : Phase) :
            txStopped { s with disc, phase } (txQueueIndex item) = some false := known
        have count := h.waiting item requeued
        rw [if_pos peeked] at count
        refine ⟨{ s with
          disc := s.disc.takeRequeued item
          sent := s.sent ++ [(item, 0)], phase := .sending item left }, item, ?_, rfl⟩
        simp [Sender.step, Sender.proceed, here, Sender.dequeuePacket, requeued, known,
          Sender.transmit, unchanged, count]
      | none => simp [PeekedWaits, here, requeued] at takes
    | idle => simp [PeekedWaits, here] at takes
    | sending item left => simp [PeekedWaits, here] at takes
  | enqueue item => exact absurd trivial takes
  | peek => exact absurd trivial takes
  | run => exact absurd trivial takes
  | setStopped i stopped => exact absurd trivial takes

theorem Lined.inOrder : InOrder s := by
  have part : s.sent.map Prod.fst <+: s.produced := ⟨_, h.line.symm⟩
  refine ⟨part, ?_⟩
  exact (nodup_append.mp (nodup_of_subperm h.offered h.once)).1.sublist part.sublist

end

/-- A new root queue disc, and its device. -/
def Sender.start (contents : σ) (device : Option (List Bool)) : Sender σ := { contents, device }

theorem start_lined {contents : σ} (device : Option (List Bool)) (empty : D.held contents = []) :
    Lined D (Sender.start contents device) where
  line := rfl
  offered := by
    simp only [Sender.start, empty, append_nil]
    exact List.Subperm.refl _
  once := nodup_nil
  flag := nofun
  framed := nofun
  waiting := nofun

/-- In every run packets leave in order and once; each has its header, added once, if and
only if `Run` never finds a peeked packet whose transmission queue is not stopped. -/
theorem delivered_iff (D : Discipline σ) (txQueueIndex : QueueDiscItem → Nat)
    (profile : BuildProfile) (quota : Nat) (contents : σ) (device : Option (List Bool))
    (empty : D.held contents = []) (calls : List SenderCall)
    (fresh : Run.Meets (Sender.step D txQueueIndex profile quota) Fresh
      (Sender.start contents device) calls) :
    Run.Always (Sender.step D txQueueIndex profile quota) InOrder
      (Sender.start contents device) calls ∧
    (Run.Always (Sender.step D txQueueIndex profile quota) Delivered
        (Sender.start contents device) calls ↔
      Run.Meets (Sender.step D txQueueIndex profile quota) (PeekedWaits txQueueIndex)
        (Sender.start contents device) calls) := by
  have lined := start_lined device empty
  constructor
  · exact Run.Always.of_invariant lined fresh (fun _ h => h.inOrder)
      fun _ _ _ h new run => (h.step new run).1
  · refine Run.always_iff_meets_within (I := fun s => Lined D s ∧ ∀ p ∈ s.sent, p.2 = 1)
      ⟨lined, nofun⟩ fresh (fun _ h => ⟨h.1.inOrder, h.2⟩) ?_ ?_
    · rintro s call t ⟨h, framed⟩ new waits run
      obtain ⟨lined', sends⟩ := h.step new run
      refine ⟨lined', ?_⟩
      obtain same | ⟨item, more⟩ := sends waits
      · rw [same]
        exact framed
      · rw [more]
        intro p mem
        obtain old | last := List.mem_append.mp mem
        · exact framed p old
        · rw [List.mem_singleton.mp last]
    · rintro s call ⟨h, -⟩ - delivered
      by_contra takes
      obtain ⟨t, item, run, more⟩ : ∃ t item, s.step D txQueueIndex profile quota call = some t ∧
          t.sent = s.sent ++ [(item, 0)] := h.takesPeeked takes
      have one := (delivered t run).framed (item, 0) (by simp [more])
      cases one

/-! ## A queue disc with one internal queue -/

/-- The internal queue of a `CoDelQueueDisc`, its limit in packets, and how many packets
its law drops at each call of `DoDequeue`. -/
structure CoDel where
  queue : List QueueDiscItem := []
  limit : Nat
  drops : List Nat := []
  deriving DecidableEq

/-- Packets are dropped from the head. -/
def CoDel.dropHead : Nat → List QueueDiscItem → QueueDisc → List QueueDiscItem × QueueDisc
  | 0, queue, d => (queue, d)
  | _, [], d => ([], d)
  | count + 1, item :: queue, d =>
    dropHead count queue ((d.packetDequeued item).dropAfterDequeue item "Target exceeded drop")

/-- `CoDelQueueDisc::DoEnqueue`. -/
def CoDel.doEnqueue (item : QueueDiscItem) (c : CoDel) (d : QueueDisc) :
    Option (Bool × CoDel × QueueDisc) :=
  if c.limit < d.nPackets + 1 then some (false, c, d.dropBeforeEnqueue item "Overlimit drop")
  else some (true, { c with queue := c.queue ++ [item] }, d.packetEnqueued item)

/-- `CoDelQueueDisc::DoDequeue`. -/
def CoDel.doDequeue (c : CoDel) (d : QueueDisc) : Option
    (Option QueueDiscItem × CoDel × QueueDisc) :=
  match CoDel.dropHead (c.drops.headD 0) c.queue d with
  | ([], d) => some (none, { c with queue := [], drops := c.drops.tail }, d)
  | (item :: queue, d) =>
    some (some item, { c with queue, drops := c.drops.tail }, d.packetDequeued item)

theorem SamePeek.trans {d e f : QueueDisc} (h : SamePeek d e) (h' : SamePeek e f) : SamePeek d f :=
  ⟨h'.peeked.trans h.peeked, h'.requeued.trans h.requeued⟩

theorem samePeek_dropAfter (d : QueueDisc) (item : QueueDiscItem) (reason : String) :
    SamePeek d (d.dropAfterDequeue item reason) := by
  rw [dropAfterDequeue]
  cases flag : d.peeked with
  | false => exact ⟨by simp [countDropAfterDequeue, flag], by simp [countDropAfterDequeue, flag]⟩
  | true =>
    have same := samePeek_dequeued { d.countDropAfterDequeue item reason with peeked := false } item
    simp only [countDropAfterDequeue, flag, if_true] at same ⊢
    exact ⟨flag.symm, same.requeued⟩

theorem CoDel.dropHead_spec (count : Nat) (queue : List QueueDiscItem) (d : QueueDisc) :
    (CoDel.dropHead count queue d).1.Sublist queue ∧ SamePeek d
    (CoDel.dropHead count queue d).2 := by
  induction queue generalizing count d with
  | nil => cases count <;> exact ⟨.refl _, rfl, rfl⟩
  | cons item queue ih =>
    cases count with
    | zero => exact ⟨.refl _, rfl, rfl⟩
    | succ count =>
      obtain ⟨sub, same⟩ := ih count
        ((d.packetDequeued item).dropAfterDequeue item "Target exceeded drop")
      refine ⟨sub.cons item, SamePeek.trans ?_ same⟩
      exact (samePeek_dequeued d item).trans (samePeek_dropAfter _ item _)

/-- `CoDelQueueDisc`. -/
def coDel : Discipline CoDel where
  held := CoDel.queue
  doEnqueue := CoDel.doEnqueue
  doDequeue := CoDel.doDequeue
  enqueue_holds {item c d stored c' d'} run := by
    rw [CoDel.doEnqueue] at run
    split at run
    all_goals
      cases run
    · exact (sublist_cons_self item c.queue).subperm
    · exact (perm_append_singleton item c.queue).subperm
  enqueue_keeps {item c d stored c' d'} run := by
    rw [CoDel.doEnqueue] at run
    split at run
    all_goals
      cases run
      exact ⟨rfl, rfl⟩
  dequeue_holds {c d found c' d'} run := by
    have part := (CoDel.dropHead_spec (c.drops.headD 0) c.queue d).1
    rw [CoDel.doDequeue] at run
    split at run
    case h_1 | h_2 =>
      rename_i dropped
      cases run
      rw [dropped] at part
      exact part.subperm
  dequeue_keeps {c d found c' d'} run := by
    have same := (CoDel.dropHead_spec (c.drops.headD 0) c.queue d).2
    rw [CoDel.doDequeue] at run
    split at run
    case h_1 =>
      rename_i dropped
      cases run
      rw [dropped] at same
      exact same
    case h_2 item queue d dropped =>
      cases run
      rw [dropped] at same
      exact same.trans (samePeek_dequeued d item)

instance (s : Sender σ) : (call : SenderCall) → Decidable (Fresh s call)
  | .enqueue item => inferInstanceAs (Decidable (item ∉ s.offered))
  | .peek | .run | .proceed | .setStopped _ _ => .isTrue trivial

/-- A packet is peeked while its queue is stopped, and another one finds it stopped after
its header was added. -/
def stoppedQueue : List SenderCall :=
  [.enqueue ⟨0, 100⟩, .run, .setStopped 1 true, .proceed, .enqueue ⟨1, 200⟩, .setStopped 0 true,
    .proceed, .run, .proceed, .peek, .setStopped 0 false, .run, .proceed, .proceed]

theorem delivered_stoppedQueue : Run.Always (Sender.step coDel (fun _ => 0) .debug 64) InOrder
      (Sender.start { limit := 1000 } (some [false, false])) stoppedQueue ∧
    (Run.Always (Sender.step coDel (fun _ => 0) .debug 64) Delivered
        (Sender.start { limit := 1000 } (some [false, false])) stoppedQueue ↔
      Run.Meets (Sender.step coDel (fun _ => 0) .debug 64) (PeekedWaits fun _ => 0)
        (Sender.start { limit := 1000 } (some [false, false])) stoppedQueue) :=
  delivered_iff coDel (fun _ => 0) .debug 64 { limit := 1000 } (some [false, false]) rfl
    stoppedQueue (by decide)

/-- A peeked packet is sent without its header. -/
theorem peeked_withoutHeader : ∃ t, Run.exec (Sender.step coDel (fun _ => 0) .debug 64)
        (Sender.start { limit := 1000 } (some [false])) [.enqueue ⟨0, 100⟩, .peek, .run, .proceed] =
          some t ∧
      t.sent = [(⟨0, 100⟩, 0)] ∧ ¬ Delivered t := by
  refine ⟨_, rfl, by decide, fun delivered => ?_⟩
  have one := delivered.framed (⟨0, 100⟩, 0) (by decide)
  cases one

end Ns3.QueueDisc
