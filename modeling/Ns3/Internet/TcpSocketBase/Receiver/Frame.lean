import Ns3.Internet.TcpSocketBase.Receiver.Basic
import Ns3.Library.Contract

/-!
# What the receiving side leaves alone

The answer to a packet, whatever it is, does not touch the adaptive delay, what is
known of the FIN and the next expected byte: it sends empty packets, and the
application reads from its callbacks.
-/

namespace Ns3.TcpSocketBase.Receiver

variable {profile : BuildProfile} {s t u : Receiver}

/-! ## Relations that all calls keep -/

/-- A relation between the states before and after, which may look at these members: calls that
send empty packets or read keep it. -/
structure Quiet (profile : BuildProfile) (R : Receiver → Receiver → Prop) : Prop where
  refl : ∀ s, R s s
  trans : ∀ {s t u}, R s t → R t u → R s u
  other : ∀ {s t : Receiver}, t.rxBuffer = s.rxBuffer → t.delay = s.delay →
    t.trace.added = s.trace.added → t.trace.fins = s.trace.fins → t.state = s.state → R s t
  extract : ∀ {s : Receiver} {maxSize : Nat} {r : TcpRxBuffer × Option Packet},
    s.rxBuffer.extract profile maxSize = some r → R s { s with rxBuffer := r.1 }

/-- It does not look at the state of the connection, so calls that end it keep it, too. -/
structure Ending (profile : BuildProfile) (R : Receiver → Receiver → Prop) : Prop
    extends Quiet profile R where
  state : ∀ (s : Receiver) (state : TcpState), R s { s with state }

section Relations

variable {R : Receiver → Receiver → Prop} {app : Application}

theorem Quiet.bind (q : Quiet profile R) {call : Option Receiver}
    {next : Receiver → Option Receiver} (first : Contract True call (R s))
    (rest : ∀ t, R s t → Contract True (next t) (R t)) : Contract True (call.bind next) (R s) :=
  Contract.bind first fun t ht => (rest t ht).mono fun _ hu => q.trans ht hu

theorem Quiet.map (q : Quiet profile R) {call : Option Receiver} {change : Receiver → Receiver}
    (first : Contract True call (R s)) (rest : ∀ t, R t (change t)) :
    Contract True (call.bind fun t => some (change t)) (R s) :=
  q.bind first fun t _ => rest t

theorem Quiet.assert {condition : Bool} {next : Option Receiver}
    (rest : Contract True next (R s)) :
    Contract True ((nsAssert profile condition).bind fun _ => next) (R s) :=
  Contract.bind (Contract.of_forall fun _ _ => trivial) fun _ _ => rest

theorem advertisedWindowSize_eq {scale : Bool} {w : BitVec 16}
    (run : s.advertisedWindowSize profile scale = some (w, t)) :
    t = { s with advWnd := s.space } := by
  obtain ⟨-, -, run⟩ := bind_returns.mp run
  exact (Prod.mk.inj (Option.some.inj run)).2.symm

section

variable (q : Quiet profile R)
include q

theorem Quiet.sendEmptyPacket (flags : Byte) (s : Receiver) :
    Contract True (s.sendEmptyPacket profile flags) (R s) := by
  unfold Receiver.sendEmptyPacket
  split
  · exact q.refl s
  · refine Contract.bind (Contract.of_forall fun r run => advertisedWindowSize_eq run) ?_
    rintro ⟨w, u⟩ rfl
    dsimp only
    generalize (if flags &&& TcpHeader.FIN ≠ 0 then flags ||| TcpHeader.ACK else flags) = sent
    split
    · exact q.other rfl rfl rfl rfl rfl
    · exact q.other rfl rfl rfl rfl rfl

theorem Quiet.acknowledge (s : Receiver) :
    Contract True (s.acknowledge profile) (R s) := by
  unfold Receiver.acknowledge
  split
  · exact q.map (q.sendEmptyPacket _ s) fun t => q.other rfl rfl rfl rfl rfl
  · exact q.sendEmptyPacket _ s

theorem Quiet.recv (maxSize : Nat) (s : Receiver) :
    Contract True (s.recv profile maxSize) (R s) := by
  unfold Receiver.recv
  split
  · exact q.refl s
  · exact Contract.bind (Contract.of_forall fun r run => q.extract run) fun r kept => kept

theorem Quiet.read (sizes : List Nat) (s : Receiver) :
    Contract True (s.read profile sizes) (R s) := by
  induction sizes generalizing s with
  | nil => exact q.refl s
  | cons n sizes ih => exact q.bind (q.recv n s) fun t _ => ih t

theorem Quiet.notifyDataRecv (advanced : Bool) (app : Application)
    (s : Receiver) : Contract True (s.notifyDataRecv profile advanced app) (R s) := by
  unfold Receiver.notifyDataRecv
  split
  · exact q.read _ s
  · exact q.refl s

theorem Quiet.sendRST (s : Receiver) :
    Contract True (s.sendRST profile) (R s) :=
  q.map (q.sendEmptyPacket _ s) fun _ => q.other rfl rfl rfl rfl rfl

theorem Quiet.notifyClose (app : Application) (s : Receiver) :
    Contract True (s.notifyClose profile app) (R s) := by
  unfold Receiver.notifyClose
  split
  · exact q.refl s
  · exact q.map (q.read _ s) fun _ => q.other rfl rfl rfl rfl rfl

theorem Quiet.delayAck (s : Receiver) :
    Contract True (s.delayAck profile) (R s) := by
  unfold Receiver.delayAck
  dsimp only
  split
  · refine (q.acknowledge _).mono fun t kept => q.trans ?_ kept
    exact q.other rfl rfl rfl rfl rfl
  · exact q.other rfl rfl rfl rfl rfl

end

/-! The connection ends. -/

section

variable (e : Ending profile R)
include e

theorem Ending.closed (s : Receiver) :
    R s { s with state := .closed, hasEndPoint := false, delAckRunning := false } :=
  e.trans (e.state s .closed) (e.other rfl rfl rfl rfl rfl)

theorem Ending.closeAndNotify (app : Application) (s : Receiver) :
    Contract True (s.closeAndNotify profile app) (R s) :=
  e.map (e.notifyClose app s) fun t => e.closed t

theorem Ending.doClose (app : Application) (s : Receiver) :
    Contract True (s.doClose profile app) (R s) := by
  unfold Receiver.doClose
  split
  · exact e.map (e.sendEmptyPacket _ s) fun t => e.state t _
  · exact e.map (e.sendEmptyPacket _ s) fun t => e.state t _
  · exact e.map (e.sendEmptyPacket _ s) fun t => e.state t _
  · exact e.bind (e.sendRST s) fun t _ => e.closeAndNotify app t
  · exact e.bind (e.sendRST s) fun t _ => e.closeAndNotify app t
  · exact e.closeAndNotify app s
  · exact e.refl s

theorem Ending.close (app : Application) (s : Receiver) :
    Contract True (s.close profile app) (R s) := by
  unfold Receiver.close
  split
  · exact e.sendRST s
  · split
    · exact e.other rfl rfl rfl rfl rfl
    · exact e.doClose app s

theorem Ending.doPeerClose (app : Application) (s : Receiver) :
    Contract True (s.doPeerClose profile app) (R s) := by
  refine Quiet.assert (e.bind ((e.notifyClose app _).mono fun t kept => ?_) fun t _ => ?_)
  · exact e.trans (e.state s .closeWait) kept
  · split
    · exact e.close app t
    · exact e.sendEmptyPacket _ t

end

end Relations

/-! ## The frame -/

/-- What stays the same while a packet is answered. -/
structure Frame (s t : Receiver) : Prop where
  delay : t.delay = s.delay
  added : t.trace.added = s.trace.added
  fins : t.trace.fins = s.trace.fins
  gotFin : t.rxBuffer.gotFin = s.rxBuffer.gotFin
  finSeq : t.rxBuffer.finSeq = s.rxBuffer.finSeq
  nextRxSeq : t.rxBuffer.nextRxSeq = s.rxBuffer.nextRxSeq

theorem Frame.refl (s : Receiver) : Frame s s := ⟨rfl, rfl, rfl, rfl, rfl, rfl⟩

theorem Frame.trans (first : Frame s t) (second : Frame t u) : Frame s u where
  delay := second.delay.trans first.delay
  added := second.added.trans first.added
  fins := second.fins.trans first.fins
  gotFin := second.gotFin.trans first.gotFin
  finSeq := second.finSeq.trans first.finSeq
  nextRxSeq := second.nextRxSeq.trans first.nextRxSeq

/-- What `Extract` keeps of the receive buffer. -/
structure SameEnd (a b : TcpRxBuffer) : Prop where
  gotFin : b.gotFin = a.gotFin
  finSeq : b.finSeq = a.finSeq
  nextRxSeq : b.nextRxSeq = a.nextRxSeq

theorem SameEnd.taken (b : TcpRxBuffer) (size availBytes : Nat)
    (data : List (SequenceNumber32 × Packet)) : SameEnd b { b with size, availBytes, data } :=
  ⟨rfl, rfl, rfl⟩

/-- The loop of `Extract`, by recursion on the entries. -/
theorem sameEnd_extractLoop {data : List (SequenceNumber32 × Packet)} {b : TcpRxBuffer}
    {size : Nat} {out : Packet} {r : TcpRxBuffer × Packet}
    (run : TcpRxBuffer.extractLoop profile data b size out = some r) : SameEnd b r.1 := by
  induction data generalizing b size out with
  | nil =>
    cases size with
    | zero =>
      rw [TcpRxBuffer.extractLoop, Option.some.injEq] at run
      exact run ▸ ⟨rfl, rfl, rfl⟩
    | succ size => exact absurd run (by simp [TcpRxBuffer.extractLoop])
  | cons e rest ih =>
    cases size with
    | zero =>
      rw [TcpRxBuffer.extractLoop, Option.some.injEq] at run
      exact run ▸ ⟨rfl, rfl, rfl⟩
    | succ size =>
      rw [TcpRxBuffer.extractLoop, Option.bind_eq_bind, Option.bind_eq_some_iff] at run
      obtain ⟨-, -, run⟩ := run
      split at run
      · have same := ih run
        exact ⟨same.gotFin, same.finSeq, same.nextRxSeq⟩
      · simp only [bind_returns, pure_returns] at run
        obtain ⟨head, -, tail, -, eq⟩ := run
        rw [← eq]
        exact SameEnd.taken b _ _ _

theorem sameEnd_extract {b : TcpRxBuffer} {maxSize : Nat} {r : TcpRxBuffer × Option Packet}
    (run : b.extract profile maxSize = some r) : SameEnd b r.1 := by
  simp only [TcpRxBuffer.extract, Option.bind_eq_bind, Option.pure_def] at run
  split at run
  · cases run
    exact ⟨rfl, rfl, rfl⟩
  · obtain ⟨-, -, run⟩ := bind_returns.mp run
    obtain ⟨⟨c, out⟩, loop, run⟩ := bind_returns.mp run
    cases run
    exact sameEnd_extractLoop loop

theorem frame_ending : Ending profile Frame where
  refl := Frame.refl
  trans first second := first.trans second
  other rxBuffer delay added fins _ :=
    ⟨delay, added, fins, congrArg TcpRxBuffer.gotFin rxBuffer,
      congrArg TcpRxBuffer.finSeq rxBuffer, congrArg TcpRxBuffer.nextRxSeq rxBuffer⟩
  extract run :=
    have same := sameEnd_extract run
    ⟨rfl, rfl, rfl, same.gotFin, same.finSeq, same.nextRxSeq⟩
  state _ _ := ⟨rfl, rfl, rfl, rfl, rfl, rfl⟩

theorem Frame.bind {call : Option Receiver} {next : Receiver → Option Receiver}
    (first : Contract True call (Frame s))
    (rest : ∀ t, Frame s t → Contract True (next t) (Frame t)) :
    Contract True (call.bind next) (Frame s) :=
  Contract.bind first fun t ht => (rest t ht).mono fun _ hu => ht.trans hu

theorem frame_sendEmptyPacket (flags : Byte) (s : Receiver) :
    Contract True (s.sendEmptyPacket profile flags) (Frame s) :=
  frame_ending.sendEmptyPacket flags s

theorem frame_acknowledge (s : Receiver) : Contract True (s.acknowledge profile) (Frame s) :=
  frame_ending.acknowledge s

theorem frame_recv (maxSize : Nat) (s : Receiver) :
    Contract True (s.recv profile maxSize) (Frame s) := frame_ending.recv maxSize s

theorem frame_notifyDataRecv (advanced : Bool) (app : Application) (s : Receiver) :
    Contract True (s.notifyDataRecv profile advanced app) (Frame s) :=
  frame_ending.notifyDataRecv advanced app s

theorem frame_notifyClose (app : Application) (s : Receiver) :
    Contract True (s.notifyClose profile app) (Frame s) := frame_ending.notifyClose app s

theorem frame_doPeerClose (app : Application) (s : Receiver) :
    Contract True (s.doPeerClose profile app) (Frame s) := frame_ending.doPeerClose app s

/-! ## The answer to a packet -/

/-- The adaptive delay after the answer: an out-of-order packet resets its window. -/
def answered (s : Receiver) : Stored → Receiver
  | .outOfOrder => { s with delay := s.delay.setWindow (s.delay.minimum s.segSize) s.bound }
  | _ => s

theorem Quiet.answer {R : Receiver → Receiver → Prop} (q : Quiet profile R) (app : Application)
    (s : Receiver) {stored : Stored} (goesOn : stored ≠ .complete) :
    Contract True (s.answer profile app stored) (R (s.answered stored)) := by
  cases stored with
  | refused => exact q.acknowledge s
  | complete => exact absurd rfl goesOn
  | outOfOrder => exact q.acknowledge _
  | inSequence => exact q.delayAck s

theorem Ending.answer {R : Receiver → Receiver → Prop} (e : Ending profile R) (app : Application)
    (s : Receiver) (stored : Stored) :
    Contract True (s.answer profile app stored) (R (s.answered stored)) := by
  cases stored with
  | refused => exact e.acknowledge s
  | complete => exact e.doPeerClose app s
  | outOfOrder => exact e.acknowledge _
  | inSequence => exact e.delayAck s

theorem frame_answer (app : Application) (s : Receiver) (stored : Stored) :
    Contract True (s.answer profile app stored) (Frame (s.answered stored)) :=
  frame_ending.answer app s stored

end Ns3.TcpSocketBase.Receiver
