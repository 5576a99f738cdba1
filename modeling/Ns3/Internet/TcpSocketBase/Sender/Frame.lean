import Ns3.Internet.TcpSocketBase.Sender.Basic

/-!
# What transmissions leave alone

Everything the sender does between two changes of the congestion state writes only
part of its members: `SendPendingData`, `DoRetransmit`, `NewAck` and the calls that
only tell an algorithm about an ACK. `Frame` says which members keep their values,
and that the windows and the members of the congestion control change by such calls
alone. Each function below has one theorem about it, and the proofs about the
congestion state use these theorems instead of the functions.
-/

namespace Ns3.TcpSocketBase.Sender

variable {σ ρ : Type} {profile : BuildProfile} {ops : SenderOps σ ρ}

/-- The calls of a congestion control that neither start nor end a recovery. -/
def Quiet : CongestionCall → Prop
  | .enterRecovery | .exitRecovery | .congestionStateSet .caRecovery => False
  | _ => True

/-- Windows and members of the congestion control, changed by quiet calls and by calls
of the recovery algorithm. The socket also writes the congestion window directly. -/
inductive Hooks (ops : SenderOps σ ρ) : Windows × σ → Windows × σ → Prop
  | refl (v : Windows × σ) : Hooks ops v v
  | congestion {tcb : TcpSocketState} {c : σ} {last : Windows × σ} (now : Int)
      (call : CongestionCall) (quiet : Quiet call)
      (next : Hooks ops (ops.congestionControl.call now call tcb c) last) :
      Hooks ops (tcb.toWindows, c) last
  | recovery {tcb : TcpSocketState} {c : σ} {last : Windows × σ} (call : RecoveryCall) (r : ρ)
      (next : Hooks ops ((ops.recoveryOps.call call tcb r).1, c) last) :
      Hooks ops (tcb.toWindows, c) last
  | write {w : Windows} {c : σ} {last : Windows × σ} (cWnd cWndInfl : BitVec 32)
      (next : Hooks ops ({ w with cWnd, cWndInfl }, c) last) : Hooks ops (w, c) last

theorem Hooks.trans {u v w : Windows × σ} (first : Hooks ops u v) (second : Hooks ops v w) :
    Hooks ops u w := by
  induction first with
  | refl => exact second
  | congestion now call quiet _ ih => exact .congestion now call quiet (ih second)
  | recovery call r _ ih => exact .recovery call r (ih second)
  | write cWnd cWndInfl _ ih => exact .write cWnd cWndInfl (ih second)

/-- The members that belong to the congestion state machine, kept. -/
structure Kept (s t : Sender σ ρ) : Prop where
  congState : t.tcb.congState = s.tcb.congState
  initialSsThresh : t.tcb.initialSsThresh = s.tcb.initialSsThresh
  highRxAckMark : t.around.highRxAckMark = s.around.highRxAckMark
  sackEnabled : t.sackEnabled = s.sackEnabled
  retxThresh : t.retxThresh = s.retxThresh
  dupAckCount : t.dupAckCount = s.dupAckCount
  recover : t.recover = s.recover
  recoverActive : t.recoverActive = s.recoverActive
  entry : t.trace.entry = s.trace.entry
  reinitialized : t.trace.reinitialized = s.trace.reinitialized
  exits : t.trace.exits = s.trace.exits

/-- Those members are kept, and the algorithms are only told about ACKs. -/
structure Frame (ops : SenderOps σ ρ) (s t : Sender σ ρ) : Prop extends Kept s t where
  hooks : Hooks ops (s.tcb.toWindows, s.congestionControl) (t.tcb.toWindows, t.congestionControl)

variable {s t u : Sender σ ρ}

theorem Kept.refl (s : Sender σ ρ) : Kept s s :=
  ⟨rfl, rfl, rfl, rfl, rfl, rfl, rfl, rfl, rfl, rfl, rfl⟩

theorem Kept.trans (first : Kept s t) (second : Kept t u) : Kept s u where
  congState := second.congState.trans first.congState
  initialSsThresh := second.initialSsThresh.trans first.initialSsThresh
  highRxAckMark := second.highRxAckMark.trans first.highRxAckMark
  sackEnabled := second.sackEnabled.trans first.sackEnabled
  retxThresh := second.retxThresh.trans first.retxThresh
  dupAckCount := second.dupAckCount.trans first.dupAckCount
  recover := second.recover.trans first.recover
  recoverActive := second.recoverActive.trans first.recoverActive
  entry := second.entry.trans first.entry
  reinitialized := second.reinitialized.trans first.reinitialized
  exits := second.exits.trans first.exits

/-! ## The steps of a transmission -/

/-- Everything is kept that the members of the congestion state machine, the algorithms and
the count of acknowledged segments are about. -/
structure Untouched (s t : Sender σ ρ) : Prop extends Kept s t where
  windows : t.tcb.toWindows = s.tcb.toWindows
  congestionControl : t.congestionControl = s.congestionControl
  recoveryOps : t.recoveryOps = s.recoveryOps
  segmentSize : t.tcb.segmentSize = s.tcb.segmentSize
  bytesAckedNotProcessed : t.bytesAckedNotProcessed = s.bytesAckedNotProcessed

theorem Untouched.refl (s : Sender σ ρ) : Untouched s s :=
  { Kept.refl s with
    windows := rfl, congestionControl := rfl, recoveryOps := rfl, segmentSize := rfl
    bytesAckedNotProcessed := rfl }

/-- A relation between two states that holds of every step a transmission consists of, and of
two that follow each other. -/
structure Closed (ops : SenderOps σ ρ) (R : Sender σ ρ → Sender σ ρ → Prop) : Prop where
  untouched {s t : Sender σ ρ} : Untouched s t → R s t
  trans {s t u : Sender σ ρ} : R s t → R t u → R s u
  congestion (s : Sender σ ρ) (call : CongestionCall) : Quiet call → R s (s.congestion ops call)
  bytesSent (s : Sender σ ρ) (bytes : BitVec 32) : R s (s.recovery ops (.updateBytesSent bytes))
  write (s : Sender σ ρ) (cWnd cWndInfl : BitVec 32) :
    R s { s with tcb.cWnd := cWnd, tcb.cWndInfl := cWndInfl }

section Transmissions

variable {R : Sender σ ρ → Sender σ ρ → Prop} (closed : Closed ops R)
include closed

namespace Closed

theorem refl (s : Sender σ ρ) : R s s := closed.untouched (.refl s)

theorem bytesInFlight (run : s.bytesInFlight profile = some t) : R s t := by
  simp only [Sender.bytesInFlight, bind_returns, pure_returns] at run
  obtain ⟨bytes, -, rfl⟩ := run
  exact closed.untouched { Untouched.refl s with }

theorem availableWindow {available : BitVec 32}
    (run : s.availableWindow profile = some (available, t)) : R s t := by
  simp only [Sender.availableWindow, bind_returns, pure_returns, Prod.mk.injEq] at run
  obtain ⟨u, counted, -, rfl⟩ := run
  exact closed.bytesInFlight counted

theorem send {p : Packet} (run : s.send profile p = some t) : R s t := by
  simp only [Sender.send] at run
  split at run
  case isTrue =>
    have stored : R s { s with txBuffer := (s.txBuffer.add p).2 } :=
      closed.untouched { Untouched.refl s with }
    split at run
    case isTrue =>
      cases run
      exact stored
    case isFalse => exact closed.trans stored (closed.bytesInFlight run)
  case isFalse =>
    cases run
    exact closed.refl s

theorem sends {packets : List Packet}
    (run : packets.foldlM (fun s p => Sender.send profile p s) s = some t) : R s t := by
  induction packets generalizing s with
  | nil =>
    cases run
    exact closed.refl _
  | cons p packets ih =>
    simp only [List.foldlM_cons, bind_returns] at run
    obtain ⟨u, first, rest⟩ := run
    exact closed.trans (closed.send first) (ih rest)

theorem notifySend (run : s.notifySend profile = some t) : R s t := by
  unfold Sender.notifySend at run
  split at run
  · cases run
    exact closed.refl s
  · refine closed.trans (closed.untouched ?_) (closed.sends run)
    exact { Untouched.refl s with }

theorem askForData {wanted : Bool} (run : s.askForData profile wanted = some t) : R s t := by
  unfold Sender.askForData at run
  split at run
  · exact closed.notifySend run
  · cases run
    exact closed.refl s

theorem answerEcho (seq : SequenceNumber32) (isRetransmission : Bool) (s : Sender σ ρ) :
    R s (s.answerEcho seq isRetransmission) := by
  unfold Sender.answerEcho
  split
  · exact closed.untouched { Untouched.refl s with }
  · exact closed.refl s

theorem closeWhenEmpty (remainingData : Nat) (s : Sender σ ρ) :
    R s (s.closeWhenEmpty remainingData) := by
  unfold Sender.closeWhenEmpty
  split
  · split
    · exact closed.untouched { Untouched.refl s with }
    · split
      · exact closed.untouched { Untouched.refl s with }
      · exact closed.refl s
  · exact closed.refl s

theorem accountSent (seq : SequenceNumber32) (size : Nat) (s : Sender σ ρ) :
    R s (s.accountSent ops seq size) := by
  unfold Sender.accountSent
  split
  · refine closed.trans (closed.bytesSent s (BitVec.ofNat 32 size)) (closed.untouched ?_)
    exact { Untouched.refl _ with }
  · exact closed.untouched { Untouched.refl s with }

theorem sendDataPacket {decision : Decision} {window : BitVec 32} {seq : SequenceNumber32}
    {maxSize sz : Nat}
    (run : s.sendDataPacket profile ops decision window seq maxSize = some (sz, t)) : R s t := by
  simp only [Sender.sendDataPacket, bind_returns, pure_returns] at run
  obtain ⟨u, counted, ⟨outItem, txBuffer⟩, -, item, -, -, -, sent⟩ := run
  cases sent
  have copied : R u { u with txBuffer := txBuffer } := closed.untouched { Untouched.refl u with }
  refine closed.trans (closed.trans (closed.bytesInFlight counted) copied) ?_
  refine closed.trans (closed.answerEcho seq item.retrans _) ?_
  refine closed.trans (closed.closeWhenEmpty (txBuffer.sizeFromSequence (seq.add item.size)) _) ?_
  refine closed.trans (closed.accountSent seq item.size _) (closed.untouched ?_)
  exact { Untouched.refl _ with }

theorem doRetransmit (run : s.doRetransmit profile ops = some t) : R s t := by
  simp only [Sender.doRetransmit, bind_returns, pure_returns] at run
  obtain ⟨-, -, ⟨sz, u⟩, sent, -, -, rfl⟩ := run
  refine closed.trans (closed.untouched ?_) (closed.sendDataPacket sent)
  exact { Untouched.refl s with }

theorem startTransmission (next : SequenceNumber32) (s : Sender σ ρ) :
    R s (s.startTransmission ops next) := by
  have numbered : R s { s with tcb.nextTxSequence := next } :=
    closed.untouched { Untouched.refl s with }
  simp only [Sender.startTransmission]
  split
  · exact closed.trans numbered (closed.congestion _ (.cwndEvent .txStart) trivial)
  · exact numbered

theorem sendSegment {available : BitVec 32} {next nextHigh : SequenceNumber32}
    (run : s.sendSegment profile ops available next nextHigh = some t) : R s t := by
  simp only [Sender.sendSegment, bind_returns, pure_returns] at run
  obtain ⟨⟨sz, u⟩, sent, rfl⟩ := run
  refine closed.trans (closed.startTransmission next s) ?_
  refine closed.trans (closed.sendDataPacket sent) (closed.untouched ?_)
  exact { Untouched.refl u with }

theorem sendTurn {available : BitVec 32} {sent : Bool}
    (run : s.sendTurn profile ops available = some (sent, t)) : R s t := by
  unfold Sender.sendTurn at run
  split at run
  case isTrue =>
    cases run
    exact closed.refl s
  case isFalse =>
    split at run
    · cases run
      exact closed.refl s
    · simp only [bind_returns] at run
      obtain ⟨u, asked, rest⟩ := run
      refine closed.trans (closed.askForData asked) ?_
      split at rest
      · obtain ⟨-, rfl⟩ := Prod.mk.inj (Option.some.inj rest)
        exact closed.refl u
      · obtain ⟨v, segment, same⟩ := Option.map_eq_some_iff.mp rest
        cases same
        exact closed.sendSegment segment

theorem sendLoop {turns sent : Nat} (run : s.sendLoop profile ops turns = some (sent, t)) :
    R s t := by
  induction turns generalizing s t sent with
  | zero =>
    simp only [Sender.sendLoop, bind_returns, pure_returns] at run
    obtain ⟨⟨available, u⟩, counted, same⟩ := run
    cases same
    exact closed.availableWindow counted
  | succ turns ih =>
    simp only [Sender.sendLoop, bind_returns] at run
    obtain ⟨⟨available, u⟩, counted, ⟨more, v⟩, turn, rest⟩ := run
    refine closed.trans (closed.trans (closed.availableWindow counted) (closed.sendTurn turn)) ?_
    split at rest
    · obtain ⟨⟨n, w⟩, later, same⟩ := Option.map_eq_some_iff.mp rest
      cases same
      exact ih later
    · cases rest
      exact closed.refl v

theorem sendPendingData {turns : Nat} (run : s.sendPendingData profile ops turns = some t) :
    R s t := by
  unfold Sender.sendPendingData at run
  split at run
  · cases run
    exact closed.refl s
  · simp only [bind_returns, pure_returns] at run
    obtain ⟨⟨n, u⟩, loop, -, -, rfl⟩ := run
    exact closed.sendLoop loop

theorem newAck {ack : SequenceNumber32} (run : s.newAck profile ack = some t) : R s t := by
  simp only [Sender.newAck, bind_returns, pure_returns] at run
  obtain ⟨u, asked, rfl⟩ := run
  have reset : R s { s with dataRetrCount := s.dataRetries } :=
    closed.untouched { Untouched.refl s with }
  refine closed.trans (closed.trans reset (closed.askForData asked)) (closed.untouched ?_)
  exact { Untouched.refl u with }

theorem retransmitPartial {a : Acked} (run : s.retransmitPartial profile ops a = some t) :
    R s t := by
  unfold Sender.retransmitPartial at run
  split at run
  · cases run
    exact closed.refl s
  · simp only [bind_returns, pure_returns] at run
    obtain ⟨u, sent, rfl⟩ := run
    exact closed.trans (closed.doRetransmit sent) (closed.write u _ _)

theorem growWindow {a : Acked} {segsAcked : BitVec 32}
    (run : s.growWindow profile ops a segsAcked = some t) : R s t := by
  simp only [Sender.growWindow] at run
  split at run
  · refine closed.trans (closed.congestion s (.increaseWindow segsAcked) trivial) ?_
    exact closed.trans (closed.write _ _ _) (closed.newAck run)
  · cases run
    exact closed.refl s

end Closed

end Transmissions

/-! ## The frame of a transmission -/

namespace Frame

theorem refl (ops : SenderOps σ ρ) (s : Sender σ ρ) : Frame ops s s :=
  { Kept.refl s with hooks := .refl _ }

theorem trans (first : Frame ops s t) (second : Frame ops t u) : Frame ops s u :=
  { first.toKept.trans second.toKept with hooks := first.hooks.trans second.hooks }

theorem congestion (s : Sender σ ρ) (call : CongestionCall) (quiet : Quiet call) :
    Frame ops s (s.congestion ops call) :=
  { refl ops s with hooks := .congestion _ call quiet (.refl _) }

theorem recoveryCall (call : RecoveryCall) (s : Sender σ ρ) :
    Frame ops s (s.recovery ops call) :=
  { refl ops s with hooks := .recovery call _ (.refl _) }

theorem setCongState (h : Frame ops s t) (congState : TcpCongState) :
    Frame ops (s.setCongState congState) (t.setCongState congState) :=
  { h with congState := rfl }

theorem write (cWnd cWndInfl : BitVec 32) (s : Sender σ ρ) :
    Frame ops s { s with tcb.cWnd := cWnd, tcb.cWndInfl := cWndInfl } :=
  { refl ops s with hooks := .write cWnd cWndInfl (.refl _) }

theorem closed (ops : SenderOps σ ρ) : Closed ops (Frame ops) where
  untouched h := { h.toKept with hooks := by rw [h.windows, h.congestionControl]; exact .refl _ }
  trans := trans
  congestion s call quiet := congestion s call quiet
  bytesSent s _ := recoveryCall _ s
  write s cWnd cWndInfl := write cWnd cWndInfl s

theorem bytesInFlight (run : s.bytesInFlight profile = some t) : Frame ops s t :=
  (closed ops).bytesInFlight run

theorem send {p : Packet} (run : s.send profile p = some t) : Frame ops s t :=
  (closed ops).send run

theorem doRetransmit (run : s.doRetransmit profile ops = some t) : Frame ops s t :=
  (closed ops).doRetransmit run

theorem sendPendingData {turns : Nat} (run : s.sendPendingData profile ops turns = some t) :
    Frame ops s t :=
  (closed ops).sendPendingData run

theorem newAck {ack : SequenceNumber32} (run : s.newAck profile ack = some t) : Frame ops s t :=
  (closed ops).newAck run

theorem growWindow {a : Acked} {segsAcked : BitVec 32}
    (run : s.growWindow profile ops a segsAcked = some t) : Frame ops s t :=
  (closed ops).growWindow run

theorem recoverAcked (a : Acked) (s : Sender σ ρ) : Frame ops s (s.recoverAcked ops a) := by
  unfold Sender.recoverAcked
  split
  · exact recoveryCall _ s
  · exact refl ops s

theorem partialAck {a : Acked} (run : s.partialAck profile ops a = some t) : Frame ops s t := by
  simp only [Sender.partialAck, bind_returns, pure_returns] at run
  obtain ⟨u, sent, v, noted, rfl⟩ := run
  have marked : Frame ops s
      (if s.sackEnabled then s else { s with txBuffer := s.txBuffer.markHeadAsLost }) := by
    split
    · exact refl ops s
    · exact { refl ops s with }
  refine (marked.trans (recoverAcked a _)).trans ?_
  refine ((closed ops).retransmitPartial sent).trans ?_
  refine (congestion u (.pktsAcked 1 u.tcb.lastRtt) trivial).trans ?_
  exact (newAck noted).trans { refl ops v with }

theorem lossAck {a : Acked} (run : s.lossAck profile ops a = some t) : Frame ops s t := by
  simp only [Sender.lossAck, bind_returns] at run
  obtain ⟨-, -, noted⟩ := run
  exact ((congestion s _ (by trivial)).trans (congestion _ _ (by trivial))).trans (newAck noted)

theorem cwrAck {a : Acked} (run : s.cwrAck profile ops a = some t) : Frame ops s t :=
  ((congestion s _ (by trivial)).trans (recoverAcked a _)).trans (newAck run)

theorem readOptions {options : List TcpOption} {bytes bytesSacked : Nat}
    (run : s.readOptions profile options bytes = some (bytesSacked, t)) : Frame ops s t := by
  induction options generalizing s bytes with
  | nil =>
    obtain ⟨-, rfl⟩ := Prod.mk.inj (Option.some.inj run)
    exact refl ops s
  | cons option rest ih =>
    unfold Sender.readOptions at run
    split at run
    case h_1 nil => exact absurd nil (List.cons_ne_nil _ _)
    case h_2 same =>
      cases same
      simp only [bind_returns] at run
      obtain ⟨⟨n, txBuffer⟩, -, later⟩ := run
      have read : Frame ops _ t := ih later
      exact { read with }
    case h_3 same =>
      cases same
      exact ih run

theorem discardAcked {ack : SequenceNumber32} {delivered : BitVec 32}
    (run : s.discardAcked profile ack delivered = some t) : Frame ops s t := by
  simp only [Sender.discardAcked, bind_returns, pure_returns] at run
  obtain ⟨txBuffer, -, rfl⟩ := run
  exact { refl ops s with }

theorem assertInFlight {bound : BitVec 32} (run : s.assertInFlight profile bound = some t) :
    Frame ops s t := by
  unfold Sender.assertInFlight at run
  split at run
  · simp only [bind_returns, pure_returns] at run
    obtain ⟨u, counted, -, -, rfl⟩ := run
    exact bytesInFlight counted
  · cases run
    exact refl ops s

end Frame

end Ns3.TcpSocketBase.Sender
