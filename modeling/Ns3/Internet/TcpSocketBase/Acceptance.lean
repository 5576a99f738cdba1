import Ns3.Internet.TcpSocketBase.Listener
import Ns3.Internet.TcpSocketBase.Receiver.Fin
import Ns3.Internet.TcpSocketBase.Sender.Basic
import Ns3.Internet.TcpCerl.Basic

/-!
# The acceptance of an ACK

`DoForwardUp` on a segment with ACK, for a socket in ESTABLISHED with both of its sides.
`ProcessEstablished` refuses to process an ACK of data that was not sent yet, but the
options, the round-trip time and the window of the segment have been taken over before.
-/

namespace Ns3.TcpSocketBase

/-- `RttHistory`: a segment that was sent, for the measurement of the round-trip time. -/
structure RttHistory where
  seq : SequenceNumber32
  count : Nat
  time : Int
  retx : Bool := false
  deriving DecidableEq

/-- An `RttEstimator` with members of type `τ`. -/
structure RttEstimator (τ : Type) where
  measurement : Int → τ → τ
  getEstimate : τ → Int

/-- The members of a socket that take part in the reception of a segment. -/
structure Socket (σ ρ τ : Type) where
  receiver : Receiver
  sender : Sender σ ρ
  history : List RttHistory := []
  rtt : τ
  minRtt : Int := 2 ^ 63 - 1
  /-- Whether `m_persistEvent` is scheduled. -/
  persistRunning : Bool := false

/-- A segment, with what other parts decide about its reception. -/
structure Segment where
  now : Int := 0
  packet : Packet := []
  header : TcpHeader
  app : Application := {}
  currentDelivered : BitVec 32 := 0
  finAcked : Bool := false
  turns : Nat := 0

/-- The end of the segment. -/
def RttHistory.stop (h : RttHistory) : SequenceNumber32 := h.seq.add h.count

namespace Socket

variable {σ ρ τ : Type} (profile : BuildProfile) (ops : SenderOps σ ρ) (estimator : RttEstimator τ)

/-! ## The round-trip time -/

/-- `TcpOptionTS::ElapsedTimeFromTsValue`, in nanoseconds. -/
def elapsedTimeFromTsValue (now : Int) (echoTime : BitVec 32) : Int :=
  let now32 := BitVec.ofInt 32 (now / 1000000)
  if echoTime < now32 then (now32 - echoTime).toNat * 1000000 else 0

/-- The measurement of a sample; 0 is no measurement. -/
def sample (now : Int) (timestampEnabled : Bool) (h : TcpHeader) : List RttHistory → Int
  | [] => 0
  | first :: _ =>
    if !first.retx && h.ackNumber.ge first.stop then
      match timestampEnabled, h.getOption TcpOption.TS with
      | true, some (.ts _ echo) =>
        let m := elapsedTimeFromTsValue now echo
        if m = 0 then 1000 else m
      | _, _ => now - first.time
    else 0

/-- The history without the segments that end at or below the ACK number. -/
def prune (ackSeq : SequenceNumber32) : List RttHistory → List RttHistory
  | [] => []
  | first :: rest => if first.stop.gt ackSeq then first :: rest else prune ackSeq rest

/-- `EstimateRtt`, without `m_rto`. -/
def estimateRtt (now : Int) (h : TcpHeader) (s : Socket σ ρ τ) : Socket σ ρ τ :=
  let m := sample now s.receiver.options.timestampEnabled h s.history
  let s := { s with history := prune h.ackNumber s.history }
  if m = 0 then s
  else
    let rtt := estimator.measurement m s.rtt
    let lastRtt := estimator.getEstimate rtt
    { s with rtt, sender.tcb.lastRtt := lastRtt, minRtt := min lastRtt s.minRtt }

/-! ## Both sides together -/

/-- The members that the sending side only reads. -/
def surroundings (now : Int) (s : Socket σ ρ τ) : Surroundings :=
  { s.sender.around with
    now
    state := s.receiver.state
    hasEndPoint := s.receiver.hasEndPoint
    rWnd := s.receiver.options.rWnd
    highRxAckMark := s.receiver.options.highRxAckMark
    ecnState := s.sender.tcb.ecnState
    lastRtt := s.sender.tcb.lastRtt }

/-- The receiving side after the sending side has sent data segments. -/
def afterSending (before after : Sender σ ρ) (r : Receiver) : Option Receiver := do
  let r ← r.sendSegments profile
    (after.trace.transmissions.length - before.trace.transmissions.length)
  return { r with state := after.around.state, ecnState := after.tcb.ecnState }

/-- `ReceivedAck`: the data of the segment is received before the answer is sent. -/
def receivedAck (a : Segment) (s : Socket σ ρ τ) : Option (Socket σ ρ τ) := do
  let receiver ← { s.receiver with ecnState := s.sender.tcb.ecnState }.piggybacked profile a.now
    a.packet a.header a.app
  let around := { s with receiver }.surroundings a.now
  let sender ← (s.sender.surround (s.surroundings a.now)).receivedAck profile ops {
    header := a.header
    currentDelivered := a.currentDelivered
    receivedData := if a.packet.length ≠ 0 then
      some { around with ecnState := receiver.ecnState } else none
    turns := a.turns }
  let receiver ← afterSending profile s.sender sender receiver
  return { s with receiver, sender }

/-- `SendPendingData`. -/
def sendPendingData (a : Segment) (s : Socket σ ρ τ) : Option (Socket σ ρ τ) := do
  let sender ← (s.sender.surround (s.surroundings a.now)).sendPendingData profile ops a.turns
  let receiver ← afterSending profile s.sender sender s.receiver
  return { s with receiver, sender }

/-! ## DoForwardUp -/

/-- The peer answers an ECN echo with CWR. -/
def windowReduced (h : TcpHeader) (s : Socket σ ρ τ) : Socket σ ρ τ :=
  if !h.hasFlag TcpHeader.RST && h.hasFlag TcpHeader.CWR && s.sender.tcb.ecnState != .ecnCeRcvd then
    { s with sender.tcb.ecnState := .ecnIdle }
  else s

/-- The options, the round-trip time and the window of a segment. `inr` is a segment that
is dropped because it has no timestamp. -/
def readAck (a : Segment) (s : Socket σ ρ τ) : Option (Socket σ ρ τ ⊕ Socket σ ρ τ) := do
  let r ← forwardAck s.receiver.state a.header
    { s.receiver.options with nextRxSequence := s.receiver.rxBuffer.nextRxSeq }
  match r with
  | .inr options => return .inr { s with receiver.options := options }
  | .inl options =>
    return .inl ({ s with receiver.options := options }.estimateRtt estimator a.now a.header)

/-- A zero window starts the persist timer. -/
def enterPersist (s : Socket σ ρ τ) : Socket σ ρ τ :=
  if s.receiver.options.rWnd = 0 then { s with persistRunning := true } else s

/-- The test of `ProcessEstablished`. -/
def verdict (h : TcpHeader) (s : Socket σ ρ τ) : AckVerdict :=
  if h.ackNumber.lt s.sender.txBuffer.headSequence then .old
  else if h.ackNumber.gt s.sender.tcb.highTxMark then .notSent
  else .valid

/-- `ProcessEstablished`. -/
def processEstablished (a : Segment) (s : Socket σ ρ τ) : Option (Socket σ ρ τ) :=
  if a.header.tcpflags = TcpHeader.ACK ∧ s.verdict a.header = .valid then
    s.receivedAck profile ops a
  else do
    let receiver ← { s.receiver with ecnState := s.sender.tcb.ecnState }.processEstablished profile
      a.now a.packet a.header a.app { verdict := s.verdict a.header, finAcked := a.finAcked }
    return { s with receiver, sender.tcb.ecnState := receiver.ecnState }

/-- A window that opens ends the probing. -/
def leavePersist (a : Segment) (s : Socket σ ρ τ) : Option (Socket σ ρ τ) :=
  if s.receiver.options.rWnd ≠ 0 ∧ s.persistRunning = true then
    { s with persistRunning := false }.sendPendingData profile ops a
  else some s

/-- `DoForwardUp` on a segment with ACK and without SYN, in ESTABLISHED. -/
def doForwardUp (a : Segment) (s : Socket σ ρ τ) : Option (Socket σ ρ τ) := do
  match ← (s.windowReduced a.header).readAck estimator a with
  | .inr s => return s
  | .inl s => do
      let s ← s.enterPersist.processEstablished profile ops a
      s.leavePersist profile ops a

/-! ## What an ACK leaves unchanged -/

/-- The window, the highest ACK number, the transmit buffer and all congestion state are
unchanged: the members of the sending side with its two algorithms, and the measurement
of the round-trip time. -/
structure Unchanged (s t : Socket σ ρ τ) : Prop where
  rWnd : t.receiver.options.rWnd = s.receiver.options.rWnd
  highRxAckMark : t.receiver.options.highRxAckMark = s.receiver.options.highRxAckMark
  sender : t.sender = s.sender
  history : t.history = s.history
  rtt : t.rtt = s.rtt
  minRtt : t.minRtt = s.minRtt

/-- The window that a segment announces. -/
def receivedWindow (h : TcpHeader) (o : OptionState) : BitVec 32 :=
  h.windowSize.setWidth 32 <<< o.sndWindShift.toNat

/-- The segment brings no new ACK number, and no window where it would update it. -/
def WindowInert (h : TcpHeader) (o : OptionState) : Prop :=
  h.ackNumber.gt o.highRxAckMark = false ∧
    ((h.ackNumber = o.highRxAckMark ∧ o.rWnd < receivedWindow h o) ∨
      h.sequenceNumber.gt o.highRxMark = true → receivedWindow h o = o.rWnd)

/-- The first segment of the history ends above the ACK number. -/
def HistoryInert (h : TcpHeader) (history : List RttHistory) : Prop :=
  ∀ first ∈ history.head?, first.stop.gt h.ackNumber = true

/-- CWR finds nothing to end. -/
def EcnInert (h : TcpHeader) (ecnState : EcnState) : Prop :=
  h.hasFlag TcpHeader.CWR = true → ecnState = .ecnCeRcvd ∨ ecnState = .ecnIdle

/-- The conditions under which a segment with an unacceptable ACK changes nothing: it is
dropped for want of a timestamp, or it brings nothing new and the ACK that answers it
has no new congestion mark to echo. -/
def Inert (h : TcpHeader) (s : Socket σ ρ τ) : Prop :=
  EcnInert h s.sender.tcb.ecnState ∧
    ((s.receiver.options.timestampEnabled = true ∧ h.hasOption TcpOption.TS = false) ∨
      (WindowInert h s.receiver.options ∧ HistoryInert h s.history ∧
        (h.ackNumber.lt s.sender.txBuffer.headSequence = false →
          s.sender.tcb.ecnState ≠ .ecnCeRcvd)))

variable {profile ops estimator} {s t : Socket σ ρ τ} {a : Segment} {h : TcpHeader}

/-! ## The window -/

/-- What `UpdateWindowSize` reads and writes. -/
structure SameWindow (o p : OptionState) : Prop where
  rWnd : p.rWnd = o.rWnd
  highRxAckMark : p.highRxAckMark = o.highRxAckMark
  highRxMark : p.highRxMark = o.highRxMark
  sndWindShift : p.sndWindShift = o.sndWindShift

theorem SameWindow.inert {o p : OptionState} (same : SameWindow o p) :
    WindowInert h p ↔ WindowInert h o := by
  rw [WindowInert, WindowInert, receivedWindow, receivedWindow, same.rWnd, same.highRxAckMark,
    same.highRxMark, same.sndWindShift]

/-- The options of a segment that is not dropped. -/
theorem forwardAck_cases {o : OptionState} {r : OptionState ⊕ OptionState}
    (run : forwardAck .established h o = some r) :
    ((o.timestampEnabled = true ∧ h.hasOption TcpOption.TS = false) ∧ r = .inr o) ∨
      (¬ (o.timestampEnabled = true ∧ h.hasOption TcpOption.TS = false) ∧
        ∃ p, r = .inl (updateWindowSize .established h p) ∧ SameWindow o p) := by
  unfold forwardAck at run
  split at run
  · rename_i dropped
    rw [Bool.and_eq_true, Bool.not_eq_true'] at dropped
    exact .inl ⟨dropped, (Option.some.inj run).symm⟩
  · rename_i kept
    rw [Bool.and_eq_true, Bool.not_eq_true'] at kept
    simp only [bind_returns, pure_returns] at run
    obtain ⟨b, stamped, c, cwnd, rfl⟩ := run
    obtain ⟨_, _, rfl⟩ := segmentCongestionWindow_eq_some cwnd
    refine .inr ⟨kept, _, rfl, ?_⟩
    unfold ackTimestamp at stamped
    split at stamped
    · obtain ⟨_, _, _, rfl⟩ := processOptionTimestamp_eq_some stamped
      exact ⟨rfl, rfl, rfl, rfl⟩
    · cases stamped
      exact ⟨rfl, rfl, rfl, rfl⟩

/-- A window update leaves the window and the mark alone exactly if it is inert. -/
theorem updateWindowSize_iff (o : OptionState) :
    ((updateWindowSize .established h o).rWnd = o.rWnd ∧
      (updateWindowSize .established h o).highRxAckMark = o.highRxAckMark) ↔ WindowInert h o := by
  have mark : (updateWindowSize .established h o).highRxAckMark =
      if h.ackNumber.gt o.highRxAckMark then h.ackNumber else o.highRxAckMark := rfl
  have window : (updateWindowSize .established h o).rWnd =
      if (h.ackNumber = o.highRxAckMark ∧ o.rWnd < receivedWindow h o) ∨
        h.ackNumber.gt o.highRxAckMark = true ∨ h.sequenceNumber.gt o.highRxMark = true then
          receivedWindow h o else o.rWnd := rfl
  rw [mark, window, WindowInert, and_comm]
  cases acks : h.ackNumber.gt o.highRxAckMark with
  | true =>
    refine iff_of_false (fun same => ?_) fun inert => Bool.noConfusion inert.1
    have same : h.ackNumber = o.highRxAckMark := same.1
    rw [same, SequenceNumber.gt_self] at acks
    exact Bool.noConfusion acks
  | false =>
    simp only [Bool.false_eq_true, if_false, true_and, false_or]
    split
    · rename_i updates
      exact (imp_iff_right updates).symm
    · rename_i still
      exact iff_of_true rfl fun updates => absurd updates still

/-! ## The round-trip time -/

theorem prune_length_le (ack : SequenceNumber32) (history : List RttHistory) :
    (prune ack history).length ≤ history.length := by
  induction history with
  | nil => exact le_rfl
  | cons first rest ih =>
    unfold prune
    split
    · exact le_rfl
    · exact ih.trans (Nat.le_succ _)

theorem prune_eq_self_iff (history : List RttHistory) :
    prune h.ackNumber history = history ↔ HistoryInert h history := by
  cases history with
  | nil => exact iff_of_true rfl nofun
  | cons first rest =>
    have inert : HistoryInert h (first :: rest) ↔ first.stop.gt h.ackNumber = true := by
      rw [HistoryInert, List.head?_cons]
      simp
    rw [inert, prune]
    split
    · rename_i above
      exact iff_of_true rfl above
    · rename_i acked
      refine iff_of_false (fun same => ?_) acked
      have shorter := prune_length_le h.ackNumber rest
      rw [same, List.length_cons] at shorter
      omega

theorem sample_eq_zero {now : Int} {timestampEnabled : Bool} {history : List RttHistory}
    (inert : HistoryInert h history) : sample now timestampEnabled h history = 0 := by
  cases history with
  | nil => rfl
  | cons first rest =>
    have above : first.stop.gt h.ackNumber = true := inert first rfl
    have unused : (!first.retx && h.ackNumber.ge first.stop) = false := by
      rw [SequenceNumber.ge_eq_false above, Bool.and_false]
    exact if_neg (by rw [unused]; exact Bool.false_ne_true)

theorem estimateRtt_inert {now : Int} (inert : HistoryInert h s.history) :
    s.estimateRtt estimator now h = s := by
  unfold estimateRtt
  simp [sample_eq_zero inert, (prune_eq_self_iff s.history).mpr inert]

theorem estimateRtt_history (now : Int) (h : TcpHeader) (s : Socket σ ρ τ) :
    (s.estimateRtt estimator now h).history = prune h.ackNumber s.history := by
  unfold estimateRtt
  dsimp only
  split <;> rfl

/-! ## The answer -/

/-- An acknowledgement leaves the window and the mark alone. -/
structure Answered (r u : Receiver) : Prop where
  rWnd : u.options.rWnd = r.options.rWnd
  highRxAckMark : u.options.highRxAckMark = r.options.highRxAckMark

theorem Answered.refl (r : Receiver) : Answered r r := ⟨rfl, rfl⟩

theorem sendEmptyPacket_answered {flags : Byte} {r u : Receiver}
    (run : r.sendEmptyPacket profile flags = some u) :
    Answered r u ∧ u.ecnState = r.ecnState := by
  unfold Receiver.sendEmptyPacket at run
  split at run
  · cases run
    exact ⟨Answered.refl r, rfl⟩
  · obtain ⟨⟨w, v⟩, advertised, run⟩ := bind_returns.mp run
    obtain rfl := Receiver.advertisedWindowSize_eq advertised
    dsimp only at run
    generalize (if flags &&& TcpHeader.FIN ≠ 0 then flags ||| TcpHeader.ACK else flags) = sent
      at run
    split at run
    · cases run
      exact ⟨⟨rfl, rfl⟩, rfl⟩
    · cases run
      exact ⟨⟨rfl, rfl⟩, rfl⟩

/-- The congestion state of the ECN after an ACK that echoes a mark. -/
def echoed (e : EcnState) : EcnState :=
  if e = .ecnCeRcvd ∨ e = .ecnSendingEce then .ecnSendingEce else e

theorem acknowledge_answered {r u : Receiver} (run : r.acknowledge profile = some u) :
    Answered r u ∧ u.ecnState = echoed r.ecnState := by
  unfold Receiver.acknowledge at run
  split at run
  · rename_i marked
    obtain ⟨v, sent, run⟩ := bind_returns.mp run
    cases run
    obtain ⟨answered, -⟩ := sendEmptyPacket_answered sent
    exact ⟨⟨answered.rWnd, answered.highRxAckMark⟩, (if_pos marked).symm⟩
  · rename_i unmarked
    obtain ⟨answered, same⟩ := sendEmptyPacket_answered run
    exact ⟨answered, same.trans (if_neg unmarked).symm⟩

theorem sendSegments_answered {n : Nat} {r u : Receiver}
    (run : r.sendSegments profile n = some u) : Answered r u := by
  induction n generalizing r with
  | zero =>
    obtain rfl := Option.some.inj run
    exact Answered.refl r
  | succ n ih =>
    obtain ⟨v, sent, run⟩ := bind_returns.mp run
    obtain ⟨⟨w, x⟩, advertised, sent⟩ := bind_returns.mp sent
    obtain rfl := Receiver.advertisedWindowSize_eq advertised
    cases sent
    exact ⟨(ih run).rWnd, (ih run).highRxAckMark⟩

/-- `ProcessEstablished` of an ACK that is not valid: it is ignored, or answered. -/
theorem processEstablished_refuses (flags : a.header.tcpflags = TcpHeader.ACK)
    (refused : s.verdict a.header ≠ .valid)
    (run : s.processEstablished profile ops a = some t) :
    ∃ r, t = { s with receiver := r, sender.tcb.ecnState := r.ecnState } ∧
      Answered s.receiver r ∧ r.ecnState = if s.verdict a.header = .old then s.sender.tcb.ecnState
        else echoed s.sender.tcb.ecnState := by
  unfold processEstablished at run
  rw [if_neg fun h => refused h.2] at run
  obtain ⟨r, answer, run⟩ := bind_returns.mp run
  refine ⟨r, (Option.some.inj run).symm, ?_⟩
  rw [Receiver.processEstablished, if_pos flags] at answer
  cases verdict : s.verdict a.header with
  | old =>
    rw [verdict] at answer
    cases answer
    exact ⟨⟨rfl, rfl⟩, rfl⟩
  | notSent =>
    rw [verdict] at answer
    obtain ⟨answered, ecnState⟩ := acknowledge_answered answer
    exact ⟨⟨answered.rWnd, answered.highRxAckMark⟩, ecnState⟩
  | valid => exact absurd verdict refused

theorem sendPendingData_answered (run : s.sendPendingData profile ops a = some t) :
    Answered s.receiver t.receiver := by
  obtain ⟨sender, -, run⟩ := bind_returns.mp run
  obtain ⟨r, sent, run⟩ := bind_returns.mp run
  cases run
  obtain ⟨u, segments, sent⟩ := bind_returns.mp sent
  cases sent
  have answered := sendSegments_answered segments
  exact ⟨answered.rWnd, answered.highRxAckMark⟩

/-! ## The ECN state -/

/-- The state after CWR. -/
def reduced (h : TcpHeader) (e : EcnState) : EcnState :=
  if h.hasFlag TcpHeader.CWR && e != .ecnCeRcvd then .ecnIdle else e

theorem hasFlag_rst (flags : h.tcpflags = TcpHeader.ACK) : h.hasFlag TcpHeader.RST = false := by
  have all : ∀ b : Byte, b &&& ~~~(TcpHeader.PSH ||| TcpHeader.URG ||| TcpHeader.CWR |||
      TcpHeader.ECE) = TcpHeader.ACK → (b &&& TcpHeader.RST != 0) = false := by
    decide
  exact all h.flags flags

/-- The socket with another ECN state. -/
def withEcn (e : EcnState) (s : Socket σ ρ τ) : Socket σ ρ τ :=
  { s with sender.tcb.ecnState := e }

theorem windowReduced_eq (flags : h.tcpflags = TcpHeader.ACK) (s : Socket σ ρ τ) :
    s.windowReduced h = s.withEcn (reduced h s.sender.tcb.ecnState) := by
  unfold windowReduced reduced
  rw [hasFlag_rst flags, Bool.not_false, Bool.true_and]
  split <;> rfl

theorem reduced_eq_self_iff (e : EcnState) : reduced h e = e ↔ EcnInert h e := by
  unfold reduced EcnInert
  cases h.hasFlag TcpHeader.CWR <;> cases e <;> decide

theorem echoed_reduced_iff (e : EcnState) :
    echoed (reduced h e) = e ↔ EcnInert h e ∧ e ≠ .ecnCeRcvd := by
  unfold reduced EcnInert
  cases h.hasFlag TcpHeader.CWR <;> cases e <;> decide

/-! ## The theorem -/

theorem estimateRtt_sender (estimator : RttEstimator τ) (now : Int) (h : TcpHeader)
    (s : Socket σ ρ τ) : ∃ lastRtt,
    (s.estimateRtt estimator now h).sender = { s.sender with tcb.lastRtt := lastRtt } := by
  unfold estimateRtt
  dsimp only
  split
  · exact ⟨_, rfl⟩
  · exact ⟨_, rfl⟩

/-- An unacceptable ACK that was dropped. -/
theorem readAck_cases {r : Socket σ ρ τ ⊕ Socket σ ρ τ}
    (established : s.receiver.state = .established)
    (run : s.readAck estimator a = some r) :
    ((s.receiver.options.timestampEnabled = true ∧ a.header.hasOption TcpOption.TS = false) ∧
      ∃ o, SameWindow s.receiver.options o ∧ r = .inr { s with receiver.options := o }) ∨
    (¬ (s.receiver.options.timestampEnabled = true ∧ a.header.hasOption TcpOption.TS = false) ∧
      ∃ o, SameWindow s.receiver.options o ∧
        r = .inl ({ s with receiver.options := updateWindowSize .established a.header o
          }.estimateRtt estimator a.now a.header)) := by
  obtain ⟨options, forwarded, run⟩ := bind_returns.mp run
  rw [established] at forwarded
  rcases forwardAck_cases forwarded with ⟨dropped, rfl⟩ | ⟨kept, o, rfl, same⟩
  · exact .inl ⟨dropped,
      { s.receiver.options with nextRxSequence := s.receiver.rxBuffer.nextRxSeq },
      ⟨rfl, rfl, rfl, rfl⟩, (Option.some.inj run).symm⟩
  · exact .inr ⟨kept, o, ⟨same.rWnd, same.highRxAckMark, same.highRxMark, same.sndWindShift⟩,
      (Option.some.inj run).symm⟩

/-- What the socket does about an unacceptable ACK, once its options have been read. -/
theorem refuses {u : Socket σ ρ τ} (flags : a.header.tcpflags = TcpHeader.ACK)
    (refused : u.verdict a.header ≠ .valid)
    (run : (u.enterPersist.processEstablished profile ops a).bind
      (fun v => v.leavePersist profile ops a) = some t) :
    t.receiver.options.rWnd = u.receiver.options.rWnd ∧
      t.receiver.options.highRxAckMark = u.receiver.options.highRxAckMark ∧
      ((u.receiver.options.rWnd ≠ 0 ∧ u.persistRunning = true) ∨
        (t.sender = { u.sender with tcb.ecnState := if u.verdict a.header = .old then
            u.sender.tcb.ecnState else echoed u.sender.tcb.ecnState } ∧
          t.history = u.history ∧ t.rtt = u.rtt ∧ t.minRtt = u.minRtt)) := by
  obtain ⟨v, answer, leave⟩ := bind_returns.mp run
  have enter : u.enterPersist = { u with persistRunning := u.enterPersist.persistRunning } := by
    unfold enterPersist
    split <;> rfl
  have same : u.enterPersist.verdict a.header = u.verdict a.header := by
    rw [enter]
    rfl
  obtain ⟨r, rfl, answered, ecnState⟩ := processEstablished_refuses flags (same ▸ refused) answer
  rw [same] at ecnState
  have rWnd : r.options.rWnd = u.receiver.options.rWnd := by rw [answered.rWnd, enter]
  have mark : r.options.highRxAckMark = u.receiver.options.highRxAckMark := by
    rw [answered.highRxAckMark, enter]
  unfold leavePersist at leave
  split at leave
  · rename_i leaves
    have sent := sendPendingData_answered leave
    refine ⟨sent.rWnd.trans rWnd, sent.highRxAckMark.trans mark, .inl ?_⟩
    have opened : u.receiver.options.rWnd ≠ 0 := rWnd ▸ leaves.1
    have running : u.enterPersist.persistRunning = true := leaves.2
    rw [enterPersist, if_neg opened] at running
    exact ⟨opened, running⟩
  · cases leave
    refine ⟨rWnd, mark, .inr ⟨?_, ?_, ?_, ?_⟩⟩
    · rw [show r.ecnState = _ from ecnState, enter]
    · rw [enter]
    · rw [enter]
    · rw [enter]

theorem estimateRtt_receiver (estimator : RttEstimator τ) (now : Int) (h : TcpHeader)
    (s : Socket σ ρ τ) :
    (s.estimateRtt estimator now h).receiver = s.receiver ∧
      (s.estimateRtt estimator now h).persistRunning = s.persistRunning := by
  unfold estimateRtt
  dsimp only
  split <;> exact ⟨rfl, rfl⟩

theorem estimateRtt_verdict (now : Int) (s : Socket σ ρ τ) :
    (s.estimateRtt estimator now h).verdict h = s.verdict h := by
  obtain ⟨lastRtt, sender⟩ := estimateRtt_sender estimator now h s
  rw [verdict, sender]
  rfl

theorem verdict_ne_valid (notSent : h.ackNumber.gt s.sender.tcb.highTxMark = true) :
    s.verdict h ≠ .valid := by
  rw [verdict, notSent, if_pos rfl]
  split <;> decide

theorem verdict_eq_old_iff : (s.verdict h = .old) ↔
    h.ackNumber.lt s.sender.txBuffer.headSequence = true := by
  unfold verdict
  split
  · exact iff_of_true rfl ‹_›
  · rename_i low
    refine iff_of_false ?_ low
    split <;> decide

theorem sender_eq_iff {x : Sender σ ρ} {e : EcnState} :
    ({ x with tcb.ecnState := e } : Sender σ ρ) = x ↔ e = x.tcb.ecnState :=
  ⟨fun h => congrArg (fun y => y.tcb.ecnState) h, fun h => by rw [h]⟩

theorem answeredEcn_iff (h : TcpHeader) (e : EcnState) (old : Bool) :
    (if old = true then reduced h e else echoed (reduced h e)) = e ↔
      EcnInert h e ∧ (old = false → e ≠ .ecnCeRcvd) := by
  cases old with
  | true => simp [reduced_eq_self_iff]
  | false => simp [echoed_reduced_iff]

/-- A socket that has sent nothing, with the highest ACK number it has seen. -/
def silent (highRxAckMark : Nat) : Socket (TcpCerl TcpCerl.Delays) PrrState Int where
  receiver := {
    rxBuffer := .new 1
    options := {
      timestampEnabled := false, rWnd := 65535
      highRxMark := .ofNat 1, highRxAckMark := .ofNat highRxAckMark } }
  sender := {
    congestionControl := { statistics := {} }
    recoveryOps := {}
    txBuffer := TcpTxBuffer.start (.ofNat 1) 1000 3 2 true
    tcb := { highTxMark := .ofNat 1, nextTxSequence := .ofNat 1 } }
  rtt := 0

/-- The estimate is the last measurement. -/
def lastMeasurement : RttEstimator Int := { measurement := fun m _ => m, getEstimate := id }

def silentOps : SenderOps (TcpCerl TcpCerl.Delays) PrrState :=
  ⟨TcpCerl.ops TcpCerl.delays, RecoveryAlgorithm.classic.ops⟩

/-- An ACK of data that was not sent, with a window. -/
def premature (windowSize : BitVec 16) : Segment where
  header := {
    sequenceNumber := .ofNat 1, ackNumber := .ofNat 100, flags := TcpHeader.ACK, windowSize }

end Socket

end Ns3.TcpSocketBase
