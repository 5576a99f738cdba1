import Ns3.Internet.TcpRxBuffer.Fin
import Ns3.Internet.TcpSocketBase.Receiver.DelayWindow

/-!
# The FIN of the peer

`ProcessEstablished` hands a segment with FIN to `PeerClose`, and `ProcessWait` treats
it itself in the states that wait for one. The sending side takes part with what it
does about an acknowledgement.
-/

namespace Ns3.TcpSocketBase

/-- What the sending side makes of the acknowledgement number of a segment. -/
inductive AckVerdict where
  /-- It is below the head of the transmit buffer. -/
  | old
  /-- It acknowledges something that was not sent yet. -/
  | notSent
  | valid
  deriving DecidableEq

/-- What the sending side decides: the verdict, the data segments that `ReceivedAck`
sends, whether the last of them carries a FIN, and whether all that was sent is
acknowledged, FIN included. -/
structure Sending where
  verdict : AckVerdict := .valid
  segments : Nat := 0
  fin : Bool := false
  finAcked : Bool := false

namespace Receiver

variable (profile : BuildProfile)

/-- `OutOfRange`. -/
def outOfRange (head tail : SequenceNumber32) (s : Receiver) : Bool :=
  match s.state with
  | .listen | .synSent | .synRcvd => false
  | .lastAck | .closing | .closeWait => s.rxBuffer.nextRxSeq != head
  | _ => tail.lt s.rxBuffer.nextRxSeq || s.rxBuffer.maxRxSequence.le head

/-- `IsValidTcpSegment`, for a header of a possible size. -/
def isValidTcpSegment (p : Packet) (h : TcpHeader) (s : Receiver) : Bool :=
  p.length == 0 || !s.outOfRange h.sequenceNumber (h.sequenceNumber.add p.length)

/-! ## The handlers -/

/-- The data segments sent by `ReceivedAck`. -/
def sendSegments : Nat → Receiver → Option Receiver
  | 0, s => some s
  | n + 1, s => do
      let s ← s.sendDataPacket profile
      sendSegments n s

/-- A FIN in the last data segment. -/
def finSent (fin : Bool) (s : Receiver) : Receiver :=
  if fin && s.state == .established then { s with state := .finWait1 }
  else if fin && s.state == .closeWait then { s with state := .lastAck }
  else s

/-- `ReceivedData`, if there is any. -/
def piggybacked (now : Int) (p : Packet) (h : TcpHeader) (app : Application) (s : Receiver) :
    Option Receiver :=
  if p.length ≠ 0 then s.receivedData profile now p h app else some s

/-- `ReceivedAck`, on the receiving side. -/
def receivedAck (now : Int) (p : Packet) (h : TcpHeader) (app : Application) (sending : Sending)
    (s : Receiver) : Option Receiver := do
  nsAssert profile (h.hasFlag TcpHeader.ACK)
  let s ← s.piggybacked profile now p h app
  let s ← s.sendSegments profile sending.segments
  return s.finSent sending.fin

/-- `PeerClose`. -/
def peerClose (now : Int) (p : Packet) (h : TcpHeader) (app : Application) (s : Receiver) :
    Option Receiver :=
  if h.sequenceNumber.lt s.rxBuffer.nextRxSeq || h.sequenceNumber.gt s.rxBuffer.maxRxSequence then
    some s
  else do
    let s ← (s.setFinSequence (h.sequenceNumber.add p.length)).piggybacked profile now p h app
    if !s.rxBuffer.finished then some s
    else if s.state = .finWait1 then some { s with state := .closing }
    else s.doPeerClose profile app

/-- The end of the state machine for a segment that it does not know. -/
def terminate (h : TcpHeader) (app : Application) (s : Receiver) : Option Receiver :=
  if h.tcpflags = TcpHeader.RST then s.closeAndNotify profile app
  else do
    let s ← s.sendRST profile
    s.closeAndNotify profile app

/-- `ProcessEstablished`. -/
def processEstablished (now : Int) (p : Packet) (h : TcpHeader) (app : Application)
    (sending : Sending) (s : Receiver) : Option Receiver :=
  if h.tcpflags = TcpHeader.ACK then
    match sending.verdict with
    | .old => some s
    | .notSent => s.acknowledge profile
    | .valid => s.receivedAck profile now p h app sending
  else if h.tcpflags = TcpHeader.SYN ∨ h.tcpflags = TcpHeader.SYN ||| TcpHeader.ACK then some s
  else if h.tcpflags = TcpHeader.FIN ∨ h.tcpflags = TcpHeader.FIN ||| TcpHeader.ACK then
    s.peerClose profile now p h app
  else if h.tcpflags = 0 then do
    let s ← s.receivedData profile now p h app
    if s.rxBuffer.finished then s.peerClose profile now p h app else some s
  else s.terminate profile h app

/-- `TimeWait`. -/
def timeWait (app : Application) (s : Receiver) : Option Receiver :=
  { s with state := .timeWait, delAckRunning := false }.notifyClose profile app

/-- The new state after a FIN in sequence. -/
def finInSequence (finAcked : Bool) (app : Application) (s : Receiver) : Option Receiver :=
  if s.state = .finWait1 then
    if finAcked then { s with state := .closing }.timeWait profile app
    else some { s with state := .closing }
  else s.timeWait profile app

/-- The end of `ProcessWait`: the answer to a FIN in sequence. -/
def answerFin (finAcked : Bool) (app : Application) (s : Receiver) : Option Receiver :=
  if (s.state = .finWait1 ∨ s.state = .finWait2) ∧ s.rxBuffer.finished = true then do
    let s ← s.finInSequence profile finAcked app
    let s ← s.sendEmptyPacket profile TcpHeader.ACK
    s.notifyDataRecv profile true app
  else some s

/-- `ProcessWait`. -/
def processWait (now : Int) (p : Packet) (h : TcpHeader) (app : Application) (sending : Sending)
    (s : Receiver) : Option Receiver :=
  if p.length ≠ 0 ∧ h.tcpflags &&& TcpHeader.ACK = 0 then do
    let s ← s.receivedData profile now p h app
    s.answerFin profile sending.finAcked app
  else if h.tcpflags = TcpHeader.ACK then do
    let s ← s.receivedAck profile now p h app sending
    let s := if s.state = .finWait1 ∧ sending.finAcked = true then { s with state := .finWait2 }
      else s
    s.answerFin profile sending.finAcked app
  else if h.tcpflags = TcpHeader.FIN ∨ h.tcpflags = TcpHeader.FIN ||| TcpHeader.ACK then do
    let s ← (if h.tcpflags &&& TcpHeader.ACK ≠ 0 then s.receivedAck profile now p h app sending
      else some s)
    (s.setFinSequence h.sequenceNumber).answerFin profile sending.finAcked app
  else if h.tcpflags = TcpHeader.SYN ∨ h.tcpflags = TcpHeader.SYN ||| TcpHeader.ACK then some s
  else s.terminate profile h app

/-- The state machine of `DoForwardUp`, in the states that can receive data. -/
def process (now : Int) (p : Packet) (h : TcpHeader) (app : Application) (sending : Sending)
    (s : Receiver) : Option Receiver :=
  match s.state with
  | .established => s.processEstablished profile now p h app sending
  | .finWait1 | .finWait2 | .closeWait => s.processWait profile now p h app sending
  | _ => some s

/-! ## What they keep -/

variable {profile} {s t u : Receiver} {p : Packet} {h : TcpHeader} {app : Application}

open TcpRxBuffer (SameFin FinCounted add_fin finCounted_setFinSequence)

theorem frame_sendSegments (n : Nat) (s : Receiver) :
    Contract True (s.sendSegments profile n) (Frame s) := by
  induction n generalizing s with
  | zero => exact Frame.refl s
  | succ n ih =>
    refine Frame.bind (Contract.of_forall fun t run => ?_) fun t _ => ih t
    obtain ⟨⟨w, u⟩, advertised, run⟩ := bind_returns.mp run
    obtain rfl := advertisedWindowSize_eq advertised
    exact Option.some.inj run ▸ ⟨rfl, rfl, rfl, rfl, rfl, rfl⟩

theorem frame_finSent (fin : Bool) (s : Receiver) : Frame s (s.finSent fin) := by
  unfold finSent
  split
  · exact ⟨rfl, rfl, rfl, rfl, rfl, rfl⟩
  · split
    · exact ⟨rfl, rfl, rfl, rfl, rfl, rfl⟩
    · exact Frame.refl s

theorem frame_timeWait (s : Receiver) : Contract True (s.timeWait profile app) (Frame s) :=
  (frame_notifyClose app _).mono fun _ ht =>
    ⟨ht.delay, ht.added, ht.fins, ht.gotFin, ht.finSeq, ht.nextRxSeq⟩

theorem frame_finInSequence (finAcked : Bool) (s : Receiver) :
    Contract True (s.finInSequence profile finAcked app) (Frame s) := by
  unfold finInSequence
  split
  · split
    · exact (frame_timeWait _).mono fun _ ht =>
        ⟨ht.delay, ht.added, ht.fins, ht.gotFin, ht.finSeq, ht.nextRxSeq⟩
    · exact ⟨rfl, rfl, rfl, rfl, rfl, rfl⟩
  · exact frame_timeWait s

theorem frame_answerFin (finAcked : Bool) (s : Receiver) :
    Contract True (s.answerFin profile finAcked app) (Frame s) := by
  unfold answerFin
  split
  · refine Frame.bind (frame_finInSequence finAcked s) fun t _ => ?_
    exact Frame.bind (frame_sendEmptyPacket _ t) fun u _ => frame_notifyDataRecv true app u
  · exact Frame.refl s

/-- A packet was handed to the receive buffer, and no FIN recorded. -/
structure Handed (p : Packet) (h : TcpHeader) (s t : Receiver) : Prop where
  added : t.trace.added = (p, h.sequenceNumber) :: s.trace.added
  fins : t.trace.fins = s.trace.fins
  counted : FinCounted s.rxBuffer → SameFin s.rxBuffer t.rxBuffer ∧ FinCounted t.rxBuffer

theorem Handed.frame (handed : Handed p h s t) (frame : Frame t u) : Handed p h s u where
  added := frame.added.trans handed.added
  fins := frame.fins.trans handed.fins
  counted before := by
    obtain ⟨same, counted⟩ := handed.counted before
    refine ⟨⟨frame.gotFin.trans same.gotFin, frame.finSeq.trans same.finSeq⟩, fun got => ?_⟩
    rw [frame.nextRxSeq, frame.finSeq]
    exact counted (frame.gotFin ▸ got)

theorem store_handed {stored : Stored}
    (run : s.store profile p h app = some (stored, t)) : Handed p h s t := by
  obtain ⟨⟨added, rxBuffer⟩, insert, run⟩ := bind_returns.mp run
  have handed : Handed p h s
      { s with rxBuffer, trace.added := (p, h.sequenceNumber) :: s.trace.added } :=
    ⟨rfl, rfl, fun counted => add_fin counted insert⟩
  dsimp only at run
  split at run
  · obtain rfl := (Prod.mk.inj (Option.some.inj run)).2
    exact handed
  · obtain ⟨u, reads, run⟩ := bind_returns.mp run
    obtain rfl := (Prod.mk.inj (Option.some.inj run)).2
    exact handed.frame ((frame_notifyDataRecv _ app _).of_eq_some reads)

variable {now : Int}

/-- The times do not concern the buffer. -/
theorem arrive_same (run : s.arrive profile now = some t) :
    t.trace = s.trace ∧ t.rxBuffer = s.rxBuffer := by
  unfold arrive at run
  cases lastTime : s.delay.lastPacketTime with
  | none =>
    rw [lastTime] at run
    cases run
    exact ⟨rfl, rfl⟩
  | some last =>
    rw [lastTime] at run
    obtain ⟨u, update, rfl⟩ := Option.map_eq_some_iff.mp run
    split at update
    · obtain ⟨⟨w, v⟩, advertised, update⟩ := bind_returns.mp update
      obtain rfl := advertisedWindowSize_eq advertised
      cases update
      exact ⟨rfl, rfl⟩
    · cases update
      exact ⟨rfl, rfl⟩

theorem receivedData_handed
    (run : s.receivedData profile now p h app = some t) : Handed p h s t := by
  obtain ⟨u, v, stored, arrived, placed, -, frame⟩ := receivedData_cases run
  obtain ⟨trace, rxBuffer⟩ := arrive_same arrived
  have handed := store_handed placed
  have start : Handed p h s v :=
    ⟨trace ▸ handed.added, trace ▸ handed.fins, rxBuffer ▸ handed.counted⟩
  have answered : Handed p h s (v.answered stored) := by
    cases stored with
    | outOfOrder => exact ⟨start.added, start.fins, start.counted⟩
    | refused => exact start
    | complete => exact start
    | inSequence => exact start
  exact answered.frame frame

/-! ## Where the FIN is recorded -/

/-- The FIN of the socket is at `seq`, and the next expected byte is not. -/
structure FinAt (seq : SequenceNumber32) (s : Receiver) : Prop where
  gotFin : s.rxBuffer.gotFin = true
  finSeq : s.rxBuffer.finSeq = seq
  counted : s.rxBuffer.nextRxSeq ≠ seq

theorem FinAt.setFinSequence (seq : SequenceNumber32) (s : Receiver) :
    FinAt seq (s.setFinSequence seq) :=
  ⟨rfl, rfl, finCounted_setFinSequence s.rxBuffer seq rfl⟩

theorem FinAt.frame {seq : SequenceNumber32} (fin : FinAt seq s) (frame : Frame s t) :
    FinAt seq t :=
  ⟨frame.gotFin.trans fin.gotFin, frame.finSeq.trans fin.finSeq, frame.nextRxSeq ▸ fin.counted⟩

theorem FinAt.handed {seq : SequenceNumber32} (fin : FinAt seq s) (handed : Handed p h s t) :
    FinAt seq t := by
  obtain ⟨same, counted⟩ := handed.counted fun _ => fin.finSeq ▸ fin.counted
  have got := same.gotFin.trans fin.gotFin
  have at_ := same.finSeq.trans fin.finSeq
  exact ⟨got, at_, at_ ▸ counted got⟩

/-- The payload goes to the receive buffer, the FIN is recorded behind it, and an
acknowledgement number that follows the payload follows the FIN. -/
structure RecordsFin (p : Packet) (h : TcpHeader) (s t : Receiver) : Prop where
  handed : p.length ≠ 0 → t.trace.added = (p, h.sequenceNumber) :: s.trace.added
  recorded : t.trace.fins = h.sequenceNumber.add p.length :: s.trace.fins
  finAt : FinAt (h.sequenceNumber.add p.length) t

/-- `PeerClose` does so for a segment that is not out of range. -/
theorem peerClose_records (low : h.sequenceNumber.lt s.rxBuffer.nextRxSeq = false)
    (high : h.sequenceNumber.gt s.rxBuffer.maxRxSequence = false)
    (run : s.peerClose profile now p h app = some t) : RecordsFin p h s t := by
  unfold peerClose at run
  rw [low, high, Bool.or_self, if_neg (by decide)] at run
  obtain ⟨u, data, run⟩ := bind_returns.mp run
  have frame : Frame u t := by
    split at run
    · exact Option.some.inj run ▸ Frame.refl u
    · split at run
      · exact Option.some.inj run ▸ ⟨rfl, rfl, rfl, rfl, rfl, rfl⟩
      · exact (frame_doPeerClose app u).of_eq_some run
  have start := FinAt.setFinSequence (h.sequenceNumber.add p.length) s
  unfold piggybacked at data
  split at data
  · have handed := receivedData_handed data
    exact ⟨fun _ => (handed.frame frame).added, (handed.frame frame).fins,
      (start.handed handed).frame frame⟩
  · rename_i empty
    cases data
    exact ⟨fun data => absurd data empty, frame.fins, start.frame frame⟩

theorem peerClose_ignores (out : h.sequenceNumber.lt s.rxBuffer.nextRxSeq = true ∨
      h.sequenceNumber.gt s.rxBuffer.maxRxSequence = true) :
    s.peerClose profile now p h app = some s :=
  if_pos (by rw [Bool.or_eq_true]; exact out)

theorem receivedAck_fins {sending : Sending}
    (run : s.receivedAck profile now p h app sending = some t) : t.trace.fins = s.trace.fins := by
  obtain ⟨-, -, run⟩ := bind_returns.mp run
  obtain ⟨u, data, run⟩ := bind_returns.mp run
  obtain ⟨v, segments, run⟩ := bind_returns.mp run
  cases run
  have frame := ((frame_sendSegments sending.segments u).of_eq_some segments).trans
    (frame_finSent sending.fin v)
  rw [frame.fins]
  unfold piggybacked at data
  split at data
  · exact (receivedData_handed data).fins
  · exact congrArg (fun r => r.trace.fins) (Option.some.inj data).symm

theorem recorded_at {seq : SequenceNumber32} {finAcked : Bool}
    (run : (s.setFinSequence seq).answerFin profile finAcked app = some t) :
    t.trace.fins = seq :: s.trace.fins ∧ FinAt seq t := by
  have frame := (frame_answerFin finAcked (s.setFinSequence seq)).of_eq_some run
  exact ⟨frame.fins, (FinAt.setFinSequence seq s).frame frame⟩

/-- `ProcessWait` records a FIN at the start of its segment, and after data without ACK
not at all. -/
theorem processWait_fins {sending : Sending}
    (flags : h.tcpflags = TcpHeader.FIN ∨ h.tcpflags = TcpHeader.FIN ||| TcpHeader.ACK)
    (run : s.processWait profile now p h app sending = some t) :
    (p.length ≠ 0 ∧ t.trace.fins = s.trace.fins) ∨
      (t.trace.fins = h.sequenceNumber :: s.trace.fins ∧ FinAt h.sequenceNumber t) := by
  unfold processWait at run
  rcases flags with fin | finAck
  · rw [fin] at run
    by_cases data : p.length ≠ 0
    · left
      rw [if_pos ⟨data, by decide⟩] at run
      obtain ⟨u, received, run⟩ := bind_returns.mp run
      have frame := (frame_answerFin sending.finAcked u).of_eq_some run
      exact ⟨data, frame.fins.trans (receivedData_handed received).fins⟩
    · right
      rw [if_neg fun h => data h.1, if_neg (by decide), if_pos (by decide)] at run
      obtain ⟨u, same, run⟩ := bind_returns.mp run
      cases same
      exact recorded_at run
  · right
    rw [finAck, if_neg fun h => absurd h.2 (by decide), if_neg (by decide),
      if_pos (by decide)] at run
    obtain ⟨u, ack, run⟩ := bind_returns.mp run
    rw [← receivedAck_fins ack]
    exact recorded_at run

theorem add_length_ne {seq : SequenceNumber32} {n : Nat} (some_ : n ≠ 0) (size : n < 2 ^ 32) :
    seq.add n ≠ seq := by
  intro h
  have value : seq.value + BitVec.ofNat 32 n = seq.value := congrArg SequenceNumber.value h
  have zero : BitVec.ofNat 32 n = 0 := by simpa using value
  have := congrArg BitVec.toNat zero
  rw [BitVec.toNat_ofNat, Nat.mod_eq_of_lt size] at this
  exact some_ this

/-- In the states that wait, the FIN is recorded where it is exactly without payload. -/
theorem processWait_records_iff {sending : Sending} (size : p.length < 2 ^ 32)
    (flags : h.tcpflags = TcpHeader.FIN ∨ h.tcpflags = TcpHeader.FIN ||| TcpHeader.ACK)
    (run : s.processWait profile now p h app sending = some t) :
    RecordsFin p h s t ↔ p.length = 0 := by
  constructor
  · intro records
    by_contra data
    rcases processWait_fins flags run with ⟨-, none_⟩ | ⟨start, -⟩
    · exact List.ne_cons_self (none_.symm.trans records.recorded)
    · have same := (List.cons.inj (start.symm.trans records.recorded)).1
      exact add_length_ne data size same.symm
  · intro empty
    have whole : h.sequenceNumber.add p.length = h.sequenceNumber := by
      rw [empty, SequenceNumber.add_eq_at]
      exact SequenceNumber.at_zero _
    rcases processWait_fins flags run with ⟨data, -⟩ | ⟨start, counted⟩
    · exact absurd empty data
    · refine ⟨fun data => absurd empty data, ?_, ?_⟩
      · rw [whole]
        exact start
      · rw [whole]
        exact counted

/-- A segment with FIN and a byte of data. -/
def lastByte : TcpHeader := { flags := TcpHeader.FIN ||| TcpHeader.ACK }

end Receiver

end Ns3.TcpSocketBase
