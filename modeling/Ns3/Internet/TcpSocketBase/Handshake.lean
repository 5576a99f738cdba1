import Ns3.Internet.TcpSocketBase.Listener

/-!
# The three-way handshake

A client connects to a listening socket over a network that may lose, duplicate
and reorder segments. The state has both ends and everything sent so far in each
direction; a step delivers any of it again, lets a SYN timer expire, or sends a
segment of the established connection.

Each end announces its window shift on its SYN and keeps it in `m_rcvWindShift`,
before it knows whether the peer scales. An end that finds out that the peer does
not scale clears `m_winScalingEnabled` and nothing else.
-/

namespace Ns3.TcpSocketBase

/-- `TcpSocketState::UseEcn_t`. -/
inductive UseEcn where
  | off
  | on
  | acceptOnly
  deriving DecidableEq

/-- What a socket reads and writes until the connection is established. -/
structure HandshakeSocket where
  options : OptionState := {}
  state : TcpState := .closed
  hasEndPoint : Bool := true
  useEcn : UseEcn := .off
  synCount : Nat := 6
  synRetries : Nat := 6
  nextTxSequence : SequenceNumber32 := ⟨0⟩
  /-- `m_rxBuffer->GetSackList ()`. -/
  sackList : SackList := []
  /-- The flags of the `SendEmptyPacket` that `m_retxEvent` has scheduled. -/
  retxEvent : Option Byte := none

namespace HandshakeSocket

open TcpHeader

/-- `CloseAndNotify`, with `DeallocateEndPoint` and `CancelAllTimers`. -/
def closeAndNotify (s : HandshakeSocket) : HandshakeSocket :=
  { s with state := .closed, hasEndPoint := false, retxEvent := none }

/-- The window, and on an ACK the SACK blocks: the last changes to the header. -/
def finishHeader (h : TcpHeader) (s : HandshakeSocket) : TcpHeader :=
  let h := { h with
    windowSize := advertisedWindowSize (!h.hasFlag SYN) s.options.maxBufferSize s.options }
  if h.hasFlag ACK ∧ s.options.sackEnabled ∧ s.sackList ≠ [] then addOptionSack s.sackList h
  else h

/-- `SendEmptyPacket` from the window on: the ACK part, the segment and the timer. -/
def transmit (h : TcpHeader) (s : HandshakeSocket) : HandshakeSocket × List TcpHeader :=
  let highTxAck :=
    if h.hasFlag ACK ∧ s.options.highTxAck.lt h.ackNumber then h.ackNumber
    else s.options.highTxAck
  let retxEvent :=
    if s.retxEvent = none ∧ (h.hasFlag SYN ∨ h.hasFlag FIN) ∧ h.flags ≠ ACK then some h.flags
    else s.retxEvent
  ({ s with options := { s.options with highTxAck := highTxAck }, retxEvent := retxEvent },
    [finishHeader h s])

/-- The part of `SendEmptyPacket` for a SYN. After the last try the socket is closed
instead. -/
def sendSyn (profile : BuildProfile) (h : TcpHeader) (s : HandshakeSocket) :
    Option (HandshakeSocket × List TcpHeader) := do
  let (h, o) ← addScaleOption profile h s.options
  let h ← addSackOption profile h o
  return if s.synCount = 0 then (closeAndNotify { s with options := o }, [])
    else transmit h { s with options := o, synCount := s.synCount - 1 }

/-- The header of `SendEmptyPacket`, with the options of every segment. -/
def emptyHeader (now : BitVec 32) (flags : Byte) (s : HandshakeSocket) : TcpHeader :=
  let fin : Bool := flags &&& FIN != 0
  let pastFin := !fin && (s.state = .finWait1 || s.state = .lastAck || s.state = .closing)
  addOptions now s.options
    { flags := if fin then flags ||| ACK else flags
      sequenceNumber := if pastFin then s.nextTxSequence.add 1 else s.nextTxSequence
      ackNumber := s.options.nextRxSequence }

/-- `SendEmptyPacket`. -/
def sendEmptyPacket (profile : BuildProfile) (now : BitVec 32) (flags : Byte)
    (s : HandshakeSocket) : Option (HandshakeSocket × List TcpHeader) :=
  if !s.hasEndPoint then some (s, [])
  else if (emptyHeader now flags s).hasFlag SYN then sendSyn profile (emptyHeader now flags s) s
  else some (transmit (emptyHeader now flags s) s)

/-- `DoConnect` of a socket that is not connected, after `Connect` set the counter. -/
def doConnect (profile : BuildProfile) (now : BitVec 32) (s : HandshakeSocket) :
    Option (HandshakeSocket × List TcpHeader) := do
  let flags := if s.useEcn = .on then SYN ||| ECE ||| CWR else SYN
  let (s, sent) ← sendEmptyPacket profile now flags { s with synCount := s.synRetries }
  return ({ s with state := .synSent }, sent)

/-- The flags of the answer to a SYN. -/
def synAckFlags (s : HandshakeSocket) (h : TcpHeader) : Byte :=
  if s.useEcn ≠ .off ∧ h.flags &&& (CWR ||| ECE) = CWR ||| ECE then SYN ||| ACK ||| ECE
  else SYN ||| ACK

/-- `SetNextRxSequence` with the number after a SYN. -/
def acceptSyn (h : TcpHeader) (s : HandshakeSocket) : HandshakeSocket :=
  { s with options := { s.options with nextRxSequence := h.sequenceNumber.add 1 } }

/-- `SendRST`, then `CloseAndNotify`. -/
def reset (profile : BuildProfile) (now : BitVec 32) (s : HandshakeSocket) :
    Option (HandshakeSocket × List TcpHeader) := do
  let (s, sent) ← sendEmptyPacket profile now RST s
  return (closeAndNotify s, sent)

/-- `ProcessSynSent`. Bare data goes on to `ReceivedData`, which has no part here. -/
def processSynSent (profile : BuildProfile) (now : BitVec 32) (h : TcpHeader)
    (s : HandshakeSocket) : Option (HandshakeSocket × List TcpHeader) :=
  let flags := h.flags &&& ~~~(PSH ||| URG)
  if flags = 0 then some ({ s with state := .established, retxEvent := none }, [])
  else if h.hasFlag ACK && !h.hasFlag SYN then some (s, [])
  else if h.hasFlag SYN && !h.hasFlag ACK then
    sendEmptyPacket profile now (synAckFlags s h)
      (acceptSyn h { s with state := .synRcvd, synCount := s.synRetries })
  else if (h.hasFlag SYN || h.hasFlag ACK) ∧ s.nextTxSequence.add 1 = h.ackNumber then
    sendEmptyPacket profile now ACK
      (acceptSyn h { s with
        state := .established
        retxEvent := none
        nextTxSequence := s.nextTxSequence.add 1 })
  else if h.hasFlag RST then some (closeAndNotify s, [])
  else reset profile now s

/-- `ProcessSynRcvd`. A FIN in sequence goes on to `PeerClose`. -/
def processSynRcvd (profile : BuildProfile) (now : BitVec 32) (h : TcpHeader)
    (s : HandshakeSocket) : Option (HandshakeSocket × List TcpHeader) :=
  let connected : HandshakeSocket :=
    { s with retxEvent := none, nextTxSequence := s.nextTxSequence.add 1 }
  if h.tcpflags = 0 ∨ (h.tcpflags = ACK ∧ s.nextTxSequence.add 1 = h.ackNumber) then
    some ({ connected with state := .established }, [])
  else if h.tcpflags = SYN then sendEmptyPacket profile now (synAckFlags s h) (acceptSyn h s)
  else if h.tcpflags = FIN ||| ACK then
    if h.sequenceNumber = s.options.nextRxSequence then
      some ({ connected with state := .closeWait }, [])
    else some (s, [])
  else if h.tcpflags = RST then some (closeAndNotify s, [])
  else reset profile now s

/-- `ProcessEstablished`, as far as it ends the connection: data, ACKs and copies of
the handshake leave the members of this record alone, and a FIN goes to `PeerClose`. -/
def processEstablished (profile : BuildProfile) (now : BitVec 32) (h : TcpHeader)
    (s : HandshakeSocket) : Option (HandshakeSocket × List TcpHeader) :=
  if h.tcpflags = ACK ∨ h.tcpflags = SYN ∨ h.tcpflags = SYN ||| ACK ∨ h.tcpflags = 0 then
    some (s, [])
  else if h.tcpflags = FIN ∨ h.tcpflags = FIN ||| ACK then
    some ({ s with state := .closeWait }, [])
  else if h.tcpflags = RST then some (closeAndNotify s, [])
  else reset profile now s

/-- The state machine of `DoForwardUp`, for the states before the connection closes. -/
def process (profile : BuildProfile) (now : BitVec 32) (h : TcpHeader) (s : HandshakeSocket) :
    Option (HandshakeSocket × List TcpHeader) :=
  match s.state with
  | .synSent => processSynSent profile now h s
  | .synRcvd => processSynRcvd profile now h s
  | .established => processEstablished profile now h s
  | _ => some (s, [])

/-- `DoForwardUp` of a socket that does not listen. -/
def doForwardUp (profile : BuildProfile) (now : BitVec 32) (h : TcpHeader)
    (s : HandshakeSocket) : Option (HandshakeSocket × List TcpHeader) := do
  match ← forwardOptions profile s.state h s.options with
  | .inl o => process profile now h { s with options := o }
  | .inr o => return ({ s with options := o }, [])

/-- `CompleteFork`, on the copy that `ProcessListen` made. -/
def completeFork (profile : BuildProfile) (now : BitVec 32) (h : TcpHeader)
    (s : HandshakeSocket) : Option (HandshakeSocket × List TcpHeader) :=
  sendEmptyPacket profile now (synAckFlags s h)
    (acceptSyn h { s with state := .synRcvd, hasEndPoint := true, synCount := s.synRetries })

/-- The expiry of `m_retxEvent`. -/
def synTimeout (profile : BuildProfile) (now : BitVec 32) (s : HandshakeSocket) :
    Option (HandshakeSocket × List TcpHeader) :=
  match s.retxEvent with
  | some flags => sendEmptyPacket profile now flags { s with retxEvent := none }
  | none => some (s, [])

end HandshakeSocket

namespace Handshake

open HandshakeSocket TcpHeader

/-- Both ends and everything sent so far. The listener is changed by each SYN it
sees; `server` is the socket it forked last. -/
structure System where
  client : HandshakeSocket
  listener : HandshakeSocket
  server : Option HandshakeSocket := none
  toServer : List TcpHeader := []
  toClient : List TcpHeader := []

inductive Event where
  | deliverToServer (i : Nat) (accepted : Bool)
  | deliverToClient (i : Nat)
  | clientTimeout
  | serverTimeout
  | clientSends (h : TcpHeader)
  | serverSends (h : TcpHeader)

/-- Data or an ACK of the established connection. -/
def ofConnection (h : TcpHeader) : Bool := h.tcpflags = ACK || h.tcpflags = 0

/-- A segment at the server: at the forked socket while that has an end point, else at
the listener, which may fork another one. -/
def atServer (profile : BuildProfile) (now : BitVec 32) (h : TcpHeader) (accepted : Bool)
    (s : System) : Option System :=
  match s.server.filter (·.hasEndPoint) with
  | some server => do
      let (server, sent) ← doForwardUp profile now h server
      return { s with server := some server, toClient := s.toClient ++ sent }
  | none => do
      let (l, child) ← forwardListen profile s.listener.options ⟨h, accepted⟩
      let s := { s with listener := { s.listener with options := l } }
      match child with
      | none => return s
      | some o =>
        let (server, sent) ← completeFork profile now h
          { s.listener with options := o, retxEvent := none }
        return { s with server := some server, toClient := s.toClient ++ sent }

def step (profile : BuildProfile) (s : System) (event : BitVec 32 × Event) : Option System :=
  match event.2 with
  | .deliverToServer i accepted =>
    match s.toServer[i]? with
    | some h => atServer profile event.1 h accepted s
    | none => some s
  | .deliverToClient i =>
    match s.toClient[i]?, s.client.hasEndPoint with
    | some h, true => do
        let (client, sent) ← doForwardUp profile event.1 h s.client
        return { s with client := client, toServer := s.toServer ++ sent }
    | _, _ => some s
  | .clientTimeout => do
      let (client, sent) ← synTimeout profile event.1 s.client
      return { s with client := client, toServer := s.toServer ++ sent }
  | .serverTimeout =>
    match s.server with
    | some server => do
        let (server, sent) ← synTimeout profile event.1 server
        return { s with server := some server, toClient := s.toClient ++ sent }
    | none => some s
  | .clientSends h =>
    if s.client.state = .established ∧ ofConnection h then
      some { s with toServer := s.toServer ++ [h] }
    else some s
  | .serverSends h =>
    match s.server with
    | some server =>
      if server.state = .established ∧ ofConnection h then
        some { s with toClient := s.toClient ++ [h] }
      else some s
    | none => some s

/-- The client calls `Connect`; the listener waits. -/
def start (profile : BuildProfile) (now : BitVec 32) (client listener : HandshakeSocket) :
    Option System := do
  let (client, sent) ← doConnect profile now client
  return { client := client, listener := listener, toServer := sent }

/-- Each end shifts what it advertises as the other shifts what it reads. -/
def Agree (client server : HandshakeSocket) : Prop :=
  client.options.rcvWindShift = server.options.sndWindShift ∧
    server.options.rcvWindShift = client.options.sndWindShift

end Handshake

end Ns3.TcpSocketBase
