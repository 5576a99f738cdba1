import Ns3.Internet.TcpSocketBase.Options
import Ns3.Library.Run

/-!
# The options of the sockets a listener forks

`DoForwardUp` reads the options of a SYN on the listening socket, before
`ProcessListen` copies that socket. The listener is thus changed by each client,
and what a forked socket negotiates may depend on the clients before it.

An option stays enabled only as long as every SYN carries it, and the window scale
stored is the last one before the first SYN without one. This decides exactly when
two histories are the same for the next client.
-/

namespace Ns3.TcpSocketBase

namespace OptionState

/-- What a connection has negotiated. -/
structure Negotiated where
  winScalingEnabled : Bool
  sndWindShift : Byte
  sackEnabled : Bool
  txBufferSackEnabled : Bool
  timestampEnabled : Bool
  congestionWindowEnabled : Bool
  deriving DecidableEq

def negotiated (s : OptionState) : Negotiated :=
  { winScalingEnabled := s.winScalingEnabled
    sndWindShift := s.sndWindShift
    sackEnabled := s.sackEnabled
    txBufferSackEnabled := s.txBufferSackEnabled
    timestampEnabled := s.timestampEnabled
    congestionWindowEnabled := s.congestionWindowEnabled }

end OptionState

open OptionState

/-- A connection request: the SYN, and whether `NotifyConnectionRequest` accepts it. -/
structure Request where
  header : TcpHeader
  accepted : Bool

/-- `Fork`: the copy constructors of the socket and of its `TcpSocketState`, which
leave some members at their initial values. -/
def fork (s : OptionState) : OptionState :=
  { s with highTxAck := ⟨0⟩, rcvCwndValue := 0, cwndDiff := 0, cWndInfl := 0 }

/-- `ProcessListen`: the socket forked, if any. -/
def processListen (r : Request) (s : OptionState) : Option OptionState :=
  if r.header.tcpflags ≠ TcpHeader.SYN then none
  else if !r.accepted then none
  else some (fork s)

/-- `DoForwardUp` of a listening socket: the socket after it, and the one forked. -/
def forwardListen (profile : BuildProfile) (s : OptionState) (r : Request) :
    Option (OptionState × Option OptionState) :=
  (forwardOptions profile .listen r.header s).map fun
    | .inl t => (t, processListen r t)
    | .inr t => (t, none)

/-- One request, as a step of the listening socket. -/
def serve (profile : BuildProfile) (s : OptionState) (r : Request) : Option OptionState :=
  (forwardListen profile s r).map Prod.fst

/-- The socket forked for a request. -/
def forked (profile : BuildProfile) (s : OptionState) (r : Request) : Option OptionState :=
  (forwardListen profile s r).bind Prod.snd

/-- The window scale a header announces. -/
def announcedScale (h : TcpHeader) : Byte :=
  match h.getOption TcpOption.WINSCALE with
  | some (.winScale scale) => cappedScale scale
  | _ => 0

/-! ## One SYN -/

/-- What the options of a SYN do to the members a fork copies. -/
structure Reads (h : TcpHeader) (s t : OptionState) : Prop where
  winScaling : t.winScalingEnabled = (s.winScalingEnabled && h.hasOption TcpOption.WINSCALE)
  shift : t.sndWindShift =
    if s.winScalingEnabled && h.hasOption TcpOption.WINSCALE then announcedScale h
    else s.sndWindShift
  sack : t.sackEnabled = (s.sackEnabled && h.hasOption TcpOption.SACKPERMITTED)
  txBufferSack : t.txBufferSackEnabled =
    (s.txBufferSackEnabled && (s.sackEnabled && h.hasOption TcpOption.SACKPERMITTED))
  timestamp : t.timestampEnabled = (s.timestampEnabled && h.hasOption TcpOption.TS)
  congestionWindow :
    t.congestionWindowEnabled = (s.congestionWindowEnabled && h.hasOption TcpOption.CWND)
  rcvWindShift : t.rcvWindShift = s.rcvWindShift
  maxWinSize : t.maxWinSize = s.maxWinSize
  maxBufferSize : t.maxBufferSize = s.maxBufferSize

section Syn

variable {profile : BuildProfile} {h : TcpHeader} {s t : OptionState}

theorem synWinScale_eq_some (run : synWinScale profile h s = some t) :
    t = { s with
      winScalingEnabled := s.winScalingEnabled && h.hasOption TcpOption.WINSCALE
      sndWindShift := if s.winScalingEnabled && h.hasOption TcpOption.WINSCALE then
        announcedScale h else s.sndWindShift } := by
  unfold synWinScale at run
  rw [Bool.and_comm] at run
  split at run
  case isTrue carried =>
    obtain ⟨enabled, present⟩ := Bool.and_eq_true_iff.mp carried
    obtain ⟨o, found, kind⟩ := TcpHeader.exists_getOption present
    obtain ⟨scale, rfl⟩ := TcpOption.eq_winScale kind
    rw [found] at run
    simp only [processOptionWScale, getScale, bind_returns, pure_returns] at run
    obtain ⟨_, ⟨_, _, rfl⟩, rfl⟩ := run
    simp [announcedScale, found, enabled, present]
  case isFalse absent =>
    cases run
    rw [Bool.eq_false_of_not_eq_true absent, if_neg Bool.false_ne_true]

theorem synSackPermitted_eq_some (run : synSackPermitted profile h s = some t) :
    t = { s with
      sackEnabled := s.sackEnabled && h.hasOption TcpOption.SACKPERMITTED
      txBufferSackEnabled :=
        s.txBufferSackEnabled && (s.sackEnabled && h.hasOption TcpOption.SACKPERMITTED) } := by
  unfold synSackPermitted at run
  rw [Bool.and_comm] at run
  split at run
  case isTrue carried =>
    simp only [processOptionSackPermitted, bind_returns, pure_returns] at run
    obtain ⟨_, _, rfl⟩ := run
    obtain ⟨enabled, -⟩ := Bool.and_eq_true_iff.mp carried
    rw [carried, Bool.and_true, ← enabled]
  case isFalse absent =>
    cases run
    rw [Bool.eq_false_of_not_eq_true absent, Bool.and_false]

theorem processOptionTimestamp_eq_some {option : Option TcpOption} {seq : SequenceNumber32}
    (run : processOptionTimestamp option seq s = some t) :
    ∃ value echo back, t = { s with
      rcvTimestampValue := value, rcvTimestampEchoReply := echo, timestampToEcho := back } := by
  unfold processOptionTimestamp at run
  split at run
  · split at run
    · cases run
      exact ⟨_, _, _, rfl⟩
    · cases run
      exact ⟨_, _, _, rfl⟩
  · cases run

theorem synTimestamp_eq_some (run : synTimestamp h s = some t) :
    ∃ value echo back, t = { s with
      timestampEnabled := s.timestampEnabled && h.hasOption TcpOption.TS
      rcvTimestampValue := value, rcvTimestampEchoReply := echo, timestampToEcho := back } := by
  unfold synTimestamp at run
  rw [Bool.and_comm] at run
  split at run
  case isTrue carried =>
    obtain ⟨value, echo, back, rfl⟩ := processOptionTimestamp_eq_some run
    obtain ⟨enabled, present⟩ := Bool.and_eq_true_iff.mp carried
    refine ⟨value, echo, back, ?_⟩
    simp [enabled, present]
  case isFalse absent =>
    cases run
    refine ⟨s.rcvTimestampValue, s.rcvTimestampEchoReply, s.timestampToEcho, ?_⟩
    rw [Bool.eq_false_of_not_eq_true absent]

theorem segmentCongestionWindow_eq_some (run : segmentCongestionWindow h s = some t) :
    ∃ value diff, t = { s with
      congestionWindowEnabled := s.congestionWindowEnabled && h.hasOption TcpOption.CWND
      rcvCwndValue := value, cwndDiff := diff } := by
  unfold segmentCongestionWindow at run
  rw [Bool.and_comm] at run
  split at run
  case isTrue carried =>
    obtain ⟨enabled, present⟩ := Bool.and_eq_true_iff.mp carried
    obtain ⟨o, found, kind⟩ := TcpHeader.exists_getOption present
    obtain ⟨value, rfl⟩ := TcpOption.eq_cwnd kind
    rw [found] at run
    cases run
    refine ⟨value, value - s.rcvCwndValue, ?_⟩
    simp [enabled, present]
  case isFalse absent =>
    cases run
    refine ⟨s.rcvCwndValue, s.cwndDiff, ?_⟩
    rw [Bool.eq_false_of_not_eq_true absent]

theorem Reads.of_forwardSyn (run : forwardSyn profile h s = some t) : Reads h s t := by
  simp only [forwardSyn, bind_returns, pure_returns] at run
  obtain ⟨a, scale, b, sack, c, ts, d, cwnd, rfl⟩ := run
  obtain rfl := synWinScale_eq_some scale
  obtain rfl := synSackPermitted_eq_some sack
  obtain ⟨_, _, _, rfl⟩ := synTimestamp_eq_some ts
  obtain ⟨_, _, rfl⟩ := segmentCongestionWindow_eq_some cwnd
  exact ⟨rfl, rfl, rfl, rfl, rfl, rfl, rfl, rfl, rfl⟩

end Syn

/-! ## A history of requests -/

/-- Every request of the history carries the option. -/
def allCarry (kind : Byte) (history : List Request) : Bool :=
  history.all fun r => r.header.hasOption kind

/-- The shift a listener holds after a history: the last scale before the first SYN
that carries none. -/
def storedShift (enabled : Bool) : Byte → List Request → Byte
  | shift, [] => shift
  | shift, r :: rest =>
    if enabled && r.header.hasOption TcpOption.WINSCALE then
      storedShift true (announcedScale r.header) rest
    else shift

@[simp] theorem storedShift_false (shift : Byte) (history : List Request) :
    storedShift false shift history = shift := by
  cases history <;> rfl

section History

variable {profile : BuildProfile} {r : Request} {history : List Request} {s t f : OptionState}

theorem Reads.of_serve (syn : r.header.hasFlag TcpHeader.SYN = true)
    (run : serve profile s r = some t) : Reads r.header s t := by
  simp only [serve, forwardListen, forwardOptions, if_pos syn, Option.map_map,
    Option.map_eq_some_iff] at run
  obtain ⟨u, reads, rfl⟩ := run
  exact .of_forwardSyn reads

theorem processListen_eq_some : processListen r t = some f ↔
    r.header.tcpflags = TcpHeader.SYN ∧ r.accepted = true ∧ fork t = f := by
  unfold processListen
  split
  case isTrue other => simp [other]
  case isFalse syn =>
    rw [ne_eq, Decidable.not_not] at syn
    cases accepted : r.accepted <;> simp [syn]

theorem Reads.of_forked (run : forked profile s r = some f) :
    ∃ t, Reads r.header s t ∧ f.negotiated = t.negotiated := by
  simp only [forked, forwardListen, Option.bind_eq_some_iff, Option.map_eq_some_iff] at run
  obtain ⟨_, ⟨read | dropped, reads, rfl⟩, copied⟩ := run
  · obtain ⟨syn, -, rfl⟩ := processListen_eq_some.mp copied
    rw [forwardOptions, if_pos (TcpHeader.hasFlag_syn syn)] at reads
    obtain ⟨t, returns, same⟩ := Option.map_eq_some_iff.mp reads
    obtain rfl := Sum.inl.inj same
    exact ⟨t, .of_forwardSyn returns, rfl⟩
  · cases copied

variable (syns : ∀ r ∈ history, r.header.hasFlag TcpHeader.SYN = true)
  (run : Run.exec (serve profile) s history = some t)

include syns run

theorem winScaling_after :
    t.winScalingEnabled = (s.winScalingEnabled && allCarry TcpOption.WINSCALE history) :=
  Run.exec_and syns (fun _ _ _ syn returns => (Reads.of_serve syn returns).winScaling) run

theorem sack_after :
    t.sackEnabled = (s.sackEnabled && allCarry TcpOption.SACKPERMITTED history) :=
  Run.exec_and syns (fun _ _ _ syn returns => (Reads.of_serve syn returns).sack) run

/-- The flag of the transmit buffer is cleared with the socket's own. -/
theorem txBufferSack_after : (t.txBufferSackEnabled && t.sackEnabled) =
    (s.txBufferSackEnabled && s.sackEnabled && allCarry TcpOption.SACKPERMITTED history) := by
  have each : ∀ s r t, r.header.hasFlag TcpHeader.SYN = true → serve profile s r = some t →
      (t.txBufferSackEnabled && t.sackEnabled) =
        (s.txBufferSackEnabled && s.sackEnabled && r.header.hasOption TcpOption.SACKPERMITTED) := by
    intro s r t syn returns
    have reads := Reads.of_serve syn returns
    rw [reads.txBufferSack, reads.sack, Bool.and_assoc, Bool.and_self, Bool.and_assoc]
  exact Run.exec_and syns each run

theorem shift_after :
    t.sndWindShift = storedShift s.winScalingEnabled s.sndWindShift history := by
  induction history generalizing s with
  | nil =>
    cases run
    rfl
  | cons r rest ih =>
    obtain ⟨m, first, later⟩ := Run.exec_cons_eq_some.mp run
    have reads := Reads.of_serve (syns r List.mem_cons_self) first
    have stored := ih (fun o member => syns o (List.mem_cons_of_mem r member)) later
    rw [stored, reads.winScaling, reads.shift, storedShift]
    cases s.winScalingEnabled && r.header.hasOption TcpOption.WINSCALE with
    | true => rfl
    | false => exact storedShift_false _ _

theorem timestamp_after :
    t.timestampEnabled = (s.timestampEnabled && allCarry TcpOption.TS history) :=
  Run.exec_and syns (fun _ _ _ syn returns => (Reads.of_serve syn returns).timestamp) run

theorem congestionWindow_after :
    t.congestionWindowEnabled =
      (s.congestionWindowEnabled && allCarry TcpOption.CWND history) :=
  Run.exec_and syns (fun _ _ _ syn returns => (Reads.of_serve syn returns).congestionWindow) run

end History

/-! ## Two histories -/

/-- What the next client gets from a listener with this history. -/
def negotiatedAfter (listener : OptionState) (history : List Request) (new : TcpHeader) :
    Negotiated :=
  { winScalingEnabled := listener.winScalingEnabled && allCarry TcpOption.WINSCALE history &&
      new.hasOption TcpOption.WINSCALE
    sndWindShift :=
      if listener.winScalingEnabled && allCarry TcpOption.WINSCALE history &&
          new.hasOption TcpOption.WINSCALE then announcedScale new
      else storedShift listener.winScalingEnabled listener.sndWindShift history
    sackEnabled := listener.sackEnabled && allCarry TcpOption.SACKPERMITTED history &&
      new.hasOption TcpOption.SACKPERMITTED
    txBufferSackEnabled := listener.txBufferSackEnabled && listener.sackEnabled &&
      allCarry TcpOption.SACKPERMITTED history && new.hasOption TcpOption.SACKPERMITTED
    timestampEnabled := listener.timestampEnabled && allCarry TcpOption.TS history &&
      new.hasOption TcpOption.TS
    congestionWindowEnabled := listener.congestionWindowEnabled &&
      allCarry TcpOption.CWND history && new.hasOption TcpOption.CWND }

theorem negotiated_eq {profile : BuildProfile} {listener l f : OptionState}
    {history : List Request} {new : Request}
    (syns : ∀ r ∈ history, r.header.hasFlag TcpHeader.SYN = true)
    (run : Run.exec (serve profile) listener history = some l)
    (forks : forked profile l new = some f) :
    f.negotiated = negotiatedAfter listener history new.header := by
  obtain ⟨t, reads, copied⟩ := Reads.of_forked forks
  rw [copied, negotiated, negotiatedAfter, reads.winScaling, reads.shift, reads.sack,
    reads.txBufferSack, reads.timestamp, reads.congestionWindow, ← Bool.and_assoc,
    winScaling_after syns run, txBufferSack_after syns run, sack_after syns run,
    timestamp_after syns run, congestionWindow_after syns run, shift_after syns run]

/-- The next client cannot tell the histories apart: no option that it shares with the
listener was switched off in only one of them, and it does not inherit different
window scales. -/
structure Alike (listener : OptionState) (h₁ h₂ : List Request) (new : TcpHeader) : Prop where
  winScale : listener.winScalingEnabled = true → new.hasOption TcpOption.WINSCALE = true →
    allCarry TcpOption.WINSCALE h₁ = allCarry TcpOption.WINSCALE h₂
  sackPermitted : listener.sackEnabled = true → new.hasOption TcpOption.SACKPERMITTED = true →
    allCarry TcpOption.SACKPERMITTED h₁ = allCarry TcpOption.SACKPERMITTED h₂
  timestamp : listener.timestampEnabled = true → new.hasOption TcpOption.TS = true →
    allCarry TcpOption.TS h₁ = allCarry TcpOption.TS h₂
  congestionWindow : listener.congestionWindowEnabled = true →
    new.hasOption TcpOption.CWND = true →
    allCarry TcpOption.CWND h₁ = allCarry TcpOption.CWND h₂
  shift : (listener.winScalingEnabled && allCarry TcpOption.WINSCALE h₁ &&
      new.hasOption TcpOption.WINSCALE) = true ∨
    storedShift listener.winScalingEnabled listener.sndWindShift h₁ =
      storedShift listener.winScalingEnabled listener.sndWindShift h₂

theorem flag_eq_iff (enabled carried₁ carried₂ present : Bool) :
    (enabled && carried₁ && present) = (enabled && carried₂ && present) ↔
      (enabled = true → present = true → carried₁ = carried₂) := by
  cases enabled <;> cases present <;> simp

/-- Sockets forked for one SYN after two histories negotiate the same if and only if
the histories are alike for it. -/
theorem forked_negotiated_iff {profile : BuildProfile} {listener l₁ l₂ f₁ f₂ : OptionState}
    {h₁ h₂ : List Request} {new : Request}
    (syns₁ : ∀ r ∈ h₁, r.header.hasFlag TcpHeader.SYN = true)
    (syns₂ : ∀ r ∈ h₂, r.header.hasFlag TcpHeader.SYN = true)
    (run₁ : Run.exec (serve profile) listener h₁ = some l₁)
    (run₂ : Run.exec (serve profile) listener h₂ = some l₂)
    (forks₁ : forked profile l₁ new = some f₁) (forks₂ : forked profile l₂ new = some f₂) :
    f₁.negotiated = f₂.negotiated ↔ Alike listener h₁ h₂ new.header := by
  rw [negotiated_eq syns₁ run₁ forks₁, negotiated_eq syns₂ run₂ forks₂, negotiatedAfter,
    negotiatedAfter, Negotiated.mk.injEq, flag_eq_iff, flag_eq_iff, flag_eq_iff, flag_eq_iff,
    flag_eq_iff]
  constructor
  · rintro ⟨winScale, shift, sack, -, timestamp, congestionWindow⟩
    refine ⟨winScale, sack, timestamp, congestionWindow, ?_⟩
    rw [← (flag_eq_iff _ _ _ _).mpr winScale] at shift
    split at shift
    case isTrue taken => exact .inl taken
    case isFalse => exact .inr shift
  · intro alike
    refine ⟨alike.winScale, ?_, alike.sackPermitted, ?_, alike.timestamp, alike.congestionWindow⟩
    · rw [← (flag_eq_iff _ _ _ _).mpr alike.winScale]
      split
      case isTrue => rfl
      case isFalse other => exact alike.shift.resolve_left other
    · intro both
      exact alike.sackPermitted (Bool.and_eq_true_iff.mp both).2

/-- A SYN with every option of the default configuration. -/
def fullSyn : Request :=
  { header :=
      { flags := TcpHeader.SYN, options := [.ts 1 0, .winScale 7, .sackPermitted] }
    accepted := true }

/-- A SYN without options. -/
def plainSyn : Request :=
  { header := { flags := TcpHeader.SYN }, accepted := true }

theorem forked_negotiated_iff_plain :
    ∃ l₁ l₂ f₁ f₂, Run.exec (serve .debug) {} [plainSyn] = some l₁ ∧
      Run.exec (serve .debug) {} [plainSyn, fullSyn] = some l₂ ∧
      forked .debug l₁ fullSyn = some f₁ ∧ forked .debug l₂ fullSyn = some f₂ ∧
      f₁.negotiated = f₂.negotiated := by
  have syns₁ : ∀ r ∈ [plainSyn], r.header.hasFlag TcpHeader.SYN = true := by decide
  have syns₂ : ∀ r ∈ [plainSyn, fullSyn], r.header.hasFlag TcpHeader.SYN = true := by decide
  refine ⟨_, _, _, _, rfl, rfl, rfl, rfl, ?_⟩
  refine (@forked_negotiated_iff .debug {} _ _ _ _ _ _ fullSyn syns₁ syns₂ rfl rfl rfl rfl).mpr ?_
  constructor
  · intro _ _
    rfl
  · intro _ _
    rfl
  · intro _ _
    rfl
  · intro _ _
    rfl
  · exact .inr rfl

/-- One client without options switches the window scale off for the next one. -/
theorem plain_syn_disables_options :
    ∃ l f₁ f₂, serve .debug {} plainSyn = some l ∧ forked .debug {} fullSyn = some f₁ ∧
      forked .debug l fullSyn = some f₂ ∧ f₁.negotiated ≠ f₂.negotiated := by
  refine ⟨_, _, _, rfl, rfl, rfl, ?_⟩
  decide

end Ns3.TcpSocketBase
