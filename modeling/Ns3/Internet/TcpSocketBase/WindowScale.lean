import Ns3.Internet.TcpSocketBase.Handshake

/-!
# When both ends use the same window shifts

The members that decide about scaling are followed through a whole handshake. Every
SYN of an end says the same, whatever is lost, repeated or overtaken, so the values
of both ends after the handshake depend on their configuration only.
-/

namespace Ns3.TcpSocketBase

open TcpHeader HandshakeSocket List Option

/-- The members that decide about window scaling. -/
@[ext] structure Scaling where
  enabled : Bool
  snd : Byte
  rcv : Byte
  maxWinSize : BitVec 16
  maxBufferSize : BitVec 32

namespace OptionState

def scaling (s : OptionState) : Scaling :=
  { enabled := s.winScalingEnabled
    snd := s.sndWindShift
    rcv := s.rcvWindShift
    maxWinSize := s.maxWinSize
    maxBufferSize := s.maxBufferSize }

end OptionState

open OptionState

/-- `CalculateWScale`, from the members it reads. -/
def Scaling.calculate (c : Scaling) : Byte :=
  cappedScale (BitVec.ofNat 8 (wScaleLoop c.maxWinSize.toNat c.maxBufferSize.toNat 0))

@[simp] theorem calculateWScale_eq (s : OptionState) : calculateWScale s = s.scaling.calculate :=
    rfl

theorem cappedScale_le (scale : Byte) : cappedScale scale ≤ 14 := by
  unfold cappedScale
  split
  · exact BitVec.le_refl _
  case isFalse small => exact BitVec.not_lt.mp small

theorem cappedScale_cappedScale (scale : Byte) : cappedScale
    (cappedScale scale) = cappedScale scale :=
  if_neg (BitVec.not_lt.mpr (cappedScale_le scale))

@[simp] theorem Scaling.cappedScale_calculate (c : Scaling) :
    cappedScale c.calculate = c.calculate := cappedScale_cappedScale _

/-! ## Options of a received segment -/

section Receive

variable {profile : BuildProfile} {state : TcpState} {h : TcpHeader} {s t : OptionState}

theorem Reads.scaling_eq (reads : Reads h s t) : t.scaling =
    { s.scaling with
      enabled := s.winScalingEnabled && h.hasOption TcpOption.WINSCALE
      snd := if s.winScalingEnabled && h.hasOption TcpOption.WINSCALE then announcedScale h
        else s.sndWindShift } := by
  simp only [scaling, reads.winScaling, reads.shift, reads.rcvWindShift, reads.maxWinSize,
    reads.maxBufferSize]

theorem updateWindowSize_scaling : (updateWindowSize state h s).scaling = s.scaling := by
  unfold updateWindowSize
  simp only
  split <;> rfl

variable {r : OptionState ⊕ OptionState}

theorem forwardAck_scaling (run : forwardAck state h s = some r) :
    (r.elim id id).scaling = s.scaling := by
  unfold forwardAck at run
  split at run
  · cases run
    rfl
  · simp only [bind_returns, pure_returns] at run
    obtain ⟨a, stamped, b, cwnd, rfl⟩ := run
    obtain ⟨_, _, rfl⟩ := segmentCongestionWindow_eq_some cwnd
    refine updateWindowSize_scaling.trans ?_
    unfold ackTimestamp at stamped
    split at stamped
    · obtain ⟨_, _, _, rfl⟩ := processOptionTimestamp_eq_some stamped
      rfl
    · cases stamped
      rfl

theorem forwardOptions_scaling
    (run : forwardOptions profile state h s = some r) (other : h.hasFlag SYN = false) :
    (r.elim id id).scaling = s.scaling := by
  rw [forwardOptions, if_neg (by rw [other]; exact Bool.false_ne_true)] at run
  split at run
  · exact forwardAck_scaling run
  · cases run
    rfl

theorem forwardOptions_syn
    (run : forwardOptions profile state h s = some r) (syn : h.hasFlag SYN = true) :
    ∃ t, r = .inl t ∧ Reads h s t := by
  rw [forwardOptions, if_pos syn] at run
  obtain ⟨t, reads, rfl⟩ := map_eq_some_iff.mp run
  exact ⟨t, rfl, .of_forwardSyn reads⟩

end Receive

/-! ## What a socket sends -/

section Send

variable {profile : BuildProfile} {now : BitVec 32} {flags : Byte} {s t : HandshakeSocket}
  {sent : List TcpHeader} {h : TcpHeader}

/-- The options of every segment leave room for those of a SYN. -/
theorem addOptions_spec (o : OptionState) (h : TcpHeader) (bare : h.options = [])
    (empty : h.optionsLen = 0) :
    (addOptions now o h).getOption TcpOption.WINSCALE = none ∧
      (addOptions now o h).optionsLen.toNat ≤ 16 ∧ (addOptions now o h).flags = h.flags := by
  have noTs (a b : BitVec 32) : (TcpOption.ts a b).getKind ≠ TcpOption.WINSCALE := by
    intro same
    simp [TcpOption.getKind, TcpOption.TS, TcpOption.WINSCALE] at same
  have noCwnd (a : BitVec 32) : (TcpOption.cwnd a).getKind ≠ TcpOption.WINSCALE := by
    intro same
    simp [TcpOption.getKind, TcpOption.CWND, TcpOption.WINSCALE] at same
  refine ⟨?_, ?_, ?_⟩
  · rw [addOptions, getOption_appendOptionIf_ne (noCwnd _), getOption_appendOptionIf_ne (noTs _ _),
      getOption, bare, find?_nil]
  · have start : h.optionsLen.toNat ≤ 0 := by
      rw [empty]
      decide
    exact optionsLen_appendOptionIf (optionsLen_appendOptionIf start)
  · rw [addOptions, appendOptionIf_flags, appendOptionIf_flags]

theorem addOptionSack_spec (sackList : SackList) (h : TcpHeader) :
    (addOptionSack sackList h).flags = h.flags ∧
      (addOptionSack sackList h).getOption TcpOption.WINSCALE = h.getOption TcpOption.WINSCALE := by
  have noSack (l : SackList) : (TcpOption.sack l).getKind ≠ TcpOption.WINSCALE := by
    intro same
    simp [TcpOption.getKind, TcpOption.SACK, TcpOption.WINSCALE] at same
  unfold addOptionSack
  simp only
  split
  · exact ⟨rfl, rfl⟩
  · exact ⟨appendOption_flags _ _, getOption_appendOption_ne (noSack _)⟩

theorem finishHeader_spec (h : TcpHeader) (s : HandshakeSocket) :
    (finishHeader h s).flags = h.flags ∧
      (finishHeader h s).getOption TcpOption.WINSCALE = h.getOption TcpOption.WINSCALE := by
  unfold finishHeader
  simp only
  split
  · exact addOptionSack_spec s.sackList _
  · exact ⟨rfl, rfl⟩

theorem transmit_timer {f : Byte} (timer : (transmit h s).1.retxEvent = some f) :
    s.retxEvent = some f ∨ f = h.flags ∧ (h.hasFlag SYN = true ∨ h.hasFlag FIN = true) := by
  change (if _ then some h.flags else s.retxEvent) = some f at timer
  split at timer
  case isTrue starts =>
    cases timer
    exact .inr ⟨rfl, starts.2.1⟩
  case isFalse => exact .inl timer

/-- The window scale option of a SYN. -/
def scaleOption (c : Scaling) : Option TcpOption :=
  if c.enabled then some (.winScale c.calculate) else none

/-- The members of scaling after a SYN was sent. -/
def Scaling.announced (c : Scaling) : Scaling :=
  { c with rcv := if c.enabled then c.calculate else c.rcv }

theorem addScaleOption_spec {o o' : OptionState} {g : TcpHeader}
    (absent : h.getOption TcpOption.WINSCALE = none) (room : h.optionsLen.toNat ≤ 16)
    (run : addScaleOption profile h o = some (g, o')) :
    g.flags = h.flags ∧ g.getOption TcpOption.WINSCALE = scaleOption o.scaling ∧
      o'.scaling = o.scaling.announced := by
  unfold addScaleOption at run
  split at run
  case isTrue enabled =>
    simp only [addOptionWScale, setScale, bind_returns, pure_returns, Prod.mk.injEq] at run
    obtain ⟨_, _, _, ⟨_, _, rfl⟩, rfl, rfl⟩ := run
    have fits : h.optionsLen.toNat + 3 ≤ maxOptionsLen :=
      (Nat.add_le_add_right room 3).trans (by decide)
    have on : o.scaling.enabled = true := enabled
    have notEnd : TcpOption.WINSCALE ≠ TcpOption.END := by decide
    rw [scaleOption, Scaling.announced, if_pos on, if_pos on]
    exact ⟨appendOption_flags _ _, getOption_appendOption_self rfl notEnd absent fits, rfl⟩
  case isFalse disabled =>
    cases run
    have off : ¬ o.scaling.enabled = true := disabled
    rw [scaleOption, Scaling.announced, if_neg off, if_neg off]
    exact ⟨rfl, absent, rfl⟩

theorem addSackOption_spec {o : OptionState} {g : TcpHeader}
    (run : addSackOption profile h o = some g) :
    g.flags = h.flags ∧ g.getOption TcpOption.WINSCALE = h.getOption TcpOption.WINSCALE := by
  unfold addSackOption at run
  split at run
  · simp only [addOptionSackPermitted, bind_returns, pure_returns] at run
    obtain ⟨_, _, rfl⟩ := run
    exact ⟨appendOption_flags _ _, getOption_appendOption_ne (by decide)⟩
  · cases run
    exact ⟨rfl, rfl⟩

/-- What `SendEmptyPacket` does with flags other than FIN. -/
structure Sends (flags : Byte) (s t : HandshakeSocket) (sent : List TcpHeader) : Prop where
  scaling : t.options.scaling =
    if s.hasEndPoint = true ∧ flags &&& SYN ≠ 0 then s.options.scaling.announced
    else s.options.scaling
  state : t.state = s.state ∨ t.state = .closed
  segment : ∀ g ∈ sent, g.flags = flags ∧
    (flags &&& SYN ≠ 0 → g.getOption TcpOption.WINSCALE = scaleOption s.options.scaling)
  timer : ∀ f, t.retxEvent = some f →
    t.state = s.state ∧ (s.retxEvent = some f ∨ f = flags ∧ flags &&& SYN ≠ 0)

theorem emptyHeader_spec (now : BitVec 32) (s : HandshakeSocket) (noFin : flags &&& FIN = 0) :
    (emptyHeader now flags s).flags = flags ∧
      (emptyHeader now flags s).getOption TcpOption.WINSCALE = none ∧
      (emptyHeader now flags s).optionsLen.toNat ≤ 16 := by
  have notFin : (flags &&& FIN != 0) = false := by
    rw [noFin]
    rfl
  unfold emptyHeader
  rw [notFin]
  simp only [Bool.false_eq_true, if_false]
  refine ⟨(addOptions_spec s.options _ ?_ ?_).2.2, (addOptions_spec s.options _ ?_ ?_).1,
    (addOptions_spec s.options _ ?_ ?_).2.1⟩
  all_goals rfl

theorem sendSyn_spec (syn : h.flags &&& SYN ≠ 0)
    (absent : h.getOption TcpOption.WINSCALE = none) (room : h.optionsLen.toNat ≤ 16)
    (here : s.hasEndPoint = true) (run : sendSyn profile h s = some (t, sent)) :
    Sends h.flags s t sent := by
  simp only [sendSyn, bind_returns, pure_returns] at run
  obtain ⟨⟨g, o⟩, scaled, k, permitted, finished⟩ := run
  obtain ⟨flags₁, option₁, scaling₁⟩ := addScaleOption_spec absent room scaled
  obtain ⟨flags₂, option₂⟩ := addSackOption_spec permitted
  have announced : o.scaling = if s.hasEndPoint = true ∧ h.flags &&& SYN ≠ 0 then
      s.options.scaling.announced else s.options.scaling := by
    rw [if_pos ⟨here, syn⟩, scaling₁]
  split at finished
  · cases finished
    refine ⟨announced, .inr rfl, nofun, ?_⟩
    intro f timer
    cases timer
  · obtain ⟨rfl, rfl⟩ := Prod.ext_iff.mp finished
    refine ⟨announced, .inl rfl, fun x member => ?_, fun f timer => ?_⟩
    · obtain rfl := mem_singleton.mp member
      obtain ⟨flags₃, option₃⟩ := finishHeader_spec k
        { s with options := o, synCount := s.synCount - 1 }
      refine ⟨flags₃.trans (flags₂.trans flags₁), fun _ => ?_⟩
      rw [option₃, option₂, option₁]
    · refine ⟨rfl, (transmit_timer timer).imp id fun starts => ?_⟩
      exact ⟨starts.1.trans (flags₂.trans flags₁), syn⟩

theorem sendEmptyPacket_spec (noFin : flags &&& FIN = 0)
    (run : sendEmptyPacket profile now flags s = some (t, sent)) : Sends flags s t sent := by
  obtain ⟨same, absent, room⟩ := emptyHeader_spec now s noFin
  unfold sendEmptyPacket at run
  split at run
  case isTrue gone =>
    cases run
    have noEndPoint : ¬ s.hasEndPoint = true := by simpa using gone
    exact ⟨(if_neg fun both => noEndPoint both.1).symm, .inl rfl,
      nofun, fun _ timer => ⟨rfl, .inl timer⟩⟩
  case isFalse here =>
    have endPoint : s.hasEndPoint = true := by simpa using here
    split at run
    case isTrue syn =>
      have bit : (emptyHeader now flags s).flags &&& SYN ≠ 0 := by simpa [hasFlag] using syn
      exact same ▸ sendSyn_spec bit absent room endPoint run
    case isFalse other =>
      obtain ⟨rfl, rfl⟩ := Prod.ext_iff.mp (some.inj run)
      have noSyn : ¬ flags &&& SYN ≠ 0 := by simpa [hasFlag, same] using other
      refine ⟨(if_neg fun both => noSyn both.2).symm, .inl rfl, fun x member => ?_,
        fun f timer => ?_⟩
      · obtain rfl := mem_singleton.mp member
        exact ⟨(finishHeader_spec _ s).1.trans same, fun bit => absurd bit noSyn⟩
      · refine ⟨rfl, (transmit_timer timer).imp id fun starts => ?_⟩
        have notFin : (emptyHeader now flags s).hasFlag FIN = false := by
          rw [hasFlag, same, noFin]
          rfl
        obtain syn | fin := starts.2
        · exact absurd syn other
        · exact absurd (notFin.symm.trans fin) Bool.false_ne_true

end Send

/-! ## One socket of the handshake -/

/-- The members of scaling after a SYN of an end with the members `c` was read. -/
def Scaling.heard (s c : Scaling) : Scaling :=
  { s with
    enabled := s.enabled && c.enabled
    snd := if (s.enabled && c.enabled) = true then c.calculate else s.snd }

@[simp] theorem Scaling.heard_heard (s c : Scaling) : (s.heard c).heard c = s.heard c := by
  unfold heard
  cases s.enabled <;> cases c.enabled <;> rfl

@[simp] theorem Scaling.announced_heard (s c : Scaling) :
    (s.heard c).announced.heard c = (s.heard c).announced := by
  unfold announced heard
  cases s.enabled <;> cases c.enabled <;> rfl

@[simp] theorem Scaling.announced_announced (s : Scaling) :
    s.announced.announced = s.announced := by
  unfold announced
  cases s.enabled <;> rfl

@[simp] theorem scaleOption_announced (c : Scaling) : scaleOption c.announced = scaleOption c := rfl

/-- A SYN that announces the scale of `c`. -/
theorem Reads.heard {h : TcpHeader} {s t : OptionState} {c : Scaling} (reads : Reads h s t)
    (offers : h.getOption TcpOption.WINSCALE = scaleOption c) : t.scaling = s.scaling.heard c := by
  have present : h.hasOption TcpOption.WINSCALE = c.enabled := by
    rw [hasOption, offers, scaleOption]
    cases c.enabled <;> rfl
  rw [reads.scaling_eq, present, Scaling.heard]
  cases enabled : c.enabled with
  | false => simp only [Bool.and_false, Bool.false_eq_true, if_false]; rfl
  | true =>
    have scale : announcedScale h = c.calculate := by
      rw [announcedScale, offers, scaleOption, if_pos enabled]
      exact c.cappedScale_calculate
    rw [scale]
    rfl

/-- A socket that has ended, perhaps with a reset. -/
structure Ended (t : HandshakeSocket) (sent : List TcpHeader) : Prop where
  state : t.state = .closed
  timer : t.retxEvent = none
  resets : ∀ g ∈ sent, g.flags = RST

/-- A socket that is established now, and may have sent an ACK. -/
structure Connected (s t : HandshakeSocket) (sent : List TcpHeader) : Prop where
  state : t.state = .established ∨ t.state = .closed
  scaling : t.options.scaling = s.options.scaling
  timer : t.retxEvent = none
  acks : ∀ g ∈ sent, g.flags = ACK

section Process

variable {profile : BuildProfile} {now : BitVec 32} {h : TcpHeader} {s t : HandshakeSocket}
  {sent : List TcpHeader}

theorem Ended.closeAndNotify (s : HandshakeSocket) : Ended s.closeAndNotify [] :=
  ⟨rfl, rfl, nofun⟩

theorem Ended.noSyn (ended : Ended t sent) : ∀ g ∈ sent, g.hasFlag SYN = false := by
  intro g member
  rw [hasFlag, ended.resets g member]
  rfl

theorem Ended.ne_synSent (ended : Ended t sent) : t.state ≠ .synSent := by
  rw [ended.state]
  decide

theorem Connected.ne_synSent (connected : Connected s t sent) : t.state ≠ .synSent := by
  obtain state | state := connected.state <;> rw [state] <;> decide

theorem Connected.noSyn (connected : Connected s t sent) : ∀ g ∈ sent, g.hasFlag SYN = false := by
  intro g member
  rw [hasFlag, connected.acks g member]
  rfl

theorem process_synSent (run : process profile now h s = some (t, sent))
    (state : s.state = .synSent) : processSynSent profile now h s = some (t, sent) := by
  rwa [process, state] at run

theorem process_synRcvd (run : process profile now h s = some (t, sent))
    (state : s.state = .synRcvd) : processSynRcvd profile now h s = some (t, sent) := by
  rwa [process, state] at run

theorem process_established (run : process profile now h s = some (t, sent))
    (state : s.state = .established) : processEstablished profile now h s = some (t, sent) := by
  rwa [process, state] at run

theorem process_other (run : process profile now h s = some (t, sent))
    (notSent : s.state ≠ .synSent) (notRcvd : s.state ≠ .synRcvd)
    (notConnected : s.state ≠ .established) : t = s ∧ sent = [] := by
  unfold process at run
  split at run
  · exact absurd ‹_› notSent
  · exact absurd ‹_› notRcvd
  · exact absurd ‹_› notConnected
  · cases run
    exact ⟨rfl, rfl⟩

theorem Ended.of_reset (run : reset profile now s = some (t, sent)) : Ended t sent := by
  simp only [reset, bind_returns, pure_returns, Prod.mk.injEq] at run
  obtain ⟨⟨u, out⟩, sends, rfl, rfl⟩ := run
  have spec := sendEmptyPacket_spec (by decide) sends
  exact ⟨rfl, rfl, fun g member => (spec.segment g member).1⟩

theorem not_bare (bit : h.hasFlag SYN = true ∨ h.hasFlag RST = true) :
    h.flags &&& ~~~(PSH ||| URG) ≠ 0 := by
  have all : ∀ flags : Byte, (flags &&& SYN != 0) = true ∨ (flags &&& RST != 0) = true →
      flags &&& ~~~(PSH ||| URG) ≠ 0 := by
    decide
  exact all h.flags bit

/-- The client gets the answer to its SYN. -/
theorem processSynSent_synAck (syn : h.hasFlag SYN = true) (ack : h.hasFlag ACK = true)
    (run : processSynSent profile now h s = some (t, sent)) :
    Connected s t sent ∨ Ended t sent := by
  unfold processSynSent at run
  rw [if_neg (not_bare (.inl syn)), syn, ack] at run
  simp only [Bool.not_true, Bool.and_false, Bool.false_eq_true, if_false] at run
  split at run
  case isTrue =>
    have spec := sendEmptyPacket_spec (by decide) run
    have noSyn : ¬ ACK &&& SYN ≠ 0 := by decide
    refine .inl ⟨spec.state, ?_, ?_, fun g member => (spec.segment g member).1⟩
    · rw [spec.scaling, if_neg fun both => noSyn both.2]
      rfl
    · cases timer : t.retxEvent with
      | none => rfl
      | some f =>
        obtain pending | started := (spec.timer f timer).2
        · cases pending
        · exact absurd started.2 noSyn
  case isFalse =>
    split at run
    · cases run
      exact .inr (.closeAndNotify s)
    · exact .inr (.of_reset run)

theorem processSynSent_rst (noSyn : h.hasFlag SYN = false) (rst : h.hasFlag RST = true)
    (run : processSynSent profile now h s = some (t, sent)) :
    t = s ∧ sent = [] ∨ Ended t sent := by
  unfold processSynSent at run
  rw [if_neg (not_bare (.inr rst)), noSyn, rst] at run
  cases ack : h.hasFlag ACK with
  | true =>
    rw [ack] at run
    cases run
    exact .inl ⟨rfl, rfl⟩
  | false =>
    simp only [ack, Bool.not_false, Bool.and_true, Bool.false_eq_true, Bool.or_self, if_false,
      false_and, if_true] at run
    cases run
    exact .inr (.closeAndNotify s)

theorem processEstablished_spec (run : processEstablished profile now h s = some (t, sent)) :
    t = s ∧ sent = [] ∨ t = { s with state := .closeWait } ∧ sent = [] ∨ Ended t sent := by
  unfold processEstablished at run
  split at run
  · cases run
    exact .inl ⟨rfl, rfl⟩
  · split at run
    · cases run
      exact .inr (.inl ⟨rfl, rfl⟩)
    · split at run
      · cases run
        exact .inr (.inr (.closeAndNotify s))
      · exact .inr (.inr (.of_reset run))

/-- The flags of an answer to a SYN. -/
def IsSynAck (flags : Byte) : Prop := flags = SYN ||| ACK ∨ flags = SYN ||| ACK ||| ECE

theorem synAckFlags_isSynAck (s : HandshakeSocket) (h : TcpHeader) :
    IsSynAck (synAckFlags s h) := by
  unfold synAckFlags
  split
  · exact .inr rfl
  · exact .inl rfl

theorem IsSynAck.bits {flags : Byte} (answer : IsSynAck flags) :
    flags &&& FIN = 0 ∧ flags &&& SYN ≠ 0 ∧ flags &&& ACK ≠ 0 := by
  obtain rfl | rfl := answer <;> decide

/-- A socket that has answered a SYN, or given up. -/
structure Answered (s t : HandshakeSocket) (sent : List TcpHeader) : Prop where
  scaling : t.options.scaling =
    if s.hasEndPoint = true then s.options.scaling.announced else s.options.scaling
  state : t.state = s.state ∨ t.state = .closed
  synAcks : ∀ g ∈ sent, g.hasFlag SYN = true ∧ g.hasFlag ACK = true ∧
    g.getOption TcpOption.WINSCALE = scaleOption s.options.scaling
  timer : ∀ f, t.retxEvent = some f →
    t.state = s.state ∧ (s.retxEvent = some f ∨ IsSynAck f)

theorem Answered.of_send {flags : Byte} (answer : IsSynAck flags)
    (run : sendEmptyPacket profile now flags s = some (t, sent)) : Answered s t sent := by
  obtain ⟨noFin, syn, ack⟩ := answer.bits
  have spec := sendEmptyPacket_spec noFin run
  refine ⟨?_, spec.state, fun g member => ?_, fun f timer => ?_⟩
  · rw [spec.scaling]
    simp only [syn, ne_eq, not_false_eq_true, and_true]
  · obtain ⟨same, option⟩ := spec.segment g member
    refine ⟨?_, ?_, option syn⟩
    · simpa [hasFlag, same] using syn
    · simpa [hasFlag, same] using ack
  · obtain ⟨state, timer⟩ := spec.timer f timer
    refine ⟨state, timer.imp id ?_⟩
    rintro ⟨rfl, -⟩
    exact answer

/-- What happens to a socket that waits for the last ACK of the handshake. -/
theorem processSynRcvd_spec (run : processSynRcvd profile now h s = some (t, sent)) :
    (h.hasFlag SYN = false ∧ t.state = .established ∧
        t.options.scaling = s.options.scaling ∧ t.retxEvent = none ∧ sent = []) ∨
      (∃ u, u.options.scaling = s.options.scaling ∧ u.state = s.state ∧
        u.retxEvent = s.retxEvent ∧ Answered u t sent) ∨
      (t.state = .closeWait ∧ t.retxEvent = none ∧ sent = []) ∨ t = s ∧ sent = [] ∨
      Ended t sent := by
  have bare : ∀ flags : Byte, flags &&& ~~~(PSH ||| URG ||| CWR ||| ECE) = 0 ∨
      flags &&& ~~~(PSH ||| URG ||| CWR ||| ECE) = ACK → (flags &&& SYN != 0) = false := by
    decide
  unfold processSynRcvd at run
  simp only at run
  split at run
  case isTrue done =>
    cases run
    exact .inl ⟨bare h.flags (done.imp id And.left), rfl, rfl, rfl, rfl⟩
  case isFalse =>
    split at run
    · exact .inr (.inl ⟨acceptSyn h s, rfl, rfl, rfl, .of_send (synAckFlags_isSynAck s h) run⟩)
    · split at run
      · split at run
        · cases run
          exact .inr (.inr (.inl ⟨rfl, rfl, rfl⟩))
        · cases run
          exact .inr (.inr (.inr (.inl ⟨rfl, rfl⟩)))
      · split at run
        · cases run
          exact .inr (.inr (.inr (.inr (.closeAndNotify s))))
        · exact .inr (.inr (.inr (.inr (.of_reset run))))

end Process

namespace Handshake

/-! ## Both ends -/

/-- What the client announces with its SYN. -/
def offer (client : Scaling) : Scaling := client.announced

/-- The members at the server once it has answered. -/
def answer (client listener : Scaling) : Scaling := (listener.heard (offer client)).announced

/-- The members at the client once it has the answer. -/
def final (client listener : Scaling) : Scaling := (offer client).heard (answer client listener)

/-- The invariant of the server's socket. -/
structure Serves (c l : Scaling) (server : HandshakeSocket) : Prop where
  scaling : server.state = .synRcvd ∨ server.state = .established →
    server.options.scaling = answer c l
  state : server.state ≠ .synSent
  timer : ∀ f, server.retxEvent = some f → server.state = .synRcvd ∧ IsSynAck f

/-- The invariant of the client's socket. -/
structure Asks (c l : Scaling) (client : HandshakeSocket) : Prop where
  waiting : client.state = .synSent → client.options.scaling = offer c
  done : client.state = .established → client.options.scaling = final c l
  state : client.state ≠ .synRcvd
  timer : ∀ f, client.retxEvent = some f →
    client.state = .synSent ∧ f &&& FIN = 0 ∧ f &&& SYN ≠ 0

/-- Every SYN of one end announces the same, and as long as the client waits for an
answer there is nothing but the handshake. -/
structure Shaking (c l : Scaling) (s : System) : Prop where
  client : Asks c l s.client
  listener : s.listener.options.scaling.heard (offer c) = l.heard (offer c)
  server : ∀ server, s.server = some server → Serves c l server
  toServer : ∀ h ∈ s.toServer, h.hasFlag SYN = true →
    h.getOption TcpOption.WINSCALE = scaleOption (offer c)
  toClient : ∀ h ∈ s.toClient, h.hasFlag SYN = true → h.hasFlag ACK = true ∧
    h.getOption TcpOption.WINSCALE = scaleOption (answer c l)
  asked : s.client.state = .synSent → ∀ h ∈ s.toServer, h.hasFlag SYN = true
  answered : s.client.state = .synSent →
    ∀ h ∈ s.toClient, h.hasFlag SYN = true ∨ h.hasFlag RST = true
  unconnected : s.client.state = .synSent →
    ∀ server, s.server = some server → server.state ≠ .established

section Steps

variable {profile : BuildProfile} {now : BitVec 32} {h : TcpHeader} {c l : Scaling}
  {s s' : System} {sent : List TcpHeader} {client server t : HandshakeSocket}

/-- A step of the client that announces nothing new. -/
theorem Shaking.clientMoves (inv : Shaking c l s) (asks : Asks c l t)
    (acks : ∀ g ∈ sent, g.hasFlag SYN = false)
    (waits : t.state = .synSent → s.client.state = .synSent ∧ sent = []) :
    Shaking c l { s with client := t, toServer := s.toServer ++ sent } where
  client := asks
  listener := inv.listener
  server := inv.server
  toServer := by
    intro g member syn
    obtain old | new := mem_append.mp member
    · exact inv.toServer g old syn
    · exact absurd ((acks g new).symm.trans syn) Bool.false_ne_true
  toClient := inv.toClient
  asked := by
    intro waiting
    obtain ⟨before, rfl⟩ := waits waiting
    rw [append_nil]
    exact inv.asked before
  answered := fun waiting => inv.answered (waits waiting).1
  unconnected := fun waiting => inv.unconnected (waits waiting).1

/-- A step of the server's socket. -/
theorem Shaking.serverMoves (inv : Shaking c l s) (serves : Serves c l t)
    (synAcks : ∀ g ∈ sent, g.hasFlag SYN = true → g.hasFlag ACK = true ∧
      g.getOption TcpOption.WINSCALE = scaleOption (answer c l))
    (early : s.client.state = .synSent → t.state ≠ .established ∧
      ∀ g ∈ sent, g.hasFlag SYN = true ∨ g.hasFlag RST = true) :
    Shaking c l { s with server := some t, toClient := s.toClient ++ sent } where
  client := inv.client
  listener := inv.listener
  server := by
    intro server same
    cases same
    exact serves
  toServer := inv.toServer
  toClient := by
    intro g member syn
    obtain old | new := mem_append.mp member
    · exact inv.toClient g old syn
    · exact synAcks g new syn
  asked := inv.asked
  answered := by
    intro waiting g member
    obtain old | new := mem_append.mp member
    · exact inv.answered waiting g old
    · exact (early waiting).2 g new
  unconnected := by
    intro waiting server same
    cases same
    exact (early waiting).1

theorem Asks.of_ended (ended : Ended t sent) : Asks c l t where
  waiting := fun waiting => absurd (ended.state.symm.trans waiting) (by decide)
  done := fun done => absurd (ended.state.symm.trans done) (by decide)
  state := by
    rw [ended.state]
    decide
  timer := by
    intro f timer
    rw [ended.timer] at timer
    cases timer

theorem Asks.of_connected (connected : Connected client t sent)
    (heard : client.options.scaling = final c l) : Asks c l t where
  waiting := by
    intro waits
    obtain state | state := connected.state <;> rw [state] at waits <;> cases waits
  done := fun _ => connected.scaling.trans heard
  state := by
    obtain state | state := connected.state <;> rw [state] <;> decide
  timer := by
    intro f timer
    rw [connected.timer] at timer
    cases timer

theorem Serves.of_ended (ended : Ended t sent) : Serves c l t where
  scaling := by
    rw [ended.state]
    rintro (wrong | wrong) <;> cases wrong
  state := by
    rw [ended.state]
    decide
  timer := by
    intro f timer
    rw [ended.timer] at timer
    cases timer

theorem forwardOptions_heard {state : TcpState} {o : OptionState} {r : OptionState ⊕ OptionState}
    {k : Scaling} (run : forwardOptions profile state h o = some r)
    (announces : h.hasFlag SYN = true → h.getOption TcpOption.WINSCALE = scaleOption k) :
    (r.elim id id).scaling = if h.hasFlag SYN = true then o.scaling.heard k else o.scaling := by
  cases syn : h.hasFlag SYN with
  | false => exact forwardOptions_scaling run syn
  | true =>
    obtain ⟨o', rfl, reads⟩ := forwardOptions_syn run syn
    exact reads.heard (announces syn)

/-- `DoForwardUp` is the options and then the state machine, or the options alone. -/
theorem doForwardUp_cases (run : doForwardUp profile now h client = some (t, sent)) :
    ∃ r, forwardOptions profile client.state h client.options = some r ∧
      (process profile now h { client with options := r.elim id id } = some (t, sent) ∨
        h.hasFlag SYN = false ∧ t = { client with options := r.elim id id } ∧ sent = []) := by
  simp only [doForwardUp, bind_returns] at run
  obtain ⟨r, read, rest⟩ := run
  refine ⟨r, read, ?_⟩
  cases r with
  | inl o => exact .inl rest
  | inr o =>
    cases rest
    refine .inr ⟨?_, rfl, rfl⟩
    by_contra syn
    obtain ⟨_, same, _⟩ := forwardOptions_syn read (Bool.eq_true_of_not_eq_false syn)
    cases same

theorem Asks.withOptions {o : OptionState} (asks : Asks c l client)
    (waiting : client.state = .synSent → o.scaling = offer c)
    (done : client.state = .established → o.scaling = final c l) :
    Asks c l { client with options := o } where
  waiting := waiting
  done := done
  state := asks.state
  timer := asks.timer

/-- The client on a segment it waits for, or a later one. -/
theorem Asks.receives (asks : Asks c l client)
    (answers : h.hasFlag SYN = true → h.hasFlag ACK = true ∧
      h.getOption TcpOption.WINSCALE = scaleOption (answer c l))
    (early : client.state = .synSent → h.hasFlag SYN = true ∨ h.hasFlag RST = true)
    (run : doForwardUp profile now h client = some (t, sent)) :
    Asks c l t ∧ (∀ g ∈ sent, g.hasFlag SYN = false) ∧
      (t.state = .synSent → client.state = .synSent ∧ sent = []) := by
  have noSegment : ∀ g ∈ ([] : List TcpHeader), g.hasFlag SYN = false := nofun
  obtain ⟨r, read, moves⟩ := doForwardUp_cases run
  have heard := forwardOptions_heard read fun syn => (answers syn).2
  have established (now : client.state = .established) : (r.elim id id).scaling = final c l := by
    rw [heard, asks.done now, final, Scaling.heard_heard, ite_self]
  obtain moves | ⟨noSyn, rfl, rfl⟩ := moves
  case inr =>
    rw [noSyn, if_neg Bool.false_ne_true] at heard
    exact ⟨asks.withOptions (fun waits => heard.trans (asks.waiting waits)) established,
      noSegment, fun waits => ⟨waits, rfl⟩⟩
  case inl =>
    cases state : client.state with
    | synSent =>
      have moves := process_synSent moves state
      cases syn : h.hasFlag SYN with
      | true =>
        rw [syn, if_pos rfl, asks.waiting state] at heard
        obtain connected | ended := processSynSent_synAck syn (answers syn).1 moves
        · exact ⟨.of_connected connected heard, connected.noSyn,
            fun waits => absurd waits connected.ne_synSent⟩
        · exact ⟨.of_ended ended, ended.noSyn, fun waits => absurd waits ended.ne_synSent⟩
      | false =>
        have rst := (early state).resolve_left fun set =>
          absurd (syn.symm.trans set) Bool.false_ne_true
        rw [syn, if_neg Bool.false_ne_true, asks.waiting state] at heard
        obtain ⟨rfl, rfl⟩ | ended := processSynSent_rst syn rst moves
        · exact ⟨asks.withOptions (fun _ => heard) established, noSegment,
            fun _ => ⟨rfl, rfl⟩⟩
        · exact ⟨.of_ended ended, ended.noSyn, fun waits => absurd waits ended.ne_synSent⟩
    | established =>
      have moves := process_established moves state
      have next := asks.withOptions
        (fun waits => absurd (state.symm.trans waits) (by decide)) established
      obtain ⟨rfl, rfl⟩ | ⟨rfl, rfl⟩ | ended := processEstablished_spec moves
      · exact ⟨next, noSegment, fun waits => absurd (state.symm.trans waits) (by decide)⟩
      · refine ⟨⟨nofun, nofun, nofun, fun f timer => ?_⟩, noSegment, nofun⟩
        exact absurd (state.symm.trans (asks.timer f timer).1) (by decide)
      · exact ⟨.of_ended ended, ended.noSyn, fun waits => absurd waits ended.ne_synSent⟩
    | _ =>
      obtain ⟨rfl, rfl⟩ := process_other moves (by simp [state]) asks.state (by simp [state])
      exact ⟨asks.withOptions (fun waits => absurd (state.symm.trans waits) (by decide))
        (fun done => absurd (state.symm.trans done) (by decide)), noSegment,
        fun waits => absurd (state.symm.trans waits) (by decide)⟩

/-- What a step of the server's socket gives, where `waits` says that the client still
waits for an answer. -/
structure ServerStep (c l : Scaling) (waits : Prop) (t : HandshakeSocket)
    (sent : List TcpHeader) : Prop where
  serves : Serves c l t
  synAcks : ∀ g ∈ sent, g.hasFlag SYN = true → g.hasFlag ACK = true ∧
    g.getOption TcpOption.WINSCALE = scaleOption (answer c l)
  early : waits → t.state ≠ .established ∧ ∀ g ∈ sent, g.hasFlag SYN = true ∨ g.hasFlag RST = true

variable {waits : Prop}

theorem ServerStep.of_ended (ended : Ended t sent) : ServerStep c l waits t sent where
  serves := .of_ended ended
  synAcks := fun g member syn => absurd ((ended.noSyn g member).symm.trans syn) Bool.false_ne_true
  early := by
    intro _
    refine ⟨?_, fun g member => .inr ?_⟩
    · rw [ended.state]
      decide
    · rw [hasFlag, ended.resets g member]
      rfl

theorem ServerStep.of_silent (serves : Serves c l t) (early : waits → t.state ≠ .established) :
    ServerStep c l waits t [] where
  serves := serves
  synAcks := nofun
  early := fun waiting => ⟨early waiting, nofun⟩

/-- A server that answers a SYN. -/
theorem ServerStep.of_answered (answered : Answered server t sent) (state : server.state = .synRcvd)
    (scaling : server.options.scaling = answer c l ∨
      server.options.scaling = l.heard (offer c) ∧ server.hasEndPoint = true)
    (timer : ∀ f, server.retxEvent = some f → IsSynAck f) : ServerStep c l waits t sent where
  serves :=
    { scaling := by
        intro _
        rw [answered.scaling]
        obtain before | ⟨fresh, here⟩ := scaling
        · rw [before, answer, Scaling.announced_announced, ite_self]
        · rw [fresh, if_pos here, answer]
      state := by
        obtain same | closed := answered.state
        · rw [same, state]
          decide
        · rw [closed]
          decide
      timer := by
        intro f pending
        obtain ⟨same, old | new⟩ := answered.timer f pending
        · exact ⟨same.trans state, timer f old⟩
        · exact ⟨same.trans state, new⟩ }
  synAcks := by
    intro g member _
    obtain ⟨_, ack, option⟩ := answered.synAcks g member
    refine ⟨ack, option.trans ?_⟩
    obtain before | ⟨fresh, -⟩ := scaling
    · rw [before]
    · rw [fresh, answer, scaleOption_announced]
  early := by
    intro _
    refine ⟨?_, fun g member => .inl (answered.synAcks g member).1⟩
    obtain same | closed := answered.state
    · rw [same, state]
      decide
    · rw [closed]
      decide

theorem Serves.withOptions {o : OptionState} (serves : Serves c l server)
    (scaling : server.state = .synRcvd ∨ server.state = .established → o.scaling = answer c l) :
    Serves c l { server with options := o } where
  scaling := scaling
  state := serves.state
  timer := serves.timer

/-- The server's socket on a segment of the client. -/
theorem Serves.receives (serves : Serves c l server)
    (asks : h.hasFlag SYN = true → h.getOption TcpOption.WINSCALE = scaleOption (offer c))
    (early : waits → h.hasFlag SYN = true ∧ server.state ≠ .established)
    (run : doForwardUp profile now h server = some (t, sent)) : ServerStep c l waits t sent := by
  obtain ⟨r, read, moves⟩ := doForwardUp_cases run
  have heard := forwardOptions_heard read asks
  have kept (handshake : server.state = .synRcvd ∨ server.state = .established) :
      (r.elim id id).scaling = answer c l := by
    rw [heard, serves.scaling handshake, answer, Scaling.announced_heard, ite_self]
  have next := serves.withOptions kept
  obtain moves | ⟨noSyn, rfl, rfl⟩ := moves
  case inr => exact .of_silent next fun waiting => (early waiting).2
  case inl =>
    cases state : server.state with
    | synRcvd =>
      obtain ⟨noSyn, done, same, timer, rfl⟩ | ⟨u, same, before, pending, answered⟩ |
          ⟨closing, timer, rfl⟩ | ⟨rfl, rfl⟩ | ended :=
        processSynRcvd_spec (process_synRcvd moves state)
      · refine .of_silent ⟨fun _ => same.trans (kept (.inl state)), ?_, fun f pending => ?_⟩
          fun waiting => absurd (noSyn.symm.trans (early waiting).1) Bool.false_ne_true
        · rw [done]
          decide
        · rw [timer] at pending
          cases pending
      · refine .of_answered answered (before.trans state)
          (.inl (same.trans (kept (.inl state)))) ?_
        intro f running
        exact (serves.timer f (pending.symm.trans running)).2
      · refine .of_silent ⟨fun handshake => ?_, ?_, fun f pending => ?_⟩ fun _ => ?_
        · rw [closing] at handshake
          obtain wrong | wrong := handshake <;> cases wrong
        · rw [closing]
          decide
        · rw [timer] at pending
          cases pending
        · rw [closing]
          decide
      · exact .of_silent next fun waiting => (early waiting).2
      · exact .of_ended ended
    | established =>
      obtain ⟨rfl, rfl⟩ | ⟨rfl, rfl⟩ | ended :=
        processEstablished_spec (process_established moves state)
      · exact .of_silent next fun waiting => (early waiting).2
      · refine .of_silent ⟨nofun, nofun, fun f timer => ?_⟩ nofun
        exact absurd (state.symm.trans (serves.timer f timer).1) (by decide)
      · exact .of_ended ended
    | _ =>
      obtain ⟨rfl, rfl⟩ := process_other moves serves.state (by simp [state]) (by simp [state])
      exact .of_silent next fun waiting => (early waiting).2

theorem Shaking.serverStep (inv : Shaking c l s)
    (moves : ServerStep c l (s.client.state = .synSent) t sent) :
    Shaking c l { s with server := some t, toClient := s.toClient ++ sent } :=
  inv.serverMoves moves.serves moves.synAcks moves.early

/-- The options of the listener after a segment, and those of the socket it forks. -/
theorem forwardListen_heard {o o' : OptionState} {child : Option OptionState} {accepted : Bool}
    (offers : h.hasFlag SYN = true → h.getOption TcpOption.WINSCALE = scaleOption (offer c))
    (run : forwardListen profile o ⟨h, accepted⟩ = some (o', child)) :
    o'.scaling.heard (offer c) = o.scaling.heard (offer c) ∧
      ∀ f, child = some f → f.scaling = o.scaling.heard (offer c) := by
  obtain ⟨r, read, same⟩ := map_eq_some_iff.mp run
  have heard := forwardOptions_heard read offers
  have repeated : (r.elim id id).scaling.heard (offer c) = o.scaling.heard (offer c) := by
    rw [heard]
    split
    · exact Scaling.heard_heard _ _
    · rfl
  cases r with
  | inl t =>
    cases same
    refine ⟨repeated, fun f forks => ?_⟩
    obtain ⟨syn, -, rfl⟩ := processListen_eq_some.mp forks
    rw [if_pos (hasFlag_syn syn)] at heard
    exact heard
  | inr t =>
    cases same
    exact ⟨repeated, nofun⟩

/-- A segment of the client at the server's side. -/
theorem Shaking.atServer (inv : Shaking c l s) (member : h ∈ s.toServer) {accepted : Bool}
    (run : atServer profile now h accepted s = some s') : Shaking c l s' := by
  unfold Handshake.atServer at run
  split at run
  case h_1 server here =>
    simp only [bind_returns, pure_returns] at run
    obtain ⟨⟨t, sent⟩, moves, rfl⟩ := run
    obtain ⟨same, -⟩ := filter_eq_some_iff.mp here
    have serves := inv.server server same
    refine inv.serverStep (serves.receives (inv.toServer h member) (fun waiting => ?_) moves)
    exact ⟨inv.asked waiting h member, inv.unconnected waiting server same⟩
  case h_2 =>
    simp only [bind_eq_bind, bind_eq_some_iff, Option.pure_def] at run
    obtain ⟨⟨o, child⟩, listens, forks⟩ := run
    obtain ⟨listener, children⟩ := forwardListen_heard (inv.toServer h member) listens
    have inv' : Shaking c l { s with listener := { s.listener with options := o } } :=
      { inv with listener := listener.trans inv.listener }
    cases child with
    | none =>
      cases forks
      exact inv'
    | some f =>
      simp only [bind_eq_some_iff, some.injEq] at forks
      obtain ⟨⟨t, sent⟩, completes, rfl⟩ := forks
      have fresh := (children f rfl).trans inv.listener
      exact inv'.serverStep (.of_answered (.of_send (synAckFlags_isSynAck _ h) completes) rfl
        (.inr ⟨fresh, rfl⟩) nofun)

/-- The SYN timer of the client. -/
theorem Shaking.clientTimeout (inv : Shaking c l s)
    (run : synTimeout profile now s.client = some (t, sent)) :
    Shaking c l { s with client := t, toServer := s.toServer ++ sent } := by
  unfold synTimeout at run
  split at run
  case h_2 =>
    cases run
    exact inv.clientMoves inv.client (nofun)
      fun waits => ⟨waits, rfl⟩
  case h_1 flags pending =>
    obtain ⟨state, noFin, syn⟩ := inv.client.timer flags pending
    have spec := sendEmptyPacket_spec noFin run
    have offers := inv.client.waiting state
    have scaling : t.options.scaling = offer c := by
      rw [spec.scaling]
      split
      · exact (congrArg Scaling.announced offers).trans (Scaling.announced_announced c)
      · exact offers
    have asks : Asks c l t := by
      refine ⟨fun _ => scaling, fun done => ?_, ?_, fun f timer => ?_⟩
      · obtain same | closed := spec.state
        · exact absurd ((same.trans state).symm.trans done) (by decide)
        · exact absurd (closed.symm.trans done) (by decide)
      · obtain same | closed := spec.state
        · rw [same]
          exact inv.client.state
        · rw [closed]
          decide
      · obtain ⟨same, old | ⟨rfl, -⟩⟩ := spec.timer f timer
        · cases old
        · exact ⟨same.trans state, noFin, syn⟩
    exact
      { client := asks
        listener := inv.listener
        server := inv.server
        toServer := by
          intro g member bit
          obtain old | new := mem_append.mp member
          · exact inv.toServer g old bit
          · exact ((spec.segment g new).2 syn).trans (congrArg scaleOption offers)
        toClient := inv.toClient
        asked := by
          intro _ g member
          obtain old | new := mem_append.mp member
          · exact inv.asked state g old
          · simpa [hasFlag, (spec.segment g new).1] using syn
        answered := fun _ => inv.answered state
        unconnected := fun _ => inv.unconnected state }

/-- The SYN timer of the server. -/
theorem Shaking.serverTimeout (inv : Shaking c l s) (here : s.server = some server)
    (run : synTimeout profile now server = some (t, sent)) :
    Shaking c l { s with server := some t, toClient := s.toClient ++ sent } := by
  have serves := inv.server server here
  unfold synTimeout at run
  split at run
  case h_2 =>
    cases run
    exact inv.serverStep (.of_silent serves fun waiting => inv.unconnected waiting _ here)
  case h_1 flags pending =>
    obtain ⟨state, answers⟩ := serves.timer flags pending
    exact inv.serverStep (.of_answered (.of_send answers run) state
      (.inl (serves.scaling (.inl state))) nofun)

theorem noSyn_of_connection (data : ofConnection h = true) : h.hasFlag SYN = false := by
  have all : ∀ flags : Byte,
      (flags &&& ~~~(PSH ||| URG ||| CWR ||| ECE) = ACK ∨
        flags &&& ~~~(PSH ||| URG ||| CWR ||| ECE) = 0) → (flags &&& SYN != 0) = false := by
    decide
  exact all h.flags (((Bool.or_eq_true _ _).mp data).imp of_decide_eq_true of_decide_eq_true)

/-- One event of the handshake or of the connection after it. -/
theorem Shaking.step (inv : Shaking c l s) {event : BitVec 32 × Event}
    (run : Handshake.step profile s event = some s') : Shaking c l s' := by
  obtain ⟨now, event⟩ := event
  cases event with
  | deliverToServer i accepted =>
    simp only [Handshake.step] at run
    split at run
    case h_1 h found => exact inv.atServer (mem_of_getElem? found) run
    case h_2 =>
      cases run
      exact inv
  | deliverToClient i =>
    simp only [Handshake.step, bind_eq_bind, Option.pure_def] at run
    split at run
    case h_1 h found _ =>
      simp only [bind_eq_some_iff, some.injEq] at run
      obtain ⟨⟨t, sent⟩, receives, rfl⟩ := run
      have member := mem_of_getElem? found
      obtain ⟨asks, noSyn, waits⟩ := inv.client.receives (inv.toClient h member)
        (fun waiting => inv.answered waiting h member) receives
      exact inv.clientMoves asks noSyn waits
    case h_2 =>
      cases run
      exact inv
  | clientTimeout =>
    simp only [Handshake.step, bind_returns, pure_returns] at run
    obtain ⟨⟨t, sent⟩, sends, rfl⟩ := run
    exact inv.clientTimeout sends
  | serverTimeout =>
    simp only [Handshake.step, bind_eq_bind, Option.pure_def] at run
    split at run
    case h_1 server here =>
      simp only [bind_eq_some_iff, some.injEq] at run
      obtain ⟨⟨t, sent⟩, sends, rfl⟩ := run
      exact inv.serverTimeout here sends
    case h_2 =>
      cases run
      exact inv
  | clientSends h =>
    simp only [Handshake.step] at run
    split at run
    case isTrue both =>
      cases run
      refine inv.clientMoves inv.client (fun g member => ?_) fun waits => ?_
      · obtain rfl := mem_singleton.mp member
        exact noSyn_of_connection both.2
      · exact absurd (both.1.symm.trans waits) (by decide)
    case isFalse =>
      cases run
      exact inv
  | serverSends h =>
    simp only [Handshake.step] at run
    split at run
    case h_1 server here =>
      split at run
      case isTrue both =>
        cases run
        have connected : s.client.state ≠ .synSent := fun waiting =>
          inv.unconnected waiting server here both.1
        refine { inv with toClient := fun g member syn => ?_, answered := fun waiting => ?_ }
        · obtain old | new := mem_append.mp member
          · exact inv.toClient g old syn
          · obtain rfl := mem_singleton.mp new
            exact absurd ((noSyn_of_connection both.2).symm.trans syn) Bool.false_ne_true
        · exact absurd waiting connected
      case isFalse =>
        cases run
        exact inv
    case h_2 =>
      cases run
      exact inv

/-- The invariant at the start: the client has sent its first SYN. -/
theorem Shaking.start {listener : HandshakeSocket} (endPoint : client.hasEndPoint = true)
    (idle : client.retxEvent = none)
    (run : Handshake.start profile now client listener = some s) :
    Shaking client.options.scaling listener.options.scaling s := by
  simp only [Handshake.start, doConnect, bind_returns, pure_returns] at run
  obtain ⟨⟨t, sent⟩, ⟨⟨u, out⟩, sends, same⟩, rfl⟩ := run
  cases same
  have bits : (if client.useEcn = .on then SYN ||| ECE ||| CWR else SYN) &&& FIN = 0 ∧
      (if client.useEcn = .on then SYN ||| ECE ||| CWR else SYN) &&& SYN ≠ 0 := by
    split <;> decide
  have spec := sendEmptyPacket_spec bits.1 sends
  have scaling : u.options.scaling = offer client.options.scaling := by
    rw [spec.scaling, if_pos ⟨endPoint, bits.2⟩, offer]
  exact
    { client :=
        { waiting := fun _ => scaling
          done := by
            intro wrong
            cases wrong
          state := by
            intro wrong
            cases wrong
          timer := by
            intro f timer
            obtain old | ⟨rfl, -⟩ := (spec.timer f timer).2
            · rw [idle] at old
              cases old
            · exact ⟨rfl, bits.1, bits.2⟩ }
      listener := rfl
      server := by
        intro server here
        cases here
      toServer := fun g member _ => (spec.segment g member).2 bits.2
      toClient := nofun
      asked := by
        intro _ g member
        simpa [hasFlag, (spec.segment g member).1] using bits.2
      answered := nofun
      unconnected := by
        intro _ server here
        cases here }

end Steps

/-! ## The condition -/

/-- What decides about the shifts: both ends scale and no earlier client has switched
that off at the listener, or the client announces what an earlier one left there. -/
def SameShift (client server : OptionState) (earlier : List Request) : Prop :=
  (client.winScalingEnabled = true ∧ server.winScalingEnabled = true ∧
      allCarry TcpOption.WINSCALE earlier = true) ∨
    (if client.winScalingEnabled then calculateWScale client else 0) =
      storedShift server.winScalingEnabled server.sndWindShift earlier

section Main

variable {profile : BuildProfile} {now : BitVec 32} {client server connected : HandshakeSocket}
  {earlier : List Request} {l : OptionState} {s₀ s : System} {events : List (BitVec 32 × Event)}

/-- A listener keeps its own shift and its sizes. -/
theorem sizes_after {o : OptionState} (syns : ∀ r ∈ earlier, r.header.hasFlag SYN = true)
    (served : Run.exec (serve profile) o earlier = some l) :
    l.rcvWindShift = o.rcvWindShift ∧ l.maxWinSize = o.maxWinSize ∧
      l.maxBufferSize = o.maxBufferSize := by
  induction earlier generalizing o with
  | nil =>
    cases served
    exact ⟨rfl, rfl, rfl⟩
  | cons r rest ih =>
    obtain ⟨m, first, later⟩ := Run.exec_cons_eq_some.mp served
    have reads := Reads.of_serve (syns r mem_cons_self) first
    obtain ⟨rcv, win, buffer⟩ := ih (fun o member => syns o (mem_cons_of_mem r member)) later
    exact ⟨rcv.trans reads.rcvWindShift, win.trans reads.maxWinSize,
      buffer.trans reads.maxBufferSize⟩

/-- The shifts that a handshake leaves at both ends. -/
theorem scaling_of_run (endPoint : client.hasEndPoint = true) (idle : client.retxEvent = none)
    (starts : start profile now client server = some s₀)
    (run : Run.exec (step profile) s₀ events = some s)
    (atClient : s.client.state = .established) (accepted : s.server = some connected)
    (atServer : connected.state = .established) :
    s.client.options.scaling = final client.options.scaling server.options.scaling ∧
      connected.options.scaling = answer client.options.scaling server.options.scaling := by
  have always : Run.Meets (step profile) (fun _ _ => True) s₀ events :=
    .of_forall (fun _ _ => trivial) _ _
  have inv := Run.invariant (Shaking.start endPoint idle starts) always
    (fun _ _ _ inv _ moves => Shaking.step inv moves) run
  exact ⟨inv.client.done atClient, (inv.server connected accepted).scaling (.inr atServer)⟩

/-- Two ends with the shifts of a handshake. -/
theorem agree_iff {c l : Scaling} (atEnd : client.options.scaling = final c l)
    (atFork : connected.options.scaling = answer c l) (same : l.rcv = c.snd) :
    Agree client connected ↔ (c.enabled = true ∧ l.enabled = true) ∨
      (if c.enabled then c.calculate else c.rcv) = l.snd := by
  have rcv : client.options.rcvWindShift = (final c l).rcv := congrArg Scaling.rcv atEnd
  have snd : client.options.sndWindShift = (final c l).snd := congrArg Scaling.snd atEnd
  have rcv' : connected.options.rcvWindShift = (answer c l).rcv := congrArg Scaling.rcv atFork
  have snd' : connected.options.sndWindShift = (answer c l).snd := congrArg Scaling.snd atFork
  rw [Agree, rcv, snd, rcv', snd', final, answer, offer]
  unfold Scaling.heard Scaling.announced Scaling.calculate
  cases c.enabled <;> cases l.enabled <;> simp [same]

/-- In every run of the handshake, and whatever the listener has served before, the ends
use the same shifts once both are connected if and only if the condition holds. -/
theorem shifts_agree_iff (endPoint : client.hasEndPoint = true) (idle : client.retxEvent = none)
    (clientRcv : client.options.rcvWindShift = 0) (clientSnd : client.options.sndWindShift = 0)
    (serverRcv : server.options.rcvWindShift = 0)
    (syns : ∀ r ∈ earlier, r.header.hasFlag SYN = true)
    (served : Run.exec (serve profile) server.options earlier = some l)
    (starts : start profile now client { server with options := l } = some s₀)
    (run : Run.exec (step profile) s₀ events = some s)
    (atClient : s.client.state = .established) (accepted : s.server = some connected)
    (atServer : connected.state = .established) :
    Agree s.client connected ↔ SameShift client.options server.options earlier := by
  obtain ⟨atEnd, atFork⟩ := scaling_of_run endPoint idle starts run atClient accepted atServer
  have rcv := (sizes_after syns served).1
  have enabled := winScaling_after syns served
  have stored := shift_after syns served
  have same : l.scaling.rcv = client.options.scaling.snd :=
    (rcv.trans serverRcv).trans clientSnd.symm
  rw [agree_iff atEnd atFork same, SameShift]
  show _ ∧ l.winScalingEnabled = true ∨ (if _ then _ else client.options.rcvWindShift) =
    l.sndWindShift ↔ _
  rw [enabled, stored, clientRcv, Bool.and_eq_true]
  rfl

instance (a b : HandshakeSocket) : Decidable (Agree a b) :=
  instDecidableAnd

/-- A handshake in which nothing is lost. -/
def connect (client listener : HandshakeSocket) : Option System :=
  (start .debug 0 client listener).bind fun s => Run.exec (step .debug) s
    [(1, .deliverToServer 0 true), (2, .deliverToClient 0), (3, .deliverToServer 1 true)]

/-- A client whose buffer needs a shift, and a listener that scales or does not. -/
def largeClient : HandshakeSocket := { options := { maxBufferSize := 131072 } }

def listener (winScalingEnabled : Bool) : HandshakeSocket :=
  { state := .listen, options := { winScalingEnabled := winScalingEnabled } }

theorem shifts_agree_iff_scaling : ∃ s f, connect largeClient (listener true) = some s ∧
    s.client.state = .established ∧ s.server = some f ∧ f.state = .established ∧
    Agree s.client f := by
  have done : (connect largeClient (listener true)).any (fun s => s.server.any fun f =>
      decide (s.client.state = .established ∧ f.state = .established)) = true := by
    decide +kernel
  obtain ⟨s, run, done⟩ := (Option.any_eq_true _ _).mp done
  obtain ⟨f, accepted, done⟩ := (Option.any_eq_true _ _).mp done
  obtain ⟨atClient, atServer⟩ := of_decide_eq_true done
  obtain ⟨s₀, starts, events⟩ := bind_returns.mp run
  have syns : ∀ r ∈ ([] : List Request), r.header.hasFlag SYN = true :=
    fun _ member => absurd member List.not_mem_nil
  have served : Run.exec (serve .debug) (listener true).options [] = some (listener true).options :=
    rfl
  refine ⟨s, f, run, atClient, accepted, atServer, ?_⟩
  refine (shifts_agree_iff rfl rfl rfl rfl rfl syns served starts events atClient accepted
    atServer).mpr ?_
  exact .inl ⟨rfl, rfl, rfl⟩

/-- The client goes on shifting for a server that does not scale. -/
theorem client_shifts_alone : ∃ s f, connect largeClient (listener false) = some s ∧
    s.client.state = .established ∧ s.server = some f ∧ f.state = .established ∧
    ¬ Agree s.client f := by
  have done : (connect largeClient (listener false)).any (fun s => s.server.any fun f =>
      decide (s.client.state = .established ∧ f.state = .established ∧ ¬ Agree s.client f)) =
      true := by
    decide +kernel
  obtain ⟨s, run, done⟩ := (Option.any_eq_true _ _).mp done
  obtain ⟨f, accepted, done⟩ := (Option.any_eq_true _ _).mp done
  obtain ⟨atClient, atServer, disagree⟩ := of_decide_eq_true done
  exact ⟨s, f, run, atClient, accepted, atServer, disagree⟩

end Main

end Handshake

end Ns3.TcpSocketBase
