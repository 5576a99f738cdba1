import Ns3.Internet.TcpCerl.Statistics

/-!
# Fork

A socket that accepts a connection forks the congestion control of the listening one.
`TcpCerlPlus` and `TcpCerlX` inherit `Fork` from `TcpCerl`, which makes a `TcpCerl`.

An instance and its fork are driven by the same calls, each with windows of its own. They
differ only in their statistics, and only `GetSsThresh` reads these.
-/

namespace Ns3.TcpCerl

variable {τ : Type}

/-- One of the three classes: its statistics, those of a fresh instance, and where `GetA`
can be computed. -/
structure CerlClass (τ : Type) where
  stats : CerlStatistics τ
  fresh : τ
  computes : τ → Prop := fun _ => True

/-- `TcpCerl`. -/
def cerl : CerlClass Delays where
  stats := delays
  fresh := {}

/-- `TcpCerlPlus`, which divides by the sum of the round-trip times. -/
def cerlPlus : CerlClass Samples where
  stats := plus
  fresh := {}
  computes s := s.rttSum ≠ 0

/-- `TcpCerlX`, configured with a window size. -/
def cerlX (popped : Popped) (windowSize : BitVec 32) : CerlClass Window where
  stats := sliding popped
  fresh := .start windowSize
  computes s := s.rttSum ≠ 0

/-- A fresh instance. -/
def CerlClass.instance_ (class_ : CerlClass τ) : TcpCerl τ := { statistics := class_.fresh }

/-- `Fork`: a `TcpCerl`, by a copy constructor that copies none of its members. -/
def fork (_ : TcpCerl τ) : TcpCerl Delays := { statistics := {} }

/-! ## Two objects with the same calls -/

/-- A call of the socket. It stores the result of `GetSsThresh` in `m_ssThresh`. -/
inductive Call where
  | getSsThresh (bytesInFlight : BitVec 32)
  | hook (now : Int) (call : CongestionCall)

/-- An object with the windows that it writes. -/
structure Driven (τ : Type) where
  windows : Windows
  object : TcpCerl τ

/-- A call, with the members of the socket's state that the object reads only. -/
def Driven.step (stats : CerlStatistics τ) (profile : BuildProfile) (d : Driven τ)
    (tcb : TcpSocketState) (call : Call) : Option (Driven τ) :=
  let tcb := { tcb with toWindows := d.windows }
  match call with
  | .getSsThresh bytesInFlight => do
      let (ssThresh, object) ← (ops stats).getSsThresh profile tcb bytesInFlight d.object
      return { windows := { d.windows with ssThresh }, object }
  | .hook now call =>
    let r := (ops stats).call now call tcb d.object
    some { windows := r.1, object := r.2 }

/-- An instance and its fork. -/
structure Pair (τ : Type) where
  original : Driven τ
  forked : Driven Delays

/-- The same call on both. -/
def Pair.step (stats : CerlStatistics τ) (profile : BuildProfile) (p : Pair τ)
    (call : TcpSocketState × Call) : Option (Pair τ) := do
  let original ← p.original.step stats profile call.1 call.2
  let forked ← p.forked.step delays profile call.1 call.2
  return { original, forked }

/-- A fresh instance and its fork, in sockets with the same windows. -/
def Pair.start (class_ : CerlClass τ) (windows : Windows) : Pair τ where
  original := { windows, object := class_.instance_ }
  forked := { windows, object := fork class_.instance_ }

/-- Both have written the same windows. -/
def SameWindows (p : Pair τ) : Prop := p.original.windows = p.forked.windows

/-- Where the threshold depends on the statistics, those of the instance can be computed,
and they judge the loss as those of `TcpCerl` do. -/
def JudgesAlike (class_ : CerlClass τ) (p : Pair τ) (call : TcpSocketState × Call) : Prop :=
  ∀ bytesInFlight, call.2 = .getSsThresh bytesInFlight →
    p.original.object.enteredRecovery = true →
      class_.computes p.original.object.statistics ∧
        isCongestion class_.stats call.1 p.original.object =
          isCongestion delays call.1 p.forked.object

/-! ## The simulation -/

/-- The same members with other statistics. -/
def withStatistics {υ : Type} (statistics : υ) (c : TcpCerl τ) : TcpCerl υ where
  oldCwnd := c.oldCwnd
  enteredRecovery := c.enteredRecovery
  decreaseCwnd := c.decreaseCwnd
  maxSentSeq := c.maxSentSeq
  statistics := statistics

/-- Both objects agree on everything but their statistics. -/
structure Simulates (p : Pair τ) : Prop where
  windows : SameWindows p
  object : ∃ statistics, p.forked.object = withStatistics statistics p.original.object

theorem simulates_start (class_ : CerlClass τ) (windows : Windows) :
    Simulates (Pair.start class_ windows) :=
  ⟨rfl, _, rfl⟩

/-- No call without a result reads the statistics. -/
theorem call_withStatistics {υ : Type} (stats : CerlStatistics τ) (others : CerlStatistics υ)
    (now : Int) (call : CongestionCall) (tcb : TcpSocketState) (c : TcpCerl τ) (statistics : υ) :
    ∃ later, (ops others).call now call tcb (withStatistics statistics c) =
      (((ops stats).call now call tcb c).1,
        withStatistics later ((ops stats).call now call tcb c).2) := by
  cases call with
  | increaseWindow n => exact ⟨statistics, rfl⟩
  | pktsAcked n rtt => exact ⟨others.pktsAcked now rtt statistics, rfl⟩
  | congestionStateSet newState =>
    refine ⟨statistics, ?_⟩
    simp only [ops, congestionStateSet]
    split <;> rfl
  | cwndEvent event => exact ⟨statistics, rfl⟩
  | enterRecovery =>
    refine ⟨statistics, ?_⟩
    simp only [ops, enterRecovery, withStatistics]
    split
    · rfl
    · split <;> rfl
  | exitRecovery =>
    refine ⟨statistics, ?_⟩
    simp only [ops, exitRecovery, withStatistics]
    split <;> rfl
  | congControl d l p => exact ⟨statistics, rfl⟩

/-- Neither does `GetSsThresh`, once the loss is judged alike. -/
theorem getSsThresh_withStatistics {υ : Type} (stats : CerlStatistics τ) (others : CerlStatistics υ)
    (profile : BuildProfile) (tcb : TcpSocketState) (inFlight : BitVec 32) (c : TcpCerl τ)
    (statistics : υ)
    (alike : c.enteredRecovery = true →
      isCongestion stats tcb c = isCongestion others tcb (withStatistics statistics c)) :
    (ops others).getSsThresh profile tcb inFlight (withStatistics statistics c) =
      ((ops stats).getSsThresh profile tcb inFlight c).map fun r =>
        (r.1, withStatistics statistics r.2) := by
  simp only [ops, getSsThresh]
  cases nsAssert profile (decide (0 < tcb.lastAckedSeq.value)) with
  | none => rfl
  | some _ =>
    cases entered : c.enteredRecovery with
    | false => simp [withStatistics, entered]
    | true =>
      rw [alike entered]
      have entered' : (withStatistics statistics c).enteredRecovery = true := entered
      cases isCongestion others tcb (withStatistics statistics c) with
      | false => simp [entered']; rfl
      | true => simp [entered']; rfl

/-- One call keeps the simulation where the loss is judged alike. -/
theorem Simulates.step {class_ : CerlClass τ} {profile : BuildProfile} {p q : Pair τ}
    {call : TcpSocketState × Call} (h : Simulates p) (alike : JudgesAlike class_ p call)
    (run : p.step class_.stats profile call = some q) : Simulates q := by
  obtain ⟨windows, statistics, object⟩ := h
  obtain ⟨tcb, call⟩ := call
  obtain ⟨⟨w, c⟩, ⟨w', c'⟩⟩ := p
  obtain rfl : w = w' := windows
  obtain rfl : c' = withStatistics statistics c := object
  simp only [Pair.step, bind_returns, pure_returns] at run
  obtain ⟨original, first, forked, second, rfl⟩ := run
  cases call with
  | hook now call =>
    cases first
    cases second
    obtain ⟨later, same⟩ := call_withStatistics class_.stats delays now call
      { tcb with toWindows := w } c statistics
    refine ⟨?_, later, ?_⟩
    · exact (congrArg Prod.fst same).symm
    · exact congrArg Prod.snd same
  | getSsThresh inFlight =>
    have same := getSsThresh_withStatistics class_.stats delays profile
      { tcb with toWindows := w } inFlight c statistics
      fun entered => (alike inFlight rfl entered).2
    simp only [Driven.step, bind_returns, pure_returns] at first second
    obtain ⟨⟨ssThresh, object⟩, result, rfl⟩ := first
    obtain ⟨⟨ssThresh', object'⟩, result', rfl⟩ := second
    rw [same, result] at result'
    cases result'
    exact ⟨rfl, statistics, rfl⟩

theorem sameWindows_of_judgesAlike (class_ : CerlClass τ) (profile : BuildProfile)
    (windows : Windows)
    {calls : List (TcpSocketState × Call)}
    (alike : Run.Meets (Pair.step class_.stats profile) (JudgesAlike class_)
      (Pair.start class_ windows) calls) :
    Run.Always (Pair.step class_.stats profile) SameWindows (Pair.start class_ windows) calls :=
  Run.Always.of_invariant (simulates_start class_ windows) alike (fun _ h => h.windows)
    fun _ _ _ h alike run => h.step alike run

theorem cerl_step_eq {profile : BuildProfile} {p q : Pair Delays} {call : TcpSocketState × Call}
    (same : p.forked = p.original) (run : p.step delays profile call = some q) :
    q.forked = q.original := by
  simp only [Pair.step, bind_returns, pure_returns] at run
  obtain ⟨original, first, forked, second, rfl⟩ := run
  rw [same, first] at second
  exact (Option.some.inj second).symm

/-- The socket's state at the calls: a window of ten segments. -/
def tenSegments : TcpSocketState where
  cWnd := 1000
  cWndInfl := 1000
  ssThresh := 800
  segmentSize := 100
  lastAckedSeq := ⟨5⟩
  highTxMark := ⟨1005⟩

/-- Three round-trip times, and a recovery with 1000 bytes in flight. -/
def recovers (rtt : Int) : List (TcpSocketState × Call) :=
  [.hook 0 (.pktsAcked 1 100), .hook 1 (.pktsAcked 1 1000), .hook 2 (.pktsAcked 1 rtt),
    .hook 2 (.congestionStateSet .caRecovery), .getSsThresh 1000, .hook 2 .enterRecovery].map
      (tenSegments, ·)

end Ns3.TcpCerl
