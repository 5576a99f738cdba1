import Ns3.Internet.TcpSocketBase.Receiver.DelayWindow

/-!
# The ratio and the window over whole runs

`GetTimeRatio` gives a number from 0 to 1 in every run in which the timer does not
expire between the first time that is measured and the first that counts. The window
of delayed bytes stays within what the peer can send where it grows, which is bounded
by that; its resets to `lambda` segments are not. An expiry of the timer takes back a
growth only where a segment is one byte long, or there was no growth.
-/

namespace Ns3.TcpSocketBase.Receiver

variable {profile : BuildProfile} {s t : Receiver}

open AckDelay

/-! ## The time ratio -/

/-- All results of `GetTimeRatio` so far are what they should be. -/
def InRange (lambda : ℚ) (s : Receiver) : Prop := ∀ r ∈ s.delay.ratios, AckDelay.InRange lambda r

/-- A timer does not expire when a time has been measured but none that counts. -/
def RatioDefined (s : Receiver) : Call → Prop
  | .delAckTimeout => s.delAckRunning = true → s.delay.baseIat = .posInf → s.delay.iat = .posInf
  | _ => True

/-- The members between calls, with a fixed `lambda`. -/
structure Steady (lambda : ℚ) (s : Receiver) : Prop where
  regular : s.delay.Regular
  fixed : s.delay.lambda = lambda

theorem arrive_lambda {now : Int} (run : s.arrive profile now = some t) :
    t.delay.lambda = s.delay.lambda := by
  rcases arrive_cases run with ⟨-, eq⟩ | ⟨last, -, ⟨-, eq⟩ | ⟨-, eq⟩⟩
  · rw [eq]
  · rw [eq]
    rfl
  · obtain ⟨baseIat, lastUpdate, counted⟩ := counted_eq now last s.delay
    rw [eq]
    change (s.delay.counted now last).lambda = _
    rw [counted]
    rfl

theorem answered_lambda (s : Receiver) (stored : Stored) :
    (s.answered stored).delay.lambda = s.delay.lambda := by
  cases stored <;> rfl

theorem step_lambda {c : Call} (run : s.step profile c = some t) :
    t.delay.lambda = s.delay.lambda := by
  rcases step_delay run with ⟨-, same⟩ | ⟨now, p, h, app, rfl, run⟩ | ⟨-, ⟨-, eq⟩ | ⟨-, rfl⟩⟩
  · rw [same]
  · obtain ⟨u, v, stored, arrived, -, same, frame⟩ := receivedData_cases run
    rw [frame.delay, answered_lambda, same, arrive_lambda arrived]
  · rw [eq]
    rfl
  · rfl

theorem Steady.step {lambda : ℚ} {c : Call} (h : Steady lambda s) (timely : s.Timely c)
    (run : s.step profile c = some t) : Steady lambda t :=
  ⟨step_regular h.regular timely run, (step_lambda run).trans h.fixed⟩

/-- A call of `GetTimeRatio` by `ReceivedData` is in range. -/
theorem arrive_inRange {lambda : ℚ} {now : Int} (pos : 0 < lambda) (steady : Steady lambda s)
    (timely : ∀ last ∈ s.delay.lastPacketTime, last ≤ now)
    (run : s.arrive profile now = some t) : InRange lambda t ↔ InRange lambda s := by
  rcases arrive_cases run with ⟨-, eq⟩ | ⟨last, lastTime, ⟨-, eq⟩ | ⟨-, eq⟩⟩
  · rw [InRange, eq, InRange]
  · rw [InRange, eq]
    rfl
  · obtain ⟨q, b, iat, base, same, -, baseNonneg, nonneg, below⟩ :=
      steady.regular.counted (timely last lastTime)
    have fixed := same.trans steady.fixed
    have range : AckDelay.InRange (s.delay.counted now last).lambda
        (.receivedData, (s.delay.counted now last).getTimeRatio) :=
      inRange_measured (fixed ▸ pos) base iat baseNonneg nonneg fun _ => below
    have ratios : t.delay.ratios =
        (.receivedData, (s.delay.counted now last).getTimeRatio) :: s.delay.ratios := by
      obtain ⟨baseIat, lastUpdate, counted⟩ := counted_eq now last s.delay
      rw [eq]
      change _ :: (s.delay.counted now last).ratios = _
      rw [show (s.delay.counted now last).ratios = s.delay.ratios by rw [counted]; rfl]
    rw [fixed] at range
    rw [InRange, ratios, List.forall_mem_cons]
    exact and_iff_right range

/-- One by `DelAckTimeout` is, unless only the last time is known. -/
theorem expired_inRange {lambda : ℚ} (pos : 0 < lambda) (steady : Steady lambda s) :
    AckDelay.InRange lambda (.delAckTimeout, s.delay.getTimeRatio) ↔
      (s.delay.baseIat = .posInf → s.delay.iat = .posInf) := by
  obtain ⟨⟨base, iat, -⟩, fixed⟩ := steady
  have nonzero : s.delay.lambda ≠ 0 := fixed ▸ pos.ne'
  cases time : s.delay.iat with
  | posInf =>
    have late : s.delay.iat.lt (.finite s.delay.lambda * s.delay.baseIat) = false := by
      rw [time, Extended.posInf_lt]
    rw [getTimeRatio_late late, if_neg nonzero]
    exact iff_of_true (inRange_zero _) fun _ => rfl
  | finite q =>
    rw [time] at iat
    cases smallest : s.delay.baseIat with
    | finite b =>
      rw [smallest] at base
      have range : AckDelay.InRange s.delay.lambda (.delAckTimeout, s.delay.getTimeRatio) :=
        inRange_measured (fixed ▸ pos) smallest time base iat nofun
      rw [fixed] at range
      exact iff_of_true range nofun
    | posInf =>
      rw [getTimeRatio_uncounted (fixed ▸ pos) smallest time]
      exact iff_of_false (not_inRange_nan _) fun h => absurd (h rfl) nofun
    | negInf => exact (smallest ▸ base).elim
    | nan => exact (smallest ▸ base).elim
  | negInf => exact (time ▸ iat).elim
  | nan => exact (time ▸ iat).elim

/-- What a call adds to the results. -/
theorem step_inRange {lambda : ℚ} {c : Call} (pos : 0 < lambda) (steady : Steady lambda s)
    (timely : s.Timely c) (run : s.step profile c = some t) :
    InRange lambda t ↔ InRange lambda s ∧ s.RatioDefined c := by
  rcases step_delay run with
    ⟨other, same⟩ | ⟨now, p, h, app, rfl, run⟩ | ⟨rfl, ⟨running, eq⟩ | ⟨stopped, rfl⟩⟩
  · have condition : s.RatioDefined c := by
      cases c with
      | delAckTimeout => exact other.elim
      | _ => trivial
    rw [and_iff_left condition, InRange, same, InRange]
  · obtain ⟨u, v, stored, arrived, -, same, frame⟩ := receivedData_cases run
    have ratios : t.delay.ratios = u.delay.ratios := by
      rw [frame.delay, ← same]
      cases stored <;> rfl
    rw [InRange, ratios]
    exact (arrive_inRange pos steady timely arrived).trans (and_iff_left trivial).symm
  · have ratios : t.delay.ratios = (.delAckTimeout, s.delay.getTimeRatio) :: s.delay.ratios := by
      rw [eq]
      rfl
    rw [InRange, ratios, List.forall_mem_cons, expired_inRange pos steady, and_comm]
    exact and_congr_right fun _ => ⟨fun h _ => h, fun h => h running⟩
  · exact (and_iff_left fun running => absurd running stopped).symm

/-- In a run from a fresh socket the ratio is in range at every call of `GetTimeRatio`
if and only if no expiry of the timer finds a last inter-arrival time without a smallest
one. -/
theorem ratio_in_range_iff {calls : List Call} (fresh : s.Fresh) (pos : 0 < s.delay.lambda)
    (timely : Run.Meets (step profile) Timely s calls)
    (run : Run.exec (step profile) s calls = some t) :
    (∀ r ∈ t.delay.ratios, AckDelay.InRange s.delay.lambda r) ↔
      Run.Meets (step profile) RatioDefined s calls := by
  have start : Steady s.delay.lambda s := ⟨fresh.regular, rfl⟩
  have none_yet : InRange s.delay.lambda s := by
    rw [InRange, fresh.ratios]
    exact nofun
  refine Iff.trans (Run.exec_iff_meets (P := InRange s.delay.lambda) start timely run ?_)
    (and_iff_right none_yet)
  exact fun u c v steady timely run =>
    ⟨steady.step timely run, step_inRange pos steady timely run⟩

instance (s : Receiver) : (c : Call) → Decidable (s.RatioDefined c)
  | .delAckTimeout => inferInstanceAs (Decidable (_ → _ → _))
  | .doForwardUp _ | .receivedData .. | .setFinSequence _ | .recv _ | .sendEmptyPacket _
  | .sendDataPacket => instDecidableTrue

/-- A byte of a stream from 0 on, in a segment with ACK. -/
def byteAt (seq : Nat) (now : Int) : Call :=
  .receivedData now [0] { sequenceNumber := .ofNat seq, flags := TcpHeader.ACK } {}

theorem fresh_default (b : TcpRxBuffer) : Fresh { rxBuffer := b } := ⟨rfl, rfl, rfl, rfl, rfl, rfl⟩

/-- Three packets a millisecond apart, and the timer. -/
theorem ratio_in_range_example : ∃ t,
    Run.exec (step .debug) { rxBuffer := .new 0 }
      [byteAt 0 0, byteAt 1 1000000, byteAt 2 2000000, .delAckTimeout] = some t ∧
    ∀ r ∈ t.delay.ratios, AckDelay.InRange 3 r := by
  obtain ⟨t, run⟩ := Option.isSome_iff_exists.mp (show (Run.exec (step .debug)
    { rxBuffer := .new 0 } [byteAt 0 0, byteAt 1 1000000, byteAt 2 2000000,
      .delAckTimeout]).isSome = true by decide +kernel)
  exact ⟨t, run, (ratio_in_range_iff (fresh_default _) (by decide) (by decide +kernel) run).mpr
    (by decide +kernel)⟩

/-- Three packets ten microseconds apart: the timer finds the ratio undefined. -/
theorem short_times_undefined : ¬ ∀ (s t : Receiver) (calls : List Call), s.Fresh →
    0 < s.delay.lambda → Run.Meets (step .debug) Timely s calls →
    Run.exec (step .debug) s calls = some t →
      ∀ r ∈ t.delay.ratios, AckDelay.InRange s.delay.lambda r := by
  intro claim
  have ratios : (Run.exec (step .debug) { rxBuffer := .new 0 }
      [byteAt 0 0, byteAt 1 10000, byteAt 2 20000, .delAckTimeout]).map (·.delay.ratios) =
        some [(.delAckTimeout, .nan)] := by
    decide +kernel
  obtain ⟨t, run, eq⟩ := Option.map_eq_some_iff.mp ratios
  have range := claim _ t _ (fresh_default _) (by decide) (by decide +kernel) run
    (.delAckTimeout, .nan) (eq ▸ List.mem_cons_self)
  exact not_inRange_nan _ range

/-! ## The delay window -/

/-- All windows left by an update or a reset so far are within their bounds. -/
def Bounded (s : Receiver) : Prop := ∀ w ∈ s.delay.windows, w.1.le (.finite w.2.toNat) = true

/-- What an update needs: it bounds a growth, but neither a reset nor an old window. -/
def UpdateFits (s : Receiver) : Prop :=
  if 0 < s.options.cwndDiff.toInt then s.delay.lambda ≠ 0
  else if s.options.cwndDiff.toInt < 0 then
    (s.delay.minimum s.segSize).le (.finite s.bound.toNat) = true
  else s.delay.dwnd.le (.finite s.bound.toNat) = true
  deriving Decidable

/-- The state in which a packet that is out of order resets the window. -/
def resetState (profile : BuildProfile) (now : Int) (p : Packet) (h : TcpHeader)
    (app : Application) (s : Receiver) : Option Receiver :=
  (s.arrive profile now).bind fun u => (u.store profile p h app).bind fun (stored, v) =>
    if stored = .outOfOrder then some v else none

/-- An update fits, and so does the minimum of `lambda` segments where it is reset to. -/
def WindowFits (profile : BuildProfile) (s : Receiver) : Call → Prop
  | .receivedData now p h app =>
    (∀ last ∈ s.delay.lastPacketTime,
      s.delay.iatThreshold ≤ seconds (now - last) → s.UpdateFits) ∧
    ∀ v ∈ s.resetState profile now p h app,
      (v.delay.minimum v.segSize).le (.finite v.bound.toNat) = true
  | _ => True

instance (profile : BuildProfile) (s : Receiver) : (c : Call) → Decidable (WindowFits profile s c)
  | .receivedData .. => instDecidableAnd
  | .doForwardUp _ | .setFinSequence _ | .delAckTimeout | .recv _ | .sendEmptyPacket _
  | .sendDataPacket => instDecidableTrue

/-- The window that an update leaves. -/
theorem grown_le_iff {now last : Int} (regular : s.delay.Regular) (later : last ≤ now) :
    (s.delay.grown now last s.options.cwndDiff s.segSize s.bound).dwnd.le
      (.finite s.bound.toNat) = true ↔ s.UpdateFits := by
  obtain ⟨q, b, iat, base, lambda, dwnd, baseNonneg, nonneg, -⟩ := regular.counted later
  change (AckDelay.updated _ _ _ _ _).le _ = true ↔ _
  unfold updated UpdateFits
  split
  · change (Extended.min ((s.delay.counted now last).dwnd + _) _).le _ = true ↔ _
    rw [dwnd]
    by_cases zero : s.delay.lambda = 0
    · have late : (s.delay.counted now last).iat.lt
          (.finite (s.delay.counted now last).lambda * (s.delay.counted now last).baseIat) =
            false := by
        rw [iat, base, lambda, zero]
        simp [nonneg]
      rw [getTimeRatio_late late, if_pos (lambda.trans zero)]
      simp [zero]
    · obtain ⟨w, window⟩ := regular.window zero
      have nonzero : (s.delay.counted now last).lambda ≠ 0 := lambda ▸ zero
      rw [getTimeRatio_measured nonzero base iat baseNonneg nonneg, window]
      refine iff_of_true ?_ zero
      simp only [Extended.finite_sub, Extended.finite_mul, Extended.finite_add,
        Extended.min_finite, Extended.finite_le, decide_eq_true_eq]
      exact min_le_right _ _
  · split
    · change (AckDelay.minimum _ (s.delay.counted now last)).le _ = true ↔ _
      rw [minimum, lambda, minimum]
    · change (s.delay.counted now last).dwnd.le _ = true ↔ _
      rw [dwnd]

theorem arrive_bounded {now : Int} (regular : s.delay.Regular)
    (timely : ∀ last ∈ s.delay.lastPacketTime, last ≤ now)
    (run : s.arrive profile now = some t) : Bounded t ↔ Bounded s ∧
      ∀ last ∈ s.delay.lastPacketTime,
        s.delay.iatThreshold ≤ seconds (now - last) → s.UpdateFits := by
  rcases arrive_cases run with ⟨first, eq⟩ | ⟨last, lastTime, ⟨short, eq⟩ | ⟨counts, eq⟩⟩
  · rw [Bounded, eq, first, Bounded]
    exact (and_iff_left nofun).symm
  · rw [Bounded, eq]
    refine (and_iff_left fun other mem counts => ?_).symm
    obtain rfl := Option.some.inj (lastTime.symm.trans mem)
    exact absurd counts (not_le.mpr short)
  · have windows : t.delay.windows =
        ((s.delay.grown now last s.options.cwndDiff s.segSize s.bound).dwnd, s.bound) ::
          s.delay.windows := by
      obtain ⟨baseIat, lastUpdate, counted⟩ := counted_eq now last s.delay
      rw [eq]
      change _ :: (s.delay.counted now last).windows = _
      rw [show (s.delay.counted now last).windows = s.delay.windows by rw [counted]; rfl]
      rfl
    rw [Bounded, windows, List.forall_mem_cons, grown_le_iff regular (timely last lastTime),
      and_comm]
    refine and_congr_right fun _ => ⟨fun fits other mem _ => fits, fun h => ?_⟩
    exact h last lastTime counts

theorem bounded_congr (same : t.delay.windows = s.delay.windows) : Bounded t ↔ Bounded s := by
  rw [Bounded, same, Bounded]

/-- The answer to a packet that is out of order leaves the minimum. -/
theorem answered_bounded (s : Receiver) (stored : Stored) :
    Bounded (s.answered stored) ↔ Bounded s ∧ (stored = .outOfOrder →
      (s.delay.minimum s.segSize).le (.finite s.bound.toNat) = true) := by
  cases stored with
  | outOfOrder =>
    have windows : (s.answered .outOfOrder).delay.windows =
        (s.delay.minimum s.segSize, s.bound) :: s.delay.windows := rfl
    rw [Bounded, windows, List.forall_mem_cons, and_comm]
    exact and_congr_right fun _ => (imp_iff_right rfl).symm
  | refused => exact (and_iff_left nofun).symm
  | complete => exact (and_iff_left nofun).symm
  | inSequence => exact (and_iff_left nofun).symm

theorem receivedData_bounded {now : Int} {p : Packet} {h : TcpHeader} {app : Application}
    (regular : s.delay.Regular) (timely : ∀ last ∈ s.delay.lastPacketTime, last ≤ now)
    (run : s.receivedData profile now p h app = some t) :
    Bounded t ↔ Bounded s ∧ WindowFits profile s (.receivedData now p h app) := by
  obtain ⟨u, v, stored, arrived, placed, same, frame⟩ := receivedData_cases run
  have reset : s.resetState profile now p h app =
      if stored = .outOfOrder then some v else none := by
    rw [resetState, arrived, Option.bind_some, placed, Option.bind_some]
  have fits : (stored = .outOfOrder → (v.delay.minimum v.segSize).le (.finite v.bound.toNat) =
      true) ↔ ∀ w ∈ s.resetState profile now p h app,
        (w.delay.minimum w.segSize).le (.finite w.bound.toNat) = true := by
    rw [reset]
    by_cases gap : stored = .outOfOrder
    · rw [if_pos gap, imp_iff_right gap]
      simp
    · rw [if_neg gap]
      exact iff_of_true (fun h => absurd h gap) fun w mem => absurd mem (Option.not_mem_none w)
  rw [bounded_congr (congrArg AckDelay.windows frame.delay), answered_bounded,
    bounded_congr (congrArg AckDelay.windows same), arrive_bounded regular timely arrived, fits,
    and_assoc]
  exact Iff.rfl

/-- What a call adds to the windows. -/
theorem step_bounded {c : Call} (regular : s.delay.Regular) (timely : s.Timely c)
    (run : s.step profile c = some t) :
    Bounded t ↔ Bounded s ∧ WindowFits profile s c := by
  rcases step_delay run with
    ⟨other, same⟩ | ⟨now, p, h, app, rfl, run⟩ | ⟨rfl, ⟨-, eq⟩ | ⟨-, rfl⟩⟩
  · have condition : WindowFits profile s c := by
      cases c with
      | receivedData => exact other.elim
      | _ => trivial
    rw [and_iff_left condition]
    exact bounded_congr (congrArg AckDelay.windows same)
  · exact receivedData_bounded regular timely run
  · exact Iff.trans (bounded_congr (by rw [eq]; rfl)) (and_iff_left trivial).symm
  · exact (and_iff_left trivial).symm

/-- In a run from a fresh socket every window that an update or a reset leaves is within
what the peer can send if and only if each of them fits. -/
theorem dwnd_bounded_iff {calls : List Call} (fresh : s.Fresh)
    (timely : Run.Meets (step profile) Timely s calls)
    (run : Run.exec (step profile) s calls = some t) :
    (∀ w ∈ t.delay.windows, w.1.le (.finite w.2.toNat) = true) ↔
      Run.Meets (step profile) (WindowFits profile) s calls := by
  have none_yet : Bounded s := by
    rw [Bounded, fresh.windows]
    exact nofun
  refine Iff.trans (Run.exec_iff_meets (P := Bounded) (I := fun s => s.delay.Regular)
    fresh.regular timely run ?_) (and_iff_right none_yet)
  exact fun u c v regular timely run =>
    ⟨step_regular regular timely run, step_bounded regular timely run⟩

/-- A socket with the adaptive window and the option for the window of the peer. -/
def adaptive : Receiver where
  delay := { adwEnabled := true }
  options := { timestampEnabled := false, congestionWindowEnabled := true }
  rxBuffer := .new 0

/-- A segment that brings the congestion window of the peer. -/
def cwndOption (cwnd : BitVec 32) : Call :=
  .doForwardUp { flags := TcpHeader.ACK, options := [.cwnd cwnd] }

theorem fresh_adaptive : Fresh adaptive := ⟨rfl, rfl, rfl, rfl, rfl, rfl⟩

/-- A window that grows while the peer can send ten thousand bytes. -/
theorem dwnd_bounded_example : ∃ t,
    Run.exec (step .debug) adaptive [byteAt 0 0, cwndOption 10000, byteAt 1 1000000] = some t ∧
    ∀ w ∈ t.delay.windows, w.1.le (.finite w.2.toNat) = true := by
  obtain ⟨t, run⟩ := Option.isSome_iff_exists.mp (show (Run.exec (step .debug) adaptive
    [byteAt 0 0, cwndOption 10000, byteAt 1 1000000]).isSome = true by decide +kernel)
  exact ⟨t, run, (dwnd_bounded_iff fresh_adaptive (by decide +kernel) run).mpr
    (by decide +kernel)⟩

example : ¬ Run.Meets (step .debug) (WindowFits .debug) adaptive [cwndOption 1072, byteAt 5 0] := by
  decide +kernel

/-- The peer can send two segments, and a packet out of order resets the window to
three. -/
theorem reset_exceeds_cwnd : ¬ ∀ (s t : Receiver) (calls : List Call), s.Fresh →
    s.delay.adwEnabled = true → s.options.congestionWindowEnabled = true →
    Run.Meets (step .debug) Timely s calls → Run.exec (step .debug) s calls = some t →
      ∀ w ∈ t.delay.windows, w.1.le (.finite w.2.toNat) = true := by
  intro claim
  have windows : (Run.exec (step .debug) adaptive [cwndOption 1072, byteAt 5 0]).map
      (·.delay.windows) = some [(.finite 1608, 1072)] := by
    decide +kernel
  obtain ⟨t, run, eq⟩ := Option.map_eq_some_iff.mp windows
  have bounded := claim adaptive t _ fresh_adaptive rfl rfl (by decide) run
    (.finite 1608, 1072) (eq ▸ List.mem_cons_self)
  exact absurd bounded (by decide)

/-! ## Growth and back-off -/

/-- Where neither bound is active, an expiry of the timer takes back a growth with the
same ratio if and only if there was none or a segment is one byte: it subtracts bytes
where the growth added segments. -/
theorem growth_undone_iff {u : Receiver} {θ w : ℚ} (grows : 0 < s.options.cwndDiff.toInt)
    (ratio : s.delay.getTimeRatio = .finite θ) (window : s.delay.dwnd = .finite w)
    (update : s.updateDelayWindow profile (.finite θ) = some u)
    (below : w + (1 - θ) * s.segSize.toNat ≤ s.bound.toNat)
    (timeout : u.delAckTimeout profile = some t)
    (above : s.delay.lambda * s.segSize.toNat ≤ w + (1 - θ) * s.segSize.toNat - (1 - θ)) :
    t.delay.dwnd = s.delay.dwnd ↔ θ = 1 ∨ s.segSize = 1 := by
  obtain ⟨⟨_, v⟩, advertised, update⟩ := bind_returns.mp update
  obtain rfl := advertisedWindowSize_eq advertised
  cases update
  have grown : s.delay.updated (.finite θ) s.options.cwndDiff s.segSize s.bound =
      .finite (w + (1 - θ) * s.segSize.toNat) := by
    rw [updated, if_pos grows, window]
    simp only [Extended.finite_sub, Extended.finite_mul, Extended.finite_add,
      Extended.min_finite]
    rw [min_eq_left below]
  have shrunk : t.delay.dwnd = .finite (w + (1 - θ) * s.segSize.toNat - (1 - θ)) := by
    rw [delAckTimeout_delay timeout]
    change Extended.max (s.delay.minimum s.segSize)
      (s.delay.updated _ s.options.cwndDiff s.segSize s.bound -
        (.finite 1 - s.delay.getTimeRatio)) = _
    rw [grown, ratio, minimum]
    simp only [Extended.finite_sub, Extended.max_finite]
    rw [max_eq_right above]
  have difference : w + (1 - θ) * s.segSize.toNat - (1 - θ) = w ↔
      (1 - θ) * ((s.segSize.toNat : ℚ) - 1) = 0 := by
    constructor
    · intro h
      linarith
    · intro h
      linarith
  have one : (s.segSize.toNat : ℚ) = 1 ↔ s.segSize = 1 := by
    rw [Nat.cast_eq_one]
    exact ⟨fun h => BitVec.eq_of_toNat_eq h, fun h => h ▸ rfl⟩
  rw [shrunk, window, Extended.finite.injEq, difference, mul_eq_zero, sub_eq_zero, sub_eq_zero,
    one, eq_comm (a := 1)]

/-- A window of three segments of 536 bytes, while the window of the peer grows. -/
def growing : Receiver :=
  { adaptive with
    delay := { adwEnabled := true, dwnd := .finite 1608 }
    options := { timestampEnabled := false, cwndDiff := 1, rcvCwndValue := 100000 } }

theorem growing_runs : ∃ u t, growing.updateDelayWindow .debug (.finite 0) = some u ∧
    u.delAckTimeout .debug = some t := by
  obtain ⟨t, run⟩ := Option.isSome_iff_exists.mp (show ((growing.updateDelayWindow .debug
    (.finite 0)).bind (delAckTimeout .debug)).isSome = true by decide)
  obtain ⟨u, update, timeout⟩ := bind_returns.mp run
  exact ⟨u, t, update, timeout⟩

theorem growth_undone_example : ∃ u t, growing.updateDelayWindow .debug (.finite 0) = some u ∧
    u.delAckTimeout .debug = some t ∧
    (t.delay.dwnd = growing.delay.dwnd ↔ (0 : ℚ) = 1 ∨ growing.segSize = 1) := by
  obtain ⟨u, t, update, timeout⟩ := growing_runs
  exact ⟨u, t, update, timeout, growth_undone_iff (w := 1608) (by decide) (by decide +kernel) rfl
    update (by decide +kernel) timeout (by decide +kernel)⟩

/-- It grows by a segment, and shrinks by a byte. -/
theorem growth_not_undone : ¬ ∀ (s u t : Receiver) (θ w : ℚ), 0 < s.options.cwndDiff.toInt →
    s.delay.getTimeRatio = .finite θ → s.delay.dwnd = .finite w →
    s.updateDelayWindow .debug (.finite θ) = some u →
    w + (1 - θ) * s.segSize.toNat ≤ s.bound.toNat → u.delAckTimeout .debug = some t →
    s.delay.lambda * s.segSize.toNat ≤ w + (1 - θ) * s.segSize.toNat - (1 - θ) →
      t.delay.dwnd = s.delay.dwnd := by
  intro claim
  have windows : ((growing.updateDelayWindow .debug (.finite 0)).bind
      (delAckTimeout .debug)).map (·.delay.dwnd) = some (.finite 2143) := by
    decide +kernel
  obtain ⟨t, run, eq⟩ := Option.map_eq_some_iff.mp windows
  obtain ⟨u, update, timeout⟩ := bind_returns.mp run
  have undone := claim growing u t 0 1608 (by decide) (by decide +kernel) rfl update
    (by decide +kernel) timeout (by decide +kernel)
  rw [eq] at undone
  exact absurd undone (by decide)

end Ns3.TcpSocketBase.Receiver
