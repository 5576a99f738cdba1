import Ns3.Internet.TcpSocketBase.Receiver.Frame
import Ns3.Library.Run
import Mathlib.Tactic.FieldSimp

/-!
# The adaptive delay window

The time ratio of `GetTimeRatio` compares the last inter-arrival time with the smallest
one, and the window of delayed bytes grows and shrinks with it. The two times are
updated under different conditions: a time that is too small to count replaces the last
one only.
-/

namespace Ns3.TcpSocketBase

namespace AckDelay

variable {d : AckDelay} {b q : ℚ}

/-! ## The time ratio -/

theorem getTimeRatio_late (late : d.iat.lt (.finite d.lambda * d.baseIat) = false) :
    d.getTimeRatio = if d.lambda = 0 then .nan else .finite 0 := by
  rw [getTimeRatio, late]
  by_cases zero : d.lambda = 0
  · rw [if_pos zero, zero]
    norm_num
    rfl
  · simp [Extended.finite_div _ zero, zero]

theorem getTimeRatio_uncounted (pos : 0 < d.lambda) (base : d.baseIat = .posInf)
    (iat : d.iat = .finite q) : d.getTimeRatio = .nan := by
  rw [getTimeRatio, base, iat, Extended.finite_mul_posInf pos, Extended.finite_lt_posInf]
  simp [Extended.posInf_sub_finite_div_posInf]

/-- The ratio as a number: 1 for no time at all, 0 from `lambda` times the smallest
time on. -/
theorem getTimeRatio_measured (nonzero : d.lambda ≠ 0) (base : d.baseIat = .finite b)
    (iat : d.iat = .finite q) (baseNonneg : 0 ≤ b) (nonneg : 0 ≤ q) :
    d.getTimeRatio =
      .finite (if q < d.lambda * b then (d.lambda - q / b) / d.lambda else 0) := by
  rw [getTimeRatio, base, iat]
  by_cases short : q < d.lambda * b
  · have some_ : b ≠ 0 := by
      rintro rfl
      rw [mul_zero] at short
      exact absurd nonneg (not_le.mpr short)
    simp only [Extended.finite_mul, Extended.finite_lt, decide_eq_true_eq, if_pos short,
      Extended.finite_sub, Extended.finite_div _ some_, Extended.finite_add,
      Extended.finite_div _ nonzero]
    congr 2
    field_simp
    ring
  · simp only [Extended.finite_mul, Extended.finite_lt, decide_eq_true_eq, if_neg short,
      Extended.finite_add, Extended.finite_div _ nonzero]
    norm_num

/-- What a result of `GetTimeRatio` should be: a number from 0 to 1, and no more than
`(lambda - 1) / lambda` where `ReceivedData` asks for it. -/
def InRange (lambda : ℚ) (r : RatioCaller × Extended ℚ) : Prop :=
  ∃ θ, r.2 = .finite θ ∧ 0 ≤ θ ∧ θ ≤ 1 ∧ (r.1 = .receivedData → θ ≤ max 0 ((lambda - 1) / lambda))

theorem inRange_zero {lambda : ℚ} (caller : RatioCaller) : InRange lambda (caller, .finite 0) :=
  ⟨0, rfl, le_refl 0, zero_le_one, fun _ => le_max_left _ _⟩

theorem not_inRange_nan {lambda : ℚ} (caller : RatioCaller) :
    ¬ InRange lambda (caller, .nan) := by
  rintro ⟨θ, eq, -⟩
  cases eq

/-- The ratio is in range, and `ReceivedData` asks when the last time is not below the
smallest. -/
theorem inRange_measured (pos : 0 < d.lambda) (base : d.baseIat = .finite b)
    (iat : d.iat = .finite q) (baseNonneg : 0 ≤ b) (nonneg : 0 ≤ q) {caller : RatioCaller}
    (smallest : caller = .receivedData → b ≤ q) : InRange d.lambda (caller, d.getTimeRatio) := by
  rw [getTimeRatio_measured pos.ne' base iat baseNonneg nonneg]
  by_cases short : q < d.lambda * b
  · have basePos : 0 < b := by
      refine baseNonneg.lt_of_ne fun zero => ?_
      rw [← zero, mul_zero] at short
      exact absurd nonneg (not_le.mpr short)
    have ratio : q / b < d.lambda := (div_lt_iff₀ basePos).mpr short
    rw [if_pos short]
    refine ⟨_, rfl, div_nonneg (sub_nonneg.mpr ratio.le) pos.le, ?_, fun received => ?_⟩
    · rw [div_le_one pos]
      exact sub_le_self _ (div_nonneg nonneg baseNonneg)
    · have atLeast : 1 ≤ q / b := (one_le_div basePos).mpr (smallest received)
      refine le_max_of_le_right ?_
      exact div_le_div_of_nonneg_right (sub_le_sub_left atLeast _) pos.le
  · rw [if_neg short]
    exact inRange_zero caller

/-! ## The members between calls -/

/-- The times are no negative numbers, and the window is a number. -/
structure Regular (d : AckDelay) : Prop where
  base : d.baseIat.Nonneg
  iat : d.iat.Nonneg
  window : d.lambda ≠ 0 → ∃ w, d.dwnd = .finite w

/-- The ratio is a number, or undefined. -/
theorem Regular.ratio (h : d.Regular) :
    (∃ θ, d.getTimeRatio = .finite θ) ∨ d.getTimeRatio = .nan := by
  obtain ⟨base, iat, -⟩ := h
  cases late : d.iat.lt (.finite d.lambda * d.baseIat) with
  | false =>
    rw [getTimeRatio_late late]
    by_cases zero : d.lambda = 0
    · exact .inr (if_pos zero)
    · exact .inl ⟨0, if_neg zero⟩
  | true =>
    cases time : d.iat with
    | finite q =>
      rw [time] at iat late
      cases eq : d.baseIat with
      | finite b =>
        rw [eq] at base late
        have nonzero : d.lambda ≠ 0 := by
          rintro zero
          rw [zero, Extended.finite_mul, zero_mul, Extended.finite_lt,
            decide_eq_true_eq] at late
          exact absurd iat (not_le.mpr late)
        exact .inl ⟨_, getTimeRatio_measured nonzero eq time base iat⟩
      | posInf =>
        rw [eq] at late
        rw [getTimeRatio, time, eq, late]
        exact .inr (by simp [Extended.posInf_sub_finite_div_posInf])
      | negInf => exact (eq ▸ base).elim
      | nan => exact (eq ▸ base).elim
    | posInf => exact absurd late (by rw [time, Extended.posInf_lt]; decide)
    | negInf => exact (time ▸ iat).elim
    | nan => exact (time ▸ iat).elim

theorem Regular.backedOff (h : d.Regular) (nonzero : d.lambda ≠ 0) (segSize : BitVec 32) :
    ∃ w, d.backedOff segSize = .finite w := by
  obtain ⟨w, window⟩ := h.window nonzero
  rcases h.ratio with ⟨θ, ratio⟩ | ratio
  · rw [AckDelay.backedOff, ratio, window]
    exact ⟨_, Extended.max_finite _ _⟩
  · rw [AckDelay.backedOff, ratio, Extended.sub_nan, Extended.sub_nan, Extended.max_nan]
    exact ⟨_, rfl⟩

/-! ## An arriving packet -/

/-- The time since the last packet. -/
def timed (now last : Int) (d : AckDelay) : AckDelay :=
  { d with iat := .finite (seconds (now - last)) }

/-- The members at the call of `GetTimeRatio` by `ReceivedData`. -/
def counted (now last : Int) (d : AckDelay) : AckDelay := (d.timed now last).updateBaseIat now

theorem seconds_nonneg {t : Int} (h : 0 ≤ t) : 0 ≤ seconds t :=
  div_nonneg (by exact_mod_cast h) (by norm_num)

theorem counted_eq (now last : Int) (d : AckDelay) : ∃ baseIat lastUpdate,
    d.counted now last = { d.timed now last with baseIat, lastUpdate } := by
  unfold counted updateBaseIat resetBaseIat
  dsimp only
  split
  · exact ⟨_, _, rfl⟩
  · exact ⟨_, _, rfl⟩

theorem counted_baseIat (now last : Int) (base : d.baseIat.Nonneg) (later : last ≤ now) :
    ∃ b, (d.counted now last).baseIat = .finite b ∧ 0 ≤ b ∧ b ≤ seconds (now - last) := by
  have nonneg := seconds_nonneg (sub_nonneg.mpr later)
  unfold counted updateBaseIat resetBaseIat
  dsimp only
  split
  · exact Extended.Nonneg.min_finite (show Extended.posInf.Nonneg from trivial) nonneg
  · exact base.min_finite nonneg

/-- The members after a packet that counts. -/
def grown (now last : Int) (cwndDiff segSize R : BitVec 32) (d : AckDelay) : AckDelay :=
  let c := (d.counted now last).observed .receivedData
  { c.setWindow (c.updated (d.counted now last).getTimeRatio cwndDiff segSize R) R with
    lastPacketTime := some now }

/-- The members after the timer has expired. -/
def expired (segSize : BitVec 32) (d : AckDelay) : AckDelay :=
  { d.observed .delAckTimeout with dwnd := d.backedOff segSize }

theorem Regular.counted (h : d.Regular) {now last : Int} (later : last ≤ now) :
    ∃ q b, (d.counted now last).iat = .finite q ∧ (d.counted now last).baseIat = .finite b ∧
      (d.counted now last).lambda = d.lambda ∧ (d.counted now last).dwnd = d.dwnd ∧
        0 ≤ b ∧ 0 ≤ q ∧ b ≤ q := by
  obtain ⟨b, base, nonneg, below⟩ := counted_baseIat now last h.base later
  obtain ⟨baseIat, lastUpdate, eq⟩ := counted_eq now last d
  rw [eq] at base ⊢
  exact ⟨_, b, rfl, base, rfl, rfl, nonneg, nonneg.trans below, below⟩

theorem Regular.grown (h : d.Regular) {now last : Int} (later : last ≤ now)
    (cwndDiff segSize R : BitVec 32) : (d.grown now last cwndDiff segSize R).Regular := by
  obtain ⟨q, b, iat, base, lambda, dwnd, baseNonneg, nonneg, -⟩ := h.counted later
  refine ⟨?_, ?_, fun nonzero => ?_⟩
  · change (d.counted now last).baseIat.Nonneg
    rw [base]
    exact baseNonneg
  · change (d.counted now last).iat.Nonneg
    rw [iat]
    exact nonneg
  · have nonzero : (d.counted now last).lambda ≠ 0 := nonzero
    obtain ⟨w, window⟩ := h.window (lambda ▸ nonzero)
    change ∃ w, AckDelay.updated _ cwndDiff segSize R _ = .finite w
    unfold updated
    split
    · change ∃ w, Extended.min ((d.counted now last).dwnd + _) _ = .finite w
      rw [getTimeRatio_measured nonzero base iat baseNonneg nonneg, dwnd, window]
      exact ⟨_, Extended.min_finite _ _⟩
    · split
      · exact ⟨_, rfl⟩
      · exact ⟨w, dwnd.trans window⟩

theorem Regular.expired (h : d.Regular) (segSize : BitVec 32) : (d.expired segSize).Regular where
  base := h.base
  iat := h.iat
  window nonzero := h.backedOff nonzero segSize

end AckDelay

namespace Receiver

variable {profile : BuildProfile} {s t : Receiver}

/-! ## What a call does to the adaptive delay -/

/-- The first packet, a time that is too small to count, and one that counts. -/
theorem arrive_cases {now : Int} (run : s.arrive profile now = some t) :
    (s.delay.lastPacketTime = none ∧
      t.delay = { s.delay with dwnd := s.delay.minimum s.segSize, lastPacketTime := some now }) ∨
    ∃ last, s.delay.lastPacketTime = some last ∧
      ((AckDelay.seconds (now - last) < s.delay.iatThreshold ∧
          t.delay = { s.delay.timed now last with lastPacketTime := some now }) ∨
        (s.delay.iatThreshold ≤ AckDelay.seconds (now - last) ∧
          t.delay = s.delay.grown now last s.options.cwndDiff s.segSize s.bound)) := by
  unfold arrive at run
  cases lastTime : s.delay.lastPacketTime with
  | none =>
    rw [lastTime] at run
    cases run
    exact .inl ⟨rfl, rfl⟩
  | some last =>
    rw [lastTime] at run
    obtain ⟨u, update, rfl⟩ := Option.map_eq_some_iff.mp run
    refine .inr ⟨last, rfl, ?_⟩
    split at update
    · rename_i counts
      obtain ⟨⟨w, v⟩, advertised, update⟩ := bind_returns.mp update
      obtain rfl := advertisedWindowSize_eq advertised
      cases update
      exact .inr ⟨counts, rfl⟩
    · rename_i short
      cases update
      exact .inl ⟨not_le.mp short, rfl⟩

theorem store_delay {p : Packet} {h : TcpHeader} {app : Application} {stored : Stored}
    (run : s.store profile p h app = some (stored, t)) : t.delay = s.delay := by
  obtain ⟨⟨added, rxBuffer⟩, -, run⟩ := bind_returns.mp run
  dsimp only at run
  split at run
  · exact (congrArg delay (Prod.mk.inj (Option.some.inj run)).2).symm
  · obtain ⟨u, reads, run⟩ := bind_returns.mp run
    obtain rfl := (Prod.mk.inj (Option.some.inj run)).2
    exact ((frame_notifyDataRecv _ app _).of_eq_some reads).delay

theorem receivedData_cases {now : Int} {p : Packet} {h : TcpHeader} {app : Application}
    (run : s.receivedData profile now p h app = some t) : ∃ u v stored,
      s.arrive profile now = some u ∧ u.store profile p h app = some (stored, v) ∧
        v.delay = u.delay ∧ Frame (v.answered stored) t := by
  obtain ⟨u, arrived, run⟩ := bind_returns.mp run
  obtain ⟨⟨stored, v⟩, placed, run⟩ := bind_returns.mp run
  exact ⟨u, v, stored, arrived, placed, store_delay placed,
    (frame_answer app v stored).of_eq_some run⟩

/-- Only data and the timer touch the delay. -/
def Untouched : Call → Prop
  | .receivedData .. | .delAckTimeout => False
  | _ => True

theorem delAckTimeout_delay (run : s.delAckTimeout profile = some t) :
    t.delay = s.delay.expired s.segSize :=
  ((frame_acknowledge _).of_eq_some run).delay

theorem step_delay {c : Call} (run : s.step profile c = some t) :
    (Untouched c ∧ t.delay = s.delay) ∨
      (∃ now p h app, c = .receivedData now p h app ∧
        s.receivedData profile now p h app = some t) ∨
      (c = .delAckTimeout ∧ ((s.delAckRunning = true ∧ t.delay = s.delay.expired s.segSize) ∨
        (s.delAckRunning ≠ true ∧ t = s))) := by
  cases c with
  | doForwardUp h =>
    obtain ⟨r, -, run⟩ := bind_returns.mp run
    exact .inl ⟨trivial, (congrArg delay (Option.some.inj run)).symm⟩
  | receivedData now p h app => exact .inr (.inl ⟨now, p, h, app, rfl, run⟩)
  | setFinSequence seq => exact .inl ⟨trivial, (congrArg delay (Option.some.inj run)).symm⟩
  | delAckTimeout =>
    refine .inr (.inr ⟨rfl, ?_⟩)
    simp only [step] at run
    split at run
    · next running => exact .inl ⟨running, delAckTimeout_delay run⟩
    · next stopped => exact .inr ⟨stopped, (Option.some.inj run).symm⟩
  | recv maxSize => exact .inl ⟨trivial, ((frame_recv maxSize s).of_eq_some run).delay⟩
  | sendEmptyPacket flags =>
    exact .inl ⟨trivial, ((frame_sendEmptyPacket flags s).of_eq_some run).delay⟩
  | sendDataPacket =>
    obtain ⟨⟨w, u⟩, advertised, run⟩ := bind_returns.mp run
    obtain rfl := advertisedWindowSize_eq advertised
    exact .inl ⟨trivial, (congrArg delay (Option.some.inj run)).symm⟩

/-! ## The members in every state -/

theorem Fresh.regular (h : s.Fresh) : s.delay.Regular where
  base := by
    rw [h.baseIat]
    trivial
  iat := by
    rw [h.iat]
    trivial
  window _ := ⟨3, h.dwnd⟩

theorem arrive_regular {now : Int} (regular : s.delay.Regular)
    (timely : ∀ last ∈ s.delay.lastPacketTime, last ≤ now)
    (run : s.arrive profile now = some t) : t.delay.Regular := by
  rcases arrive_cases run with ⟨-, eq⟩ | ⟨last, lastTime, ⟨-, eq⟩ | ⟨-, eq⟩⟩
  · rw [eq]
    exact ⟨regular.base, regular.iat, fun _ => ⟨_, rfl⟩⟩
  · rw [eq]
    have later := timely last lastTime
    exact ⟨regular.base, AckDelay.seconds_nonneg (sub_nonneg.mpr later), regular.window⟩
  · rw [eq]
    exact regular.grown (timely last lastTime) _ _ _

theorem answered_regular (regular : s.delay.Regular) (stored : Stored) :
    (s.answered stored).delay.Regular := by
  cases stored with
  | outOfOrder => exact ⟨regular.base, regular.iat, fun _ => ⟨_, rfl⟩⟩
  | refused => exact regular
  | complete => exact regular
  | inSequence => exact regular

theorem step_regular {c : Call} (regular : s.delay.Regular) (timely : s.Timely c)
    (run : s.step profile c = some t) : t.delay.Regular := by
  rcases step_delay run with ⟨-, same⟩ | ⟨now, p, h, app, rfl, run⟩ | ⟨-, ⟨-, eq⟩ | ⟨-, rfl⟩⟩
  · exact same ▸ regular
  · obtain ⟨u, v, stored, arrived, -, same, frame⟩ := receivedData_cases run
    rw [frame.delay]
    refine answered_regular ?_ stored
    rw [same]
    exact arrive_regular regular timely arrived
  · exact eq ▸ regular.expired _
  · exact regular

end Receiver

end Ns3.TcpSocketBase
