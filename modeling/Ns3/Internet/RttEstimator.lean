import Ns3.Core.Assert
import Ns3.Library.Run
import Mathlib.Algebra.Order.Ring.Rat

/-!
# The mean-deviation estimator

`RttMeanDeviation` smooths the measured round-trip times and their deviation. With gains that are
reciprocal powers of two it does so by shifts of 64-bit integers; a value that 64 bits do not hold
ends the run here. The update in floating point, for all other gains, is a parameter.

Both updates of the integer path have one form: they move a value by a fraction of its distance
to a sample, rounded down, and so leave it between what they started from.
-/

namespace Ns3

open List Option

/-- The fields of `RttMeanDeviation`. Times are in their integer unit. -/
structure RttMeanDeviation where
  alpha : Rat := 1 / 8
  beta : Rat := 1 / 4
  estimatedRtt : Int
  estimatedVariation : Int := 0
  nSamples : Nat := 0
  deriving DecidableEq

namespace RttMeanDeviation

/-- A value of type `int64_t`. -/
def int64 (n : Int) : Option Int := if -2 ^ 63 ≤ n ∧ n < 2 ^ 63 then some n else none

def tolerance : Rat := 1 / 1000000

/-- `CheckForReciprocalPowerOfTwo`: the binary logarithm of the reciprocal, or 0. -/
def checkForReciprocalPowerOfTwo (val : Rat) : Nat :=
  if val < tolerance then 0
  else if |1 / val - 8| < tolerance then 3
  else if |1 / val - 4| < tolerance then 2
  else if |1 / val - 32| < tolerance then 5
  else if |1 / val - 16| < tolerance then 4
  else if |1 / val - 2| < tolerance then 1
  else 0

theorem default_shifts :
    checkForReciprocalPowerOfTwo (1 / 8) = 3 ∧ checkForReciprocalPowerOfTwo (1 / 4) = 2 := by
  decide +kernel

/-- `IntegerUpdate`. -/
def integerUpdate (e : RttMeanDeviation) (meas : Int) (rttShift variationShift : Nat) :
    Option RttMeanDeviation := do
  let delta ← int64 (meas - e.estimatedRtt)
  let srtt ← int64 ((← int64 (e.estimatedRtt * 2 ^ rttShift)) + delta)
  let delta ← (if delta < 0 then int64 (-delta) else some delta)
  let delta ← int64 (delta - e.estimatedVariation)
  let rttvar ← int64 ((← int64 (e.estimatedVariation * 2 ^ variationShift)) + delta)
  return { e with
    estimatedRtt := srtt >>> rttShift
    estimatedVariation := rttvar >>> variationShift }

/-- `Measurement`. The number of samples is a `uint32_t`. -/
def measurement (floatingPointUpdate : RttMeanDeviation → Int → RttMeanDeviation)
    (e : RttMeanDeviation) (m : Int) : Option RttMeanDeviation := do
  let rttShift := checkForReciprocalPowerOfTwo e.alpha
  let variationShift := checkForReciprocalPowerOfTwo e.beta
  let e ← (if e.nSamples ≠ 0 then
      if rttShift ≠ 0 ∧ variationShift ≠ 0 then integerUpdate e m rttShift variationShift
      else some (floatingPointUpdate e m)
    else some { e with estimatedRtt := m, estimatedVariation := m.tdiv 2 })
  return { e with nSamples := UInt32.add e.nSamples 1 }

section Smoothing

variable {low high value sample : Int}

/-- A value that moves towards a sample stays in every interval that holds them both. -/
theorem smoothed_between (shift : Nat) (value_ : low ≤ value ∧ value ≤ high)
    (sample_ : low ≤ sample ∧ sample ≤ high) :
    low ≤ (value * 2 ^ shift + (sample - value)) >>> shift ∧
      (value * 2 ^ shift + (sample - value)) >>> shift ≤ high := by
  have one : (1 : Int) ≤ 2 ^ shift := Int.pow_pos (by decide)
  have positive : (0 : Int) < 2 ^ shift := by omega
  have below : low * (2 ^ shift - 1) ≤ value * (2 ^ shift - 1) :=
    Int.mul_le_mul_of_nonneg_right value_.1 (by omega)
  have above : value * (2 ^ shift - 1) ≤ high * (2 ^ shift - 1) :=
    Int.mul_le_mul_of_nonneg_right value_.2 (by omega)
  simp only [Int.mul_sub, Int.mul_one] at below above
  rw [Int.shiftRight_eq_div_pow]
  constructor
  · refine (Int.le_ediv_iff_mul_le (by exact_mod_cast positive)).mpr ?_
    push_cast
    omega
  · refine Int.ediv_le_of_le_mul (by exact_mod_cast positive) ?_
    push_cast
    omega

end Smoothing

section Samples

/-- The smallest of the measurements. -/
def least : List Int → Int
  | [] => 0
  | m :: ms => ms.foldl min m

/-- The largest of the measurements. -/
def greatest : List Int → Int
  | [] => 0
  | m :: ms => ms.foldl max m

/-- The larger of half the first measurement and the spread of the measurements. -/
def spreadBound (samples : List Int) : Int :=
  max (samples.headD 0 / 2) (greatest samples - least samples)

variable {samples : List Int} {m : Int}

theorem least_concat (some_ : samples ≠ []) : least (samples ++ [m]) = min (least samples) m := by
  cases samples with
  | nil => exact absurd rfl some_
  | cons first rest => simp [least]

theorem greatest_concat (some_ : samples ≠ []) :
    greatest (samples ++ [m]) = max (greatest samples) m := by
  cases samples with
  | nil => exact absurd rfl some_
  | cons first rest => simp [greatest]

theorem spreadBound_concat (some_ : samples ≠ []) :
    spreadBound samples ≤ spreadBound (samples ++ [m]) := by
  have head : (samples ++ [m]).headD 0 = samples.headD 0 := by
    cases samples with
    | nil => exact absurd rfl some_
    | cons first rest => rfl
  rw [spreadBound, spreadBound, head, least_concat some_, greatest_concat some_]
  omega

/-- The estimate lies between the smallest and the largest measurement, and the variation between
zero and the bound. -/
structure WithinSamples (samples : List Int) (e : RttMeanDeviation) : Prop where
  low : least samples ≤ e.estimatedRtt
  high : e.estimatedRtt ≤ greatest samples
  nonneg : 0 ≤ e.estimatedVariation
  bound : e.estimatedVariation ≤ spreadBound samples

end Samples

section Steps

variable {floatingPointUpdate : RttMeanDeviation → Int → RttMeanDeviation}
variable {e e' : RttMeanDeviation} {samples : List Int} {m : Int}

theorem int64_eq_some {n k : Int} (run : int64 n = some k) : k = n := by
  unfold int64 at run
  split at run
  · exact (some.inj run).symm
  · cases run

/-- The distance between a measurement and the estimate. -/
def deviation (e : RttMeanDeviation) (m : Int) : Int :=
  if m - e.estimatedRtt < 0 then -(m - e.estimatedRtt) else m - e.estimatedRtt

/-- The integer update smooths the estimate towards the measurement, and the variation towards
the deviation. -/
theorem integerUpdate_eq {rttShift variationShift : Nat}
    (run : e.integerUpdate m rttShift variationShift = some e') :
    e' = { e with
      estimatedRtt := (e.estimatedRtt * 2 ^ rttShift + (m - e.estimatedRtt)) >>> rttShift
      estimatedVariation := (e.estimatedVariation * 2 ^ variationShift +
        (e.deviation m - e.estimatedVariation)) >>> variationShift } := by
  simp only [integerUpdate, bind_returns, pure_returns] at run
  obtain ⟨delta, error, scaled, left, srtt, sum, absolute, sign, delta', less, scaled', left',
    rttvar, sum', rfl⟩ := run
  obtain rfl := int64_eq_some error
  obtain rfl := int64_eq_some left
  obtain rfl := int64_eq_some sum
  obtain rfl := int64_eq_some less
  obtain rfl := int64_eq_some left'
  obtain rfl := int64_eq_some sum'
  have distance : absolute = e.deviation m := by
    unfold deviation
    split at sign
    · next negative =>
      rw [if_pos negative]
      exact int64_eq_some sign
    · next nonneg =>
      rw [if_neg nonneg]
      exact (some.inj sign).symm
  rw [distance]

theorem measurement_first (first : e.nSamples = 0) (m : Int) :
    e.measurement floatingPointUpdate m = some { e with
      estimatedRtt := m, estimatedVariation := m.tdiv 2
      nSamples := UInt32.add e.nSamples 1 } := by
  rw [measurement, if_neg (fun later => later first)]
  rfl

/-- A measurement that is taken for the first one restarts the estimator, and any other one
updates it. -/
theorem measurement_cases (alpha_ : checkForReciprocalPowerOfTwo e.alpha ≠ 0)
    (beta_ : checkForReciprocalPowerOfTwo e.beta ≠ 0)
    (run : e.measurement floatingPointUpdate m = some e') :
    (e.nSamples = 0 ∧ e' = { e with
        estimatedRtt := m, estimatedVariation := m.tdiv 2
        nSamples := UInt32.add e.nSamples 1 }) ∨
      (e.nSamples ≠ 0 ∧ ∃ rttShift variationShift : Nat, e' = { e with
        estimatedRtt := (e.estimatedRtt * 2 ^ rttShift + (m - e.estimatedRtt)) >>> rttShift
        estimatedVariation := (e.estimatedVariation * 2 ^ variationShift +
          (e.deviation m - e.estimatedVariation)) >>> variationShift
        nSamples := UInt32.add e.nSamples 1 }) := by
  by_cases first : e.nSamples = 0
  · rw [measurement_first first] at run
    exact .inl ⟨first, (some.inj run).symm⟩
  · simp only [measurement, bind_returns, pure_returns] at run
    obtain ⟨updated, update, rfl⟩ := run
    rw [if_pos first, if_pos ⟨alpha_, beta_⟩] at update
    obtain rfl := integerUpdate_eq update
    exact .inr ⟨first, _, _, rfl⟩

/-- The integer update keeps the estimator within its samples. -/
theorem WithinSamples.update (within : WithinSamples samples e) (some_ : samples ≠ [])
    (rttShift variationShift nSamples : Nat) :
    WithinSamples (samples ++ [m]) { e with
      estimatedRtt := (e.estimatedRtt * 2 ^ rttShift + (m - e.estimatedRtt)) >>> rttShift
      estimatedVariation := (e.estimatedVariation * 2 ^ variationShift +
        (e.deviation m - e.estimatedVariation)) >>> variationShift
      nSamples } := by
  have low := within.low
  have high := within.high
  have least_ := least_concat (m := m) some_
  have greatest_ := greatest_concat (m := m) some_
  have wider := (within.bound).trans (spreadBound_concat (m := m) some_)
  have nonneg := within.nonneg
  -- The deviation is at most the spread, since both its ends lie between the extremes.
  have deviation_ : 0 ≤ e.deviation m ∧ e.deviation m ≤ spreadBound (samples ++ [m]) := by
    rw [spreadBound, least_, greatest_, deviation]
    split <;> omega
  obtain ⟨above, below⟩ := smoothed_between rttShift
    (show least (samples ++ [m]) ≤ e.estimatedRtt ∧ e.estimatedRtt ≤ greatest (samples ++ [m])
      by omega)
    (show least (samples ++ [m]) ≤ m ∧ m ≤ greatest (samples ++ [m]) by omega)
  obtain ⟨nonneg', bound'⟩ := smoothed_between variationShift ⟨nonneg, wider⟩ deviation_
  exact ⟨above, below, nonneg', bound'⟩

/-- A restarted estimator is within its samples if and only if half the measurement is within
the bound. -/
theorem withinSamples_restart_iff (positive : 0 < m) (nSamples : Nat) :
    WithinSamples (samples ++ [m]) { e with
        estimatedRtt := m, estimatedVariation := m.tdiv 2, nSamples } ↔
      m / 2 ≤ spreadBound (samples ++ [m]) := by
  have half : m.tdiv 2 = m / 2 := Int.tdiv_eq_ediv_of_nonneg positive.le
  constructor
  · intro within
    exact half ▸ within.bound
  · intro bound
    have between : least (samples ++ [m]) ≤ m ∧ m ≤ greatest (samples ++ [m]) := by
      cases samples with
      | nil => exact ⟨le_refl m, le_refl m⟩
      | cons first rest =>
        rw [least_concat (cons_ne_nil _ _), greatest_concat (cons_ne_nil _ _)]
        omega
    refine ⟨between.1, between.2, ?_, ?_⟩
    · show 0 ≤ m.tdiv 2
      omega
    · show m.tdiv 2 ≤ _
      omega

end Steps

section Runs

/-- An estimator and all its measurements so far. -/
structure Sampled where
  estimator : RttMeanDeviation
  samples : List Int := []
  deriving DecidableEq

/-- One measurement more. -/
def Sampled.measurement (floatingPointUpdate : RttMeanDeviation → Int → RttMeanDeviation)
    (s : Sampled) (m : Int) : Option Sampled :=
  (s.estimator.measurement floatingPointUpdate m).map fun estimator =>
    { estimator, samples := s.samples ++ [m] }

/-- After the first measurement the estimator is within its samples. -/
def Sampled.Within (s : Sampled) : Prop := s.samples ≠ [] → WithinSamples s.samples s.estimator

/-- A measurement after a multiple of `2 ^ 32` others counts as the first one again. Half of it
is then within the bound. -/
def Sampled.RestartsWithin (s : Sampled) (m : Int) : Prop :=
  s.samples ≠ [] → s.samples.length % 2 ^ 32 = 0 → m / 2 ≤ spreadBound (s.samples ++ [m])
  deriving Decidable

/-- The invariant: the integer path is taken, and the samples are counted modulo `2 ^ 32`. -/
structure Sampled.Inv (s : Sampled) : Prop where
  alpha : checkForReciprocalPowerOfTwo s.estimator.alpha ≠ 0
  beta : checkForReciprocalPowerOfTwo s.estimator.beta ≠ 0
  nSamples : s.estimator.nSamples = s.samples.length % 2 ^ 32
  within : s.Within

variable {floatingPointUpdate : RttMeanDeviation → Int → RttMeanDeviation}
variable {s s' : Sampled} {m : Int}

/-- After one more measurement the estimator is within its samples if and only if it does not
restart beyond the bound. -/
theorem Sampled.Inv.within_iff (inv : s.Inv) (positive : 0 < m)
    (run : s.measurement floatingPointUpdate m = some s') :
    s'.Within ↔ s.RestartsWithin m := by
  obtain ⟨estimator, step, rfl⟩ := map_eq_some_iff.mp run
  have more : s.samples ++ [m] ≠ [] := by simp
  have count := inv.nSamples
  rcases measurement_cases inv.alpha inv.beta step with ⟨first, rfl⟩ | ⟨later, _, _, rfl⟩
  · have restart := @withinSamples_restart_iff s.estimator s.samples m positive
      (UInt32.add s.estimator.nSamples 1)
    constructor
    · intro within _ _
      exact restart.mp (within more)
    · intro condition _
      refine restart.mpr ?_
      by_cases empty : s.samples = []
      · rw [empty]
        simp [spreadBound]
      · exact condition empty (by omega)
  · have some_ : s.samples ≠ [] := by
      intro empty
      rw [empty] at count
      exact later count
    refine iff_of_true (fun _ => (inv.within some_).update some_ _ _ _) fun _ multiple => ?_
    omega

theorem Sampled.Inv.measurement (inv : s.Inv) (positive : 0 < m) (condition : s.RestartsWithin m)
    (run : s.measurement floatingPointUpdate m = some s') : s'.Inv := by
  have within := (inv.within_iff positive run).mpr condition
  obtain ⟨estimator, step, rfl⟩ := map_eq_some_iff.mp run
  have counted : UInt32.add s.estimator.nSamples 1 = (s.samples ++ [m]).length % 2 ^ 32 := by
    rw [inv.nSamples, UInt32.add_mod, length_append, length_singleton]
  rcases measurement_cases inv.alpha inv.beta step with ⟨-, rfl⟩ | ⟨-, _, _, rfl⟩
  · exact ⟨inv.alpha, inv.beta, counted, within⟩
  · exact ⟨inv.alpha, inv.beta, counted, within⟩

/-- The estimator stays within its samples if and only if it never restarts beyond the bound,
which takes more than `2 ^ 32` measurements. -/
theorem withinSamples_iff (floatingPointUpdate : RttMeanDeviation → Int → RttMeanDeviation)
    (e : RttMeanDeviation) (fresh : e.nSamples = 0)
    (alpha : checkForReciprocalPowerOfTwo e.alpha ≠ 0)
    (beta : checkForReciprocalPowerOfTwo e.beta ≠ 0) (measurements : List Int)
    (positive : ∀ m ∈ measurements, 0 < m) :
    Run.Always (Sampled.measurement floatingPointUpdate) Sampled.Within { estimator := e }
        measurements ↔
      Run.Meets (Sampled.measurement floatingPointUpdate) Sampled.RestartsWithin
        { estimator := e } measurements := by
  have start : Sampled.Inv { estimator := e } := ⟨alpha, beta, fresh, fun some_ => absurd rfl some_⟩
  have domain : Run.Meets (Sampled.measurement floatingPointUpdate) (fun _ m => 0 < m)
      { estimator := e } measurements := Run.Meets.of_calls positive _
  refine Run.always_iff_meets_within start domain (fun _ inv => inv.within)
    (fun _ _ _ inv positive condition run => inv.measurement positive condition run) ?_
  -- A restart overflows nothing, so it returns.
  intro s m inv positive within some_ multiple
  have first : s.estimator.nSamples = 0 := inv.nSamples.trans multiple
  have run : s.measurement floatingPointUpdate m = some _ :=
    congrArg (Option.map _) (measurement_first first m)
  exact (inv.within_iff positive run).mp (within _ run) some_ multiple

/-- Among the first `2 ^ 32` measurements only the very first restarts the estimator. -/
theorem restartsWithin_of_length {measurements : List Int}
    (short : s.samples.length + measurements.length ≤ 2 ^ 32) :
    Run.Meets (Sampled.measurement floatingPointUpdate) Sampled.RestartsWithin s measurements := by
  induction measurements generalizing s with
  | nil => trivial
  | cons m measurements ih =>
    rw [length_cons] at short
    refine ⟨fun some_ multiple => ?_, fun t run => ih ?_⟩
    · have pos := length_pos_iff.mpr some_
      omega
    · obtain ⟨estimator, -, rfl⟩ := map_eq_some_iff.mp run
      rw [length_append, length_singleton]
      omega

/-- Three measurements, the last two below the estimate and above it. -/
theorem withinSamples_three :
    Run.Always (Sampled.measurement fun e _ => e) Sampled.Within
      { estimator := { estimatedRtt := 1000 } } [100, 60, 150] :=
  (withinSamples_iff (fun e _ => e) { estimatedRtt := 1000 } rfl
    (default_shifts.1.trans_ne (by decide)) (default_shifts.2.trans_ne (by decide))
    [100, 60, 150] (by decide)).mpr (restartsWithin_of_length (by decide))

end Runs

section Wrap

theorem samples_of_exec {floatingPointUpdate : RttMeanDeviation → Int → RttMeanDeviation}
    {s t : Sampled} {measurements : List Int}
    (run : Run.exec (Sampled.measurement floatingPointUpdate) s measurements = some t) :
    t.samples = s.samples ++ measurements := by
  induction measurements generalizing s with
  | nil =>
    cases run
    rw [append_nil]
  | cons m measurements ih =>
    obtain ⟨next, first, rest⟩ := Run.exec_cons_eq_some.mp run
    obtain ⟨estimator, -, rfl⟩ := map_eq_some_iff.mp first
    rw [ih rest, append_assoc]
    rfl

theorem least_replicate (a : Int) (n : Nat) : least (List.replicate (n + 1) a) = a := by
  induction n with
  | zero => rfl
  | succ n ih => rw [replicate_succ', least_concat (by simp), ih, min_self]

theorem greatest_replicate (a : Int) (n : Nat) : greatest (List.replicate (n + 1) a) = a := by
  induction n with
  | zero => rfl
  | succ n ih => rw [replicate_succ', greatest_concat (by simp), ih, max_self]

/-- An estimator that has measured nothing but 100 so far. -/
structure Steady (s : Sampled) : Prop where
  alpha : s.estimator.alpha = 1 / 8
  beta : s.estimator.beta = 1 / 4
  nSamples : s.estimator.nSamples = s.samples.length % 2 ^ 32
  later : s.estimator.nSamples ≠ 0 → s.estimator.estimatedRtt = 100 ∧
    0 ≤ s.estimator.estimatedVariation ∧ s.estimator.estimatedVariation ≤ 50

theorem Steady.measurement {s : Sampled} (steady : Steady s) :
    ∃ t, s.measurement (fun e _ => e) 100 = some t ∧ Steady t := by
  obtain ⟨alpha, beta, nSamples, later⟩ := steady
  have counted : UInt32.add s.estimator.nSamples 1 = (s.samples ++ [100]).length % 2 ^ 32 := by
    rw [nSamples, UInt32.add_mod, length_append, length_singleton]
  by_cases first : s.estimator.nSamples = 0
  · refine ⟨_, congrArg (Option.map _) (measurement_first first 100), alpha, beta, counted, ?_⟩
    intro _
    exact ⟨rfl, show (0 : Int) ≤ Int.tdiv 100 2 by decide, show Int.tdiv 100 2 ≤ 50 by decide⟩
  · obtain ⟨rtt, nonneg, bound⟩ := later first
    have fits : ∀ n : Int, -1000 ≤ n → n ≤ 1000 → int64 n = some n := by
      intro n low high
      exact if_pos (by omega)
    obtain ⟨shift, variationShift⟩ := default_shifts
    have update : s.estimator.integerUpdate 100 3 2 = some { s.estimator with
        estimatedRtt := 100
        estimatedVariation := (s.estimator.estimatedVariation * 2 ^ 2 +
          (0 - s.estimator.estimatedVariation)) >>> (2 : Nat) } := by
      unfold integerUpdate
      rw [rtt, fits _ (by decide) (by decide), fits _ (by decide) (by decide)]
      simp only [bind_eq_bind, bind_some]
      rw [fits _ (by decide) (by decide), if_neg (by decide)]
      simp only [bind_some]
      rw [fits _ (by omega) (by omega), fits _ (by omega) (by omega)]
      simp only [bind_some]
      rw [fits _ (by omega) (by omega)]
      rfl
    have run : s.measurement (fun e _ => e) 100 = some {
        estimator := { s.estimator with
          estimatedRtt := 100
          estimatedVariation := (s.estimator.estimatedVariation * 2 ^ 2 +
            (0 - s.estimator.estimatedVariation)) >>> (2 : Nat)
          nSamples := UInt32.add s.estimator.nSamples 1 }
        samples := s.samples ++ [100] } := by
      rw [Sampled.measurement, RttMeanDeviation.measurement, alpha, beta, shift, variationShift,
        if_pos first, if_pos (by decide), update]
      rfl
    refine ⟨_, run, alpha, beta, counted, fun _ => ⟨rfl, ?_⟩⟩
    exact smoothed_between 2 ⟨nonneg, bound⟩ ⟨by decide, by decide⟩

/-- After `2 ^ 32` equal measurements the next one counts as the first again. The variation is
half of it, which is more than half the first measurement and more than the spread. -/
theorem variation_beyond_samples :
    ∃ s, Run.exec (Sampled.measurement fun e _ => e) { estimator := { estimatedRtt := 1000 } }
        (List.replicate (2 ^ 32) 100 ++ [150]) = some s ∧
      s.estimator.estimatedVariation = 75 ∧ spreadBound s.samples = 50 := by
  have meets : Run.Meets (Sampled.measurement fun e _ => e) (fun _ m => m = 100)
      { estimator := { estimatedRtt := 1000 } } (List.replicate (2 ^ 32) 100) :=
    Run.Meets.of_calls (fun m mem => List.eq_of_mem_replicate mem) _
  have start : Steady { estimator := { estimatedRtt := 1000 } } :=
    ⟨rfl, rfl, rfl, fun later => absurd rfl later⟩
  obtain ⟨s, run, steady⟩ := Run.total start meets fun s m steady hundred =>
    hundred ▸ steady.measurement
  have samples : s.samples = List.replicate (2 ^ 32) 100 := samples_of_exec run
  have restarts : s.estimator.nSamples = 0 := by
    rw [steady.nSamples, samples, List.length_replicate, Nat.mod_self]
  have last : s.measurement (fun e _ => e) 150 = some _ :=
    congrArg (Option.map _) (measurement_first restarts 150)
  refine ⟨_, (Run.exec_concat run 150).trans last, rfl, ?_⟩
  show spreadBound (s.samples ++ [150]) = 50
  have some_ : s.samples ≠ [] := by
    rw [samples]
    exact List.cons_ne_nil _ _
  rw [spreadBound, least_concat some_, greatest_concat some_, samples]
  rw [show (2 : Nat) ^ 32 = 4294967295 + 1 by decide, least_replicate, greatest_replicate]
  rfl

end Wrap

end RttMeanDeviation

end Ns3
