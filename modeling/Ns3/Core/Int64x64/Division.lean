import Ns3.Core.Int64x64.Basic
import Ns3.Library.Division
import Mathlib.Tactic.Linarith

/-!
# What `Udiv` computes

Between rounds the remainder, times a factor that was shifted out of the divisor, is the
remainder of a long division. A round shifts the remainder until its highest bit is set, which
makes it at least as large as a divisor of at most `2 ^ 127`: so a bit is cast off only where it
is zero, and the quotient stays exact.
-/

namespace Ns3

namespace Int64x64

namespace Division

open LongDivision

variable {s t : Division}

theorem even_iff (den : UInt128) : den &&& 0x1 = 0 ↔ den.toNat % 2 = 0 := by
  have bit : (den &&& 0x1#128).toNat = den.toNat % 2 := by exact Nat.and_one_is_mod den.toNat
  rw [← BitVec.toNat_inj]
  exact bit ▸ Iff.rfl

theorem below_iff (rem : UInt128) : rem &&& hp128MaskHiBit = 0 ↔ rem.toNat < 2 ^ 127 := by
  have mask : hp128MaskHiBit = BitVec.twoPow 128 127 := rfl
  have top := BitVec.msb_eq_decide rem
  rw [mask, BitVec.and_twoPow]
  have msb : rem.getLsbD 127 = rem.msb := by simp [BitVec.msb, BitVec.getMsbD]
  rw [msb, top]
  simp

/-- The trailing zeros that are skipped. -/
theorem skipTrailing_spec (room : Nat) (s : Division) :
    ∃ m, m ≤ room ∧ (skipTrailing room s).shift = s.shift + m ∧
      (skipTrailing room s).den.toNat * 2 ^ m = s.den.toNat ∧
      (skipTrailing room s).rem = s.rem ∧ (skipTrailing room s).result = s.result ∧
      (skipTrailing room s).digis = s.digis := by
  induction room generalizing s with
  | zero => exact ⟨0, le_rfl, rfl, by simp [skipTrailing], rfl, rfl, rfl⟩
  | succ room ih =>
    rw [skipTrailing]
    split
    case isTrue even =>
      obtain ⟨m, le, shift, den, rem, result, digis⟩ :=
        ih { s with shift := s.shift + 1, den := s.den >>> 1 }
      refine ⟨m + 1, Nat.succ_le_succ le, by rw [shift]; simp only; omega, ?_, rem, result, digis⟩
      have half : (s.den >>> 1).toNat = s.den.toNat / 2 := by simp [Nat.shiftRight_eq_div_pow]
      rw [even_iff] at even
      rw [pow_succ, ← Nat.mul_assoc, den]
      simp only [half]
      omega
    case isFalse => exact ⟨0, Nat.zero_le _, rfl, by simp, rfl, rfl, rfl⟩

/-- The leading zeros that are skipped: the highest bit is set afterwards, or all digits that
are wanted have been accounted for. -/
theorem skipLeading_spec (room : Nat) (s : Division) :
    ∃ k, k ≤ room ∧ (skipLeading room s).shift = s.shift + k ∧
      (skipLeading room s).rem.toNat = s.rem.toNat * 2 ^ k ∧
      (k = room ∨ 2 ^ 127 ≤ (skipLeading room s).rem.toNat) ∧
      (0 < room → s.rem.toNat < 2 ^ 127 → 0 < k) ∧
      (skipLeading room s).den = s.den ∧ (skipLeading room s).result = s.result ∧
      (skipLeading room s).digis = s.digis := by
  induction room generalizing s with
  | zero => exact ⟨0, le_rfl, rfl, by simp [skipLeading], .inl rfl, nofun, rfl, rfl, rfl⟩
  | succ room ih =>
    rw [skipLeading]
    split
    case isTrue zero =>
      obtain ⟨k, le, shift, rem, ends, -, den, result, digis⟩ :=
        ih { s with shift := s.shift + 1, rem := s.rem <<< 1 }
      rw [below_iff] at zero
      have double : (s.rem <<< 1).toNat = s.rem.toNat * 2 := by
        simp only [BitVec.toNat_shiftLeft, Nat.shiftLeft_eq]
        omega
      refine ⟨k + 1, Nat.succ_le_succ le, by rw [shift]; simp only; omega, ?_,
        ends.imp_left (congrArg Nat.succ), fun _ _ => Nat.succ_pos k, den, result, digis⟩
      rw [rem]
      simp only [double]
      ring
    case isFalse one =>
      rw [below_iff, Nat.not_lt] at one
      exact ⟨0, Nat.zero_le _,
        rfl, by simp, .inr one, fun _ low => absurd one (Nat.not_le.mpr low),
        rfl, rfl, rfl⟩

/-- The bits of the denominator that are cast off are zeros, if the denominator is not above the
remainder. -/
theorem castOff_spec (room : Nat) (s : Division) (below : room = 0 ∨ s.den.toNat ≤ s.rem.toNat) :
    ∃ m, m ≤ room ∧ (castOff room s).shift = s.shift + m ∧
      (castOff room s).den.toNat * 2 ^ m = s.den.toNat ∧
      (castOff room s).rem = s.rem ∧ (castOff room s).result = s.result ∧
      (castOff room s).digis = s.digis := by
  induction room generalizing s with
  | zero => exact ⟨0, le_rfl, rfl, by simp [castOff], rfl, rfl, rfl⟩
  | succ room ih =>
    have below : s.den.toNat ≤ s.rem.toNat := below.resolve_left (Nat.succ_ne_zero room)
    rw [castOff]
    split
    case isTrue cast =>
      have half : (s.den >>> 1).toNat = s.den.toNat / 2 := by simp [Nat.shiftRight_eq_div_pow]
      have even : s.den.toNat % 2 = 0 := by
        obtain even | less := cast
        · exact (even_iff s.den).mp even
        · exact absurd (BitVec.lt_def.mp less) (Nat.not_lt.mpr below)
      obtain ⟨m, le, shift, den, rem, result, digis⟩ :=
        ih { s with shift := s.shift + 1, den := s.den >>> 1 } (.inr (by simp only [half]; omega))
      refine ⟨m + 1, Nat.succ_le_succ le, by rw [shift]; simp only; omega, ?_, rem, result, digis⟩
      rw [pow_succ, ← Nat.mul_assoc, den]
      simp only [half]
      omega
    case isFalse => exact ⟨0, Nat.zero_le _, rfl, by simp, rfl, rfl, rfl⟩

/-! ## Rounds -/

/-- What holds between rounds, where `c` is the factor that was shifted out of the divisor. -/
structure Scaled (a b c : Nat) (s : Division) : Prop where
  factor : 0 < c
  divisor : s.den.toNat * 2 ^ s.shift * c = b
  found : Found a b s.digis s.result.toNat (s.rem.toNat * c)
  within : s.digis + s.shift ≤ digits
  small : s.den.toNat ≤ 2 ^ 127

variable {a b c : Nat}

theorem Scaled.den_pos (h : Scaled a b c s) : 0 < s.den.toNat := by
  have pos : 0 < b := Nat.zero_lt_of_lt h.found.less
  rw [← h.divisor] at pos
  exact Nat.pos_of_mul_pos_right (Nat.pos_of_mul_pos_right pos)

theorem Scaled.rem_lt (h : Scaled a b c s) : s.rem.toNat < s.den.toNat * 2 ^ s.shift := by
  have less := h.found.less
  rw [← h.divisor] at less
  exact Nat.lt_of_mul_lt_mul_right less

/-- The two kinds of shifts of a round. -/
structure Shifted (s : Division) (k m : Nat) : Prop where
  shift : s.scale.shift = s.shift + m + k
  rem : s.scale.rem.toNat = s.rem.toNat * 2 ^ k
  den : s.scale.den.toNat * 2 ^ m = s.den.toNat
  result : s.scale.result = s.result
  digis : s.scale.digis = s.digis
  within : s.digis + s.scale.shift ≤ digits
  progress : 0 < s.scale.shift

theorem Scaled.scale (h : Scaled a b c s) (goes : s.Goes) : ∃ k m, Shifted s k m := by
  have within := h.within
  have left : s.digis < 64 := goes.1
  obtain ⟨k, some_, shift, rem, ends, progress, den, result, digis⟩ :=
    skipLeading_spec s.room s
  have left_ : s.room = 64 - (s.digis + s.shift) := rfl
  have after : (skipLeading s.room s).room = s.room - k := by
    change digits - ((skipLeading s.room s).digis + (skipLeading s.room s).shift) = s.room - k
    rw [shift, digis, left_, digits]
    omega
  have below : (skipLeading s.room s).room = 0 ∨
      (skipLeading s.room s).den.toNat ≤ (skipLeading s.room s).rem.toNat := by
    obtain full | high := ends
    · left
      omega
    · right
      rw [den]
      exact h.small.trans high
  obtain ⟨m, more, shift', den', rem', result', digis'⟩ :=
    castOff_spec (skipLeading s.room s).room (skipLeading s.room s) below
  have shifts : s.scale.shift = s.shift + m + k := by
    simp only [Division.scale, shift', shift]
    omega
  have bound : s.digis + s.scale.shift ≤ digits := by
    simp only [digits] at within ⊢
    omega
  refine ⟨k, m, shifts, ?_, ?_, ?_, ?_, bound, ?_⟩
  · simp only [Division.scale, rem', rem]
  · simp only [Division.scale, den', den]
  · simp only [Division.scale, result', result]
  · simp only [Division.scale, digis', digis]
  · -- without a shift the remainder is below the divisor, so that its highest bit is zero
    by_contra! none_
    have unshifted : s.shift = 0 := by omega
    have room : 0 < s.room := by omega
    have less := h.rem_lt
    rw [unshifted, pow_zero, Nat.mul_one] at less
    have some_shift := progress room (less.trans_le h.small)
    omega

/-- The shift count of a round is one that the type allows, no digit is shifted out, and the new
digits fit below those shifted up. -/
structure RoundFits (s : Division) : Prop where
  count : s.scale.shift < 128
  room : s.result.toNat * 2 ^ s.scale.shift + (s.scale.rem / s.scale.den).toNat < 2 ^ 128
  digits : (s.scale.rem / s.scale.den).toNat < 2 ^ s.scale.shift

theorem round_eq (ne : s.scale.den ≠ 0) :
    s.round = some { s.scale with
      rem := s.scale.rem % s.scale.den
      result := s.scale.result <<< s.scale.shift + s.scale.rem / s.scale.den
      digis := s.scale.digis + s.scale.shift
      shift := 0 } := if_neg ne

section

variable (h : Scaled a b c s) (wide : a * 2 ^ 64 / b < 2 ^ 128)
include h wide

/-- One round. -/
theorem Scaled.round (goes : s.Goes) :
    ∃ t c', s.round = some t ∧ Scaled a b c' t ∧ s.digis < t.digis ∧ s.RoundFits := by
  obtain ⟨k, m, shifted⟩ := h.scale goes
  have within := shifted.within
  have den_ne : s.scale.den ≠ 0 := by
    intro zero
    have none_ := shifted.den
    rw [zero] at none_
    have pos := h.den_pos
    simp at none_
    omega
  have divisor : s.scale.den.toNat * 2 ^ (s.shift + m) * c = b := by
    rw [← h.divisor, ← shifted.den]
    ring
  obtain ⟨quotient, remainder⟩ := digits_scaled (x := s.rem.toNat) (d := s.scale.den.toNat)
    (m := s.shift + m) h.factor k
  rw [divisor, ← shifted.rem, Nat.add_comm k, ← shifted.shift, ← BitVec.toNat_udiv] at quotient
  rw [divisor, ← shifted.rem, Nat.add_comm k, ← shifted.shift, ← BitVec.toNat_umod] at remainder
  have found := h.found.more s.scale.shift
  have digits_lt := h.found.digits_lt s.scale.shift
  rw [quotient] at found digits_lt
  rw [remainder] at found
  have fits : s.result.toNat * 2 ^ s.scale.shift + (s.scale.rem / s.scale.den).toNat < 2 ^ 128 := by
    have value := found.quotient
    rw [value]
    refine lt_of_le_of_lt (Nat.div_le_div_right (Nat.mul_le_mul_left a ?_)) wide
    exact Nat.pow_le_pow_right (by decide) within
  have result : (s.scale.result <<< s.scale.shift + s.scale.rem / s.scale.den).toNat =
      s.result.toNat * 2 ^ s.scale.shift + (s.scale.rem / s.scale.den).toNat := by
    rw [BitVec.toNat_add, BitVec.toNat_shiftLeft, shifted.result, Nat.shiftLeft_eq,
      Nat.mod_add_mod, Nat.mod_eq_of_lt fits]
  refine ⟨_, 2 ^ (s.shift + m) * c, round_eq den_ne,
    ⟨Nat.mul_pos (Nat.two_pow_pos _) h.factor, ?_, ?_, ?_, ?_⟩, ?_, ?_, fits, digits_lt⟩
  · simp only [pow_zero, Nat.mul_one]
    rw [← divisor]
    ring
  · simp only [result, shifted.digis]
    exact found
  · simp only [shifted.digis, Nat.add_zero]
    exact within
  · have smaller : s.scale.den.toNat ≤ s.den.toNat := by
      rw [← shifted.den]
      exact Nat.le_mul_of_pos_right _ (Nat.two_pow_pos m)
    exact smaller.trans h.small
  · have progress := shifted.progress
    simp only [shifted.digis]
    omega
  · simp only [digits] at within
    omega

/-- The states between rounds. -/
inductive Reaches (s : Division) : Division → Prop where
  | start : Reaches s s
  | next {t u : Division} : Reaches s t → t.Goes → t.round = some u → Reaches s u

theorem Scaled.reaches (run : s.Reaches t) : ∃ c', Scaled a b c' t := by
  induction run with
  | start => exact ⟨c, h⟩
  | next _ goes round ih =>
    obtain ⟨c', scaled⟩ := ih
    obtain ⟨u, c'', returns, next, -⟩ := scaled.round wide goes
    obtain rfl := Option.some.inj (round.symm.trans returns)
    exact ⟨c'', next⟩

theorem Scaled.loop (rounds : Nat)
    (enough : digits - s.digis ≤ rounds) :
    ∃ t c', s.loop rounds = some t ∧ Scaled a b c' t ∧ ¬ t.Goes := by
  induction rounds generalizing s c with
  | zero =>
    have stops : ¬ s.Goes := fun goes => by
      have left := goes.1
      omega
    exact ⟨s, c, by rw [Division.loop, if_neg stops], h, stops⟩
  | succ rounds ih =>
    by_cases goes : s.Goes
    · obtain ⟨t, c', returns, scaled, progress, -⟩ := h.round wide goes
      obtain ⟨u, c'', rest, final, stops⟩ := ih scaled (by omega)
      exact ⟨u, c'', by rw [Division.loop, if_pos goes, returns, Option.bind_some, rest],
        final, stops⟩
    · exact ⟨s, c, by rw [Division.loop, if_neg goes], h, goes⟩

/-- The shift of the digits that are missing at the end. -/
structure FinishFits (s : Division) : Prop where
  count : digits - s.digis < 128
  room : s.result.toNat * 2 ^ (digits - s.digis) < 2 ^ 128

/-- What is left to do when the loop ends. -/
theorem Scaled.finish (stops : ¬ s.Goes) :
    s.finish.toNat = a * 2 ^ 64 / b ∧ s.FinishFits := by
  have within := h.within
  simp only [digits] at within
  by_cases missing : s.digis < 64
  · have zero : s.rem = 0 := by
      by_contra rest
      exact stops ⟨missing, rest⟩
    have none_ : s.rem.toNat = 0 := by rw [zero]; rfl
    have found := h.found
    rw [none_, Nat.zero_mul] at found
    have final := (found.exact (64 - s.digis)).quotient
    rw [Nat.add_sub_cancel' missing.le] at final
    have fits : s.result.toNat * 2 ^ (64 - s.digis) < 2 ^ 128 := final.trans_lt wide
    refine ⟨?_, by simp only [digits]; omega, fits⟩
    rw [Division.finish, if_pos (by simpa only [digits] using missing), BitVec.toNat_shiftLeft,
      Nat.shiftLeft_eq]
    exact (Nat.mod_eq_of_lt fits).trans final
  · have all : s.digis = 64 := by omega
    have final := h.found.quotient
    rw [all] at final
    refine ⟨?_, by simp only [digits]; omega, ?_⟩
    · rw [Division.finish, if_neg (by simpa only [digits] using missing), final]
    · simp only [digits, all, Nat.sub_self, pow_zero, Nat.mul_one]
      exact final.trans_lt wide

end

end Division

/-- `Udiv` up to its main loop. -/
theorem startDivision_spec (profile : BuildProfile) {a b : UInt128} (pos : 0 < b.toNat)
    (small : b.toNat ≤ 2 ^ 127) :
    ∃ s, startDivision profile a b = some s ∧ Division.Scaled a.toNat b.toNat 1 s ∧
      s.digis = 0 := by
  have ne : b ≠ 0 := by
    intro zero
    rw [zero] at pos
    exact absurd pos (by decide)
  have less : decide (a % b < b) = true := by
    rw [decide_eq_true_eq, BitVec.lt_def, BitVec.toNat_umod]
    exact Nat.mod_lt _ pos
  obtain ⟨m, le, shift, den, rem, result, digis⟩ := Division.skipTrailing_spec digits
    { rem := a % b, den := b, result := a / b, digis := 0, shift := 0 }
  have started : startDivision profile a b = some (Division.skipTrailing digits
      { rem := a % b, den := b, result := a / b, digis := 0, shift := 0 }) := by
    simp only [startDivision, ne, if_false, less, nsAssert_true, some_bind, pure_some]
  generalize Division.skipTrailing digits
    { rem := a % b, den := b, result := a / b, digis := 0, shift := 0 } = s at *
  simp only at shift den rem result digis
  refine ⟨s, started, ⟨Nat.one_pos, ?_, ?_, ?_, ?_⟩, digis⟩
  · rw [shift, Nat.zero_add, Nat.mul_one, den]
  · rw [digis, result, rem, Nat.mul_one, BitVec.toNat_udiv, BitVec.toNat_umod]
    exact LongDivision.found_start pos a.toNat
  · rw [digis, shift]
    omega
  · have smaller := Nat.le_mul_of_pos_right s.den.toNat (Nat.two_pow_pos m)
    rw [den] at smaller
    exact smaller.trans small

theorem wide_of_quotient {a b : Nat} (quotient : a / b < 2 ^ 64) (pos : 0 < b) :
    a * 2 ^ 64 / b < 2 ^ 128 := by
  rw [Nat.div_lt_iff_lt_mul pos] at quotient ⊢
  omega

/-- No shift of `Udiv` is too far or loses a digit. -/
def UdivFits (profile : BuildProfile) (a b : UInt128) : Prop :=
  ∃ s, startDivision profile a b = some s ∧ s.shift < 128 ∧
    ∀ t, s.Reaches t → (t.Goes → t.RoundFits) ∧ (¬ t.Goes → t.FinishFits)

theorem udiv_quotient (profile : BuildProfile) {a b : UInt128} (pos : 0 < b.toNat)
    (small : b.toNat ≤ 2 ^ 127) (quotient : a.toNat / b.toNat < 2 ^ 64) :
    ∃ q, udiv profile a b = some q ∧ q.toNat = a.toNat * 2 ^ 64 / b.toNat := by
  have wide := wide_of_quotient quotient pos
  obtain ⟨s, started, scaled, none_⟩ := startDivision_spec profile (a := a) pos small
  obtain ⟨t, c, ended, final, stops⟩ := scaled.loop wide digits (by omega)
  refine ⟨t.finish, ?_, (final.finish wide stops).1⟩
  simp [udiv, started, ended]

theorem udiv_fits (profile : BuildProfile) {a b : UInt128} (pos : 0 < b.toNat)
    (small : b.toNat ≤ 2 ^ 127) (quotient : a.toNat / b.toNat < 2 ^ 64) :
    UdivFits profile a b := by
  have wide := wide_of_quotient quotient pos
  obtain ⟨s, started, scaled, none_⟩ := startDivision_spec profile (a := a) pos small
  refine ⟨s, started, ?_, fun t run => ?_⟩
  · have within := scaled.within
    simp only [digits] at within
    omega
  · obtain ⟨c, between⟩ := scaled.reaches wide run
    refine ⟨fun goes => ?_, fun stops => (between.finish wide stops).2⟩
    obtain ⟨u, c', returns, next, progress, fits⟩ := between.round wide goes
    exact fits

/-- `Udiv` is exact, and no shift of it is too far or loses a digit. -/
theorem udiv_exact (profile : BuildProfile) {a b : UInt128} (pos : 0 < b.toNat)
    (small : b.toNat ≤ 2 ^ 127) (quotient : a.toNat / b.toNat < 2 ^ 64) :
    (∃ q, udiv profile a b = some q ∧ q.toNat = a.toNat * 2 ^ 64 / b.toNat) ∧
      UdivFits profile a b :=
  ⟨udiv_quotient profile pos small quotient, udiv_fits profile pos small quotient⟩

/-- One third. -/
theorem udiv_exact_third : ∃ q, udiv .debug ((1 : UInt128) <<< 64) ((3 : UInt128) <<< 64) = some q ∧
      q.toNat = 0x5555555555555555 :=
  (udiv_exact .debug (by decide) (by decide) (by decide)).1

end Int64x64

end Ns3
