import Ns3.Network.SequenceNumber

/-!
# The order of sequence numbers round the space

The comparison and the subtraction of `SequenceNumber` split their cases apart from each other.
Up to half the space they agree: what is `d` places ahead is greater, and its distance is `d`.
The order is total on all numbers, and transitive inside a window of half the space.
-/

namespace Ns3.SequenceNumber

variable {w : Nat}

theorem le_halfMaxValue_iff {d : Nat} : d ≤ halfMaxValue w ↔ d < 2 ^ (w - 1) := by
  unfold halfMaxValue
  cases w with
  | zero => simp
  | succ w =>
    have := Nat.two_pow_pos w
    simp only [Nat.add_sub_cancel, Nat.pow_succ]
    omega

section Ahead

variable {a : SequenceNumber w} {d : Nat}

theorem add_value_sub : (a.add d).value - a.value = BitVec.ofNat w d := by
  simp [add]

theorem half_space_le : 2 ^ (w - 1) ≤ 2 ^ w := Nat.pow_le_pow_right (by decide) (by omega)

theorem add_gt (pos : 0 < d) (near : d < 2 ^ (w - 1)) : (a.add d).gt a = true := by
  have room := half_space_le (w := w)
  have distance : ((a.add d).value - a.value).toNat = d := by
    simp only [add_value_sub, BitVec.toNat_ofNat]
    exact Nat.mod_eq_of_lt (by omega)
  apply gt_of_ahead
  · intro same
    have zero : ((a.add d).value - a.value).toNat = 0 := by simp [same]
    omega
  · simp only [distance]
    exact (le_halfMaxValue_iff).mpr near

theorem add_sub_toInt (near : d < 2 ^ (w - 1)) : ((a.add d).sub a).toInt = d := by
  simp only [sub_eq, add_value_sub]
  cases w with
  | zero =>
    have : d = 0 := by simpa using near
    simp [this]
  | succ w =>
    simp only [Nat.add_sub_cancel] at near
    have fits : d % 2 ^ (w + 1) = d := Nat.mod_eq_of_lt (by omega)
    have low : 2 * d < 2 ^ (w + 1) := by simp only [Nat.pow_succ]; omega
    simp [BitVec.toInt_eq_toNat_cond, fits, low]

/-- The distance back is its opposite. -/
theorem sub_add_toInt (near : d < 2 ^ (w - 1)) : (a.sub (a.add d)).toInt = -d := by
  have forth : ((a.add d).sub a).toInt = d := add_sub_toInt near
  have opposite : a.sub (a.add d) = -((a.add d).sub a) := by
    simp only [sub_eq]
    ring
  cases w with
  | zero =>
    have : d = 0 := by simpa using near
    simp [this, add]
    exact BitVec.toInt_zero_length _
  | succ w =>
    have apart : (a.add d).sub a ≠ BitVec.intMin (w + 1) := by
      intro least
      have : ((a.add d).sub a).toInt < 0 := by
        simp only [least, BitVec.toInt_intMin]
        have := Nat.two_pow_pos w
        simp only [Nat.add_sub_cancel]
        have : 2 ^ w % 2 ^ (w + 1) = 2 ^ w := Nat.mod_eq_of_lt (by simp only [Nat.pow_succ]; omega)
        omega
      omega
    simp only [opposite, BitVec.toInt_neg_of_ne_intMin apart, forth]

end Ahead

/-- One of three statements holds, and no other. -/
def ExactlyOne (p q r : Prop) : Prop := (p ∧ ¬ q ∧ ¬ r) ∨ (¬ p ∧ q ∧ ¬ r) ∨ (¬ p ∧ ¬ q ∧ r)

theorem exactlyOne_lt_eq_gt (a b : SequenceNumber w) :
    ExactlyOne (a.lt b = true) (a = b) (a.gt b = true) := by
  by_cases same : a = b
  · subst same
    exact .inr (.inl ⟨by simp [lt], rfl, by simp [gt_self]⟩)
  · cases above : a.gt b with
    | true => exact .inr (.inr ⟨by simp [lt, above], same, rfl⟩)
    | false => exact .inl ⟨by simp [lt, above, same], same, by simp⟩

/-- The set lies in the `length` places from `base` on. -/
def WithinWindow (base : SequenceNumber w) (length : Nat) (s : Set (SequenceNumber w)) : Prop :=
  ∀ a ∈ s, ∃ k, k ≤ length ∧ a = base.add k

theorem WithinWindow.gt_trans {base : SequenceNumber w} {length : Nat}
    {s : Set (SequenceNumber w)} (within : WithinWindow base length s)
    (short : length < 2 ^ (w - 1)) {a b c : SequenceNumber w} (ha : a ∈ s) (hb : b ∈ s)
    (hc : c ∈ s) (hab : a.gt b = true) (hbc : b.gt c = true) : a.gt c = true := by
  obtain ⟨i, hi, rfl⟩ := within a ha
  obtain ⟨j, hj, rfl⟩ := within b hb
  obtain ⟨k, hk, rfl⟩ := within c hc
  have half : length ≤ halfMaxValue w := (le_halfMaxValue_iff).mpr short
  simp only [add_eq_at] at hab hbc ⊢
  simp only [gt_at_nat (show i ≤ j + halfMaxValue w by omega) (by omega),
    decide_eq_true_eq] at hab
  simp only [gt_at_nat (show j ≤ k + halfMaxValue w by omega) (by omega),
    decide_eq_true_eq] at hbc
  simp only [gt_at_nat (show i ≤ k + halfMaxValue w by omega) (by omega), decide_eq_true_eq]
  exact hbc.trans hab

/-- Comparison and subtraction agree up to half the space, from every starting value. -/
theorem order_sound :
    (∀ (a : SequenceNumber w) (d : Nat), 0 < d → d < 2 ^ (w - 1) →
      (a.add d).gt a = true ∧ a.gt (a.add d) = false ∧
        ((a.add d).sub a).toInt = d ∧ (a.sub (a.add d)).toInt = -d) ∧
    (∀ a b : SequenceNumber w, ExactlyOne (a.lt b = true) (a = b) (a.gt b = true)) ∧
    (∀ (base : SequenceNumber w) (length : Nat) (s : Set (SequenceNumber w)),
      length < 2 ^ (w - 1) → WithinWindow base length s →
      ∀ a ∈ s, ∀ b ∈ s, ∀ c ∈ s, a.gt b = true → b.gt c = true → a.gt c = true) := by
  refine ⟨?_, exactlyOne_lt_eq_gt, ?_⟩
  · intro a d pos near
    have above := add_gt (a := a) pos near
    exact ⟨above, not_gt_of_gt above, add_sub_toInt near, sub_add_toInt near⟩
  · intro base length s short within a ha b hb c hc
    exact within.gt_trans short ha hb hc

/-- Across the end of the space: the greatest distance that has an order, and three numbers. -/
theorem order_sound_wrap :
    ((⟨200#8⟩ : SequenceNumber 8).add 127).gt ⟨200#8⟩ = true ∧
      ((⟨200#8⟩ : SequenceNumber 8).sub ⟨71#8⟩).toInt = -127 ∧
      (⟨40#8⟩ : SequenceNumber 8).gt ⟨230#8⟩ = true := by
  have agree := order_sound.1 (⟨200#8⟩ : SequenceNumber 8) 127 (by decide) (by decide)
  refine ⟨agree.1, agree.2.2.2, ?_⟩
  refine order_sound.2.2 (⟨200#8⟩ : SequenceNumber 8) 100 {⟨40#8⟩, ⟨250#8⟩, ⟨230#8⟩} (by decide) ?_
    ⟨40#8⟩ (by simp) ⟨250#8⟩ (by simp) ⟨230#8⟩ (by simp) (by decide) (by decide)
  rintro a (rfl | rfl | rfl)
  · exact ⟨96, by decide, by decide⟩
  · exact ⟨50, by decide, by decide⟩
  · exact ⟨30, by decide, by decide⟩

end Ns3.SequenceNumber
