import Mathlib.Data.BitVec
import Mathlib.Tactic.Ring
import Mathlib.Tactic.Linarith

/-!
# Sequence numbers that wrap around

`SequenceNumber` is the class template of the same name for an unsigned type of
`w` bits. Its order is the one of RFC 3626: it compares two numbers by the
shorter way round, so it is meaningful only inside a window of half the space.

A number is best read as a position: `base.at p` is the number `p` places after
`base`. The comparison lemmas say that the code's operators decide the order of
positions whenever these are at most `halfMaxValue` apart.
-/

namespace Ns3

/-- An unsigned number of `w` bits, compared with wrap-around. -/
@[ext] structure SequenceNumber (w : Nat) where
  value : BitVec w
  deriving DecidableEq

/-- `SequenceNumber<uint32_t, int32_t>`. -/
abbrev SequenceNumber32 := SequenceNumber 32

namespace SequenceNumber

variable {w : Nat}

/-- `std::numeric_limits<NUMERIC_TYPE>::max() / 2`. -/
def halfMaxValue (w : Nat) : Nat := (2 ^ w - 1) / 2

/-- The constructor from a numeric value. -/
def ofNat (n : Nat) : SequenceNumber w := ⟨BitVec.ofNat w n⟩

/-- `operator+`, on a numeric value or on the value of another number. -/
def add (a : SequenceNumber w) (n : Nat) : SequenceNumber w := ⟨a.value + BitVec.ofNat w n⟩

/-- `operator-` with a numeric value. -/
def subNat (a : SequenceNumber w) (n : Nat) : SequenceNumber w := ⟨a.value - BitVec.ofNat w n⟩

/-- `operator-` between two numbers: the signed distance, computed by the cases
of the source. The source's casts to `SIGNED_TYPE` wrap; `toInt` reads them. -/
def sub (a b : SequenceNumber w) : BitVec w :=
  if b.value < a.value then
    let diff := a.value - b.value
    if diff.toNat < halfMaxValue w then diff
    else -(BitVec.allOnes w - a.value + 1 + b.value)
  else
    let diff := b.value - a.value
    if diff.toNat < halfMaxValue w then -diff
    else BitVec.allOnes w - b.value + 1 + a.value

/-- `operator>`. -/
def gt (a b : SequenceNumber w) : Bool :=
  (b.value < a.value && (a.value - b.value).toNat ≤ halfMaxValue w) ||
    (a.value < b.value && halfMaxValue w < (b.value - a.value).toNat)

/-- `operator<=`. -/
def le (a b : SequenceNumber w) : Bool := !a.gt b

/-- `operator>=`. -/
def ge (a b : SequenceNumber w) : Bool := a.gt b || a == b

/-- `operator<`. -/
def lt (a b : SequenceNumber w) : Bool := !a.gt b && a != b

/-- The number `p` places after `base`, counting round the space. -/
def «at» (base : SequenceNumber w) (p : Int) : SequenceNumber w :=
  ⟨base.value + BitVec.ofInt w p⟩

theorem sub_eq (a b : SequenceNumber w) : a.sub b = a.value - b.value := by
  unfold sub
  have negOne : BitVec.allOnes w = -1 := (BitVec.neg_one_eq_allOnes).symm
  simp only [negOne]
  split <;> split <;> ring

section

variable (base : SequenceNumber w)
include base

@[simp] theorem at_zero : base.at 0 = base := by
  ext1
  simp [«at»]

theorem at_at (p q : Int) : (base.at p).at q = base.at (p + q) := by
  ext1
  simp [«at», BitVec.ofInt_add, add_assoc]

theorem at_add (p : Int) (n : Nat) :
    (base.at p).add n = base.at (p + n) := by
  ext1
  simp [«at», add, BitVec.ofInt_add, add_assoc]

theorem add_eq_at (n : Nat) : base.add n = base.at n := by
  simpa using at_add base 0 n

theorem at_value_sub_at_value (p q : Int) :
    (base.at p).value - (base.at q).value = BitVec.ofInt w (p - q) := by
  simp only [«at», sub_eq_add_neg, BitVec.ofInt_add, BitVec.ofInt_neg]
  ring

end

theorem two_mul_halfMaxValue_lt (w : Nat) : 2 * halfMaxValue w + 1 ≤ 2 ^ w := by
  have := Nat.two_pow_pos w
  unfold halfMaxValue
  omega

theorem ofInt_toNat_of_nonneg {d : Int} (h : 0 ≤ d) (hd : d < 2 ^ w) :
    ((BitVec.ofInt w d).toNat : Int) = d := by
  rw [BitVec.toNat_ofInt]
  have : (d % ((2 ^ w : Nat) : Int)) = d := Int.emod_eq_of_lt h (by exact_mod_cast hd)
  omega

theorem toNat_sub_comm {a b : BitVec w} (h : b < a) :
    (b - a).toNat + (a - b).toNat = 2 ^ w := by
  have hlt : b.toNat < a.toNat := h
  rw [BitVec.toNat_sub, BitVec.toNat_sub]
  have e₁ : 2 ^ w - b.toNat + a.toNat = (a.toNat - b.toNat) + 2 ^ w := by omega
  rw [e₁, Nat.add_mod_right, Nat.mod_eq_of_lt (by omega), Nat.mod_eq_of_lt (by omega)]
  omega

theorem trichotomy (a b : BitVec w) : a < b ∨ a = b ∨ b < a := by
  rcases Nat.lt_trichotomy a.toNat b.toNat with h | h | h
  · exact .inl h
  · exact .inr (.inl (BitVec.eq_of_toNat_eq h))
  · exact .inr (.inr h)

variable {a b : SequenceNumber w}

theorem gt_eq_true : a.gt b = true ↔
    (b.value < a.value ∧ (a.value - b.value).toNat ≤ halfMaxValue w) ∨
      (a.value < b.value ∧ halfMaxValue w < (b.value - a.value).toNat) := by
  simp [gt]

theorem gt_self (a : SequenceNumber w) : a.gt a = false := by simp [gt]

theorem not_gt_of_gt (h : a.gt b = true) : b.gt a = false := by
  rw [Bool.eq_false_iff]
  intro other
  rcases gt_eq_true.mp h with ⟨above, near⟩ | ⟨below, far⟩
  · rcases gt_eq_true.mp other with ⟨above', -⟩ | ⟨-, far'⟩
    · exact absurd above (BitVec.lt_asymm above')
    · omega
  · rcases gt_eq_true.mp other with ⟨-, near'⟩ | ⟨below', -⟩
    · omega
    · exact absurd below (BitVec.lt_asymm below')

theorem ge_eq_false (h : b.gt a = true) : a.ge b = false := by
  have apart : a ≠ b := by
    rintro rfl
    rw [gt_self] at h
    exact absurd h (by decide)
  rw [ge, not_gt_of_gt h, Bool.false_or, beq_eq_false_iff_ne]
  exact apart

theorem ge_of_not_lt (h : a.lt b = false) : a.ge b = true := by
  rw [lt, Bool.and_eq_false_iff] at h
  rw [ge, Bool.or_eq_true]
  obtain above | same := h
  · exact .inl (by simpa using above)
  · exact .inr (by simpa using same)

theorem ge_of_gt (h : a.gt b = true) : a.ge b = true := by
  rw [ge, h, Bool.true_or]

theorem gt_of_ahead (pos : a.value ≠ b.value)
    (h : (a.value - b.value).toNat ≤ halfMaxValue w) : a.gt b = true := by
  have half := two_mul_halfMaxValue_lt w
  rw [gt_eq_true]
  rcases trichotomy b.value a.value with hlt | heq | hgt
  · exact .inl ⟨hlt, h⟩
  · exact absurd heq.symm pos
  · have round := toNat_sub_comm hgt
    exact .inr ⟨hgt, by omega⟩

theorem not_gt_of_behind
    (h : (b.value - a.value).toNat ≤ halfMaxValue w) : a.gt b = false := by
  have half := two_mul_halfMaxValue_lt w
  rw [Bool.eq_false_iff, Ne, gt_eq_true]
  rintro (⟨hlt, near⟩ | ⟨-, far⟩)
  · have round := toNat_sub_comm hlt
    omega
  · omega

section Window

variable {base : SequenceNumber w} {p q : Int}

theorem at_inj (hp : p - q < 2 ^ w) (hq : q - p < 2 ^ w) :
    base.at p = base.at q ↔ p = q := by
  constructor
  · intro h
    have value : (base.at p).value = (base.at q).value := congrArg SequenceNumber.value h
    have zero : BitVec.ofInt w (p - q) = 0#w := by
      rw [← at_value_sub_at_value base, value]
      exact BitVec.sub_self _
    have zero' : BitVec.ofInt w (q - p) = 0#w := by
      rw [← at_value_sub_at_value base, value]
      exact BitVec.sub_self _
    rcases le_total q p with hle | hle
    · have := ofInt_toNat_of_nonneg (show 0 ≤ p - q by omega) hp
      rw [zero] at this
      simp at this
      omega
    · have := ofInt_toNat_of_nonneg (show 0 ≤ q - p by omega) hq
      rw [zero'] at this
      simp at this
      omega
  · rintro rfl
    rfl

theorem half_lt_two_pow (w : Nat) : (halfMaxValue w : Int) < 2 ^ w := by
  have := two_mul_halfMaxValue_lt w
  exact_mod_cast (by omega : halfMaxValue w < 2 ^ w)

variable (hp : p - q ≤ halfMaxValue w) (hq : q - p ≤ halfMaxValue w)
include hp hq

theorem at_eq_at : base.at p = base.at q ↔ p = q :=
  at_inj (lt_of_le_of_lt hp (half_lt_two_pow w)) (lt_of_le_of_lt hq (half_lt_two_pow w))

/-- `operator>` on positions inside a window of half the space. -/
theorem gt_at : (base.at p).gt (base.at q) = decide (q < p) := by
  have room := half_lt_two_pow w
  rcases lt_or_ge q p with hlt | hle
  · have ne : (base.at p).value ≠ (base.at q).value := by
      intro h
      have := (at_eq_at hp hq).mp (SequenceNumber.ext h)
      omega
    have dist : ((base.at p).value - (base.at q).value).toNat ≤ halfMaxValue w := by
      rw [at_value_sub_at_value]
      have := ofInt_toNat_of_nonneg (w := w) (show 0 ≤ p - q by omega) (by omega)
      omega
    simpa [hlt] using gt_of_ahead ne dist
  · have dist : ((base.at q).value - (base.at p).value).toNat ≤ halfMaxValue w := by
      rw [at_value_sub_at_value]
      have := ofInt_toNat_of_nonneg (w := w) (show 0 ≤ q - p by omega) (by omega)
      omega
    simpa [not_lt.mpr hle] using not_gt_of_behind dist

theorem le_at : (base.at p).le (base.at q) = decide (p ≤ q) := by
  rw [le, gt_at hp hq]
  by_cases h : q < p <;> simp [h, Int.not_le.mpr, Int.not_lt.mp]

theorem ge_at : (base.at p).ge (base.at q) = decide (q ≤ p) := by
  rw [ge, gt_at hp hq]
  have eq : base.at p = base.at q ↔ p = q := at_eq_at hp hq
  rcases lt_trichotomy q p with h | h | h
  · simp [h, h.le]
  · simp [h]
  · have : base.at p ≠ base.at q := fun e => by have := eq.mp e; omega
    simp [this, not_lt.mpr h.le, not_le.mpr h]

theorem lt_at : (base.at p).lt (base.at q) = decide (p < q) := by
  rw [lt, gt_at hp hq]
  have eq : base.at p = base.at q ↔ p = q := at_eq_at hp hq
  rcases lt_trichotomy q p with h | h | h
  · simp [h, not_lt.mpr h.le]
  · simp [h]
  · have : base.at p ≠ base.at q := fun e => by have := eq.mp e; omega
    simp [this, h, not_lt.mpr h.le]

end Window

section Naturals

variable {base : SequenceNumber w} {p q : Nat} (hp : p ≤ q + halfMaxValue w)
  (hq : q ≤ p + halfMaxValue w)
include hp hq

theorem gt_at_nat : (base.at p).gt (base.at q) = decide (q < p) := by
  have h : (base.at p).gt (base.at q) = decide ((q : Int) < p) := gt_at (by omega) (by omega)
  simpa only [Nat.cast_lt] using h

theorem le_at_nat : (base.at p).le (base.at q) = decide (p ≤ q) := by
  have h : (base.at p).le (base.at q) = decide ((p : Int) ≤ q) := le_at (by omega) (by omega)
  simpa only [Nat.cast_le] using h

theorem ge_at_nat : (base.at p).ge (base.at q) = decide (q ≤ p) := by
  have h : (base.at p).ge (base.at q) = decide ((q : Int) ≤ p) := ge_at (by omega) (by omega)
  simpa only [Nat.cast_le] using h

theorem lt_at_nat : (base.at p).lt (base.at q) = decide (p < q) := by
  have h : (base.at p).lt (base.at q) = decide ((p : Int) < q) := lt_at (by omega) (by omega)
  simpa only [Nat.cast_lt] using h

end Naturals

/-- A smaller number is at most half the space and one place behind. -/
theorem exists_of_lt (h : a.lt b = true) :
    ∃ d : Nat, 0 < d ∧ d ≤ halfMaxValue w + 1 ∧ a = b.at (-d) := by
  simp only [lt, Bool.and_eq_true, Bool.not_eq_true', bne_iff_ne, ne_eq] at h
  obtain ⟨notGt, ne⟩ := h
  have value : a.value ≠ b.value := fun e => ne (SequenceNumber.ext e)
  have full : 2 ^ w ≤ 2 * halfMaxValue w + 2 := by
    unfold halfMaxValue
    omega
  refine ⟨(b.value - a.value).toNat, ?_, ?_, ?_⟩
  · refine Nat.pos_of_ne_zero fun zero => value ?_
    have : b.value - a.value = 0#w :=
      BitVec.toNat_inj.mp (by simpa only [BitVec.toNat_zero] using zero)
    exact (sub_eq_zero.mp this).symm
  · by_contra far
    refine absurd (gt_of_ahead value ?_) (by simp [notGt])
    have round : (b.value - a.value).toNat + (a.value - b.value).toNat = 2 ^ w := by
      rcases trichotomy a.value b.value with below | same | above
      · exact (Nat.add_comm _ _).trans (toNat_sub_comm below)
      · exact absurd same value
      · exact toNat_sub_comm above
    omega
  · ext1
    simp only [«at», BitVec.ofInt_neg, BitVec.ofInt_natCast, BitVec.ofNat_toNat, BitVec.setWidth_eq]
    ring

theorem sub_at_toNat {base : SequenceNumber w} {p q : Int} (h : q ≤ p) (hd : p - q < 2 ^ w) :
    (((base.at p).sub (base.at q)).toNat : Int) = p - q := by
  rw [sub_eq, at_value_sub_at_value]
  exact ofInt_toNat_of_nonneg (by omega) hd

theorem at_sub (a b : SequenceNumber w) : b.at (a.sub b).toNat = a := by
  ext1
  rw [sub_eq, «at», BitVec.ofInt_natCast, BitVec.ofNat_toNat, BitVec.setWidth_eq,
    add_sub_cancel]

theorem halfMaxValue_32 : halfMaxValue 32 = 2147483647 := by decide

/-- `a` is at or before `b` in the order of sequence numbers: by less than half the space. -/
def Precedes (a b : SequenceNumber32) : Prop := (b.sub a).toNat ≤ halfMaxValue 32
  deriving Decidable

theorem precedes_at {base : SequenceNumber32} {p q : Nat} (h : p ≤ q) (short : q < p + 2 ^ 32) :
    Precedes (base.at p) (base.at q) ↔ q ≤ p + halfMaxValue 32 := by
  have distance : (((base.at q).sub (base.at p)).toNat : Int) = q - p :=
    sub_at_toNat (by omega) (by omega)
  rw [Precedes]
  omega

theorem not_precedes_at {base : SequenceNumber32} {p q : Nat} (h : q < p)
    (near : p ≤ q + halfMaxValue 32) : ¬ Precedes (base.at p) (base.at q) := by
  have half := halfMaxValue_32
  have back : Precedes (base.at q) (base.at p) := (precedes_at h.le (by omega)).mpr near
  have apart : (base.at q).value ≠ (base.at p).value := by
    intro same
    have : (q : Int) = p := (at_eq_at (by omega) (by omega)).mp (SequenceNumber.ext same)
    omega
  have above : (base.at p).gt (base.at q) = true := gt_of_ahead apart.symm (by rwa [← sub_eq])
  intro forth
  rw [not_gt_of_behind (by rwa [← sub_eq])] at above
  exact absurd above (by decide)

section EndOfSpace

/-! Two positions half the space and one place apart have no order, except that
the numbers themselves decide when the later one is the end of the space. -/

/-- The order of the positions `p ≤ q` is the order of their numbers. -/
def Room (base : SequenceNumber32) (p q : Nat) : Prop :=
  q ≤ p + halfMaxValue 32 ∨
    (q = p + halfMaxValue 32 + 1 ∧ base.value.toNat + q = 2 ^ 32)

variable {base : SequenceNumber32} {p q p' q' : Nat}

theorem Room.of_le (h : q ≤ p + halfMaxValue 32) : Room base p q := .inl h

theorem Room.mono (h : Room base p q) (hp : p ≤ p') (hq : q' ≤ q) : Room base p' q' := by
  rcases h with near | ⟨far, final⟩
  · exact .inl (by omega)
  · by_cases same : p' = p ∧ q' = q
    · obtain ⟨rfl, rfl⟩ := same
      exact .inr ⟨far, final⟩
    · exact .inl (by omega)

theorem at_value_toNat (base : SequenceNumber w) (n : Nat) :
    (base.at n).value.toNat = (base.value.toNat + n) % 2 ^ w := by
  simp [«at»]

section

variable (h : Room base p q) (hpq : p ≤ q)
include h hpq

theorem Room.gt :
    (base.at q).gt (base.at p) = decide (p < q) ∧ (base.at p).gt (base.at q) = false := by
  rcases h with near | ⟨far, final⟩
  · refine ⟨gt_at_nat near (by omega), ?_⟩
    rw [gt_at_nat (by omega) near]
    simpa using hpq
  · have half := halfMaxValue_32
    have last : (base.at q).value.toNat = 0 := by
      rw [at_value_toNat, final]
      rfl
    have first : (base.at p).value.toNat = 2147483648 := by
      rw [at_value_toNat]
      omega
    have pq : ((base.at p).value - (base.at q).value).toNat = 2147483648 := by
      rw [BitVec.toNat_sub, last, first]
    constructor
    · rw [decide_eq_true (by omega), gt_eq_true]
      exact .inr ⟨by rw [BitVec.lt_def]; omega, by omega⟩
    · rw [Bool.eq_false_iff, Ne, gt_eq_true]
      rintro (⟨-, near⟩ | ⟨below, -⟩)
      · omega
      · rw [BitVec.lt_def] at below
        omega

theorem Room.gt_later : (base.at q).gt (base.at p) = decide (p < q) := (h.gt hpq).1

theorem Room.gt_earlier : (base.at p).gt (base.at q) = false := (h.gt hpq).2

theorem Room.eq_iff : base.at q = base.at p ↔ q = p := by
  have half := halfMaxValue_32
  have inj : base.at (q : Int) = base.at (p : Int) ↔ (q : Int) = p :=
    at_inj (by rcases h with near | ⟨far, -⟩ <;> omega) (by omega)
  rw [inj]
  omega

theorem Room.le_later : (base.at p).le (base.at q) = true := by
  rw [le, h.gt_earlier hpq]
  rfl

theorem Room.le_earlier : (base.at q).le (base.at p) = decide (q ≤ p) := by
  rw [le, h.gt_later hpq]
  by_cases same : p < q
  · simp [same, Nat.not_le.mpr same]
  · simp [same, Nat.not_lt.mp same]

theorem Room.ge_later : (base.at q).ge (base.at p) = true := by
  rw [ge, h.gt_later hpq]
  rcases Nat.lt_or_eq_of_le hpq with before | same
  · simp [before]
  · simp [same]

theorem Room.ge_earlier : (base.at p).ge (base.at q) = decide (q ≤ p) := by
  rw [ge, h.gt_earlier hpq, Bool.false_or]
  have eq := h.eq_iff hpq
  by_cases same : q = p
  · simp [same]
  · have : base.at p ≠ base.at q := fun e => same (eq.mp e.symm)
    have : ¬ q ≤ p := by omega
    simp [*]

theorem Room.lt_later : (base.at p).lt (base.at q) = decide (p < q) := by
  rw [lt, h.gt_earlier hpq, Bool.not_false, Bool.true_and]
  have eq := h.eq_iff hpq
  by_cases same : q = p
  · simp [same]
  · have : base.at p ≠ base.at q := fun e => same (eq.mp e.symm)
    have : p < q := by omega
    simp [*]

end

/-- Inside one lap of the space, positions without room compare the wrong way round. -/
theorem gt_of_not_room (far : ¬ Room base p q) (hpq : p ≤ q) (short : q < 2 ^ 32)
    (lap : base.value.toNat + q ≤ 2 ^ 32) :
    (base.at q).gt (base.at p) = false ∧ (base.at p).gt (base.at q) = true := by
  have half := halfMaxValue_32
  have last := at_value_toNat base q
  have first := at_value_toNat base p
  have qp : ((base.at q).value - (base.at p).value).toNat = q - p := by
    rw [BitVec.toNat_sub, last, first]
    omega
  have distance : halfMaxValue 32 + 1 ≤ q - p := by
    by_contra near
    exact far (.inl (by omega))
  have pq : ((base.at p).value - (base.at q).value).toNat = 2 ^ 32 - (q - p) := by
    rw [BitVec.toNat_sub, last, first]
    omega
  have nearEnd : q = p + halfMaxValue 32 + 1 → base.value.toNat + q ≠ 2 ^ 32 :=
    fun edge final => far (.inr ⟨edge, final⟩)
  constructor
  · rw [Bool.eq_false_iff, Ne, gt_eq_true, BitVec.lt_def, BitVec.lt_def]
    rintro (⟨-, near⟩ | ⟨below, wide⟩)
    · omega
    · omega
  · rw [gt_eq_true, BitVec.lt_def, BitVec.lt_def]
    rcases Nat.lt_or_ge (base.at p).value.toNat (base.at q).value.toNat with below | above
    · exact .inr ⟨below, by omega⟩
    · exact .inl ⟨by omega, by omega⟩

end EndOfSpace

/-- `m` places ahead is a greater number. Half the space and one place ahead it is one only
behind the end of the space. -/
def Ahead (seq : SequenceNumber32) (m : Nat) : Prop :=
  0 < m ∧ (m ≤ halfMaxValue 32 ∨ (m = halfMaxValue 32 + 1 ∧ 2 ^ 32 ≤ seq.value.toNat + m))
  deriving Decidable

theorem lt_add_iff {seq : SequenceNumber32} {m : Nat} (fits : m < 2 ^ 32) :
    seq.lt (seq.add m) = true ↔ Ahead seq m := by
  have half := halfMaxValue_32
  have forth : ((seq.add m).value - seq.value).toNat = m := by
    rw [SequenceNumber.add, add_sub_cancel_left, BitVec.toNat_ofNat, Nat.mod_eq_of_lt fits]
  have value : (seq.add m).value.toNat = (seq.value.toNat + m) % 2 ^ 32 := by
    rw [add_eq_at, at_value_toNat]
  have less : seq.lt (seq.add m) = true ↔
      seq.gt (seq.add m) = false ∧ seq.value ≠ (seq.add m).value := by
    rw [lt, Bool.and_eq_true, Bool.not_eq_true', bne_iff_ne, Ne, Ne, SequenceNumber.ext_iff]
  rw [less, Ahead]
  rcases Nat.eq_zero_or_pos m with rfl | pos
  · have same : seq.value = (seq.add 0).value := by
      apply BitVec.eq_of_toNat_eq
      omega
    simp [← same]
  · have apart : seq.value ≠ (seq.add m).value := by
      intro same
      rw [← same] at value
      omega
    have back : (seq.value - (seq.add m).value).toNat = 2 ^ 32 - m := by
      rw [BitVec.toNat_sub, value]
      omega
    simp only [apart, ne_eq, not_false_eq_true, and_true, pos, true_and]
    rcases Nat.lt_trichotomy m (halfMaxValue 32 + 1) with near | rfl | far
    · exact iff_of_true (not_gt_of_behind (by omega)) (.inl (by omega))
    · rw [Bool.eq_false_iff, Ne, gt_eq_true, BitVec.lt_def, BitVec.lt_def, forth, back, value]
      omega
    · refine iff_of_false ?_ (by omega)
      rw [gt_of_ahead apart (by omega)]
      exact Bool.noConfusion

end SequenceNumber

end Ns3
