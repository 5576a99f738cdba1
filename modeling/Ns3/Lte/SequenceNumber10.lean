import Ns3.Core.Assert
import Mathlib.Data.Nat.Notation
import Mathlib.Order.Basic

/-!
# Sequence numbers of ten bits

The numbers of the RLC protocol are compared by their distances from a modulus base that each
number carries with it. A receiver keeps the base half the space below its highest number, so
the comparisons decide the order of the positions in the stream that lie within half the space
of that number.
-/

namespace Ns3

/-- `SequenceNumber10`. -/
@[ext] structure SequenceNumber10 where
  value : Nat := 0
  modulusBase : Nat := 0
  deriving DecidableEq

namespace SequenceNumber10

/-- The constructor from a value. -/
def ofNat (value : Nat) : SequenceNumber10 := ⟨value % 1024, 0⟩

/-- `operator=` with a value. -/
def assign (value : Nat) (a : SequenceNumber10) : SequenceNumber10 :=
    { a with value := value % 1024 }

/-- `SetModulusBase`. -/
def setModulusBase (a base : SequenceNumber10) : SequenceNumber10 :=
  { a with modulusBase := base.value }

/-- `operator++`, what it leaves in the number. -/
def incr (a : SequenceNumber10) : SequenceNumber10 := { a with value := (a.value + 1) % 1024 }

/-- `operator+`. -/
def add (a : SequenceNumber10) (delta : Nat) : SequenceNumber10 :=
  { a with value := (a.value + delta) % 1024 }

/-- A value of type `int` converted to `uint16_t`. -/
def uint16 (n : Int) : Nat := (n % 65536).toNat

/-- `operator-` with a value: the remainder is one of `int`, and may be negative. -/
def sub (a : SequenceNumber10) (delta : Nat) : SequenceNumber10 :=
  { a with value := uint16 ((a.value - delta : Int).tmod 1024) % 1024 }

/-- The distance from the modulus base, as the comparisons compute it. -/
def distance (a : SequenceNumber10) : Nat := uint16 ((a.value - a.modulusBase : Int).tmod 1024)

/-- `operator>`. -/
def gt (a b : SequenceNumber10) : Bool := b.distance < a.distance

/-- `operator<=`. -/
def le (a b : SequenceNumber10) : Bool := !a.gt b

/-- `operator<`. -/
def lt (a b : SequenceNumber10) : Bool := !a.gt b && a.value ≠ b.value

/-! ## The assertion of the comparisons -/

/-- `operator>`, which asserts that the bases are the same. -/
def greater (profile : BuildProfile) (a b : SequenceNumber10) : Option Bool := do
  nsAssert profile (a.modulusBase == b.modulusBase)
  return a.gt b

/-- `operator<=`, by `operator>`. -/
def lessEq (profile : BuildProfile) (a b : SequenceNumber10) : Option Bool :=
  (greater profile a b).map fun above => !above

/-- `operator>=`, by `operator>`. -/
def greaterEq (profile : BuildProfile) (a b : SequenceNumber10) : Option Bool :=
  (greater profile a b).map fun above => above || a.value == b.value

/-- `operator<`, by `operator>`. -/
def less (profile : BuildProfile) (a b : SequenceNumber10) : Option Bool :=
  (greater profile a b).map fun above => !above && a.value ≠ b.value

variable {a b : SequenceNumber10}

theorem greater_eq {profile : BuildProfile} (same : a.modulusBase = b.modulusBase) :
    greater profile a b = some (a.gt b) := by
  simp [greater, same]

/-! ## Positions -/

/-- The number of a position in the stream, with the base half the space below `high`. -/
def at_ (high p : Nat) : SequenceNumber10 := ⟨p % 1024, (high + 512) % 1024⟩

@[simp] theorem at_value (high p : Nat) : (at_ high p).value = p % 1024 := rfl

@[simp] theorem at_modulusBase (high p : Nat) : (at_ high p).modulusBase = (high + 512) % 1024 :=
    rfl

@[simp] theorem incr_at (high p : Nat) : (at_ high p).incr = at_ high (p + 1) := by
  simp [incr, at_]

@[simp] theorem assign_at (high p q : Nat) : (at_ high p).assign q = at_ high q := rfl

theorem sub_value {p : Nat} (value : a.value = p % 1024) :
    (a.sub 512).value = (p + 512) % 1024 := by
  simp only [sub, value, uint16]
  by_cases low : p % 1024 < 512
  · have negative : ((p % 1024 : Nat) : Int) - (512 : Nat) = -((512 - p % 1024 : Nat) :
      Int) := by omega
    rw [negative, Int.neg_tmod, Int.tmod_eq_emod_of_nonneg (by omega)]
    omega
  · rw [Int.tmod_eq_emod_of_nonneg (by omega)]
    omega

theorem setModulusBase_at {p high : Nat} {base : SequenceNumber10} (value : a.value = p % 1024)
    (same : base.value = (high + 512) % 1024) : a.setModulusBase base = at_ high p := by
  simp only [setModulusBase, same, at_, value]

theorem distance_at {high p : Nat} (low : high ≤ p + 512) (near : p < high + 512) :
    (at_ high p).distance = p + 512 - high +
      if (high + 512) % 1024 + (p + 512 - high) < 1024 then 0 else 64512 := by
  rw [distance, uint16, at_value, at_modulusBase]
  split
  case isTrue =>
    rw [Int.tmod_eq_emod_of_nonneg (by omega)]
    omega
  case isFalse =>
    have negative : ((p % 1024 : Nat) : Int) - ((high + 512) % 1024 : Nat) =
        -(((high + 512) % 1024 - p % 1024 : Nat) : Int) := by omega
    rw [negative, Int.neg_tmod, Int.tmod_eq_emod_of_nonneg (by omega)]
    omega

variable {high p q : Nat}

section

variable (lowP : high ≤ p + 512) (nearP : p < high + 512) (lowQ : high ≤ q + 512)
variable (nearQ : q < high + 512)
include lowP nearP lowQ nearQ

theorem gt_at : (at_ high p).gt (at_ high q) = decide (q < p) := by
  rw [gt, distance_at lowP nearP, distance_at lowQ nearQ, decide_eq_decide]
  split <;> split <;> omega

theorem le_at : (at_ high p).le (at_ high q) = decide (p ≤ q) := by
  rw [le, gt_at lowP nearP lowQ nearQ, ← decide_not, decide_eq_decide]
  omega

theorem lt_at : (at_ high p).lt (at_ high q) = decide (p < q) := by
  rw [lt, gt_at lowP nearP lowQ nearQ, ← decide_not, ← Bool.decide_and, decide_eq_decide,
    at_value, at_value]
  omega

end

section FromBase

/-! ### Counted from a base -/

/-- The number of a position in the stream, with the base at another position. -/
def from_ (base p : Nat) : SequenceNumber10 := ⟨p % 1024, base % 1024⟩

variable {base p q : Nat} {profile : BuildProfile}

@[simp] theorem from_value (base p : Nat) : (from_ base p).value = p % 1024 := rfl

@[simp] theorem from_modulusBase (base p : Nat) : (from_ base p).modulusBase = base % 1024 := rfl

@[simp] theorem incr_from (base p : Nat) : (from_ base p).incr = from_ base (p + 1) := by
  simp [incr, from_]

@[simp] theorem add_from (base p n : Nat) : (from_ base p).add n = from_ base (p + n) := by
  simp [add, from_]

theorem setModulusBase_from {b : SequenceNumber10} (same : b.value = base % 1024)
    (value : a.value = p % 1024) : a.setModulusBase b = from_ base p := by
  simp only [setModulusBase, same, from_, value]

theorem from_eq_at (base p : Nat) : from_ base p = at_ (base + 512) p := by
  ext1
  · rfl
  · show base % 1024 = (base + 512 + 512) % 1024
    omega

section

variable (lowP : base ≤ p) (nearP : p < base + 1024) (lowQ : base ≤ q) (nearQ : q < base + 1024)
include lowP nearP lowQ nearQ

theorem greater_from : greater profile (from_ base p) (from_ base q) = some (decide (q < p)) := by
  rw [greater_eq (by rfl), from_eq_at, from_eq_at]
  exact congrArg some (gt_at (by omega) (by omega) (by omega) (by omega))

theorem lessEq_from : lessEq profile (from_ base p) (from_ base q) = some (decide (p ≤ q)) := by
  rw [lessEq, greater_from lowP nearP lowQ nearQ, Option.map_some, ← decide_not,
    Option.some.injEq, decide_eq_decide, Nat.not_lt]

theorem greaterEq_from :
    greaterEq profile (from_ base p) (from_ base q) = some (decide (q ≤ p)) := by
  have same : (from_ base p).value = (from_ base q).value ↔ p = q := by
    simp only [from_value]
    omega
  rw [greaterEq, greater_from lowP nearP lowQ nearQ, Option.map_some, Option.some.injEq,
    Bool.eq_iff_iff, Bool.or_eq_true, decide_eq_true_eq, decide_eq_true_eq, beq_iff_eq, same]
  omega

theorem less_from : less profile (from_ base p) (from_ base q) = some (decide (p < q)) := by
  have same : (from_ base p).value = (from_ base q).value ↔ p = q := by
    simp only [from_value]
    omega
  rw [less, greater_from lowP nearP lowQ nearQ, Option.map_some, ← decide_not, ← Bool.decide_and,
    Option.some.injEq, decide_eq_decide, Ne, same]
  omega

end

end FromBase

theorem le_of_base {base : SequenceNumber10} (least : base.value = base.modulusBase) :
    base.le b = true := by
  simp [le, gt, distance, least, uint16]

end SequenceNumber10

end Ns3
