import Ns3.Core.Assert
import Mathlib.Data.List.Basic
import Mathlib.Data.Nat.ModEq

/-!
# Sequence numbers of MPDUs and the scoreboard of a Block Ack

Sequence numbers have 12 bits, and their distance is counted from the start of a
window. `BlockAckWindow` is a circular vector of bits: the bit at a distance from the
window start is found that many slots after the head. Advancing the window clears the
slots that it leaves.
-/

namespace Ns3

/-- `SEQNO_SPACE_SIZE`. -/
def seqnoSpaceSize : Nat := 4096

/-- `SEQNO_SPACE_HALF_SIZE`. -/
def seqnoSpaceHalfSize : Nat := 2048

/-- `(seqNumber - startingSeqNumber + SEQNO_SPACE_SIZE) % SEQNO_SPACE_SIZE` of two
`uint16_t`, computed in `int`. -/
def seqnoOffset (seqNumber startingSeqNumber : Nat) : Int :=
  Int.tmod ((seqNumber : Int) - startingSeqNumber + seqnoSpaceSize) seqnoSpaceSize

/-- `BlockAckAgreement::GetDistance`: the offset as a `std::size_t`. -/
def getDistance (profile : BuildProfile) (seqNumber startingSeqNumber : Nat) : Option Nat := do
  nsAssert profile (seqNumber < seqnoSpaceSize && startingSeqNumber < seqnoSpaceSize)
  return (seqnoOffset seqNumber startingSeqNumber % 2 ^ 64).toNat

/-- The distance of two sequence numbers. -/
def distance (seqNumber startingSeqNumber : Nat) : Nat :=
    (seqNumber + 4096 - startingSeqNumber) % 4096

theorem seqnoOffset_eq {q s : Nat} (hs : s < 4096) : seqnoOffset q s = distance q s := by
  unfold seqnoOffset distance seqnoSpaceSize
  rw [Int.tmod_eq_emod_of_nonneg (by omega)]
  omega

theorem getDistance_eq (profile : BuildProfile) {q s : Nat} (hq : q < 4096) (hs : s < 4096) :
    getDistance profile q s = some (distance q s) := by
  have valid : (decide (q < seqnoSpaceSize) && decide (s < seqnoSpaceSize)) = true := by
    simp [seqnoSpaceSize, hq, hs]
  simp only [getDistance, valid, nsAssert_true, some_bind, pure_some, Option.some.injEq,
    seqnoOffset_eq hs]
  unfold distance
  omega

theorem distance_lt (q s : Nat) : distance q s < 4096 := Nat.mod_lt _ (by decide)

theorem distance_add {s d : Nat} (hs : s < 4096) (hd : d < 4096) :
    distance ((s + d) % 4096) s = d := by
  unfold distance
  omega

theorem add_distance {q s : Nat} (hq : q < 4096) (hs : s < 4096) :
    (s + distance q s) % 4096 = q := by
  unfold distance
  omega

theorem distance_inj {p q s : Nat} (hp : p < 4096) (hq : q < 4096) (hs : s < 4096) :
    distance p s = distance q s ↔ p = q := by
  unfold distance
  omega

theorem distance_sub {q s n : Nat} (hs : s < 4096) (h : n ≤ distance q s) :
    distance q ((s + n) % 4096) = distance q s - n := by
  unfold distance at h ⊢
  omega

theorem distance_wrap {q s n : Nat} (hq : q < 4096) (hs : s < 4096) (h : distance q s < n)
    (hn : n < 4096) : distance q ((s + n) % 4096) = distance q s + 4096 - n := by
  unfold distance at h ⊢
  omega

/-- `BlockAckWindow`. -/
structure BlockAckWindow where
  winStart : Nat := 0
  window : List Bool := []
  head : Nat := 0
  deriving DecidableEq

namespace BlockAckWindow

/-- `Init`. -/
def init (winStart winSize : Nat) : BlockAckWindow :=
  { winStart, window := List.replicate winSize false, head := 0 }

/-- `Reset`. -/
def reset (winStart : Nat) (w : BlockAckWindow) : BlockAckWindow := init winStart w.window.length

/-- `GetWinSize`. -/
def winSize (w : BlockAckWindow) : Nat := w.window.length

/-- The slot of `At`. Without slots it is a division by zero. -/
def slot (profile : BuildProfile) (distance : Nat) (w : BlockAckWindow) : Option Nat := do
  nsAssert profile (distance < w.window.length)
  if w.window.length = 0 then none else some ((w.head + distance) % w.window.length)

/-- `At (distance)`. -/
def «at» (profile : BuildProfile) (distance : Nat) (w : BlockAckWindow) : Option Bool := do
  let i ← w.slot profile distance
  w.window[i]?

/-- `At (distance) = true`. -/
def mark (profile : BuildProfile) (distance : Nat) (w : BlockAckWindow) :
    Option BlockAckWindow := do
  let i ← w.slot profile distance
  return { w with window := w.window.set i true }

/-- The loop of `Advance`. -/
def clear : Nat → BlockAckWindow → BlockAckWindow
  | 0, w => w
  | count + 1, w =>
    clear count { w with
      window := w.window.set w.head false, head := (w.head + 1) % w.window.length }

/-- `Advance`. -/
def advance (count : Nat) (w : BlockAckWindow) : BlockAckWindow :=
  if w.window.length ≤ count then w.reset ((w.winStart + count) % seqnoSpaceSize)
  else { w.clear count with winStart := (w.winStart + count) % seqnoSpaceSize }

/-! ## The bits from the window start -/

/-- The bit at a distance from the window start. -/
def bit (w : BlockAckWindow) (d : Nat) : Bool :=
  w.window.getD ((w.head + d) % w.window.length) false

/-- The window lies in the space of sequence numbers, and the head in the vector. -/
structure Valid (w : BlockAckWindow) : Prop where
  start : w.winStart < 4096
  head : w.head < w.window.length

variable {profile : BuildProfile} {w : BlockAckWindow} {d e count : Nat}

theorem Valid.pos (h : w.Valid) : 0 < w.window.length := Nat.zero_lt_of_lt h.head

theorem init_valid {winStart winSize : Nat} (start : winStart < 4096) (size : 0 < winSize) :
    (init winStart winSize).Valid where
  start := start
  head := by simpa [init] using size

@[simp] theorem init_bit (winStart winSize d : Nat) : (init winStart winSize).bit d = false := by
  simp only [bit, init, List.getD_eq_getElem?_getD, List.getElem?_replicate]
  split <;> rfl

theorem slot_eq (h : d < w.window.length) :
    w.slot profile d = some ((w.head + d) % w.window.length) := by
  have inside : decide (d < w.window.length) = true := decide_eq_true h
  simp only [slot, inside, nsAssert_true, some_bind]
  rw [if_neg (by omega)]

theorem slot_inj (hd : d < w.window.length) (he : e < w.window.length) :
    (w.head + d) % w.window.length = (w.head + e) % w.window.length ↔ d = e := by
  constructor
  · intro same
    have modEq : d ≡ e [MOD w.window.length] := Nat.ModEq.add_left_cancel' w.head same
    exact Nat.ModEq.eq_of_lt_of_lt modEq hd he
  · intro same
    rw [same]

theorem at_eq (profile : BuildProfile) (h : d < w.window.length) :
    w.at profile d = some (w.bit d) := by
  have bound : (w.head + d) % w.window.length < w.window.length := Nat.mod_lt _ (by omega)
  simp [«at», slot_eq h, bit, List.getD_eq_getElem?_getD, List.getElem?_eq_getElem bound]

theorem mark_eq (profile : BuildProfile) (h : d < w.window.length) :
    ∃ v, w.mark profile d = some v ∧ v.winStart = w.winStart ∧ v.window.length = w.window.length ∧
      v.head = w.head ∧ ∀ e < w.window.length, v.bit e = (e == d || w.bit e) := by
  refine ⟨{ w with window := w.window.set ((w.head + d) % w.window.length) true }, ?_, rfl,
    List.length_set, rfl, fun e he => ?_⟩
  · simp [mark, slot_eq h]
  · have bound : (w.head + e) % w.window.length < w.window.length := Nat.mod_lt _ (by omega)
    simp only [bit, List.length_set, List.getD_eq_getElem?_getD, List.getElem?_set]
    by_cases same : e = d
    · subst same
      simp [bound]
    · have other : ¬ (w.head + d) % w.window.length = (w.head + e) % w.window.length := by
        rw [slot_inj h he]
        exact Ne.symm same
      simp [other, same]

/-- One round of the loop of `Advance` moves every bit one slot nearer. -/
theorem clearHead_bit (valid : w.Valid) (h : d < w.window.length) :
    bit { w with window := w.window.set w.head false, head := (w.head + 1) % w.window.length } d =
      (decide (d + 1 < w.window.length) && w.bit (d + 1)) := by
  have index : ((w.head + 1) % w.window.length + d) % w.window.length =
      (w.head + (d + 1)) % w.window.length := by
    rw [Nat.mod_add_mod, Nat.add_assoc, Nat.add_comm 1 d]
  have first : w.head = (w.head + 0) % w.window.length := (Nat.mod_eq_of_lt valid.head).symm
  simp only [bit, List.length_set, List.getD_eq_getElem?_getD, List.getElem?_set, index]
  by_cases inside : d + 1 < w.window.length
  · have other : ¬ w.head = (w.head + (d + 1)) % w.window.length := by
      intro same
      have zero := (slot_inj valid.pos inside).mp (first.symm.trans same)
      omega
    rw [if_neg other]
    simp [inside]
  · have last : d + 1 = w.window.length := by omega
    have same : w.head = (w.head + (d + 1)) % w.window.length := by
      rw [last, Nat.add_mod_right, Nat.mod_eq_of_lt valid.head]
    rw [if_pos same, ← same, if_pos valid.head]
    simp [inside]

theorem clear_spec (count : Nat) (valid : w.Valid) :
    (w.clear count).window.length = w.window.length ∧ (w.clear count).winStart = w.winStart ∧
      (w.clear count).head < w.window.length ∧
      ∀ d < w.window.length,
        (w.clear count).bit d = (decide (d + count < w.window.length) && w.bit (d + count)) := by
  induction count generalizing w with
  | zero => exact ⟨rfl, rfl, valid.head, fun d hd => by simp [clear, hd]⟩
  | succ count ih =>
    have next : Valid { w with
        window := w.window.set w.head false, head := (w.head + 1) % w.window.length } :=
      ⟨valid.start, by simpa using Nat.mod_lt _ valid.pos⟩
    obtain ⟨length, start, head, bits⟩ := ih next
    simp only [List.length_set] at length start head bits
    refine ⟨length, start, head, fun d hd => ?_⟩
    rw [clear, bits d hd]
    by_cases inside : d + count < w.window.length
    · rw [clearHead_bit valid inside]
      simp [inside, Nat.add_assoc]
    · have outside : ¬ d + (count + 1) < w.window.length := by omega
      simp [inside, outside]

theorem advance_spec (count : Nat) (valid : w.Valid) :
    (w.advance count).Valid ∧ (w.advance count).window.length = w.window.length ∧
      (w.advance count).winStart = (w.winStart + count) % 4096 ∧
      ∀ d < w.window.length,
        (w.advance count).bit d = (decide (d + count < w.window.length) && w.bit (d + count)) := by
  unfold advance
  split
  case isTrue all =>
    have start : (w.winStart + count) % seqnoSpaceSize < 4096 := Nat.mod_lt _ (by decide)
    refine ⟨init_valid start valid.pos, by simp [reset, init], rfl, fun d hd => ?_⟩
    have outside : ¬ d + count < w.window.length := by omega
    simp [reset, outside]
  case isFalse =>
    obtain ⟨length, -, head, bits⟩ := clear_spec count valid
    refine ⟨⟨Nat.mod_lt _ (by decide), ?_⟩, length, rfl, bits⟩
    rw [length]
    exact head

end BlockAckWindow

end Ns3
