import Ns3.Core.Assert
import Ns3.Library.BitField
import Ns3.Library.Run

/-!
# Nix-vectors

The neighbor indexes of a route are packed into words of 32 bits, and taken out again from the
end. A shift of a 32-bit value by 32 bits or more is undefined, and a run that makes one does not
return here.
-/

namespace Ns3

/-- `x << count` for a `uint32_t`. -/
def shiftLeft (x count : Nat) : Option Nat :=
  if count < 32 then some ((x <<< count) % 2 ^ 32) else none

/-- `x >> count` for a `uint32_t`. -/
def shiftRight (x count : Nat) : Option Nat := if count < 32 then some (x >>> count) else none

/-- `NixVector`. -/
structure NixVector where
  nixVector : List Nat := []
  used : Nat := 0
  totalBitSize : Nat := 0
  epoch : Nat := 0
  deriving DecidableEq

namespace NixVector

/-- `GetRemainingBits`. -/
def getRemainingBits (v : NixVector) : Nat := UInt32.sub v.totalBitSize v.used

/-- `AddNeighborIndex`. -/
def addNeighborIndex (v : NixVector) (newBits numberOfBits : Nat) : Option NixVector := do
  if numberOfBits > 32 then none else
  let currentVectorBitSize := v.totalBitSize % 32
  let nixVector := if currentVectorBitSize = 0 then v.nixVector ++ [0] else v.nixVector
  let back ← nixVector.getLast?
  let totalBitSize := UInt32.add v.totalBitSize numberOfBits
  if currentVectorBitSize + numberOfBits > 32 then do
    -- what fits goes into the last word, and the rest into a new one
    let tempBits ← shiftLeft newBits currentVectorBitSize
    let newBits ← shiftRight newBits (32 - currentVectorBitSize)
    let nixVector := nixVector.dropLast ++ [tempBits ||| back, newBits]
    return { v with nixVector, totalBitSize }
  else do
    let newBits ← shiftLeft newBits currentVectorBitSize
    let nixVector := nixVector.dropLast ++ [newBits ||| back]
    return { v with nixVector, totalBitSize }

/-- `ExtractNeighborIndex`. -/
def extractNeighborIndex (v : NixVector) (numberOfBits : Nat) : Option (Nat × NixVector) := do
  if numberOfBits > 32 then none else
  let totalRemainingBits := v.getRemainingBits
  if numberOfBits > totalRemainingBits then none else
  if numberOfBits ≤ 0 then none else
  let vectorIndex := (totalRemainingBits - 1) / 32
  let used := UInt32.add v.used numberOfBits
  -- both cases begin with this shift
  let word ← v.nixVector[vectorIndex]?
  let extractedBits ← shiftLeft word (32 - totalRemainingBits % 32)
  if vectorIndex > 0 ∧ numberOfBits - 1 > (totalRemainingBits - 1) % 32 then do
    let extractedBits ← shiftRight extractedBits
      ((32 - totalRemainingBits % 32) - (numberOfBits - totalRemainingBits % 32))
    let word ← v.nixVector[vectorIndex - 1]?
    let lower ← shiftRight word (32 - (numberOfBits - totalRemainingBits % 32))
    return (extractedBits ||| lower, { v with used })
  else do
    let extractedBits ← shiftRight extractedBits (32 - numberOfBits)
    return (extractedBits, { v with used })

/-- `GetSerializedSize`. -/
def getSerializedSize (v : NixVector) : Nat :=
  if v.totalBitSize = 0 then 4 else 4 + 4 + 4 * v.nixVector.length + 4

/-- `Serialize`: the words of the buffer, if it does not return zero. -/
def serialize (v : NixVector) (maxSize : Nat) : Option (List Nat) :=
  if maxSize < v.getSerializedSize then none
  else if v.totalBitSize = 0 then some [v.totalBitSize]
  else some (v.totalBitSize :: v.used :: v.nixVector ++ [v.epoch])

/-- The number of words that `Deserialize` expects. -/
def nixVectorLength (totalBitSize : Nat) : Nat :=
  totalBitSize / 32 + if totalBitSize % 32 ≠ 0 then 1 else 0

/-- `Deserialize` into a new nix-vector, if it does not return zero. -/
def deserialize (profile : BuildProfile) (buffer : List Nat) (size : Nat) : Option NixVector := do
  nsAssert profile (size ≥ 4)
  if size < 4 then none else
  let totalBitSize ← buffer[0]?
  if totalBitSize = 0 then return {}
  else do
    let used ← buffer[1]?
    let length := nixVectorLength totalBitSize
    nsAssert profile (size ≥ 16 + length)
    if size < 16 + length * 4 then none else
    let epoch ← buffer[2 + length]?
    return { nixVector := (buffer.drop 2).take length, used, totalBitSize, epoch }

/-- What is serialized into a buffer of `GetSerializedSize ()` bytes and read from it again.
`Packet::Deserialize` also counts the length word that stands in front of the buffer. -/
def roundTrip (profile : BuildProfile) (v : NixVector) (lengthCounted : Bool) : Option NixVector :=
    do
  let buffer ← v.serialize v.getSerializedSize
  deserialize profile buffer (v.getSerializedSize + if lengthCounted then 4 else 0)

end NixVector

/-! ## Runs -/

/-- A neighbor index and the number of its bits. -/
structure NeighborIndex where
  bits : Nat
  numberOfBits : Nat
  pos : 1 ≤ numberOfBits
  le : numberOfBits ≤ 32
  fits : bits < 2 ^ numberOfBits

/-- A call to a nix-vector. -/
inductive NixCall where
  | add (index : NeighborIndex)
  | extract (numberOfBits : Nat)
  | roundTrip (lengthCounted : Bool)

/-- A nix-vector and what has been extracted from it, the last value first. -/
structure NixRun where
  vector : NixVector := {}
  extracted : List Nat := []
  deriving DecidableEq

/-- One call. -/
def NixRun.step (profile : BuildProfile) (s : NixRun) : NixCall → Option NixRun
  | .add index => do
      let vector ← s.vector.addNeighborIndex index.bits index.numberOfBits
      return { s with vector }
  | .extract numberOfBits => do
      let (bits, vector) ← s.vector.extractNeighborIndex numberOfBits
      return { vector, extracted := bits :: s.extracted }
  | .roundTrip lengthCounted => do
      let vector ← s.vector.roundTrip profile lengthCounted
      return { s with vector }

end Ns3

/-!
## The words of a nix-vector

The words hold the neighbor indexes packed one above the other. What has been extracted stays
there, and only the count of the used bits says how much is left.
-/

namespace Ns3

open BitField

/-- A neighbor index as a field of bits. -/
def NeighborIndex.field (index : NeighborIndex) : Field := (index.bits, index.numberOfBits)

/-- The fields of the indexes, the first one in the lowest bits. -/
def fields (indexes : List NeighborIndex) : List Field := indexes.map NeighborIndex.field

@[simp] theorem fields_append (front back : List NeighborIndex) :
    fields (front ++ back) = fields front ++ fields back := List.map_append

@[simp] theorem fields_cons (index : NeighborIndex) (rest : List NeighborIndex) :
    fields (index :: rest) = index.field :: fields rest := rfl

@[simp] theorem fields_nil : fields [] = [] := rfl

@[simp] theorem field_width (index : NeighborIndex) : index.field.2 = index.numberOfBits := rfl

theorem fields_fit (indexes : List NeighborIndex) : ∀ f ∈ fields indexes, Fits f := by
  intro f mem
  obtain ⟨index, -, rfl⟩ := List.mem_map.mp mem
  exact index.fits

theorem shiftLeft_of_lt {x count : Nat} (defined : count < 32) :
    shiftLeft x count = some (x * 2 ^ count % 2 ^ 32) := by
  rw [shiftLeft, if_pos defined, Nat.shiftLeft_eq]

theorem shiftRight_of_lt {x count : Nat} (defined : count < 32) :
    shiftRight x count = some (x / 2 ^ count) := by
  rw [shiftRight, if_pos defined, Nat.shiftRight_eq_div_pow]

namespace NixVector

/-- The indexes `added` have been added to the vector, and of these `rest` have not been
extracted. -/
structure Holds (v : NixVector) (added rest : List NeighborIndex) : Prop where
  total : v.totalBitSize = width (fields added)
  remaining : v.used + width (fields rest) = width (fields added)
  fits : width (fields added) < 2 ^ 32
  words : number 32 v.nixVector = pack (fields added)
  length : v.nixVector.length = nixVectorLength (width (fields added))
  small : ∀ x ∈ v.nixVector, x < 2 ^ 32
  unused : rest <+: added

variable {v : NixVector} {added rest : List NeighborIndex} {index : NeighborIndex}

theorem holds_empty : Holds {} [] [] where
  total := rfl
  remaining := rfl
  fits := Nat.two_pow_pos 32
  words := rfl
  length := rfl
  small := nofun
  unused := List.prefix_refl []

theorem Holds.getRemainingBits (holds : Holds v added rest) :
    v.getRemainingBits = width (fields rest) := by
  have remaining := holds.remaining
  have fits := holds.fits
  rw [NixVector.getRemainingBits, holds.total, UInt32.sub_of_le (by omega) fits]
  omega

/-! ## `AddNeighborIndex` -/

/-- The word that `AddNeighborIndex` writes to has free bits above those in use. -/
theorem Holds.back (holds : Holds v added rest) :
    ∃ front last, (if v.totalBitSize % 32 = 0 then v.nixVector ++ [0] else v.nixVector) =
        front ++ [last] ∧
      32 * front.length + v.totalBitSize % 32 = width (fields added) ∧
      last < 2 ^ (v.totalBitSize % 32) ∧
      number 32 (front ++ [last]) = pack (fields added) ∧
      ∀ x ∈ front, x < 2 ^ 32 := by
  have length := holds.length
  rw [nixVectorLength] at length
  rw [holds.total]
  by_cases full : width (fields added) % 32 = 0
  · refine ⟨v.nixVector, 0, if_pos full, ?_, Nat.two_pow_pos _, ?_, holds.small⟩
    · rw [length, if_neg (not_not.mpr full)]
      omega
    · rw [number_concat, Nat.mul_zero, Nat.add_zero, holds.words]
  · rw [if_pos full] at length
    have some_ : v.nixVector ≠ [] := List.ne_nil_of_length_pos (by omega)
    have split := List.dropLast_concat_getLast some_
    have front : v.nixVector.dropLast.length = width (fields added) / 32 := by
      rw [List.length_dropLast, length, Nat.add_sub_cancel]
    have bits : 32 * v.nixVector.dropLast.length + width (fields added) % 32 =
        width (fields added) := by
      omega
    refine ⟨_, _, (if_neg full).trans split.symm, bits, ?_, ?_, ?_⟩
    · refine @last_lt 32 v.nixVector.dropLast _ _ ?_
      rw [split, bits, holds.words]
      exact pack_lt (fields_fit added)
    · rw [split, holds.words]
    · exact fun x mem => holds.small x (List.dropLast_subset _ mem)

/-- `AddNeighborIndex` packs the index above the others. -/
theorem Holds.add (holds : Holds v added added)
    (fits : width (fields (added ++ [index])) < 2 ^ 32) :
    ∃ v', v.addNeighborIndex index.bits index.numberOfBits = some v' ∧
      Holds v' (added ++ [index]) (added ++ [index]) := by
  obtain ⟨front, last, back, bits, low, words, small⟩ := holds.back
  have pos := index.pos
  have le := index.le
  have value := index.fits
  have unused : v.used = 0 := by
    have := holds.remaining
    omega
  have total : UInt32.add v.totalBitSize index.numberOfBits =
      width (fields (added ++ [index])) := by
    rw [fields_append, width_append] at fits ⊢
    rw [holds.total]
    exact UInt32.add_of_lt fits
  have packed : pack (fields (added ++ [index])) =
      number 32 (front ++ [last]) + 2 ^ (32 * front.length + v.totalBitSize % 32) * index.bits := by
    rw [fields_append, fields_cons, fields_nil, pack_concat, words, bits]
    rfl
  have size : width (fields (added ++ [index])) = width (fields added) + index.numberOfBits := by
    rw [fields_append, width_append]
    rfl
  have current : v.totalBitSize % 32 < 32 := Nat.mod_lt _ (by decide)
  have end_ : (front ++ [last]).getLast? = some last := List.getLast?_concat
  have wide : index.bits < 2 ^ 32 := Nat.lt_of_lt_of_le value (Nat.pow_le_pow_right (by decide) le)
  have lowWord : last < 2 ^ 32 :=
    Nat.lt_of_lt_of_le low (Nat.pow_le_pow_right (by decide) (Nat.le_of_lt current))
  have word : index.bits * 2 ^ (v.totalBitSize % 32) % 2 ^ 32 ||| last < 2 ^ 32 :=
    Nat.or_lt_two_pow (Nat.mod_lt _ (Nat.two_pow_pos 32)) lowWord
  rw [addNeighborIndex, if_neg (Nat.not_lt.mpr le)]
  simp only [back, end_, List.dropLast_concat, some_bind, shiftLeft_of_lt current]
  by_cases overflows : v.totalBitSize % 32 + index.numberOfBits > 32
  · rw [if_pos overflows, shiftRight_of_lt (by omega)]
    refine ⟨_, rfl, total, (congrArg (· + _) unused).trans (Nat.zero_add _), fits, ?_, ?_, ?_,
      List.prefix_refl _⟩
    · rw [packed]
      exact number_overflow low (Nat.le_of_lt current) index.bits
    · rw [List.length_append, List.length_cons, List.length_singleton, size, nixVectorLength,
        if_pos (by omega)]
      omega
    · intro x mem
      obtain mem | mem := List.mem_append.mp mem
      · exact small x mem
      · obtain rfl | mem := List.mem_cons.mp mem
        · exact word
        · rw [List.mem_singleton.mp mem]
          exact Nat.lt_of_le_of_lt (Nat.div_le_self _ _) wide
  · rw [if_neg overflows]
    have kept : index.bits * 2 ^ (v.totalBitSize % 32) % 2 ^ 32 =
        index.bits * 2 ^ (v.totalBitSize % 32) := by
      refine Nat.mod_eq_of_lt ?_
      calc index.bits * 2 ^ (v.totalBitSize % 32)
          < 2 ^ index.numberOfBits * 2 ^ (v.totalBitSize % 32) :=
            Nat.mul_lt_mul_of_pos_right value (Nat.two_pow_pos _)
        _ = 2 ^ (index.numberOfBits + v.totalBitSize % 32) := (Nat.pow_add ..).symm
        _ ≤ 2 ^ 32 := Nat.pow_le_pow_right (by decide) (by omega)
    refine ⟨_, rfl, total, (congrArg (· + _) unused).trans (Nat.zero_add _), fits, ?_, ?_, ?_,
      List.prefix_refl _⟩
    · rw [packed, kept]
      exact number_extend low index.bits
    · rw [List.length_append, List.length_singleton, size, nixVectorLength]
      split <;> omega
    · intro x mem
      obtain mem | mem := List.mem_append.mp mem
      · exact small x mem
      · exact List.mem_singleton.mp mem ▸ word

/-! ## `ExtractNeighborIndex` -/

section

variable (holds : Holds v added (rest ++ [index]))
include holds

/-- When the remaining bits fill their words, the first shift is by 32 bits. -/
theorem Holds.extract_undefined (full : width (fields (rest ++ [index])) % 32 = 0) :
    v.extractNeighborIndex index.numberOfBits = none := by
  rw [extractNeighborIndex, holds.getRemainingBits]
  split
  · rfl
  · simp only
    split
    · rfl
    · split
      · rfl
      · have undefined (x : Nat) : shiftLeft x (32 - width (fields (rest ++ [index])) % 32) =
          none := by
          rw [full]
          rfl
        simp only [undefined, Option.bind_eq_bind, Option.bind_none, Option.bind_fun_none]

theorem Holds.top :
    below (number 32 v.nixVector) (width (fields (rest ++ [index]))) index.numberOfBits =
      index.bits := by
  obtain ⟨later, rfl⟩ := holds.unused
  rw [holds.words, List.append_assoc]
  simp only [fields_append, fields_cons, List.cons_append, fields_nil, List.nil_append]
  exact below_pack (fields_fit rest) index.fits

/-- The count of the used bits after an extraction. -/
theorem Holds.use : Holds { v with used := UInt32.add v.used index.numberOfBits } added rest := by
  have remaining := holds.remaining
  have fits := holds.fits
  rw [fields_append, width_append] at remaining
  simp only [fields_cons, fields_nil, width_cons, width_nil, field_width] at remaining
  refine { holds with remaining := ?_, unused := ?_ }
  · simp only
    rw [UInt32.add_of_lt (by omega)]
    omega
  · exact (List.prefix_append rest [index]).trans holds.unused

/-- Otherwise the index on top is extracted. -/
theorem Holds.extract (open_ : width (fields (rest ++ [index])) % 32 ≠ 0) :
    ∃ v', v.extractNeighborIndex index.numberOfBits = some (index.bits, v') ∧
      Holds v' added rest := by
  refine ⟨_, ?_, holds.use⟩
  have pos := index.pos
  have le := index.le
  have top := holds.top
  have remaining := holds.remaining
  have length := holds.length
  have size : width (fields (rest ++ [index])) = width (fields rest) + index.numberOfBits := by
    rw [fields_append, width_append]
    rfl
  rw [extractNeighborIndex, holds.getRemainingBits]
  generalize bits : width (fields (rest ++ [index])) = total at *
  have last : (total - 1) / 32 = total / 32 := by omega
  have rest_ : (total - 1) % 32 = total % 32 - 1 := by omega
  have whole : 32 * (total / 32) + total % 32 = total := Nat.div_add_mod total 32
  have inside : total / 32 < v.nixVector.length := by
    rw [length, nixVectorLength]
    split <;> omega
  rw [if_neg (Nat.not_lt.mpr le), if_neg (by omega), if_neg (by omega)]
  simp only [last, rest_, word_eq holds.small inside, Option.bind_eq_bind, Option.bind_some,
    shiftLeft_of_lt (show 32 - total % 32 < 32 by omega)]
  by_cases spans : total / 32 > 0 ∧ index.numberOfBits - 1 > total % 32 - 1
  · obtain ⟨n, several⟩ : ∃ n, total / 32 = n + 1 := Nat.exists_eq_add_one.mpr spans.1
    have high : total % 32 ≤ index.numberOfBits := by omega
    have count : 32 - total % 32 - (index.numberOfBits - total % 32) = 32 - index.numberOfBits := by
      omega
    rw [if_pos spans, count, shiftRight_of_lt (by omega), several, Nat.add_sub_cancel,
      word_eq holds.small (by omega)]
    simp only [Option.bind_some, shiftRight_of_lt (show 32 - (index.numberOfBits - total % 32) < 32
      by omega)]
    have lower : number 32 v.nixVector / 2 ^ (32 * n) % 2 ^ 32 /
        2 ^ (32 - (index.numberOfBits - total % 32)) < 2 ^ (index.numberOfBits - total % 32) := by
      rw [Nat.div_lt_iff_lt_mul (Nat.two_pow_pos _), ← Nat.pow_add, Nat.add_sub_cancel' (by omega)]
      exact Nat.mod_lt _ (Nat.two_pow_pos 32)
    rw [several] at whole
    rw [shift_above high le, or_low lower, Nat.mod_mod_of_dvd _ (Nat.pow_dvd_pow 2 (by omega)),
      ← below_words high le (by omega), whole, top]
    rfl
  · rw [if_neg spans, shiftRight_of_lt (by omega)]
    have low : index.numberOfBits ≤ total % 32 := by omega
    rw [Option.bind_some, shift_below low (by omega), ← below_word low (by omega), whole, top]
    rfl

end

/-! ## `Serialize` and `Deserialize` -/

theorem width_eq_zero : width (fields added) = 0 ↔ added = [] := by
  cases added with
  | nil => exact iff_of_true rfl rfl
  | cons index rest =>
    have pos := index.pos
    refine iff_of_false (fun zero => ?_) (List.cons_ne_nil _ _)
    rw [fields_cons, width_cons, field_width] at zero
    omega

/-- What `Deserialize` reads in the buffer of a vector that holds bits. -/
theorem deserialize_serialized (profile : BuildProfile) {size : Nat} (some_ : v.totalBitSize ≠ 0)
    (length : v.nixVector.length = nixVectorLength v.totalBitSize) :
    deserialize profile (v.totalBitSize :: v.used :: v.nixVector ++ [v.epoch]) size =
      if 16 + v.nixVector.length * 4 ≤ size then some v else none := by
  have buffer : (v.totalBitSize :: v.used :: v.nixVector ++ [v.epoch])[2 + v.nixVector.length]? =
      some v.epoch := by
    rw [Nat.add_comm]
    exact List.getElem?_concat_length
  have taken : ((v.totalBitSize :: v.used :: v.nixVector ++ [v.epoch]).drop 2).take
      v.nixVector.length = v.nixVector := List.take_left
  have zero : (v.totalBitSize :: v.used :: v.nixVector ++ [v.epoch])[0]? = some v.totalBitSize :=
    rfl
  have one : (v.totalBitSize :: v.used :: v.nixVector ++ [v.epoch])[1]? = some v.used := rfl
  rw [deserialize]
  simp only [zero, one, ← length, Option.bind_eq_bind, Option.bind_some, if_neg some_, buffer,
    taken]
  by_cases enough : 16 + v.nixVector.length * 4 ≤ size
  · have first : decide (size ≥ 4) = true := decide_eq_true (by omega)
    have second : decide (size ≥ 16 + v.nixVector.length) = true := decide_eq_true (by omega)
    rw [if_pos enough, first, second, nsAssert_true, Option.bind_some, if_neg (by omega),
      Option.bind_some, if_neg (by omega)]
    rfl
  · rw [if_neg enough, if_pos (show size < 16 + v.nixVector.length * 4 by omega),
      Option.bind_fun_none, ite_self, Option.bind_fun_none]

/-- A vector that holds bits is read again if the size counts the length word. -/
theorem roundTrip_of_ne_zero (profile : BuildProfile) (counted : Bool) (some_ : v.totalBitSize ≠ 0)
    (length : v.nixVector.length = nixVectorLength v.totalBitSize) :
    v.roundTrip profile counted = if counted then some v else none := by
  rw [NixVector.roundTrip, serialize, if_neg (Nat.lt_irrefl _), if_neg some_]
  refine (deserialize_serialized profile some_ length).trans ?_
  rw [getSerializedSize, if_neg some_]
  cases counted with
  | true =>
    have enough : 16 + v.nixVector.length * 4 ≤ 4 + 4 + 4 * v.nixVector.length + 4 + 4 := by omega
    exact (if_pos enough).trans (if_pos rfl).symm
  | false =>
    have short : ¬ 16 + v.nixVector.length * 4 ≤
      4 + 4 + 4 * v.nixVector.length + 4 + 0 := by omega
    exact (if_neg short).trans (if_neg Bool.false_ne_true).symm

theorem roundTrip_of_zero (profile : BuildProfile) (counted : Bool) (none_ : v.totalBitSize = 0) :
    v.roundTrip profile counted = some {} := by
  rw [NixVector.roundTrip, serialize, if_neg (Nat.lt_irrefl _), if_pos none_, getSerializedSize,
    if_pos none_, none_]
  cases profile <;> cases counted <;> rfl

/-- A buffer is read again when the length word is counted, and when it holds no bits. -/
theorem Holds.roundTrip (holds : Holds v added rest) (profile : BuildProfile) {counted : Bool}
    (accepted : counted = true ∨ added = []) :
    ∃ v', v.roundTrip profile counted = some v' ∧ Holds v' added rest := by
  by_cases none_ : added = []
  · subst none_
    obtain rfl := List.prefix_nil.mp holds.unused
    exact ⟨_, roundTrip_of_zero profile counted holds.total, holds_empty⟩
  · have some_ : v.totalBitSize ≠ 0 := holds.total ▸ mt width_eq_zero.mp none_
    refine ⟨v, ?_, holds⟩
    rw [roundTrip_of_ne_zero profile counted some_ (holds.total ▸ holds.length),
      if_pos (accepted.resolve_right none_)]

theorem Holds.roundTrip_refused (holds : Holds v added rest) (profile : BuildProfile)
    (some_ : added ≠ []) : v.roundTrip profile false = none := by
  have some_ : v.totalBitSize ≠ 0 := holds.total ▸ mt width_eq_zero.mp some_
  rw [roundTrip_of_ne_zero profile false some_ (holds.total ▸ holds.length),
    if_neg Bool.false_ne_true]

end NixVector

end Ns3
