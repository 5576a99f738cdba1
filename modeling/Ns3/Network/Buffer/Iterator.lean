import Ns3.Network.Packet
import Mathlib.Data.BitVec

/-!
# Reading and writing at an iterator

A `Buffer::Iterator` that reads is given by the bytes from its position to the end of the buffer,
and what is written is given by the bytes. A read beyond the end has no result.
-/

namespace Ns3.Buffer.Iterator

/-- A function that reads at an iterator and advances it. -/
abbrev Reading := StateT (List Byte) Option

/-- `ReadU8`. -/
def readU8 : Reading Byte
  | [] => none
  | byte :: i => some (byte, i)

/-- `ReadNtohU16`. -/
def readNtohU16 : Reading (BitVec 16) := do
  return (← readU8) ++ (← readU8)

/-- `ReadNtohU32`. -/
def readNtohU32 : Reading (BitVec 32) := do
  return (← readNtohU16) ++ (← readNtohU16)

/-- `Read`. -/
def read : Nat → Reading (List Byte)
  | 0 => return []
  | size + 1 => do return (← readU8) :: (← read size)

/-- `Next`. -/
def next (profile : BuildProfile) (delta : Nat) : Reading Unit := do
  nsAssert profile (delta ≤ (← get).length)
  set ((← get).drop delta)

/-- `WriteHtonU16`. -/
def writeHtonU16 (data : BitVec 16) : List Byte := [data.extractLsb' 8 8, data.extractLsb' 0 8]

/-- `WriteHtonU32`. -/
def writeHtonU32 (data : BitVec 32) : List Byte :=
  writeHtonU16 (data.extractLsb' 16 16) ++ writeHtonU16 (data.extractLsb' 0 16)

/-- `WriteU16`: the low byte comes first. -/
def writeU16 (data : BitVec 16) : List Byte := [data.extractLsb' 0 8, data.extractLsb' 8 8]

@[simp] theorem readU8_cons (byte : Byte) (i : List Byte) :
    readU8 (byte :: i) = some (byte, i) := rfl

@[simp] theorem readNtohU16_cons (a b : Byte) (i : List Byte) :
    readNtohU16 (a :: b :: i) = some (a ++ b, i) := rfl

@[simp] theorem length_writeHtonU16 (data : BitVec 16) : (writeHtonU16 data).length = 2 := rfl

@[simp] theorem length_writeHtonU32 (data : BitVec 32) : (writeHtonU32 data).length = 4 := rfl

theorem append_extractLsb' {m n : Nat} (x : BitVec (m + n)) :
    x.extractLsb' n m ++ x.extractLsb' 0 n = x := by
  ext j bound
  simp only [BitVec.getElem_append, BitVec.getElem_extractLsb']
  split
  · rw [Nat.zero_add, BitVec.getLsbD_eq_getElem bound]
  · rw [show n + (j - n) = j by omega, BitVec.getLsbD_eq_getElem bound]

@[simp] theorem readNtohU16_write (data : BitVec 16) (i : List Byte) :
    readNtohU16 (writeHtonU16 data ++ i) = some (data, i) :=
  congrArg (fun value => some (value, i)) (append_extractLsb' (m := 8) (n := 8) data)

@[simp] theorem readNtohU32_write (data : BitVec 32) (i : List Byte) :
    readNtohU32 (writeHtonU32 data ++ i) = some (data, i) := by
  have whole := append_extractLsb' (m := 16) (n := 16) data
  have high := append_extractLsb' (m := 8) (n := 8) (data.extractLsb' 16 16)
  have low := append_extractLsb' (m := 8) (n := 8) (data.extractLsb' 0 16)
  change some (((data.extractLsb' 16 16).extractLsb' 8 8 ++ (data.extractLsb' 16 16).extractLsb' 0
    8) ++
    ((data.extractLsb' 0 16).extractLsb' 8 8 ++ (data.extractLsb' 0 16).extractLsb' 0 8), i) = _
  rw [high, low, whole]

end Ns3.Buffer.Iterator
