import Ns3.Wifi.BlockAckWindow
import Ns3.Network.Packet
import Mathlib.Tactic.IntervalCases

/-!
# The header of a Block Ack

`CtrlBAckResponseHeader` carries a starting sequence number and a bitmap, for a
Multi-STA Block Ack several of them. The length of a bitmap is a member of the type and
is not sent as such: for the compressed variant a bit of the fragment number says
whether it has 8 or 32 bytes.
-/

namespace Ns3

open List Option

/-- `BlockAckType::Variant`. -/
inductive BlockAckVariant where
  | basic
  | compressed
  | extendedCompressed
  | multiTid
  | multiSta
  deriving DecidableEq

/-- `BlockAckType`. -/
structure BlockAckType where
  variant : BlockAckVariant
  bitmapLen : List Nat
  deriving DecidableEq

/-- `BlockAckType (Variant)`. -/
def BlockAckType.of : BlockAckVariant → BlockAckType
  | .basic => ⟨.basic, [128]⟩
  | .compressed => ⟨.compressed, [8]⟩
  | .extendedCompressed => ⟨.extendedCompressed, [8]⟩
  | .multiTid => ⟨.multiTid, []⟩
  | .multiSta => ⟨.multiSta, []⟩

/-- `BaInfoInstance`. `ra` has the bytes of a `Mac48Address`. -/
structure BaInfoInstance where
  aidTidInfo : BitVec 16 := 0
  startingSeq : BitVec 16 := 0
  bitmap : List Byte := []
  ra : List Byte := List.replicate 6 0
  deriving DecidableEq

/-- `CtrlBAckResponseHeader`. -/
structure CtrlBAckResponseHeader where
  baAckPolicy : Bool := false
  baType : BlockAckType
  tidInfo : BitVec 16 := 0
  baInfo : List BaInfoInstance
  deriving DecidableEq

/-- `WriteHtolsbU16`. -/
def writeHtolsbU16 (x : BitVec 16) : List Byte := [x.setWidth 8, (x >>> 8).setWidth 8]

/-- `ReadLsbtohU16`. -/
def readLsbtohU16 : List Byte → Option (BitVec 16 × List Byte)
  | byte0 :: byte1 :: rest => some ((byte1.setWidth 16 <<< 8) ||| byte0.setWidth 16, rest)
  | _ => none

@[simp] theorem readLsbtohU16_write (x : BitVec 16) (rest : List Byte) :
    readLsbtohU16 (writeHtolsbU16 x ++ rest) = some (x, rest) := by
  have whole : ((x >>> 8).setWidth 8).setWidth 16 <<< 8 ||| (x.setWidth 8).setWidth 16 = x := by
    ext i hi
    by_cases low : i < 8
    · simp [low, BitVec.getLsbD_eq_getElem hi]
    · have back : 8 + (i - 8) = i := by omega
      simp [low, hi, back]
      omega
  simp [writeHtolsbU16, readLsbtohU16, whole]

namespace CtrlBAckResponseHeader

variable (profile : BuildProfile)

/-- `SetType`. -/
def setType (type : BlockAckType) (h : CtrlBAckResponseHeader) : CtrlBAckResponseHeader :=
  { h with
    baType := type
    baInfo := type.bitmapLen.map fun len => { bitmap := List.replicate len 0 } }

/-- The assertions about `index`, and the instance that it names. -/
def info (index : Nat) (h : CtrlBAckResponseHeader) : Option BaInfoInstance := do
  nsAssert profile (h.baType.variant == .multiSta || index == 0)
  nsAssert profile (index < h.baInfo.length)
  h.baInfo[index]?

/-- The instance at `index`, replaced. -/
def setInfo (index : Nat) (i : BaInfoInstance) (h : CtrlBAckResponseHeader) :
    CtrlBAckResponseHeader :=
  { h with baInfo := h.baInfo.set index i }

/-- `SetStartingSequence`. -/
def setStartingSequence (seq : BitVec 16) (index : Nat) (h : CtrlBAckResponseHeader) :
    Option CtrlBAckResponseHeader := do
  let i ← h.info profile index
  return h.setInfo index { i with startingSeq := seq }

/-- `ResetBitmap`. -/
def resetBitmap (index : Nat) (h : CtrlBAckResponseHeader) : Option CtrlBAckResponseHeader := do
  let i ← h.info profile index
  let len ← h.baType.bitmapLen[index]?
  return h.setInfo index { i with bitmap := List.replicate len 0 }

/-- `GetAid11`. -/
def getAid11 (i : BaInfoInstance) : BitVec 16 := i.aidTidInfo &&& 0x07ff

/-- `GetAckType`. -/
def getAckType (i : BaInfoInstance) : Bool := (i.aidTidInfo >>> 11) &&& 0x0001 != 0

/-- `GetTidInfo` of a Multi-STA Block Ack. -/
def getTidInfo (i : BaInfoInstance) : BitVec 16 := (i.aidTidInfo >>> 12) &&& 0x000f

/-- The number of MPDUs that a bitmap acknowledges: `nAckedMpdus`. -/
def nAckedMpdus (index : Nat) (h : CtrlBAckResponseHeader) : Option Nat := do
  let len ← h.baType.bitmapLen[index]?
  return if h.baType.variant = .basic then len * 8 / 16 else len * 8

/-- `IsInBitmap`. -/
def isInBitmap (seq : BitVec 16) (index : Nat) (h : CtrlBAckResponseHeader) : Option Bool := do
  let i ← h.info profile index
  let n ← h.nAckedMpdus index
  return seqnoOffset seq.toNat i.startingSeq.toNat < n

/-- `IndexInBitmap`. -/
def indexInBitmap (seq : BitVec 16) (index : Nat) (h : CtrlBAckResponseHeader) : Option Nat := do
  let i ← h.info profile index
  let place : BitVec 16 :=
    if i.startingSeq ≤ seq then seq - i.startingSeq
    else BitVec.ofNat 16 seqnoSpaceSize - i.startingSeq + seq
  let n ← h.nAckedMpdus index
  nsAssert profile (place.toNat < n)
  return place.toNat

/-- A bit of a bitmap, set. A byte outside the bitmap is outside the object. -/
def setBit (bitmap : List Byte) (byte : Nat) (mask : Byte) : Option (List Byte) := do
  let b ← bitmap[byte]?
  return bitmap.set byte (b ||| mask)

/-- `SetReceivedPacket`. -/
def setReceivedPacket (seq : BitVec 16) (index : Nat) (h : CtrlBAckResponseHeader) :
    Option CtrlBAckResponseHeader := do
  let i ← h.info profile index
  if !(← h.isInBitmap profile seq index) then some h
  else
    match h.baType.variant with
    | .basic => do
        let place ← h.indexInBitmap profile seq 0
        let bitmap ← setBit i.bitmap (place * 2) 0x01
        return h.setInfo index { i with bitmap }
    | .compressed | .extendedCompressed | .multiSta => do
        let place ← h.indexInBitmap profile seq index
        let bitmap ← setBit i.bitmap (place / 8) ((1 : Byte) <<< (place % 8))
        return h.setInfo index { i with bitmap }
    | .multiTid => none

/-- `IsPacketReceived`. -/
def isPacketReceived (seq : BitVec 16) (index : Nat) (h : CtrlBAckResponseHeader) :
    Option Bool := do
  let i ← h.info profile index
  if h.baType.variant = .multiSta ∧ getAckType i = true ∧ getTidInfo i = 14 then some true
  else if !(← h.isInBitmap profile seq index) then some false
  else
    match h.baType.variant with
    | .basic => some false
    | .compressed | .extendedCompressed | .multiSta => do
        let place ← h.indexInBitmap profile seq index
        let byte ← i.bitmap[place / 8]?
        return byte &&& ((1 : Byte) <<< (place % 8)) != 0
    | .multiTid => none

/-! ## On the wire -/

/-- `GetBaControl`. -/
def getBaControl (h : CtrlBAckResponseHeader) : BitVec 16 :=
  let policy : BitVec 16 := if h.baAckPolicy then 0x1 else 0
  let variant : BitVec 16 :=
    match h.baType.variant with
    | .basic => 0
    | .compressed => (0x02 : BitVec 16) <<< 1
    | .extendedCompressed => (0x01 : BitVec 16) <<< 1
    | .multiTid => (0x03 : BitVec 16) <<< 1
    | .multiSta => (0x0b : BitVec 16) <<< 1
  let tid : BitVec 16 := if h.baType.variant = .multiSta then 0 else (h.tidInfo <<< 12) &&& 0xf000
  policy ||| variant ||| tid

/-- `SetBaControl`. -/
def setBaControl (ba : BitVec 16) (h : CtrlBAckResponseHeader) : Option CtrlBAckResponseHeader := do
  let h := { h with baAckPolicy := ba &&& 0x01 == 1 }
  let kind := (ba >>> 1) &&& 0x0f
  let h ←
    if kind = 0x03 then some (h.setType (.of .multiTid))
    else if kind = 0x01 then some (h.setType (.of .extendedCompressed))
    else if kind = 0x02 then some (h.setType (.of .compressed))
    else if kind = 0 then some (h.setType (.of .basic))
    else if kind = 0x0b then some (h.setType (.of .multiSta))
    else none
  return if h.baType.variant = .multiSta then h else { h with tidInfo := (ba >>> 12) &&& 0x0f }

/-- `GetStartingSequenceControl`. -/
def getStartingSequenceControl (index : Nat) (h : CtrlBAckResponseHeader) : Option (BitVec 16) := do
  let i ← h.info profile index
  let ret := (i.startingSeq <<< 4) &&& 0xfff0
  if h.baType.variant = .compressed then do
    let len ← h.baType.bitmapLen[0]?
    return if len = 32 then ret ||| 0x0004 else ret
  else if h.baType.variant = .multiSta then do
    nsAssert profile (h.baInfo.length == h.baType.bitmapLen.length)
    nsAssert profile (i.bitmap != [])
    let len ← h.baType.bitmapLen[index]?
    return if len = 16 then ret ||| 0x0002 else if len = 32 then ret ||| 0x0004
      else if len = 4 then ret ||| 0x0006 else ret
  else return ret

/-- The two subfields of the fragment number that encode the length of the bitmap, with
`NS_FATAL_ERROR` for fragmentation level 3 and for reserved configurations. -/
def bitmapLength (seqControl : BitVec 16) : Option (BitVec 16) :=
  if seqControl &&& 0x0001 = 1 then none
  else if (seqControl >>> 3) &&& 0x0001 = 0 then some ((seqControl >>> 1) &&& 0x0003)
  else none

/-- `SetStartingSequenceControl`. -/
def setStartingSequenceControl (seqControl : BitVec 16) (index : Nat) (h : CtrlBAckResponseHeader) :
    Option CtrlBAckResponseHeader := do
  let _ ← h.info profile index
  let h ←
    if h.baType.variant = .compressed then do
      let subfield ← bitmapLength seqControl
      if subfield = 0 then some (h.setType ⟨.compressed, [8]⟩)
      else if subfield = 2 then some (h.setType ⟨.compressed, [32]⟩)
      else none
    else if h.baType.variant = .multiSta then do
      let subfield ← bitmapLength seqControl
      let len := if subfield = 0 then 8 else if subfield = 1 then 16 else if subfield =
        2 then 32 else 4
      let i ← h.baInfo[index]?
      let h := { h with baType.bitmapLen := h.baType.bitmapLen.set index len }
      return h.setInfo index { i with bitmap := List.replicate len 0 }
    else some h
  let i ← h.baInfo[index]?
  return h.setInfo index { i with startingSeq := (seqControl >>> 4) &&& 0x0fff }

/-- `SerializeBitmap`. -/
def serializeBitmap (index : Nat) (h : CtrlBAckResponseHeader) : Option (List Byte) := do
  let i ← h.info profile index
  if h.baType.variant = .multiTid then none else some i.bitmap

/-- `DeserializeBitmap`. -/
def deserializeBitmap (bytes : List Byte) (index : Nat) (h : CtrlBAckResponseHeader) :
    Option (CtrlBAckResponseHeader × List Byte) := do
  let i ← h.info profile index
  let len ← h.baType.bitmapLen[index]?
  if h.baType.variant = .multiTid ∨ bytes.length < len ∨ i.bitmap.length < len then none
  else some (h.setInfo index { i with bitmap := bytes.take len ++ i.bitmap.drop len },
    bytes.drop len)

/-- A Per AID TID Info subfield of a Multi-STA Block Ack. -/
def serializeInfo (index : Nat) (h : CtrlBAckResponseHeader) : Option (List Byte) := do
  let i ← h.baInfo[index]?
  if getAid11 i = 2045 then some (writeHtolsbU16 i.aidTidInfo ++ [0, 0, 0, 0] ++ i.ra)
  else if i.bitmap = [] then some (writeHtolsbU16 i.aidTidInfo)
  else do
    let control ← h.getStartingSequenceControl profile index
    let bitmap ← h.serializeBitmap profile index
    return writeHtolsbU16 i.aidTidInfo ++ writeHtolsbU16 control ++ bitmap

/-- `Serialize`. -/
def serialize (h : CtrlBAckResponseHeader) : Option (List Byte) :=
  match h.baType.variant with
  | .basic | .compressed | .extendedCompressed => do
      let control ← h.getStartingSequenceControl profile 0
      let bitmap ← h.serializeBitmap profile 0
      return writeHtolsbU16 h.getBaControl ++ writeHtolsbU16 control ++ bitmap
  | .multiSta => do
      let infos ← (List.range h.baInfo.length).mapM fun index => h.serializeInfo profile index
      return writeHtolsbU16 h.getBaControl ++ infos.flatten
  | .multiTid => none

/-- One round of the loop of `Deserialize` for a Multi-STA Block Ack. -/
def deserializeInfo (index : Nat) (bytes : List Byte) (h : CtrlBAckResponseHeader) :
    Option (CtrlBAckResponseHeader × List Byte) := do
  let (aidTidInfo, bytes) ← readLsbtohU16 bytes
  let i : BaInfoInstance := { aidTidInfo }
  let h := { h with
    baInfo := h.baInfo ++ [i], baType.bitmapLen := h.baType.bitmapLen ++ [0] }
  if getAid11 i = 2045 then
    if bytes.length < 10 then none
    else
      let h := { h with baType.bitmapLen := h.baType.bitmapLen.dropLast ++ [8] }
      some (h.setInfo index { i with ra := (bytes.drop 4).take 6 }, bytes.drop 10)
  else if !getAckType i ∧ getTidInfo i < 8 then do
    let (control, bytes) ← readLsbtohU16 bytes
    let h ← h.setStartingSequenceControl profile control index
    h.deserializeBitmap profile bytes index
  else some (h, bytes)

/-- The loop. Every round consumes two bytes at least, so `bytes.length` rounds suffice. -/
def deserializeInfos : Nat → Nat → List Byte → CtrlBAckResponseHeader →
    Option (CtrlBAckResponseHeader × List Byte)
  | 0, _, bytes, h => some (h, bytes)
  | rounds + 1, index, bytes, h =>
    if bytes = [] then some (h, bytes)
    else do
      let (h, bytes) ← h.deserializeInfo profile index bytes
      deserializeInfos rounds (index + 1) bytes h

/-- `Deserialize`: the header and the bytes left. -/
def deserialize (bytes : List Byte) (h : CtrlBAckResponseHeader) :
    Option (CtrlBAckResponseHeader × List Byte) := do
  let (control, bytes) ← readLsbtohU16 bytes
  let h ← h.setBaControl control
  match h.baType.variant with
  | .basic | .compressed | .extendedCompressed => do
      let (seqControl, bytes) ← readLsbtohU16 bytes
      let h ← h.setStartingSequenceControl profile seqControl 0
      h.deserializeBitmap profile bytes 0
  | .multiSta => h.deserializeInfos profile bytes.length 0 bytes
  | .multiTid => none

/-! ## A compressed Block Ack -/

/-- The bit of an MPDU in a bitmap. -/
def bitmapBit (bitmap : List Byte) (place : Nat) : Bool :=
  (bitmap.getD (place / 8) 0).getLsbD (place % 8)

/-- A compressed Block Ack with a bitmap of 8 or 32 bytes. -/
structure Compressed (h : CtrlBAckResponseHeader) (len : Nat) (i : BaInfoInstance) : Prop where
  type : h.baType = ⟨.compressed, [len]⟩
  only : h.baInfo = [i]
  bitmap : i.bitmap.length = len
  length : len = 8 ∨ len = 32

variable {profile} {h : CtrlBAckResponseHeader} {len place : Nat} {i : BaInfoInstance} {q : Nat}

theorem Compressed.info (c : Compressed h len i) : h.info profile 0 = some i := by
  simp [CtrlBAckResponseHeader.info, c.type, c.only]

theorem mask_bit (j k : Fin 8) : ((1 : Byte) <<< j.val).getLsbD k = (k == j) := by
  have power : (1 : Byte) <<< j.val = BitVec.twoPow 8 j := rfl
  have same : (k == j) = decide (j.val = k.val) := by
    rw [Bool.eq_iff_iff, beq_iff_eq, decide_eq_true_iff, Fin.ext_iff, eq_comm]
  simp only [power, BitVec.getLsbD_twoPow, j.isLt, decide_true, Bool.true_and, same]

theorem mask_set (b : Byte) (j k : Fin 8) :
    (b ||| ((1 : Byte) <<< j.val)).getLsbD k = (k == j || b.getLsbD k) := by
  rw [BitVec.getLsbD_or, mask_bit, Bool.or_comm]

theorem mask_test (b : Byte) (k : Fin 8) : (b &&& ((1 : Byte) <<< k.val) != 0) = b.getLsbD k := by
  have power : (1 : Byte) <<< k.val = BitVec.twoPow 8 k := rfl
  rw [power, BitVec.and_twoPow]
  cases b.getLsbD k
  · rfl
  · have bit := mask_bit k k
    rw [power, beq_self_eq_true] at bit
    rw [if_pos rfl, bne_iff_ne]
    intro zero
    have unset : (0 : Byte).getLsbD k = false := BitVec.getLsbD_zero
    rw [zero, unset] at bit
    exact Bool.noConfusion bit

theorem setBit_spec {bitmap : List Byte} (inside : place < bitmap.length * 8) :
    ∃ b, setBit bitmap (place / 8) ((1 : Byte) <<< (place % 8)) = some b ∧
      b.length = bitmap.length ∧ ∀ p, bitmapBit b p = (p == place || bitmapBit bitmap p) := by
  have bound : place / 8 < bitmap.length := by omega
  have found : bitmap[place / 8]? = some bitmap[place / 8] := getElem?_eq_getElem bound
  refine ⟨bitmap.set (place / 8) (bitmap[place / 8] ||| (1 : Byte) <<< (place % 8)), ?_,
    length_set, fun p => ?_⟩
  · simp [setBit, found]
  · have set := mask_set bitmap[place / 8] ⟨place % 8, Nat.mod_lt _ (by decide)⟩
      ⟨p % 8, Nat.mod_lt _ (by decide)⟩
    simp only [bitmapBit, getD_eq_getElem?_getD, getElem?_set]
    by_cases sameByte : place / 8 = p / 8
    · rw [if_pos sameByte, if_pos bound, getD_some, set, ← sameByte, found, getD_some]
      have same : (p == place) = ((⟨p % 8, Nat.mod_lt _ (by decide)⟩ : Fin 8) ==
          ⟨place % 8, Nat.mod_lt _ (by decide)⟩) := by
        rw [Bool.eq_iff_iff, beq_iff_eq, beq_iff_eq, Fin.mk.injEq]
        omega
      rw [same]
    · have other : (p == place) = false := by
        rw [beq_eq_false_iff_ne]
        rintro rfl
        exact sameByte rfl
      rw [if_neg sameByte, other, Bool.false_or]

section

variable (c : Compressed h len i)
include c

theorem Compressed.isInBitmap (start : i.startingSeq.toNat < 4096)
    (hq : q < 4096) : h.isInBitmap profile (BitVec.ofNat 16 q) 0 =
      some (decide (distance q i.startingSeq.toNat < len * 8)) := by
  have value : (BitVec.ofNat 16 q).toNat = q := by
    rw [BitVec.toNat_ofNat]
    omega
  simp only [CtrlBAckResponseHeader.isInBitmap, c.info, nAckedMpdus, c.type, value,
    seqnoOffset_eq start, some_bind, pure_some]
  simp

theorem Compressed.indexInBitmap (start : i.startingSeq.toNat < 4096)
    (hq : q < 4096) (inside : distance q i.startingSeq.toNat < len * 8) :
    h.indexInBitmap profile (BitVec.ofNat 16 q) 0 = some (distance q i.startingSeq.toNat) := by
  have value : (BitVec.ofNat 16 q).toNat = q := by
    rw [BitVec.toNat_ofNat]
    omega
  have place : (if i.startingSeq ≤ BitVec.ofNat 16 q then BitVec.ofNat 16 q - i.startingSeq
      else BitVec.ofNat 16 seqnoSpaceSize - i.startingSeq + BitVec.ofNat 16 q).toNat =
      distance q i.startingSeq.toNat := by
    unfold distance seqnoSpaceSize
    split
    case isTrue above =>
      rw [BitVec.le_def, value] at above
      rw [BitVec.toNat_sub, value]
      omega
    case isFalse below =>
      rw [BitVec.le_def, value] at below
      rw [BitVec.toNat_add, BitVec.toNat_sub, value, BitVec.toNat_ofNat]
      omega
  simp only [CtrlBAckResponseHeader.indexInBitmap, c.info, nAckedMpdus, c.type, some_bind,
    pure_some, place, getElem?_cons_zero]
  simp [inside]

theorem Compressed.setReceivedPacket (profile : BuildProfile)
    (start : i.startingSeq.toNat < 4096) (hq : q < 4096)
    (inside : distance q i.startingSeq.toNat < len * 8) :
    ∃ g j, h.setReceivedPacket profile (BitVec.ofNat 16 q) 0 = some g ∧ Compressed g len j ∧
      j.startingSeq = i.startingSeq ∧
      ∀ p, bitmapBit j.bitmap p =
        (p == distance q i.startingSeq.toNat || bitmapBit i.bitmap p) := by
  have room : distance q i.startingSeq.toNat < i.bitmap.length * 8 := by
    rw [c.bitmap]
    exact inside
  obtain ⟨b, set, length, bits⟩ := setBit_spec room
  refine ⟨h.setInfo 0 { i with bitmap := b }, { i with bitmap := b }, ?_,
    ⟨c.type, ?_, ?_, c.length⟩,
    rfl, bits⟩
  · simp only [CtrlBAckResponseHeader.setReceivedPacket, c.info, c.isInBitmap start hq, inside,
      c.indexInBitmap start hq inside, set, c.type, some_bind, pure_some]
    simp
  · simp [setInfo, c.only]
  · exact length.trans c.bitmap

theorem Compressed.isPacketReceived (start : i.startingSeq.toNat < 4096)
    (hq : q < 4096) : h.isPacketReceived profile (BitVec.ofNat 16 q) 0 =
      some (decide (distance q i.startingSeq.toNat < len * 8) &&
        bitmapBit i.bitmap (distance q i.startingSeq.toNat)) := by
  simp only [CtrlBAckResponseHeader.isPacketReceived, c.info, c.isInBitmap start hq, c.type,
    bind_eq_bind, bind_some, reduceCtorEq, false_and, if_false]
  by_cases inside : distance q i.startingSeq.toNat < len * 8
  · have bound : distance q i.startingSeq.toNat / 8 < i.bitmap.length := by
      rw [c.bitmap]
      omega
    have found := getElem?_eq_getElem bound
    have test := mask_test i.bitmap[distance q i.startingSeq.toNat / 8]
      ⟨distance q i.startingSeq.toNat % 8, Nat.mod_lt _ (by decide)⟩
    simp only [c.indexInBitmap start hq inside, inside, decide_true, Bool.not_true,
      Bool.false_eq_true, if_false, bind_some, found, Option.pure_def, Bool.true_and,
      bitmapBit, getD_eq_getElem?_getD, getD_some, test]
  · simp [inside]

end

/-- The starting sequence control of a compressed Block Ack with `len` bytes of bitmap. -/
def compressedControl (s : BitVec 16) (len : Nat) : BitVec 16 :=
  if len = 32 then (s <<< 4) &&& 0xfff0 ||| 0x0004 else (s <<< 4) &&& 0xfff0

theorem bitmapLength_control (s : BitVec 16) (len : Nat) :
    bitmapLength (compressedControl s len) = some (if len = 32 then 2 else 0) := by
  have even : compressedControl s len &&& 0x0001 = 0 := by
    unfold compressedControl
    split <;> (ext i hi; interval_cases i <;> simp)
  have reserved : (compressedControl s len >>> 3) &&& 0x0001 = 0 := by
    unfold compressedControl
    split <;> (ext i hi; interval_cases i <;> simp)
  have subfield : (compressedControl s len >>> 1) &&& 0x0003 = if len = 32 then 2 else 0 := by
    unfold compressedControl
    split <;> (ext i hi; interval_cases i <;> simp)
  rw [bitmapLength, even, reserved, subfield]
  simp

theorem startingSeq_control {s : BitVec 16} (start : s.toNat < 4096) (len : Nat) :
    (compressedControl s len >>> 4) &&& 0x0fff = s := by
  have high (k : Nat) (hk : 12 ≤ k) : s.getLsbD k = false :=
    Nat.testBit_lt_two_pow (start.trans_le (Nat.pow_le_pow_right Nat.zero_lt_two hk))
  unfold compressedControl
  split <;>
    (ext i hi
     have above := high i
     interval_cases i <;> simp_all [BitVec.getLsbD_eq_getElem])

theorem setBaControl_compressed (type : h.baType.variant = .compressed)
    (into : CtrlBAckResponseHeader) :
    ∃ g, into.setBaControl h.getBaControl = some g ∧ g.baType = .of .compressed ∧
      g.baInfo.length = 1 := by
  have kind : (h.getBaControl >>> 1) &&& 0x0f = 0x02 := by
    simp only [getBaControl, type]
    cases h.baAckPolicy <;> (ext i hi; interval_cases i <;> simp)
  simp only [setBaControl, kind, bind_eq_bind]
  simp [setType, BlockAckType.of]

theorem Compressed.getStartingSequenceControl (c : Compressed h len i) :
    h.getStartingSequenceControl profile 0 = some (compressedControl i.startingSeq len) := by
  simp [CtrlBAckResponseHeader.getStartingSequenceControl, c.info, c.type, compressedControl]

theorem setStartingSequenceControl_compressed (profile : BuildProfile) {g : CtrlBAckResponseHeader}
    (type : g.baType.variant = .compressed) (one : g.baInfo.length = 1)
    (length : len = 8 ∨ len = 32)
    {s : BitVec 16} (start : s.toNat < 4096) :
    ∃ k, g.setStartingSequenceControl profile (compressedControl s len) 0 = some k ∧
      Compressed k len { startingSeq := s, bitmap := List.replicate len 0 } := by
  obtain ⟨j, only⟩ := length_eq_one_iff.mp one
  have found : g.info profile 0 = some j := by simp [CtrlBAckResponseHeader.info, only]
  refine ⟨(g.setType ⟨.compressed, [len]⟩).setInfo 0
    { startingSeq := s, bitmap := List.replicate len 0 }, ?_, rfl, rfl, length_replicate,
      length⟩
  simp only [setStartingSequenceControl, found, type, bitmapLength_control,
    startingSeq_control start, some_bind, pure_some, if_true]
  obtain rfl | rfl := length
  · simp [setType]
  · simp [setType]

theorem Compressed.deserializeBitmap (c : Compressed h len i) {bytes : List Byte}
    (whole : bytes.length = len) :
    h.deserializeBitmap profile bytes 0 = some (h.setInfo 0 { i with bitmap := bytes }, []) := by
  have enough : ¬ (h.baType.variant = .multiTid ∨ bytes.length < len ∨ i.bitmap.length < len) := by
    simp [c.type, c.bitmap, whole]
  have all : bytes.take len ++ i.bitmap.drop len = bytes := by
    rw [take_of_length_le whole.le, drop_eq_nil_of_le c.bitmap.le, append_nil]
  have length : h.baType.bitmapLen[0]? = some len := by rw [c.type]; rfl
  simp [CtrlBAckResponseHeader.deserializeBitmap, c.info, length, if_neg enough, all,
    drop_eq_nil_of_le whole.le]

theorem Compressed.setInfo (c : Compressed h len i) {j : BaInfoInstance}
    (length : j.bitmap.length = len) : Compressed (h.setInfo 0 j) len j :=
  ⟨c.type, by simp [CtrlBAckResponseHeader.setInfo, c.only], length, c.length⟩

/-- A compressed Block Ack keeps its starting sequence number and its bitmap on the wire. -/
theorem Compressed.roundTrip (c : Compressed h len i) (profile : BuildProfile)
    (start : i.startingSeq.toNat < 4096) (into : CtrlBAckResponseHeader) :
    ∃ bytes g j, h.serialize profile = some bytes ∧ into.deserialize profile bytes = some (g, []) ∧
      Compressed g len j ∧ j.startingSeq = i.startingSeq ∧ j.bitmap = i.bitmap := by
  have variant : h.baType.variant = .compressed := by rw [c.type]
  have written : h.serializeBitmap profile 0 = some i.bitmap := by
    simp [serializeBitmap, c.info, variant]
  obtain ⟨g, control, type, one⟩ := setBaControl_compressed variant into
  have kind : g.baType.variant = .compressed := by rw [type]; rfl
  obtain ⟨k, read, compressed⟩ :=
    setStartingSequenceControl_compressed profile kind one c.length start
  refine ⟨writeHtolsbU16 h.getBaControl ++ writeHtolsbU16 (compressedControl i.startingSeq len) ++
    i.bitmap, k.setInfo 0 { startingSeq := i.startingSeq, bitmap := i.bitmap },
    { startingSeq := i.startingSeq, bitmap := i.bitmap }, ?_, ?_, compressed.setInfo c.bitmap, rfl,
    rfl⟩
  · simp [serialize, variant, c.getStartingSequenceControl, written]
  · simp [deserialize, control, kind, read, compressed.deserializeBitmap c.bitmap]

end CtrlBAckResponseHeader

end Ns3
