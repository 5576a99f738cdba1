import Ns3.Library.PaddedJoin
import Ns3.Library.Run
import Ns3.Network.Buffer.Iterator
import Ns3.Wifi.MacRxMiddle.Basic

/-!
# A-MSDU aggregation

`WifiMpdu::Aggregate` turns an MPDU into an A-MSDU and adds the payload of another MPDU to it.
Each payload follows an A-MSDU subframe header. A subframe that another one follows is padded to
a multiple of four bytes. `MsduAggregator::Deaggregate` takes the payloads out again.

What is modelled of `WifiMacHeader` is what aggregation reads and writes.
-/

namespace Ns3.MsduAggregator

/-- `WifiMacHeader`. -/
structure MacHeader where
  qosData : Bool
  amsduPresent : Bool
  toDs : Bool
  fromDs : Bool
  addr1 : Mac48Address
  addr2 : Mac48Address
  addr3 : Mac48Address
  addr4 : Mac48Address
  deriving DecidableEq

/-! ## The subframe header -/

/-- `AmsduSubframeHeader`. -/
structure AmsduSubframeHeader where
  da : Mac48Address
  sa : Mac48Address
  length : BitVec 16
  deriving DecidableEq

open Buffer.Iterator

/-- `WriteTo` for a `Mac48Address`. -/
def writeTo (ad : Mac48Address) : List Byte :=
  writeHtonU16 (ad.extractLsb' 32 16) ++ writeHtonU32 (ad.extractLsb' 0 32)

/-- `ReadFrom` for a `Mac48Address`. -/
def readFrom : Reading Mac48Address := do
  return (← readNtohU16) ++ (← readNtohU32)

namespace AmsduSubframeHeader

/-- `GetSerializedSize`. -/
def serializedSize : Nat := 6 + 6 + 2

/-- `Serialize`. -/
def serialize (hdr : AmsduSubframeHeader) : List Byte :=
  writeTo hdr.da ++ writeTo hdr.sa ++ writeHtonU16 hdr.length

/-- `Deserialize`. -/
def deserialize : Reading AmsduSubframeHeader := do
  let da ← readFrom
  let sa ← readFrom
  return { da, sa, length := ← readNtohU16 }

end AmsduSubframeHeader

/-! ## Sizes -/

/-- `CalculatePadding`. -/
def calculatePadding (amsduSize : Nat) : Nat := (4 - (amsduSize % 2 ^ 16) % 4) % 4

/-- `GetSizeIfAggregated`. -/
def getSizeIfAggregated (msduSize amsduSize : Nat) : Nat :=
  (amsduSize % 2 ^ 16 + calculatePadding amsduSize + 14 + msduSize % 2 ^ 16) % 2 ^ 16

/-! ## Deaggregation -/

/-- `WifiMpdu::DeaggregatedMsdus`. -/
abbrev DeaggregatedMsdus := List (Packet × AmsduSubframeHeader)

section

variable (profile : BuildProfile)

/-- The rounds of the loop of `Deaggregate`, with at most as many as there are bytes. -/
def deaggregateLoop (maxSize : Nat) : Nat → Packet → Nat → Option DeaggregatedMsdus
  | 0, _, deserialized => if deserialized < maxSize then none else some []
  | rounds + 1, aggregatedPacket, deserialized =>
    if deserialized < maxSize then do
      let (hdr, aggregatedPacket) ← AmsduSubframeHeader.deserialize aggregatedPacket
      let deserialized := UInt32.add deserialized AmsduSubframeHeader.serializedSize
      let extractedLength := hdr.length.toNat
      let extractedMsdu ← Packet.createFragment profile aggregatedPacket 0 extractedLength
      let aggregatedPacket := Packet.removeAtStart aggregatedPacket extractedLength
      let deserialized := UInt32.add deserialized extractedLength
      let padding := (4 - (extractedLength + 14) % 4) % 4
      let (aggregatedPacket, deserialized) := if 0 < padding ∧ deserialized < maxSize then
          (Packet.removeAtStart aggregatedPacket padding, UInt32.add deserialized padding)
        else (aggregatedPacket, deserialized)
      let set ← deaggregateLoop maxSize rounds aggregatedPacket deserialized
      return (extractedMsdu, hdr) :: set
    else some []

/-- `Deaggregate`. -/
def deaggregate (aggregatedPacket : Packet) : Option DeaggregatedMsdus :=
  deaggregateLoop profile aggregatedPacket.length aggregatedPacket.length aggregatedPacket 0

end

/-! ## Aggregation -/

/-- `WifiMpdu`: an original one, or an alias, whose packet is that of its original. -/
structure Mpdu where
  header : MacHeader
  packet : Packet
  msduList : DeaggregatedMsdus := []
  isOriginal : Bool := true
  deriving DecidableEq

namespace Mpdu

/-- The constructor. -/
def create (profile : BuildProfile) (p : Packet) (header : MacHeader) : Option Mpdu :=
  if header.qosData && header.amsduPresent then
    (deaggregate profile p).map fun msduList => { header, packet := p, msduList }
  else some { header, packet := p }

/-- The destination address of the subframe of an MPDU. -/
def destination (msdu : Mpdu) : Mac48Address :=
  if msdu.header.toDs then msdu.header.addr3 else msdu.header.addr1

/-- The source address of the subframe of an MPDU. -/
def source (msdu : Mpdu) : Mac48Address :=
  if !msdu.header.fromDs then msdu.header.addr2
  else if !msdu.header.toDs then msdu.header.addr3 else msdu.header.addr4

/-- `DoAggregate`. -/
def doAggregate (amsdu msdu : Mpdu) : Mpdu :=
  let hdr : AmsduSubframeHeader := {
    da := msdu.destination, sa := msdu.source, length := BitVec.ofNat 16 msdu.packet.length }
  let packet := if 0 < amsdu.packet.length ∧ calculatePadding amsdu.packet.length ≠ 0 then
      amsdu.packet.addAtEnd (List.replicate (calculatePadding amsdu.packet.length) 0)
    else amsdu.packet
  { amsdu with
    msduList := amsdu.msduList ++ [(msdu.packet, hdr)]
    packet := packet.addAtEnd (hdr.serialize ++ msdu.packet) }

/-- The header of an MPDU that becomes an A-MSDU. -/
def amsduHeader (header : MacHeader) : MacHeader :=
  let header := { header with amsduPresent := true }
  if header.toDs && !header.fromDs then { header with addr3 := header.addr1 }
  else if !header.toDs && header.fromDs then { header with addr3 := header.addr2 }
  else header

/-- `Aggregate`. -/
def aggregate (amsdu msdu : Mpdu) : Option Mpdu := do
  nsAbortIf (!msdu.header.qosData || msdu.header.amsduPresent)
  nsAbortIf (!amsdu.isOriginal)
  let amsdu := if amsdu.msduList = [] then
      let a := doAggregate { amsdu with packet := [] } amsdu
      { a with header := amsduHeader a.header }
    else amsdu
  return amsdu.doAggregate msdu

end Mpdu

end Ns3.MsduAggregator

/-!
## Deaggregation takes out what was aggregated

The packet of an A-MSDU is the subframes joined with padding between them. `DoAggregate` counts
the padding from the size of the packet so far, `Deaggregate` from the length of the subframe:
every subframe begins at a multiple of four bytes, so both find the same number.
-/

namespace Ns3.MsduAggregator

open Buffer.Iterator PaddedJoin

/-! ## Subframes -/

/-- A subframe: its header and its payload. -/
def subframe (msdu : Packet × AmsduSubframeHeader) : List Byte := msdu.2.serialize ++ msdu.1

/-- The packet of an A-MSDU with these subframes. -/
def amsduPacket (msdus : DeaggregatedMsdus) : Packet := joined 4 0 (msdus.map subframe)

@[simp] theorem length_writeTo (ad : Mac48Address) : (writeTo ad).length = 6 := rfl

@[simp] theorem length_serialize (hdr : AmsduSubframeHeader) : hdr.serialize.length = 14 := by
  simp [AmsduSubframeHeader.serialize]

@[simp] theorem length_subframe (msdu : Packet × AmsduSubframeHeader) :
    (subframe msdu).length = 14 + msdu.1.length := by
  rw [subframe, List.length_append, length_serialize]

theorem reading_bind {α β : Type} (r : Reading α) (f : α → Reading β) (i : List Byte) :
    (r >>= f) i = (r i).bind fun p => f p.1 p.2 := rfl

@[simp] theorem readFrom_writeTo (ad : Mac48Address) (i : List Byte) :
    readFrom (writeTo ad ++ i) = some (ad, i) := by
  have whole := append_extractLsb' (m := 16) (n := 32) ad
  rw [readFrom, writeTo, List.append_assoc, reading_bind, readNtohU16_write, Option.bind_some,
    reading_bind, readNtohU32_write]
  exact congrArg (fun value => some (value, i)) whole

theorem deserialize_serialize (hdr : AmsduSubframeHeader) (i : List Byte) :
    AmsduSubframeHeader.deserialize (hdr.serialize ++ i) = some (hdr, i) := by
  rw [AmsduSubframeHeader.deserialize, AmsduSubframeHeader.serialize, List.append_assoc,
    List.append_assoc, reading_bind, readFrom_writeTo, Option.bind_some, reading_bind,
    readFrom_writeTo, Option.bind_some, reading_bind, readNtohU16_write]
  rfl

/-! ## Deaggregation -/

section

variable {profile : BuildProfile} {maxSize rounds deserialized : Nat}
  {msdu : Packet × AmsduSubframeHeader} {rest : DeaggregatedMsdus}

/-- What follows the payload of a subframe. -/
def afterPayload (msdu : Packet × AmsduSubframeHeader) : DeaggregatedMsdus → Packet
  | [] => []
  | next :: rest =>
    List.replicate (padding 4 (subframe msdu).length) 0 ++ amsduPacket (next :: rest)

theorem amsduPacket_cons (msdu : Packet × AmsduSubframeHeader) (rest : DeaggregatedMsdus) :
    amsduPacket (msdu :: rest) = msdu.2.serialize ++ (msdu.1 ++ afterPayload msdu rest) := by
  cases rest with
  | nil => simp [amsduPacket, afterPayload, subframe]
  | cons next rest => simp [amsduPacket, afterPayload, subframe, joined_cons_cons]

/-- The length field of a subframe says how long its payload is. -/
def LengthSet (msdu : Packet × AmsduSubframeHeader) : Prop := msdu.2.length.toNat = msdu.1.length

/-- The padding after a subframe is skipped, and there is none after the last one. -/
theorem LengthSet.skipPadding (set : LengthSet msdu)
    (size : deserialized + (msdu.2.serialize ++ (msdu.1 ++ afterPayload msdu rest)).length =
      maxSize)
    (small : maxSize < 2 ^ 32) :
    (if 0 < (4 - (msdu.2.length.toNat + 14) % 4) % 4 ∧
        maxSize - (afterPayload msdu rest).length < maxSize then
      (Packet.removeAtStart (afterPayload msdu rest) ((4 - (msdu.2.length.toNat + 14) % 4) % 4),
        UInt32.add (maxSize - (afterPayload msdu rest).length)
          ((4 - (msdu.2.length.toNat + 14) % 4) % 4))
    else (afterPayload msdu rest, maxSize - (afterPayload msdu rest).length)) =
      (amsduPacket rest, maxSize - (amsduPacket rest).length) := by
  cases rest with
  | nil =>
    have none_ : amsduPacket [] = [] := rfl
    simp [afterPayload, none_]
  | cons next rest =>
    have same : (4 - (msdu.2.length.toNat + 14) % 4) % 4 = padding 4 (subframe msdu).length := by
      rw [set, length_subframe, padding, Nat.add_comm]
    simp only [List.length_append, afterPayload, List.length_replicate, length_serialize] at size
    simp only [same, afterPayload, List.length_append, List.length_replicate]
    generalize padding 4 (subframe msdu).length = gap at *
    split
    case isTrue padded =>
      rw [Packet.removeAtStart, UInt32.add_of_lt (by omega),
        List.drop_left' (List.length_replicate)]
      congr 1
      omega
    case isFalse aligned =>
      have zero : gap = 0 := by omega
      rw [zero, List.replicate_zero, List.nil_append, Nat.zero_add]

/-- One round takes out the first subframe and the padding after it. -/
theorem deaggregateLoop_cons (set : LengthSet msdu)
    (size : deserialized + (amsduPacket (msdu :: rest)).length = maxSize)
    (small : maxSize < 2 ^ 32) :
    deaggregateLoop profile maxSize (rounds + 1) (amsduPacket (msdu :: rest)) deserialized =
      (deaggregateLoop profile maxSize rounds (amsduPacket rest)
        (maxSize - (amsduPacket rest).length)).map (msdu :: ·) := by
  rw [amsduPacket_cons] at size ⊢
  have goes : deserialized < maxSize := by
    simp only [List.length_append, length_serialize] at size
    omega
  have fragment : Packet.createFragment profile (msdu.1 ++ afterPayload msdu rest) 0
      msdu.2.length.toNat = some msdu.1 := by
    simp only [List.length_append] at size
    rw [set, Packet.createFragment_of_le, List.drop_zero, List.take_left]
    · simp only [List.length_append]
      omega
    · simp only [List.length_append]
      omega
  have removed : Packet.removeAtStart (msdu.1 ++ afterPayload msdu rest) msdu.2.length.toNat =
      afterPayload msdu rest := by
    rw [set, Packet.removeAtStart, List.drop_left]
  have counted : UInt32.add (UInt32.add deserialized AmsduSubframeHeader.serializedSize)
      msdu.2.length.toNat = maxSize - (afterPayload msdu rest).length := by
    simp only [List.length_append, length_serialize] at size
    rw [set, AmsduSubframeHeader.serializedSize, UInt32.add, UInt32.add]
    omega
  simp only [deaggregateLoop, goes, if_true, deserialize_serialize, fragment, removed, counted,
    some_bind, pure_some, set.skipPadding size small]
  cases deaggregateLoop profile maxSize rounds (amsduPacket rest)
    (maxSize - (amsduPacket rest).length) <;> rfl

/-- The loop takes out all subframes. -/
theorem deaggregateLoop_spec {msdus : DeaggregatedMsdus} (set : ∀ msdu ∈ msdus, LengthSet msdu)
    (size : deserialized + (amsduPacket msdus).length = maxSize) (small : maxSize < 2 ^ 32)
    (enough : (amsduPacket msdus).length ≤ rounds) :
    deaggregateLoop profile maxSize rounds (amsduPacket msdus) deserialized = some msdus := by
  induction msdus generalizing rounds deserialized with
  | nil =>
    have ended : ¬ deserialized < maxSize := by
      simp only [amsduPacket, List.map_nil, joined_nil, List.length_nil] at size
      omega
    cases rounds with
    | zero => simp [deaggregateLoop, ended]
    | succ rounds => simp [deaggregateLoop, ended]
  | cons msdu rest ih =>
    have shorter : (amsduPacket rest).length + 14 ≤ (amsduPacket (msdu :: rest)).length := by
      rw [amsduPacket_cons]
      simp only [List.length_append, length_serialize]
      cases rest with
      | nil => simp [amsduPacket, afterPayload]
      | cons next rest =>
        simp only [afterPayload, List.length_append]
        omega
    cases rounds with
    | zero => omega
    | succ rounds =>
      rw [deaggregateLoop_cons (set msdu List.mem_cons_self) size small,
        ih (fun other mem => set other (List.mem_cons_of_mem _ mem)) (by omega) (by omega),
        Option.map_some]

theorem deaggregate_amsduPacket {msdus : DeaggregatedMsdus} (set : ∀ msdu ∈ msdus, LengthSet msdu)
    (small : (amsduPacket msdus).length < 2 ^ 32) :
    deaggregate profile (amsduPacket msdus) = some msdus :=
  deaggregateLoop_spec set (Nat.zero_add _) small le_rfl

end

/-! ## Aggregation -/

/-- The destination and the source address of Table 9-26. -/
def tableAddresses (header : MacHeader) : Mac48Address × Mac48Address :=
  match header.toDs, header.fromDs with
  | false, false => (header.addr1, header.addr2)
  | false, true => (header.addr1, header.addr3)
  | true, false => (header.addr3, header.addr2)
  | true, true => (header.addr3, header.addr4)

/-- The MSDU of an MPDU: its payload, with its length and the addresses of the table. -/
def msduOf (msdu : Mpdu) : Packet × AmsduSubframeHeader :=
  (msdu.packet, {
    da := (tableAddresses msdu.header).1
    sa := (tableAddresses msdu.header).2
    length := BitVec.ofNat 16 msdu.packet.length })

/-- The size of an A-MSDU with payloads of these lengths. -/
def amsduSize (lengths : List Nat) : Nat :=
  lengths.foldl (fun size length => size + (4 - size % 4) % 4 + 14 + length) 0

/-- An A-MSDU in which these MPDUs have been aggregated. -/
structure Aggregated (amsdu : Mpdu) (msdus : List Mpdu) : Prop where
  msduList : amsdu.msduList = msdus.map msduOf
  packet : amsdu.packet = amsduPacket (msdus.map msduOf)
  isOriginal : amsdu.isOriginal = true

/-- An MPDU that may be aggregated. -/
def Aggregable (msdu : Mpdu) : Prop :=
  msdu.header.qosData = true ∧ msdu.header.amsduPresent = false

section

variable {amsdu msdu : Mpdu} {msdus : List Mpdu}

theorem calculatePadding_eq (size : Nat) : calculatePadding size = padding 4 size := by
  rw [calculatePadding, padding]
  omega

theorem tableAddresses_eq (msdu : Mpdu) :
    tableAddresses msdu.header = (msdu.destination, msdu.source) := by
  rw [tableAddresses, Mpdu.destination, Mpdu.source]
  cases msdu.header.toDs <;> cases msdu.header.fromDs <;> rfl

theorem doAggregate_msduList (amsdu msdu : Mpdu) :
    (amsdu.doAggregate msdu).msduList = amsdu.msduList ++ [msduOf msdu] := by
  rw [msduOf, tableAddresses_eq, Mpdu.doAggregate]

theorem doAggregate_packet (amsdu msdu : Mpdu) :
    (amsdu.doAggregate msdu).packet = amsdu.packet ++
      List.replicate (padding 4 amsdu.packet.length) 0 ++ subframe (msduOf msdu) := by
  simp only [Mpdu.doAggregate, calculatePadding_eq, Packet.addAtEnd, subframe, msduOf,
    tableAddresses_eq]
  split
  case isTrue => rfl
  case isFalse aligned =>
    have zero : padding 4 amsdu.packet.length = 0 := by
      rw [padding] at aligned ⊢
      omega
    rw [zero, List.replicate_zero, List.append_nil]

theorem Aggregated.doAggregate (h : Aggregated amsdu msdus) (msdu : Mpdu) :
    Aggregated (amsdu.doAggregate msdu) (msdus ++ [msdu]) where
  msduList := by
    rw [doAggregate_msduList, h.msduList, List.map_append, List.map_singleton]
  packet := by
    rw [doAggregate_packet, h.packet, amsduPacket, List.map_append, List.map_singleton, amsduPacket,
      List.map_append, List.map_singleton, joined_concat (by decide)]
  isOriginal := h.isOriginal

theorem aggregate_first (plain : Aggregable msdu) (empty : amsdu.msduList = [])
    (original : amsdu.isOriginal = true) :
    ∃ a, amsdu.aggregate msdu = some a ∧ Aggregated a [amsdu, msdu] := by
  have start : Aggregated { amsdu with packet := [] } [] := ⟨empty, rfl, original⟩
  have first := start.doAggregate amsdu
  have headed : Aggregated { Mpdu.doAggregate { amsdu with packet := [] } amsdu with
      header := Mpdu.amsduHeader (Mpdu.doAggregate { amsdu with packet := [] } amsdu).header }
      [amsdu] := ⟨first.msduList, first.packet, first.isOriginal⟩
  refine ⟨_, ?_, headed.doAggregate msdu⟩
  simp [Mpdu.aggregate, plain.1, plain.2, original, empty, nsAbortIf]

theorem Aggregated.aggregate (h : Aggregated amsdu msdus) (nonempty : msdus ≠ [])
    (plain : Aggregable msdu) :
    ∃ a, amsdu.aggregate msdu = some a ∧ Aggregated a (msdus ++ [msdu]) := by
  have filled : ¬ amsdu.msduList = [] := by
    rw [h.msduList, List.map_eq_nil_iff]
    exact nonempty
  refine ⟨_, ?_, h.doAggregate msdu⟩
  simp [Mpdu.aggregate, plain.1, plain.2, h.isOriginal, filled, nsAbortIf]

theorem Aggregated.run (h : Aggregated amsdu msdus) (nonempty : msdus ≠ []) {later : List Mpdu}
    (plain : ∀ msdu ∈ later, Aggregable msdu) :
    ∃ a, Run.exec Mpdu.aggregate amsdu later = some a ∧ Aggregated a (msdus ++ later) := by
  induction later generalizing amsdu msdus with
  | nil => exact ⟨amsdu, rfl, by rw [List.append_nil]; exact h⟩
  | cons msdu later ih =>
    obtain ⟨b, here, aggregated⟩ := h.aggregate nonempty (plain msdu List.mem_cons_self)
    obtain ⟨a, rest, all⟩ := ih aggregated (List.append_ne_nil_of_left_ne_nil nonempty _)
      fun other mem => plain other (List.mem_cons_of_mem _ mem)
    refine ⟨a, Run.exec_cons_eq_some.mpr ⟨b, here, rest⟩, ?_⟩
    rw [List.append_assoc] at all
    exact all

/-! ## Sizes -/

theorem amsduSize_concat (lengths : List Nat) (length : Nat) :
    amsduSize (lengths ++ [length]) =
      amsduSize lengths + (4 - amsduSize lengths % 4) % 4 + 14 + length := by
  rw [amsduSize, List.foldl_concat]
  rfl

theorem length_amsduPacket (msdus : DeaggregatedMsdus) :
    (amsduPacket msdus).length = amsduSize (msdus.map fun msdu => msdu.1.length) := by
  induction msdus using List.reverseRecOn with
  | nil => rfl
  | append_singleton msdus msdu ih =>
    rw [amsduPacket, List.map_append, List.map_singleton, joined_concat (by decide),
      ← amsduPacket, List.map_append, List.map_singleton, amsduSize_concat, ← ih]
    simp only [List.length_append, List.length_replicate, length_subframe, padding]
    omega

theorem getSizeIfAggregated_foldl {lengths : List Nat} (small : amsduSize lengths < 2 ^ 16) :
    lengths.foldl (fun size length => getSizeIfAggregated length size) 0 = amsduSize lengths := by
  induction lengths using List.reverseRecOn with
  | nil => rfl
  | append_singleton lengths length ih =>
    rw [amsduSize_concat] at small
    rw [List.foldl_concat, ih (by omega), amsduSize_concat, getSizeIfAggregated, calculatePadding]
    omega

theorem length_le_amsduSize {lengths : List Nat} {length : Nat} (mem : length ∈ lengths) :
    length ≤ amsduSize lengths := by
  induction lengths using List.reverseRecOn with
  | nil => cases mem
  | append_singleton lengths last ih =>
    rw [amsduSize_concat]
    obtain before | here := List.mem_append.mp mem
    · have bound := ih before
      omega
    · rw [List.mem_singleton.mp here]
      omega

/-- What has been aggregated is taken out again, with the lengths and the addresses. -/
theorem deaggregate_aggregate (profile : BuildProfile) (p : Packet) (header : MacHeader)
    (single : (header.qosData && header.amsduPresent) = false) {msdus : List Mpdu}
    (nonempty : msdus ≠ []) (plain : ∀ msdu ∈ msdus, Aggregable msdu)
    (small : amsduSize (p.length :: msdus.map fun msdu => msdu.packet.length) < 65536) :
    ∃ first amsdu, Mpdu.create profile p header = some first ∧ first.packet = p ∧
      first.header = header ∧ Run.exec Mpdu.aggregate first msdus = some amsdu ∧
      deaggregate profile amsdu.packet = some amsdu.msduList ∧
      amsdu.msduList = (first :: msdus).map msduOf ∧
      (∀ msdu ∈ amsdu.msduList, LengthSet msdu) ∧
      amsdu.packet.length = (p.length :: msdus.map fun msdu => msdu.packet.length).foldl
        (fun size length => getSizeIfAggregated length size) 0 := by
  cases msdus with
  | nil => exact absurd rfl nonempty
  | cons second later =>
    obtain ⟨a, started, first⟩ := @aggregate_first { header, packet := p } second
      (plain second List.mem_cons_self) rfl rfl
    obtain ⟨amsdu, run, all⟩ := first.run (List.cons_ne_nil _ _)
      fun msdu mem => plain msdu (List.mem_cons_of_mem _ mem)
    have lengths : (([{ header, packet := p }, second] ++ later).map msduOf).map
        (fun msdu => msdu.1.length) =
        p.length :: (second :: later).map fun msdu => msdu.packet.length := by
      rw [List.map_map]
      rfl
    have set : ∀ msdu ∈ ([{ header, packet := p }, second] ++ later).map msduOf,
        LengthSet msdu := by
      intro msdu mem
      have bound := length_le_amsduSize (List.mem_map_of_mem (f := fun m => m.1.length) mem)
      rw [lengths] at bound
      obtain ⟨m, -, rfl⟩ := List.mem_map.mp mem
      have fits : m.packet.length < 65536 := bound.trans_lt small
      rw [LengthSet, msduOf, BitVec.toNat_ofNat]
      exact Nat.mod_eq_of_lt fits
    have size := length_amsduPacket (([{ header, packet := p }, second] ++ later).map msduOf)
    rw [lengths] at size
    refine ⟨{ header, packet := p }, amsdu, ?_, rfl, rfl,
      Run.exec_cons_eq_some.mpr ⟨a, started, run⟩, ?_, all.msduList, ?_, ?_⟩
    · rw [Mpdu.create, single]
      rfl
    · rw [all.packet, all.msduList]
      exact deaggregate_amsduPacket set (by omega)
    · rw [all.msduList]
      exact set
    · rw [all.packet, size, getSizeIfAggregated_foldl small]

/-- An empty payload between two others, with an address of each row but the first. -/
theorem deaggregate_aggregate_three :
    ∃ first amsdu, Mpdu.create .debug [1, 2, 3] ⟨true, false, true, false, 1, 2, 3, 0⟩ =
      some first ∧
      first.packet = [1, 2, 3] ∧ first.header = ⟨true, false, true, false, 1, 2, 3, 0⟩ ∧
      Run.exec Mpdu.aggregate first
        [{ header := ⟨true, false, false, true, 1, 2, 3, 0⟩, packet := [] },
          { header := ⟨true, false, true, true, 1, 2, 3, 4⟩, packet := [7] }] = some amsdu ∧
      deaggregate .debug amsdu.packet = some amsdu.msduList ∧
      amsdu.msduList = (first ::
        [{ header := ⟨true, false, false, true, 1, 2, 3, 0⟩, packet := [] },
          { header := ⟨true, false, true, true, 1, 2, 3, 4⟩, packet := [7] }]).map msduOf ∧
      (∀ msdu ∈ amsdu.msduList, LengthSet msdu) ∧ amsdu.packet.length = 51 :=
  deaggregate_aggregate .debug [1, 2, 3] ⟨true, false, true, false, 1, 2, 3, 0⟩ rfl
    (List.cons_ne_nil _ _) (by simp [Aggregable]) (by decide)

end

end Ns3.MsduAggregator
