import Ns3.Lte.LteRlcAmHeader.Basic

/-!
# The header of a data PDU is read back

The flags, the sequence number and the two lists come back as they were written. The upper bits of
the segment offset are joined to the lower ones without being shifted, so the offset comes back
only if it has none.
-/

namespace Ns3.LteRlcAmHeader

open LteRlcHeader (marks liBytes)

/-! ## The loop over the length indicators -/

/-- The members that the loop over the length indicators changes. -/
def lists (h : LteRlcAmHeader) : LteRlcHeader where
  headerLength := h.headerLength
  extensionBits := h.extensionBits
  lengthIndicators := h.lengthIndicators

/-- The header with these members changed. -/
def withLists (h : LteRlcAmHeader) (g : LteRlcHeader) : LteRlcAmHeader :=
  { h with
    headerLength := g.headerLength
    extensionBits := g.extensionBits
    lengthIndicators := g.lengthIndicators }

/-- The loop is the one of `LteRlcHeader`. -/
theorem deserializeLi_eq : ∀ (bytes : List Nat) (h : LteRlcAmHeader), deserializeLi bytes h =
    (LteRlcHeader.deserializeLi bytes h.lists).map fun g => (h.withLists g.1, g.2)
  | [], _ => rfl
  | [_], _ => rfl
  | [byte_1, byte_2], h => by
      simp only [deserializeLi, LteRlcHeader.deserializeLi, eLiFieldsFollows,
        LteRlcHeader.eLiFieldsFollows]
      by_cases odd : (byte_1 &&& 0x80) >>> 7 = 1
      · simp [odd]
      · simp only [odd, if_false, Option.map_some]
        rfl
  | byte_1 :: byte_2 :: byte_3 :: rest, h => by
      simp only [deserializeLi, LteRlcHeader.deserializeLi, eLiFieldsFollows,
        LteRlcHeader.eLiFieldsFollows]
      by_cases odd : (byte_1 &&& 0x80) >>> 7 = 1
      · by_cases even : (byte_2 &&& 0x08) >>> 3 = 1
        · simp only [odd, even, if_true]
          exact deserializeLi_eq rest _
        · simp only [odd, even, if_true, if_false, Option.map_some]
          rfl
      · simp only [odd, if_false, Option.map_some]
        rfl

/-! ## The fixed part -/

/-- The first byte, with the upper bits `n` of the sequence number. -/
def firstByte (rf p fi e n : Nat) : Nat :=
  ((dataPdu <<< 7) &&& 0x80) ||| ((rf <<< 6) &&& 0x40) ||| ((p <<< 5) &&& 0x20) |||
    ((fi <<< 3) &&& 0x18) ||| ((e <<< 2) &&& 0x04) ||| (n &&& 0x03)

theorem firstByte_fields {rf p fi e n : Nat} (hr : rf < 2) (hp : p < 2) (hf : fi < 4) (he : e < 2)
    (hn : n < 4) :
    (firstByte rf p fi e n &&& 0x80) >>> 7 = dataPdu ∧
      (firstByte rf p fi e n &&& 0x40) >>> 6 = rf ∧
      (firstByte rf p fi e n &&& 0x20) >>> 5 = p ∧
      (firstByte rf p fi e n &&& 0x18) >>> 3 = fi ∧
      (firstByte rf p fi e n &&& 0x04) >>> 2 = e ∧ firstByte rf p fi e n &&& 0x03 = n := by
  have all : ∀ (rf p : Fin 2) (fi : Fin 4) (e : Fin 2) (n : Fin 4),
      (firstByte rf p fi e n &&& 0x80) >>> 7 = dataPdu ∧
        (firstByte rf p fi e n &&& 0x40) >>> 6 = rf ∧
        (firstByte rf p fi e n &&& 0x20) >>> 5 = p ∧
        (firstByte rf p fi e n &&& 0x18) >>> 3 = fi ∧
        (firstByte rf p fi e n &&& 0x04) >>> 2 = e ∧ firstByte rf p fi e n &&& 0x03 = n := by
    decide
  exact all ⟨rf, hr⟩ ⟨p, hp⟩ ⟨fi, hf⟩ ⟨e, he⟩ ⟨n, hn⟩

theorem number_joins (sn : Nat) (small : sn < 1024) :
    sn >>> 8 < 4 ∧ ((sn >>> 8) <<< 8) ||| (sn &&& 0xff) = sn := by
  constructor
  · rw [Nat.shiftRight_eq_div_pow]
    omega
  · exact Nat.and_two_pow_sub_one_eq_mod sn 8 ▸ BitField.high_or_low sn 8

theorem third_byte {lsf so : Nat} (hl : lsf < 2) (ho : so < 2 ^ 15) :
    let byte := ((lsf <<< 7) &&& 0x80) ||| ((so >>> 8) &&& 0x7f)
    (byte &&& 0x80) >>> 7 = lsf ∧ byte &&& 0x7f = so >>> 8 := by
  have all : ∀ lsf < 2, ∀ n < 128,
      ((((lsf <<< 7) &&& 0x80) ||| (n &&& 0x7f)) &&& 0x80) >>> 7 = lsf ∧
        (((lsf <<< 7) &&& 0x80) ||| (n &&& 0x7f)) &&& 0x7f = n := by decide
  exact all lsf hl _ (by rw [Nat.shiftRight_eq_div_pow]; omega)

/-- The offset as it is read. -/
def readOffset (so : Nat) : Nat := (so >>> 8) ||| (so &&& 0xff)

theorem readOffset_eq_iff {so : Nat} (ho : so < 2 ^ 15) : readOffset so = so ↔ so < 256 := by
  constructor
  · intro same
    have high : so >>> 8 < 2 ^ 8 := by omega
    have low : so &&& 0xff < 2 ^ 8 := Nat.and_lt_two_pow so (by decide)
    have joined := Nat.or_lt_two_pow high low
    rw [readOffset] at same
    omega
  · intro small
    rw [readOffset, Nat.shiftRight_eq_div_pow, Nat.div_eq_of_lt small, Nat.zero_or]
    exact (Nat.and_two_pow_sub_one_eq_mod so 8).trans (Nat.mod_eq_of_lt small)

/-! ## The round trip -/

/-- A header of a data PDU with length indicators `lis`, as its methods build it. -/
structure IsData (h : LteRlcAmHeader) (lis : List Nat) : Prop where
  data : h.dataControlBit = dataPdu
  reseg : h.resegmentationFlag < 2
  poll : h.pollingBit < 2
  framing : h.framingInfo < 4
  number : h.sequenceNumber.value < 1024
  last : h.lastSegmentFlag < 2
  offset : h.segmentOffset < 2 ^ 15
  bits : h.extensionBits = marks (0 :: lis)
  indicators : h.lengthIndicators = lis
  small : ∀ li ∈ lis, li < 2048
  length : h.headerLength = (4 + liBytes lis.length) % 65536

/-- The fields of a data PDU and the length of the header are the same. The base of the sequence
number and the last offset are not in the PDU. -/
structure SameData (h g : LteRlcAmHeader) : Prop where
  control : g.dataControlBit = h.dataControlBit
  reseg : g.resegmentationFlag = h.resegmentationFlag
  poll : g.pollingBit = h.pollingBit
  framing : g.framingInfo = h.framingInfo
  number : g.sequenceNumber.value = h.sequenceNumber.value
  last : g.lastSegmentFlag = h.lastSegmentFlag
  offset : g.segmentOffset = h.segmentOffset
  bits : g.extensionBits = h.extensionBits
  indicators : g.lengthIndicators = h.lengthIndicators
  length : g.headerLength = h.headerLength

/-- As many bytes are written as the size says, and whatever comes after them, the fields are read
back from them. -/
def RoundTrips (h : LteRlcAmHeader) : Prop :=
  ∃ bytes, h.serialize = some bytes ∧ bytes.length = h.getSerializedSize ∧
    ∀ rest, ∃ g, deserialize (bytes ++ rest) = some (g, rest) ∧ SameData h g

variable {h : LteRlcAmHeader} {lis : List Nat}

/-- The header after the fixed part has been read in a new one. -/
def fixedPart (h : LteRlcAmHeader) (e : Nat) : LteRlcAmHeader where
  headerLength := 4
  dataControlBit := dataPdu
  resegmentationFlag := h.resegmentationFlag
  pollingBit := h.pollingBit
  framingInfo := h.framingInfo
  sequenceNumber := ⟨h.sequenceNumber.value, 0⟩
  lastSegmentFlag := h.lastSegmentFlag
  segmentOffset := readOffset h.segmentOffset
  extensionBits := [e]

/-- Reading the fixed part, and then what its extension bit says. -/
theorem IsData.deserialize_fixed (proper : IsData h lis) {e : Nat} {es : List Nat}
    (bits : h.extensionBits = e :: es) (he : e < 2) (rest : List Nat) :
    ∃ bytes, h.serialize = some bytes ∧
      bytes.length = 4 + (LteRlcHeader.serializeLi es lis).length ∧
      deserialize (bytes ++ rest) =
        if e = dataFieldFollows then some (fixedPart h e, LteRlcHeader.serializeLi es lis ++ rest)
        else do
          let (g, left) ← deserializeLi (LteRlcHeader.serializeLi es lis ++ rest) (fixedPart h e)
          return if g.resegmentationFlag = segment then
            ({ g with lastOffset :=
              (g.segmentOffset + (bytes ++ rest).length + 65536 - g.headerLength) % 65536 }, left)
          else (g, left) := by
  obtain ⟨small, joins⟩ := number_joins _ proper.number
  obtain ⟨data, reseg, poll, framing, bit, two⟩ := firstByte_fields proper.reseg proper.poll
    proper.framing he small
  obtain ⟨last, offset⟩ := third_byte proper.last proper.offset
  have written : h.serialize = some ([firstByte h.resegmentationFlag h.pollingBit h.framingInfo e
        (h.sequenceNumber.value >>> 8),
      h.sequenceNumber.value &&& 0xff,
      ((h.lastSegmentFlag <<< 7) &&& 0x80) ||| ((h.segmentOffset >>> 8) &&& 0x7f),
      h.segmentOffset &&& 0xff] ++ LteRlcHeader.serializeLi es lis) := by
    simp only [serialize, proper.data, if_true, serializeData, bits, proper.indicators]
    rfl
  refine ⟨_, written, by rw [List.length_append]; rfl, ?_⟩
  have number : (SequenceNumber10.ofNat 0xfffa).assign h.sequenceNumber.value =
      ⟨h.sequenceNumber.value, 0⟩ := by
    rw [SequenceNumber10.assign, Nat.mod_eq_of_lt proper.number]
    rfl
  simp only [List.cons_append, List.nil_append, deserialize, data, if_true, deserializeData, reseg,
    poll, framing, bit, two, joins, number, last, offset]
  have extension : e ≠ dataFieldFollows → e = eLiFieldsFollows := by
    simp only [dataFieldFollows, eLiFieldsFollows]
    omega
  by_cases follows : e = dataFieldFollows
  · simp only [follows, if_true]
    rfl
  · simp only [extension follows, if_true]
    rfl

/-- What is written, and what is read from it if the length fits in its sixteen bits. -/
theorem IsData.written (proper : IsData h lis) :
    ∃ bytes, h.serialize = some bytes ∧ bytes.length = 4 + liBytes lis.length ∧
      (4 + liBytes lis.length < 65536 → ∀ rest, ∃ g, deserialize (bytes ++ rest) = some (g, rest) ∧
        SameData { h with segmentOffset := readOffset h.segmentOffset } g) := by
  cases lis with
  | nil =>
    obtain ⟨bytes, written, length, read⟩ := proper.deserialize_fixed proper.bits (by decide) []
    refine ⟨bytes, written, length, fun _ rest => ⟨fixedPart h 0, ?_, ?_⟩⟩
    · obtain ⟨bytes', written', -, read⟩ := proper.deserialize_fixed proper.bits (by decide) rest
      cases written.symm.trans written'
      exact read
    · exact ⟨proper.data.symm, rfl, rfl, rfl, rfl, rfl, rfl, proper.bits.symm,
        proper.indicators.symm, proper.length.symm⟩
  | cons li lis =>
    have bits : h.extensionBits = 1 :: marks (li :: lis) := proper.bits
    obtain ⟨bytes, written, length, -⟩ := proper.deserialize_fixed bits (by decide) []
    rw [LteRlcHeader.serializeLi_length] at length
    refine ⟨bytes, written, length, fun fits rest => ?_⟩
    obtain ⟨bytes', written', -, read⟩ := proper.deserialize_fixed bits (by decide) rest
    cases written.symm.trans written'
    rw [if_neg (by decide), deserializeLi_eq, LteRlcHeader.deserializeLi_serializeLi rest
      (li :: lis)
      (fixedPart h 1).lists (List.cons_ne_nil _ _) proper.small fits] at read
    have length : h.headerLength = 4 + liBytes (li :: lis).length :=
      proper.length.trans (Nat.mod_eq_of_lt fits)
    have same : ∀ offset, SameData { h with segmentOffset := readOffset h.segmentOffset }
        { (fixedPart h 1).withLists
          { (fixedPart h 1).lists with
            extensionBits := [1] ++ marks (li :: lis)
            lengthIndicators := [] ++ li :: lis
            headerLength := 4 + liBytes (li :: lis).length } with lastOffset := offset } :=
      fun _ => ⟨proper.data.symm, rfl, rfl, rfl, rfl, rfl, rfl, bits.symm,
        proper.indicators.symm, length.symm⟩
    by_cases seg : h.resegmentationFlag = segment
    · exact ⟨_, read.trans (congrArg some (if_pos seg)), same _⟩
    · exact ⟨_, read.trans (congrArg some (if_neg seg)), same 0xffff⟩

/-! ## Headers as they are built -/

/-- A header with the pieces of the sizes `lis`, another piece following each. -/
def pushed (lis : List Nat) : LteRlcAmHeader :=
  lis.foldl (fun h li => (h.pushExtensionBit eLiFieldsFollows).pushLengthIndicator li)
    (setDataPdu {})

/-- The header of a data PDU with all its fields set. -/
def built (rf p fi lsf so : Nat) (sn : SequenceNumber10) (lis : List Nat) : LteRlcAmHeader :=
  ((((((pushed lis).pushExtensionBit dataFieldFollows).setSequenceNumber sn).setResegmentationFlag
    rf).setLastSegmentFlag lsf).setSegmentOffset so).setFramingInfo fi |>.setPollingBit p

theorem pushed_concat (lis : List Nat) (li : Nat) :
    pushed (lis ++ [li]) =
      ((pushed lis).pushExtensionBit eLiFieldsFollows).pushLengthIndicator li := by
  rw [pushed, List.foldl_append]
  rfl

theorem pushExtensionBit_length {g : LteRlcAmHeader} {n e : Nat}
    (bits : g.extensionBits.length = n)
    (length : g.headerLength = (4 + liBytes (n - 1)) % 65536) :
    (g.pushExtensionBit e).headerLength = (4 + liBytes n) % 65536 := by
  simp only [pushExtensionBit, List.length_append, bits, List.length_singleton]
  simp only [LteRlcHeader.liBytes_eq] at length ⊢
  rcases Nat.eq_zero_or_pos n with rfl | pos
  · rw [if_neg (by omega)]
    exact length
  · rw [if_pos (by omega)]
    split <;> omega

theorem pushed_spec (lis : List Nat) (small : ∀ li ∈ lis, li < 2048) :
    (pushed lis).dataControlBit = dataPdu ∧
      (pushed lis).extensionBits = List.replicate lis.length 1 ∧
      (pushed lis).lengthIndicators = lis ∧
      (pushed lis).headerLength = (4 + liBytes (lis.length - 1)) % 65536 := by
  induction lis using List.reverseRecOn with
  | nil => exact ⟨rfl, rfl, rfl, rfl⟩
  | append_singleton lis li ih =>
    obtain ⟨data, bits, indicators, length⟩ := ih fun l mem =>
      small l (List.mem_append_left _ mem)
    have hl := small li (List.mem_append_right _ List.mem_cons_self)
    rw [pushed_concat]
    refine ⟨data, ?_, ?_, ?_⟩
    · simp [pushLengthIndicator, pushExtensionBit, bits, eLiFieldsFollows, List.replicate_succ']
    · simp only [pushLengthIndicator, pushExtensionBit, indicators]
      rw [Nat.mod_eq_of_lt (by omega)]
    · have longer := pushExtensionBit_length (e := eLiFieldsFollows)
        (congrArg List.length bits |>.trans List.length_replicate) length
      simpa [pushLengthIndicator] using longer

theorem and_eq_of_lt {n : Nat} : (n < 2 → n &&& 0x01 = n) ∧ (n < 4 → n &&& 0x03 = n) ∧
    (n < 2 ^ 15 → n &&& 0x7fff = n) := by
  refine ⟨fun h => ?_, fun h => ?_, fun h => ?_⟩
  · exact (Nat.and_two_pow_sub_one_eq_mod n 1).trans (Nat.mod_eq_of_lt h)
  · exact (Nat.and_two_pow_sub_one_eq_mod n 2).trans (Nat.mod_eq_of_lt h)
  · exact (Nat.and_two_pow_sub_one_eq_mod n 15).trans (Nat.mod_eq_of_lt h)

/-- The methods build such a header from any flags, numbers and sizes in their ranges. -/
theorem built_isData {rf p fi lsf so : Nat} {sn : SequenceNumber10} (hr : rf < 2) (hp : p < 2)
    (hf : fi < 4) (hl : lsf < 2) (ho : so < 2 ^ 15) (hs : sn.value < 1024)
    (small : ∀ li ∈ lis, li < 2048) : IsData (built rf p fi lsf so sn lis) lis := by
  obtain ⟨data, bits, indicators, length⟩ := pushed_spec lis small
  have flags {n : Nat} (h : n < 2) : n &&& 0x01 < 2 := by rwa [and_eq_of_lt.1 h]
  refine ⟨data, flags hr, flags hp, ?_, hs, flags hl, ?_, ?_, indicators, small, ?_⟩
  · show fi &&& 0x03 < 4
    rwa [and_eq_of_lt.2.1 hf]
  · show so &&& 0x7fff < 2 ^ 15
    rwa [and_eq_of_lt.2.2 ho]
  · rw [LteRlcHeader.marks_cons, ← bits]
    rfl
  · exact pushExtensionBit_length ((congrArg List.length bits).trans List.length_replicate) length

/-! ## The result -/

/-- The round trip succeeds if and only if the segment offset has no upper bits and the length of
the header fits. -/
theorem roundTrips_iff (proper : IsData h lis) :
    RoundTrips h ↔ h.segmentOffset < 256 ∧ 4 + liBytes lis.length < 65536 := by
  obtain ⟨bytes, written, length, read⟩ := proper.written
  constructor
  · rintro ⟨bytes', written', size, back⟩
    cases written.symm.trans written'
    have fits : 4 + liBytes lis.length < 65536 := by
      rw [getSerializedSize, proper.length] at size
      omega
    obtain ⟨g, returns, same⟩ := read fits []
    obtain ⟨g', returns', same'⟩ := back []
    cases returns.symm.trans returns'
    exact ⟨(readOffset_eq_iff proper.offset).mp (same.offset.symm.trans same'.offset), fits⟩
  · rintro ⟨low, fits⟩
    refine ⟨bytes, written, ?_, fun rest => ?_⟩
    · rw [getSerializedSize, proper.length, Nat.mod_eq_of_lt fits]
      exact length
    · obtain ⟨g, returns, same⟩ := read fits rest
      rw [(readOffset_eq_iff proper.offset).mpr low] at same
      exact ⟨g, returns, same⟩

/-- A segment at offset 200 with three length indicators. -/
theorem roundTrips_segment : RoundTrips (built 1 0 2 1 200 ⟨1023, 0⟩ [5, 2047, 1]) :=
  (roundTrips_iff (built_isData (by decide) (by decide) (by decide) (by decide) (by decide)
    (by decide) (by decide))).mpr (by decide)

/-- A segment at offset 256: it is read at offset 1. -/
theorem offset256_lost : ¬ RoundTrips (built 1 0 2 1 256 ⟨5, 0⟩ []) := by
  rintro ⟨bytes, written, -, back⟩
  have bytes_eq : (built 1 0 2 1 256 ⟨5, 0⟩ []).serialize = some [0xd0, 5, 0x81, 0] := by decide
  cases bytes_eq.symm.trans written
  obtain ⟨g, returns, same⟩ := back []
  have read : (deserialize [0xd0, 5, 0x81, 0]).map (fun g => g.1.segmentOffset) =
    some 1 := by decide
  rw [List.append_nil] at returns
  rw [returns, Option.map_some, Option.some.injEq, same.offset] at read
  exact absurd read (by decide)

end Ns3.LteRlcAmHeader
