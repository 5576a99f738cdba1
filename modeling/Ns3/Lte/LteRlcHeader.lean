import Ns3.Library.BitField
import Ns3.Lte.SequenceNumber10
import Mathlib.Data.List.Induction

/-!
# The header of an RLC data PDU

After the fixed part of two bytes come an extension bit and a length indicator of eleven bits
for each SDU but the last, two of them in three bytes and an odd last one in two. What is
written is read back.
-/

namespace Ns3

open List Option

/-- `LteRlcHeader`. -/
structure LteRlcHeader where
  headerLength : Nat := 0
  framingInfo : Nat := 0xff
  sequenceNumber : SequenceNumber10 := .ofNat 0xfffa
  extensionBits : List Nat := []
  lengthIndicators : List Nat := []
  deriving DecidableEq

namespace LteRlcHeader

/-- `ExtensionBit_t`, `FramingInfoFirstByte_t` and `FramingInfoLastByte_t`. -/
def dataFieldFollows : Nat := 0
def eLiFieldsFollows : Nat := 1
def firstByte : Nat := 0x00
def noFirstByte : Nat := 0x02
def lastByte : Nat := 0x00
def noLastByte : Nat := 0x01

/-- `SetFramingInfo`. -/
def setFramingInfo (framingInfo : Nat) (h : LteRlcHeader) : LteRlcHeader :=
  { h with framingInfo := framingInfo &&& 0x03 }

/-- `SetSequenceNumber`. -/
def setSequenceNumber (sequenceNumber : SequenceNumber10) (h : LteRlcHeader) : LteRlcHeader :=
  { h with sequenceNumber }

/-- `PushExtensionBit`; the length of the header is kept in sixteen bits. -/
def pushExtensionBit (extensionBit : Nat) (h : LteRlcHeader) : LteRlcHeader :=
  let extensionBits := h.extensionBits ++ [extensionBit]
  { h with
    extensionBits
    headerLength :=
      if extensionBits.length = 1 then 2
      else if extensionBits.length % 2 ≠ 0 then (h.headerLength + 1) % 65536
      else (h.headerLength + 2) % 65536 }

/-- `PushLengthIndicator`. -/
def pushLengthIndicator (lengthIndicator : Nat) (h : LteRlcHeader) : LteRlcHeader :=
  { h with lengthIndicators := h.lengthIndicators ++ [lengthIndicator % 65536] }

/-- The loop of `Serialize` over the extension bits and length indicators after the fixed part. -/
def serializeLi : List Nat → List Nat → List Nat
  | oddE :: evenE :: es, oddLi :: evenLi :: lis =>
    [((oddE <<< 7) &&& 0x80) ||| ((oddLi >>> 4) &&& 0x7f),
      ((oddLi <<< 4) &&& 0xf0) ||| ((evenE <<< 3) &&& 0x08) ||| ((evenLi >>> 8) &&& 0x07),
      evenLi &&& 0xff] ++ serializeLi es lis
  | oddE :: _, oddLi :: _ =>
    [((oddE <<< 7) &&& 0x80) ||| ((oddLi >>> 4) &&& 0x7f), (oddLi <<< 4) &&& 0xf0]
  | _, _ => []

/-- `Serialize`: the bytes that are written; the fixed part needs one extension bit. -/
def serialize (h : LteRlcHeader) : Option (List Nat) :=
  match h.extensionBits with
  | [] => none
  | e :: es =>
    some ([((h.framingInfo <<< 3) &&& 0x18) ||| ((e <<< 2) &&& 0x04) |||
        ((h.sequenceNumber.value >>> 8) &&& 0x03),
      h.sequenceNumber.value &&& 0xff] ++ serializeLi es h.lengthIndicators)

/-- The loop of `Deserialize`, with the bytes that are left. -/
def deserializeLi : List Nat → LteRlcHeader → Option (LteRlcHeader × List Nat)
  | byte_1 :: byte_2 :: rest, h =>
    let oddE := (byte_1 &&& 0x80) >>> 7
    let oddLi := ((byte_1 &&& 0x7f) <<< 4) ||| ((byte_2 &&& 0xf0) >>> 4)
    let h := { h with
      extensionBits := h.extensionBits ++ [oddE]
      lengthIndicators := h.lengthIndicators ++ [oddLi]
      headerLength := (h.headerLength + 2) % 65536 }
    if oddE = eLiFieldsFollows then
      match rest with
      | [] => none
      | byte_3 :: rest =>
        let evenE := (byte_2 &&& 0x08) >>> 3
        let evenLi := ((byte_2 &&& 0x07) <<< 8) ||| (byte_3 &&& 0xff)
        let h := { h with
          extensionBits := h.extensionBits ++ [evenE]
          lengthIndicators := h.lengthIndicators ++ [evenLi]
          headerLength := (h.headerLength + 1) % 65536 }
        if evenE = eLiFieldsFollows then deserializeLi rest h else some (h, rest)
    else some (h, rest)
  | _, _ => none

/-- `Deserialize` into a new header, with the bytes that are left. -/
def deserialize : List Nat → Option (LteRlcHeader × List Nat)
  | byte_1 :: byte_2 :: rest =>
    let h : LteRlcHeader := {}
    let extensionBit := (byte_1 &&& 0x04) >>> 2
    let h := { h with
      headerLength := 2
      framingInfo := (byte_1 &&& 0x18) >>> 3
      sequenceNumber := h.sequenceNumber.assign (((byte_1 &&& 0x03) <<< 8) ||| byte_2)
      extensionBits := [extensionBit] }
    if extensionBit = dataFieldFollows then some (h, rest)
    else if extensionBit = eLiFieldsFollows then deserializeLi rest h
    else some (h, rest)
  | _ => none

/-! ## What is read -/

theorem deserializeLi_sequenceNumber {bytes rest : List Nat} {h g : LteRlcHeader}
    (read : deserializeLi bytes h = some (g, rest)) : g.sequenceNumber = h.sequenceNumber := by
  fun_induction deserializeLi bytes h with
  | case1 => cases read
  | case2 _ _ _ _ _ _ _ _ _ _ _ _ _ ih => exact ih read
  | case3 => rw [← (Prod.mk.inj (some.inj read)).1]
  | case4 => rw [← (Prod.mk.inj (some.inj read)).1]
  | case5 => cases read

theorem deserialize_sequenceNumber_lt {bytes rest : List Nat} {h : LteRlcHeader}
    (read : deserialize bytes = some (h, rest)) : h.sequenceNumber.value < 1024 := by
  unfold deserialize at read
  split at read
  case h_1 byte_1 byte_2 rest' =>
    dsimp only at read
    split at read
    · cases read
      exact Nat.mod_lt _ (by decide)
    · split at read
      · rw [deserializeLi_sequenceNumber read]
        exact Nat.mod_lt _ (by decide)
      · cases read
        exact Nat.mod_lt _ (by decide)
  case h_2 => cases read

/-! ## Round trip -/

/-- The extension bits before some length indicators: the last one is followed by the data. -/
def marks {α : Type} : List α → List Nat
  | [] => []
  | [_] => [0]
  | _ :: li :: lis => 1 :: marks (li :: lis)

/-- The bytes of some length indicators. -/
def liBytes : Nat → Nat
  | 0 => 0
  | 1 => 2
  | n + 2 => 3 + liBytes n

theorem fixed_byte {fi e sn : Nat} (hf : fi < 4) (he : e < 2) (hs : sn < 1024) :
    let byte := ((fi <<< 3) &&& 0x18) ||| ((e <<< 2) &&& 0x04) ||| ((sn >>> 8) &&& 0x03)
    (byte &&& 0x04) >>> 2 = e ∧ (byte &&& 0x18) >>> 3 = fi ∧
      ((byte &&& 0x03) <<< 8) ||| (sn &&& 0xff) = sn := by
  have high : ∀ fi < 4, ∀ e < 2, ∀ n < 4,
      ((((fi <<< 3) &&& 0x18) ||| ((e <<< 2) &&& 0x04) ||| (n &&& 0x03)) &&& 0x04) >>> 2 = e ∧
      ((((fi <<< 3) &&& 0x18) ||| ((e <<< 2) &&& 0x04) ||| (n &&& 0x03)) &&& 0x18) >>> 3 = fi ∧
      (((fi <<< 3) &&& 0x18) ||| ((e <<< 2) &&& 0x04) ||| (n &&& 0x03)) &&& 0x03 = n := by decide
  have small : sn >>> 8 < 4 := by
    rw [Nat.shiftRight_eq_div_pow]
    omega
  obtain ⟨bit, framing, two⟩ := high fi hf e he _ small
  refine ⟨bit, framing, ?_⟩
  rw [two]
  exact Nat.and_two_pow_sub_one_eq_mod sn 8 ▸ BitField.high_or_low sn 8

theorem odd_byte {e li : Nat} (he : e < 2) (hl : li < 2048) :
    let byte := ((e <<< 7) &&& 0x80) ||| ((li >>> 4) &&& 0x7f)
    (byte &&& 0x80) >>> 7 = e ∧ (byte &&& 0x7f) = li >>> 4 := by
  have parts : ∀ e < 2, ∀ n < 128,
      ((((e <<< 7) &&& 0x80) ||| (n &&& 0x7f)) &&& 0x80) >>> 7 = e ∧
      (((e <<< 7) &&& 0x80) ||| (n &&& 0x7f)) &&& 0x7f = n := by decide
  exact parts e he _ (by rw [Nat.shiftRight_eq_div_pow]; omega)

/-- The byte that an odd length indicator shares with an even one. -/
theorem shared_byte (oddLi : Nat) {e evenLi : Nat} (he : e < 2) (hl : evenLi < 2048) :
    let byte := ((oddLi <<< 4) &&& 0xf0) ||| ((e <<< 3) &&& 0x08) ||| ((evenLi >>> 8) &&& 0x07)
    (byte &&& 0xf0) >>> 4 = oddLi % 16 ∧ (byte &&& 0x08) >>> 3 = e ∧
      byte &&& 0x07 = evenLi >>> 8 := by
  have nibble : (oddLi <<< 4) &&& 0xf0 = (oddLi % 16) <<< 4 := BitField.shift_and_mask oddLi 4 4
  have parts : ∀ n < 16, ∀ e < 2, ∀ m < 8,
      (((n <<< 4) ||| ((e <<< 3) &&& 0x08) ||| (m &&& 0x07)) &&& 0xf0) >>> 4 = n ∧
      (((n <<< 4) ||| ((e <<< 3) &&& 0x08) ||| (m &&& 0x07)) &&& 0x08) >>> 3 = e ∧
      ((n <<< 4) ||| ((e <<< 3) &&& 0x08) ||| (m &&& 0x07)) &&& 0x07 = m := by decide
  rw [nibble]
  exact parts _ (Nat.mod_lt _ (by decide)) e he _ (by rw [Nat.shiftRight_eq_div_pow]; omega)

theorem odd_joins (li : Nat) :
    ((li >>> 4) <<< 4) ||| (li % 16) = li ∧ (((li <<< 4) &&& 0xf0) &&& 0xf0) >>> 4 = li % 16 := by
  rw [Nat.and_assoc]
  exact ⟨BitField.high_or_low li 4, BitField.cut_shifted li 4 4⟩

theorem even_joins (li : Nat) :
    ((li >>> 8) <<< 8) ||| ((li &&& 0xff) &&& 0xff) = li := by
  rw [Nat.and_assoc]
  exact Nat.and_two_pow_sub_one_eq_mod li 8 ▸ BitField.high_or_low li 8

theorem serializeLi_length : ∀ lis : List Nat,
    (serializeLi (marks lis) lis).length = liBytes lis.length
  | [] => rfl
  | [_] => rfl
  | [_, _] => rfl
  | _ :: _ :: li :: lis => by
      rw [marks, marks, serializeLi, length_append, serializeLi_length (li :: lis)]
      simp [liBytes]

example : (serializeLi (marks [5, 6, 7]) [5, 6, 7]).length = 5 := by decide +kernel

/-- What is pushed for a length indicator that takes some bytes. -/
def takeLi (bytes e li : Nat) (h : LteRlcHeader) : LteRlcHeader :=
  { h with
    extensionBits := h.extensionBits ++ [e]
    lengthIndicators := h.lengthIndicators ++ [li]
    headerLength := (h.headerLength + bytes) % 65536 }

variable {rest : List Nat} {h : LteRlcHeader}

theorem deserializeLi_odd {li : Nat} (hl : li < 2048) :
    deserializeLi (serializeLi [0] [li] ++ rest) h = some (h.takeLi 2 0 li, rest) := by
  obtain ⟨bit, high⟩ := odd_byte (e := 0) (by decide) hl
  obtain ⟨joins, low⟩ := odd_joins li
  rw [serializeLi, cons_append, cons_append, nil_append, deserializeLi.eq_def]
  simp only [bit, high, low, joins, eLiFieldsFollows, Nat.zero_ne_one, if_false]
  rfl
  all_goals nofun

/-- Two length indicators in three bytes. -/
theorem deserializeLi_pair {oddLi e evenLi : Nat} (hl : oddLi < 2048) (he : e < 2)
    (hl' : evenLi < 2048)
    {es lis : List Nat} :
    deserializeLi (serializeLi (1 :: e :: es) (oddLi :: evenLi :: lis) ++ rest) h =
      if e = 1 then
        deserializeLi (serializeLi es lis ++ rest) ((h.takeLi 2 1 oddLi).takeLi 1 e evenLi)
      else some ((h.takeLi 2 1 oddLi).takeLi 1 e evenLi, serializeLi es lis ++ rest) := by
  obtain ⟨bit, high⟩ := odd_byte (e := 1) (by decide) hl
  obtain ⟨low, bit', high'⟩ := shared_byte oddLi he hl'
  rw [serializeLi, append_assoc, cons_append, cons_append, cons_append,
    nil_append, deserializeLi.eq_def]
  simp only [bit, high, low, bit', high', (odd_joins oddLi).1, even_joins,
    eLiFieldsFollows, if_true]
  rfl

/-- The length indicators are read back. -/
theorem deserializeLi_serializeLi (rest : List Nat) : ∀ (lis : List Nat)
    (h : LteRlcHeader), lis ≠ [] →
    (∀ li ∈ lis, li < 2048) → h.headerLength + liBytes lis.length < 65536 →
    deserializeLi (serializeLi (marks lis) lis ++ rest) h = some ({ h with
      extensionBits := h.extensionBits ++ marks lis
      lengthIndicators := h.lengthIndicators ++ lis
      headerLength := h.headerLength + liBytes lis.length }, rest)
  | [], _, some_, _, _ => absurd rfl some_
  | [li], h, _, small, fits => by
      have fits' : h.headerLength + 2 < 65536 := fits
      rw [marks, deserializeLi_odd (small li mem_cons_self), takeLi, Nat.mod_eq_of_lt fits']
      rfl
  | [oddLi, evenLi], h, _, small, fits => by
      have hl' := small evenLi (mem_cons_of_mem oddLi mem_cons_self)
      simp only [length_cons, length_nil, liBytes] at fits
      rw [marks, marks, deserializeLi_pair (small oddLi mem_cons_self) (by decide) hl',
        if_neg Nat.zero_ne_one]
      simp only [takeLi, append_assoc, length_cons, length_nil, liBytes]
      rw [Nat.mod_add_mod, Nat.mod_eq_of_lt (by omega)]
      rfl
  | oddLi :: evenLi :: li :: lis, h, _, small, fits => by
      have hl' := small evenLi (mem_cons_of_mem oddLi mem_cons_self)
      simp only [length_cons, liBytes] at fits
      have later := deserializeLi_serializeLi rest (li :: lis)
        ((h.takeLi 2 1 oddLi).takeLi 1 1 evenLi)
        (cons_ne_nil _ _)
        (fun l mem => small l (mem_cons_of_mem oddLi (mem_cons_of_mem evenLi mem)))
        (by simp only [takeLi, length_cons]; omega)
      rw [marks, marks, deserializeLi_pair (small oddLi mem_cons_self) (by decide) hl',
        if_pos rfl,
        later]
      simp only [takeLi, append_assoc, length_cons, liBytes]
      rw [Nat.mod_add_mod, Nat.mod_eq_of_lt (by omega),
        show h.headerLength + 2 + 1 + liBytes (lis.length + 1) =
          h.headerLength + (3 + liBytes (lis.length + 1)) by omega]
      rfl

/-- The header of a PDU whose data field has pieces of the sizes `lis`, and a last one. -/
def formed (framingInfo : Nat) (sequenceNumber : SequenceNumber10) (lis : List Nat) :
    LteRlcHeader where
  headerLength := 2 + liBytes lis.length
  framingInfo := framingInfo
  sequenceNumber := sequenceNumber
  extensionBits := marks (0 :: lis)
  lengthIndicators := lis

theorem serialize_formed (fi : Nat) (sn : SequenceNumber10) (lis : List Nat) :
    ∃ bytes, (formed fi sn lis).serialize = some bytes ∧ bytes.length = 2 + liBytes lis.length := by
  cases lis with
  | nil => exact ⟨_, rfl, rfl⟩
  | cons li lis =>
    refine ⟨_, rfl, ?_⟩
    rw [length_append, formed, serializeLi_length]
    rfl

/-- The header is read back. -/
theorem deserialize_serialize {fi sn : Nat} {lis : List Nat} (base : Nat) (hf : fi < 4)
    (hs : sn < 1024)
    (small : ∀ li ∈ lis, li < 2048) (fits : 2 + liBytes lis.length < 65536) :
    ∃ bytes, (formed fi ⟨sn, base⟩ lis).serialize = some bytes ∧
      deserialize bytes = some (formed fi ⟨sn, 0⟩ lis, []) := by
  have wrapped : (SequenceNumber10.ofNat 0xfffa).assign sn = ⟨sn, 0⟩ := by
    rw [SequenceNumber10.assign, Nat.mod_eq_of_lt hs]
    rfl
  cases lis with
  | nil =>
    obtain ⟨bit, framing, number⟩ := fixed_byte (e := 0) hf (by decide) hs
    refine ⟨_, rfl, ?_⟩
    simp only [formed, serializeLi, append_nil, deserialize, bit, framing, number, wrapped,
      dataFieldFollows, if_true]
    rfl
  | cons li lis =>
    obtain ⟨bit, framing, number⟩ := fixed_byte (e := 1) hf (by decide) hs
    have later := deserializeLi_serializeLi [] (li :: lis)
      { headerLength := 2, framingInfo := fi, sequenceNumber := ⟨sn, 0⟩, extensionBits := [1] }
      (cons_ne_nil _ _) small fits
    rw [append_nil] at later
    refine ⟨_, rfl, ?_⟩
    simp only [formed, cons_append, nil_append, deserialize, bit, framing,
      number, wrapped,
      dataFieldFollows, eLiFieldsFollows, Nat.one_ne_zero, if_true, if_false]
    rw [later]
    rfl

/-! ## What a sender pushes -/

theorem liBytes_eq : ∀ n : Nat, liBytes n = (3 * n + 1) / 2
  | 0 => rfl
  | 1 => rfl
  | n + 2 => by
      rw [liBytes, liBytes_eq n]
      omega

/-- The header after the pieces of the sizes `lis`, another piece following each. -/
def pushed (lis : List Nat) : LteRlcHeader :=
  lis.foldl (fun h li => (h.pushExtensionBit eLiFieldsFollows).pushLengthIndicator li) {}

theorem pushed_concat (lis : List Nat) (li : Nat) :
    pushed (lis ++ [li]) =
      ((pushed lis).pushExtensionBit eLiFieldsFollows).pushLengthIndicator li := by
  rw [pushed, foldl_append]
  rfl

/-- The extension bits, length indicators and length. -/
theorem pushed_spec (lis : List Nat) (small : ∀ li ∈ lis, li < 2048) :
    (pushed lis).extensionBits = List.replicate lis.length 1 ∧ (pushed lis).lengthIndicators = lis ∧
      (lis ≠ [] → (pushed lis).headerLength = (2 + liBytes (lis.length - 1)) % 65536) := by
  induction lis using List.reverseRecOn with
  | nil => exact ⟨rfl, rfl, fun none_ => absurd rfl none_⟩
  | append_singleton lis li ih =>
    obtain ⟨bits, indicators, length⟩ := ih fun l mem => small l (mem_append_left _ mem)
    have hl := small li (mem_append_right _ mem_cons_self)
    rw [pushed_concat]
    refine ⟨?_, ?_, fun _ => ?_⟩
    · simp [pushLengthIndicator, pushExtensionBit, bits, eLiFieldsFollows, replicate_succ']
    · simp only [pushLengthIndicator, pushExtensionBit, indicators]
      rw [Nat.mod_eq_of_lt (by omega)]
    · simp only [pushLengthIndicator, pushExtensionBit, bits, length_append,
        length_replicate, length_singleton, Nat.add_eq_right, length_eq_zero_iff,
        Nat.add_sub_cancel]
      split
      case isTrue empty => rw [empty]; rfl
      case isFalse some_ =>
        have positive : 0 < lis.length := length_pos_iff.mpr some_
        rw [length some_, liBytes_eq, liBytes_eq]
        split <;> omega

theorem marks_cons (x : Nat) (lis : List Nat) :
    marks (x :: lis) = List.replicate lis.length 1 ++ [0] := by
  induction lis generalizing x with
  | nil => rfl
  | cons li lis ih => rw [marks, ih, length_cons, replicate_succ, cons_append]

/-- A sender's header, with the last extension bit and the values set. -/
theorem pushed_formed {lis : List Nat} (small : ∀ li ∈ lis, li < 2048) {fi : Nat} (hf : fi < 4)
    (sn : SequenceNumber10) :
    ((((pushed lis).pushExtensionBit dataFieldFollows).setSequenceNumber sn).setFramingInfo fi) =
      { formed fi sn lis with headerLength := (2 + liBytes lis.length) % 65536 } := by
  obtain ⟨bits, indicators, length⟩ := pushed_spec lis small
  have framing : fi &&& 0x03 = fi := by
    have all : ∀ fi < 4, fi &&& 0x03 = fi := by decide
    exact all fi hf
  have total : (((pushed lis).pushExtensionBit dataFieldFollows)).headerLength =
      (2 + liBytes lis.length) % 65536 := by
    simp only [pushExtensionBit, bits, length_append, length_replicate,
      length_singleton, Nat.add_eq_right, length_eq_zero_iff]
    split
    case isTrue empty => rw [empty]; rfl
    case isFalse some_ =>
      have positive : 0 < lis.length := length_pos_iff.mpr some_
      rw [length some_, liBytes_eq, liBytes_eq]
      split <;> omega
  simp only [setFramingInfo, setSequenceNumber, formed, framing, marks_cons, LteRlcHeader.mk.injEq]
  refine ⟨total, trivial, trivial, ?_, ?_⟩
  · simp only [pushExtensionBit, bits, dataFieldFollows]
  · simp only [pushExtensionBit, indicators]

end LteRlcHeader

end Ns3
