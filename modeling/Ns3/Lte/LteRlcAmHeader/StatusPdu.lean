import Ns3.Lte.LteRlcAmHeader.Basic

/-!
# The header of a STATUS PDU is read back

After the acknowledged number each NACK has ten bits and the two bits E1 and E2 before the next
one. A NACK at an odd place begins with the last bit of a byte, one at an even place with five.
-/

namespace Ns3.LteRlcAmHeader

open List Option

/-! ## The bytes -/

/-- The byte before a NACK at an even place: the last bit of the odd one, and five of its own. -/
def middleByte (oddNack high : Nat) : Nat := ((oddNack <<< 7) &&& 0x80) ||| 0x40 ||| (high &&& 0x1f)

/-- The last byte of a NACK at an even place, with the first bit of the next one. -/
def lastByte (evenNack high : Nat) : Nat := ((evenNack <<< 3) &&& 0xf8) ||| 0x04 ||| (high &&& 0x01)

/-- The second byte of a STATUS PDU, with the first bit of the first NACK. -/
def secondByte (ack high : Nat) : Nat := ((ack <<< 2) &&& 0xfc) ||| 0x02 ||| (high &&& 0x01)

theorem high_bits : ∀ n < 1024, n >>> 5 < 32 ∧ n >>> 9 < 2 := by
  intro n h
  simp only [Nat.shiftRight_eq_div_pow]
  omega

theorem final_fields (n : Nat) : (((n <<< 7) &&& 0x80) &&& 0x80) >>> 7 = n % 2 ∧
    (((n <<< 7) &&& 0x80) &&& 0x40) >>> 6 = 0 := by
  rw [Nat.and_assoc, Nat.and_assoc]
  exact ⟨BitField.cut_shifted n 1 7, by simp⟩

theorem middleByte_fields : ∀ n < 1024, ∀ m < 32, (middleByte n m &&& 0x80) >>> 7 = n % 2 ∧
    (middleByte n m &&& 0x40) >>> 6 = 1 ∧ middleByte n m &&& 0x1f = m := by
  have parts : ∀ p < 2, ∀ m < 32, (((p <<< 7) ||| 0x40 ||| (m &&& 0x1f)) &&& 0x80) >>> 7 = p ∧
      (((p <<< 7) ||| 0x40 ||| (m &&& 0x1f)) &&& 0x40) >>> 6 = 1 ∧
      ((p <<< 7) ||| 0x40 ||| (m &&& 0x1f)) &&& 0x1f = m := by decide
  intro n _ m hm
  have bit : (n <<< 7) &&& 0x80 = (n % 2) <<< 7 := BitField.shift_and_mask n 1 7
  simp only [middleByte, bit]
  exact parts _ (Nat.mod_lt _ (by decide)) m hm

theorem odd_joins : ∀ n < 1024,
    ((n >>> 9) <<< 9) ||| (((n >>> 1) &&& 0xff) <<< 1) ||| (n % 2) = n :=
  BitField.forall_lt_of_all (by decide +kernel)

theorem lastByte_fields : ∀ n < 1024, ∀ m < 2, (lastByte n m &&& 0xf8) >>> 3 = n % 32 ∧
    (lastByte n m &&& 0x04) >>> 2 = 1 ∧ lastByte n m &&& 0x01 = m := by
  have parts : ∀ p < 32, ∀ m < 2, let byte := p <<< 3 ||| 0x04 ||| (m &&& 0x01)
      (byte &&& 0xf8) >>> 3 = p ∧ (byte &&& 0x04) >>> 2 = 1 ∧ byte &&& 0x01 = m := by decide
  intro n _
  simp only [lastByte, show (n <<< 3) &&& 0xf8 = (n % 32) <<< 3 from BitField.shift_and_mask n 5 3]
  exact parts _ (Nat.mod_lt _ (by decide))

theorem even_field (n : Nat) : ((n <<< 3) &&& 0xf8) >>> 3 = n % 32 := BitField.cut_shifted n 5 3

theorem even_joins (n : Nat) : ((n >>> 5) <<< 5) ||| (n % 32) = n := BitField.high_or_low n 5

theorem firstByte_control : ∀ ack < 1024,
    let byte := ((controlPdu <<< 7) &&& 0x80) ||| ((statusPdu <<< 4) &&& 0x70) |||
      ((ack >>> 6) &&& 0x0f)
    (byte &&& 0x80) >>> 7 = controlPdu ∧ (byte &&& 0x70) >>> 4 = statusPdu ∧
      byte &&& 0x0f = ack >>> 6 := by
  have parts : ∀ n < 16,
      let byte := ((controlPdu <<< 7) &&& 0x80) ||| ((statusPdu <<< 4) &&& 0x70) ||| (n &&& 0x0f)
      (byte &&& 0x80) >>> 7 = controlPdu ∧ (byte &&& 0x70) >>> 4 = statusPdu ∧
        byte &&& 0x0f = n := by decide
  intro ack small
  exact parts _ (by rw [Nat.shiftRight_eq_div_pow]; omega)

theorem secondByte_fields : ∀ ack < 1024, ∀ m < 2, (secondByte ack m &&& 0xfc) >>> 2 = ack % 64 ∧
    (secondByte ack m &&& 0x02) >>> 1 = 1 ∧ secondByte ack m &&& 0x01 = m :=
  BitField.forall_lt_of_all (by decide +kernel)

example : secondByte 1023 1 = 0xff := by decide +kernel

theorem noNack_fields (ack : Nat) : (((ack <<< 2) &&& 0xfc) &&& 0xfc) >>> 2 = ack % 64 ∧
    (((ack <<< 2) &&& 0xfc) &&& 0x02) >>> 1 = 0 := by
  rw [Nat.and_assoc, Nat.and_assoc]
  exact ⟨BitField.cut_shifted ack 6 2, by simp⟩

theorem ack_joins (ack : Nat) : ((ack >>> 6) <<< 6) ||| (ack % 64) = ack :=
  BitField.high_or_low ack 6

/-! ## The loop over the NACKs -/

/-- The bytes of some NACKs. -/
def nackBytes (n : Nat) : Nat := (3 * n + 1) / 2

theorem nackBytes_add_two (n : Nat) : nackBytes (n + 2) = nackBytes n + 3 := by
  unfold nackBytes
  omega

/-- A header that has read some NACKs more. -/
def readNacks (h : LteRlcAmHeader) (nacks : List Nat) (bytes : Nat) : LteRlcAmHeader :=
  { h with
    nackSnList := h.nackSnList ++ nacks
    headerLength := (h.headerLength + bytes) % 65536 }

/-- What comes after the byte that has the first five bits of a NACK at an even place. -/
def evenBytes (evenNack : Nat) : List Nat → List Nat
  | [] => [(evenNack <<< 3) &&& 0xf8]
  | nextNack :: rest => lastByte evenNack (nextNack >>> 9) :: serializeNacks (nextNack :: rest)

theorem serializeNacks_pair (oddNack evenNack : Nat) (rest : List Nat) :
    serializeNacks (oddNack :: evenNack :: rest) =
      ((oddNack >>> 1) &&& 0xff) :: middleByte oddNack (evenNack >>> 5) ::
        evenBytes evenNack rest := by
  cases rest <;> rfl

example : serializeNacks [1, 2] = [0, 192, 16] := by simp [serializeNacks]

theorem deserializeNacks_last {evenNack byte : Nat}
    (bits : byte &&& 0x1f = evenNack >>> 5) (left : List Nat) (h : LteRlcAmHeader) :
    deserializeNacks byte (evenBytes evenNack [] ++ left) h =
      some ((h.addNack evenNack).addLength 1, left) := by
  rw [evenBytes, cons_append, nil_append, deserializeNacks.eq_def]
  simp [bits, Nat.and_assoc, even_field, even_joins]

/-- A NACK at an even place and the two bytes of the next one, of which the second is `final`. -/
theorem deserializeNacks_next {evenNack nextNack byte final : Nat} (small : evenNack < 1024)
    (bits : byte &&& 0x1f = evenNack >>> 5) (next : nextNack < 1024)
    (bit : (final &&& 0x80) >>> 7 = nextNack % 2) (left : List Nat) (h : LteRlcAmHeader) :
    deserializeNacks byte
        (lastByte evenNack (nextNack >>> 9) :: ((nextNack >>> 1) &&& 0xff) :: final :: left) h =
      if (final &&& 0x40) >>> 6 = 1 then
        deserializeNacks final left (((h.addNack evenNack).addNack nextNack).addLength 3)
      else some (((h.addNack evenNack).addNack nextNack).addLength 3, left) := by
  obtain ⟨low, follows, top⟩ := lastByte_fields evenNack small _ (high_bits nextNack next).2
  rw [deserializeNacks.eq_def]
  simp [bits, low, follows, top, bit, even_joins, odd_joins nextNack next]

theorem deserializeNacks_even (left : List Nat) : ∀ (nacks : List Nat) (evenNack byte : Nat)
    (h : LteRlcAmHeader), evenNack < 1024 → (∀ n ∈ nacks, n < 1024) →
    byte &&& 0x1f = evenNack >>> 5 →
    deserializeNacks byte (evenBytes evenNack nacks ++ left) h =
      some (h.readNacks (evenNack :: nacks) (nackBytes (nacks.length + 2) - 2), left)
  | [], evenNack, byte, h, _, _, bits => deserializeNacks_last bits left h
  | [nextNack], evenNack, byte, h, small, others, bits => by
      have next := others nextNack mem_cons_self
      obtain ⟨bit, ends⟩ := final_fields nextNack
      have step := deserializeNacks_next small bits next bit left h
      rw [ends, if_neg Nat.zero_ne_one] at step
      rw [evenBytes, serializeNacks, cons_append, cons_append, cons_append,
        nil_append, step]
      simp [addNack, addLength, readNacks, nackBytes]
  | nextNack :: evenNack' :: rest, evenNack, byte, h, small, others, bits => by
      have next := others nextNack mem_cons_self
      have small' := others evenNack' (mem_cons_of_mem _ mem_cons_self)
      obtain ⟨bit, more, five⟩ := middleByte_fields nextNack next _ (high_bits evenNack' small').1
      have later := deserializeNacks_even left rest evenNack'
        (middleByte nextNack (evenNack' >>> 5))
        (((h.addNack evenNack).addNack nextNack).addLength 3) small'
        (fun n mem => others n (mem_cons_of_mem _ (mem_cons_of_mem _ mem))) five
      rw [evenBytes, serializeNacks_pair, cons_append, cons_append, cons_append,
        deserializeNacks_next small bits next bit, more, if_pos rfl, later]
      have more : nackBytes ((nextNack :: evenNack' :: rest).length + 2) - 2 =
          3 + (nackBytes (rest.length + 2) - 2) := by
        simp only [length_cons, nackBytes_add_two]
        omega
      simp only [addNack, addLength, readNacks, more, append_assoc, cons_append,
        nil_append, Nat.mod_add_mod, Nat.add_assoc]

theorem serializeNacks_length : ∀ nacks : List Nat,
    (serializeNacks nacks).length = nackBytes nacks.length
  | [] => rfl
  | [_] => by simp [serializeNacks, nackBytes]
  | [_, _] => by simp [serializeNacks, nackBytes]
  | _ :: _ :: nextNack :: rest => by
      have later := serializeNacks_length (nextNack :: rest)
      simp only [serializeNacks, length_append, later, length_cons, length_nil,
        nackBytes_add_two]
      exact Nat.add_comm _ _

/-! ## The round trip -/

/-- A header of a STATUS PDU. -/
structure IsStatus (h : LteRlcAmHeader) : Prop where
  control : h.dataControlBit = controlPdu
  status : h.controlPduType = statusPdu
  ack : h.ackSn.value < 1024
  nacks : ∀ n ∈ h.nackSnList, n < 1024

/-- The acknowledged number and the NACKs are read back. -/
theorem deserialize_status {h : LteRlcAmHeader} (proper : IsStatus h) (left : List Nat) :
    ∃ bytes, h.serialize = some bytes ∧ bytes.length = 2 + nackBytes h.nackSnList.length ∧
      deserialize (bytes ++ left) = some (
        { dataControlBit := controlPdu
          controlPduType := statusPdu
          ackSn := ⟨h.ackSn.value, 0⟩
          nackSnList := h.nackSnList
          headerLength := (2 + nackBytes h.nackSnList.length) % 65536 }, left) := by
  refine ⟨_, by rw [serialize, proper.control, if_neg (by decide)], ?_, ?_⟩
  · rw [serializeControl]
    cases h.nackSnList with
    | nil => rfl
    | cons nack rest =>
      rw [length_cons, length_cons, serializeNacks_length]
      omega
  obtain ⟨control, status, high⟩ := firstByte_control _ proper.ack
  have number : (SequenceNumber10.ofNat 0xffff).assign h.ackSn.value = ⟨h.ackSn.value, 0⟩ := by
    rw [SequenceNumber10.assign, Nat.mod_eq_of_lt proper.ack]
    rfl
  have joins := ack_joins h.ackSn.value
  have small := proper.nacks
  rw [serializeControl, proper.status, cons_append, deserialize]
  simp only [control, show controlPdu ≠ dataPdu by decide, if_false]
  cases nacks : h.nackSnList with
  | nil =>
    obtain ⟨low, ends⟩ := noNack_fields h.ackSn.value
    simp only [cons_append, nil_append, deserializeControl.eq_def, low, ends, status,
      high,
      joins, number, Nat.zero_ne_one, if_false]
    rfl
  | cons nack rest =>
    rw [nacks] at small
    have first := small nack mem_cons_self
    obtain ⟨low, more, top⟩ := secondByte_fields _ proper.ack _ (high_bits nack first).2
    cases rest with
    | nil =>
      obtain ⟨bit, ends⟩ := final_fields nack
      have second : (((h.ackSn.value <<< 2) &&& 0xfc) ||| 0x02 ||| ((nack >>> 9) &&& 0x01)) =
        secondByte h.ackSn.value (nack >>> 9) := rfl
      simp only [second, serializeNacks, cons_append, nil_append,
        deserializeControl.eq_def, low, more, top, bit, ends, status, high, joins, number,
        odd_joins nack first, Nat.zero_ne_one, if_true, if_false, addNack,
          length_singleton]
      rfl
    | cons evenNack rest =>
      have small' := small evenNack (mem_cons_of_mem _ mem_cons_self)
      obtain ⟨bit, others, five⟩ := middleByte_fields nack first _ (high_bits evenNack small').1
      have second : (((h.ackSn.value <<< 2) &&& 0xfc) ||| 0x02 ||| ((nack >>> 9) &&& 0x01)) =
        secondByte h.ackSn.value (nack >>> 9) := rfl
      simp only [second, serializeNacks_pair, cons_append,
        deserializeControl.eq_def, low, more, top, bit, others, status, high, joins, number,
        odd_joins nack first, if_true]
      rw [deserializeNacks_even left rest evenNack _ _ small'
        (fun n mem => small n (mem_cons_of_mem _ (mem_cons_of_mem _ mem))) five]
      simp only [addNack, readNacks, length_cons, nil_append, cons_append,
        nackBytes_add_two, some.injEq, Prod.mk.injEq, LteRlcAmHeader.mk.injEq, and_true]
      omega

end Ns3.LteRlcAmHeader
