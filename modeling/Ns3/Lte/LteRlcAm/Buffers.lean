import Ns3.Lte.LteRlcAm.Transmit
import Ns3.Library.Run
import Mathlib.Algebra.BigOperators.Group.Finset.Basic

/-!
# The transmission buffers of RLC AM

VT(A) and VT(S) are read as positions in the stream. For each number between them there is a PDU in
one of the two buffers, unless it has been acknowledged. The PDUs move between the buffers, and the
sizes of the buffers with them.
-/

namespace Ns3

/-- The size of the PDU that is kept, if one is. -/
def RetxPdu.size {α : Type} (e : RetxPdu α) : Nat := (e.pdu.map AmPdu.size).getD 0

namespace LteRlcAmTx

open SequenceNumber10 (from_ less_from lessEq_from greaterEq_from incr_from add_from from_value
  from_modulusBase setModulusBase_from)

variable {α : Type} {s t : LteRlcAmTx α} {acked' given : Nat → Bool}
  {A S p q n : Nat}

/-! ## The size of a buffer -/

/-- The sum of the sizes of the PDUs in a buffer. -/
def total (buffer : Nat → RetxPdu α) : Nat := ∑ n ∈ Finset.range 1024, (buffer n).size

theorem total_update {buffer : Nat → RetxPdu α} (below : n < 1024) (e : RetxPdu α) :
    total (Function.update buffer n e) + (buffer n).size =
      total buffer + e.size := by
  have mem : n ∈ Finset.range 1024 := Finset.mem_range.mpr below
  have others : ∑ m ∈ (Finset.range 1024).erase n, (Function.update buffer n e m).size =
      ∑ m ∈ (Finset.range 1024).erase n, (buffer m).size := by
    refine Finset.sum_congr rfl fun m here => ?_
    rw [Function.update_of_ne (Finset.ne_of_mem_erase here)]
  rw [total, total, ← Finset.add_sum_erase _ _ mem, ← Finset.add_sum_erase _ (fun m =>
    (buffer m).size) mem, others, Function.update_self]
  omega

theorem total_empty : total (fun _ => ({} : RetxPdu α)) = 0 := Finset.sum_eq_zero fun _ _ => rfl

theorem exists_pdu {buffer : Nat → RetxPdu α} (some_ : 0 < total buffer) :
    ∃ n, (buffer n).pdu.isSome = true := by
  by_contra none_
  have zero : total buffer = 0 := by
    refine Finset.sum_eq_zero fun n _ => ?_
    have empty : (buffer n).pdu = none :=
      Option.not_isSome_iff_eq_none.mp fun here => none_ ⟨n, here⟩
    rw [RetxPdu.size, empty]
    rfl
  omega

/-! ## What is kept -/

/-- What is kept for a number of the window: nothing, if it is acknowledged, otherwise one PDU. -/
def Kept (acked : Bool) (txed retx : RetxPdu α) : Prop :=
  if acked then txed.pdu = none ∧ retx.pdu = none else txed.pdu.isSome ≠ retx.pdu.isSome

/-- The buffers hold the PDUs of the positions from `A` up to `S`, except the acknowledged ones. -/
structure Stores (s : LteRlcAmTx α) (given : Nat → Bool) (A S : Nat) : Prop where
  inside : ∀ p, A ≤ p → p < S →
    Kept (given (p % 1024)) (s.txedBuffer (p % 1024)) (s.retxBuffer (p % 1024))
  outside : ∀ n, (∀ p, A ≤ p → p < S → p % 1024 ≠ n) →
    (s.txedBuffer n).pdu = none ∧ (s.retxBuffer n).pdu = none
  txedSize : s.txedBufferSize = total s.txedBuffer % 2 ^ 32
  retxSize : s.retxBufferSize = total s.retxBuffer % 2 ^ 32

/-- The places of one number are changed, and the sizes with them. -/
structure Replaces (s t : LteRlcAmTx α) (n : Nat) (txed retx : RetxPdu α) : Prop where
  txedBuffer : t.txedBuffer = Function.update s.txedBuffer n txed
  retxBuffer : t.retxBuffer = Function.update s.retxBuffer n retx
  txedSize : t.txedBufferSize < 2 ^ 32 ∧
    (t.txedBufferSize + (s.txedBuffer n).size) % 2 ^ 32 = (s.txedBufferSize + txed.size) % 2 ^ 32
  retxSize : t.retxBufferSize < 2 ^ 32 ∧
    (t.retxBufferSize + (s.retxBuffer n).size) % 2 ^ 32 = (s.retxBufferSize + retx.size) % 2 ^ 32

theorem size_update {size size' sum sum' old new : Nat} (exact_ : size = sum % 2 ^ 32)
    (small : size' < 2 ^ 32) (changed : (size' + old) % 2 ^ 32 = (size + new) % 2 ^ 32)
    (sums : sum' + old = sum + new) : size' = sum' % 2 ^ 32 := by
  omega

/-- The places of the position `p` are changed, which may be a new position. -/
theorem Stores.replace {S' : Nat} {txed retx : RetxPdu α} (stores : Stores s given A S)
    (low : A ≤ p) (below : p < S') (narrow : S' ≤ A + 512) (wider : S ≤ S')
    (others : ∀ q, A ≤ q → q < S' → q ≠ p → q < S ∧ acked' (q % 1024) = given (q % 1024))
    (replaces : Replaces s t (p % 1024) txed retx) (kept : Kept (acked' (p % 1024)) txed retx) :
    Stores t acked' A S' := by
  have bound : p % 1024 < 1024 := Nat.mod_lt p (by decide)
  refine ⟨fun q lowQ belowQ => ?_, fun n apart => ?_, ?_, ?_⟩
  · rw [replaces.txedBuffer, replaces.retxBuffer]
    by_cases same : q = p
    · rw [same, Function.update_self, Function.update_self]
      exact kept
    · obtain ⟨inside, agree⟩ := others q lowQ belowQ same
      have different : q % 1024 ≠ p % 1024 := by omega
      rw [Function.update_of_ne different, Function.update_of_ne different, agree]
      exact stores.inside q lowQ inside
  · have different : n ≠ p % 1024 := fun same => apart p low below same.symm
    rw [replaces.txedBuffer, replaces.retxBuffer, Function.update_of_ne different,
      Function.update_of_ne different]
    exact stores.outside n fun q lowQ belowQ => apart q lowQ (belowQ.trans_le wider)
  · refine size_update stores.txedSize replaces.txedSize.1 replaces.txedSize.2 ?_
    rw [replaces.txedBuffer]
    exact total_update bound txed
  · refine size_update stores.retxSize replaces.retxSize.1 replaces.retxSize.2 ?_
    rw [replaces.retxBuffer]
    exact total_update bound retx

theorem Stores.congr (stores : Stores s given A S)
    (agree : ∀ q, A ≤ q → q < S → acked' (q % 1024) = given (q % 1024)) : Stores s acked' A S := by
  refine { stores with inside := fun p low below => ?_ }
  rw [agree p low below]
  exact stores.inside p low below

theorem Stores.raise (stores : Stores s given A S) (below : A < S)
    (done : given (A % 1024) = true) : Stores s given (A + 1) S := by
  refine ⟨fun p low belowP => stores.inside p (by omega) belowP, fun n apart => ?_,
    stores.txedSize, stores.retxSize⟩
  by_cases here : A % 1024 = n
  · have kept := stores.inside A (Nat.le_refl A) below
    rw [Kept, done, if_pos rfl, here] at kept
    exact kept
  · refine stores.outside n fun p low belowP => ?_
    obtain rfl | above := Nat.eq_or_lt_of_le low
    · exact here
    · exact apart p above belowP

theorem Stores.same (stores : Stores s given A S) (txedBuffer : t.txedBuffer = s.txedBuffer)
    (retxBuffer : t.retxBuffer = s.retxBuffer) (txedSize : t.txedBufferSize = s.txedBufferSize)
    (retxSize : t.retxBufferSize = s.retxBufferSize) : Stores t given A S := by
  refine ⟨?_, ?_, ?_, ?_⟩
  · rw [txedBuffer, retxBuffer]
    exact stores.inside
  · rw [txedBuffer, retxBuffer]
    exact stores.outside
  · rw [txedBuffer, txedSize]
    exact stores.txedSize
  · rw [retxBuffer, retxSize]
    exact stores.retxSize

/-- What is in a buffer belongs to a position of the window that is not acknowledged. -/
theorem Stores.position (stores : Stores s given A S)
    (some_ : (s.txedBuffer n).pdu.isSome = true ∨ (s.retxBuffer n).pdu.isSome = true) :
    ∃ p, A ≤ p ∧ p < S ∧ n = p % 1024 ∧ given n = false := by
  by_contra none_
  obtain ⟨p, low, below, same⟩ : ∃ p, A ≤ p ∧ p < S ∧ p % 1024 = n := by
    by_contra apart
    obtain ⟨txed, retx⟩ := stores.outside n fun p low below same => apart ⟨p, low, below, same⟩
    rw [txed, retx] at some_
    simp at some_
  have kept := stores.inside p low below
  rw [same] at kept
  cases done : given n with
  | false => exact none_ ⟨p, low, below, same.symm, done⟩
  | true =>
    rw [Kept, done, if_pos rfl] at kept
    rw [kept.1, kept.2] at some_
    simp at some_

theorem Stores.not_txed (stores : Stores s given A S)
    (waits : (s.retxBuffer n).pdu.isSome = true) : (s.txedBuffer n).pdu = none := by
  obtain ⟨p, low, below, rfl, open_⟩ := stores.position (.inr waits)
  have kept := stores.inside p low below
  rw [Kept, open_, if_neg Bool.false_ne_true, waits] at kept
  simpa using kept

theorem Stores.not_retx (stores : Stores s given A S)
    (sent : (s.txedBuffer n).pdu.isSome = true) : (s.retxBuffer n).pdu = none := by
  obtain ⟨p, low, below, rfl, open_⟩ := stores.position (.inl sent)
  have kept := stores.inside p low below
  rw [Kept, open_, if_neg Bool.false_ne_true, sent] at kept
  simpa using kept

/-! ## Moves between the buffers -/

/-- What a move leaves as it was. -/
structure Fixes (s t : LteRlcAmTx α) : Prop where
  vtA : t.vtA = s.vtA
  vtS : t.vtS = s.vtS
  vtMs : t.vtMs = s.vtMs
  txonBuffer : t.txonBuffer = s.txonBuffer

theorem Fixes.refl (s : LteRlcAmTx α) : Fixes s s := ⟨rfl, rfl, rfl, rfl⟩

variable {e : RetxPdu α} {pdu : AmPdu α} {size : Nat}

theorem size_none (empty : e.pdu = none) : e.size = 0 := by
  rw [RetxPdu.size, empty]
  rfl

theorem size_some (here : e.pdu = some pdu) : e.size = pdu.size := by
  rw [RetxPdu.size, here]
  rfl

theorem size_put {new : RetxPdu α} (empty : e.pdu = none) (here : new.pdu = some pdu) :
    UInt32.add size pdu.size < 2 ^ 32 ∧
      (UInt32.add size pdu.size + e.size) % 2 ^ 32 = (size + new.size) % 2 ^ 32 := by
  refine ⟨UInt32.add_lt _ _, ?_⟩
  rw [size_none empty, size_some here, UInt32.add, Nat.add_zero, Nat.mod_mod]

theorem size_take {new : RetxPdu α} (here : e.pdu = some pdu) (empty : new.pdu = none) :
    UInt32.sub size pdu.size < 2 ^ 32 ∧
      (UInt32.sub size pdu.size + e.size) % 2 ^ 32 = (size + new.size) % 2 ^ 32 := by
  rw [size_none empty, size_some here, UInt32.sub]
  omega

theorem Stores.small (stores : Stores s given A S) :
    s.txedBufferSize < 2 ^ 32 ∧ s.retxBufferSize < 2 ^ 32 := by
  rw [stores.txedSize, stores.retxSize]
  exact ⟨Nat.mod_lt _ (Nat.two_pow_pos 32), Nat.mod_lt _ (Nat.two_pow_pos 32)⟩

theorem Stores.change {txed retx : RetxPdu α} (stores : Stores s given A S) (low : A ≤ p)
    (below : p < S) (narrow : S ≤ A + 512) (replaces : Replaces s t (p % 1024) txed retx)
    (kept : Kept (acked' (p % 1024)) txed retx)
    (agree : ∀ q, A ≤ q → q < S → q ≠ p → acked' (q % 1024) = given (q % 1024)) :
    Stores t acked' A S :=
  stores.replace low below narrow (Nat.le_refl S)
    (fun q lowQ belowQ apart => ⟨belowQ, agree q lowQ belowQ apart⟩) replaces kept

theorem Stores.moveToTxed (stores : Stores s given A S) (narrow : S ≤ A + 512)
    (here : (s.retxBuffer n).pdu = some pdu) : Stores (moveToTxed n pdu s) given A S := by
  have waits : (s.retxBuffer n).pdu.isSome = true := by rw [here, Option.isSome_some]
  obtain ⟨p, low, below, rfl, open_⟩ := stores.position (.inr waits)
  refine stores.change low below narrow ⟨rfl, rfl, size_put (stores.not_txed waits) rfl,
    size_take here rfl⟩ ?_ fun q _ _ _ => rfl
  rw [Kept, open_, if_neg Bool.false_ne_true]
  simp

theorem Stores.considerForRetx (stores : Stores s given A S) (narrow : S ≤ A + 512) (n : Nat) :
    Stores (considerForRetx n s) given A S ∧ Fixes s (considerForRetx n s) := by
  unfold LteRlcAmTx.considerForRetx
  cases here : (s.txedBuffer n).pdu with
  | none => exact ⟨stores, .refl s⟩
  | some pdu =>
    have sent : (s.txedBuffer n).pdu.isSome = true := by rw [here, Option.isSome_some]
    obtain ⟨p, low, below, rfl, open_⟩ := stores.position (.inl sent)
    refine ⟨stores.change low below narrow ⟨rfl, rfl, size_take here rfl,
      size_put (stores.not_retx sent) rfl⟩ ?_ fun q _ _ _ => rfl, ⟨rfl, rfl, rfl, rfl⟩⟩
    rw [Kept, open_, if_neg Bool.false_ne_true]
    simp

/-- A number that is not acknowledged has its PDU in the retransmission buffer after a NACK. -/
theorem Stores.nacked (stores : Stores s given A S) (low : A ≤ p) (below : p < S)
    (narrow : S ≤ A + 512) (open_ : given (p % 1024) = false) :
    ∃ t, (∀ profile, nacked profile (p % 1024) s = some t) ∧ Stores t given A S ∧ Fixes s t := by
  obtain ⟨moved, fixes⟩ := stores.considerForRetx narrow (p % 1024)
  have kept := moved.inside p low below
  rw [Kept, open_, if_neg Bool.false_ne_true] at kept
  have left : ((LteRlcAmTx.considerForRetx (p % 1024) s).txedBuffer (p % 1024)).pdu = none := by
    unfold LteRlcAmTx.considerForRetx
    cases here : (s.txedBuffer (p % 1024)).pdu with
    | none => exact here
    | some pdu =>
      show (Function.update s.txedBuffer (p % 1024) {} (p % 1024)).pdu = none
      rw [Function.update_self]
  have waits : ((LteRlcAmTx.considerForRetx (p % 1024) s).retxBuffer (p % 1024)).pdu.isSome =
      true := by
    rw [left] at kept
    exact Bool.eq_true_of_not_eq_false fun empty => kept empty.symm
  refine ⟨_, fun profile => ?_, moved, fixes⟩
  simp [LteRlcAmTx.nacked, waits]

/-- An acknowledged number has no PDU. -/
theorem Stores.acked (stores : Stores s given A S) (low : A ≤ p) (below : p < S)
    (narrow : S ≤ A + 512) : ∃ t, (∀ profile, acked profile (p % 1024) s = some t) ∧
      Stores t (Function.update given (p % 1024) true) A S ∧ Fixes s t := by
  have agree : ∀ q, A ≤ q → q < S → q ≠ p →
      Function.update given (p % 1024) true (q % 1024) = given (q % 1024) := by
    intro q lowQ belowQ apart
    exact Function.update_of_ne (by omega) _ _
  have done : Function.update given (p % 1024) true (p % 1024) = true := Function.update_self ..
  cases sent : (s.txedBuffer (p % 1024)).pdu with
  | some pdu =>
    have none_ := stores.not_retx (by rw [sent, Option.isSome_some])
    have drops (profile) : LteRlcAmTx.acked profile (p % 1024) s = some { s with
        txedBufferSize := UInt32.sub s.txedBufferSize pdu.size
        txedBuffer := Function.update s.txedBuffer (p % 1024)
          ⟨none, (s.txedBuffer (p % 1024)).retxCount⟩ } := by
      simp [LteRlcAmTx.acked, dropTxed, sent, none_, dropRetx]
    refine ⟨_, drops, stores.change low below narrow ⟨rfl, (Function.update_eq_self _ _).symm,
      size_take sent rfl, stores.small.2, rfl⟩ ?_ agree, ⟨rfl, rfl, rfl, rfl⟩⟩
    rw [Kept, done, if_pos rfl]
    exact ⟨rfl, none_⟩
  | none =>
    cases waits : (s.retxBuffer (p % 1024)).pdu with
    | some pdu =>
      have drops (profile) : LteRlcAmTx.acked profile (p % 1024) s = some { s with
          retxBufferSize := UInt32.sub s.retxBufferSize pdu.size
          retxBuffer := Function.update s.retxBuffer (p % 1024) {} } := by
        simp [LteRlcAmTx.acked, dropTxed, sent, waits, dropRetx]
      refine ⟨_, drops, stores.change low below narrow ⟨(Function.update_eq_self _ _).symm, rfl,
        ⟨stores.small.1, rfl⟩, size_take waits rfl⟩ ?_ agree, ⟨rfl, rfl, rfl, rfl⟩⟩
      rw [Kept, done, if_pos rfl]
      exact ⟨sent, rfl⟩
    | none =>
      refine ⟨s, fun profile => ?_, ?_, .refl s⟩
      · simp [LteRlcAmTx.acked, dropTxed, sent, waits, dropRetx]
      · -- acknowledged before
        refine stores.change low below narrow ⟨(Function.update_eq_self _ _).symm,
          (Function.update_eq_self _ _).symm, ⟨stores.small.1, rfl⟩, stores.small.2, rfl⟩ ?_
          agree
        rw [Kept, done, if_pos rfl]
        exact ⟨sent, waits⟩

end LteRlcAmTx

end Ns3
