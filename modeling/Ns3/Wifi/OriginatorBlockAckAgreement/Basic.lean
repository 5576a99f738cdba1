import Ns3.Wifi.BlockAckWindow

/-!
# The originator of a Block Ack agreement

`OriginatorBlockAckAgreement` keeps the transmit window: a bit for each sequence number from the
window start on, set when the MPDU with that number is acknowledged. The window start moves on to
the nearest MPDU that is not acknowledged.
-/

namespace Ns3

/-- `OriginatorBlockAckAgreement`. -/
structure OriginatorBlockAckAgreement where
  startingSeq : Nat
  bufferSize : Nat
  txWindow : BlockAckWindow := {}
  deriving DecidableEq

namespace OriginatorBlockAckAgreement

variable (profile : BuildProfile)

/-- `GetStartingSequence`. -/
def getStartingSequence (a : OriginatorBlockAckAgreement) : Nat :=
  if a.txWindow.winSize = 0 then a.startingSeq else a.txWindow.winStart

/-- `GetDistance`. -/
def getDistance (seqNumber : Nat) (a : OriginatorBlockAckAgreement) : Option Nat :=
  Ns3.getDistance profile seqNumber a.txWindow.winStart

/-- `InitTxWindow`. -/
def initTxWindow (a : OriginatorBlockAckAgreement) : OriginatorBlockAckAgreement :=
  { a with txWindow := .init a.startingSeq a.bufferSize }

/-- The rounds of the loop of `AdvanceTxWindow`. -/
def advanceTxWindowLoop : Nat → BlockAckWindow → Option BlockAckWindow
  | 0, _ => none
  | rounds + 1, w => do
      if ← w.at profile 0 then advanceTxWindowLoop rounds (w.advance 1) else some w

/-- `AdvanceTxWindow`. Each bit is reset at most once. -/
def advanceTxWindow (w : BlockAckWindow) : Option BlockAckWindow :=
  advanceTxWindowLoop profile (w.winSize + 1) w

/-- `NotifyTransmittedMpdu`. -/
def notifyTransmittedMpdu (mpduSeqNumber : Nat) (a : OriginatorBlockAckAgreement) :
    Option OriginatorBlockAckAgreement := do
  let distance := (← a.getDistance profile mpduSeqNumber) % 2 ^ 16
  if distance ≥ seqnoSpaceHalfSize then some a
  else if distance ≥ a.txWindow.winSize then
    let count := distance - a.txWindow.winSize + 1
    return { a with txWindow := ← advanceTxWindow profile (a.txWindow.advance count) }
  else some a

/-- `NotifyAckedMpdu`. -/
def notifyAckedMpdu (mpduSeqNumber : Nat) (a : OriginatorBlockAckAgreement) :
    Option OriginatorBlockAckAgreement := do
  let distance := (← a.getDistance profile mpduSeqNumber) % 2 ^ 16
  if distance ≥ seqnoSpaceHalfSize then some a
  else return { a with txWindow := ← advanceTxWindow profile (← a.txWindow.mark profile distance) }

/-- `NotifyDiscardedMpdu`. -/
def notifyDiscardedMpdu (mpduSeqNumber : Nat) (a : OriginatorBlockAckAgreement) :
    Option OriginatorBlockAckAgreement := do
  let distance := (← a.getDistance profile mpduSeqNumber) % 2 ^ 16
  if distance ≥ seqnoSpaceHalfSize then some a
  else return { a with
    txWindow := ← advanceTxWindow profile (a.txWindow.advance (distance + 1)) }

/-- The calls, each with the sequence number of its MPDU. -/
inductive Call where
  | transmitted (seq : Nat)
  | acked (seq : Nat)
  | discarded (seq : Nat)
  deriving DecidableEq

/-- The sequence number of a call. -/
def Call.seq : Call → Nat
  | .transmitted seq => seq
  | .acked seq => seq
  | .discarded seq => seq

/-- One call. -/
def step (a : OriginatorBlockAckAgreement) : Call → Option OriginatorBlockAckAgreement
  | .transmitted seq => a.notifyTransmittedMpdu profile seq
  | .acked seq => a.notifyAckedMpdu profile seq
  | .discarded seq => a.notifyDiscardedMpdu profile seq

end OriginatorBlockAckAgreement

end Ns3

/-!
## The window over the acknowledged numbers

Sequence numbers are counted on without wrapping. The window from a number on represents a set of
numbers: those acknowledged while they were in the window. Its operations move the start and add
to the set, and the window never has to be looked at bit by bit again.
-/

namespace Ns3

namespace BlockAckWindow

/-- The bits of the window from `start` on are the numbers of `acked`, none of which lies beyond
the window. -/
structure Represents (w : BlockAckWindow) (size start : Nat) (acked : List Nat) : Prop where
  valid : w.Valid
  length : w.window.length = size
  winStart : w.winStart = start % 4096
  bits : ∀ d < size, w.bit d = decide (start + d ∈ acked)
  inside : ∀ n ∈ acked, n < start + size

variable {w : BlockAckWindow} {size start count d : Nat} {acked : List Nat}

theorem Represents.pos (h : w.Represents size start acked) : 0 < size := by
  have pos := h.valid.pos
  rw [h.length] at pos
  exact pos

theorem Represents.init (pos : 0 < size) (first : start < 4096) (n : Nat) :
    (BlockAckWindow.init start size).Represents size (start + 4096 * n) [] where
  valid := init_valid first pos
  length := List.length_replicate
  winStart := by
    change start = (start + 4096 * n) % 4096
    omega
  bits d _ := by simp
  inside := nofun

theorem Represents.advance (h : w.Represents size start acked) (count : Nat) :
    (w.advance count).Represents size (start + count) acked := by
  obtain ⟨valid, length, moved, bits⟩ := advance_spec count h.valid
  refine ⟨valid, length.trans h.length, ?_, ?_, ?_⟩
  · rw [moved, h.winStart]
    omega
  · intro d inside
    rw [bits d (inside.trans_eq h.length.symm), h.length]
    by_cases within : d + count < size
    · simp only [within, decide_true, Bool.true_and, h.bits _ within, decide_eq_decide]
      rw [Nat.add_assoc, Nat.add_comm count]
    · have absent : start + count + d ∉ acked := by
        intro mem
        have bound := h.inside _ mem
        omega
      simp [within, absent]
  · intro n mem
    have bound := h.inside n mem
    omega

theorem Represents.mark (profile : BuildProfile) (h : w.Represents size start acked)
    (inside : d < size) :
    ∃ v, w.mark profile d = some v ∧ v.Represents size start ((start + d) :: acked) := by
  obtain ⟨v, marked, begins, length, head, bits⟩ :=
    mark_eq profile (inside.trans_eq h.length.symm)
  refine ⟨v, marked, ⟨?_, ?_⟩, length.trans h.length, begins.trans h.winStart, ?_, ?_⟩
  · rw [begins]
    exact h.valid.start
  · rw [head, length]
    exact h.valid.head
  · intro e within
    rw [bits e (within.trans_eq h.length.symm), h.bits e within, Bool.eq_iff_iff]
    simp
  · intro n mem
    obtain rfl | before := List.mem_cons.mp mem
    · omega
    · exact h.inside n before

theorem Represents.at (profile : BuildProfile) (h : w.Represents size start acked)
    (inside : d < size) : w.at profile d = some (decide (start + d ∈ acked)) := by
  rw [at_eq profile (inside.trans_eq h.length.symm), h.bits d inside]

end BlockAckWindow

namespace OriginatorBlockAckAgreement

open BlockAckWindow

variable {w : BlockAckWindow} {size start : Nat} {acked : List Nat}

/-- The loop ends at the nearest number that is not acknowledged. -/
theorem advanceTxWindowLoop_spec (profile : BuildProfile) {rounds bound : Nat}
    (h : w.Represents size start acked) (below : ∀ n ∈ acked, n < start + bound)
    (enough : bound < rounds) :
    ∃ v n, advanceTxWindowLoop profile rounds w = some v ∧ v.Represents size (start + n) acked ∧
      (∀ e < n, start + e ∈ acked) ∧ start + n ∉ acked := by
  induction rounds generalizing w start bound with
  | zero => cases enough
  | succ rounds ih =>
    have first := h.at profile h.pos
    by_cases mem : start ∈ acked
    · have reached := below start mem
      obtain ⟨v, n, run, later, passed, stops⟩ := @ih _ (start + 1) (bound - 1) (h.advance 1)
        (fun n mem => by have := below n mem; omega) (by omega)
      refine ⟨v, n + 1, ?_, ?_, ?_, ?_⟩
      · simp [advanceTxWindowLoop, first, mem, run]
      · rw [Nat.add_comm n, ← Nat.add_assoc]
        exact later
      · intro e inside
        cases e with
        | zero => exact mem
        | succ e =>
          have next := passed e (by omega)
          rw [Nat.add_comm e, ← Nat.add_assoc]
          exact next
      · rw [Nat.add_comm n, ← Nat.add_assoc]
        exact stops
    · refine ⟨w, 0, ?_, h, nofun, mem⟩
      simp [advanceTxWindowLoop, first, mem]

theorem advanceTxWindow_spec (profile : BuildProfile) (h : w.Represents size start acked) :
    ∃ v n, advanceTxWindow profile w = some v ∧ v.Represents size (start + n) acked ∧
      (∀ e < n, start + e ∈ acked) ∧ start + n ∉ acked :=
  advanceTxWindowLoop_spec profile h h.inside (by rw [winSize, h.length]; omega)

end OriginatorBlockAckAgreement

end Ns3
