import Ns3.Library.OrderedList
import Ns3.Lte.LteRlcUm.Sending

/-!
# The receiving side of RLC UM

`DoReceivePdu` buffers PDUs in a map and hands them to `ReassembleAndDeliver` in the order of
their sequence numbers, when the numbers before them have been received or given up. There a
state machine joins the pieces to SDUs.
-/

namespace Ns3

open Frames

/-- `ReassemblingState_t`. -/
inductive ReassemblingState where
  | none
  | waitingS0Full
  | waitingSiSf
  deriving DecidableEq

/-- The receiving side of `LteRlcUm`; `received` are the SDUs of the calls of `ReceivePdcpPdu`. -/
structure LteRlcUmRx (α : Type) where
  rxBuffer : List (Nat × RlcPdu α) := []
  vrUr : SequenceNumber10 := .ofNat 0
  vrUx : SequenceNumber10 := .ofNat 0
  vrUh : SequenceNumber10 := .ofNat 0
  reorderingTimer : Bool := false
  reassemblingState : ReassemblingState := .waitingS0Full
  keepS0 : Option (List α) := none
  sdusBuffer : List (List α) := []
  expectedSeqNumber : SequenceNumber10 := .ofNat 0
  received : List (List α) := []

/-- `PeekHeader`. -/
def RlcPdu.peekHeader {α : Type} (p : RlcPdu α) : Option LteRlcHeader :=
  (LteRlcHeader.deserialize p.header).map (·.1)

/-- `RemoveHeader`: as many bytes are removed as `Deserialize` returns. -/
def RlcPdu.removeHeader {α : Type} (p : RlcPdu α) : Option (LteRlcHeader × List α) := do
  let (h, rest) ← LteRlcHeader.deserialize p.header
  if rest = [] ∧ h.headerLength = p.header.length then return (h, p.data) else none

namespace LteRlcUm

variable {α : Type}

/-- The loop that builds the list of SDUs. -/
def splitSdus : List Nat → List Nat → List α → Option (List (List α))
  | extensionBit :: es, lis, packet =>
    if extensionBit = 0 then some [packet]
    else
      match lis with
      | [] => none
      | lengthIndicator :: lis =>
        if packet.length < lengthIndicator then none
        else (splitSdus es lis (packet.drop lengthIndicator)).map
          (packet.take lengthIndicator :: ·)
  | [], _, _ => none

/-- All SDUs of the buffer are delivered. -/
def deliverAll (s : LteRlcUmRx α) : LteRlcUmRx α :=
  { s with received := s.received ++ s.sdusBuffer, sdusBuffer := [] }

/-- All but the last are delivered, and that one is kept as S0. -/
def deliverAndKeep (s : LteRlcUmRx α) : LteRlcUmRx α :=
  { s with
    received := s.received ++ s.sdusBuffer.dropLast
    keepS0 := s.sdusBuffer.getLast?
    sdusBuffer := [] }

/-- SI or SN is discarded. -/
def discardFront (s : LteRlcUmRx α) : LteRlcUmRx α := { s with sdusBuffer := s.sdusBuffer.tail }

/-- The cases of `ReassembleAndDeliver` in which no S0 is kept, or it is discarded. -/
def reassembleWithoutS0 (framingInfo : Nat) (s : LteRlcUmRx α) : LteRlcUmRx α :=
  match framingInfo with
  | 0 => deliverAll { s with reassemblingState := .waitingS0Full }
  | 1 => deliverAndKeep { s with reassemblingState := .waitingSiSf }
  | 2 => deliverAll (discardFront { s with reassemblingState := .waitingS0Full })
  | 3 =>
    let s := { s with
      reassemblingState := if s.sdusBuffer.length = 1 then .waitingS0Full else .waitingSiSf }
    let s := discardFront s
    if s.sdusBuffer = [] then s else deliverAndKeep s
  | _ => s

/-- The front of the buffer is added to the kept S0, which is delivered. -/
def deliverS0 (s : LteRlcUmRx α) : Option (LteRlcUmRx α) := do
  let s0 ← s.keepS0
  let front ← s.sdusBuffer.head?
  return { s with
    keepS0 := some (s0 ++ front)
    sdusBuffer := s.sdusBuffer.tail
    received := s.received ++ [s0 ++ front] }

/-- The cases of `ReassembleAndDeliver` in which S0 is continued. -/
def reassembleWithS0 (framingInfo : Nat) (s : LteRlcUmRx α) : Option (LteRlcUmRx α) :=
  match framingInfo with
  | 2 => (deliverS0 { s with reassemblingState := .waitingS0Full }).map deliverAll
  | 3 =>
    if s.sdusBuffer.length = 1 then do
      let s0 ← s.keepS0
      let front ← s.sdusBuffer.head?
      return { s with
        keepS0 := some (s0 ++ front), sdusBuffer := s.sdusBuffer.tail
        reassemblingState := .waitingSiSf }
    else (deliverS0 { s with reassemblingState := .waitingSiSf }).map deliverAndKeep
  | _ => some s

/-- `ReassembleAndDeliver`. -/
def reassembleAndDeliver (packet : RlcPdu α) (s : LteRlcUmRx α) : Option (LteRlcUmRx α) := do
  let (rlcHeader, data) ← packet.removeHeader
  let currSeqNumber := rlcHeader.sequenceNumber
  let expectedSnLost : Bool := currSeqNumber.value ≠ s.expectedSeqNumber.value
  let sdus ← splitSdus rlcHeader.extensionBits rlcHeader.lengthIndicators data
  let s := { s with
    expectedSeqNumber := if expectedSnLost then currSeqNumber.add 1 else s.expectedSeqNumber.incr
    sdusBuffer := s.sdusBuffer ++ sdus }
  match s.reassemblingState with
  | .none => return s
  | .waitingS0Full => return reassembleWithoutS0 rlcHeader.framingInfo s
  | .waitingSiSf =>
    if expectedSnLost then
      return reassembleWithoutS0 rlcHeader.framingInfo { s with keepS0 := none }
    else reassembleWithS0 rlcHeader.framingInfo s

/-- `m_windowSize`. -/
def windowSize : Nat := 512

/-- `m_vrUh.SetModulusBase (m_vrUh - m_windowSize)`. -/
def rebaseVrUh (s : LteRlcUmRx α) : LteRlcUmRx α :=
  { s with vrUh := s.vrUh.setModulusBase (s.vrUh.sub windowSize) }

/-- What `IsInsideReorderingWindow` returns; it also rebases VR(UH). -/
def isInsideReorderingWindow (vrUh seqNumber : SequenceNumber10) : Bool :=
  let base := vrUh.sub windowSize
  let vrUh := vrUh.setModulusBase base
  let seqNumber := seqNumber.setModulusBase base
  (vrUh.sub windowSize).le seqNumber && seqNumber.lt vrUh

/-- The loop of `ReassembleOutsideWindow` from an entry of the map on. -/
def reassembleOutsideLoop : List (Nat × RlcPdu α) → LteRlcUmRx α → Option (LteRlcUmRx α)
  | [], s => some s
  | (sn, packet) :: rest, s =>
    let s := rebaseVrUh s
    if isInsideReorderingWindow s.vrUh (.ofNat sn) then some s
    else do
      let s ← reassembleAndDeliver packet s
      reassembleOutsideLoop rest { s with rxBuffer := rest }

/-- `ReassembleOutsideWindow`. -/
def reassembleOutsideWindow (s : LteRlcUmRx α) : Option (LteRlcUmRx α) :=
  reassembleOutsideLoop s.rxBuffer s

/-- The PDU at a key of the map. -/
def find (sn : Nat) (rxBuffer : List (Nat × RlcPdu α)) : Option (RlcPdu α) :=
  (rxBuffer.find? fun entry => entry.1 = sn).map (·.2)

/-- The loop of `ReassembleSnInterval`; a number comes again after 1024 rounds. -/
def reassembleSnLoop : Nat → SequenceNumber10 → SequenceNumber10 → LteRlcUmRx α →
    Option (LteRlcUmRx α)
  | 0, _, _, _ => none
  | rounds + 1, reassembleSn, highSeqNumber, s =>
    if reassembleSn.lt highSeqNumber then
      match find reassembleSn.value s.rxBuffer with
      | some packet => do
          let s ← reassembleAndDeliver packet s
          reassembleSnLoop rounds reassembleSn.incr highSeqNumber
            { s with rxBuffer := OrderedList.erase reassembleSn.value s.rxBuffer }
      | none => reassembleSnLoop rounds reassembleSn.incr highSeqNumber s
    else some s

/-- `ReassembleSnInterval`. -/
def reassembleSnInterval (lowSeqNumber highSeqNumber : SequenceNumber10) (s : LteRlcUmRx α) :
    Option (LteRlcUmRx α) :=
  reassembleSnLoop 1025 lowSeqNumber highSeqNumber s

/-- The loop in `DoReceivePdu` over the numbers that have been received; it does not wrap around,
and ends at the latest at 1024, which no entry has. -/
def nextMissing : Nat → Nat → List (Nat × RlcPdu α) → Option Nat
  | 0, _, _ => none
  | rounds + 1, newVrUr, rxBuffer =>
    if (find newVrUr rxBuffer).isSome then nextMissing rounds
      (newVrUr + 1) rxBuffer else some newVrUr

/-- The same loop in `ExpireReorderingTimer`, which does wrap around. -/
def nextMissingFrom : Nat → SequenceNumber10 → List (Nat × RlcPdu α) → Option SequenceNumber10
  | 0, _, _ => none
  | rounds + 1, newVrUr, rxBuffer =>
    if (find newVrUr.value rxBuffer).isSome then nextMissingFrom rounds newVrUr.incr rxBuffer
    else some newVrUr

/-- `m_rxBuffer[sn] = p`. -/
def store (sn : Nat) (p : RlcPdu α) (rxBuffer : List (Nat × RlcPdu α)) : List (Nat × RlcPdu α) :=
  OrderedList.set (fun a b : Nat => a < b) sn p rxBuffer

/-- The window moves: what falls outside is delivered. -/
def moveWindow (seqNumber : SequenceNumber10) (s : LteRlcUmRx α) : Option (LteRlcUmRx α) := do
  let s ← reassembleOutsideWindow { s with vrUh := seqNumber.add 1 }
  let s := rebaseVrUh s
  if isInsideReorderingWindow s.vrUh s.vrUr then return s
  else return { s with vrUr := s.vrUh.sub windowSize }

/-- What has been received from VR(UR) on is delivered. -/
def deliverFromVrUr (s : LteRlcUmRx α) : Option (LteRlcUmRx α) :=
  if (find s.vrUr.value s.rxBuffer).isSome then do
    let newVrUr ← nextMissing 1024 (s.vrUr.value + 1) s.rxBuffer
    let oldVrUr := s.vrUr
    let s := { s with vrUr := s.vrUr.assign newVrUr }
    reassembleSnInterval oldVrUr s.vrUr s
  else some s

/-- The t-Reordering timer is stopped and started. -/
def updateTimer (s : LteRlcUmRx α) : LteRlcUmRx α :=
  let base := s.vrUh.sub windowSize
  let s := { s with
    vrUr := s.vrUr.setModulusBase base
    vrUx := s.vrUx.setModulusBase base
    vrUh := s.vrUh.setModulusBase base }
  let s :=
    if s.reorderingTimer && (s.vrUx.le s.vrUr ||
      (!isInsideReorderingWindow s.vrUh s.vrUx && s.vrUx.value ≠ s.vrUh.value)) then
      { s with reorderingTimer := false }
    else s
  if !s.reorderingTimer && s.vrUh.gt s.vrUr then { s with reorderingTimer := true, vrUx := s.vrUh }
  else s

/-- `DoReceivePdu`. -/
def doReceivePdu (p : RlcPdu α) (s : LteRlcUmRx α) : Option (LteRlcUmRx α) := do
  let rlcHeader ← p.peekHeader
  let base := s.vrUh.sub windowSize
  let s := { s with vrUr := s.vrUr.setModulusBase base, vrUh := s.vrUh.setModulusBase base }
  let seqNumber := rlcHeader.sequenceNumber.setModulusBase base
  if (s.vrUr.lt seqNumber && seqNumber.lt s.vrUh && (find seqNumber.value s.rxBuffer).isSome) ||
      ((s.vrUh.sub windowSize).le seqNumber && seqNumber.lt s.vrUr) then
    return s
  else
    let s := { s with rxBuffer := store seqNumber.value p s.rxBuffer }
    let s := rebaseVrUh s
    let s ← if isInsideReorderingWindow s.vrUh seqNumber then some s else moveWindow seqNumber s
    let s ← deliverFromVrUr s
    return updateTimer s

/-- `ExpireReorderingTimer`. -/
def expireReorderingTimer (s : LteRlcUmRx α) : Option (LteRlcUmRx α) := do
  let newVrUr ← nextMissingFrom 1025 s.vrUx s.rxBuffer
  let oldVrUr := s.vrUr
  let s := { s with vrUr := newVrUr }
  let s ← reassembleSnInterval oldVrUr s.vrUr s
  if s.vrUh.gt s.vrUr then return { s with reorderingTimer := true, vrUx := s.vrUh }
  else return { s with reorderingTimer := false }

end LteRlcUm

end Ns3

/-!
## Reassembly

`ReassembleAndDeliver` does with the PDU of a frame what a receiver of the stream does with the
frame: it keeps the open SDU only when the sequence number is the expected one.
-/

namespace Ns3

open Frames

namespace LteRlcUm

variable {α : Type} {f : Frame α} {s t : LteRlcUmRx α} {n : Nat}

/-! ## The header and the pieces -/

theorem deserialize_pduOf (fits : Fits f) (n : Nat) :
    LteRlcHeader.deserialize (pduOf n f).header =
        some (LteRlcHeader.formed (framing f) ⟨n % 1024, 0⟩ (lengthIndicators f), []) ∧
      (pduOf n f).header.length = 2 + LteRlcHeader.liBytes f.tail.length := by
  have short := fits.short
  rw [← lengthIndicators_length] at short
  obtain ⟨bytes, written, read⟩ := LteRlcHeader.deserialize_serialize 0 (framing_lt f)
    (Nat.mod_lt n (by decide : 0 < 1024)) fits.small short
  obtain ⟨bytes', written', length⟩ :=
    LteRlcHeader.serialize_formed (framing f) ⟨n % 1024, 0⟩ (lengthIndicators f)
  obtain rfl := Option.some.inj (written.symm.trans written')
  rw [pduOf, written, Option.getD_some]
  exact ⟨read, by rw [length, lengthIndicators_length]⟩

theorem peekHeader_pduOf (fits : Fits f) (n : Nat) : (pduOf n f).peekHeader =
    some (LteRlcHeader.formed (framing f) ⟨n % 1024, 0⟩ (lengthIndicators f)) := by
  rw [RlcPdu.peekHeader, (deserialize_pduOf fits n).1]
  rfl

theorem removeHeader_pduOf (fits : Fits f) (n : Nat) : (pduOf n f).removeHeader =
    some (LteRlcHeader.formed (framing f) ⟨n % 1024, 0⟩ (lengthIndicators f),
      f.pieces.flatten) := by
  obtain ⟨read, length⟩ := deserialize_pduOf fits n
  rw [RlcPdu.removeHeader, read]
  simp only [some_bind, length, LteRlcHeader.formed, lengthIndicators_length, and_self, if_true]
  rfl

theorem splitSdus_flatten (piece : List α) (pieces : List (List α)) :
    splitSdus (List.replicate pieces.length 1 ++ [0]) ((piece :: pieces).dropLast.map (·.length))
      (piece :: pieces).flatten = some (piece :: pieces) := by
  induction pieces generalizing piece with
  | nil => simp [splitSdus]
  | cons piece' pieces ih =>
    rw [List.length_cons, List.replicate_succ, List.cons_append,
      List.dropLast_cons_of_ne_nil (List.cons_ne_nil _ _), List.map_cons, splitSdus]
    rw [if_neg Nat.one_ne_zero, List.flatten_cons]
    simp only [List.length_append, List.drop_left, List.take_left, ih, Option.map_some]
    rw [if_neg (by omega)]

theorem splitSdus_pduOf (f : Frame α) :
    splitSdus (LteRlcHeader.marks (0 :: lengthIndicators f)) (lengthIndicators f) f.pieces.flatten =
      some f.pieces := by
  rw [LteRlcHeader.marks_cons, lengthIndicators_length]
  exact splitSdus_flatten f.head f.tail

/-! ## The state machine -/

/-- The state of the machine when it keeps the open SDU, or nothing. -/
def stateOf (kept : Option (List α)) : ReassemblingState :=
  if kept.isSome then .waitingSiSf else .waitingS0Full

/-- The machine keeps the open SDU, or nothing, and has delivered some more SDUs. -/
def Delivers (kept : Option (List α)) (delivered : List (List α)) (s t : LteRlcUmRx α) : Prop :=
  ∃ keepS0, (∀ message, kept = some message → keepS0 = some message) ∧
    t = { s with
      reassemblingState := stateOf kept, keepS0, sdusBuffer := []
      received := s.received ++ delivered }

theorem framing_eq (f : Frame α) : framing f =
    match f.first, f.last with
    | true, true => 0
    | true, false => 1
    | false, true => 2
    | false, false => 3 := by
  rw [framing]
  cases f.first <;> cases f.last <;> rfl

theorem reassembleWithoutS0_spec (buffer : s.sdusBuffer = f.pieces) :
    Delivers (f.accept none).2 (f.accept none).1 s (reassembleWithoutS0 (framing f) s) := by
  rw [framing_eq]
  obtain ⟨head, tail, first, last⟩ := f
  cases first with
  | true =>
    cases last with
    | true =>
      refine ⟨s.keepS0, fun _ same => absurd same (Option.some_ne_none _).symm, ?_⟩
      simp only [reassembleWithoutS0, deliverAll, buffer]
      rfl
    | false =>
      refine ⟨(head :: tail).getLast?, fun _ same => same, ?_⟩
      have kept : ((head :: tail).getLast?).isSome = true := by simp
      simp [reassembleWithoutS0, deliverAndKeep, buffer, stateOf, Frame.accept, Frame.ended,
        Frame.opened, Frame.whole, Frame.pieces, kept]
  | false =>
    cases last with
    | true =>
      refine ⟨s.keepS0, fun _ same => absurd same (Option.some_ne_none _).symm, ?_⟩
      simp only [reassembleWithoutS0, deliverAll, discardFront, buffer]
      rfl
    | false =>
      cases tail with
      | nil =>
        refine ⟨s.keepS0, fun _ same => absurd same (Option.some_ne_none _).symm, ?_⟩
        simp [reassembleWithoutS0, discardFront, buffer, Frame.pieces, stateOf, Frame.accept,
          Frame.endedLater, Frame.openedLater]
      | cons piece tail =>
        refine ⟨(piece :: tail).getLast?, fun _ same => same, ?_⟩
        simp [reassembleWithoutS0, discardFront, deliverAndKeep, buffer, Frame.pieces,
          stateOf,
          Frame.accept, Frame.endedLater, Frame.openedLater]

theorem reassembleWithS0_spec (buffer : s.sdusBuffer = f.pieces) {message : List α}
    (s0 : s.keepS0 = some message) (later : f.first = false) :
    ∃ t, reassembleWithS0 (framing f) s = some t ∧
      Delivers (f.accept (some message)).2 (f.accept (some message)).1 s t := by
  rw [framing_eq]
  obtain ⟨head, tail, first, last⟩ := f
  subst later
  cases last with
  | true =>
    refine ⟨_, ?_, some (message ++ head), nofun, rfl⟩
    simp [reassembleWithS0, deliverS0, deliverAll, s0, buffer, Frame.pieces, stateOf,
      Frame.accept,
      Frame.ended, Frame.opened, Frame.whole]
  | false =>
    refine ⟨_, ?_, ((message ++ head) :: tail).getLast?, fun _ same => same, rfl⟩
    cases tail with
    | nil =>
      simp [reassembleWithS0, s0, buffer, Frame.pieces, stateOf, Frame.accept, Frame.ended,
        Frame.opened, Frame.whole]
    | cons piece tail =>
      simp [reassembleWithS0, deliverS0, deliverAndKeep, s0, buffer, Frame.pieces, stateOf,
        Frame.accept, Frame.ended, Frame.opened, Frame.whole]

/-- What `ReassembleAndDeliver` finds: the machine keeps the open SDU or nothing, and expects the
number `expected`. -/
structure Expects (kept : Option (List α)) (expected : Nat) (s : LteRlcUmRx α) : Prop where
  state : s.reassemblingState = stateOf kept
  s0 : ∀ message, kept = some message → s.keepS0 = some message
  empty : s.sdusBuffer = []
  number : s.expectedSeqNumber.value = expected % 1024

/-- What the state of reassembly does with the pieces of a PDU, which is the expected one or not. -/
def reassembleIn (framingInfo : Nat) (expected : Bool) (m : LteRlcUmRx α) : Option (LteRlcUmRx α) :=
  match m.reassemblingState with
  | .none => some m
  | .waitingS0Full => some (reassembleWithoutS0 framingInfo m)
  | .waitingSiSf =>
    if expected then reassembleWithS0 framingInfo m
    else some (reassembleWithoutS0 framingInfo { m with keepS0 := none })

/-- `ReassembleAndDeliver` with the PDU of a frame. -/
theorem reassembleAndDeliver_spec (fits : Fits f) {kept : Option (List α)} {expected : Nat}
    (h : Expects kept expected s) (ahead : expected ≤ n) (near : n < expected + 1024)
    (later : n = expected → ∀ message, kept = some message → f.first = false) :
    ∃ t, reassembleAndDeliver (pduOf n f) s = some t ∧
      Expects (f.accept (if n = expected then kept else none)).2 (n + 1) t ∧
      t.received = s.received ++ (f.accept (if n = expected then kept else none)).1 ∧
      t.rxBuffer = s.rxBuffer ∧ t.vrUr = s.vrUr ∧ t.vrUx = s.vrUx ∧ t.vrUh = s.vrUh ∧
      t.reorderingTimer = s.reorderingTimer := by
  have lost : (n % 1024 = s.expectedSeqNumber.value) ↔ n = expected := by
    rw [h.number]
    omega
  -- the record after the expected number and the pieces have been stored
  let m : LteRlcUmRx α := { s with
    expectedSeqNumber := if n % 1024 = s.expectedSeqNumber.value then s.expectedSeqNumber.incr
      else (⟨n % 1024, 0⟩ : SequenceNumber10).add 1
    sdusBuffer := f.pieces }
  have number : m.expectedSeqNumber.value = (n + 1) % 1024 := by
    simp only [m]
    split
    case isTrue same => simp only [SequenceNumber10.incr]; omega
    case isFalse => simp only [SequenceNumber10.add]; omega
  have done {k : Option (List α)} {d : List (List α)} {m' t : LteRlcUmRx α}
      (start : m' = { m with keepS0 := m'.keepS0, reassemblingState := m'.reassemblingState })
      (delivers : Delivers k d m' t) :
      Expects k (n + 1) t ∧ t.received = s.received ++ d ∧ t.rxBuffer = s.rxBuffer ∧
        t.vrUr = s.vrUr ∧
        t.vrUx = s.vrUx ∧ t.vrUh = s.vrUh ∧ t.reorderingTimer = s.reorderingTimer := by
    obtain ⟨keepS0, keeps, rfl⟩ := delivers
    rw [start]
    exact ⟨⟨rfl, keeps, rfl, number⟩, rfl, rfl, rfl, rfl, rfl, rfl⟩
  have state : m.reassemblingState = stateOf kept := h.state
  have called : reassembleAndDeliver (pduOf n f) s =
      reassembleIn (framing f) (n % 1024 = s.expectedSeqNumber.value) m := by
    rw [reassembleAndDeliver, removeHeader_pduOf fits]
    simp only [some_bind, LteRlcHeader.formed, splitSdus_pduOf, h.empty, List.nil_append, m, ne_eq,
      decide_not, Bool.not_eq_true', decide_eq_false_iff_not, ite_not, reassembleIn,
      decide_eq_true_eq]
    rfl
  rw [called, reassembleIn, state]
  simp only [← lost, decide_eq_true_eq] at later ⊢
  cases kept with
  | none =>
    have delivers := @reassembleWithoutS0_spec α f m rfl
    refine ⟨_, rfl, ?_⟩
    rw [ite_self]
    exact done rfl delivers
  | some message =>
    by_cases same : n % 1024 = s.expectedSeqNumber.value
    · obtain ⟨t, returns, delivers⟩ :=
        @reassembleWithS0_spec α f m rfl message (h.s0 message rfl) (later same message rfl)
      simp only [if_pos same]
      exact ⟨t, returns, done rfl delivers⟩
    · simp only [if_neg same]
      exact ⟨_, rfl, done rfl (reassembleWithoutS0_spec rfl)⟩

end LteRlcUm

end Ns3
