import Ns3.Lte.LteRlcAm.Buffers

/-!
# The transmission buffers partition the window

The calls of the transmitting side keep the window between VT(A) and VT(S), and what the two
buffers hold for it. No comparison finds two bases that differ, and none of the assertions fails.
-/

namespace Ns3.LteRlcAmTx

open SequenceNumber10
  (less lessEq greaterEq from_ less_from lessEq_from greaterEq_from incr_from add_from from_value
  from_modulusBase setModulusBase_from)
open LteRlcUm (AtFront Takes fillDataField)

variable {α : Type} {s t : LteRlcAmTx α} {given : Nat → Bool} {A S p q n K : Nat}

/-! ## The window -/

/-- The state variables stand at these positions. -/
structure Numbers (s : LteRlcAmTx α) (A S : Nat) : Prop where
  vtA : s.vtA = from_ A A
  vtS : s.vtS = from_ A S
  vtMs : s.vtMs = from_ A (A + 512)
  low : A ≤ S
  window : S ≤ A + 512

theorem Numbers.fixes (numbers : Numbers s A S) (fixes : Fixes s t) : Numbers t A S :=
  ⟨fixes.vtA.trans numbers.vtA, fixes.vtS.trans numbers.vtS, fixes.vtMs.trans numbers.vtMs,
    numbers.low, numbers.window⟩

theorem Numbers.setBases (numbers : Numbers s A S) : setBases s = s := by
  have vtA : s.vtA.setModulusBase s.vtA = s.vtA := by
    rw [numbers.vtA]
    exact setModulusBase_from rfl rfl
  have vtS : s.vtS.setModulusBase s.vtA = s.vtS := by
    rw [numbers.vtA, numbers.vtS]
    exact setModulusBase_from rfl rfl
  have vtMs : s.vtMs.setModulusBase s.vtA = s.vtMs := by
    rw [numbers.vtA, numbers.vtMs]
    exact setModulusBase_from rfl rfl
  rw [LteRlcAmTx.setBases, vtA, vtS, vtMs]

theorem Numbers.raiseVtA (numbers : Numbers s A S) (below : A < S) :
    Numbers (raiseVtA s) (A + 1) S := by
  have vtA : s.vtA.incr = from_ A (A + 1) := by rw [numbers.vtA, incr_from]
  have window := numbers.window
  refine ⟨?_, ?_, ?_, below, by omega⟩
  · show s.vtA.incr.setModulusBase s.vtA.incr = _
    rw [vtA]
    exact setModulusBase_from rfl rfl
  · show s.vtS.setModulusBase (s.vtA.incr.setModulusBase s.vtA.incr) = _
    rw [vtA, numbers.vtS]
    exact setModulusBase_from rfl rfl
  · show (s.vtA.incr.add 512).setModulusBase (s.vtA.incr.setModulusBase s.vtA.incr) = _
    rw [vtA, add_from]
    exact setModulusBase_from rfl rfl

/-! ## STATUS PDUs -/

theorem isNackPresent_eq {h : LteRlcAmHeader} (status : h.isStatusPdu = true)
    (profile : BuildProfile) (sn : SequenceNumber10) :
    h.isNackPresent profile sn = some (decide (sn.value ∈ h.nackSnList)) := by
  have same : (h.nackSnList.any fun nackIt => nackIt == sn.value) =
      decide (sn.value ∈ h.nackSnList) := by
    rw [Bool.eq_iff_iff, decide_eq_true_eq, List.any_eq_true]
    constructor
    · rintro ⟨nackIt, mem, same⟩
      exact beq_iff_eq.mp same ▸ mem
    · intro mem
      exact ⟨_, mem, beq_self_eq_true _⟩
  simp [LteRlcAmHeader.isNackPresent, status, same]

theorem stopTimer_fixes (sn : Nat) (s : LteRlcAmTx α) : Fixes s (stopTimer sn s) := by
  unfold stopTimer
  split <;> exact ⟨rfl, rfl, rfl, rfl⟩

theorem Stores.stopTimer (stores : Stores s given A S) (sn : Nat) :
    Stores (stopTimer sn s) given A S := by
  unfold LteRlcAmTx.stopTimer
  split
  · exact stores.same rfl rfl rfl rfl
  · exact stores

theorem Fixes.trans {u : LteRlcAmTx α} (first : Fixes s t) (second : Fixes t u) : Fixes s u :=
  ⟨second.vtA.trans first.vtA, second.vtS.trans first.vtS, second.vtMs.trans first.vtMs,
    second.txonBuffer.trans first.txonBuffer⟩

/-- What a STATUS PDU that acknowledges the positions from `p` up to `K` does. -/
def Reports (s t : LteRlcAmTx α) (given : Nat → Bool) (nackSnList : List Nat) (A S p K : Nat) :
    Prop :=
  ∃ A' given', A ≤ A' ∧ Numbers t A' S ∧ Stores t given' A' S ∧ t.txonBuffer = s.txonBuffer ∧
    ∀ q, A' ≤ q → q < S → given' (q % 1024) =
      (given (q % 1024) || decide (p ≤ q ∧ q < K ∧ q % 1024 ∉ nackSnList))

/-- One number of the report, then the others. -/
theorem Reports.cons {m : LteRlcAmTx α} {given' : Nat → Bool} {nackSnList : List Nat}
    {A' : Nat} (low : A ≤ A') (below : p < K) (narrow : S ≤ A + 512)
    (here : given' = if p % 1024 ∈ nackSnList then given else Function.update given (p % 1024) true)
    (inside : A ≤ p) (belowS : p < S)
    (same : m.txonBuffer = s.txonBuffer) (rest : Reports m t given' nackSnList A' S (p + 1) K) :
    Reports s t given nackSnList A S p K := by
  obtain ⟨A'', given'', later, numbers, stores, waits, each⟩ := rest
  refine ⟨A'', given'', low.trans later, numbers, stores, waits.trans same, fun q lowQ belowQ => ?_⟩
  rw [each q lowQ belowQ, here]
  by_cases at_ : q = p
  · subst at_
    split
    case isTrue nack => simp [nack]
    case isFalse nack => simp [nack, below]
  · have further : p + 1 ≤ q ↔ p ≤ q := by omega
    rw [decide_eq_decide.mpr (and_congr_left' further)]
    split
    case isTrue => rfl
    case isFalse => rw [Function.update_of_ne (by omega)]

theorem statusLoop_spec {h : LteRlcAmHeader} (status : h.isStatusPdu = true) (rounds : Nat) :
    ∀ (s : LteRlcAmTx α) (given : Nat → Bool) (A p : Nat) (incrementVtA : Bool),
    Numbers s A S → Stores s given A S → A ≤ p → p ≤ S → (incrementVtA = true → p = A) →
    p ≤ K → K < A + 1024 → S < p + rounds →
    (∀ q, p ≤ q → q < S → q % 1024 ∈ h.nackSnList → given (q % 1024) = false) →
    ∃ t, (∀ profile, statusLoop profile h rounds (from_ A p) (from_ A K) incrementVtA s = some t) ∧
      Reports s t given h.nackSnList A S p K := by
  induction rounds with
  | zero =>
    intro s given A p incrementVtA _ _ _ high _ _ _ enough
    omega
  | succ rounds ih =>
    intro s given A p incrementVtA numbers stores low high atA lowK nearK enough nacks
    have window := numbers.window
    by_cases ends : K ≤ p ∨ S ≤ p
    · -- the loop is over
      refine ⟨s, fun profile => ?_, A, given, Nat.le_refl A, numbers, stores, rfl, ?_⟩
      · rw [statusLoop, less_from low (by omega) (by omega) nearK, numbers.vtS,
          less_from low (by omega) numbers.low (by omega)]
        obtain past | past := ends
        · simp [Nat.not_lt.mpr past]
        · simp [Nat.not_lt.mpr past]
      · intro q lowQ belowQ
        have none_ : ¬ (p ≤ q ∧ q < K ∧ q % 1024 ∉ h.nackSnList) := by omega
        rw [decide_eq_false none_, Bool.or_false]
    · obtain ⟨belowK, belowS⟩ := not_or.mp ends
      rw [Nat.not_le] at belowK belowS
      have reads (profile) : h.isNackPresent profile (from_ A p) =
          some (decide (p % 1024 ∈ h.nackSnList)) := isNackPresent_eq status profile _
      have stopped := stores.stopTimer (p % 1024)
      have fixed := stopTimer_fixes (p % 1024) s
      have begins (profile) : statusLoop profile h (rounds + 1) (from_ A p) (from_ A K)
          incrementVtA s = (do
            let nack ← some (decide (p % 1024 ∈ h.nackSnList))
            let s ← if nack then nacked profile (p % 1024) (stopTimer (p % 1024) s)
              else acked profile (p % 1024) (stopTimer (p % 1024) s)
            if incrementVtA && !nack then
              let s := LteRlcAmTx.raiseVtA s
              statusLoop profile h rounds ((from_ A p).setModulusBase s.vtA).incr
                ((from_ A K).setModulusBase s.vtA) true s
            else statusLoop profile h rounds (from_ A p).incr (from_ A K) false s) := by
        rw [statusLoop, less_from low (by omega) (by omega) nearK, numbers.vtS,
          less_from low (by omega) numbers.low (by omega), reads]
        simp [belowK, belowS]
      by_cases nack : p % 1024 ∈ h.nackSnList
      · obtain ⟨m, moves, stores', fixes⟩ :=
          stopped.nacked low belowS window (nacks p (Nat.le_refl p) belowS nack)
        have numbers' := (numbers.fixes fixed).fixes fixes
        obtain ⟨t, returns, rest⟩ := ih m given A (p + 1) false numbers' stores' (by omega)
          belowS nofun belowK nearK (by omega)
          fun q lowQ belowQ => nacks q (by omega) belowQ
        refine ⟨t, fun profile => ?_, Reports.cons (Nat.le_refl A) belowK window
          (if_pos nack).symm
          low belowS (fixed.trans fixes).txonBuffer rest⟩
        rw [begins]
        simp only [nack, decide_true, some_bind, if_true, moves, Bool.not_true, Bool.and_false,
          Bool.false_eq_true, if_false, incr_from]
        exact returns profile
      · obtain ⟨m, drops, stores', fixes⟩ := stopped.acked low belowS window
        have numbers' := (numbers.fixes fixed).fixes fixes
        have nacks' : ∀ q, p + 1 ≤ q → q < S → q % 1024 ∈ h.nackSnList →
            Function.update given (p % 1024) true (q % 1024) = false := by
          intro q lowQ belowQ mem
          rw [Function.update_of_ne (by omega)]
          exact nacks q (by omega) belowQ mem
        cases incrementVtA with
        | true =>
          -- VT(A) has reached the number, and passes it
          obtain rfl := atA rfl
          have raised := numbers'.raiseVtA belowS
          have storesR : Stores (LteRlcAmTx.raiseVtA m)
              (Function.update given (p % 1024) true) (p + 1) S :=
            (stores'.raise belowS (Function.update_self ..)).same rfl rfl rfl rfl
          obtain ⟨t, returns, rest⟩ := ih (LteRlcAmTx.raiseVtA m) _ (p + 1) (p + 1) true raised
            storesR le_rfl belowS (fun _ => rfl) belowK (by omega) (by omega) nacks'
          refine ⟨t, fun profile => ?_, Reports.cons (Nat.le_succ p) belowK window
            (if_neg nack).symm low belowS (fixed.trans fixes).txonBuffer rest⟩
          have sn : ((from_ p p).setModulusBase (LteRlcAmTx.raiseVtA m).vtA).incr =
              from_ (p + 1) (p + 1) := by
            rw [raised.vtA, setModulusBase_from (from_value _ _) (from_value p p), incr_from]
          have ackSn : (from_ p K).setModulusBase (LteRlcAmTx.raiseVtA m).vtA =
              from_ (p + 1) K := by
            rw [raised.vtA]
            exact setModulusBase_from (from_value _ _) (from_value p K)
          rw [begins]
          simp only [nack, decide_false, some_bind, if_true, drops, Bool.not_false,
            Bool.and_true, Bool.false_eq_true, if_false, sn, ackSn]
          exact returns profile
        | false =>
          obtain ⟨t, returns, rest⟩ := ih m _ A (p + 1) false numbers' stores' (by omega)
            belowS nofun belowK nearK (by omega) nacks'
          refine ⟨t, fun profile => ?_, Reports.cons (Nat.le_refl A) belowK window
            (if_neg nack).symm low belowS (fixed.trans fixes).txonBuffer rest⟩
          rw [begins]
          simp only [nack, decide_false, some_bind, drops, Bool.false_and, Bool.false_eq_true,
            if_false, incr_from]
          exact returns profile

theorem receiveStatus_spec {ackSn : Nat} {nackSnList : List Nat} (numbers : Numbers s A S)
    (stores : Stores s given A S) (low : A ≤ K) (near : K < A + 1024)
    (value : ackSn % 1024 = K % 1024)
    (nacks : ∀ q, A ≤ q → q < S → q % 1024 ∈ nackSnList → given (q % 1024) = false) :
    ∃ t, (∀ profile, doReceivePdu profile (statusHeader ackSn nackSnList) s = some t) ∧
      Reports s t given nackSnList A S A K := by
  have window := numbers.window
  have ackSn' : (SequenceNumber10.ofNat ackSn).setModulusBase s.vtA = from_ A K := by
    rw [numbers.vtA]
    exact setModulusBase_from (from_value A A) value
  obtain ⟨t, returns, reports⟩ := statusLoop_spec (h := statusHeader ackSn nackSnList) rfl 1024 s
    given A A true numbers stores (Nat.le_refl A) numbers.low (fun _ => rfl) low near
      (by omega) nacks
  refine ⟨t, fun profile => ?_, reports⟩
  rw [doReceivePdu, numbers.setBases]
  show statusLoop profile (statusHeader ackSn nackSnList) 1024 s.vtA
    ((SequenceNumber10.ofNat ackSn).setModulusBase s.vtA) true s = some t
  rw [ackSn', numbers.vtA]
  exact returns profile

/-! ## `ExpirePollRetransmitTimer` -/

theorem retxLoop_spec (rounds : Nat) : ∀ (s : LteRlcAmTx α) (p : Nat), Numbers s A S →
    Stores s given A S → A ≤ p → p ≤ S → S < p + rounds →
    ∃ t, (∀ profile, retxLoop profile rounds (from_ A p) s = some t) ∧ Stores t given A S ∧
      Fixes s t := by
  induction rounds with
  | zero =>
    intro s p _ _ _ high enough
    omega
  | succ rounds ih =>
    intro s p numbers stores low high enough
    have window := numbers.window
    have begins (profile) : retxLoop profile (rounds + 1) (from_ A p) s =
        if p < S then retxLoop profile rounds (from_ A (p + 1)) (considerForRetx (p % 1024) s)
        else some s := by
      rw [retxLoop, numbers.vtS, less_from low (by omega) numbers.low (by omega)]
      simp
    by_cases below : p < S
    · obtain ⟨moved, fixes⟩ := stores.considerForRetx window (p % 1024)
      obtain ⟨t, returns, kept, fixed⟩ := ih _ (p + 1) (numbers.fixes fixes) moved
        (by omega) below
        (by omega)
      refine ⟨t, fun profile => ?_, kept, fixes.trans fixed⟩
      rw [begins, if_pos below]
      exact returns profile
    · exact ⟨s, fun profile => by rw [begins, if_neg below], stores, .refl s⟩

theorem expirePollRetransmitTimer_spec (numbers : Numbers s A S) (stores : Stores s given A S) :
    ∃ t, (∀ profile, expirePollRetransmitTimer profile s = some t) ∧ Stores t given A S ∧
      Fixes s t := by
  have window := numbers.window
  have fixes : Fixes s { s with
      pollRetransmitTimer := false, pollRetransmitTimerJustExpired := true } := ⟨rfl, rfl, rfl, rfl⟩
  have numbers' := numbers.fixes fixes
  have stores' : Stores { s with
      pollRetransmitTimer := false, pollRetransmitTimerJustExpired := true } given A S :=
    stores.same rfl rfl rfl rfl
  have notAbove (profile) : lessEq profile s.vtS s.vtMs = some true := by
    rw [numbers.vtS, numbers.vtMs, lessEq_from numbers.low (by omega) (by omega) (by omega),
      decide_eq_true window]
  by_cases moves : s.txonBufferSize = 0 ∧ s.retxBufferSize = 0 ∨ s.vtS.value = s.vtMs.value
  · obtain ⟨t, returns, kept, fixed⟩ := retxLoop_spec 1024 _ A numbers' stores' (Nat.le_refl A)
      numbers.low (by omega)
    rw [← numbers.vtA] at returns
    refine ⟨t, fun profile => ?_, kept, fixes.trans fixed⟩
    simp only [expirePollRetransmitTimer, notAbove, nsAssert_true, moves, some_bind, if_true]
    exact returns profile
  · refine ⟨_, fun profile => ?_, stores', fixes⟩
    simp [expirePollRetransmitTimer, notAbove, moves]

/-! ## `DoNotifyTxOpportunity` -/

theorem findRetx_spec (rounds : Nat) : ∀ p, Numbers s A S → A ≤ p → S < p + rounds →
    (∃ q, p ≤ q ∧ q < S ∧ (s.retxBuffer (q % 1024)).pdu.isSome = true) →
    ∃ n pdu, (∀ profile, findRetx profile s rounds (from_ A p) = some (some (n, pdu))) ∧
      (s.retxBuffer n).pdu = some pdu := by
  induction rounds with
  | zero =>
    rintro p _ _ enough ⟨q, low, below, -⟩
    omega
  | succ rounds ih =>
    rintro p numbers low enough ⟨q, later, below, waits⟩
    have window := numbers.window
    have inside (profile) : less profile (from_ A p) s.vtS = some true := by
      rw [numbers.vtS, less_from low (by omega) numbers.low (by omega),
        decide_eq_true (by omega)]
    cases here : (s.retxBuffer (p % 1024)).pdu with
    | some pdu =>
      refine ⟨p % 1024, pdu, fun profile => ?_, here⟩
      simp [findRetx, inside, here]
    | none =>
      have apart : p ≠ q := by
        rintro rfl
        rw [here] at waits
        cases waits
      obtain ⟨n, pdu, finds, found⟩ := ih (p + 1) numbers (by omega) (by omega)
        ⟨q, by omega, below, waits⟩
      refine ⟨n, pdu, fun profile => ?_, found⟩
      simp only [findRetx, inside, from_value, here, some_bind, if_true, incr_from]
      exact finds profile

/-- The polling bit changes nothing in the buffers. -/
theorem poll_spec (numbers : Numbers s A S) (due : Bool) (rlcAmHeader : LteRlcAmHeader) :
    ∃ h t, (∀ profile, poll profile due rlcAmHeader s = some (h, t)) ∧ Fixes s t ∧
      t.txedBuffer = s.txedBuffer ∧ t.retxBuffer = s.retxBuffer ∧
      t.txedBufferSize = s.txedBufferSize ∧ t.retxBufferSize = s.retxBufferSize := by
  have window := numbers.window
  have stalled (profile) : greaterEq profile s.vtS s.vtMs = some (decide (A + 512 ≤ S)) := by
    rw [numbers.vtS, numbers.vtMs, greaterEq_from numbers.low (by omega) (by omega) (by omega)]
  have decides (profile) : needsPoll profile due s =
      some (due || (decide (A + 512 ≤ S) || s.pollRetransmitTimerJustExpired)) := by
    rw [needsPoll, stalled]
    cases due <;> rfl
  simp only [poll, decides, some_bind]
  cases due || (decide (A + 512 ≤ S) || s.pollRetransmitTimerJustExpired) with
  | true => exact ⟨_, _, fun _ => rfl, ⟨rfl, rfl, rfl, rfl⟩, rfl, rfl, rfl, rfl⟩
  | false => exact ⟨_, _, fun _ => rfl, .refl s, rfl, rfl, rfl, rfl⟩

theorem retransmit_spec {pdu : AmPdu α} (numbers : Numbers s A S) (stores : Stores s given A S)
    (bytes : Nat) (here : (s.retxBuffer n).pdu = some pdu) :
    ∃ t sent, (∀ profile, retransmit profile bytes n pdu s = some (t, sent)) ∧ Numbers t A S ∧
      Stores t given A S ∧ t.txonBuffer = s.txonBuffer := by
  obtain ⟨h, u, polls, fixes, txedBuffer, retxBuffer, txedSize, retxSize⟩ := poll_spec numbers
    (s.txonBuffer.isEmpty && s.retxBufferSize == pdu.size) pdu.header
  by_cases fits : pdu.size ≤ bytes ∨ s.txOpportunityForRetxAlwaysBigEnough = true
  · have stores' : Stores u given A S := stores.same txedBuffer retxBuffer txedSize retxSize
    have here' : (u.retxBuffer n).pdu = some pdu := by rw [retxBuffer, here]
    refine ⟨moveToTxed n pdu u, some { pdu with header := h }, fun profile => ?_,
      (numbers.fixes fixes).fixes ⟨rfl, rfl, rfl, rfl⟩, stores'.moveToTxed numbers.window here',
      fixes.txonBuffer⟩
    simp [retransmit, fits, polls]
  · refine ⟨s, none, fun profile => ?_, numbers, stores, rfl⟩
    simp [retransmit, fits]

/-! ## New PDUs -/

/-- What waits at the front of the transmission buffer is never empty. -/
def Waits (s : LteRlcAmTx α) : Prop := ∀ p ∈ s.txonBuffer, AtFront p

/-- What the loop takes does not depend on the header. -/
theorem fillDataField_header {first : TxPdu α} {txBuffer : List (TxPdu α)} {size next id : Nat}
    {dataField : List (TxPdu α)} (h h' : LteRlcHeader) :
    (fillDataField first txBuffer size next id dataField h).dataField =
        (fillDataField first txBuffer size next id dataField h').dataField ∧
      (fillDataField first txBuffer size next id dataField h).txBuffer =
        (fillDataField first txBuffer size next id dataField h').txBuffer := by
  induction txBuffer generalizing first size next id dataField h h' with
  | nil =>
    rw [LteRlcUm.fillDataField.eq_def, LteRlcUm.fillDataField.eq_def _ _ _ _ _ _ h']
    dsimp only
    split
    · split
      · split <;> exact ⟨rfl, rfl⟩
      · exact ⟨rfl, rfl⟩
    · exact ⟨rfl, rfl⟩
  | cons second rest ih =>
    rw [LteRlcUm.fillDataField.eq_def, LteRlcUm.fillDataField.eq_def _ _ _ _ _ _ h']
    dsimp only
    split
    · split
      · split <;> exact ⟨rfl, rfl⟩
      · split
        · exact ⟨rfl, rfl⟩
        · exact ih _ _
    · exact ⟨rfl, rfl⟩

theorem atFront_of_takes {first : TxPdu α} {txBuffer taken left : List (TxPdu α)}
    (takes : Takes first txBuffer taken left) (waits : ∀ p ∈ txBuffer, AtFront p) :
    ∀ p ∈ left, AtFront p := by
  induction takes with
  | whole => exact waits
  | cut _ _ back =>
    intro p mem
    obtain rfl | mem := List.mem_cons.mp mem
    · exact ⟨.inr rfl, back⟩
    · exact waits p mem
  | more _ _ ih => exact ih fun p mem => waits p (List.mem_cons_of_mem _ mem)

/-- The data field has a segment, and what is left waits at the front. -/
theorem takeSdus_waits {bytes : Nat} {first : TxPdu α} {rest : List (TxPdu α)} (room : 4 < bytes)
    (waits : ∀ p ∈ first :: rest, AtFront p) (s : LteRlcAmTx α) :
    (takeSdus bytes first rest s).1 ≠ [] ∧ Waits (takeSdus bytes first rest s).2.2 := by
  have waitsRest : ∀ p ∈ rest, AtFront p := fun p mem => waits p (List.mem_cons_of_mem first mem)
  have fills : LteRlcUm.Fills first rest (UInt32.sub s.txonBufferSize first.pdu.length)
    (bytes - 4) 1
      [] [] := LteRlcUm.fillDataField_spec (waits first List.mem_cons_self) waitsRest (by omega)
  obtain ⟨taken, left, size, fills, takes, -⟩ := fills
  obtain ⟨dataField, buffer⟩ := @fillDataField_header α first rest
    (UInt32.sub s.txonBufferSize first.pdu.length) (bytes - 4) 1 []
    (({} : LteRlcAmHeader).setDataPdu).lists (LteRlcHeader.pushed [])
  rw [fills] at dataField buffer
  constructor
  · show (fillDataField ..).dataField ≠ []
    rw [dataField, List.nil_append]
    exact takes.ne_nil
  · show ∀ p ∈ (fillDataField ..).txBuffer, AtFront p
    rw [buffer]
    exact atFront_of_takes takes waitsRest

theorem takeNumber_spec (numbers : Numbers s A S) (room : S < A + 512) :
    (∀ profile, takeNumber profile s = some (from_ A S, { s with vtS := from_ A (S + 1) })) ∧
      Numbers { s with vtS := from_ A (S + 1) } A (S + 1) := by
  have low := numbers.low
  refine ⟨fun profile => ?_, numbers.vtA, rfl, numbers.vtMs, by omega, room⟩
  have next : s.vtS.incr = from_ A (S + 1) := by rw [numbers.vtS, incr_from]
  have below : less profile s.vtS s.vtMs = some true := by
    rw [numbers.vtS, numbers.vtMs, less_from low (by omega) (by omega) (by omega),
      decide_eq_true room]
  have above : greaterEq profile s.vtS s.vtA = some true := by
    rw [numbers.vtS, numbers.vtA, greaterEq_from low (by omega) (Nat.le_refl A) (by omega),
      decide_eq_true low]
  simp only [takeNumber, below, above, nsAssert_true, some_bind, pure_some, next]
  rw [numbers.vtS]

theorem Stores.store {pdu : AmPdu α} (stores : Stores s given A S) (low : A ≤ S)
    (room : S < A + 512) (fresh : given (S % 1024) = false) :
    Stores (store (S % 1024) pdu s) given A (S + 1) := by
  have empty := stores.outside (S % 1024) fun p lowP below same => by omega
  have replaces : Replaces s (LteRlcAmTx.store (S % 1024) pdu s) (S % 1024) ⟨some pdu, 0⟩
      (s.retxBuffer (S % 1024)) :=
    ⟨rfl, (Function.update_eq_self _ _).symm, size_put empty.1 rfl, stores.small.2, rfl⟩
  refine stores.replace low (Nat.lt_succ_self S) room (Nat.le_succ S)
    (fun q lowQ belowQ apart => ⟨by omega, rfl⟩) replaces ?_
  rw [Kept, fresh, if_neg Bool.false_ne_true, empty.2]
  simp

/-- What an opportunity may leave: the same window, or one that is longer by a new PDU. -/
structure Sends (s : LteRlcAmTx α) (given : Nat → Bool) (A : Nat)
    (r : Option (LteRlcAmTx α × Option (AmPdu α))) : Prop where
  keeps : ∀ t sent, r = some (t, sent) → ∃ S', Numbers t A S' ∧ Stores t given A S'
  returns : Waits s → ∃ t sent, r = some (t, sent) ∧ Waits t

theorem finishPdu_spec (numbers : Numbers s A (S + 1)) (stores : Stores s given A S)
    (fresh : given (S % 1024) = false) (low : A ≤ S) (dataField : List (TxPdu α))
    (rlcAmHeader : LteRlcAmHeader) :
    ∃ r, (∀ profile, finishPdu profile dataField rlcAmHeader (from_ A S) s = r) ∧
      (∀ t sent, r = some (t, sent) → Numbers t A (S + 1) ∧ Stores t given A (S + 1)) ∧
      (dataField ≠ [] → ∃ t sent, r = some (t, sent) ∧ t.txonBuffer = s.txonBuffer) := by
  cases dataField with
  | nil => exact ⟨none, fun profile => rfl, nofun, fun some_ => absurd rfl some_⟩
  | cons first others =>
    let s' : LteRlcAmTx α := { s with
      pduWithoutPoll := UInt32.add s.pduWithoutPoll 1
      byteWithoutPoll :=
        UInt32.add s.byteWithoutPoll ((first :: others).flatMap (·.pdu)).length }
    have numbers' : Numbers s' A (S + 1) := numbers.fixes ⟨rfl, rfl, rfl, rfl⟩
    have begins (profile) := finishPdu.eq_def profile (first :: others) rlcAmHeader (from_ A S) s
    simp only [List.head?_cons, List.getLast?_cons, some_bind]
      at begins
    obtain ⟨h, u, polls, fixes, txedBuffer, retxBuffer, txedSize, retxSize⟩ := poll_spec numbers'
      (pollPdu ≤ s'.pduWithoutPoll || pollByte ≤ s'.byteWithoutPoll ||
        (s'.txonBuffer.isEmpty && s'.retxBufferSize == 0))
      (((((rlcAmHeader.setSequenceNumber (from_ A S)).setResegmentationFlag
        LteRlcAmHeader.pdu).setLastSegmentFlag 1).setSegmentOffset 0).setFramingInfo
        (LteRlcUm.framingInfo first.status (others.getLast?.getD first).status))
    have stored : Stores u given A S := stores.same txedBuffer retxBuffer txedSize retxSize
    let pdu : AmPdu α := ⟨h, (first :: others).flatMap (·.pdu)⟩
    refine ⟨some (LteRlcAmTx.store (S % 1024) pdu u, some pdu), fun profile => ?_, ?_,
      fun _ => ⟨_, _, rfl, fixes.txonBuffer⟩⟩
    · rw [begins]
      exact congrArg (Option.bind · _) (polls profile)
    · rintro t sent ⟨⟩
      exact ⟨(numbers'.fixes fixes).fixes ⟨rfl, rfl, rfl, rfl⟩,
        stored.store low numbers.window fresh⟩

theorem buildPdu_spec (numbers : Numbers s A S) (stores : Stores s given A S) (room : S < A + 512)
    (fresh : given (S % 1024) = false) {bytes : Nat} (big : 4 < bytes) :
    ∃ r, (∀ profile, buildPdu profile bytes s = r) ∧ Sends s given A r := by
  cases waiting : s.txonBuffer with
  | nil =>
    refine ⟨some (s, none), fun profile => by simp only [buildPdu, waiting], ?_, ?_⟩
    · rintro t sent ⟨⟩
      exact ⟨S, numbers, stores⟩
    · exact fun waits => ⟨s, none, rfl, waits⟩
  | cons firstSegment rest =>
    have taken (waits : Waits s) :=
      takeSdus_waits big (waiting ▸ waits : ∀ p ∈ firstSegment :: rest, AtFront p) s
    have numbers₁ : Numbers (takeSdus bytes firstSegment rest s).2.2 A S :=
      ⟨numbers.vtA, numbers.vtS, numbers.vtMs, numbers.low, numbers.window⟩
    have stores₁ : Stores (takeSdus bytes firstSegment rest s).2.2 given A S :=
      stores.same rfl rfl rfl rfl
    obtain ⟨number, numbers₂⟩ := takeNumber_spec numbers₁ room
    obtain ⟨r, finishes, keeps, returns⟩ := finishPdu_spec numbers₂ (stores₁.same rfl rfl rfl rfl)
      fresh numbers.low (takeSdus bytes firstSegment rest s).1
      (takeSdus bytes firstSegment rest s).2.1
    refine ⟨r, fun profile => ?_, fun t sent same => ⟨S + 1, keeps t sent same⟩, fun waits => ?_⟩
    · simp only [buildPdu, waiting, number, some_bind]
      exact finishes profile
    · obtain ⟨some_, left⟩ := taken waits
      obtain ⟨t, sent, same, buffer⟩ := returns some_
      exact ⟨t, sent, same, fun p mem => left p (buffer ▸ mem)⟩

/-- An opportunity that is big enough for what is to be sent. -/
def Sufficient (s : LteRlcAmTx α) (bytes : Nat) : Prop :=
  4 ≤ bytes ∧ (s.retxBufferSize = 0 → 0 < s.txonBufferSize → 7 ≤ bytes)
  deriving Decidable

theorem notifyTxOpportunity_spec (numbers : Numbers s A S) (stores : Stores s given A S)
    (fresh : S < A + 512 → given (S % 1024) = false) {bytes : Nat} (big : Sufficient s bytes) :
    ∃ r, (∀ profile, doNotifyTxOpportunity profile bytes s = r) ∧ Sends s given A r := by
  have window := numbers.window
  have same : Sends s given A (some (s, none)) := by
    refine ⟨?_, fun waits => ⟨s, none, rfl, waits⟩⟩
    rintro t sent ⟨⟩
    exact ⟨S, numbers, stores⟩
  have begins (profile) := doNotifyTxOpportunity.eq_def profile bytes s
  simp only [Nat.not_lt.mpr big.1, if_false] at begins
  by_cases retx : s.retxBufferSize > 0
  · -- the buffer has a PDU, which is found
    have sum : 0 < total s.retxBuffer := by
      have size := stores.retxSize
      omega
    obtain ⟨n, here⟩ := exists_pdu sum
    obtain ⟨q, low, below, rfl, -⟩ := stores.position (.inr here)
    have some_ (profile) : less profile s.vtA s.vtS = some true := by
      rw [numbers.vtA, numbers.vtS, less_from (Nat.le_refl A) (by omega) numbers.low (by omega),
        decide_eq_true (by omega)]
    obtain ⟨n, pdu, finds, found⟩ := findRetx_spec 1024 A numbers (Nat.le_refl A) (by omega)
      ⟨q, low, below, here⟩
    rw [← numbers.vtA] at finds
    obtain ⟨t, sent, sends, numbers', stores', buffer⟩ := retransmit_spec numbers stores bytes found
    refine ⟨some (t, sent), fun profile => ?_, ?_, fun waits => ⟨t, sent, rfl, ?_⟩⟩
    · rw [begins]
      simp only [retx, if_true, some_, nsAssert_true, finds, some_bind]
      exact sends profile
    · rintro t sent ⟨⟩
      exact ⟨S, numbers', stores'⟩
    · exact fun p mem => waits p (buffer ▸ mem)
  · simp only [retx, if_false] at begins
    by_cases txon : s.txonBufferSize > 0
    · have enough : ¬ bytes < 7 := Nat.not_lt.mpr (big.2 (by omega) txon)
      have notAbove (profile) : lessEq profile s.vtS s.vtMs = some true := by
        rw [numbers.vtS, numbers.vtMs, lessEq_from numbers.low (by omega) (by omega) (by omega),
          decide_eq_true window]
      simp only [txon, if_true, enough, if_false, notAbove, nsAssert_true, some_bind] at begins
      by_cases stalled : s.vtS.value = s.vtMs.value
      · simp only [stalled, if_true] at begins
        exact ⟨some (s, none), begins, same⟩
      · simp only [stalled, if_false] at begins
        have room : S < A + 512 := by
          rw [numbers.vtS, numbers.vtMs, from_value, from_value] at stalled
          omega
        obtain ⟨r, builds, sends⟩ := buildPdu_spec numbers stores room (fresh room)
          (by omega : 4 < bytes)
        exact ⟨r, fun profile => (begins profile).trans (builds profile), sends⟩
    · simp only [txon, if_false] at begins
      exact ⟨some (s, none), begins, same⟩

/-! ## What is acknowledged -/

/-- The distance of a number from VT(A). -/
def offset (s : LteRlcAmTx α) (n : Nat) : Nat := (n + 1024 - s.vtA.value) % 1024

/-- The number lies in the window from VT(A) up to VT(S). -/
def inWindow (s : LteRlcAmTx α) (n : Nat) : Bool := n < 1024 && offset s n < offset s s.vtS.value

/-- The event acknowledges the number: it is a STATUS PDU, and the number lies in the window, below
ACK_SN, and is not among the NACKs. -/
def acknowledges (s : LteRlcAmTx α) : Event α → Nat → Bool
  | .receiveStatus ackSn nackSnList, n =>
    inWindow s n && offset s n < offset s (ackSn % 1024) && !nackSnList.contains n
  | _, _ => false

/-- The transmitting side, and the numbers of its window that have been acknowledged. -/
structure Watched (α : Type) where
  tx : LteRlcAmTx α := {}
  acked : Nat → Bool := fun _ => false

namespace Watched

/-- What has been acknowledged after an event. A number that leaves the window is not acknowledged
when it comes again. -/
def after (a : Watched α) (e : Event α) (t : LteRlcAmTx α) : Watched α :=
  ⟨t, fun n => inWindow t n && (a.acked n || acknowledges a.tx e n)⟩

/-- One event. -/
def step (profile : BuildProfile) (a : Watched α) (e : Event α) : Option (Watched α) :=
  (LteRlcAmTx.step profile a.tx e).map (after a e)

/-- Opportunities are sufficient, and no number is NACKed that has been acknowledged. -/
def Allowed (a : Watched α) : Event α → Prop
  | .notifyTxOpportunity bytes => Sufficient a.tx bytes
  | .receiveStatus _ nackSnList => ∀ n ∈ nackSnList, a.acked n = false
  | _ => True

instance (a : Watched α) : (e : Event α) → Decidable (Allowed a e)
  | .transmitPdcpPdu _ => .isTrue trivial
  | .notifyTxOpportunity bytes => inferInstanceAs (Decidable (Sufficient a.tx bytes))
  | .receiveStatus _ nackSnList => inferInstanceAs (Decidable (∀ n ∈ nackSnList, a.acked n = false))
  | .expirePollRetransmitTimer => .isTrue trivial

/-- The buffers partition the window, and their sizes are right as `uint32_t`. -/
structure Partitioned (a : Watched α) : Prop where
  window : offset a.tx a.tx.vtS.value ≤ 512
  inside : ∀ n, inWindow a.tx n = true →
    Kept (a.acked n) (a.tx.txedBuffer n) (a.tx.retxBuffer n)
  outside : ∀ n, inWindow a.tx n = false →
    (a.tx.txedBuffer n).pdu = none ∧ (a.tx.retxBuffer n).pdu = none
  txedSize : a.tx.txedBufferSize = total a.tx.txedBuffer % 2 ^ 32
  retxSize : a.tx.retxBufferSize = total a.tx.retxBuffer % 2 ^ 32

/-- Between events. -/
def Inv (a : Watched α) : Prop :=
  ∃ A S, Numbers a.tx A S ∧ Stores a.tx a.acked A S ∧
    ∀ n, a.acked n = true → inWindow a.tx n = true

end Watched

theorem Numbers.offset (numbers : Numbers s A S) (low : A ≤ p) (near : p < A + 1024) :
    offset s (p % 1024) = p - A := by
  rw [LteRlcAmTx.offset, numbers.vtA, from_value]
  omega

theorem Numbers.inWindow_iff (numbers : Numbers s A S) :
    inWindow s n = true ↔ ∃ p, A ≤ p ∧ p < S ∧ p % 1024 = n := by
  have low := numbers.low
  have window := numbers.window
  have last : LteRlcAmTx.offset s s.vtS.value = S - A := by
    rw [numbers.vtS, from_value]
    exact numbers.offset low (by omega)
  rw [inWindow, Bool.and_eq_true, decide_eq_true_eq, decide_eq_true_eq, last]
  constructor
  · rintro ⟨small, below⟩
    refine ⟨A + LteRlcAmTx.offset s n, Nat.le_add_right _ _, by omega, ?_⟩
    rw [LteRlcAmTx.offset, numbers.vtA, from_value]
    omega
  · rintro ⟨p, lowP, belowP, rfl⟩
    refine ⟨Nat.mod_lt p (by decide), ?_⟩
    rw [numbers.offset lowP (by omega)]
    omega

namespace Watched

variable {a b : Watched α}

theorem Inv.toPartitioned (inv : Inv a) : Partitioned a := by
  obtain ⟨A, S, numbers, stores, -⟩ := inv
  have low := numbers.low
  have window := numbers.window
  refine ⟨?_, fun n inside => ?_, fun n outside => ?_, stores.txedSize, stores.retxSize⟩
  · rw [numbers.vtS, from_value, numbers.offset low (by omega)]
    omega
  · obtain ⟨p, lowP, belowP, rfl⟩ := numbers.inWindow_iff.mp inside
    exact stores.inside p lowP belowP
  · refine stores.outside n fun p lowP belowP same => ?_
    rw [numbers.inWindow_iff.mpr ⟨p, lowP, belowP, same⟩] at outside
    cases outside

theorem inv_after {given' : Nat → Bool} {e : Event α} (numbers : Numbers t A S)
    (stores : Stores t given' A S)
    (same : ∀ q, A ≤ q → q < S →
      given' (q % 1024) = (a.acked (q % 1024) || acknowledges a.tx e (q % 1024))) :
    Inv (after a e t) := by
  refine ⟨A, S, numbers, stores.congr fun q low below => ?_, fun n here => ?_⟩
  · dsimp only [after]
    rw [numbers.inWindow_iff.mpr ⟨q, low, below, rfl⟩, Bool.true_and, same q low below]
  · exact (Bool.and_eq_true_iff.mp here).1

theorem fresh (numbers : Numbers a.tx A S) (acked : ∀ n, a.acked n = true → inWindow a.tx n = true)
    (room : S < A + 512) : a.acked (S % 1024) = false := by
  cases done : a.acked (S % 1024) with
  | false => rfl
  | true =>
    obtain ⟨p, low, below, same⟩ := numbers.inWindow_iff.mp (acked _ done)
    omega

/-- The event is the same in every build, and keeps the window. Where no SDU is empty, it
returns. -/
structure Goes (a : Watched α) (e : Event α) (r : Option (Watched α)) : Prop where
  every : ∀ profile, step profile a e = r
  keeps : ∀ b, r = some b → Inv b
  returns : Waits a.tx → (∀ p, e = .transmitPdcpPdu p → p ≠ []) → ∃ b, r = some b ∧ Waits b.tx

theorem Inv.transmitPdcpPdu (inv : Inv a) (p : List α) : ∃ r, Goes a (.transmitPdcpPdu p) r := by
  obtain ⟨A, S, numbers, stores, -⟩ := inv
  have kept : Numbers (doTransmitPdcpPdu p a.tx) A S ∧
    Stores (doTransmitPdcpPdu p a.tx) a.acked A S := by
    unfold doTransmitPdcpPdu
    split
    · exact ⟨⟨numbers.vtA, numbers.vtS, numbers.vtMs, numbers.low, numbers.window⟩,
        stores.same rfl rfl rfl rfl⟩
    · exact ⟨numbers, stores⟩
  refine ⟨_, fun profile => rfl, ?_, fun waits some_ => ⟨_, rfl, ?_⟩⟩
  · rintro b ⟨⟩
    exact inv_after kept.1 kept.2 fun q _ _ => (Bool.or_false _).symm
  · show Waits (doTransmitPdcpPdu p a.tx)
    unfold doTransmitPdcpPdu
    split
    · intro sdu mem
      obtain mem | mem := List.mem_append.mp mem
      · exact waits sdu mem
      · rw [List.mem_singleton.mp mem]
        exact ⟨.inl rfl, some_ p rfl⟩
    · exact waits

theorem Inv.notifyTxOpportunity (inv : Inv a) {bytes : Nat} (big : Sufficient a.tx bytes) :
    ∃ r, Goes a (.notifyTxOpportunity bytes) r := by
  obtain ⟨A, S, numbers, stores, acked⟩ := inv
  obtain ⟨r, sends, keeps, returns⟩ := notifyTxOpportunity_spec numbers stores
    (fresh numbers acked) big
  refine ⟨(r.map Prod.fst).map (after a (.notifyTxOpportunity bytes)),
    fun profile => ?_, fun b same => ?_, fun waits _ => ?_⟩
  · rw [step, LteRlcAmTx.step, sends]
  · obtain ⟨t, sent_, rfl⟩ := Option.map_eq_some_iff.mp same
    obtain ⟨⟨t, sent⟩, rfl, rfl⟩ := Option.map_eq_some_iff.mp sent_
    obtain ⟨S', numbers', stores'⟩ := keeps t sent rfl
    exact inv_after numbers' stores' fun q _ _ => (Bool.or_false _).symm
  · obtain ⟨t, sent, rfl, left⟩ := returns waits
    exact ⟨_, rfl, left⟩

theorem Inv.receiveStatus (inv : Inv a) (ackSn : Nat) {nackSnList : List Nat}
    (nacks : ∀ n ∈ nackSnList, a.acked n = false) :
    ∃ r, Goes a (.receiveStatus ackSn nackSnList) r := by
  obtain ⟨A, S, numbers, stores, -⟩ := inv
  have window := numbers.window
  have bound : offset a.tx (ackSn % 1024) < 1024 := Nat.mod_lt _ (by decide)
  have value : ackSn % 1024 = (A + offset a.tx (ackSn % 1024)) % 1024 := by
    rw [offset, numbers.vtA, from_value]
    omega
  obtain ⟨t, returns, A', given', later, numbers', stores', buffer, each⟩ := receiveStatus_spec
    numbers stores (Nat.le_add_right A (offset a.tx (ackSn % 1024))) (by omega) value
    fun q _ _ mem => nacks _ mem
  refine ⟨some (after a (.receiveStatus ackSn nackSnList) t), fun profile => ?_, ?_,
    fun waits _ => ⟨_, rfl, ?_⟩⟩
  · rw [step, LteRlcAmTx.step, returns, Option.map_some]
  · rintro b ⟨⟩
    refine inv_after numbers' stores' fun q low below => ?_
    have inside : inWindow a.tx (q % 1024) = true :=
      numbers.inWindow_iff.mpr ⟨q, later.trans low, below, rfl⟩
    have away : offset a.tx (q % 1024) = q - A := numbers.offset (later.trans low) (by omega)
    rw [each q low below, acknowledges, inside, away]
    have covered : q < A + offset a.tx (ackSn % 1024) ↔ q - A < offset a.tx (ackSn % 1024) := by
      omega
    simp [later.trans low, covered]
  · exact fun p mem => waits p (buffer ▸ mem)

theorem Inv.expirePollRetransmitTimer (inv : Inv a) : ∃ r, Goes a .expirePollRetransmitTimer r := by
  obtain ⟨A, S, numbers, stores, acked⟩ := inv
  cases running : a.tx.pollRetransmitTimer with
  | true =>
    obtain ⟨t, returns, stores', fixes⟩ := expirePollRetransmitTimer_spec numbers stores
    refine ⟨some (after a .expirePollRetransmitTimer t), fun profile => ?_, ?_, fun waits _ =>
      ⟨_, rfl, ?_⟩⟩
    · rw [step, LteRlcAmTx.step, if_pos running, returns, Option.map_some]
    · rintro b ⟨⟩
      exact inv_after (numbers.fixes fixes) stores' fun q _ _ => (Bool.or_false _).symm
    · exact fun p mem => waits p (fixes.txonBuffer ▸ mem)
  | false =>
    refine ⟨some (after a .expirePollRetransmitTimer a.tx), fun profile => ?_, ?_, fun waits _ =>
      ⟨_, rfl, waits⟩⟩
    · rw [step, LteRlcAmTx.step, running, if_neg Bool.false_ne_true, Option.map_some]
    · rintro b ⟨⟩
      exact inv_after numbers stores fun q _ _ => (Bool.or_false _).symm

theorem Inv.goes (inv : Inv a) {e : Event α} (allowed : Allowed a e) : ∃ r, Goes a e r := by
  cases e with
  | transmitPdcpPdu p => exact inv.transmitPdcpPdu p
  | notifyTxOpportunity bytes => exact inv.notifyTxOpportunity allowed
  | receiveStatus ackSn nackSnList => exact inv.receiveStatus ackSn allowed
  | expirePollRetransmitTimer => exact inv.expirePollRetransmitTimer

/-! ## Runs -/

/-- The entity before its first event. -/
def start (maxTxBufferSize : Nat) (txOpportunityForRetxAlwaysBigEnough : Bool) : Watched α :=
  { tx := { maxTxBufferSize, txOpportunityForRetxAlwaysBigEnough } }

theorem inv_start (maxTxBufferSize : Nat) (alwaysBigEnough : Bool) :
    Inv (start maxTxBufferSize alwaysBigEnough : Watched α) := by
  refine ⟨0, 0, ⟨rfl, rfl, rfl, Nat.le_refl 0, Nat.zero_le _⟩, ⟨?_, ?_, ?_, ?_⟩, nofun⟩
  · intro p _ below
    cases below
  · exact fun n _ => ⟨rfl, rfl⟩
  · show 0 = total (fun _ => ({} : RetxPdu α)) % 2 ^ 32
    rw [total_empty, Nat.zero_mod]
  · show 0 = total (fun _ => ({} : RetxPdu α)) % 2 ^ 32
    rw [total_empty, Nat.zero_mod]

/-- The second PDU is sent again after a NACK, with the number of the first acknowledged. -/
def events : List (Event Nat) :=
  [.transmitPdcpPdu [1, 2], .notifyTxOpportunity 10, .transmitPdcpPdu [3], .notifyTxOpportunity 10,
    .receiveStatus 2 [1], .notifyTxOpportunity 4, .notifyTxOpportunity 10, .receiveStatus 2 []]

example : (Run.exec (step .debug) (start 10240 false) events).isSome := by
  decide +kernel

end Watched

/-! ## Sizes that wrap -/

/-- An SDU that is too long for a length indicator is taken whole, if it fits. -/
theorem takeSdus_long {sdu : List α} (long : 2047 < sdu.length)
    (size : s.txonBufferSize = sdu.length)
    (small : sdu.length < 2 ^ 32) :
    ∃ h, takeSdus (sdu.length + 4) ⟨.fullSdu, sdu⟩ [] s =
      ([⟨.fullSdu, sdu⟩], h, { s with txonBuffer := [], txonBufferSize := 0 }) := by
  have left : UInt32.sub s.txonBufferSize sdu.length = 0 := by
    rw [size, UInt32.sub_of_le le_rfl small, Nat.sub_self]
  have fills (h : LteRlcHeader) : fillDataField ⟨.fullSdu, sdu⟩ [] 0 sdu.length 1 [] h =
      { txBuffer := [], txBufferSize := 0, dataField := [⟨.fullSdu, sdu⟩]
        rlcHeader := h.pushExtensionBit LteRlcHeader.dataFieldFollows } := by
    rw [LteRlcUm.fillDataField.eq_def]
    simp only [(by omega : 0 < sdu.length), long, or_true, and_self, if_true, Nat.min_self,
      List.drop_length, List.length_nil, Nat.lt_irrefl, if_false, List.nil_append, List.take_length]
    rfl
  simp only [takeSdus, left, Nat.add_sub_cancel, fills]
  exact ⟨_, rfl⟩

/-- It is sent and stored, with the polling bit. -/
theorem finishPdu_long {sn : SequenceNumber10} (polled : s.pduWithoutPoll = 0) (sdu : List α)
    (h : LteRlcAmHeader) : ∃ t h', finishPdu .debug [⟨.fullSdu, sdu⟩] h sn s =
      some (t, some ⟨h', sdu⟩) ∧
      t.txedBuffer = Function.update s.txedBuffer sn.value ⟨some ⟨h', sdu⟩, 0⟩ ∧
      t.txedBufferSize < 2 ^ 32 ∧ t.retxBufferSize = s.retxBufferSize ∧ t.pduWithoutPoll = 0 ∧
      t.maxTxBufferSize = s.maxTxBufferSize ∧ Fixes s t ∧ t.txonBufferSize = s.txonBufferSize := by
  have due : decide (pollPdu ≤ UInt32.add s.pduWithoutPoll 1) = true := by
    rw [polled]
    rfl
  simp only [finishPdu, List.head?_cons, List.getLast?_singleton, some_bind, due, Bool.true_or,
    poll, needsPoll, if_true, pure_some, List.flatMap_singleton]
  exact ⟨_, _, rfl, rfl, UInt32.add_lt _ _, rfl, rfl, rfl, ⟨rfl, rfl, rfl, rfl⟩, rfl⟩

/-- Nothing waits, and nothing is to be sent again. -/
structure Idle (s : LteRlcAmTx α) (S : Nat) : Prop where
  txonBuffer : s.txonBuffer = []
  txonBufferSize : s.txonBufferSize = 0
  retxBufferSize : s.retxBufferSize = 0
  pduWithoutPoll : s.pduWithoutPoll = 0
  unlimited : s.maxTxBufferSize = 0
  numbers : Numbers s 0 S

theorem Idle.transmit_long {sdu : List α} (idle : Idle s S) (long : 2047 < sdu.length)
    (small : sdu.length < 2 ^ 32) (room : S < 512) : ∃ t h,
    doNotifyTxOpportunity .debug (sdu.length + 4) (doTransmitPdcpPdu sdu s) =
        some (t, some ⟨h, sdu⟩) ∧
      t.txedBuffer = Function.update s.txedBuffer (S % 1024) ⟨some ⟨h, sdu⟩, 0⟩ ∧
      t.txedBufferSize < 2 ^ 32 ∧ Idle t (S + 1) := by
  have size : UInt32.add s.txonBufferSize sdu.length = sdu.length := by
    rw [idle.txonBufferSize, UInt32.add_of_lt (by omega), Nat.zero_add]
  have takes : doTransmitPdcpPdu sdu s =
      { s with txonBuffer := [⟨.fullSdu, sdu⟩], txonBufferSize := sdu.length } := by
    rw [doTransmitPdcpPdu, if_pos (.inr idle.unlimited), idle.txonBuffer, size, List.nil_append]
  obtain ⟨h, taken⟩ := takeSdus_long (s := doTransmitPdcpPdu sdu s) long (by rw [takes]) small
  rw [takes] at taken ⊢
  have numbers₁ : Numbers { s with txonBuffer := [], txonBufferSize := 0 } 0 S :=
    idle.numbers.fixes ⟨rfl, rfl, rfl, idle.txonBuffer.symm⟩
  obtain ⟨number, numbers₂⟩ := takeNumber_spec numbers₁ (by omega)
  obtain ⟨t, h', finishes, txed, bound, retx, counter, limit, fixes, left⟩ :=
    finishPdu_long (s := { s with txonBuffer := [], txonBufferSize := 0, vtS := from_ 0 (S + 1) })
      idle.pduWithoutPoll sdu h
  have builds : buildPdu .debug (sdu.length + 4)
      { s with txonBuffer := [⟨.fullSdu, sdu⟩], txonBufferSize := sdu.length } =
        some (t, some ⟨h', sdu⟩) := by
    simp only [buildPdu, taken, number, some_bind]
    exact finishes
  have notAbove (profile) : lessEq profile s.vtS s.vtMs = some true := by
    rw [idle.numbers.vtS, idle.numbers.vtMs, lessEq_from (by omega) (by omega) (by omega)
      (by omega),
      decide_eq_true (by omega)]
  have free : s.vtS.value ≠ s.vtMs.value := by
    rw [idle.numbers.vtS, idle.numbers.vtMs, from_value, from_value]
    omega
  have big : ¬ sdu.length + 4 < 4 := by omega
  have enough : ¬ sdu.length + 4 < 7 := by omega
  have some_ : sdu.length > 0 := by omega
  have none_ : ¬ s.retxBufferSize > 0 := by
    rw [idle.retxBufferSize]
    exact Nat.lt_irrefl 0
  refine ⟨t, h', ?_, txed, bound, fixes.txonBuffer, left, retx.trans idle.retxBufferSize, counter,
    limit.trans idle.unlimited, numbers₂.fixes fixes⟩
  simp [doNotifyTxOpportunity, big, none_, some_, enough, notAbove, free, builds]

/-- The size of the buffer of transmitted PDUs is their sum. -/
def ExactSize (a : Watched α) : Prop := a.tx.txedBufferSize = total a.tx.txedBuffer

end Ns3.LteRlcAmTx
