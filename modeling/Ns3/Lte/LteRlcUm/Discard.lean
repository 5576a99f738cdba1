import Ns3.Lte.LteRlcUm.Transmit
import Ns3.Library.Run

/-!
# SDUs that are discarded

The transmission buffer with the time at which each SDU came. An SDU that finds no room is reported
through `TxDrop`. One that comes while the first SDU of the buffer has waited for too long is
reported too, and put into the buffer nevertheless.
-/

namespace Ns3

/-- `TxPdu`, with its arrival time in nanoseconds. -/
structure TimedPdu (α : Type) extends TxPdu α where
  waitingSince : Int
  deriving DecidableEq

/-- The transmission buffer of `LteRlcUm`; `txDrop` are the SDUs of the calls of `m_txDropTrace`. -/
structure LteRlcUmQueue (α : Type) where
  maxTxBufferSize : Nat := 10 * 1024
  enablePdcpDiscarding : Bool := true
  discardTimerMs : Nat := 0
  packetDelayBudgetMs : Nat := 65535
  txBufferSize : Nat := 0
  txBuffer : List (TimedPdu α) := []
  txDrop : List (List α) := []
  deriving DecidableEq

namespace LteRlcUmQueue

open LteRlcUm (splitStatus wholeTaken)

variable {α : Type}

/-- How long the first SDU of the buffer has waited, as `uint32_t`. -/
def headOfLineDelayInMs (s : LteRlcUmQueue α) (now : Int) : Nat :=
  match s.txBuffer with
  | [] => 0
  | first :: _ => ((now - first.waitingSince).tdiv 1000000 % 2 ^ 32).toNat

/-- The SDU comes too late for its delay budget. -/
def isLate (s : LteRlcUmQueue α) (now : Int) : Bool :=
  let discardTimerMs := if s.discardTimerMs > 0 then s.discardTimerMs else s.packetDelayBudgetMs
  s.enablePdcpDiscarding && discardTimerMs < s.headOfLineDelayInMs now

/-- The SDU finds room. -/
def accepts (s : LteRlcUmQueue α) (p : List α) : Bool :=
  UInt32.add s.txBufferSize p.length ≤ s.maxTxBufferSize

/-- `DoTransmitPdcpPdu`. -/
def doTransmitPdcpPdu (now : Int) (p : List α) (s : LteRlcUmQueue α) : LteRlcUmQueue α :=
  if s.accepts p then
    let s := if s.isLate now then { s with txDrop := s.txDrop ++ [p] } else s
    { s with
      txBuffer := s.txBuffer ++ [⟨⟨.fullSdu, p⟩, now⟩]
      txBufferSize := UInt32.add s.txBufferSize p.length }
  else { s with txDrop := s.txDrop ++ [p] }

/-- The loop of `DoNotifyTxOpportunity`, apart from the header: the buffer, its size and the data
field. What is given back keeps its arrival time. -/
def takeSegments (firstSegment : TimedPdu α) (txBuffer : List (TimedPdu α))
    (txBufferSize nextSegmentSize nextSegmentId : Nat) (dataField : List (TxPdu α)) :
    List (TimedPdu α) × Nat × List (TxPdu α) :=
  let size := firstSegment.pdu.length
  if 0 < size ∧ 0 < nextSegmentSize then
    if nextSegmentSize < size ∨ 2047 < size then
      let currSegmentSize := min size nextSegmentSize
      let (newTag, oldTag) := splitStatus firstSegment.status
      let newSegment := firstSegment.pdu.take currSegmentSize
      let remaining := firstSegment.pdu.drop currSegmentSize
      if 0 < remaining.length then
        (⟨⟨oldTag, remaining⟩, firstSegment.waitingSince⟩ :: txBuffer,
          UInt32.add txBufferSize remaining.length, dataField ++ [⟨newTag, newSegment⟩])
      else (txBuffer, txBufferSize, dataField ++ [⟨wholeTaken newTag, newSegment⟩])
    else
      match txBuffer with
      | [] => (txBuffer, txBufferSize, dataField ++ [firstSegment.toTxPdu])
      | second :: rest =>
        if nextSegmentSize - size ≤ 2 then
          (txBuffer, txBufferSize, dataField ++ [firstSegment.toTxPdu])
        else
          takeSegments second rest (UInt32.sub txBufferSize second.pdu.length)
            (nextSegmentSize - ((if nextSegmentId % 2 ≠ 0 then 2 else 1) + size))
            (nextSegmentId + 1) (dataField ++ [firstSegment.toTxPdu])
  else (txBuffer, txBufferSize, dataField)
termination_by structural txBuffer

/-- `DoNotifyTxOpportunity`, as far as the buffer is concerned. The data field is read from its
first segment on. -/
def doNotifyTxOpportunity (bytes : Nat) (s : LteRlcUmQueue α) : Option (LteRlcUmQueue α) :=
  if bytes ≤ 2 then some s
  else
    match s.txBuffer with
    | [] => some s
    | firstSegment :: rest =>
      let (txBuffer, txBufferSize, dataField) := takeSegments firstSegment rest
        (UInt32.sub s.txBufferSize firstSegment.pdu.length) (bytes - 2) 1 []
      if dataField = [] then none else some { s with txBuffer, txBufferSize }

/-- An event of the transmitting side. -/
inductive Event (α : Type) where
  | transmitPdcpPdu (now : Int) (p : List α)
  | notifyTxOpportunity (bytes : Nat)
  deriving DecidableEq

def step (s : LteRlcUmQueue α) : Event α → Option (LteRlcUmQueue α)
  | .transmitPdcpPdu now p => some (s.doTransmitPdcpPdu now p)
  | .notifyTxOpportunity bytes => s.doNotifyTxOpportunity bytes

/-! ## The buffer without the times -/

/-- The transmitting side without the times and the discarding. -/
def toTx (sequenceNumber : SequenceNumber10) (s : LteRlcUmQueue α) : LteRlcUmTx α where
  maxTxBufferSize := s.maxTxBufferSize
  txBufferSize := s.txBufferSize
  txBuffer := s.txBuffer.map TimedPdu.toTxPdu
  sequenceNumber := sequenceNumber

variable {s t : LteRlcUmQueue α} {sn : SequenceNumber10} {first : TimedPdu α}
  {txBuffer : List (TimedPdu α)} {size next id : Nat} {dataField : List (TxPdu α)}

theorem toTx_doTransmitPdcpPdu (now : Int) (p : List α) :
    (s.doTransmitPdcpPdu now p).toTx sn = LteRlcUm.doTransmitPdcpPdu (s.toTx sn) p := by
  unfold doTransmitPdcpPdu LteRlcUm.doTransmitPdcpPdu
  have same : LteRlcUm.accepts (s.toTx sn) p = s.accepts p := rfl
  rw [same]
  cases s.accepts p with
  | false => rfl
  | true => cases s.isLate now <;> simp [toTx]

/-- The loop is the one of the transmitting side, which builds the header too. -/
theorem fillDataField_takeSegments (rlcHeader : LteRlcHeader) :
    let d := LteRlcUm.fillDataField first.toTxPdu (txBuffer.map TimedPdu.toTxPdu) size next id
      dataField rlcHeader
    let r := takeSegments first txBuffer size next id dataField
    d.txBuffer = r.1.map TimedPdu.toTxPdu ∧ d.txBufferSize = r.2.1 ∧ d.dataField = r.2.2 := by
  induction txBuffer generalizing first size next id dataField rlcHeader with
  | nil =>
    rw [LteRlcUm.fillDataField.eq_def, takeSegments.eq_def]
    dsimp only
    split
    · split
      · split
        · exact ⟨rfl, rfl, rfl⟩
        · exact ⟨rfl, rfl, rfl⟩
      · exact ⟨rfl, rfl, rfl⟩
    · exact ⟨rfl, rfl, rfl⟩
  | cons second rest ih =>
    rw [LteRlcUm.fillDataField.eq_def, takeSegments.eq_def]
    dsimp
    split
    · split
      · split
        · exact ⟨rfl, rfl, rfl⟩
        · exact ⟨rfl, rfl, rfl⟩
      · by_cases little : next - first.pdu.length ≤ 2
        · simp [little]
        · simp only [little, if_false]
          exact ih _
    · exact ⟨rfl, rfl, rfl⟩

/-- `DoNotifyTxOpportunity` leaves the buffer that it leaves without the times. -/
theorem toTx_doNotifyTxOpportunity {bytes : Nat} {u : LteRlcUmTx α} {pdu : Option (RlcPdu α)}
    (returns : LteRlcUm.doNotifyTxOpportunity (s.toTx sn) bytes = some (u, pdu)) :
    ∃ t, s.doNotifyTxOpportunity bytes = some t ∧ u = t.toTx u.sequenceNumber := by
  rw [LteRlcUm.doNotifyTxOpportunity] at returns
  rw [doNotifyTxOpportunity]
  by_cases small : bytes ≤ 2
  · rw [if_pos small] at returns ⊢
    cases returns
    exact ⟨s, rfl, rfl⟩
  · rw [if_neg small] at returns ⊢
    cases waiting : s.txBuffer with
    | nil =>
      simp only [toTx, waiting, List.map_nil] at returns
      cases returns
      exact ⟨s, rfl, by simp [toTx, waiting]⟩
    | cons first rest =>
      simp only [toTx, waiting, List.map_cons] at returns
      obtain ⟨front, first_, returns⟩ := bind_returns.mp returns
      obtain ⟨back, -, returns⟩ := bind_returns.mp returns
      obtain ⟨packet, -, returns⟩ := bind_returns.mp returns
      obtain ⟨buffer, left, field⟩ := @fillDataField_takeSegments α first rest
        (UInt32.sub s.txBufferSize first.pdu.length) (bytes - 2) 1 [] {}
      cases returns
      dsimp only
      rw [field] at first_
      have some_ : (takeSegments first rest (UInt32.sub s.txBufferSize first.pdu.length)
          (bytes - 2) 1 []).2.2 ≠ [] := by
        intro empty
        rw [empty] at first_
        cases first_
      rw [if_neg some_]
      refine ⟨_, rfl, ?_⟩
      simp only [toTx, buffer, left]

/-! ## The size of the buffer -/

/-- The bytes that wait. -/
def total (txBuffer : List (TimedPdu α)) : Nat := (txBuffer.map (·.pdu.length)).sum

theorem total_cons : total (first :: txBuffer) = first.pdu.length + total txBuffer := by
  rw [total, List.map_cons, List.sum_cons, total]

theorem total_concat : total (txBuffer ++ [first]) = total txBuffer + first.pdu.length := by
  rw [total, List.map_append, List.sum_append, total]
  rfl

theorem giveBack_total (counted : size = total txBuffer)
    (room : total txBuffer + first.pdu.length < 2 ^ 32) (status : SduStatus) (taken : Nat) :
    UInt32.add size (first.pdu.drop taken).length =
        total (⟨⟨status, first.pdu.drop taken⟩, first.waitingSince⟩ :: txBuffer) ∧
      total (⟨⟨status, first.pdu.drop taken⟩, first.waitingSince⟩ :: txBuffer) ≤
        total txBuffer + first.pdu.length := by
  have shorter : (first.pdu.drop taken).length ≤ first.pdu.length := by
    rw [List.length_drop]
    exact Nat.sub_le _ _
  rw [total_cons, UInt32.add_of_lt (by omega)]
  dsimp only
  omega

/-- The loop keeps count of what it takes and gives back. -/
theorem takeSegments_total (counted : size = total txBuffer)
    (room : total txBuffer + first.pdu.length < 2 ^ 32) :
    (takeSegments first txBuffer size next id dataField).2.1 =
        total (takeSegments first txBuffer size next id dataField).1 ∧
      total (takeSegments first txBuffer size next id dataField).1 ≤
        total txBuffer + first.pdu.length := by
  induction txBuffer generalizing first size next id dataField with
  | nil =>
    rw [takeSegments.eq_def]
    dsimp only
    split
    · split
      · split
        · exact giveBack_total counted room _ _
        · exact ⟨counted, Nat.le_add_right _ _⟩
      · exact ⟨counted, Nat.le_add_right _ _⟩
    · exact ⟨counted, Nat.le_add_right _ _⟩
  | cons second rest ih =>
    rw [takeSegments.eq_def]
    dsimp only
    split
    · split
      · split
        · exact giveBack_total counted room _ _
        · exact ⟨counted, Nat.le_add_right _ _⟩
      · split
        · exact ⟨counted, Nat.le_add_right _ _⟩
        · rw [total_cons] at counted room ⊢
          have left : UInt32.sub size second.pdu.length = total rest := by
            rw [UInt32.sub_of_le (by omega) (by omega)]
            omega
          obtain ⟨exact_, bound⟩ := @ih second _ _ _ _ left (by omega)
          exact ⟨exact_, bound.trans (by omega)⟩
    · exact ⟨counted, Nat.le_add_right _ _⟩

/-! ## Runs -/

/-- The size is the one of what waits, and within the limit. -/
structure Accounted (s : LteRlcUmQueue α) : Prop where
  size : s.txBufferSize = total s.txBuffer
  limit : s.txBufferSize ≤ s.maxTxBufferSize

/-- An SDU that is handed over is reported as dropped or put into the buffer, and not both; nothing
else is reported. -/
def Exclusive (s : LteRlcUmQueue α) : Event α → Prop
  | .transmitPdcpPdu now p =>
    ((s.doTransmitPdcpPdu now p).txDrop = s.txDrop ++ [p] ∧
      (s.doTransmitPdcpPdu now p).txBuffer = s.txBuffer) ∨
    ((s.doTransmitPdcpPdu now p).txDrop = s.txDrop ∧
      (s.doTransmitPdcpPdu now p).txBuffer = s.txBuffer ++ [⟨⟨.fullSdu, p⟩, now⟩])
  | .notifyTxOpportunity bytes => ∀ t, s.doNotifyTxOpportunity bytes = some t → t.txDrop = s.txDrop

/-- An SDU that finds room does not come late, and the sum of the sizes is not cut. -/
def InTime (s : LteRlcUmQueue α) : Event α → Prop
  | .transmitPdcpPdu now p => s.accepts p = true →
      s.isLate now = false ∧ s.txBufferSize + p.length < 2 ^ 32
  | .notifyTxOpportunity _ => True

/-- The state between events. -/
structure Inv (s : LteRlcUmQueue α) : Prop extends Accounted s where
  small : s.txBufferSize < 2 ^ 32

theorem doTransmitPdcpPdu_full {now : Int} {p : List α} (full : s.accepts p = false) :
    s.doTransmitPdcpPdu now p = { s with txDrop := s.txDrop ++ [p] } := by
  rw [doTransmitPdcpPdu, full, if_neg Bool.false_ne_true]

theorem doTransmitPdcpPdu_room (now : Int) {p : List α} (room : s.accepts p = true) :
    (s.doTransmitPdcpPdu now p).txDrop = (if s.isLate now then s.txDrop ++ [p] else s.txDrop) ∧
      (s.doTransmitPdcpPdu now p).txBuffer = s.txBuffer ++ [⟨⟨.fullSdu, p⟩, now⟩] ∧
      (s.doTransmitPdcpPdu now p).txBufferSize = UInt32.add s.txBufferSize p.length ∧
      (s.doTransmitPdcpPdu now p).maxTxBufferSize = s.maxTxBufferSize := by
  rw [doTransmitPdcpPdu, room, if_pos rfl]
  cases s.isLate now <;> exact ⟨rfl, rfl, rfl, rfl⟩

/-- An SDU is reported or stored, and the size stays right, if and only if it comes in time. -/
theorem Inv.transmit_iff (inv : Inv s) (now : Int) (p : List α) :
    (Exclusive s (.transmitPdcpPdu now p) ∧ Accounted (s.doTransmitPdcpPdu now p)) ↔
      InTime s (.transmitPdcpPdu now p) := by
  simp only [Exclusive, InTime]
  cases room : s.accepts p with
  | false =>
    rw [doTransmitPdcpPdu_full room]
    exact ⟨fun _ => nofun, fun _ => ⟨.inl ⟨rfl, rfl⟩, inv.size, inv.limit⟩⟩
  | true =>
    obtain ⟨drops, waits, size, limit⟩ := doTransmitPdcpPdu_room now room
    have below : UInt32.add s.txBufferSize p.length ≤ s.maxTxBufferSize := of_decide_eq_true room
    constructor
    · rintro ⟨once, accounted⟩ -
      refine ⟨?_, ?_⟩
      · rw [drops, waits] at once
        cases late : s.isLate now with
        | false => rfl
        | true => simp [late] at once
      · have counted := accounted.size
        rw [size, waits, total_concat, ← inv.size, UInt32.add] at counted
        dsimp only at counted
        omega
    · intro inTime
      obtain ⟨early, short⟩ := inTime rfl
      rw [early, if_neg Bool.false_ne_true] at drops
      refine ⟨.inr ⟨drops, waits⟩, ?_, ?_⟩
      · rw [size, waits, total_concat, ← inv.size, UInt32.add_of_lt short]
      · rw [size, limit]
        exact below

/-- An opportunity keeps the size, and reports nothing. -/
theorem Inv.opportunity {bytes : Nat} (inv : Inv s)
    (returns : s.doNotifyTxOpportunity bytes = some t) : Inv t ∧ t.txDrop = s.txDrop := by
  rw [doNotifyTxOpportunity] at returns
  split at returns
  · cases returns
    exact ⟨inv, rfl⟩
  · split at returns
    case h_1 =>
      cases returns
      exact ⟨inv, rfl⟩
    case h_2 first rest waiting =>
      have counted := inv.size
      have small := inv.small
      have limit := inv.limit
      rw [waiting, total_cons] at counted
      have left : UInt32.sub s.txBufferSize first.pdu.length = total rest := by
        rw [UInt32.sub_of_le (by omega) small]
        omega
      obtain ⟨sum, bound⟩ := @takeSegments_total α first rest _ (bytes - 2) 1 [] left (by omega)
      dsimp only at returns
      split at returns
      · cases returns
      · cases returns
        refine ⟨⟨⟨sum, ?_⟩, ?_⟩, rfl⟩
        · show (takeSegments first rest _ (bytes - 2) 1 []).2.1 ≤ s.maxTxBufferSize
          omega
        · show (takeSegments first rest _ (bytes - 2) 1 []).2.1 < 2 ^ 32
          omega

theorem Inv.step {e : Event α} (inv : Inv s) (inTime : InTime s e) (returns : s.step e = some t) :
    Inv t := by
  cases e with
  | transmitPdcpPdu now p =>
    cases returns
    have accounted := ((inv.transmit_iff now p).mpr inTime).2
    refine ⟨accounted, ?_⟩
    cases room : s.accepts p with
    | false =>
      rw [doTransmitPdcpPdu_full room]
      exact inv.small
    | true =>
      rw [(doTransmitPdcpPdu_room _ room).2.2.1]
      exact UInt32.add_lt _ _
  | notifyTxOpportunity bytes => exact (inv.opportunity returns).1

theorem Inv.step_iff (inv : Inv s) (e : Event α) :
    (Exclusive s e ∧ ∀ t, s.step e = some t → Accounted t) ↔ InTime s e := by
  cases e with
  | transmitPdcpPdu now p =>
    rw [← inv.transmit_iff now p]
    refine and_congr_right fun _ => ⟨fun each => each _ rfl, fun accounted t returns => ?_⟩
    cases returns
    exact accounted
  | notifyTxOpportunity bytes =>
    refine ⟨fun _ => trivial, fun _ => ⟨fun t returns => (inv.opportunity returns).2, ?_⟩⟩
    exact fun t returns => (inv.opportunity returns).1.toAccounted

/-- The entity before its first event. -/
def start (maxTxBufferSize discardTimerMs packetDelayBudgetMs : Nat)
    (enablePdcpDiscarding : Bool) : LteRlcUmQueue α :=
  { maxTxBufferSize, discardTimerMs, packetDelayBudgetMs, enablePdcpDiscarding }

/-- In a run each SDU is reported as dropped or put into the buffer, and not both, and the size of
the buffer is right and within the limit, if and only if each SDU that finds room comes in time. -/
theorem exclusive_iff (maxTxBufferSize discardTimerMs packetDelayBudgetMs : Nat)
    (enablePdcpDiscarding : Bool) (events : List (Event α)) :
    (Run.Meets step Exclusive
        (start maxTxBufferSize discardTimerMs packetDelayBudgetMs enablePdcpDiscarding) events ∧
      Run.Always step Accounted
        (start maxTxBufferSize discardTimerMs packetDelayBudgetMs enablePdcpDiscarding) events) ↔
    Run.Meets step InTime
      (start maxTxBufferSize discardTimerMs packetDelayBudgetMs enablePdcpDiscarding) events := by
  have inv : Inv (start maxTxBufferSize discardTimerMs packetDelayBudgetMs enablePdcpDiscarding :
      LteRlcUmQueue α) := ⟨⟨rfl, Nat.zero_le _⟩, Nat.two_pow_pos 32⟩
  generalize (start maxTxBufferSize discardTimerMs packetDelayBudgetMs enablePdcpDiscarding :
    LteRlcUmQueue α) = s at inv
  induction events generalizing s with
  | nil => exact ⟨fun _ => trivial, fun _ => ⟨trivial, inv.toAccounted⟩⟩
  | cons e events ih =>
    constructor
    · rintro ⟨⟨once, later⟩, -, always⟩
      have inTime := (inv.step_iff e).mp ⟨once, fun t returns => (always t returns).here⟩
      refine ⟨inTime, fun t returns => ?_⟩
      exact (ih t (inv.step inTime returns)).mp ⟨later t returns, always t returns⟩
    · rintro ⟨inTime, meets⟩
      have each := fun t returns => (ih t (inv.step inTime returns)).mpr (meets t returns)
      exact ⟨⟨((inv.step_iff e).mpr inTime).1, fun t returns => (each t returns).1⟩,
        inv.toAccounted, fun t returns => (each t returns).2⟩

/-- The second SDU comes 101 ms after the first, with a budget of 100 ms: it is reported as dropped,
and put into the buffer. -/
theorem not_exclusive : ¬ ∀ events : List (Event Nat),
    Run.Meets step Exclusive (start 10240 0 100 true) events ∧
      Run.Always step Accounted (start 10240 0 100 true) events := by
  intro claim
  obtain ⟨⟨-, later⟩, -⟩ := claim [.transmitPdcpPdu 0 [1], .transmitPdcpPdu 101000000 [2]]
  have reported : (((start 10240 0 100 true : LteRlcUmQueue Nat).doTransmitPdcpPdu 0
      [1]).doTransmitPdcpPdu 101000000 [2]).txDrop = [[2]] := by decide
  have stored : (((start 10240 0 100 true : LteRlcUmQueue Nat).doTransmitPdcpPdu 0
      [1]).doTransmitPdcpPdu 101000000 [2]).txBuffer =
        [⟨⟨.fullSdu, [1]⟩, 0⟩, ⟨⟨.fullSdu, [2]⟩, 101000000⟩] := by decide
  obtain ⟨-, same⟩ | ⟨same, -⟩ := (later _ rfl).1
  · rw [stored] at same
    exact absurd same (by decide)
  · rw [reported] at same
    exact absurd same (by decide)

end LteRlcUmQueue

end Ns3
