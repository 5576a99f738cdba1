import Ns3.Core.Assert
import Ns3.Lte.LteRlcHeader
import Ns3.Library.Frames
import Mathlib.Tactic.Ring

/-!
# The transmitting side of RLC UM

SDUs wait in a buffer. At a transmission opportunity `DoNotifyTxOpportunity` takes SDUs from
its front until the opportunity is used up, cuts the last one if need be, and frames them in one
PDU. The PDUs carry the stream of SDUs.
-/

namespace Ns3

open Frames List

/-- `LteRlcSduStatusTag::SduStatus_t`. -/
inductive SduStatus where
  | fullSdu
  | firstSegment
  | middleSegment
  | lastSegment
  deriving DecidableEq

/-- A piece begins or ends an SDU. -/
def SduStatus.begins (status : SduStatus) : Bool := status = .fullSdu || status = .firstSegment
def SduStatus.ends (status : SduStatus) : Bool := status = .fullSdu || status = .lastSegment

/-- `TxPdu`: an SDU, or what is left of one, with its status tag. -/
structure TxPdu (α : Type) where
  status : SduStatus
  pdu : List α
  deriving DecidableEq

/-- A PDU as it is sent: the bytes of its header and the data after them. -/
structure RlcPdu (α : Type) where
  header : List Nat
  data : List α
  deriving DecidableEq

/-- `GetSize`. -/
def RlcPdu.size {α : Type} (p : RlcPdu α) : Nat := p.header.length + p.data.length

/-- `AddHeader`: `Serialize` writes into as many bytes as `GetSerializedSize` says. -/
def RlcPdu.addHeader {α : Type} (h : LteRlcHeader) (data : List α) : Option (RlcPdu α) := do
  let header ← h.serialize
  if header.length = h.headerLength then return ⟨header, data⟩ else none

/-- The transmitting side of `LteRlcUm`. -/
structure LteRlcUmTx (α : Type) where
  maxTxBufferSize : Nat := 10 * 1024
  txBufferSize : Nat := 0
  txBuffer : List (TxPdu α) := []
  sequenceNumber : SequenceNumber10 := .ofNat 0

/-- What the loop of `DoNotifyTxOpportunity` works on. -/
structure DataField (α : Type) where
  txBuffer : List (TxPdu α)
  txBufferSize : Nat
  dataField : List (TxPdu α)
  rlcHeader : LteRlcHeader

namespace LteRlcUm

variable {α : Type}

/-- The SDU finds room in the transmission buffer. -/
def accepts (s : LteRlcUmTx α) (p : List α) : Bool :=
  UInt32.add s.txBufferSize p.length ≤ s.maxTxBufferSize

/-- `DoTransmitPdcpPdu`. The discard timer only traces. -/
def doTransmitPdcpPdu (s : LteRlcUmTx α) (p : List α) : LteRlcUmTx α :=
  if accepts s p then
    { s with
      txBuffer := s.txBuffer ++ [⟨.fullSdu, p⟩]
      txBufferSize := UInt32.add s.txBufferSize p.length }
  else s

/-- The status tags of a segment that is cut off and of the rest. -/
def splitStatus : SduStatus → SduStatus × SduStatus
  | .fullSdu => (.firstSegment, .lastSegment)
  | .lastSegment => (.middleSegment, .lastSegment)
  | other => (other, other)

/-- The tag of the new segment when nothing is left. -/
def wholeTaken : SduStatus → SduStatus
  | .firstSegment => .fullSdu
  | .middleSegment => .lastSegment
  | other => other

/-- The loop of `DoNotifyTxOpportunity`. -/
def fillDataField (firstSegment : TxPdu α) (txBuffer : List (TxPdu α))
    (txBufferSize nextSegmentSize nextSegmentId : Nat) (dataField : List (TxPdu α))
    (rlcHeader : LteRlcHeader) : DataField α :=
  let size := firstSegment.pdu.length
  if 0 < size ∧ 0 < nextSegmentSize then
    if nextSegmentSize < size ∨ 2047 < size then
      let currSegmentSize := min size nextSegmentSize
      let (newTag, oldTag) := splitStatus firstSegment.status
      let newSegment := firstSegment.pdu.take currSegmentSize
      let remaining := firstSegment.pdu.drop currSegmentSize
      let rlcHeader := rlcHeader.pushExtensionBit LteRlcHeader.dataFieldFollows
      if 0 < remaining.length then
        { txBuffer := ⟨oldTag, remaining⟩ :: txBuffer
          txBufferSize := UInt32.add txBufferSize remaining.length
          dataField := dataField ++ [⟨newTag, newSegment⟩], rlcHeader }
      else
        { txBuffer, txBufferSize, rlcHeader
          dataField := dataField ++ [⟨wholeTaken newTag, newSegment⟩] }
    else
      match txBuffer with
      | [] =>
        { txBuffer, txBufferSize
          dataField := dataField ++ [firstSegment]
          rlcHeader := rlcHeader.pushExtensionBit LteRlcHeader.dataFieldFollows }
      | second :: rest =>
        if nextSegmentSize - size ≤ 2 then
          { txBuffer, txBufferSize
            dataField := dataField ++ [firstSegment]
            rlcHeader := rlcHeader.pushExtensionBit LteRlcHeader.dataFieldFollows }
        else
          fillDataField second rest (UInt32.sub txBufferSize second.pdu.length)
            (nextSegmentSize - ((if nextSegmentId % 2 ≠ 0 then 2 else 1) + size))
            (nextSegmentId + 1)
            (dataField ++ [firstSegment])
            ((rlcHeader.pushExtensionBit LteRlcHeader.eLiFieldsFollows).pushLengthIndicator size)
  else { txBuffer, txBufferSize, dataField, rlcHeader }
termination_by structural txBuffer

/-- The framing info of a data field. -/
def framingInfo (first last : SduStatus) : Nat :=
  (if first.begins then LteRlcHeader.firstByte else LteRlcHeader.noFirstByte) |||
    (if last.ends then LteRlcHeader.lastByte else LteRlcHeader.noLastByte)

/-- `DoNotifyTxOpportunity`: the PDU that is sent, if there is one. -/
def doNotifyTxOpportunity (s : LteRlcUmTx α) (bytes : Nat) :
    Option (LteRlcUmTx α × Option (RlcPdu α)) :=
  if bytes ≤ 2 then some (s, none)
  else
    match s.txBuffer with
    | [] => some (s, none)
    | firstSegment :: txBuffer => do
        let d := fillDataField firstSegment txBuffer
          (UInt32.sub s.txBufferSize firstSegment.pdu.length) (bytes - 2) 1 [] {}
        let first ← d.dataField.head?
        let last ← d.dataField.getLast?
        let rlcHeader := (d.rlcHeader.setSequenceNumber s.sequenceNumber).setFramingInfo
          (framingInfo first.status last.status)
        let pdu ← RlcPdu.addHeader rlcHeader (d.dataField.flatMap (·.pdu))
        return ({ s with
          txBuffer := d.txBuffer
          txBufferSize := d.txBufferSize
          sequenceNumber := s.sequenceNumber.incr }, some pdu)

/-! ## What the loop takes -/

/-- The pieces that the loop takes from the buffer, the last of which may be cut. -/
inductive Takes : TxPdu α → List (TxPdu α) → List (TxPdu α) → List (TxPdu α) → Prop
  | whole {first : TxPdu α} {txBuffer : List (TxPdu α)} : Takes first txBuffer [first] txBuffer
  | cut {first : TxPdu α} {txBuffer : List (TxPdu α)} {front back : List α} :
      front ++ back = first.pdu → front ≠ [] → back ≠ [] →
      Takes first txBuffer [⟨(splitStatus first.status).1, front⟩]
        (⟨.lastSegment, back⟩ :: txBuffer)
  | more {first second : TxPdu α} {rest taken left : List (TxPdu α)} : first.pdu.length < 2048 →
      Takes second rest taken left → Takes first (second :: rest) (first :: taken) left

/-- What waits at the front is an SDU or the rest of one. -/
def AtFront (p : TxPdu α) : Prop := (p.status = .fullSdu ∨ p.status = .lastSegment) ∧ p.pdu ≠ []

/-- The bytes that the loop counts for the length indicators from the `id`th on. -/
def countLi (id : Nat) : Nat → Nat
  | 0 => 0
  | n + 1 => (if id % 2 ≠ 0 then 2 else 1) + countLi (id + 1) n

theorem countLi_one (n : Nat) : countLi 1 n = LteRlcHeader.liBytes n := by
  have both (k : Nat) : countLi (2 * k + 1) n = LteRlcHeader.liBytes n ∧
      countLi (2 * k + 2) n = n + n / 2 := by
    induction n generalizing k with
    | zero => exact ⟨rfl, rfl⟩
    | succ n ih =>
      rw [countLi, countLi, (ih k).2, show 2 * k + 2 + 1 = 2 * (k + 1) + 1 by ring,
        (ih (k + 1)).1,
        LteRlcHeader.liBytes_eq, LteRlcHeader.liBytes_eq]
      constructor <;> split <;> omega
  exact (both 0).1

/-- The sizes of the pieces but the last. -/
def sizes (taken : List (TxPdu α)) : List Nat := taken.dropLast.map (·.pdu.length)

/-- What the loop leaves when it ends with the pieces `taken`. -/
def Fills (first : TxPdu α) (txBuffer : List (TxPdu α)) (size next id : Nat)
    (dataField : List (TxPdu α)) (lis : List Nat) : Prop :=
  ∃ taken left size', fillDataField first txBuffer size next id dataField
    (LteRlcHeader.pushed lis) =
      { txBuffer := left, txBufferSize := size', dataField := dataField ++ taken
        rlcHeader := (LteRlcHeader.pushed (lis ++ sizes taken)).pushExtensionBit 0 } ∧
    Takes first txBuffer taken left ∧
    (taken.flatMap (·.pdu)).length + countLi id (taken.length - 1) ≤ next

variable {first second : TxPdu α} {txBuffer rest taken left dataField : List (TxPdu α)}
  {next id size : Nat} {lis : List Nat}

theorem splitStatus_front (front : AtFront first) :
    (splitStatus first.status).2 = .lastSegment ∧
      wholeTaken (splitStatus first.status).1 = first.status := by
  obtain full | last := front.1
  · rw [full]
    exact ⟨rfl, rfl⟩
  · rw [last]
    exact ⟨rfl, rfl⟩

/-- The SDU is cut, or is too long to be followed by another. -/
theorem fills_cut (front : AtFront first) (room : 0 < next)
    (ends : next < first.pdu.length ∨ 2047 < first.pdu.length) :
    Fills first txBuffer size next id dataField lis := by
  obtain ⟨oldTag, newTag⟩ := splitStatus_front front
  have positive : 0 < first.pdu.length := length_pos_iff.mpr front.2
  rw [Fills, fillDataField.eq_def]
  simp only [positive, room, and_self, if_true, ends, oldTag, newTag, length_drop]
  by_cases short : next < first.pdu.length
  · rw [min_eq_right short.le, if_pos (by omega)]
    refine ⟨[⟨(splitStatus first.status).1, first.pdu.take next⟩],
      ⟨.lastSegment, first.pdu.drop next⟩ :: txBuffer, UInt32.add size (first.pdu.length - next),
        ?_,
      .cut (take_append_drop next first.pdu) ?_ ?_, ?_⟩
    · simp [sizes, LteRlcHeader.dataFieldFollows]
    · rw [ne_eq, take_eq_nil_iff]
      exact not_or.mpr ⟨by omega, front.2⟩
    · rw [ne_eq, drop_eq_nil_iff]
      omega
    · simp only [flatMap_singleton, length_singleton, Nat.sub_self, countLi,
        length_take]
      omega
  · rw [min_eq_left (by omega), if_neg (by omega)]
    refine ⟨[first], txBuffer, size, ?_, .whole, ?_⟩
    · simp [sizes, LteRlcHeader.dataFieldFollows]
    · simp only [flatMap_singleton, length_singleton, Nat.sub_self, countLi]
      omega

theorem fills_last (fits : first.pdu.length ≤ next)
    (returns : fillDataField first txBuffer size next id dataField (LteRlcHeader.pushed lis) =
      { txBuffer, txBufferSize := size, dataField := dataField ++ [first]
        rlcHeader := (LteRlcHeader.pushed lis).pushExtensionBit LteRlcHeader.dataFieldFollows }) :
    Fills first txBuffer size next id dataField lis := by
  refine ⟨[first], txBuffer, size, ?_, .whole, ?_⟩
  · rw [returns]
    simp [sizes, LteRlcHeader.dataFieldFollows]
  · simp only [flatMap_singleton, length_singleton, Nat.sub_self, countLi]
    omega

theorem Takes.ne_nil (takes : Takes first txBuffer taken left) : taken ≠ [] := by
  cases takes <;> exact cons_ne_nil _ _

/-- The loop takes pieces that fit, and pushes their length indicators. -/
theorem fillDataField_spec (front : AtFront first) (waits : ∀ p ∈ txBuffer, AtFront p)
    (room : 0 < next) : Fills first txBuffer size next id dataField lis := by
  induction txBuffer generalizing first next id size dataField lis with
  | nil =>
    have positive : 0 < first.pdu.length := length_pos_iff.mpr front.2
    by_cases ends : next < first.pdu.length ∨ 2047 < first.pdu.length
    · exact fills_cut front room ends
    · refine fills_last (by omega) ?_
      rw [fillDataField.eq_def]
      simp [positive, room, ends]
  | cons second rest ih =>
    have positive : 0 < first.pdu.length := length_pos_iff.mpr front.2
    by_cases ends : next < first.pdu.length ∨ 2047 < first.pdu.length
    · exact fills_cut front room ends
    · by_cases little : next - first.pdu.length ≤ 2
      · refine fills_last (by omega) ?_
        rw [fillDataField.eq_def]
        simp [positive, room, ends, little]
      · -- the SDU is taken with a length indicator
        have cost : (if id % 2 ≠ 0 then 2 else 1) ≤ 2 := by split <;> decide
        obtain ⟨taken, left, size', returns, takes, fits⟩ : Fills second rest
            (UInt32.sub size second.pdu.length)
            (next - ((if id % 2 ≠ 0 then 2 else 1) + first.pdu.length)) (id + 1)
            (dataField ++ [first]) (lis ++ [first.pdu.length]) :=
          ih (waits second mem_cons_self)
            (fun p mem => waits p (mem_cons_of_mem second mem)) (by omega)
        refine ⟨first :: taken, left, size', ?_, .more (by omega) takes, ?_⟩
        · rw [fillDataField.eq_def]
          simp only [positive, room, and_self, if_true, ends, little, if_false]
          rw [← LteRlcHeader.pushed_concat, returns, sizes, sizes,
            dropLast_cons_of_ne_nil takes.ne_nil]
          simp
        · have some_ : 0 < taken.length := length_pos_iff.mpr takes.ne_nil
          obtain ⟨n, count⟩ : ∃ n, taken.length = n + 1 := ⟨_, (Nat.sub_add_cancel some_).symm⟩
          rw [count, Nat.add_sub_cancel] at fits
          rw [flatMap_cons, length_append, length_cons, count, Nat.add_sub_cancel,
            countLi]
          omega

/-! ## The frame of a data field -/

/-- The frame that some pieces make. -/
def frameOf (first : TxPdu α) (others : List (TxPdu α)) : Frame α where
  head := first.pdu
  tail := others.map (·.pdu)
  first := first.status.begins
  last := (others.getLastD first).status.ends

/-- The status of what waits at the front, when the SDU `part` has been begun. -/
def frontStatus (part : Option (List α)) : SduStatus :=
    if part.isNone then .fullSdu else .lastSegment

/-- The buffer holds what is left of the SDUs `sdus`, of the first of which `part` has been sent. -/
inductive Waits (part : Option (List α)) : List (TxPdu α) → List (List α) → Prop
  | nil : part = none → Waits part [] []
  | cons {first : TxPdu α} {later : List (List α)} : first.pdu ≠ [] → [] ∉ later →
      first.status = frontStatus part →
      Waits part (first :: later.map (⟨.fullSdu, ·⟩)) ((part.getD [] ++ first.pdu) :: later)

variable {sdus : List (List α)}

theorem waits_none (some_ : [] ∉ sdus) :
    Waits none (sdus.map (⟨.fullSdu, ·⟩)) sdus := by
  cases sdus with
  | nil => exact .nil rfl
  | cons sdu later =>
    obtain ⟨first, others⟩ := not_or.mp (mt mem_cons.mpr some_)
    exact @Waits.cons _ none ⟨.fullSdu, sdu⟩ later (fun empty => first empty.symm) others rfl

theorem Waits.length {part : Option (List α)}
    (waits : Waits part txBuffer sdus) :
    txBuffer.length = sdus.length := by
  cases waits with
  | nil => rfl
  | cons => simp

theorem Waits.atFront {part : Option (List α)}
    (waits : Waits part txBuffer sdus) :
    ∀ p ∈ txBuffer, AtFront p := by
  cases waits with
  | nil => exact nofun
  | @cons first later some_ others status =>
    intro p mem
    obtain rfl | mem := mem_cons.mp mem
    · refine ⟨?_, some_⟩
      rw [status, frontStatus]
      split
      · exact .inl rfl
      · exact .inr rfl
    · obtain ⟨sdu, there, rfl⟩ := List.mem_map.mp mem
      exact ⟨.inl rfl, fun empty => others (empty ▸ there)⟩

theorem Waits.concat {part : Option (List α)}
    (waits : Waits part txBuffer sdus)
    {sdu : List α} (some_ : sdu ≠ []) :
    Waits part (txBuffer ++ [⟨.fullSdu, sdu⟩]) (sdus ++ [sdu]) := by
  cases waits with
  | nil none_ =>
    subst none_
    exact @Waits.cons _ none ⟨.fullSdu, sdu⟩ [] some_ not_mem_nil rfl
  | @cons first later some_' others status =>
    have more := @Waits.cons _ part first (later ++ [sdu]) some_' (fun mem => by
      obtain mem | mem := mem_append.mp mem
      · exact others mem
      · exact some_ (mem_singleton.mp mem).symm) status
    rw [map_append] at more
    exact more

theorem Waits.front {part : Option (List α)}
    (waits : Waits part (first :: txBuffer) sdus) :
    ∃ later, first.pdu ≠ [] ∧ [] ∉ later ∧ first.status = frontStatus part ∧
      txBuffer = later.map (⟨.fullSdu, ·⟩) ∧ sdus = (part.getD [] ++ first.pdu) :: later := by
  generalize buffer : first :: txBuffer = b at waits
  cases waits with
  | nil => cases buffer
  | @cons first' later some_ others status =>
    cases buffer
    exact ⟨later, some_, others, status, rfl, rfl⟩

theorem ended_cons (x y : TxPdu α) (xs : List (TxPdu α)) (before : List α) :
    (frameOf x (y :: xs)).ended before = (before ++ x.pdu) :: (frameOf y xs).ended [] ∧
      (frameOf x (y :: xs)).opened before = (frameOf y xs).opened [] := by
  have last : (y :: xs).getLastD x = xs.getLastD y := by cases xs <;> rfl
  simp only [Frame.ended, Frame.opened, Frame.whole, frameOf, last, map_cons, nil_append]
  by_cases ends : (xs.getLastD y).status.ends = true
  · simp only [ends, if_true, and_self]
  · simp only [ends, Bool.false_eq_true, if_false]
    exact ⟨dropLast_cons_of_ne_nil (cons_ne_nil _ _), getLast?_cons_cons ..⟩

theorem frontStatus_begins (part : Option (List α)) : (frontStatus part).begins = part.isNone := by
  cases part <;> rfl

theorem frontStatus_ends (part : Option (List α)) : (frontStatus part).ends = true := by
  cases part <;> rfl

/-- The pieces are a frame of the stream, and the rest waits. -/
theorem Takes.frame (takes : Takes first txBuffer taken left) {part : Option (List α)}
    (waits : Waits part (first :: txBuffer) sdus) :
    ∃ x xs, taken = x :: xs ∧ (frameOf x xs).first = part.isNone ∧ ∃ later,
      sdus = (frameOf x xs).ended (part.getD []) ++ later ∧
        Waits ((frameOf x xs).opened (part.getD [])) left later := by
  induction takes generalizing part sdus with
  | @whole first txBuffer =>
    obtain ⟨later, -, others, status, rfl, rfl⟩ := waits.front
    have ends : (frameOf first []).last = true := by
      rw [frameOf, getLastD_nil, status, frontStatus_ends]
    refine ⟨first, [], rfl, by rw [frameOf, status, frontStatus_begins], later, ?_, ?_⟩
    · rw [Frame.ended, ends]
      rfl
    · rw [Frame.opened, ends]
      exact waits_none others
  | @cut first txBuffer front back split _ some_ =>
    obtain ⟨later, -, others, status, rfl, rfl⟩ := waits.front
    obtain ⟨begins, ends⟩ : (splitStatus first.status).1.begins = part.isNone ∧
        (splitStatus first.status).1.ends = false := by
      rw [status]
      cases part <;> exact ⟨rfl, rfl⟩
    refine ⟨_, [], rfl, begins, (part.getD [] ++ first.pdu) :: later, ?_, ?_⟩
    · rw [Frame.ended, frameOf, getLastD_nil, ends]
      rfl
    · rw [Frame.opened, frameOf, getLastD_nil, ends, ← split, ← append_assoc]
      exact @Waits.cons _ (some (part.getD [] ++ front)) ⟨.lastSegment,
        back⟩ later some_ others rfl
  | @more first second rest taken left _ _ ih =>
    obtain ⟨later, -, others, status, behind, rfl⟩ := waits.front
    have waits' : Waits none (second :: rest) later := behind ▸ waits_none others
    obtain ⟨y, xs, rfl, -, later', sdus, waits''⟩ := ih waits'
    obtain ⟨ended, opened⟩ := ended_cons first y xs (part.getD [])
    refine ⟨first, y :: xs, rfl, ?_, later', ?_, ?_⟩
    · rw [frameOf, status, frontStatus_begins]
    · rw [ended, cons_append]
      exact congrArg _ sdus
    · rw [opened]
      exact waits''

end LteRlcUm

end Ns3
