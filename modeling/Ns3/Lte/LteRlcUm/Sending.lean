import Ns3.Lte.LteRlcUm.Transmit
import Ns3.Library.Run

/-!
# The PDUs of a sender

Each PDU carries the next frame of the stream of SDUs and is no larger than its opportunity. The
length of a header is kept in sixteen bits: the header of a PDU with more than 43689 SDUs does not
fit.
-/

namespace Ns3

open Frames List Option

namespace LteRlcUm

variable {α : Type} {first : TxPdu α} {txBuffer taken left : List (TxPdu α)}

/-! ## The PDU of a frame -/

/-- The framing info of a frame. -/
def framing (f : Frame α) : Nat :=
  (if f.first then LteRlcHeader.firstByte else LteRlcHeader.noFirstByte) |||
    (if f.last then LteRlcHeader.lastByte else LteRlcHeader.noLastByte)

theorem framing_lt (f : Frame α) : framing f < 4 := by
  rw [framing]
  cases f.first <;> cases f.last <;> decide

/-- The length indicators of a frame. -/
def lengthIndicators (f : Frame α) : List Nat := f.pieces.dropLast.map (·.length)

theorem lengthIndicators_length (f : Frame α) : (lengthIndicators f).length = f.tail.length := by
  rw [lengthIndicators, length_map, length_dropLast, Frame.pieces, length_cons,
    Nat.add_sub_cancel]

/-- The `n`th PDU, when it carries the frame `f`. -/
def pduOf (n : Nat) (f : Frame α) : RlcPdu α where
  header := ((LteRlcHeader.formed (framing f) ⟨n % 1024, 0⟩ (lengthIndicators f)).serialize).getD []
  data := f.pieces.flatten

/-- The length indicators of the frame fit into eleven bits, and its header into sixteen. -/
structure Fits (f : Frame α) : Prop where
  small : ∀ li ∈ lengthIndicators f, li < 2048
  short : 2 + LteRlcHeader.liBytes f.tail.length < 65536

theorem pduOf_size (n : Nat) (f : Frame α) :
    (pduOf n f).size = 2 + LteRlcHeader.liBytes f.tail.length + f.pieces.flatten.length := by
  obtain ⟨bytes, written, length⟩ :=
    LteRlcHeader.serialize_formed (framing f) ⟨n % 1024, 0⟩ (lengthIndicators f)
  rw [RlcPdu.size, pduOf, written, getD_some, length, lengthIndicators_length]

/-- `AddHeader` with the header of a frame. -/
theorem addHeader_pushed {f : Frame α} (small : ∀ li ∈ lengthIndicators f, li < 2048) (n : Nat) :
    RlcPdu.addHeader
      ((((LteRlcHeader.pushed (lengthIndicators f)).pushExtensionBit 0).setSequenceNumber
      ⟨n % 1024, 0⟩).setFramingInfo (framing f)) f.pieces.flatten =
      if 2 + LteRlcHeader.liBytes f.tail.length < 65536 then some (pduOf n f) else none := by
  obtain ⟨bytes, written, length⟩ :=
    LteRlcHeader.serialize_formed (framing f) ⟨n % 1024, 0⟩ (lengthIndicators f)
  have header := LteRlcHeader.pushed_formed small (framing_lt f) ⟨n % 1024, 0⟩
  have written' : LteRlcHeader.serialize
      { LteRlcHeader.formed (framing f) ⟨n % 1024, 0⟩ (lengthIndicators f) with
        headerLength := (2 + LteRlcHeader.liBytes (lengthIndicators f).length) % 65536 } =
          some bytes :=
    written
  rw [LteRlcHeader.dataFieldFollows] at header
  rw [RlcPdu.addHeader, header, written', pduOf, written]
  simp only [some_bind, length, lengthIndicators_length, getD_some]
  by_cases short : 2 + LteRlcHeader.liBytes f.tail.length < 65536
  · rw [if_pos short, if_pos (Nat.mod_eq_of_lt short).symm]
    rfl
  · rw [if_neg short, if_neg (by omega)]

/-- The first SDUs, one more than a header of sixteen bits can describe, fit into the opportunity.
-/
def Overlong (txBuffer : List (TxPdu α)) (bytes : Nat) : Prop :=
  43690 ≤ txBuffer.length ∧ (∀ p ∈ txBuffer.take 43689, p.pdu.length < 2048) ∧
    ((txBuffer.take 43689).flatMap (·.pdu)).length + 65536 < bytes

instance (txBuffer : List (TxPdu α)) (bytes : Nat) : Decidable (Overlong txBuffer bytes) :=
  instDecidableAnd

theorem Takes.front (takes : Takes first txBuffer taken left) :
    taken.dropLast <+: first :: txBuffer ∧ ∀ p ∈ taken.dropLast, p.pdu.length < 2048 := by
  induction takes with
  | whole => exact .intro nil_prefix nofun
  | cut => exact .intro nil_prefix nofun
  | @more first second rest taken left short takes ih =>
    rw [dropLast_cons_of_ne_nil takes.ne_nil]
    refine ⟨cons_prefix_cons.mpr ⟨rfl, ih.1⟩, fun p mem => ?_⟩
    obtain rfl | mem := mem_cons.mp mem
    · exact short
    · exact ih.2 p mem

theorem Takes.length_le (takes : Takes first txBuffer taken left) :
    taken.length ≤ txBuffer.length + 1 := by
  induction takes with
  | whole => exact Nat.le_add_left _ _
  | cut => exact Nat.le_add_left _ _
  | more _ _ ih => exact Nat.succ_le_succ ih

theorem Takes.pdu_ne_nil (takes : Takes first txBuffer taken left)
    (waits : ∀ p ∈ first :: txBuffer, AtFront p) :
    ∀ p ∈ taken, p.pdu ≠ [] := by
  induction takes with
  | whole =>
    intro p mem
    obtain rfl := mem_singleton.mp mem
    exact (waits p mem_cons_self).2
  | cut _ front =>
    intro p mem
    obtain rfl := mem_singleton.mp mem
    exact front
  | more _ _ ih =>
    intro p mem
    obtain rfl | mem := mem_cons.mp mem
    · exact (waits p mem_cons_self).2
    · exact ih (fun q there => waits q (mem_cons_of_mem _ there)) p mem

/-- So a header that does not fit comes from such SDUs. -/
theorem overlong_of_takes (takes : Takes first txBuffer taken left)
    (waits : ∀ p ∈ first :: txBuffer, AtFront p) {bytes : Nat}
    (fits : (taken.flatMap (·.pdu)).length + countLi 1 (taken.length - 1) + 2 ≤ bytes)
    (long : 65536 ≤ 2 + LteRlcHeader.liBytes (taken.length - 1)) : Overlong
    (first :: txBuffer) bytes := by
  obtain ⟨⟨behind, buffer⟩, short⟩ := takes.front
  rw [countLi_one] at fits
  rw [LteRlcHeader.liBytes_eq] at fits long
  have many : 43689 ≤ taken.dropLast.length := by
    rw [length_dropLast]
    omega
  have same : (first :: txBuffer).take 43689 = taken.dropLast.take 43689 := by
    rw [← buffer, take_append_of_le_length many]
  refine ⟨?_, fun p mem => ?_, ?_⟩
  · have length := takes.length_le
    rw [length_cons]
    omega
  · rw [same] at mem
    exact short p (mem_of_mem_take mem)
  · -- the last piece is not empty
    have last := takes.pdu_ne_nil waits _ (getLast_mem takes.ne_nil)
    have positive := length_pos_iff.mpr last
    rw [same]
    have pieces : taken.dropLast ++ [taken.getLast takes.ne_nil] = taken :=
      dropLast_append_getLast takes.ne_nil
    have total : (taken.flatMap (·.pdu)).length = (taken.dropLast.flatMap (·.pdu)).length +
        (taken.getLast takes.ne_nil).pdu.length := by
      conv_lhs => rw [← pieces]
      rw [flatMap_append, length_append, flatMap_singleton]
    have part : ((taken.dropLast.take 43689).flatMap (·.pdu)).length ≤
        (taken.dropLast.flatMap (·.pdu)).length := by
      conv_rhs => rw [← take_append_drop 43689 taken.dropLast]
      rw [flatMap_append, length_append]
      exact Nat.le_add_right _ _
    omega

/-- And such SDUs are all taken. -/
theorem fillDataField_long {dataField : List (TxPdu α)} {next id size : Nat} {lis : List Nat}
    (k : Nat)
    (waits : ∀ p ∈ first :: txBuffer, AtFront p) (room : 0 < next) (many : k ≤ txBuffer.length)
    (short : ∀ p ∈ (first :: txBuffer).take k, p.pdu.length < 2048)
    (fits : 0 < k → (((first :: txBuffer).take k).flatMap (·.pdu)).length + countLi id (k - 1) + 2 <
      next) :
    dataField.length + k < (fillDataField first txBuffer size next id dataField
      (LteRlcHeader.pushed lis)).dataField.length := by
  induction k generalizing first txBuffer next id size dataField lis with
  | zero =>
    obtain ⟨taken, left, size', returns, takes, -⟩ :
      Fills first txBuffer size next id dataField lis :=
      fillDataField_spec (waits first mem_cons_self)
        (fun p mem => waits p (mem_cons_of_mem first mem)) room
    have some_ : 0 < taken.length := length_pos_iff.mpr takes.ne_nil
    rw [returns, length_append]
    omega
  | succ k ih =>
    obtain ⟨second, rest, rfl⟩ :=
      exists_cons_of_length_pos (Nat.lt_of_lt_of_le (Nat.succ_pos k) many)
    have small := short first (by simp)
    have positive : 0 < first.pdu.length := length_pos_iff.mpr (waits first mem_cons_self).2
    have cost : (if id % 2 ≠ 0 then 2 else 1) ≤ 2 := by split <;> decide
    rw [take_succ_cons, flatMap_cons, length_append, Nat.add_sub_cancel] at fits
    have notEnds : ¬ (next < first.pdu.length ∨ 2047 < first.pdu.length) := by omega
    have notLittle : ¬ next - first.pdu.length ≤ 2 := by omega
    rw [fillDataField.eq_def]
    simp only [positive, room, and_self, if_true, notEnds, notLittle, if_false]
    rw [← LteRlcHeader.pushed_concat]
    have later : (dataField ++ [first]).length + k < (fillDataField second rest
        (UInt32.sub size second.pdu.length)
        (next - ((if id % 2 ≠ 0 then 2 else 1) + first.pdu.length)) (id + 1)
        (dataField ++ [first])
        (LteRlcHeader.pushed (lis ++ [first.pdu.length]))).dataField.length := by
      refine ih (fun p mem => waits p (mem_cons_of_mem first mem)) (by omega)
        (Nat.le_of_succ_le_succ many) (fun p mem => short p ?_) fun some_ => ?_
      · rw [take_succ_cons]
        exact mem_cons_of_mem first mem
      · obtain ⟨k, rfl⟩ := Nat.exists_eq_succ_of_ne_zero some_.ne'
        rw [Nat.succ_eq_add_one, countLi] at fits
        rw [Nat.succ_eq_add_one, Nat.add_sub_cancel]
        omega
    rw [length_append, length_singleton] at later
    omega

/-- The header fits unless there are such SDUs. -/
theorem overlong_iff {size size' bytes : Nat} (big : 2 < bytes)
    (takes : Takes first txBuffer taken left)
    (waits : ∀ p ∈ first :: txBuffer, AtFront p)
    (fits : (taken.flatMap (·.pdu)).length + countLi 1 (taken.length - 1) + 2 ≤ bytes)
    (returns : fillDataField first txBuffer size (bytes - 2) 1 [] (LteRlcHeader.pushed []) =
      { txBuffer := left, txBufferSize := size', dataField := taken
        rlcHeader := (LteRlcHeader.pushed (sizes taken)).pushExtensionBit 0 }) :
    65536 ≤ 2 + LteRlcHeader.liBytes (taken.length - 1) ↔ Overlong (first :: txBuffer) bytes := by
  refine ⟨overlong_of_takes takes waits fits, fun ⟨many, short, room⟩ => ?_⟩
  have long : ([] : List (TxPdu α)).length + 43689 <
    (fillDataField first txBuffer size (bytes - 2) 1 []
      (LteRlcHeader.pushed [])).dataField.length := by
    refine fillDataField_long 43689 waits (by omega) (Nat.le_of_succ_le_succ many) short fun _ => ?_
    rw [countLi_one, LteRlcHeader.liBytes_eq]
    omega
  rw [returns, length_nil] at long
  simp only at long
  rw [LteRlcHeader.liBytes_eq]
  omega

/-! ## One opportunity -/

theorem frameOf_pieces (x : TxPdu α) (xs : List (TxPdu α)) :
    (frameOf x xs).pieces = (x :: xs).map (·.pdu) := rfl

theorem sizes_eq (x : TxPdu α) (xs : List (TxPdu α)) :
    sizes (x :: xs) = lengthIndicators (frameOf x xs) := by
  rw [sizes, lengthIndicators, frameOf_pieces, ← map_dropLast, List.map_map]
  rfl

/-- What `DoNotifyTxOpportunity` does with SDUs that wait. -/
theorem doNotifyTxOpportunity_cases {s : LteRlcUmTx α} {part : Option (List α)}
    {sdus : List (List α)}
    (waits : Waits part s.txBuffer sdus) (some_ : s.txBuffer ≠ []) {n : Nat}
    (number : s.sequenceNumber = ⟨n % 1024, 0⟩) {bytes : Nat} (big : 2 < bytes) :
    ∃ f later s', (∀ li ∈ lengthIndicators f, li < 2048) ∧ f.first = part.isNone ∧
      sdus = f.ended (part.getD []) ++ later ∧ Waits (f.opened (part.getD [])) s'.txBuffer later ∧
      s'.sequenceNumber = ⟨(n + 1) % 1024, 0⟩ ∧ s'.maxTxBufferSize = s.maxTxBufferSize ∧
      (pduOf n f).size ≤ bytes ∧
      (65536 ≤ 2 + LteRlcHeader.liBytes f.tail.length ↔ Overlong s.txBuffer bytes) ∧
      doNotifyTxOpportunity s bytes =
        if 2 + LteRlcHeader.liBytes f.tail.length <
          65536 then some (s', some (pduOf n f)) else none := by
  obtain ⟨first, txBuffer, buffer⟩ := exists_cons_of_ne_nil some_
  rw [buffer] at waits
  have atFront := waits.atFront
  obtain ⟨taken, left, size', fills, takes, fits⟩ : Fills first txBuffer
      (UInt32.sub s.txBufferSize first.pdu.length) (bytes - 2) 1 [] [] :=
    fillDataField_spec (atFront first mem_cons_self)
      (fun p mem => atFront p (mem_cons_of_mem first mem)) (by omega)
  obtain ⟨x, xs, rfl, begins, later, sdus, waits'⟩ := takes.frame waits
  have tail : (frameOf x xs).tail.length = (x :: xs).length - 1 := by
    rw [frameOf, length_map, length_cons, Nat.add_sub_cancel]
  have small : ∀ li ∈ lengthIndicators (frameOf x xs), li < 2048 := by
    rw [← sizes_eq]
    intro li mem
    obtain ⟨p, there, rfl⟩ := List.mem_map.mp mem
    exact takes.front.2 p there
  refine ⟨frameOf x xs, later, { s with
    txBuffer := left, txBufferSize := size', sequenceNumber :=
      s.sequenceNumber.incr }, small, begins,
    sdus, waits', ?_, rfl, ?_, ?_, ?_⟩
  · simp only [number, SequenceNumber10.incr, SequenceNumber10.mk.injEq, and_true]
    omega
  · rw [pduOf_size, frameOf_pieces, tail, ← countLi_one, ← flatMap_def]
    omega
  · rw [buffer, tail]
    exact overlong_iff big takes atFront (by omega) fills
  · have header := addHeader_pushed small n
    rw [← sizes_eq, frameOf_pieces, ← flatMap_def] at header
    have filled : fillDataField first txBuffer (UInt32.sub s.txBufferSize first.pdu.length)
      (bytes - 2)
        1 [] {} = { txBuffer := left, txBufferSize := size', dataField := x :: xs
                    rlcHeader := (LteRlcHeader.pushed (sizes (x :: xs))).pushExtensionBit 0 } :=
                      fills
    have last : (x :: xs).getLast? = some (xs.getLastD x) := by
      rw [getLastD_eq_getLast?, getLast?_cons]
    have framing_ : framingInfo x.status (xs.getLastD x).status = framing (frameOf x xs) := rfl
    rw [doNotifyTxOpportunity, if_neg (by omega), buffer]
    simp only [filled, head?_cons, last, some_bind, framing_, number, header, pure_some]
    split <;> rfl

/-! ## Runs of a sender -/

/-- What a sender is asked to do. -/
inductive Demand (α : Type) where
  | transmit (p : List α)
  | opportunity (bytes : Nat)
  deriving DecidableEq

/-- A sender with the SDUs it has accepted and the PDUs it has sent. -/
structure Sender (α : Type) where
  tx : LteRlcUmTx α
  accepted : List (List α) := []
  sent : List (RlcPdu α) := []

def Sender.step (s : Sender α) : Demand α → Option (Sender α)
  | .transmit p => some { s with
      tx := doTransmitPdcpPdu s.tx p
      accepted := if accepts s.tx p then s.accepted ++ [p] else s.accepted }
  | .opportunity bytes => do
      let (tx, pdu) ← doNotifyTxOpportunity s.tx bytes
      return { s with tx, sent := s.sent ++ pdu.toList }

/-- The PDUs of the sender carry the frames `fs` of the accepted SDUs, and the rest waits. -/
structure Sends (fs : List (Frame α)) (s : Sender α) : Prop where
  linked : Linked fs
  fits : ∀ f ∈ fs, Fits f
  number : s.tx.sequenceNumber = ⟨fs.length % 1024, 0⟩
  sent : s.sent = fs.mapIdx pduOf
  rest : ∃ later, s.accepted = endedBy fs ++ later ∧ Waits (openAfter fs) s.tx.txBuffer later

theorem sends_start (maxTxBufferSize : Nat) : Sends [] ({ tx := { maxTxBufferSize } } : Sender α) :=
  ⟨linked_nil, nofun, rfl, rfl, [], rfl, .nil rfl⟩

variable {fs : List (Frame α)} {s t : Sender α}

theorem Sends.transmit (h : Sends fs s) {p : List α} (some_ : p ≠ []) :
    ∃ t, s.step (.transmit p) = some t ∧ Sends fs t := by
  obtain ⟨later, accepted, waits⟩ := h.rest
  refine ⟨_, rfl, h.linked, h.fits, ?_, h.sent, ?_⟩
  · rw [doTransmitPdcpPdu]
    split <;> exact h.number
  · rw [doTransmitPdcpPdu]
    split
    · refine ⟨later ++ [p], ?_, waits.concat some_⟩
      rw [accepted, append_assoc]
    · exact ⟨later, accepted, waits⟩

/-- At an opportunity nothing is sent, or the next frame. -/
theorem Sends.opportunity (h : Sends fs s) {bytes : Nat} :
    (¬ Overlong s.tx.txBuffer bytes → ∃ t, s.step (.opportunity bytes) = some t) ∧
    ∀ t, s.step (.opportunity bytes) = some t → t = s ∨
      ∃ f, Sends (fs ++ [f]) t ∧ t.accepted = s.accepted ∧ t.sent = s.sent ++ [pduOf fs.length f] ∧
        (pduOf fs.length f).size ≤ bytes := by
  have stays (returns : doNotifyTxOpportunity s.tx bytes = some (s.tx, none)) :
      s.step (.opportunity bytes) = some s := by
    rw [Sender.step, returns]
    simp
  by_cases big : 2 < bytes
  · by_cases empty : s.tx.txBuffer = []
    · have same := stays (by rw [doNotifyTxOpportunity, if_neg (by omega), empty])
      exact ⟨fun _ => ⟨s, same⟩, fun t returns => .inl (some.inj (returns.symm.trans same))⟩
    · obtain ⟨later, accepted, waits⟩ := h.rest
      obtain ⟨f, later', tx, small, first, sdus, waits', number, -, size, long, returns⟩ :=
        doNotifyTxOpportunity_cases waits empty h.number big
      refine ⟨fun short => ?_, fun t step => .inr ?_⟩
      · rw [if_pos (by by_contra wrong; exact short (long.mp (not_lt.mp wrong)))] at returns
        exact ⟨_, by rw [Sender.step, returns]; rfl⟩
      · rw [Sender.step, returns] at step
        split at step
        case isFalse => cases step
        case isTrue short =>
          cases step
          refine ⟨f, ⟨h.linked.concat first, fun g mem => ?_, ?_, ?_, later', ?_, ?_⟩,
            rfl, rfl, size⟩
          · obtain mem | mem := mem_append.mp mem
            · exact h.fits g mem
            · exact mem_singleton.mp mem ▸ ⟨small, short⟩
          · rw [length_append, length_singleton]
            exact number
          · rw [mapIdx_concat, ← h.sent]
            rfl
          · rw [endedBy_concat, append_assoc, ← sdus]
            exact accepted
          · rw [openAfter_concat]
            exact waits'
  · have same := stays (by rw [doNotifyTxOpportunity, if_pos (by omega)])
    exact ⟨fun _ => ⟨s, same⟩, fun t returns => .inl (some.inj (returns.symm.trans same))⟩

theorem Sends.last {f : Frame α} (h : Sends (fs ++ [f]) t) :
    f.first = (openAfter fs).isNone ∧ Fits f := by
  refine ⟨?_, h.fits f (mem_append_right _ mem_cons_self)⟩
  have first := h.linked fs.length f (by simp)
  rwa [take_left] at first

theorem Sends.overlong (h : Sends fs s) {bytes : Nat} (long : Overlong s.tx.txBuffer bytes) :
    s.step (.opportunity bytes) = none := by
  have big : 2 < bytes := by
    obtain ⟨-, -, room⟩ := long
    omega
  have some_ : s.tx.txBuffer ≠ [] := by
    intro empty
    have many := long.1
    rw [empty, length_nil] at many
    omega
  obtain ⟨later, -, waits⟩ := h.rest
  obtain ⟨f, later', tx, -, -, -, -, -, -, -, long', returns⟩ :=
    doNotifyTxOpportunity_cases waits some_ h.number big
  rw [Sender.step, returns, if_neg (not_lt.mpr (long'.mpr long))]
  rfl

end LteRlcUm

end Ns3
