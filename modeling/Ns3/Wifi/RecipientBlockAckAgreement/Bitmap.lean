import Ns3.Wifi.RecipientBlockAckAgreement.Basic
import Ns3.Wifi.CtrlBAckResponseHeader
import Ns3.Library.Run

/-!
# The bitmap of a Block Ack

`FillBlockAckBitmap` copies the scoreboard into a header. What the other end reads from
the bytes of that header is what the recipient has heard: the sequence numbers in the
scoreboard window whose MPDU arrived since they last entered it.
-/

namespace Ns3.RecipientBlockAckAgreement

variable {μ : Type}

/-- A round of the loop of `FillBlockAckBitmap`. -/
def fillBit (profile : BuildProfile) (s : RecipientBlockAckAgreement μ) (index : Nat)
    (h : CtrlBAckResponseHeader) (i : Nat) : Option CtrlBAckResponseHeader := do
  let received ← s.scoreboard.at profile i
  if received then
    h.setReceivedPacket profile
      (BitVec.ofNat 16 ((s.scoreboard.winStart + i) % seqnoSpaceSize)) index
  else some h

/-- `FillBlockAckBitmap`. -/
def fillBlockAckBitmap (profile : BuildProfile) (h : CtrlBAckResponseHeader) (index : Nat)
    (s : RecipientBlockAckAgreement μ) : Option CtrlBAckResponseHeader :=
  match h.baType.variant with
  | .basic | .multiTid => none
  | .compressed | .extendedCompressed | .multiSta => do
      let h ← h.setStartingSequence profile (BitVec.ofNat 16 s.scoreboard.winStart) index
      let h ← h.resetBitmap profile index
      (List.range s.scoreboard.winSize).foldlM (s.fillBit profile index) h

open CtrlBAckResponseHeader

variable {profile : BuildProfile} {s : RecipientBlockAckAgreement μ} {h : CtrlBAckResponseHeader}
  {i : BaInfoInstance} {len : Nat}

/-- The loop sets the bits of the scoreboard. -/
theorem fillBits_spec (profile : BuildProfile) (start : s.scoreboard.winStart < 4096)
    (same : i.startingSeq.toNat = s.scoreboard.winStart) (c : Compressed h len i)
    (clear : ∀ p, bitmapBit i.bitmap p = false) {n : Nat} (inside : n ≤ s.scoreboard.window.length)
    (fits : n ≤ len * 8) :
    ∃ g j, (List.range n).foldlM (s.fillBit profile 0) h = some g ∧ Compressed g len j ∧
      j.startingSeq = i.startingSeq ∧
      ∀ p, bitmapBit j.bitmap p = (decide (p < n) && s.scoreboard.bit p) := by
  have small : len * 8 ≤ 256 := by
    have := c.length
    omega
  induction n with
  | zero => exact ⟨h, i, rfl, c, rfl, fun p => by simp [clear p]⟩
  | succ n ih =>
    obtain ⟨g, j, run, compressed, seq, bits⟩ := ih (by omega) (by omega)
    have known : j.startingSeq.toNat = s.scoreboard.winStart := by rw [seq, same]
    have place : distance ((s.scoreboard.winStart + n) % seqnoSpaceSize) j.startingSeq.toNat =
      n := by
      rw [known]
      exact distance_add start (by omega)
    have slot : n < s.scoreboard.window.length := by omega
    rw [List.range_succ, List.foldlM_append, run]
    simp only [some_bind, List.foldlM_cons, List.foldlM_nil, fillBit,
      BlockAckWindow.at_eq profile slot]
    cases bit : s.scoreboard.bit n with
    | false =>
      refine ⟨g, j, rfl, compressed, seq, fun p => ?_⟩
      rw [bits p]
      by_cases last : p = n
      · simp [last, bit]
      · have bound : p < n ↔ p < n + 1 := by omega
        simp only [bound]
    | true =>
      have room : distance ((s.scoreboard.winStart + n) % seqnoSpaceSize) j.startingSeq.toNat <
          len * 8 := by
        omega
      have inSpace : (s.scoreboard.winStart + n) % seqnoSpaceSize < 4096 := Nat.mod_lt _ (by decide)
      obtain ⟨g', j', set, compressed', seq', bits'⟩ :=
        compressed.setReceivedPacket profile (known.trans_lt start) inSpace room
      refine ⟨g', j', ?_, compressed', seq'.trans seq, fun p => ?_⟩
      · rw [if_pos rfl, set]
        rfl
      · rw [bits' p, place, bits p]
        by_cases last : p = n
        · simp [last, bit]
        · have other : (p == n) = false := beq_eq_false_iff_ne.mpr last
          have bound : p < n ↔ p < n + 1 := by omega
          simp [other, bound]

/-- The filled header has the window start and the bits of the scoreboard. -/
theorem fillBlockAckBitmap_spec (profile : BuildProfile) (start : s.scoreboard.winStart < 4096)
    (type : h.baType = ⟨.compressed, [len]⟩) (only : h.baInfo = [i]) (length : len = 8 ∨ len = 32)
    (fits : s.scoreboard.window.length ≤ len * 8) :
    ∃ g j, s.fillBlockAckBitmap profile h 0 = some g ∧ Compressed g len j ∧
      j.startingSeq.toNat = s.scoreboard.winStart ∧
      ∀ p, bitmapBit j.bitmap p =
        (decide (p < s.scoreboard.window.length) && s.scoreboard.bit p) := by
  have value : (BitVec.ofNat 16 s.scoreboard.winStart).toNat = s.scoreboard.winStart := by
    rw [BitVec.toNat_ofNat]
    omega
  have info : h.info profile 0 = some i := by simp [info, type, only]
  let j : BaInfoInstance :=
    { i with startingSeq := BitVec.ofNat 16 s.scoreboard.winStart, bitmap := List.replicate len 0 }
  have empty : Compressed (h.setInfo 0 j) len j :=
    ⟨type, by simp [setInfo, only], List.length_replicate, length⟩
  have clear (p : Nat) : bitmapBit j.bitmap p = false := by
    simp only [j, bitmapBit, List.getD_eq_getElem?_getD, List.getElem?_replicate]
    split <;> simp
  obtain ⟨g, k, run, compressed, seq, bits⟩ :=
    fillBits_spec profile (s := s) start value empty clear le_rfl fits
  refine ⟨g, k, ?_, compressed, ?_, bits⟩
  · have reset :
      (h.setInfo 0 { i with startingSeq := BitVec.ofNat 16 s.scoreboard.winStart }).resetBitmap
        profile 0 = some (h.setInfo 0 j) := by
      simp [resetBitmap, CtrlBAckResponseHeader.info, setInfo, type, only, j]
    simp only [fillBlockAckBitmap, type, setStartingSequence, info, reset, some_bind, pure_some]
    exact run
  · rw [seq]
    exact value

/-! ## What the recipient has heard -/

section Passes

variable {t : RecipientBlockAckAgreement μ} {seq : Nat} {mpdu : μ}

theorem passUntilFirstLost_scoreboard (run : s.passBufferedMpdusUntilFirstLost profile = some t) :
    t.scoreboard = s.scoreboard := by
  simp only [passBufferedMpdusUntilFirstLost, bind_returns, pure_returns] at run
  obtain ⟨-, -, rfl⟩ := run
  rfl

theorem passLessThan_scoreboard
    (run : s.passBufferedMpdusWithSeqNumberLessThan profile seq = some t) :
    t.scoreboard = s.scoreboard := by
  simp only [passBufferedMpdusWithSeqNumberLessThan, bind_returns, pure_returns] at run
  obtain ⟨-, -, -, -, rfl⟩ := run
  rfl

theorem reorderMpdu_scoreboard (run : s.reorderMpdu profile seq mpdu = some t) :
    t.scoreboard = s.scoreboard := by
  simp only [reorderMpdu, bind_returns] at run
  obtain ⟨d, -, run⟩ := run
  split at run
  case isTrue => exact passUntilFirstLost_scoreboard (s := s.buffer seq mpdu) run
  case isFalse =>
    split at run
    case isTrue =>
      obtain ⟨u, less, run⟩ := bind_returns.mp run
      exact (passUntilFirstLost_scoreboard run).trans
        (passLessThan_scoreboard (s := s.buffer seq mpdu) less)
    case isFalse =>
      cases run
      rfl

theorem reorderBar_scoreboard (run : s.reorderBar profile seq = some t) :
    t.scoreboard = s.scoreboard := by
  simp only [reorderBar, bind_returns] at run
  obtain ⟨d, -, run⟩ := run
  split at run
  case isTrue =>
    obtain ⟨u, less, run⟩ := bind_returns.mp run
    exact (passUntilFirstLost_scoreboard run).trans (passLessThan_scoreboard less)
  case isFalse =>
    cases run
    rfl

end Passes

theorem takeLessThan_returns (winStartB new : Nat) (mpdus : List (BufferedMpdu μ)) :
    ∃ r, takeLessThan .optimized winStartB new mpdus = some r := by
  induction mpdus with
  | nil => exact ⟨_, rfl⟩
  | cons x rest ih =>
    obtain ⟨r, taken⟩ := ih
    simp only [takeLessThan, getDistance, nsAssert_optimized, some_bind, pure_some, taken,
      Option.map_some]
    split <;> exact ⟨_, rfl⟩

theorem passLessThan_returns (new : Nat) (s : RecipientBlockAckAgreement μ) :
    ∃ t, s.passBufferedMpdusWithSeqNumberLessThan .optimized new = some t := by
  obtain ⟨r, taken⟩ := takeLessThan_returns s.winStartB new s.bufferedMpdus
  simp only [passBufferedMpdusWithSeqNumberLessThan, assertNotOld, reduceCtorEq, if_false, taken,
    some_bind, pure_some]
  exact ⟨_, rfl⟩

theorem reorderMpdu_returns (seq : Nat) (mpdu : μ) (s : RecipientBlockAckAgreement μ) :
    ∃ t, s.reorderMpdu .optimized seq mpdu = some t := by
  obtain ⟨t, less⟩ := passLessThan_returns (s.newWinStartB seq) (s.buffer seq mpdu)
  simp only [reorderMpdu, getDistance, nsAssert_optimized, passBufferedMpdusUntilFirstLost,
    assertNotOld, reduceCtorEq, if_false, less, some_bind, pure_some]
  split
  · exact ⟨_, rfl⟩
  · split <;> exact ⟨_, rfl⟩

theorem reorderBar_returns (ssn : Nat) (s : RecipientBlockAckAgreement μ) :
    ∃ t, s.reorderBar .optimized ssn = some t := by
  obtain ⟨t, less⟩ := passLessThan_returns ssn s
  simp only [reorderBar, getDistance, nsAssert_optimized, passBufferedMpdusUntilFirstLost,
    assertNotOld, reduceCtorEq, if_false, less, some_bind, pure_some]
  split <;> exact ⟨_, rfl⟩

/-- The call reports an MPDU with this sequence number. -/
def Call.marks (q : Nat) : Call μ → Bool
  | .mpdu seq _ => q == seq
  | .bar _ => false

variable {t : RecipientBlockAckAgreement μ} {c : Call μ}

theorem step_scores (valid : s.scoreboard.Valid) (size : s.scoreboard.window.length ≤ 256)
    (inSpace : c.seq < 4096) (run : s.step profile c = some t) :
    BlockAckWindow.Scores s.scoreboard t.scoreboard fun q => c.marks q := by
  cases c with
  | mpdu seq mpdu =>
    have inSpace : seq < 4096 := inSpace
    obtain ⟨w, scored, scores⟩ := scoreMpdu_spec profile valid size inSpace
    simp only [step, notifyReceivedMpdu, scored, some_bind] at run
    rw [reorderMpdu_scoreboard run]
    exact scores
  | bar ssn =>
    have inSpace : ssn < 4096 := inSpace
    obtain ⟨w, scored, scores⟩ := scoreBar_spec profile valid size inSpace
    simp only [step, notifyReceivedBar, scored, some_bind] at run
    rw [reorderBar_scoreboard run]
    exact scores

theorem step_returns (valid : s.scoreboard.Valid) (size : s.scoreboard.window.length ≤ 256)
    (inSpace : c.seq < 4096) : ∃ t, s.step .optimized c = some t := by
  cases c with
  | mpdu seq mpdu =>
    have inSpace : seq < 4096 := inSpace
    obtain ⟨w, scored, -⟩ := scoreMpdu_spec .optimized valid size inSpace
    simp only [step, notifyReceivedMpdu, scored, some_bind]
    exact reorderMpdu_returns seq mpdu _
  | bar ssn =>
    have inSpace : ssn < 4096 := inSpace
    obtain ⟨w, scored, -⟩ := scoreBar_spec .optimized valid size inSpace
    simp only [step, notifyReceivedBar, scored, some_bind]
    exact reorderBar_returns ssn _

/-- A scoreboard without slots stays so: an MPDU that moves it does not return. -/
theorem step_empty (start : s.scoreboard.winStart < 4096) (empty : s.scoreboard.window = [])
    (inSpace : c.seq < 4096) (run : s.step profile c = some t) :
    t.scoreboard.window = [] ∧ t.scoreboard.winStart < 4096 := by
  cases c with
  | mpdu seq mpdu =>
    have inSpace : seq < 4096 := inSpace
    have stuck (w : BlockAckWindow) (d : Nat) (none : w.window = []) :
        w.mark profile d = Option.none := by
      simp [BlockAckWindow.mark, BlockAckWindow.slot, none]
    have gone : (s.scoreboard.advance (distance seq s.scoreboard.winStart % 2 ^ 16 -
        s.scoreboard.winSize + 1)).window = [] := by
      simp [BlockAckWindow.advance, BlockAckWindow.reset, BlockAckWindow.init, empty]
    simp only [step, notifyReceivedMpdu, scoreMpdu, getDistance_eq profile inSpace start,
      some_bind, stuck _ _ empty, stuck _ _ gone, Option.map_none]
        at run
    split at run
    · cases run
    · split at run
      · cases run
      · rw [reorderMpdu_scoreboard run]
        exact ⟨empty, start⟩
  | bar ssn =>
    have inSpace : ssn < 4096 := inSpace
    have noSlot (d : Nat) : ¬ (0 < d ∧ d < s.scoreboard.winSize) := by
      simp [BlockAckWindow.winSize, empty]
    simp only [step, notifyReceivedBar, scoreBar, getDistance_eq profile inSpace start, some_bind,
      if_neg (noSlot _)] at run
    split at run
    · rw [reorderBar_scoreboard run]
      exact ⟨by simp [BlockAckWindow.reset, BlockAckWindow.init, empty], inSpace⟩
    · rw [reorderBar_scoreboard run]
      exact ⟨empty, start⟩

/-- The agreement, and the sequence numbers of its scoreboard window whose MPDU was
received since they entered it. -/
structure Listener (μ : Type) where
  agreement : RecipientBlockAckAgreement μ
  heard : Nat → Bool := fun _ => false

/-- A call, listened to: a number that leaves the window is forgotten. -/
def listen (profile : BuildProfile) (l : Listener μ) (c : Call μ) : Option (Listener μ) := do
  let t ← l.agreement.step profile c
  return {
    agreement := t
    heard := fun q => t.scoreboard.covers q &&
      (c.marks q || l.agreement.scoreboard.covers q && l.heard q) }

/-- The listener of a new agreement. -/
def Listener.start (bufferSize startingSeq : Nat) : Listener μ where
  agreement := RecipientBlockAckAgreement.start bufferSize startingSeq

/-- The invariant: the scoreboard marks what was heard. -/
structure Hears (bufferSize : Nat) (l : Listener μ) : Prop where
  start : l.agreement.scoreboard.winStart < 4096
  size : l.agreement.scoreboard.window.length = bufferSize
  head : 0 < bufferSize → l.agreement.scoreboard.head < bufferSize
  marks : ∀ q < 4096, l.agreement.scoreboard.covers q = true →
    l.agreement.scoreboard.marked q = l.heard q

variable {bufferSize startingSeq : Nat} {l m : Listener μ}

theorem Hears.valid (h : Hears bufferSize l) (pos : 0 < bufferSize) :
    l.agreement.scoreboard.Valid :=
  ⟨h.start, (h.head pos).trans_eq h.size.symm⟩

theorem start_hears (start : startingSeq < 4096) :
    Hears bufferSize (Listener.start (μ := μ) bufferSize startingSeq) where
  start := start
  size := List.length_replicate
  head pos := pos
  marks _ _ _ := BlockAckWindow.init_bit _ _ _

theorem Hears.listen (h : Hears bufferSize l) (small : bufferSize ≤ 256) (inSpace : c.seq < 4096)
    (run : listen profile l c = some m) : Hears bufferSize m := by
  simp only [RecipientBlockAckAgreement.listen, bind_returns, pure_returns] at run
  obtain ⟨t, run, rfl⟩ := run
  by_cases pos : 0 < bufferSize
  · have scores := step_scores (h.valid pos) (h.size.trans_le small) inSpace run
    have size := scores.size.trans h.size
    refine ⟨scores.valid.start, size, fun _ => scores.valid.head.trans_eq size,
      fun q hq inside => ?_⟩
    have marked := scores.marks q hq inside
    simp only [inside, Bool.true_and]
    rw [marked]
    cases before : l.agreement.scoreboard.covers q with
    | false => simp
    | true => rw [h.marks q hq before]
  · have none : bufferSize = 0 := Nat.eq_zero_of_not_pos pos
    have empty : l.agreement.scoreboard.window = [] :=
      List.eq_nil_of_length_eq_zero (h.size.trans none)
    obtain ⟨empty', start⟩ := step_empty h.start empty inSpace run
    refine ⟨start, by rw [none]; simp [empty'], fun some => absurd some pos, fun q _ inside => ?_⟩
    simp [BlockAckWindow.covers, empty'] at inside

theorem Hears.returns (h : Hears bufferSize l) (pos : 0 < bufferSize) (small : bufferSize ≤ 256)
    (inSpace : c.seq < 4096) : ∃ m, RecipientBlockAckAgreement.listen .optimized l c = some m := by
  obtain ⟨t, run⟩ := step_returns (h.valid pos) (h.size.trans_le small) inSpace
  simp only [RecipientBlockAckAgreement.listen, run, some_bind]
  exact ⟨_, rfl⟩

/-- What the other end reads from the filled header. -/
theorem Hears.decoded (h : Hears bufferSize l) (small : bufferSize ≤ 256) (profile : BuildProfile)
    {header : CtrlBAckResponseHeader}
    (type : header.baType = ⟨.compressed, [if bufferSize ≤ 64 then 8 else 32]⟩)
    (only : header.baInfo = [i]) (into : CtrlBAckResponseHeader) :
    ∃ filled bytes decoded, l.agreement.fillBlockAckBitmap profile header 0 = some filled ∧
      filled.serialize profile = some bytes ∧ into.deserialize profile bytes = some (decoded, []) ∧
      ∀ q < 4096, decoded.isPacketReceived profile (BitVec.ofNat 16 q) 0 =
        some (l.agreement.scoreboard.covers q && l.heard q) := by
  have length : (if bufferSize ≤ 64 then 8 else 32) = 8 ∨ (if bufferSize ≤ 64 then 8 else 32) =
    32 := by
    split <;> simp
  have fits : bufferSize ≤ (if bufferSize ≤ 64 then 8 else 32) * 8 := by split <;> omega
  generalize (if bufferSize ≤ 64 then 8 else 32) = len at type length fits
  obtain ⟨filled, j, fill, compressed, seq, bits⟩ :=
    fillBlockAckBitmap_spec profile h.start type only length (h.size.trans_le fits)
  have start : j.startingSeq.toNat < 4096 := seq.trans_lt h.start
  obtain ⟨bytes, decoded, k, written, read, same, seq', bitmap⟩ :=
    compressed.roundTrip profile start into
  refine ⟨filled, bytes, decoded, fill, written, read, fun q hq => ?_⟩
  have start' : k.startingSeq.toNat < 4096 := by rw [seq']; exact start
  rw [same.isPacketReceived start' hq, seq', bitmap, bits, seq]
  cases inside : l.agreement.scoreboard.covers q with
  | false =>
    rw [BlockAckWindow.covers] at inside
    rw [inside, Bool.false_and, Bool.and_false, Bool.false_and]
  | true =>
    have marked := h.marks q hq inside
    rw [BlockAckWindow.covers, decide_eq_true_eq] at inside
    have room : distance q l.agreement.scoreboard.winStart < len * 8 :=
      inside.trans_le (h.size.trans_le fits)
    rw [decide_eq_true inside, decide_eq_true room, Bool.true_and, Bool.true_and, Bool.true_and,
      ← marked, BlockAckWindow.marked]

end Ns3.RecipientBlockAckAgreement
