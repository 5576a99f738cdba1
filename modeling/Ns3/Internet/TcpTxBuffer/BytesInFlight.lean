import Ns3.Internet.TcpTxBuffer.Counters
import Ns3.Internet.TcpTxBuffer.LossRule

/-!
# Two counts of the bytes in flight

`BytesInFlight` adds up three counters, `BytesInFlightRFC` asks for every item
how many sacked items are above it. On a board whose lost items are the judged
ones, the walk of `IsLostRFC` finds the flag of each item again, and the two
counts agree.
-/

namespace Ns3.TcpTxBuffer

open SequenceNumber List Option

section Walk

variable {b : TcpTxBuffer} {head : SequenceNumber32} {below above list : PacketList}
variable {top item : TcpTxItem} {pos count bytes : Nat}

/-- The parameters for which `(m_dupAckThresh - 1) * m_segmentSize` is a number
of bytes. -/
def Threshold (dupAckThresh segmentSize : Nat) : Prop :=
  dupAckThresh = 0 ∨ (dupAckThresh - 1) * segmentSize < 2 ^ 32

/-- Items of at most one segment each never have enough bytes before they have
the number. -/
theorem enough_iff (threshold : Threshold b.dupAckThresh b.segmentSize)
    (segments : 0 < b.segmentSize) (bound : bytes ≤ count * b.segmentSize) :
    (decide (b.dupAckThresh ≤ count) ||
      decide (UInt32.sub b.dupAckThresh 1 * b.segmentSize % 2 ^ 32 < bytes)) =
      decide (b.dupAckThresh ≤ count) := by
  rcases Nat.lt_or_ge count b.dupAckThresh with few | many
  · have limit : (b.dupAckThresh - 1) * b.segmentSize < 2 ^ 32 := threshold.resolve_left (by omega)
    have small : b.dupAckThresh - 1 < 2 ^ 32 :=
      Nat.lt_of_le_of_lt (Nat.le_mul_of_pos_right _ segments) limit
    have predecessor : UInt32.sub b.dupAckThresh 1 = b.dupAckThresh - 1 := by
      unfold UInt32.sub
      omega
    have most : count * b.segmentSize ≤ (b.dupAckThresh - 1) * b.segmentSize :=
      Nat.mul_le_mul_right _ (by omega)
    rw [predecessor, Nat.mod_eq_of_lt limit, decide_eq_false (by omega), decide_eq_false (by omega)]
    rfl
  · rw [decide_eq_true many]
    rfl

example (s) : b.isLostRFCWalk [] s 0 0 = false := by rw [isLostRFCWalk]

/-- One turn of the walk: a sacked item counts, and may end the walk. -/
theorem isLostRFCWalk_cons (list : PacketList) (threshold : Threshold b.dupAckThresh b.segmentSize)
    (bound : bytes ≤ count * b.segmentSize) (positive : 0 < item.size)
    (segment : item.size ≤ b.segmentSize) (fits : bytes + item.size < 2 ^ 32)
    (seq : SequenceNumber32) :
    ∃ bytes', bytes' ≤ (count + [item].countP TcpTxItem.sacked) * b.segmentSize ∧
      bytes' ≤ bytes + item.size ∧
      b.isLostRFCWalk (item :: list) seq count bytes =
        if item.sacked = true ∧ b.dupAckThresh ≤ count + 1 then true
        else if seq.ge b.highestSack.2 then item.lost && !item.retrans
        else b.isLostRFCWalk list (seq.add item.size) (count + [item].countP TcpTxItem.sacked)
          bytes' := by
  cases sacked : item.sacked with
  | false =>
    refine ⟨bytes, ?_, by omega, ?_⟩
    · simpa [sacked] using bound
    · simp [isLostRFCWalk, sacked]
  | true =>
    have more : bytes + item.size ≤ (count + 1) * b.segmentSize := by
      rw [Nat.succ_mul]
      omega
    refine ⟨bytes + item.size, ?_, le_rfl, ?_⟩
    · simpa [sacked] using more
    · have enough := enough_iff threshold (by omega) more
      simp only [isLostRFCWalk, sacked, if_true, UInt32.add_of_lt fits, enough, Bool.true_and,
        decide_eq_true_eq, true_and, countP_cons_of_pos, countP_nil]

/-- The walk from an item below the peak counts the sacked items up to it. -/
theorem isLostRFCWalk_below (threshold : Threshold b.dupAckThresh b.segmentSize)
    (seq : b.highestSack.2 = head.at (pos + total below : Nat)) (sacked : top.sacked = true)
    (notLost : top.lost = false)
    (segments : ∀ item ∈ below ++ top :: above, item.size ≤ b.segmentSize)
    (positive : Positive (below ++ top :: above)) (near : pos + total below ≤ halfMaxValue 32)
    (bound : bytes ≤ count * b.segmentSize)
    (fits : bytes + total (below ++ top :: above) < 2 ^ 32) :
    b.isLostRFCWalk (below ++ top :: above) (head.at pos) count bytes =
      decide (max b.dupAckThresh 1 ≤ count + 1 + below.countP TcpTxItem.sacked) := by
  induction below generalizing pos count bytes with
  | nil =>
    obtain ⟨segment, -⟩ := forall_mem_cons.mp segments
    obtain ⟨pos_, -⟩ := positive_cons.mp positive
    simp only [nil_append, total_cons] at fits
    obtain ⟨bytes', -, -, step⟩ := isLostRFCWalk_cons above threshold bound pos_ segment
      (by omega) (head.at pos)
    have reached : (head.at pos).ge b.highestSack.2 = true := by
      rw [seq, total_nil, Nat.add_zero, ge_at_nat (by omega) (by omega)]
      exact decide_eq_true (le_refl pos)
    rw [nil_append, step, if_pos reached, notLost, Bool.false_and]
    rw [countP_nil, Nat.add_zero]
    split
    · next enough => exact (decide_eq_true (by omega)).symm
    · next few =>
        have : ¬ b.dupAckThresh ≤ count + 1 := fun le => few ⟨sacked, le⟩
        exact (decide_eq_false (by omega)).symm
  | cons item below ih =>
    obtain ⟨segment, segments⟩ := forall_mem_cons.mp segments
    obtain ⟨pos_, positive⟩ := positive_cons.mp positive
    simp only [cons_append, total_cons] at fits near seq
    obtain ⟨bytes', bound', le, step⟩ := isLostRFCWalk_cons (below ++ top :: above)
      threshold bound pos_ segment (by omega) (head.at pos)
    have before : (head.at pos).ge b.highestSack.2 = false := by
      rw [seq, ge_at_nat (by omega) (by omega)]
      exact decide_eq_false (by omega)
    have next : (head.at pos).add item.size = head.at (pos + item.size : Nat) :=
      at_add head pos item.size
    rw [cons_append, step, before, next]
    have rest := ih (by rw [seq, Nat.add_assoc]) segments positive (by omega) bound' (by omega)
    rw [rest, countP_cons, countP_cons, countP_nil]
    cases mark : item.sacked with
    | false => simp
    | true =>
      split
      · next enough => exact (decide_eq_true (by omega)).symm
      · exact decide_eq_decide.mpr (by omega)

theorem isLostRFCWalk_clear (clear : ∀ item ∈ list, item.sacked = false ∧ item.lost = false)
    (seq : SequenceNumber32) : b.isLostRFCWalk list seq 0 0 = false := by
  induction list generalizing seq with
  | nil => rfl
  | cons item rest ih =>
    obtain ⟨⟨sacked, lost⟩, others⟩ := forall_mem_cons.mp clear
    simp only [isLostRFCWalk, sacked, lost, Bool.false_and, Bool.false_eq_true, if_false]
    split
    · rfl
    · exact ih others _

end Walk

/-- What the two counts rely on. -/
structure Consistent (b : TcpTxBuffer) : Prop where
  counted : Counted b
  threshold : Threshold b.dupAckThresh b.segmentSize
  segments : ∀ item ∈ b.sentList, item.size ≤ b.segmentSize
  positive : Positive b.sentList
  near : b.size ≤ halfMaxValue 32
  board : Board (Judged (max b.dupAckThresh 1) 1) b.firstByteSeq b.highestSack b.sentList

section Counts

variable {b : TcpTxBuffer} {front rest list : PacketList} {item : TcpTxItem}

theorem Consistent.fits (h : Consistent b) :
    total b.sentList ≤ halfMaxValue 32 ∧ halfMaxValue 32 < 2 ^ 32 := by
  have size := h.counted.sized.size
  have near := h.near
  rw [total_append] at size
  exact ⟨by omega, by decide⟩

/-- `IsLostRFC` finds the flag of every item. -/
theorem isLostRFC_eq (h : Consistent b) (sent : b.sentList = front ++ item :: rest) :
    b.isLostRFC (b.firstByteSeq.at (total front)) (item :: rest) = item.lost := by
  obtain ⟨near, small⟩ := h.fits
  obtain ⟨sound, -, assessed⟩ := h.board
  have positive := h.positive
  have segments := h.segments
  rw [sent] at sound assessed near positive segments
  rw [isLostRFC]
  cases sacked : item.sacked with
  | true => rw [Bool.not_true, Bool.false_and, (sound item (by simp)).1 sacked]
  | false =>
    rw [Bool.not_false, Bool.true_and]
    rcases assessed with ⟨-, clear⟩ | ⟨below, top, above, peak⟩
    · rw [isLostRFCWalk_clear fun x member => clear x (by simp [mem_cons.mp member])]
      exact (clear item (by simp)).2.symm
    · have ne : item.sacked ≠ top.sacked := by simp [sacked, peak.sacked]
      rcases append_cases peak.list ne with ⟨between, rfl, rfl⟩ | ⟨between, rfl, rfl⟩
      · have seq := peak.seq
        rw [total_append] at seq near
        have walk : b.isLostRFCWalk ((item :: between) ++ top :: above)
            (b.firstByteSeq.at (total front)) 0 0 = _ :=
          isLostRFCWalk_below h.threshold seq peak.sacked
          ((sound top (by simp)).1 peak.sacked)
          (fun x member => segments x (by simp at member ⊢; tauto))
          (fun x member => positive x (by simp at member ⊢; tauto))
          (by simp only [total_cons, total_append] at near ⊢; omega) (Nat.zero_le _)
          (by simp only [total_cons, total_append, cons_append] at near ⊢; omega)
        rw [← cons_append, walk, countP_cons_of_neg (by simp [sacked])]
        have judged := (judged_append.mp peak.below).2.1 sacked
        cases lost : item.lost with
        | true => exact decide_eq_true (by have := judged.mp lost; omega)
        | false =>
          refine decide_eq_false fun enough => ?_
          exact absurd (lost.symm.trans (judged.mpr (by omega))) Bool.false_ne_true
      · have notLost := peak.notLost item (by simp)
        have reached : (b.firstByteSeq.at (total (below ++ top :: between))).ge
            b.highestSack.2 = true := by
          simp only [total_append, total_cons] at near ⊢
          rw [peak.seq, ge_at_nat (by omega) (by omega)]
          exact decide_eq_true (by omega)
        simp only [isLostRFCWalk, sacked, reached, notLost, Bool.false_and, Bool.false_eq_true,
          if_false, if_true]

/-- What the counters of `BytesInFlightRFC` add up to over the rest of the list. -/
theorem countRFC_eq (front : PacketList) (h : Consistent b) (sent : b.sentList = front ++ rest)
    (c : RFCCounts) {m : Nat} (size : c.size ≤ m) (sackedOut : c.sackedOut ≤ m)
    (lostOut : c.lostOut ≤ m)
    (retrans : c.retrans ≤ m) (totalSize : c.totalSize ≤ m) (fits : m + total rest < 2 ^ 32) :
    b.countRFC rest (b.firstByteSeq.at (total front)) c =
      { size := c.size + flagged (fun item => !item.sacked && (!item.lost || item.retrans)) rest
        sackedOut := c.sackedOut + flagged TcpTxItem.sacked rest
        lostOut := c.lostOut + flagged (fun item => !item.sacked && item.lost) rest
        retrans := c.retrans + flagged TcpTxItem.retrans rest
        totalSize := c.totalSize + total rest } := by
  induction rest generalizing front c m with
  | nil => rfl
  | cons item rest ih =>
    rw [total_cons] at fits
    have next : (b.firstByteSeq.at (total front)).add item.size =
        b.firstByteSeq.at (total (front ++ [item])) := by
      rw [at_add, total_append, total_cons, total_nil]
      rfl
    have counts : ∀ (flag : TcpTxItem → Bool) {k : Nat}, k ≤ m →
        (if flag item then UInt32.add k item.size else k) = k + share flag item := by
      intro flag k le
      rw [share]
      split
      · exact UInt32.add_of_lt (by omega)
      · rfl
    have bounds : ∀ (flag : TcpTxItem → Bool) {k : Nat}, k ≤ m →
        k + share flag item ≤ m + item.size := fun flag k le =>
      Nat.add_le_add le (share_le flag item)
    rw [countRFC, isLostRFC_eq h sent, next]
    simp only [counts TcpTxItem.sacked sackedOut, counts TcpTxItem.retrans retrans,
      counts (fun item => !item.sacked && item.lost) lostOut,
      counts (fun item => !item.sacked && (!item.lost || item.retrans)) size,
      UInt32.add_of_lt (show c.totalSize + item.size < 2 ^ 32 by omega)]
    refine (ih (front ++ [item]) (by rw [sent, append_assoc]; rfl) _ (bounds _ size)
      (bounds _ sackedOut)
      (bounds _ lostOut) (bounds _ retrans) (Nat.add_le_add_right totalSize _)
      (by omega)).trans ?_
    simp [Nat.add_assoc]

/-- An item that is neither sacked nor lost is in flight once, and so is a lost
item that was sent again. -/
theorem share_inFlight (sound : Sound item) :
    share TcpTxItem.sacked item + share TcpTxItem.lost item +
        share (fun item => !item.sacked && (!item.lost || item.retrans)) item =
      item.size + share TcpTxItem.retrans item ∧
    share (fun item => !item.sacked && item.lost) item = share TcpTxItem.lost item ∧
    share TcpTxItem.sacked item + share TcpTxItem.lost item ≤ item.size ∧
    share TcpTxItem.retrans item ≤ share TcpTxItem.lost item := by
  obtain ⟨notLost, lost⟩ := sound
  unfold share
  cases sacked : item.sacked with
  | true =>
    have retrans : item.retrans = false := Sound.not_sent_again ⟨notLost, lost⟩ sacked
    simp [sacked, notLost sacked, retrans]
  | false =>
    cases retrans : item.retrans with
    | true => simp [sacked, retrans, lost retrans]
    | false => cases lostFlag : item.lost <;> simp [sacked, retrans, lostFlag]

/-- Item by item, the counters leave the same bytes in flight as the walk. -/
theorem flagged_inFlight (sound : ∀ item ∈ list, Sound item) :
    flagged TcpTxItem.sacked list + flagged TcpTxItem.lost list +
        flagged (fun item => !item.sacked && (!item.lost || item.retrans)) list =
      total list + flagged TcpTxItem.retrans list ∧
    flagged (fun item => !item.sacked && item.lost) list = flagged TcpTxItem.lost list ∧
    flagged TcpTxItem.sacked list + flagged TcpTxItem.lost list ≤ total list ∧
    flagged TcpTxItem.retrans list ≤ flagged TcpTxItem.lost list := by
  induction list with
  | nil => exact ⟨rfl, rfl, le_refl 0, le_refl 0⟩
  | cons item rest ih =>
    obtain ⟨here, others⟩ := forall_mem_cons.mp sound
    have one := share_inFlight here
    have more := ih others
    simp only [flagged_cons, total_cons]
    omega

/-- The two counts are the same number, and no assertion of either fails. -/
theorem bytesInFlight_eq (h : Consistent b) (profile : BuildProfile) :
    ∃ n, b.bytesInFlight profile = some n ∧ b.bytesInFlightRFC profile = some n := by
  obtain ⟨near, small⟩ := h.fits
  obtain ⟨balance, lostOut, leftOut, retransLe⟩ := flagged_inFlight h.board.sound
  obtain ⟨sacked_, lost_, retrans_, -⟩ := h.counted.exact
  have sentSize := h.counted.sized.sentSize
  have origin : b.firstByteSeq.at (total ([] : PacketList)) = b.firstByteSeq := at_zero _
  have counts := countRFC_eq [] h (show b.sentList = [] ++ b.sentList from rfl) {} (le_refl 0)
    (le_refl 0) (le_refl 0)
    (le_refl 0) (le_refl 0) (by omega)
  rw [origin] at counts
  refine ⟨flagged (fun item => !item.sacked && (!item.lost || item.retrans)) b.sentList, ?_, ?_⟩
  · have sum : UInt32.add b.sackedOut b.lostOut =
        flagged TcpTxItem.sacked b.sentList + flagged TcpTxItem.lost b.sentList := by
      rw [sacked_, lost_]
      exact UInt32.add_of_lt (by omega)
    have within : decide (UInt32.add b.sackedOut b.lostOut ≤ b.sentSize) = true :=
      decide_eq_true (by omega)
    rw [bytesInFlight, within, nsAssert_true, sum, sentSize, retrans_]
    simp only [some_bind, pure_some, some.injEq]
    rw [UInt32.sub_of_le leftOut (by omega), UInt32.add_of_lt (by omega)]
    omega
  · have lostAgrees : (flagged (fun item => !item.sacked && item.lost) b.sentList ==
        b.lostOut) = true := by
      rw [lostOut, lost_, beq_self_eq_true]
    have retransAgrees : (flagged TcpTxItem.retrans b.sentList == b.retrans) = true := by
      rw [retrans_, beq_self_eq_true]
    have sackedAgrees : (flagged TcpTxItem.sacked b.sentList == b.sackedOut) = true := by
      rw [sacked_, beq_self_eq_true]
    have totalAgrees : (total b.sentList == b.sentSize) = true := by rw [sentSize, beq_self_eq_true]
    rw [bytesInFlightRFC, counts]
    simp [lostAgrees, retransAgrees, sackedAgrees, totalAgrees]

end Counts

end Ns3.TcpTxBuffer
