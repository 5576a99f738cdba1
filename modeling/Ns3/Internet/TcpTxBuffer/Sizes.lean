import Ns3.Internet.TcpTxBuffer.Discard
import Ns3.Internet.TcpTxBuffer.Steps

/-!
# The sizes follow the lists

`m_size` and `m_sentSize` are kept beside the two lists. Every call keeps both sizes those of the
lists, for any arguments and in every build: cuts and joins keep the number of bytes, and what
leaves a list leaves its size.
-/

namespace Ns3.TcpTxBuffer

open SequenceNumber List Option

/-- The two sizes are those of the lists and fit into a word. -/
structure Sized (b : TcpTxBuffer) : Prop where
  sentSize : b.sentSize = total b.sentList
  size : b.size = total (b.sentList ++ b.appList)
  room : b.size ≤ b.maxBuffer
  maxBuffer : b.maxBuffer < 2 ^ 32

theorem Sized.fits {b : TcpTxBuffer} (h : Sized b) :
    total b.sentList + total b.appList < 2 ^ 32 := by
  rw [← total_append, ← h.size]
  exact Nat.lt_of_le_of_lt h.room h.maxBuffer

theorem Sized.same {b b' : TcpTxBuffer} (h : Sized b) (same : SameData b b') : Sized b' where
  sentSize := by rw [same.sentSize, h.sentSize, same.sent.total]
  size := by rw [same.size, h.size, total_append, total_append, same.sent.total, same.app]
  room := by
    rw [same.size, same.maxBuffer]
    exact h.room
  maxBuffer := by
    rw [same.maxBuffer]
    exact h.maxBuffer

section Pick

variable {profile : BuildProfile} {first : Option SequenceNumber32}
variable {seq pos : SequenceNumber32} {list : PacketList}

/-- A number between the begin and the end of an item is fewer bytes behind the begin than the
item has. -/
theorem inside_of_between {size : Nat} (fits : size < 2 ^ 32) (behind : seq.gt pos = true)
    (before : seq.lt (pos.add size) = true) : (seq.sub pos).toNat < size := by
  have half := halfMaxValue_32
  have less : pos.lt seq = true := by
    rw [SequenceNumber.lt, not_gt_of_gt behind, Bool.not_false, Bool.true_and, bne_iff_ne]
    rintro rfl
    rw [gt_self] at behind
    exact absurd behind (by decide)
  obtain ⟨d, dPos, dSmall, begins⟩ := exists_of_lt less
  obtain ⟨e, ePos, eSmall, ends⟩ := exists_of_lt before
  -- Both distances are at most half the space, and together they are the size.
  rw [add_eq_at] at ends
  have round : pos.at ((size : Int) - e - d) = pos.at (0 : Int) := by
    rw [at_zero]
    conv_rhs => rw [begins, ends]
    rw [at_at, at_at, Int.sub_eq_add_neg, Int.sub_eq_add_neg, Int.add_assoc]
  have whole : size = e + d := by
    rcases Nat.lt_or_ge size (e + d) with short | long
    · by_cases all : e + d = 2 ^ 32 ∧ size = 0
      · obtain ⟨-, rfl⟩ := all
        have same : pos.add 0 = pos := by exact at_zero pos
        rw [same, SequenceNumber.lt, behind] at before
        simp at before
      · have := (at_inj (by omega) (by omega)).mp round
        omega
    · have := (at_inj (by omega) (by omega)).mp round
      omega
  have place : seq = pos.at (d : Int) := by rw [begins, at_at, Int.add_left_neg, at_zero]
  have distance : (((pos.at (d : Int)).sub (pos.at (0 : Int))).toNat : Int) = d - 0 :=
    sub_at_toNat (by omega) (by omega)
  rw [at_zero, ← place] at distance
  omega

/-- The walk that stops inside an item stops at one of its bytes. -/
theorem findSeq_inside {front rest : PacketList} {item : TcpTxItem} {offset : Nat}
    (run : findSeq profile first seq list pos = some (.inside front item rest offset))
    (fits : item.size < 2 ^ 32) : offset < item.size := by
  induction list generalizing pos front with
  | nil => exact absurd run (by simp [findSeq])
  | cons head tail ih =>
    simp only [findSeq, bind_returns] at run
    obtain ⟨-, -, run⟩ := run
    split at run
    · next before =>
      split at run
      · simp at run
      · split at run
        · next behind =>
          obtain ⟨-, rfl, -, rfl⟩ := run
          exact inside_of_between fits behind before
        · cases run
    · obtain ⟨found, walk, pushed⟩ := bind_returns.mp run
      cases found with
      | begins => simp [Found.push] at pushed
      | inside front₁ item₁ rest₁ offset₁ =>
        obtain ⟨-, rfl, rfl, rfl⟩ := pushed
        exact ih walk

theorem split_total {item : TcpTxItem} {m node : Nat} {parts : TcpTxItem × TcpTxItem}
    (run : item.split profile m node = some parts) (inside : m ≤ item.size)
    (fits : item.size < 2 ^ 32) (front rest : PacketList) :
    total (front ++ parts.1 :: parts.2 :: rest) = total (front ++ item :: rest) := by
  rw [split_eq inside fits] at run
  cases run
  simp only [total_append, total_cons, TcpTxItem.size, length_take, length_drop] at *
  omega

/-- Cutting and joining keep the number of bytes, in every build. -/
theorem getPacketFromList_total {start : SequenceNumber32} {n calls : Nat}
    {retrans nextNode : Nat} {p : Picked} (fits : total list < 2 ^ 32)
    (run : getPacketFromList profile first start n seq calls list retrans nextNode = some p) :
    total (p.front ++ p.item :: p.rest) = total list := by
  induction calls generalizing list retrans nextNode with
  | zero => exact absurd run (by simp [getPacketFromList])
  | succ calls ih =>
    simp only [getPacketFromList, bind_eq_bind, bind_eq_some_iff] at run
    obtain ⟨found, walk, run⟩ := run
    obtain ⟨rfl, -⟩ := findSeq_list walk
    cases found with
    | inside front item rest offset =>
      simp only [bind_eq_some_iff] at run
      obtain ⟨parts, cut, run⟩ := run
      have small : item.size < 2 ^ 32 := by
        simp only [Found.list, total_append, total_cons] at fits
        omega
      have same := split_total cut (findSeq_inside walk small).le small front rest
      exact (ih (same ▸ fits) run).trans same
    | begins front item rest =>
      have small : item.size < 2 ^ 32 := by
        simp only [Found.list, total_append, total_cons] at fits
        omega
      simp only at run
      split at run
      · split at run
        · cases run
          rfl
        · split at run
          · next inside =>
              simp only [bind_eq_some_iff] at run
              obtain ⟨parts, cut, run⟩ := run
              cases run
              exact split_total cut inside.le small front rest
          · cases run
      · cases rest with
        | nil =>
          cases run
          rfl
        | cons second rest =>
          simp only [bind_eq_some_iff] at run
          obtain ⟨⟨merged, retrans₁⟩, joined, run⟩ := run
          obtain ⟨-, rfl, -⟩ := merge_cases joined
          have same : total (front ++ { item with
              packet := item.packet ++ second.packet
              lastSent := if item.lastSent < second.lastSent then second.lastSent
                else item.lastSent
              retrans := item.retrans && second.retrans } :: rest) =
              total (front ++ item :: second :: rest) := by
            simp [TcpTxItem.size, Nat.add_assoc]
          exact (ih (same ▸ fits) run).trans same

end Pick

section Calls

variable {profile : BuildProfile} {b b' : TcpTxBuffer} {now : Int} {n : Nat}
variable {seq : SequenceNumber32} {out : Sent}

section

variable (h : Sized b)
include h

theorem Sized.add (p : Packet) : Sized (b.add p).2 := by
  have room := h.room
  have maxBuffer := h.maxBuffer
  have available : b.available = b.maxBuffer - b.size := UInt32.sub_of_le room maxBuffer
  rw [TcpTxBuffer.add, available]
  split
  · split
    · have sum : UInt32.add b.size p.length = b.size + p.length := UInt32.add_of_lt (by omega)
      refine { h with size := ?_, room := ?_ }
      · rw [← append_assoc, total_append, ← h.size]
        exact sum
      · show UInt32.add b.size p.length ≤ b.maxBuffer
        omega
    · exact h
  · exact h

theorem Sized.getTransmittedSegment (run : b.getTransmittedSegment profile n seq = some out) :
    Sized { out.buffer with
      sentList := out.front ++ { out.item with lastSent := now } :: out.rest } := by
  have fits := h.fits
  simp only [TcpTxBuffer.getTransmittedSegment, bind_returns, pure_returns] at run
  obtain ⟨-, -, -, -, -, -, p, picks, rfl⟩ := run
  have same := getPacketFromList_total (by omega) picks
  have sameTotal : total (p.front ++ { p.item with retrans := true, lastSent := now } :: p.rest) =
      total b.sentList := by
    rw [← same]
    simp [TcpTxItem.size]
  exact
    { h with
      sentSize := h.sentSize.trans sameTotal.symm
      size := by
        refine h.size.trans ?_
        rw [total_append, total_append, sameTotal] }

theorem Sized.getNewSegment (run : b.getNewSegment profile n = some out) :
    Sized { out.buffer with
      sentList := out.front ++ { out.item with lastSent := now } :: out.rest } := by
  have fits := h.fits
  simp only [TcpTxBuffer.getNewSegment, bind_returns, pure_returns] at run
  obtain ⟨p, picks, rfl⟩ := run
  have totals := getPacketFromList_total (by omega) picks
  have sizes := h.sentSize
  rw [total_append, total_cons] at totals
  have sum : UInt32.add b.sentSize p.item.size = b.sentSize + p.item.size :=
    UInt32.add_of_lt (by omega)
  exact
    { h with
      sentSize := by
        rw [total_append, total_cons, total_nil, ← sizes]
        exact sum
      size := by
        refine h.size.trans ?_
        simp only [total_append, total_cons, total_nil, TcpTxItem.size] at totals ⊢
        omega }

theorem Sized.copyFromSequence {r : Option TcpTxItem × TcpTxBuffer}
    (run : b.copyFromSequence profile now n seq = some r) : Sized r.2 := by
  obtain ⟨item, b'⟩ := r
  rcases copyFromSequence_cases run with ⟨-, rfl⟩ | ⟨s, out, -, -, -, handed, -, rfl⟩
  · exact h
  · rcases handOut_cases handed with ⟨-, sent⟩ | ⟨-, new⟩
    · exact h.getTransmittedSegment sent
    · exact h.getNewSegment new

/-- Bytes that leave at the head leave both sizes. -/
theorem Sized.drops (le : n ≤ total b.sentList)
    (left : total list = total b.sentList - n) (sackedOut retrans lostOut : Nat) :
    Sized ({ b with sackedOut, retrans, lostOut }.shortened list n) := by
  have fits := h.fits
  have size := h.size
  have sentSize := h.sentSize
  have room := h.room
  rw [total_append] at size
  have sub : UInt32.sub b.size n = b.size - n := UInt32.sub_of_le (by omega) (by omega)
  exact
    { sentSize := by
        show UInt32.sub b.sentSize n = total list
        rw [UInt32.sub_of_le (by omega) (by omega)]
        omega
      size := by
        show UInt32.sub b.size n = total (list ++ b.appList)
        rw [sub, total_append]
        omega
      room := by
        show UInt32.sub b.size n ≤ b.maxBuffer
        omega
      maxBuffer := h.maxBuffer }

theorem Sized.refill (run : b.refill profile now n = some b') : Sized b' := by
  obtain ⟨-, rfl⟩ | ⟨-, item, copy⟩ := refill_cases run
  · exact h
  · exact h.copyFromSequence copy

theorem Sized.discardLoop {turns : Nat}
    (run : discardLoop profile now turns n b = some b') : Sized b' := by
  refine discardLoop_induct (R := fun _ b => Sized b → Sized b') (fun _ h => h) ?_ ?_ run h
  · intro n b b₁ b₂ item rest _ filled sent _ counted ih h
    obtain ⟨sackedOut, retrans, lostOut, rfl⟩ :=
      (removeFromCounts_contract item item.size b₁).of_eq_some counted
    refine ih ((h.refill filled).drops ?_ ?_ sackedOut retrans lostOut)
    · rw [sent, total_cons]
      omega
    · rw [sent, total_cons, Nat.add_sub_cancel_left]
  · rintro n b b₁ b₂ item rest packet _ filled sent inside cut counted rfl h
    have h₁ := h.refill filled
    have fits := h₁.fits
    rw [sent, total_cons] at fits
    have left := length_cut inside (by omega) cut
    obtain ⟨sackedOut, retrans, lostOut, rfl⟩ :=
      (removeFromCounts_contract item n b₁).of_eq_some counted
    refine h₁.drops ?_ ?_ sackedOut retrans lostOut
    · rw [sent, total_cons]
      omega
    · rw [sent, total_cons, total_cons, TcpTxItem.size, left]
      omega

theorem Sized.discardUpTo (run : b.discardUpTo profile now seq = some b') :
    Sized b' := by
  rw [TcpTxBuffer.discardUpTo] at run
  split at run
  · exact some.inj run ▸ h
  · obtain ⟨b₁, dropped, run⟩ := bind_returns.mp run
    have h₁ := h.discardLoop dropped
    have fin : Sized (if b₁.size = 0 then { b₁ with firstByteSeq := seq } else b₁) := by
      split
      · exact ⟨h₁.sentSize, h₁.size, h₁.room, h₁.maxBuffer⟩
      · exact h₁
    exact fin.same ((finishDiscard_contract _ seq).of_eq_some run)

theorem Sized.resetSentList : Sized b.resetSentList :=
  { h with
    sentSize := rfl
    size := by
      have same := SameItems.map
        (fun item => { item with retrans := false, sacked := false, lost := false })
        (fun _ => rfl) (fun _ => rfl) b.sentList
      exact h.size.trans (same.append (SameItems.refl b.appList)).total.symm }

theorem Sized.resetLastSegmentSent : Sized b.resetLastSegmentSent := by
  rw [TcpTxBuffer.resetLastSegmentSent.eq_def]
  cases last : b.sentList.getLast? with
  | none => exact h
  | some item =>
    have sent : b.sentList.dropLast ++ [item] = b.sentList := dropLast_append_getLast? item last
    have sizes : total b.sentList = total b.sentList.dropLast + item.size := by
      conv_lhs => rw [← sent]
      simp
    have fits := h.fits
    have sentSize := h.sentSize
    refine { h with sentSize := ?_, size := ?_ }
    · show UInt32.sub b.sentSize item.size = total b.sentList.dropLast
      rw [UInt32.sub_of_le (by omega) (by omega)]
      omega
    · refine h.size.trans ?_
      simp only [total_append, total_cons, TcpTxItem.size] at sizes ⊢
      omega

/-- Every call keeps the sizes, with any arguments and in every build. -/
theorem Sized.call {c : Call} (run : b.call profile c = some b') : Sized b' := by
  cases c with
  | add p => exact some.inj run ▸ h.add p
  | copyFromSequence now numBytes seq =>
    obtain ⟨r, copy, rfl⟩ := map_eq_some_iff.mp run
    exact h.copyFromSequence copy
  | update list =>
    obtain ⟨r, update, rfl⟩ := map_eq_some_iff.mp run
    exact h.same (update_same update)
  | discardUpTo now seq => exact h.discardUpTo run
  | addRenoSack => exact h.same (addRenoSack_same run)
  | resetRenoSack => exact some.inj run ▸ h.same (resetRenoSack_same b)
  | markHeadAsLost => exact some.inj run ▸ h.same (markHeadAsLost_same b)
  | deleteRetransmittedFlagFromHead => exact h.same (deleteRetransmittedFlagFromHead_same run)
  | setSentListLost resetSack => exact h.same (setSentListLost_same run)
  | resetSentList => exact some.inj run ▸ h.resetSentList
  | resetLastSegmentSent => exact some.inj run ▸ h.resetLastSegmentSent

end

end Calls

end Ns3.TcpTxBuffer
