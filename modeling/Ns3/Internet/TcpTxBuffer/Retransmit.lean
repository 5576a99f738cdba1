import Ns3.Internet.TcpTxBuffer.Copy
import Ns3.Internet.TcpTxBuffer.Counters

/-!
# What is sent next

`NextSeg` names a lost item, the end of the sent data, or, by its rule (3), an
item that is not lost. A segment that is sent again is one item, its beginning,
or the item joined with the next one and cut to the wanted length.
-/

namespace Ns3.TcpTxBuffer

open SequenceNumber

section NextSeg

variable {head : SequenceNumber32} {isRecovery : Bool}

/-- Rule (1) names the begin of a lost item that was not sent again. -/
theorem nextSegWalk_lost {list : PacketList} {start : Nat} {saved : SequenceNumber32 × Bool}
    {seq : SequenceNumber32}
    (walk : nextSegWalk isRecovery list (head.at start) saved = .inl seq) :
    ∃ front item rest, list = front ++ item :: rest ∧ seq = head.at (start + total front : Nat) ∧
      item.retrans = false ∧ item.sacked = false ∧ item.lost = true := by
  induction list generalizing start saved with
  | nil => exact absurd walk (by simp [nextSegWalk])
  | cons item rest ih =>
    have next : (head.at start).add item.size = head.at (start + item.size : Nat) :=
      at_add head start item.size
    have further : ∀ {saved : SequenceNumber32 × Bool},
        nextSegWalk isRecovery rest ((head.at start).add item.size) saved = .inl seq →
        ∃ front item' rest', item :: rest = front ++ item' :: rest' ∧
          seq = head.at (start + total front : Nat) ∧
          item'.retrans = false ∧ item'.sacked = false ∧ item'.lost = true := by
      intro saved walk
      rw [next] at walk
      obtain ⟨front, item', rest', rfl, seq, flags⟩ := ih walk
      refine ⟨item :: front, item', rest', rfl, ?_, flags⟩
      rw [seq, total_cons, Nat.add_assoc]
    rw [nextSegWalk] at walk
    split at walk
    · next open_ =>
        simp only [Bool.and_eq_true, Bool.not_eq_true'] at open_
        split at walk
        · next lost =>
            obtain rfl := Sum.inl.inj walk
            exact ⟨[], item, rest, rfl, rfl, open_.1, open_.2, lost⟩
        · exact further walk
    · exact further walk

/-- Does `NextSeg` fall back on rule (3)? No lost item is to be sent again, there
is no unsent data, and an item was saved for that rule. -/
def usesRule3 (b : TcpTxBuffer) (isRecovery : Bool) : Bool :=
  match nextSegWalk isRecovery b.sentList b.firstByteSeq (.ofNat 0, false) with
  | .inl _ => false
  | .inr (_, isSeqPerRule3Valid) =>
    isSeqPerRule3Valid && b.sizeFromSequence (b.firstByteSeq.add b.sentSize) == 0

/-- The ranges of the rules (1) and (2). -/
theorem nextSeg_cases {b : TcpTxBuffer} {rWnd : Nat} {seq seqHigh : SequenceNumber32}
    (next : b.nextSeg rWnd isRecovery = some (seq, seqHigh))
    (avoids : b.usesRule3 isRecovery = false) :
    ((∃ front item rest, b.sentList = front ++ item :: rest ∧
        seq = b.firstByteSeq.at (total front) ∧
        item.retrans = false ∧ item.sacked = false ∧ item.lost = true) ∨
      seq = b.firstByteSeq.at b.sentSize) ∧ (seqHigh.sub seq).toNat ≤ b.segmentSize := by
  have length : ∀ {seq : SequenceNumber32} {m : Nat}, ((seq.add m).sub seq).toNat ≤ m := by
    intro seq m
    rw [sub_eq, SequenceNumber.add, add_sub_cancel_left, BitVec.toNat_ofNat]
    exact Nat.mod_le _ _
  rw [nextSeg] at next
  rw [usesRule3] at avoids
  split at next
  · next first walk =>
      cases next
      have origin : b.firstByteSeq.at (0 : Nat) = b.firstByteSeq := at_zero _
      rw [← origin] at walk
      obtain ⟨front, item, rest, sent, seq, flags⟩ := nextSegWalk_lost walk
      rw [Nat.zero_add] at seq
      exact ⟨.inl ⟨front, item, rest, sent, seq, flags⟩, length⟩
  · next saved valid walk =>
      rw [walk] at avoids
      simp only at next
      split at next
      · split at next
        · cases next
          exact ⟨.inr (add_eq_at _ _), Nat.le_trans length (Nat.min_le_left _ _)⟩
        · cases next
      · next unsent =>
          split at next
          · next rule3 =>
              refine absurd avoids ?_
              simp [rule3, Nat.eq_zero_of_not_pos unsent]
          · cases next

end NextSeg

section Resend

variable {profile : BuildProfile} {b : TcpTxBuffer} {head : SequenceNumber32}
variable {front rest : PacketList} {item second : TcpTxItem} {n calls retrans nextNode : Nat}
variable {first : Option SequenceNumber32} {p : Picked}

/-- The walk to the begin of an item. -/
theorem findSeq_begins {found : Found}
    (walk : findSeq profile first (head.at (total front)) (front ++ item :: rest) head =
      some found)
    (positive : 0 < item.size) (near : total (front ++ item :: rest) ≤ halfMaxValue 32) :
    found = .begins front item rest := by
  simp only [total_append, total_cons] at near
  have origin : head.at (0 : Nat) = head := at_zero head
  have walk : findSeq profile first (head.at (total front)) (front ++ item :: rest)
      (head.at (0 : Nat)) = some found := by
    rw [origin]
    exact walk
  have found_ := (findSeq_contract (show 0 + total front + 0 = total front by omega) (by omega)
    positive (Room.of_le (by omega))).of_eq_some walk
  rwa [if_pos rfl] at found_

/-- The item at the begin of the range, or its first part. -/
theorem getPacketFromList_within
    (run : getPacketFromList profile first head n (head.at (total front)) (calls + 1)
      (front ++ item :: rest) retrans nextNode = some p)
    (wanted : 0 < n) (within : n ≤ item.size)
    (near : total (front ++ item :: rest) ≤ halfMaxValue 32) :
    (n = item.size ∧ p = ⟨front, item, rest, retrans, nextNode⟩) ∨
      (n < item.size ∧ p = ⟨front, { item with packet := item.packet.take n, node := nextNode },
        { item with packet := item.packet.drop n, startSeq := item.startSeq.add n } :: rest,
        retrans, nextNode + 1⟩) := by
  have half := halfMaxValue_32
  simp only [total_append, total_cons] at near
  obtain ⟨found, walk, run⟩ := bind_returns.mp run
  obtain rfl := findSeq_begins walk (by omega) (by simpa only [total_append, total_cons] using near)
  have isLe : ((head.at (total front)).add n).le ((head.at (total front)).add item.size) =
    true := by
    have left : (head.at (total front)).add n = head.at (total front + n : Nat) := at_add _ _ _
    have right : (head.at (total front)).add item.size = head.at (total front + item.size : Nat) :=
      at_add _ _ _
    rw [left, right, le_at_nat (by omega) (by omega)]
    exact decide_eq_true (by omega)
  simp only [isLe, if_true] at run
  split at run
  · next whole => exact .inl ⟨whole, (Option.some.inj run).symm⟩
  · rw [if_pos (by omega), split_eq within (by omega)] at run
    exact .inr ⟨by omega, (Option.some.inj run).symm⟩

/-- A longer range joins the item with the next one. -/
theorem getPacketFromList_beyond
    (run : getPacketFromList profile first head n (head.at (total front)) (calls + 1)
      (front ++ item :: second :: rest) retrans nextNode = some p)
    (positive : 0 < item.size) (beyond : item.size < n) (enough : n ≤ item.size + second.size)
    (near : total (front ++ item :: second :: rest) ≤ halfMaxValue 32) :
    ∃ merged retrans', item.merge profile second retrans = some (merged, retrans') ∧
      getPacketFromList profile first head n (head.at (total front)) calls
        (front ++ merged :: rest) retrans' nextNode = some p := by
  simp only [total_append, total_cons] at near
  obtain ⟨found, walk, run⟩ := bind_returns.mp run
  obtain rfl := findSeq_begins walk (by omega) (by simpa only [total_append, total_cons] using near)
  have notLe : ((head.at (total front)).add n).le ((head.at (total front)).add item.size) =
      false := by
    have left : (head.at (total front)).add n = head.at (total front + n : Nat) := at_add _ _ _
    have right : (head.at (total front)).add item.size = head.at (total front + item.size : Nat) :=
      at_add _ _ _
    rw [left, right, le_at_nat (by omega) (by omega)]
    exact decide_eq_false (by omega)
  simp only [notLe, Bool.false_eq_true, if_false] at run
  obtain ⟨⟨merged, retrans'⟩, joined, run⟩ := bind_returns.mp run
  exact ⟨merged, retrans', joined, run⟩

/-- At the item that begins with the requested number, two segments are asked for
only if their flags allow to join them. -/
theorem transmittedSize_at (starts : Starts head 0 (front ++ item :: rest))
    (near : total (front ++ item :: rest) ≤ halfMaxValue 32)
    (positive : Positive (front ++ item :: rest)) :
    transmittedSize (head.at (total front)) n (front ++ item :: rest) = min n item.size ∨
      ∃ second rest', rest = second :: rest' ∧ second.sacked = false ∧
        item.lost = second.lost ∧
        transmittedSize (head.at (total front)) n (front ++ item :: rest) =
          min n (item.size + second.size) := by
  have half := halfMaxValue_32
  have general : ∀ before : PacketList, ∀ pos, Starts head pos (before ++ item :: rest) →
      pos + total before = total front → Positive (before ++ item :: rest) →
      transmittedSize (head.at (total front)) n (before ++ item :: rest) =
        transmittedSize (head.at (total front)) n (item :: rest) := by
    intro before
    induction before with
    | nil => exact fun _ _ _ _ => rfl
    | cons passed before ih =>
      intro pos starts position positive
      obtain ⟨size, positive⟩ := positive_cons.mp positive
      rw [total_cons] at position
      simp only [total_append] at near
      have ne : passed.startSeq ≠ head.at (total front) := by
        rw [starts.1]
        intro same
        have := (at_inj (by omega) (by omega)).mp same
        omega
      rw [List.cons_append, transmittedSize.eq_def]
      simp only [ne, if_false]
      exact ih (pos + passed.size) starts.2 (by omega) positive
  have here : item.startSeq = head.at (total front) := by
    have := (starts_append.mp starts).2.1
    rwa [Nat.zero_add] at this
  rw [general front 0 starts (Nat.zero_add _) positive]
  simp only [total_append, total_cons] at near
  cases rest with
  | nil =>
    left
    simp [transmittedSize, here]
  | cons second rest =>
    rw [total_cons] at near
    have sum : UInt32.add item.size second.size = item.size + second.size :=
      UInt32.add_of_lt (by omega)
    simp only [transmittedSize, here, if_true, sum]
    split
    · next fits =>
        simp only [Bool.and_eq_true, Bool.not_eq_true', beq_iff_eq] at fits
        exact .inr ⟨second, rest, rfl, fits.1, fits.2, rfl⟩
    · exact .inl rfl

/-- The item that is picked, marked as sent again, and its count. -/
def resent (item : TcpTxItem) : TcpTxItem := { item with retrans := true }

def resentCount (p : Picked) : Nat :=
  if p.item.retrans then p.retrans else UInt32.add p.retrans p.item.size

/-- One item becomes its first `n` bytes, sent again, and possibly the rest. -/
structure Cuts (front : PacketList) (item : TcpTxItem) (rest : PacketList)
    (n retrans nextNode : Nat)
    (p : Picked) (more : PacketList) : Prop where
  passed : p.front = front
  after : p.rest = more ++ rest
  flags : ∀ x ∈ resent p.item :: more, x.sacked = item.sacked ∧ x.lost = item.lost
  totals : total (resent p.item :: more) = item.size
  size : p.item.size ≤ n
  left : ∀ x ∈ more, x.size + n ≤ item.size
  tracks : Tracks TcpTxItem.retrans retrans (front ++ item :: rest) (resentCount p)
    (p.front ++ resent p.item :: p.rest)
  nodes : ((resent p.item :: more).map TcpTxItem.node = [item.node] ∧ p.nextNode = nextNode) ∨
    ((resent p.item :: more).map TcpTxItem.node = [nextNode, item.node] ∧
      p.nextNode = nextNode + 1)

theorem resent_tracks (front rest : PacketList) (item : TcpTxItem) (k : Nat) :
    Tracks TcpTxItem.retrans k (front ++ item :: rest)
      (if item.retrans then k else UInt32.add k item.size) (front ++ resent item :: rest) :=
  Tracks.set front rest rfl rfl

theorem getPacketFromList_cuts
    (run : getPacketFromList profile first head n (head.at (total front)) (calls + 1)
      (front ++ item :: rest) retrans nextNode = some p)
    (wanted : 0 < n) (within : n ≤ item.size)
    (near : total (front ++ item :: rest) ≤ halfMaxValue 32) :
    ∃ more, Cuts front item rest n retrans nextNode p more := by
  rcases getPacketFromList_within run wanted within near with ⟨rfl, rfl⟩ | ⟨inside, rfl⟩
  · refine ⟨[], ?_⟩
    exact
      { passed := rfl
        after := rfl
        flags := by simp [resent]
        totals := by simp [resent, TcpTxItem.size]
        size := le_rfl
        left := by simp
        tracks := resent_tracks front rest item retrans
        nodes := .inl ⟨rfl, rfl⟩ }
  · have firstSize : (item.packet.take n).length = n := by
      rw [List.length_take]
      exact Nat.min_eq_left within
    have secondSize : (item.packet.drop n).length = item.size - n := List.length_drop
    refine ⟨[{ item with packet := item.packet.drop n, startSeq := item.startSeq.add n }], ?_⟩
    exact
      { passed := rfl
        after := rfl
        flags := by simp [resent]
        totals := by
          simp only [resent, total_cons, total_nil, TcpTxItem.size, firstSize, secondSize]
          unfold TcpTxItem.size at within
          omega
        size := firstSize.le
        left := by
          intro x member
          rw [List.mem_singleton] at member
          subst member
          rw [TcpTxItem.size, secondSize]
          omega
        tracks := by
          refine Tracks.trans (Tracks.same ?_) (resent_tracks front _ _ retrans)
          refine flagged_pair _ front rest ?_ rfl rfl
          simp only [TcpTxItem.size, firstSize, secondSize]
          unfold TcpTxItem.size at within
          omega
        nodes := .inr ⟨rfl, rfl⟩ }

/-- What sending the item `item` again does to the sent list: the items `old`,
which begin with it, become `out.item` and the items `more`. -/
structure Resends (b : TcpTxBuffer) (front : PacketList) (item : TcpTxItem) (rest : PacketList)
    (n : Nat) (out : Sent) (old more others : PacketList) : Prop where
  before : item :: rest = old ++ others
  firstOld : ∃ tail, old = item :: tail
  passed : out.front = front
  after : out.rest = more ++ others
  buffer : out.buffer =
    { b with retrans := out.buffer.retrans, nextNode := out.buffer.nextNode }
  oldFlags : ∀ x ∈ old, x.sacked = item.sacked ∧ x.lost = item.lost
  newFlags : ∀ x ∈ out.item :: more, x.sacked = item.sacked ∧ x.lost = item.lost
  totals : total (out.item :: more) = total old
  sizes : ∀ x ∈ out.item :: more, x.size ≤ n ∨ ∃ y ∈ old, x.size ≤ y.size
  retrans : Tracks TcpTxItem.retrans b.retrans (front ++ item :: rest) out.buffer.retrans
    (out.front ++ out.item :: out.rest)
  nodes : ((out.item :: more).map TcpTxItem.node = [item.node] ∧
      out.buffer.nextNode = b.nextNode) ∨
    ((out.item :: more).map TcpTxItem.node = [b.nextNode, item.node] ∧
      out.buffer.nextNode = b.nextNode + 1)

/-- The time of sending is none of this. -/
theorem Resends.stamp {out : Sent} {old more others : PacketList} {x : TcpTxItem} {now : Int}
    (h : Resends b front item rest n out old more others)
    (stamp : x = { out.item with lastSent := now }) :
    Resends b front item rest n { out with item := x } old more others := by
  subst stamp
  have retrans := h.retrans
  simp only [Tracks, flagged_append, flagged_cons, share] at retrans
  exact { h with
    newFlags := List.forall_mem_cons.mpr (List.forall_mem_cons.mp h.newFlags)
    sizes := List.forall_mem_cons.mpr (List.forall_mem_cons.mp h.sizes)
    retrans := by
      simp only [Tracks, flagged_append, flagged_cons, share]
      exact retrans }

/-- The segment is picked at the begin of the item, or of the item joined with the
next one. -/
theorem getTransmittedSegment_picks {out : Sent}
    (run : b.getTransmittedSegment profile n (b.firstByteSeq.at (total front)) = some out)
    (sent : b.sentList = front ++ item :: rest) (starts : Starts b.firstByteSeq 0 b.sentList)
    (positive : Positive b.sentList) (near : total b.sentList ≤ halfMaxValue 32) (wanted : 0 < n) :
    ∃ p whole m retrans more others, Cuts front whole others m retrans b.nextNode p more ∧
      m ≤ n ∧
      out = ⟨{ b with retrans := resentCount p, nextNode := p.nextNode }, p.front, resent p.item,
        p.rest⟩ ∧
      whole.sacked = item.sacked ∧ whole.lost = item.lost ∧ whole.node = item.node ∧
      ((whole = item ∧ others = rest ∧ retrans = b.retrans) ∨
        ∃ second, rest = second :: others ∧ second.sacked = false ∧ item.lost = second.lost ∧
          item.size < m ∧ item.size + second.size = whole.size ∧
          Tracks TcpTxItem.retrans b.retrans (front ++ item :: second :: others) retrans
            (front ++ whole :: others)) := by
  simp only [getTransmittedSegment, bind_returns, pure_returns] at run
  obtain ⟨-, -, -, -, -, -, p, picks, rfl⟩ := run
  rw [sent] at starts positive near picks
  have itemPos : 0 < item.size := positive item (by simp)
  rcases transmittedSize_at (n := n) starts near positive with
    size | ⟨second, others, rfl, secondNotSacked, sameLost, size⟩
  · rw [size] at picks
    obtain ⟨more, cuts⟩ := getPacketFromList_cuts picks (by omega) (Nat.min_le_right _ _) near
    exact ⟨p, item, _, _, more, rest, cuts, Nat.min_le_left _ _, rfl, rfl, rfl, rfl,
      .inl ⟨rfl, rfl, rfl⟩⟩
  · rw [size] at picks
    rcases Nat.lt_or_ge item.size (min n (item.size + second.size)) with beyond | within
    swap
    · obtain ⟨more, cuts⟩ := getPacketFromList_cuts picks (by omega) within near
      exact ⟨p, item, _, _, more, _, cuts, Nat.min_le_left _ _, rfl, rfl, rfl, rfl,
        .inl ⟨rfl, rfl, rfl⟩⟩
    obtain ⟨merged, retrans', joined, picks⟩ := getPacketFromList_beyond picks itemPos beyond
      (Nat.min_le_right _ _) near
    obtain ⟨-, eq, rfl⟩ := merge_cases joined
    have sizes : item.size + second.size = merged.size := by
      rw [eq]
      exact List.length_append.symm
    have near' : total (front ++ merged :: others) ≤ halfMaxValue 32 := by
      simp only [total_append, total_cons] at near ⊢
      omega
    obtain ⟨more, cuts⟩ := getPacketFromList_cuts picks (by omega) (by omega) near'
    exact ⟨p, merged, _, _, more, others, cuts, Nat.min_le_left _ _, rfl, by rw [eq], by rw [eq],
      by rw [eq], .inr ⟨second, rfl, secondNotSacked, sameLost, beyond, sizes,
        tracks_merge front others sizes (by rw [eq])⟩⟩

theorem getTransmittedSegment_resends {out : Sent}
    (run : b.getTransmittedSegment profile n (b.firstByteSeq.at (total front)) = some out)
    (sent : b.sentList = front ++ item :: rest) (starts : Starts b.firstByteSeq 0 b.sentList)
    (positive : Positive b.sentList) (near : total b.sentList ≤ halfMaxValue 32) (wanted : 0 < n)
    (notSacked : item.sacked = false) :
    ∃ old more others, Resends b front item rest n out old more others := by
  obtain ⟨p, whole, m, retrans, more, others, cuts, le, rfl, sacked, lost, node, picked⟩ :=
    getTransmittedSegment_picks run sent starts positive near wanted
  have newFlags : ∀ x ∈ resent p.item :: more, x.sacked = item.sacked ∧ x.lost = item.lost := by
    intro x member
    obtain ⟨s, l⟩ := cuts.flags x member
    exact ⟨s.trans sacked, l.trans lost⟩
  have sizes : ∀ {old : PacketList}, (∃ y ∈ old, whole.size ≤ m + y.size) →
      ∀ x ∈ resent p.item :: more, x.size ≤ n ∨ ∃ y ∈ old, x.size ≤ y.size := by
    rintro old ⟨y, member, big⟩
    refine List.forall_mem_cons.mpr ⟨.inl (Nat.le_trans cuts.size le), ?_⟩
    intro x rest
    have := cuts.left x rest
    exact .inr ⟨y, member, by omega⟩
  rcases picked with ⟨rfl, rfl, rfl⟩ | ⟨second, rfl, secondNotSacked, sameLost, beyond, size,
    tracks⟩
  · refine ⟨[whole], more, others, ?_⟩
    exact
      { before := rfl
        firstOld := ⟨[], rfl⟩
        passed := cuts.passed
        after := cuts.after
        buffer := rfl
        oldFlags := by simp
        newFlags
        totals := cuts.totals
        sizes := sizes ⟨whole, List.mem_singleton_self _, Nat.le_add_left _ _⟩
        retrans := cuts.tracks
        nodes := cuts.nodes }
  · refine ⟨[item, second], more, others, ?_⟩
    exact
      { before := rfl
        firstOld := ⟨[second], rfl⟩
        passed := cuts.passed
        after := cuts.after
        buffer := rfl
        oldFlags := by simp [notSacked, secondNotSacked, sameLost]
        newFlags
        totals := by
          refine cuts.totals.trans (size.symm.trans ?_)
          rw [total_cons, total_cons, total_nil, Nat.add_zero]
        sizes := sizes ⟨second, by simp, by omega⟩
        retrans := tracks.trans cuts.tracks
        nodes := node ▸ cuts.nodes }

/-- What is handed out is sacked if and only if the item at the begin of the range is. -/
theorem getTransmittedSegment_sacked {out : Sent}
    (run : b.getTransmittedSegment .debug n (b.firstByteSeq.at (total front)) = some out)
    (sent : b.sentList = front ++ item :: rest) (starts : Starts b.firstByteSeq 0 b.sentList)
    (positive : Positive b.sentList) (near : total b.sentList ≤ halfMaxValue 32) (wanted : 0 < n) :
    out.item.sacked = item.sacked := by
  obtain ⟨p, _, _, _, _, _, cuts, -, rfl, sacked, -⟩ :=
    getTransmittedSegment_picks run sent starts positive near wanted
  exact (cuts.flags (resent p.item) (List.mem_cons_self ..)).1.trans sacked

end Resend

end Ns3.TcpTxBuffer
