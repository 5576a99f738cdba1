import Ns3.Internet.TcpTxBuffer.BytesInFlight
import Ns3.Internet.TcpTxBuffer.Consistency
import Ns3.Internet.TcpTxBuffer.Discard
import Ns3.Internet.TcpTxBuffer.Retransmit

/-!
# The bytes in flight of a connection

A connection adds data, sends the ranges that `NextSeg` names, feeds SACK options
to `Update` and discards acknowledged segments. Each of these calls keeps the
board of the sent list judged, so that the two counts of the bytes in flight
agree, under a condition on the call that names what goes wrong otherwise.
-/

namespace Ns3.TcpTxBuffer

open SequenceNumber List Option

/-- Different nodes, all of them used before. -/
def Distinct (nodes : List Nat) (next : Nat) : Prop := nodes.Nodup ∧ ∀ node ∈ nodes, node < next

/-- The invariant of a connection. -/
structure Piped (b : TcpTxBuffer) : Prop where
  holds : ∃ initial stream consumed, Holds initial stream consumed b
  consistent : Consistent b
  nodes : Distinct (b.sentList.map TcpTxItem.node) b.nextNode

section Facts

variable {b b' : TcpTxBuffer} {initial : SequenceNumber32} {stream : List Byte} {consumed : Nat}

theorem Holds.sized (h : Holds initial stream consumed b) : Sized b :=
  ⟨h.sentSize, h.size, h.room, h.maxBuffer⟩

theorem flagged_eq_total {flag : TcpTxItem → Bool} {list : PacketList}
    (all : ∀ item ∈ list, flag item = true) : flagged flag list = total list := by
  induction list with
  | nil => rfl
  | cons item rest ih =>
    obtain ⟨here, others⟩ := forall_mem_cons.mp all
    rw [flagged_cons, total_cons, share, if_pos here, ih others]

theorem sizeFromSequence_near {k : Nat} (near : b.size ≤ halfMaxValue 32) (le : k ≤ b.size) :
    b.sizeFromSequence (b.firstByteSeq.at k) = b.size - k := by
  have half := halfMaxValue_32
  have tail : b.tailSequence = b.firstByteSeq.at b.size := add_eq_at _ _
  have isGe : (b.firstByteSeq.at b.size).ge (b.firstByteSeq.at k) = true := by
    rw [ge_at_nat (by omega) (by omega)]
    exact decide_eq_true le
  have distance : (((b.firstByteSeq.at b.size).sub (b.firstByteSeq.at k)).toNat : Int) =
      b.size - k := sub_at_toNat (by omega) (by omega)
  rw [sizeFromSequence, tail, isGe, if_pos rfl]
  omega

end Facts

section Send

variable {profile : BuildProfile} {b b' : TcpTxBuffer} {front rest : PacketList}
variable {item : TcpTxItem} {out : Sent} {n : Nat} {now : Int}

/-- The node of the item stays, or a new one comes in front of it. -/
theorem Distinct.resent {passed others tail new : List Nat} {node next next' : Nat}
    (h : Distinct (passed ++ (node :: tail ++ others)) next)
    (nodes : (new = [node] ∧ next' = next) ∨ (new = [next, node] ∧ next' = next + 1)) :
    Distinct (passed ++ (new ++ others)) next' := by
  obtain ⟨nodup, fresh⟩ := h
  have kept : (passed ++ node :: others).Sublist (passed ++ (node :: tail ++ others)) := by
    refine List.Sublist.append_left ?_ passed
    exact List.Sublist.cons_cons node (sublist_append_right tail others)
  have nodup' := nodup.sublist kept
  have fresh' : ∀ x ∈ passed ++ node :: others, x < next := fun x member =>
    fresh x (kept.subset member)
  rcases nodes with ⟨rfl, rfl⟩ | ⟨rfl, rfl⟩
  · exact ⟨nodup', fresh'⟩
  · rw [cons_append, singleton_append]
    refine ⟨?_, fun x member => ?_⟩
    · rw [nodup_middle, nodup_cons]
      exact ⟨fun member => absurd (fresh' next member) (lt_irrefl _), nodup'⟩
    · rw [mem_append, mem_cons, or_left_comm, ← mem_append] at member
      rcases member with rfl | member
      · exact Nat.lt_succ_self x
      · exact Nat.lt_succ_of_lt (fresh' x member)

theorem Resends.distinct {list old more others : PacketList}
    (h : Resends b front item rest n out old more others) (sent : list = front ++ item :: rest)
    (distinct : Distinct (list.map TcpTxItem.node) b.nextNode) :
    Distinct ((out.front ++ (out.item :: more ++ others)).map TcpTxItem.node)
      out.buffer.nextNode := by
  obtain ⟨before, ⟨tail, rfl⟩, rfl, -, -, -, -, -, -, -, nodes⟩ := h
  rw [sent, before] at distinct
  simp only [map_append, map_cons, cons_append] at distinct nodes ⊢
  exact distinct.resent nodes

theorem Distinct.append {nodes : List Nat} {node next : Nat} (h : Distinct nodes next)
    (later : next ≤ node) : Distinct (nodes ++ [node]) (node + 1) := by
  obtain ⟨nodup, fresh⟩ := h
  refine ⟨nodup_append.mpr ⟨nodup, nodup_singleton _, ?_⟩, ?_⟩
  · rintro y member z new rfl
    rw [mem_singleton.mp new] at member
    exact absurd (fresh _ member) (Nat.not_lt.mpr later)
  · rw [forall_mem_append, forall_mem_singleton]
    exact ⟨fun y member => Nat.lt_succ_of_lt (Nat.lt_of_lt_of_le (fresh y member) later),
      Nat.lt_succ_self _⟩

theorem Distinct.suffix {passed nodes : List Nat} {next : Nat}
    (h : Distinct (passed ++ nodes) next) :
    Distinct nodes next :=
  ⟨(nodup_append.mp h.1).2.1, (forall_mem_append.mp h.2).2⟩

/-- A lost item is sent again. -/
theorem Piped.resend (h : Piped b) (sent : b.sentList = front ++ item :: rest)
    (lost : item.lost = true) (notSacked : item.sacked = false) (wanted : 0 < n)
    (segment : n ≤ b.segmentSize) (within : total front + n ≤ b.sentSize)
    (run : b.getTransmittedSegment profile n (b.firstByteSeq.at (total front)) = some out)
    {x : TcpTxItem} (stamp : x = { out.item with lastSent := now }) :
    Piped { out.buffer with sentList := out.front ++ x :: out.rest } := by
  obtain ⟨⟨initial, stream, consumed, holds⟩, consistent, distinct⟩ := h
  have le := holds.sentSize_le
  have near := consistent.near
  have sizes := holds.sentSize
  obtain ⟨old, more, others, resends⟩ := getTransmittedSegment_resends run sent holds.starts
    consistent.positive (by omega) wanted notSacked
  have holds' : Holds initial stream consumed
      { out.buffer with sentList := out.front ++ x :: out.rest } := by
    rw [stamp]
    exact (((getTransmittedSegment_contract holds wanted within (by omega)
      (Room.of_le (by omega))).of_eq_some run).copied holds now).holds
  have distinct' := (resends.stamp stamp).distinct sent distinct
  obtain ⟨before, ⟨tail, rfl⟩, rfl, after, frame, oldFlags, newFlags, totals, pieces, retrans,
    -⟩ := resends.stamp stamp
  rw [before] at sent retrans
  rw [after] at holds' retrans ⊢
  have oldLost : ∀ y ∈ item :: tail, y.sacked = false ∧ y.lost = true := fun y member =>
    ⟨(oldFlags y member).1.trans notSacked, (oldFlags y member).2.trans lost⟩
  have newLost : ∀ y ∈ x :: more, y.sacked = false ∧ y.lost = true := fun y member =>
    ⟨(newFlags y member).1.trans notSacked, (newFlags y member).2.trans lost⟩
  have exact_ := consistent.counted.exact
  have sized := holds'.sized
  -- Sacked and lost bytes stay, and the mark of the item that is sent is counted.
  have sackedSame : flagged TcpTxItem.sacked (out.front ++ (x :: more ++ others)) =
      flagged TcpTxItem.sacked b.sentList := by
    have zero := flagged_eq_zero fun y member => (oldLost y member).1
    have zero' := flagged_eq_zero fun y member => (newLost y member).1
    rw [sent]
    simp only [flagged_append, zero, zero']
  have lostSame : flagged TcpTxItem.lost (out.front ++ (x :: more ++ others)) =
      flagged TcpTxItem.lost b.sentList := by
    have all := flagged_eq_total fun y member => (oldLost y member).2
    have all' := flagged_eq_total fun y member => (newLost y member).2
    rw [sent]
    simp only [flagged_append, all, all', totals]
  have tracks : Tracks TcpTxItem.retrans b.retrans b.sentList out.buffer.retrans
      (out.front ++ (x :: more ++ others)) := by
    rw [sent]
    exact retrans
  have counted : Counted { out.buffer with
      sentList := out.front ++ (x :: more ++ others) } := by
    refine ⟨?_, sized⟩
    have fits := consistent.counted.sized.fits
    have fits' : total (out.front ++ (x :: more ++ others)) < 2 ^ 32 := by
      have := sized.fits
      exact Nat.lt_of_le_of_lt (Nat.le_add_right _ _) this
    exact
      { sackedOut := by
          rw [sackedSame, ← exact_.sackedOut, frame]
        lostOut := by
          rw [lostSame, ← exact_.lostOut, frame]
        retrans := tracks.exact exact_.retrans (by omega) fits'
        clear := by
          rw [frame]
          exact exact_.clear }
  have board := consistent.board
  have segments := consistent.segments
  rw [sent] at board segments
  refine ⟨⟨initial, stream, consumed, holds'⟩, ?_, ?_⟩
  · exact
      { counted
        threshold := by
          rw [frame]
          exact consistent.threshold
        segments := by
          have bound : ∀ y ∈ x :: more, y.size ≤ b.segmentSize := by
            intro y member
            rcases pieces y member with short | ⟨z, member, short⟩
            · exact Nat.le_trans short segment
            · exact Nat.le_trans short (segments z (by simp at member ⊢; tauto))
          have same : out.buffer.segmentSize = b.segmentSize := by rw [frame]
          rw [forall_mem_append, forall_mem_append] at segments
          show ∀ y ∈ out.front ++ (x :: more ++ others), y.size ≤ out.buffer.segmentSize
          rw [same, forall_mem_append, forall_mem_append]
          exact ⟨segments.1, bound, segments.2.2⟩
        positive := (positive_append.mp holds'.positive).1
        near := by
          rw [frame]
          exact near
        board := by
          rw [frame]
          exact board.replace oldLost newLost (cons_ne_nil _ _) (cons_ne_nil _ _)
            totals }
  · exact distinct'

/-- New data is sent. -/
theorem Piped.sendNew (h : Piped b) (wanted : 0 < n) (segment : n ≤ b.segmentSize)
    (enough : b.sentSize + n ≤ b.size) (run : b.getNewSegment profile n = some out)
    {x : TcpTxItem} (stamp : x = { out.item with lastSent := now }) :
    Piped { out.buffer with sentList := out.front ++ x :: out.rest } := by
  obtain ⟨⟨initial, stream, consumed, holds⟩, consistent, distinct⟩ := h
  have near := consistent.near
  have sentAt := (getNewSegment_contract holds wanted enough
    (Room.of_le (by omega))).of_eq_some run
  have holds' : Holds initial stream consumed
      { out.buffer with sentList := out.front ++ x :: out.rest } := by
    rw [stamp]
    exact (sentAt.copied holds now).holds
  obtain ⟨exact_, clear⟩ := consistent.counted.exact.getNewSegment now run
  have bound := sentAt.bound
  have size : x.size = out.item.size := by rw [stamp]; rfl
  have clear' : Clear x := by rw [stamp]; exact clear
  rw [← stamp] at exact_
  have node : x.node = out.item.node := by rw [stamp]
  simp only [getNewSegment, bind_returns, pure_returns] at run
  obtain ⟨p, picks, rfl⟩ := run
  have later := (getPacketFromList_reshape picks).2
  refine ⟨⟨initial, stream, consumed, holds'⟩, ?_, ?_⟩
  · exact
      { counted := ⟨exact_, holds'.sized⟩
        threshold := consistent.threshold
        segments := by
          rw [forall_mem_append, forall_mem_singleton]
          exact ⟨consistent.segments, size.trans_le (Nat.le_trans bound segment)⟩
        positive := (positive_append.mp holds'.positive).1
        near := near
        board := consistent.board.append clear' }
  · rw [map_append, map_singleton, node]
    exact distinct.append later

/-- The range that `NextSeg` names is sent, unless it comes from rule (3). -/
theorem Piped.send (h : Piped b) {rWnd : Nat} {isRecovery : Bool} {seq seqHigh : SequenceNumber32}
    {r : Option TcpTxItem} (next : b.nextSeg rWnd isRecovery = some (seq, seqHigh))
    (avoids : b.usesRule3 isRecovery = false)
    (run : b.copyFromSequence profile now (seqHigh.sub seq).toNat seq = some (r, b')) :
    Piped b' := by
  obtain ⟨range, segment⟩ := nextSeg_cases next avoids
  rcases copyFromSequence_cases run with ⟨-, rfl⟩ | ⟨n, out, wanted, le, inside, handed, -, rfl⟩
  · exact h
  obtain ⟨initial, stream, consumed, holds⟩ := h.holds
  have near := h.consistent.near
  have sentLe := holds.sentSize_le
  have half := halfMaxValue_32
  have sentEnd : b.firstByteSeq.add b.sentSize = b.firstByteSeq.at b.sentSize := add_eq_at _ _
  rcases range with ⟨front, item, rest, sent, rfl, -, notSacked, lost⟩ | rfl
  · have position : total front < b.sentSize := by
      have pos : 0 < item.size := h.consistent.positive item (by simp [sent])
      rw [holds.sentSize, sent, total_append, total_cons]
      omega
    rw [sizeFromSequence_near near (by omega)] at inside
    have blockEnd : (b.firstByteSeq.at (total front)).add n =
        b.firstByteSeq.at (total front + n : Nat) := at_add _ _ _
    rcases handOut_cases handed with ⟨within, again⟩ | ⟨new, -⟩
    · rw [sentEnd, blockEnd, ge_at_nat (by omega) (by omega), decide_eq_true_eq] at within
      exact h.resend sent lost notSacked wanted (Nat.le_trans le segment) within again rfl
    · rw [sentEnd] at new
      have := (at_inj (by omega) (by omega)).mp new
      omega
  · rw [sizeFromSequence_near near sentLe] at inside
    have blockEnd : (b.firstByteSeq.at b.sentSize).add n =
        b.firstByteSeq.at (b.sentSize + n : Nat) := at_add _ _ _
    rcases handOut_cases handed with ⟨within, -⟩ | ⟨-, new⟩
    · rw [sentEnd, blockEnd, ge_at_nat (by omega) (by omega), decide_eq_true_eq] at within
      omega
    · exact h.sendNew wanted (Nat.le_trans le segment) (by omega) new rfl

end Send

section Other

variable {profile : BuildProfile} {b b' : TcpTxBuffer} {blocks : SackList}
variable {front rest list list' : PacketList} {head seq : SequenceNumber32} {k k' : Sacking}
variable {now : Int}

theorem Piped.start (seq : SequenceNumber32) {maxBuffer dupAckThresh segmentSize : Nat}
    (fits : maxBuffer < 2 ^ 32) (threshold : Threshold dupAckThresh segmentSize) :
    Piped (start seq maxBuffer dupAckThresh segmentSize true) where
  holds := by
    refine ⟨seq, [], 0, ?_⟩
    exact
      { bytes := rfl
        bound := le_rfl
        head := (at_zero seq).symm
        starts := trivial
        positive := by
          intro item member
          cases member
        sentSize := rfl
        size := rfl
        room := Nat.zero_le _
        maxBuffer := fits }
  consistent :=
    { counted := Counted.start seq fits dupAckThresh segmentSize true
      threshold
      segments := by
        intro item member
        cases member
      positive := by
        intro item member
        cases member
      near := Nat.zero_le _
      board := by
        refine ⟨?_, ?_, .inl ⟨rfl, ?_⟩⟩
        · intro item member
          cases member
        · intro item member
          exact absurd member (by simp [TcpTxBuffer.start])
        · intro item member
          exact absurd member not_mem_nil }
  nodes := ⟨nodup_nil, by intro node member; exact absurd member not_mem_nil⟩

theorem Piped.add (h : Piped b) (p : Packet) (near : (b.add p).2.size ≤ halfMaxValue 32) :
    Piped (b.add p).2 := by
  obtain ⟨⟨initial, stream, consumed, holds⟩, consistent, nodup, fresh⟩ := h
  have holds' := holds.add p
  have counted := consistent.counted.add p
  revert holds' counted near
  rw [TcpTxBuffer.add]
  split
  · split
    · intro near holds' counted
      refine ⟨⟨initial, _, consumed, holds'⟩, ?_, nodup, fun node member => ?_⟩
      · exact
          { counted
            threshold := consistent.threshold
            segments := consistent.segments
            positive := consistent.positive
            near
            board := consistent.board }
      · exact Nat.lt_succ_of_lt (fresh node member)
    · exact fun _ _ _ => ⟨⟨initial, stream, consumed, holds⟩, consistent, nodup, fresh⟩
  · exact fun _ _ _ => ⟨⟨initial, stream, consumed, holds⟩, consistent, nodup, fresh⟩

/-- What a SACK option must not do: cover an item that was sent again, cover the
first item, or, when one of its blocks is beyond the sent list and ends the
update, cover an item that is not sacked yet. -/
def Orderly (b : TcpTxBuffer) (list : SackList) : Prop :=
  Spares TcpTxItem.retrans b.firstByteSeq (processed b.firstByteSeq b.sentSize list) 0 b.sentList ∧
  (∀ item ∈ b.sentList.head?, ∀ block ∈ processed b.firstByteSeq b.sentSize list,
    ¬ Covers block b.firstByteSeq item) ∧
  (processed b.firstByteSeq b.sentSize list = list ∨
    Spares (fun item => !item.sacked) b.firstByteSeq (processed b.firstByteSeq b.sentSize list) 0
      b.sentList)

theorem Piped.update (h : Piped b) (orderly : b.Orderly blocks) {r : Nat × TcpTxBuffer}
    (run : b.update profile blocks = some r) : Piped r.2 := by
  obtain ⟨⟨initial, stream, consumed, holds⟩, consistent, distinct⟩ := h
  obtain ⟨spares, spared, early⟩ := orderly
  have counted := consistent.counted.update run
  have same := update_same run
  have fits := consistent.counted.sized.fits
  obtain ⟨near, -⟩ := consistent.fits
  simp only [TcpTxBuffer.update, bind_eq_bind, bind_eq_some_iff] at run
  obtain ⟨⟨sentList, k, goesOn⟩, walk, run⟩ := run
  obtain ⟨marks, complete⟩ := sackBlocks_marked walk fun _ => id
  -- When nothing is marked, nothing changes at all.
  have unchanged : sentList = b.sentList →
      k = { lostOut := b.lostOut, sackedOut := b.sackedOut, bytesSacked := 0,
            highestSack := b.highestSack } →
      Piped { b with
        sentList, lostOut := k.lostOut, sackedOut := k.sackedOut,
        highestSack := k.highestSack } := by
    rintro rfl rfl
    exact ⟨⟨initial, stream, consumed, holds⟩, consistent, distinct⟩
  cases goesOn with
  | false =>
    simp only [Bool.not_false, if_true, Option.pure_def, some.injEq] at run
    subst run
    have nothing :=
      marks.nothing (early.resolve_left fun whole => by simpa using complete.mpr whole)
    exact unchanged nothing.1 nothing.2
  | true =>
    simp only [Bool.not_true, Bool.false_eq_true, if_false, bind_eq_some_iff,
      Option.pure_def, some.injEq] at run
    obtain ⟨b₁, judged, -, -, -, -, rfl⟩ := run
    have some_ := marks.bytesSacked consistent.positive
      (by have := flagged_le_total (fun item => !item.sacked) b.sentList
          simp only
          omega)
    rcases some_ with ⟨rfl, rfl⟩ | marked
    · rw [if_neg (lt_irrefl 0)] at judged
      cases judged
      exact unchanged rfl rfl
    · simp only [if_pos marked, bind_eq_some_iff] at judged
      obtain ⟨-, -, judged⟩ := judged
      have board := consistent.board.suspected.marked marks spares spared consistent.positive near
      have distinct₁ : Distinct (sentList.map TcpTxItem.node) b.nextNode := marks.nodes ▸ distinct
      have board₁ := board.updateLostCount judged distinct₁.1
      obtain ⟨sentList', lostOut, rfl, marks⟩ := updateLostCount_marks judged
      have nodes := marks.map TcpTxItem.node fun _ => rfl
      refine ⟨⟨initial, stream, consumed, holds.same same⟩, ?_, nodes ▸ distinct₁⟩
      have segments : ∀ item ∈ sentList', item.size ≤ b.segmentSize :=
        same.sent.forall_size (P := fun n => n ≤ b.segmentSize) consistent.segments
      exact
        { counted
          threshold := consistent.threshold
          segments
          positive := same.sent.positive consistent.positive
          near := consistent.near
          board := board₁ }

end Other

section Discard

variable {profile : BuildProfile} {b b' : TcpTxBuffer} {front rest : PacketList}
variable {initial : SequenceNumber32} {stream : List Byte} {consumed turns : Nat} {now : Int}

/-- The items in front of a boundary leave one by one. Nothing else but the
counters and the head changes. -/
theorem discardLoop_boundary (holds : Holds initial stream consumed b) (counted : Counted b)
    (sent : b.sentList = front ++ rest)
    (run : discardLoop profile now turns (total front) b = some b') :
    (∃ consumed', Holds initial stream consumed' b') ∧ Counted b' ∧
      b'.firstByteSeq = b.firstByteSeq.at (total front) ∧ b'.size ≤ b.size ∧
      ∃ size sentSize firstByteSeq sackedOut retrans lostOut,
        b' = { b with
          sentList := rest, size, sentSize, firstByteSeq, sackedOut, retrans, lostOut } := by
  induction front generalizing turns consumed b with
  | nil =>
    have stays : discardLoop profile now turns (total []) b = some b := by
      cases turns <;> exact if_neg (by simp)
    obtain rfl := some.inj (stays.symm.trans run)
    rw [nil_append] at sent
    exact ⟨⟨consumed, holds⟩, counted, (at_zero _).symm, le_rfl, _, _, _, _, _, _,
      by rw [← sent]⟩
  | cons item front ih =>
    have sizes := holds.size
    have itemPos : 0 < item.size := holds.positive item (by simp [sent])
    rw [sent, cons_append, total_append, total_cons] at sizes
    have goes : 0 < b.size ∧ 0 < total (item :: front) := by
      rw [total_cons]
      omega
    cases turns with
    | zero =>
      rw [discardLoop, if_pos goes] at run
      cases run
    | succ turns =>
      rw [discardLoop, if_pos goes] at run
      have whole : item.size ≤ total (item :: front) := by exact Nat.le_add_right _ _
      have left : total (item :: front) - item.size = total front := by
        rw [total_cons, Nat.add_sub_cancel_left]
      simp only [refill, sent, cons_append, bind_eq_bind, bind_some,
        bind_eq_some_iff, if_pos whole, left] at run
      obtain ⟨-, -, b₂, removed, run⟩ := run
      have counted₁ : Counted (b₂.shortened (front ++ rest) item.size) :=
        counted.drops sent le_rfl removed (by simp)
      obtain ⟨sackedOut, retrans, lostOut, rfl⟩ :=
        (removeFromCounts_contract item item.size b).of_eq_some removed
      have drops := Drops.of_shortened b sackedOut retrans lostOut (front ++ rest) item.size
      have positive := (positive_append.mp holds.positive).1
      have starts := holds.starts
      rw [sent, cons_append] at positive starts
      obtain ⟨holds₁, size₁⟩ := holds.drops drops
        (by rw [sent, cons_append, total_cons]; exact Nat.le_add_right _ _)
        (by rw [sent, cons_append, bytes_cons]; exact (drop_left' rfl).symm)
        (positive_cons.mp positive).2 (by simpa using starts.2)
      obtain ⟨holds', counted', head, size, k₁, k₂, k₃, k₄, k₅, k₆, rfl⟩ :=
        ih holds₁ counted₁ rfl run
      refine ⟨holds', counted', ?_, Nat.le_trans size ?_, k₁, k₂, k₃, k₄, k₅, k₆, rfl⟩
      · rw [head]
        show (b.firstByteSeq.add item.size).at (total front) = _
        rw [add_eq_at, at_at, ← Nat.cast_add, total_cons]
      · rw [size₁]
        exact Nat.sub_le _ _

/-- A head that is not sacked is only looked at. -/
theorem settleHead_stays {seq : SequenceNumber32}
    (first : ∀ item ∈ b.sentList.head?, item.sacked = false)
    (run : b.settleHead profile seq = some b') : b' = b := by
  rw [settleHead.eq_def] at run
  cases sent : b.sentList with
  | nil =>
    rw [sent] at run
    exact (some.inj run).symm
  | cons item rest =>
    have notSacked := first item (by rw [sent]; rfl)
    simp only [sent, notSacked, Bool.false_eq_true, if_false, bind_eq_bind,
      bind_some, bind_eq_some_iff, Option.pure_def, some.injEq] at run
    obtain ⟨-, -, rfl⟩ := run
    rfl

/-- Segments are acknowledged up to one that is not sacked. -/
theorem Piped.discardUpTo (h : Piped b) (sent : b.sentList = front ++ rest)
    (first : ∀ item ∈ rest.head?, item.sacked = false)
    (run : b.discardUpTo profile now (b.firstByteSeq.add (total front)) = some b') :
    Piped b' := by
  obtain ⟨⟨initial, stream, consumed, holds⟩, consistent, distinct⟩ := h
  obtain ⟨small, half⟩ := consistent.fits
  have near := consistent.near
  have le : total front ≤ total b.sentList := by
    rw [sent, total_append]
    exact Nat.le_add_right _ _
  rw [add_eq_at, TcpTxBuffer.discardUpTo] at run
  have offset : (((b.firstByteSeq.at (total front)).sub b.firstByteSeq).toNat : Int) =
      total front := by
    have distance : (((b.firstByteSeq.at (total front)).sub (b.firstByteSeq.at 0)).toNat : Int) =
        total front - 0 := sub_at_toNat (by omega) (by omega)
    rwa [at_zero, sub_zero] at distance
  split at run
  · exact some.inj run ▸ ⟨⟨initial, stream, consumed, holds⟩, consistent, distinct⟩
  rw [Int.ofNat.inj offset] at run
  simp only [bind_returns, pure_returns] at run
  obtain ⟨b₁, dropped, b₂, settled, -, -, -, -, rfl⟩ := run
  obtain ⟨⟨consumed', holds₁⟩, counted₁, head, size, k₁, k₂, k₃, k₄, k₅, k₆, eq⟩ :=
    discardLoop_boundary holds consistent.counted sent dropped
  have fin : (if b₁.size = 0 then { b₁ with firstByteSeq := b.firstByteSeq.at (total front) }
      else b₁) = b₁ := by
    split
    · rw [← head]
    · rfl
  rw [fin] at settled
  have first₁ : ∀ item ∈ b₁.sentList.head?, item.sacked = false := by
    rw [eq]
    exact first
  obtain rfl := settleHead_stays first₁ settled
  have board := consistent.board
  have segments := consistent.segments
  have positive := consistent.positive
  obtain ⟨nodup, fresh⟩ := distinct
  rw [sent] at board segments positive nodup fresh small
  have mark : b₂.highestSack = b.highestSack := by rw [eq]
  obtain ⟨highestSack, settles, board'⟩ : ∃ highestSack,
      (if b₂.highestSack.2.le b₂.firstByteSeq then { b₂ with highestSack := (none, .ofNat 0) }
        else b₂) = { b₂ with highestSack } ∧
      Board (Judged (max b.dupAckThresh 1) 1) b₂.firstByteSeq highestSack rest := by
    refine ⟨_, ?_, board.drop first head positive small⟩
    rw [mark]
    split
    · rfl
    · rw [← mark]
  rw [settles]
  rw [map_append] at nodup fresh
  have holds₂ : Holds initial stream consumed' { b₂ with highestSack } :=
    holds₁.same ⟨SameItems.refl _, rfl, rfl, rfl, rfl, rfl⟩
  refine ⟨⟨initial, stream, consumed', holds₂⟩, ?_, ?_⟩
  · exact
      { counted := counted₁.moved b₂.firstByteSeq highestSack
        threshold := by
          rw [eq]
          exact consistent.threshold
        segments := by
          rw [eq]
          exact (forall_mem_append.mp segments).2
        positive := (positive_append.mp holds₂.positive).1
        near := Nat.le_trans size near
        board := by
          rw [eq] at board' ⊢
          exact board' }
  · rw [eq]
    exact ⟨(nodup_append.mp nodup).2.1, (forall_mem_append.mp fresh).2⟩

end Discard

section Runs

variable {profile : BuildProfile} {b b' : TcpTxBuffer} {c : PipeCall}

/-- The calls of a connection. `send` is `CopyFromSequence` of the range that
`NextSeg` returns, and `discardUpTo` acknowledges that many items. -/
inductive PipeCall where
  | add (p : Packet)
  | send (now : Int) (rWnd : Nat) (isRecovery : Bool)
  | update (list : SackList)
  | discardUpTo (now : Int) (items : Nat)
  deriving DecidableEq

/-- The number up to which the first items reach. -/
def boundary (b : TcpTxBuffer) (items : Nat) : SequenceNumber32 :=
  b.firstByteSeq.add (total (b.sentList.take items))

def pipeCall (profile : BuildProfile) (b : TcpTxBuffer) : PipeCall → Option TcpTxBuffer
  | .add p => some (b.add p).2
  | .send now rWnd isRecovery =>
    match b.nextSeg rWnd isRecovery with
    | none => some b
    | some (seq, seqHigh) =>
      (b.copyFromSequence profile now (seqHigh.sub seq).toNat seq).map Prod.snd
  | .update list => (b.update profile list).map Prod.snd
  | .discardUpTo now items => b.discardUpTo profile now (b.boundary items)

/-- The condition on a call. The buffer stays within half of the sequence space,
nothing is sent by rule (3), a SACK option is orderly, and what is acknowledged
ends in front of an item that is not sacked. -/
def Avoids (b : TcpTxBuffer) : PipeCall → Prop
  | .add p => (b.add p).2.size ≤ halfMaxValue 32
  | .send _ _ isRecovery => b.usesRule3 isRecovery = false
  | .update list => b.Orderly list
  | .discardUpTo _ items => ∀ item ∈ (b.sentList.drop items).head?, item.sacked = false

instance decidableSpares (flag : TcpTxItem → Bool) (head : SequenceNumber32) (blocks : SackList) :
    (pos : Nat) → (list : PacketList) → Decidable (Spares flag head blocks pos list)
  | _, [] => instDecidableTrue
  | pos, item :: rest =>
    have := decidableSpares flag head blocks (pos + item.size) rest
    instDecidableAnd

instance (b : TcpTxBuffer) (list : SackList) : Decidable (b.Orderly list) :=
  inferInstanceAs (Decidable (_ ∧ _ ∧ _))

instance (b : TcpTxBuffer) : (c : PipeCall) → Decidable (b.Avoids c)
  | .add _ => inferInstanceAs (Decidable (_ ≤ _))
  | .send _ _ _ => inferInstanceAs (Decidable (_ = _))
  | .update list => inferInstanceAs (Decidable (b.Orderly list))
  | .discardUpTo _ items =>
    inferInstanceAs (Decidable (∀ item ∈ (b.sentList.drop items).head?, item.sacked = false))

theorem Piped.pipeCall (h : Piped b) (avoids : b.Avoids c)
    (run : b.pipeCall profile c = some b') : Piped b' := by
  cases c with
  | add p => exact some.inj run ▸ h.add p avoids
  | send now rWnd isRecovery =>
    rw [TcpTxBuffer.pipeCall] at run
    split at run
    · exact some.inj run ▸ h
    · next seq seqHigh next =>
        obtain ⟨⟨r, b₁⟩, copy, rfl⟩ := map_eq_some_iff.mp run
        exact h.send next avoids copy
  | update list =>
    obtain ⟨r, update, rfl⟩ := map_eq_some_iff.mp run
    exact h.update avoids update
  | discardUpTo now items => exact h.discardUpTo (take_append_drop items b.sentList).symm avoids run

/-- The counters give the number of the walk in every state of a run whose calls
meet the condition, in every build. -/
theorem bytesInFlight_agrees (profile : BuildProfile) (seq : SequenceNumber32)
    {maxBuffer dupAckThresh segmentSize : Nat} (fits : maxBuffer < 2 ^ 32)
    (threshold : Threshold dupAckThresh segmentSize) {calls : List PipeCall}
    (avoids : Run.Meets (pipeCall profile) Avoids
      (start seq maxBuffer dupAckThresh segmentSize true) calls)
    (run : Run.exec (pipeCall profile) (start seq maxBuffer dupAckThresh segmentSize true) calls =
      some b) :
    ∃ n, b.bytesInFlight profile = some n ∧ b.bytesInFlightRFC profile = some n := by
  have piped : Piped b := Run.invariant (Piped.start seq fits threshold) avoids
    (fun _ _ _ h avoids run => h.pipeCall avoids run) run
  exact bytesInFlight_eq piped.consistent profile

/-- Three segments are sent and the last two sacked, so that the first counts as
lost; it is sent again and acknowledged together with the others. -/
theorem bytesInFlight_agrees_recovery :
    ∃ b, Run.exec (pipeCall .debug) (start (.ofNat 10) 16 2 2 true)
        [.add [1, 2, 3, 4, 5, 6, 7, 8], .send 0 9 false, .send 0 9 false, .send 0 9 false,
          .update [(.ofNat 12, .ofNat 16)], .send 1 9 true, .send 1 9 true,
          .discardUpTo 2 3] = some b ∧
      ∃ n, b.bytesInFlight .debug = some n ∧ b.bytesInFlightRFC .debug = some n := by
  have returns : (Run.exec (pipeCall .debug) (start (.ofNat 10) 16 2 2 true)
      [.add [1, 2, 3, 4, 5, 6, 7, 8], .send 0 9 false, .send 0 9 false, .send 0 9 false,
        .update [(.ofNat 12, .ofNat 16)], .send 1 9 true, .send 1 9 true,
        .discardUpTo 2 3]).isSome = true := by
    decide +kernel
  obtain ⟨b, run⟩ := Option.isSome_iff_exists.mp returns
  refine ⟨b, run, bytesInFlight_agrees .debug (.ofNat 10) (by decide) (Or.inr (by decide)) ?_ run⟩
  decide +kernel

/-- With one duplicate allowed, two segments below a sacked one are lost and sent
again. When the second of them is sacked in turn it stays counted as sent again. -/
theorem retransmitted_segment_sacked :
    ∃ calls b, Run.exec (pipeCall .debug) (start (.ofNat 10) 16 1 2 true) calls = some b ∧
      ¬ ∃ n, b.bytesInFlight .debug = some n ∧ b.bytesInFlightRFC .debug = some n := by
  have ran : (Run.exec (pipeCall .debug) (start (.ofNat 10) 16 1 2 true)
      [.add [1, 2, 3, 4, 5, 6, 7, 8], .send 0 9 false, .send 0 9 false, .send 0 9 false,
        .send 0 9 false, .update [(.ofNat 14, .ofNat 16)], .send 1 9 true, .send 1 9 true,
        .update [(.ofNat 12, .ofNat 14)]]).map
        (fun b => (b.bytesInFlight .debug, b.bytesInFlightRFC .debug)) =
      some (some 6, some 4) := by
    decide
  obtain ⟨b, run, counts⟩ := Option.map_eq_some_iff.mp ran
  obtain ⟨counters, walk⟩ := Prod.mk.inj counts
  refine ⟨_, b, run, ?_⟩
  rintro ⟨n, n_counters, n_walk⟩
  have six := Option.some.inj (counters.symm.trans n_counters)
  have four := Option.some.inj (walk.symm.trans n_walk)
  omega

end Runs

end Ns3.TcpTxBuffer
