import Ns3.Internet.TcpTxBuffer.Flags
import Ns3.Internet.TcpTxBuffer.Scoreboard

/-!
# Which items count as lost

`UpdateLostCount` walks down from the item of `m_highestSack` and marks an item
as lost when enough sacked items are above it. Between two calls of it, an item
that is marked still has enough sacked items above it (`Suspected`); after the
call the marked items are exactly those (`Judged`).

`m_highestSack` need not be the highest sacked item: it moves down to an item
that ends where it begins. The items above it are sacked ones followed by
others, and none of them is lost.
-/

namespace Ns3.TcpTxBuffer

open SequenceNumber List Option

/-- Every lost item has `d` sacked items above it, of which `above` are not in
the list. -/
def Suspected (d above : Nat) : PacketList → Prop
  | [] => True
  | item :: rest =>
    (item.lost = true → d ≤ above + rest.countP TcpTxItem.sacked) ∧ Suspected d above rest

/-- The lost items are those that are not sacked and have `d` sacked items above
them. -/
def Judged (d above : Nat) : PacketList → Prop
  | [] => True
  | item :: rest =>
    (item.sacked = false →
      (item.lost = true ↔ d ≤ above + rest.countP TcpTxItem.sacked)) ∧ Judged d above rest

/-- A sacked item is not lost, and only lost items are sent again. -/
def Sound (item : TcpTxItem) : Prop :=
  (item.sacked = true → item.lost = false) ∧ (item.retrans = true → item.lost = true)

theorem Sound.not_sent_again {item : TcpTxItem} (h : Sound item) (sacked : item.sacked = true) :
    item.retrans = false := by
  cases sent : item.retrans with
  | false => rfl
  | true => exact absurd ((h.1 sacked).symm.trans (h.2 sent)) Bool.false_ne_true

/-- Where the item of `m_highestSack` is, with a judgement about the items below
it. Above it, no item is lost and no sacked item follows one that is not. -/
structure Peak (judge : PacketList → Prop) (head : SequenceNumber32)
    (highestSack : Option Nat × SequenceNumber32) (list below : PacketList) (item : TcpTxItem)
    (above : PacketList) : Prop where
  list : list = below ++ item :: above
  node : highestSack.1 = some item.node
  seq : highestSack.2 = head.at (total below)
  sacked : item.sacked = true
  below : judge below
  notLost : ∀ item ∈ above, item.lost = false
  tidy : above.Pairwise fun x y => x.sacked = false → y.sacked = false

/-- Nothing is sacked and nothing lost, or `m_highestSack` is the peak. -/
def Assessed (judge : PacketList → Prop) (head : SequenceNumber32)
    (highestSack : Option Nat × SequenceNumber32) (list : PacketList) : Prop :=
  (highestSack.1 = none ∧ ∀ item ∈ list, item.sacked = false ∧ item.lost = false) ∨
    ∃ below item above, Peak judge head highestSack list below item above

/-- The flags of a sent list and `m_highestSack` fit together. -/
structure Board (judge : PacketList → Prop) (head : SequenceNumber32)
    (highestSack : Option Nat × SequenceNumber32) (list : PacketList) : Prop where
  sound : ∀ item ∈ list, Sound item
  first : ∀ item ∈ list.head?, item.sacked = false
  assessed : Assessed judge head highestSack list

section Lists

variable {d above above' : Nat} {front rest list : PacketList} {item item' : TcpTxItem}

theorem Suspected.mono (h : Suspected d above list) (le : above ≤ above') :
    Suspected d above' list := by
  induction list with
  | nil => trivial
  | cons item rest ih => exact ⟨fun lost => Nat.le_trans (h.1 lost) (by omega), ih h.2⟩

theorem suspected_append : Suspected d above (front ++ rest) ↔
    Suspected d (above + rest.countP TcpTxItem.sacked) front ∧ Suspected d above rest := by
  induction front with
  | nil => simp [Suspected]
  | cons item front ih =>
    rw [cons_append, Suspected, ih, Suspected, countP_append, and_assoc,
      Nat.add_assoc, Nat.add_comm (rest.countP _)]

theorem judged_append : Judged d above (front ++ rest) ↔
    Judged d (above + rest.countP TcpTxItem.sacked) front ∧ Judged d above rest := by
  induction front with
  | nil => simp [Judged]
  | cons item front ih =>
    rw [cons_append, Judged, ih, Judged, countP_append, and_assoc,
      Nat.add_assoc, Nat.add_comm (rest.countP _)]

theorem Suspected.of_not_lost (h : ∀ item ∈ list, item.lost = false) : Suspected d above list := by
  induction list with
  | nil => trivial
  | cons item rest ih =>
    obtain ⟨here, others⟩ := forall_mem_cons.mp h
    exact ⟨fun lost => absurd (here.symm.trans lost) Bool.false_ne_true, ih others⟩

theorem Judged.suspected (h : Judged d above list) (sound : ∀ item ∈ list, Sound item) :
    Suspected d above list := by
  induction list with
  | nil => trivial
  | cons item rest ih =>
    obtain ⟨here, others⟩ := forall_mem_cons.mp sound
    refine ⟨fun lost => (h.1 ?_).mp lost, ih h.2 others⟩
    cases sacked : item.sacked with
    | false => rfl
    | true => exact absurd ((here.1 sacked).symm.trans lost) Bool.false_ne_true

theorem Suspected.sack (h : Suspected d above (front ++ item :: rest))
    (sacked : item'.sacked = true) (notLost : item'.lost = false) :
    Suspected d above (front ++ item' :: rest) := by
  rw [suspected_append] at h ⊢
  obtain ⟨before, -, behind⟩ := h
  refine ⟨before.mono ?_, fun lost => ?_, behind⟩
  · rw [countP_cons, countP_cons_of_pos sacked]
    split <;> omega
  · exact absurd (notLost.symm.trans lost) Bool.false_ne_true

end Lists

section Marks

variable {d : Nat} {head : SequenceNumber32} {front rest list list' : PacketList}
variable {item : TcpTxItem} {k k' : Sacking} {blocks : SackList}

/-- The item in the middle is not the one that is sacked: it is in front of it or
behind it. -/
theorem append_cases {below above : PacketList} {top : TcpTxItem}
    (eq : front ++ item :: rest = below ++ top :: above) (ne : item.sacked ≠ top.sacked) :
    (∃ between, below = front ++ item :: between ∧ rest = between ++ top :: above) ∨
      ∃ between, front = below ++ top :: between ∧ above = between ++ item :: rest := by
  rcases append_eq_append_iff.mp eq with ⟨between, rfl, tail⟩ | ⟨between, rfl, tail⟩
  · left
    cases between with
    | nil =>
      rw [nil_append, List.cons.injEq] at tail
      exact absurd (congrArg TcpTxItem.sacked tail.1) ne
    | cons first between =>
      obtain ⟨rfl, rfl⟩ := tail
      exact ⟨between, rfl, rfl⟩
  · right
    cases between with
    | nil =>
      rw [nil_append, List.cons.injEq] at tail
      exact absurd (congrArg TcpTxItem.sacked tail.1.symm) ne
    | cons first between =>
      obtain ⟨rfl, rfl⟩ := tail
      exact ⟨between, rfl, rfl⟩

theorem mark_moves {pos : SequenceNumber32}
    (order : k.highestSack.2.le (pos.add item.size) = true) :
    (k.mark item pos).highestSack = (some item.node, pos) := by
  simp [Sacking.mark, order]

theorem mark_stays {pos : SequenceNumber32} {node : Nat} (node_ : k.highestSack.1 = some node)
    (order : k.highestSack.2.le (pos.add item.size) = false) :
    (k.mark item pos).highestSack = k.highestSack := by
  simp [Sacking.mark, node_, order]

/-- One mark. The new `m_highestSack` is the marked item when that lies above the
old one or directly below it. -/
theorem Assessed.mark (h : Assessed (Suspected d 1) head k.highestSack (front ++ item :: rest))
    (sound : ∀ x ∈ front ++ item :: rest, Sound x) (fresh : item.sacked = false)
    (positive : Positive (front ++ item :: rest))
    (near : total (front ++ item :: rest) ≤ halfMaxValue 32) :
    Assessed (Suspected d 1) head (k.mark item (head.at (total front))).highestSack
      (front ++ { item with lost := false, sacked := true } :: rest) := by
  have last : (head.at (total front)).add item.size = head.at (total front + item.size : Nat) :=
    at_add head (total front) item.size
  rcases h with ⟨none_, clear⟩ | ⟨below, top, above, peak⟩
  · -- The first sacked item of the list.
    refine .inr ⟨front, _, rest, rfl, ?_, ?_, rfl, ?_, ?_, ?_⟩
    · simp [Sacking.mark, none_]
    · simp [Sacking.mark, none_]
    · exact Suspected.of_not_lost fun x member => (clear x (by simp [member])).2
    · exact fun x member => (clear x (by simp [member])).2
    · refine pairwise_of_forall_mem_list fun x _ y member _ => ?_
      exact (clear y (by simp [member])).1
  · have ne : item.sacked ≠ top.sacked := by simp [fresh, peak.sacked]
    rcases append_cases peak.list ne with ⟨between, rfl, rfl⟩ | ⟨between, rfl, rfl⟩
    · -- The marked item is below the old one.
      have order : k.highestSack.2.le ((head.at (total front)).add item.size) =
          decide (total between = 0) := by
        simp only [total_append, total_cons] at near
        rw [peak.seq, last, total_append, total_cons, le_at_nat (by omega) (by omega)]
        exact decide_eq_decide.mpr (by omega)
      cases between with
      | nil =>
        have moves := mark_moves (order.trans (by simp))
        rw [moves]
        have suspected := suspected_append.mp peak.below
        refine .inr ⟨front, _, top :: above, rfl, rfl, rfl, rfl, ?_, ?_, ?_⟩
        · exact suspected.1.mono (by simp [fresh])
        · refine forall_mem_cons.mpr ⟨?_, peak.notLost⟩
          exact (sound top (by simp)).1 peak.sacked
        · refine pairwise_cons.mpr ⟨fun _ _ notSacked => ?_, peak.tidy⟩
          exact absurd (notSacked.symm.trans peak.sacked) Bool.false_ne_true
      | cons next between =>
        have pos : 0 < total (next :: between) := by
          have := positive next (by simp)
          rw [total_cons]
          omega
        have stays := mark_stays peak.node (order.trans (decide_eq_false (by omega)))
        rw [stays]
        refine .inr ⟨front ++ { item with lost := false, sacked := true } :: next :: between,
          top, above, by simp, peak.node, ?_, peak.sacked, peak.below.sack rfl rfl,
          peak.notLost, peak.tidy⟩
        rw [peak.seq]
        simp [TcpTxItem.size]
    · -- The marked item is above the old one.
      have order : k.highestSack.2.le
          ((head.at (total (below ++ top :: between))).add item.size) = true := by
        simp only [total_append, total_cons] at near last ⊢
        rw [peak.seq, last, le_at_nat (by omega) (by omega)]
        exact decide_eq_true (by omega)
      have moves := mark_moves order
      rw [moves]
      have tidy := pairwise_append.mp peak.tidy
      refine .inr ⟨below ++ top :: between, _, rest, rfl, rfl, rfl, rfl, ?_, ?_, ?_⟩
      · refine suspected_append.mpr ⟨peak.below.mono ?_, ?_⟩
        · rw [countP_cons_of_pos peak.sacked]
          omega
        · refine Suspected.of_not_lost (forall_mem_cons.mpr ⟨?_, ?_⟩)
          · exact (sound top (by simp)).1 peak.sacked
          · exact fun x member => peak.notLost x (by simp [member])
      · exact fun x member => peak.notLost x (by simp [member])
      · exact (pairwise_cons.mp tidy.2.1).2

/-- No block covers an item with the flag. -/
def Spares (flag : TcpTxItem → Bool) (head : SequenceNumber32) (blocks : SackList) :
    Nat → PacketList → Prop
  | _, [] => True
  | pos, item :: rest =>
    (flag item = true → ∀ block ∈ blocks, ¬ Covers block (head.at pos) item) ∧
      Spares flag head blocks (pos + item.size) rest

theorem spares_append {flag : TcpTxItem → Bool} {pos : Nat} :
    Spares flag head blocks pos (front ++ rest) ↔
      Spares flag head blocks pos front ∧ Spares flag head blocks (pos + total front) rest := by
  induction front generalizing pos with
  | nil => simp [Spares]
  | cons item front ih => simp [Spares, ih, Nat.add_assoc, and_assoc]

section

variable (h : Marked head blocks list k list' k')
include h

theorem Marked.nothing
    (spares : Spares (fun item => !item.sacked) head blocks 0 list) : list' = list ∧ k' = k := by
  cases h with
  | refl => exact ⟨rfl, rfl⟩
  | @mark front rest _ item _ _ block member covers fresh _ =>
    have spared := (spares_append.mp spares).2.1 (by simp [fresh]) block member
    rw [Nat.zero_add] at spared
    exact absurd covers spared

/-- Marking items that were not sent again, and not the first one, keeps the
board. -/
theorem Board.marked (spares : Spares TcpTxItem.retrans head blocks 0 list)
    (spared : ∀ item ∈ list.head?, ∀ block ∈ blocks, ¬ Covers block head item)
    (positive : Positive list) (near : total list ≤ halfMaxValue 32)
    (board : Board (Suspected d 1) head k.highestSack list) :
    Board (Suspected d 1) head k'.highestSack list' := by
  induction h with
  | refl => exact board
  | @mark front rest list' item k k' block member covers fresh _ ih =>
    have sizes : TcpTxItem.size { item with lost := false, sacked := true } = item.size := rfl
    have notSent : item.retrans = false := by
      cases sent : item.retrans with
      | false => rfl
      | true =>
        have := (spares_append.mp spares).2.1 sent block member
        rw [Nat.zero_add] at this
        exact absurd covers this
    have notFirst : front ≠ [] := by
      rintro rfl
      refine spared item rfl block member ?_
      rw [← at_zero head]
      exact covers
    have sameFirst : (front ++ { item with lost := false, sacked := true } :: rest).head? =
        (front ++ item :: rest).head? := by
      cases front with
      | nil => exact absurd rfl notFirst
      | cons => rfl
    refine ih ?_ (sameFirst ▸ spared) ?_ ?_ ⟨?_, sameFirst ▸ board.first, ?_⟩
    · rw [spares_append] at spares ⊢
      exact ⟨spares.1, spares.2.1, spares.2.2⟩
    · simpa only [positive_append, positive_cons, sizes] using positive
    · simpa only [total_append, total_cons, sizes] using near
    · have sound := board.sound
      rw [forall_mem_append, forall_mem_cons] at sound ⊢
      exact ⟨sound.1, ⟨fun _ => rfl, fun sent => absurd (notSent.symm.trans sent) (by decide)⟩,
        sound.2.2⟩
    · exact board.assessed.mark board.sound fresh positive near

theorem Marked.nodes : list'.map TcpTxItem.node = list.map TcpTxItem.node := by
  induction h with
  | refl => rfl
  | mark _ _ _ _ ih => exact ih.trans (by simp)

/-- A block that marks something is counted in the bytes that `Update` reports. -/
theorem Marked.bytesSacked (positive : Positive list)
    (fits : k.bytesSacked + flagged (fun item => !item.sacked) list < 2 ^ 32) :
    (list' = list ∧ k' = k) ∨ k.bytesSacked < k'.bytesSacked := by
  induction h with
  | refl => exact .inl ⟨rfl, rfl⟩
  | @mark front rest list' item k k' block member covers fresh _ ih =>
    right
    have pos : 0 < item.size := positive item (by simp)
    simp only [flagged_append, flagged_cons, share, fresh, Bool.not_false, if_true] at fits
    have more : (k.mark item (head.at (total front))).bytesSacked =
        k.bytesSacked + item.size := UInt32.add_of_lt (by omega)
    have left := ih (by simpa [positive_append, positive_cons, TcpTxItem.size] using positive)
      (by simp only [flagged_append, flagged_cons, share, Bool.not_true, more,
            Bool.false_eq_true, if_false]; omega)
    rcases left with ⟨-, rfl⟩ | further
    · omega
    · omega

end

end Marks

section Judgement

variable {d lostOut sacked lostOut' : Nat} {below above list' : PacketList} {top : TcpTxItem}

/-- The walk down from the peak judges the items below it anew. -/
theorem markLost_judged
    (run : markLost d top.node lostOut (below ++ top :: above) = some (sacked, list', lostOut'))
    (nodes : ∀ item ∈ below, item.node ≠ top.node) (sackedTop : top.sacked = true)
    (sound : ∀ item ∈ below, Sound item) (suspected : Suspected (max d 1) 1 below) :
    ∃ below', list' = below' ++ top :: above ∧
      sacked = 1 + below.countP TcpTxItem.sacked ∧
      below'.countP TcpTxItem.sacked = below.countP TcpTxItem.sacked ∧
      Judged (max d 1) 1 below' ∧ ∀ item ∈ below', Sound item := by
  induction below generalizing sacked list' lostOut' with
  | nil =>
    obtain ⟨sacked₁, rest', lostOut₁, visit, count, marked⟩ := markLost_cons_cases run
    rcases visit with ⟨-, rfl, rfl, -⟩ | ⟨there, -⟩
    · rcases marked with ⟨-, notSacked, -⟩ | ⟨-, rfl, -⟩
      · exact absurd (notSacked.symm.trans sackedTop) Bool.false_ne_true
      · refine ⟨[], rfl, ?_, rfl, trivial, by simp⟩
        rw [count, sackedTop]
        rfl
    · exact absurd rfl there
  | cons item below ih =>
    obtain ⟨sacked₁, rest', lostOut₁, visit, count, marked⟩ := markLost_cons_cases run
    obtain ⟨node, nodes⟩ := forall_mem_cons.mp nodes
    obtain ⟨soundItem, sound⟩ := forall_mem_cons.mp sound
    rcases visit with ⟨here, -⟩ | ⟨-, walk⟩
    · exact absurd here node
    · obtain ⟨below', rfl, count₁, same, judged, sound'⟩ := ih walk nodes sound suspected.2
      have total_ : sacked = 1 + (item :: below).countP TcpTxItem.sacked := by
        rw [count, count₁, countP_cons]
        split <;> omega
      rcases marked with ⟨enough, notSacked, -, rfl, -⟩ | ⟨kept, rfl, -⟩
      · refine ⟨{ item with lost := true } :: below', rfl, total_, ?_, ⟨fun _ => ?_, judged⟩,
          forall_mem_cons.mpr ⟨⟨fun s => ?_, fun _ => rfl⟩, sound'⟩⟩
        · simp [countP_cons, same]
        · rw [countP_cons_of_neg (by simp [notSacked])] at total_
          exact ⟨fun _ => by omega, fun _ => rfl⟩
        · exact absurd (notSacked.symm.trans s) Bool.false_ne_true
      · refine ⟨item :: below', rfl, total_, ?_, ⟨fun notSacked => ?_, judged⟩,
          forall_mem_cons.mpr ⟨soundItem, sound'⟩⟩
        · simp [countP_cons, same]
        · rw [countP_cons_of_neg (by simp [notSacked])] at total_
          rw [same]
          refine ⟨suspected.1, fun enough => ?_⟩
          by_contra notLost
          exact kept ⟨by omega, notSacked, by simpa using notLost⟩

theorem Board.suspected {head : SequenceNumber32} {highestSack : Option Nat × SequenceNumber32}
    {list : PacketList} (board : Board (Judged d 1) head highestSack list) :
    Board (Suspected d 1) head highestSack list := by
  refine ⟨board.sound, board.first, board.assessed.imp id ?_⟩
  rintro ⟨below, top, above, peak⟩
  refine ⟨below, top, above, { peak with below := peak.below.suspected fun item member => ?_ }⟩
  exact board.sound item (by simp [peak.list, member])

/-- `UpdateLostCount` judges the whole list. -/
theorem Board.updateLostCount {b b' : TcpTxBuffer} (run : b.updateLostCount = some b')
    (nodup : (b.sentList.map TcpTxItem.node).Nodup)
    (board : Board (Suspected (max b.dupAckThresh 1) 1) b.firstByteSeq b.highestSack b.sentList) :
    Board (Judged (max b.dupAckThresh 1) 1) b'.firstByteSeq b'.highestSack b'.sentList := by
  obtain ⟨sound, first, assessed⟩ := board
  unfold TcpTxBuffer.updateLostCount at run
  split at run
  swap
  · cases run
  next node head tail some_ sent =>
  rw [sent] at nodup sound first assessed
  have headNotSacked : head.sacked = false := first head rfl
  rcases assessed with ⟨none_, -⟩ | ⟨below, top, above, peak⟩
  · exact absurd (none_.symm.trans some_) (by simp)
  obtain rfl : node = top.node := some.inj (some_.symm.trans peak.node)
  -- The head is not sacked, so it is below the peak.
  obtain ⟨below, rfl⟩ : ∃ rest, below = head :: rest := by
    have list := peak.list
    cases below with
    | nil =>
      rw [nil_append, List.cons.injEq] at list
      exact absurd (headNotSacked.symm.trans (list.1 ▸ peak.sacked)) Bool.false_ne_true
    | cons item rest =>
      rw [cons_append, List.cons.injEq] at list
      exact ⟨rest, list.1 ▸ rfl⟩
  obtain rfl : tail = below ++ top :: above := (List.cons.inj peak.list).2
  simp only [map_cons, map_append, nodup_cons, mem_append, mem_cons,
    not_or] at nodup
  obtain ⟨⟨-, headNode, -⟩, nodup⟩ := nodup
  have nodes : ∀ item ∈ below, item.node ≠ top.node := by
    intro item member same
    refine (nodup_append.mp nodup).2.2 _ (List.mem_map_of_mem member) _ ?_ same
    exact mem_cons_self
  rw [forall_mem_cons, forall_mem_append, forall_mem_cons] at sound
  obtain ⟨soundHead, soundBelow, soundTop, soundAbove⟩ := sound
  simp only [bind_returns] at run
  obtain ⟨⟨sacked, tail', lostOut⟩, visit, run⟩ := run
  rw [if_neg headNode] at visit
  obtain ⟨below', rfl, count, same, judged, sound'⟩ :=
    markLost_judged visit nodes peak.sacked soundBelow peak.below.2
  have totals : total below' = total below := by
    have := (markLost_marks visit).same.total
    simp only [total_append] at this
    omega
  have final : ∀ head' : TcpTxItem, head'.size = head.size → head'.sacked = false →
      Sound head' → (head'.lost = true ↔ max b.dupAckThresh 1 ≤ sacked) →
      Board (Judged (max b.dupAckThresh 1) 1) b.firstByteSeq b.highestSack
        (head' :: below' ++ top :: above) := by
    intro head' size notSacked soundHead' lost
    refine ⟨?_, by rintro _ ⟨⟩; exact notSacked, .inr ⟨head' :: below', top, above, rfl,
      peak.node, ?_, peak.sacked, ⟨fun _ => ?_, judged⟩, peak.notLost, peak.tidy⟩⟩
    · rw [cons_append, forall_mem_cons, forall_mem_append, forall_mem_cons]
      exact ⟨soundHead', sound', soundTop, soundAbove⟩
    · rw [peak.seq, total_cons, total_cons, size, totals]
    · rw [lost, same, count]
  split at run
  · next marked =>
      rw [Option.pure_def, some.injEq] at run
      subst run
      simp only [Bool.and_eq_true, decide_eq_true_eq] at marked
      refine final { head with lost := true } rfl headNotSacked ⟨fun s => ?_, fun _ => rfl⟩ ?_
      · exact absurd (headNotSacked.symm.trans s) Bool.false_ne_true
      · exact ⟨fun _ => by omega, fun _ => rfl⟩
  · next kept =>
      rw [Option.pure_def, some.injEq] at run
      subst run
      refine final head rfl headNotSacked soundHead ⟨fun lost => ?_, fun enough => ?_⟩
      · rw [count]
        exact peak.below.1 lost
      · by_contra notLost
        exact kept (by simp [notLost]; omega)

end Judgement

section Edits

variable {d : Nat} {head head' : SequenceNumber32} {front old new rest list : PacketList}
variable {highestSack : Option Nat × SequenceNumber32} {item : TcpTxItem}

/-- A lost item in front decides about lost items that no sacked one follows. -/
theorem judged_lost {above : Nat} (flags : ∀ x ∈ list, x.sacked = false ∧ x.lost = true)
    (ne : list ≠ []) : Judged d above list ↔ d ≤ above := by
  have noneSacked : ∀ rest : PacketList, (∀ x ∈ rest, x.sacked = false ∧ x.lost = true) →
      rest.countP TcpTxItem.sacked = 0 := by
    intro rest flags
    exact countP_eq_zero.mpr fun x member => by simp [(flags x member).1]
  induction list with
  | nil => exact absurd rfl ne
  | cons item rest ih =>
    obtain ⟨⟨sacked, lost⟩, others⟩ := forall_mem_cons.mp flags
    rw [Judged, noneSacked rest others, Nat.add_zero]
    constructor
    · intro h
      exact (h.1 sacked).mp lost
    · intro enough
      refine ⟨fun _ => ⟨fun _ => enough, fun _ => lost⟩, ?_⟩
      cases rest with
      | nil => trivial
      | cons => exact (ih others (cons_ne_nil _ _)).mpr enough

/-- Lost items are below the peak. -/
theorem Peak.lost_below {judge : PacketList → Prop} {below above : PacketList} {top : TcpTxItem}
    (peak : Peak judge head highestSack (front ++ (old ++ rest)) below top above)
    (flags : ∀ x ∈ old, x.sacked = false ∧ x.lost = true) (ne : old ≠ []) :
    ∃ between, below = front ++ (old ++ between) ∧ rest = between ++ top :: above := by
  have eq := peak.list
  have notLost := peak.notLost
  have sackedTop := peak.sacked
  clear peak
  induction old generalizing front with
  | nil => exact absurd rfl ne
  | cons item old ih =>
    obtain ⟨⟨sacked, lost⟩, others⟩ := forall_mem_cons.mp flags
    have differ : item.sacked ≠ top.sacked := by simp [sacked, sackedTop]
    rcases append_cases eq differ with ⟨between, rfl, tail⟩ | ⟨between, rfl, rfl⟩
    · cases old with
      | nil => exact ⟨between, rfl, tail⟩
      | cons next old =>
        have eq' : (front ++ [item]) ++ (next :: old ++ rest) =
            (front ++ item :: between) ++ top :: above := by
          rw [append_assoc]
          exact eq
        obtain ⟨between', below, rest_⟩ := ih others (cons_ne_nil _ _) eq'
        exact ⟨between', by rw [below, append_assoc]; rfl, rest_⟩
    · exact absurd ((notLost item (by simp)).symm.trans lost) Bool.false_ne_true

/-- Lost items that are sent again may be cut and joined. -/
theorem Board.replace (board : Board (Judged d 1) head highestSack (front ++ (old ++ rest)))
    (oldFlags : ∀ x ∈ old, x.sacked = false ∧ x.lost = true)
    (newFlags : ∀ x ∈ new, x.sacked = false ∧ x.lost = true)
    (oldSome : old ≠ []) (newSome : new ≠ []) (totals : total new = total old) :
    Board (Judged d 1) head highestSack (front ++ (new ++ rest)) := by
  obtain ⟨sound, first, assessed⟩ := board
  refine ⟨?_, ?_, ?_⟩
  · simp only [forall_mem_append] at sound ⊢
    refine ⟨sound.1, fun x member => ?_, sound.2.2⟩
    obtain ⟨sacked, lost⟩ := newFlags x member
    exact ⟨fun s => absurd (sacked.symm.trans s) Bool.false_ne_true, fun _ => lost⟩
  · cases front with
    | cons => exact first
    | nil =>
      cases new with
      | nil => exact absurd rfl newSome
      | cons x new =>
        rintro _ ⟨⟩
        exact (newFlags x (by simp)).1
  · rcases assessed with ⟨-, clear⟩ | ⟨below, top, above, peak⟩
    · obtain ⟨x, member⟩ := exists_mem_of_ne_nil old oldSome
      refine absurd ((clear x ?_).2.symm.trans (oldFlags x member).2) Bool.false_ne_true
      simp [member]
    · obtain ⟨between, rfl, rfl⟩ := peak.lost_below oldFlags oldSome
      have noneSacked : ∀ list : PacketList, (∀ x ∈ list, x.sacked = false ∧ x.lost = true) →
          list.countP TcpTxItem.sacked = 0 := fun list flags =>
        countP_eq_zero.mpr fun x member => by simp [(flags x member).1]
      have judged := peak.below
      simp only [judged_append, countP_append, noneSacked old oldFlags,
        judged_lost oldFlags oldSome] at judged
      refine .inr ⟨front ++ (new ++ between), top, above, by simp, peak.node, ?_, peak.sacked,
        ?_, peak.notLost, peak.tidy⟩
      · rw [peak.seq, total_append, total_append, total_append, total_append, totals]
      · simp only [judged_append, countP_append, noneSacked new newFlags,
          judged_lost newFlags newSome]
        exact judged

/-- A new segment joins at the end, above the peak. -/
theorem Board.append {judge : PacketList → Prop} (board : Board judge head highestSack list)
    (clear : Clear item) : Board judge head highestSack (list ++ [item]) := by
  obtain ⟨sound, first, assessed⟩ := board
  obtain ⟨sacked, lost, retrans⟩ := clear
  refine ⟨?_, ?_, ?_⟩
  · rw [forall_mem_append, forall_mem_singleton]
    refine ⟨sound, fun s => ?_, fun r => ?_⟩
    · exact absurd (sacked.symm.trans s) Bool.false_ne_true
    · exact absurd (retrans.symm.trans r) Bool.false_ne_true
  · cases list with
    | cons => exact first
    | nil =>
      rintro _ ⟨⟩
      exact sacked
  · rcases assessed with ⟨none_, clear⟩ | ⟨below, top, above, peak⟩
    · refine .inl ⟨none_, ?_⟩
      rw [forall_mem_append, forall_mem_singleton]
      exact ⟨clear, sacked, lost⟩
    · refine .inr ⟨below, top, above ++ [item], ?_, peak.node, peak.seq, peak.sacked,
        peak.below, ?_, ?_⟩
      · rw [peak.list, append_assoc]
        rfl
      · rw [forall_mem_append, forall_mem_singleton]
        exact ⟨peak.notLost, lost⟩
      · refine pairwise_append.mpr ⟨peak.tidy, pairwise_singleton _ _, ?_⟩
        intro x _ y member _
        rw [mem_singleton.mp member]
        exact sacked

/-- Items leave at the head, up to one that is not sacked. When the peak is among
them, nothing sacked is left. -/
theorem Board.drop (board : Board (Judged d 1) head highestSack (front ++ rest))
    (first : ∀ item ∈ rest.head?, item.sacked = false)
    (head_ : head' = head.at (total front)) (positive : Positive (front ++ rest))
    (near : total (front ++ rest) ≤ halfMaxValue 32) :
    Board (Judged d 1) head' (if highestSack.2.le head' then (none, .ofNat 0) else highestSack)
      rest := by
  obtain ⟨sound, -, assessed⟩ := board
  refine ⟨(forall_mem_append.mp sound).2, first, ?_⟩
  rcases assessed with ⟨none_, clear⟩ | ⟨below, top, above, peak⟩
  · left
    refine ⟨?_, (forall_mem_append.mp clear).2⟩
    split
    · rfl
    · exact none_
  rcases append_eq_append_iff.mp peak.list with ⟨between, rfl, rfl⟩ | ⟨between, rfl, tail⟩
  · -- The peak stays, and it is not the new head.
    have ne : between ≠ [] := by
      rintro rfl
      exact absurd ((first top rfl).symm.trans peak.sacked) Bool.false_ne_true
    have pos : 0 < total between := by
      cases between with
      | nil => exact absurd rfl ne
      | cons x between =>
        have := positive x (by simp)
        rw [total_cons]
        omega
    have seq := peak.seq
    simp only [total_append] at seq near
    have order : highestSack.2.le head' = false := by
      rw [seq, head_, le_at_nat (by omega) (by omega)]
      exact decide_eq_false (by omega)
    rw [order, if_neg Bool.false_ne_true]
    refine .inr ⟨between, top, above, rfl, peak.node, ?_, peak.sacked,
      (judged_append.mp peak.below).2, peak.notLost, peak.tidy⟩
    rw [seq, head_, at_at, Nat.cast_add]
  · have seq := peak.seq
    cases between with
    | nil =>
      -- The peak would be the new head.
      subst tail
      exact absurd ((first top rfl).symm.trans peak.sacked) Bool.false_ne_true
    | cons x between =>
      obtain ⟨rfl, rfl⟩ := tail
      simp only [total_append, total_cons] at near head_
      have order : highestSack.2.le head' = true := by
        rw [seq, head_, le_at_nat (by omega) (by omega)]
        exact decide_eq_true (by omega)
      rw [order, if_pos rfl]
      refine .inl ⟨rfl, fun item member => ⟨?_, peak.notLost item (by simp [member])⟩⟩
      -- What follows an item that is not sacked is not sacked either.
      have tidy := (pairwise_append.mp peak.tidy).2.1
      cases rest with
      | nil => cases member
      | cons y rest =>
        have notSacked := first y rfl
        rcases mem_cons.mp member with rfl | member
        · exact notSacked
        · exact (pairwise_cons.mp tidy).1 item member notSacked

end Edits

end Ns3.TcpTxBuffer
