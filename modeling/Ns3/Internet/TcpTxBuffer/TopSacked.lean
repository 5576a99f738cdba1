import Ns3.Internet.TcpTxBuffer.Retransmit
import Ns3.Internet.TcpTxBuffer.WellFormed
import Ns3.Internet.TcpTxBuffer.LossRule

/-!
# The highest sacked item

`UpdateLostCount` walks down from the item of `m_highestSack`. When that is the highest sacked
item of the sent list, an item is marked as lost if and only if enough sacked items are above it.
`Update` moves `m_highestSack` also down, to an item that ends where it begins.
-/

namespace Ns3.TcpTxBuffer

open SequenceNumber List

/-- Nothing is sacked, or `m_highestSack` is the highest sacked item. -/
def TopSacked (head : SequenceNumber32) (highestSack : Option Nat × SequenceNumber32)
    (list : PacketList) : Prop :=
  (highestSack.1 = none ∧ ∀ item ∈ list, item.sacked = false) ∨
    ∃ below top above, list = below ++ top :: above ∧ top.sacked = true ∧
      highestSack = (some top.node, head.at (total below)) ∧ ∀ item ∈ above, item.sacked = false

/-- From the list `old` to the list `new`: an item that is not sacked and has `d` sacked ones above
it is lost, and an item that becomes lost has them. -/
def DupThreshRule (d : Nat) : PacketList → PacketList → Prop
  | [], [] => True
  | old :: olds, new :: news =>
    (new.sacked = false → d ≤ news.countP TcpTxItem.sacked → new.lost = true) ∧
    (old.lost = false → new.lost = true → d ≤ news.countP TcpTxItem.sacked) ∧
    DupThreshRule d olds news
  | _, _ => False

instance decidableDupThreshRule (d : Nat) :
    (old new : PacketList) → Decidable (DupThreshRule d old new)
  | [], [] => instDecidableTrue
  | _ :: olds, _ :: news =>
    have := decidableDupThreshRule d olds news
    inferInstanceAs (Decidable (_ ∧ _ ∧ _))
  | [], _ :: _ => instDecidableFalse
  | _ :: _, [] => instDecidableFalse

section Judge

variable {d node lostOut sacked lostOut' : Nat} {list list' below above : PacketList}
variable {top : TcpTxItem} {b b' : TcpTxBuffer}

theorem DupThreshRule.refl_of_not_sacked (pos : 1 ≤ d) (none_ : ∀ x ∈ list, x.sacked = false) :
    DupThreshRule d list list := by
  induction list with
  | nil => trivial
  | cons item rest ih =>
    obtain ⟨-, others⟩ := forall_mem_cons.mp none_
    have zero : rest.countP TcpTxItem.sacked = 0 :=
      countP_eq_zero.mpr fun x member => by simp [others x member]
    refine ⟨fun _ enough => ?_, fun before now => ?_, ih others⟩
    · omega
    · exact absurd (before.symm.trans now) Bool.false_ne_true

/-- The walk down from the highest sacked item follows the rule. -/
theorem markLost_rule (pos : 1 ≤ d)
    (run : markLost d top.node lostOut (below ++ top :: above) = some (sacked, list', lostOut'))
    (nodes : ∀ item ∈ below, item.node ≠ top.node) (sackedTop : top.sacked = true)
    (notAbove : ∀ item ∈ above, item.sacked = false) :
    DupThreshRule d (below ++ top :: above) list' ∧ sacked = list'.countP TcpTxItem.sacked := by
  induction below generalizing sacked list' lostOut' with
  | nil =>
    obtain ⟨sacked₁, rest', lostOut₁, visit, count, marked⟩ := markLost_cons_cases run
    obtain ⟨-, rfl, rfl, rfl⟩ | ⟨other, -⟩ := visit
    swap
    · exact absurd rfl other
    rw [if_pos sackedTop] at count
    rcases marked with ⟨-, notSacked, -⟩ | ⟨-, rfl, -⟩
    · exact absurd (notSacked.symm.trans sackedTop) Bool.false_ne_true
    · have zero : rest'.countP TcpTxItem.sacked = 0 :=
        countP_eq_zero.mpr fun x member => by simp [notAbove x member]
      refine ⟨⟨fun notSacked => ?_, fun before now => ?_, ?_⟩, ?_⟩
      · exact absurd (notSacked.symm.trans sackedTop) Bool.false_ne_true
      · exact absurd (before.symm.trans now) Bool.false_ne_true
      · exact DupThreshRule.refl_of_not_sacked pos notAbove
      · rw [count, countP_cons_of_pos sackedTop, zero]
  | cons item below ih =>
    obtain ⟨different, others⟩ := forall_mem_cons.mp nodes
    obtain ⟨sacked₁, rest', lostOut₁, visit, count, marked⟩ := markLost_cons_cases run
    obtain ⟨same, -⟩ | ⟨-, walk⟩ := visit
    · exact absurd same different
    obtain ⟨rule, counted⟩ := ih walk others
    rcases marked with ⟨enough, notSacked, notLost, rfl, -⟩ | ⟨kept, rfl, -⟩
    · rw [if_neg (by simp [notSacked])] at count
      refine ⟨⟨fun _ _ => rfl, fun _ _ => by omega, rule⟩, ?_⟩
      rw [countP_cons_of_neg (by simp [notSacked])]
      omega
    · refine ⟨⟨fun notSacked enough => ?_, fun before now => ?_, rule⟩, ?_⟩
      · rw [if_neg (by simp [notSacked])] at count
        by_contra notLost
        exact kept ⟨by omega, notSacked, by simpa using notLost⟩
      · exact absurd (before.symm.trans now) Bool.false_ne_true
      · rw [count, countP_cons, counted]
        split
        · rfl
        · rfl

/-- What the place of `m_highestSack` depends on. -/
def shape (item : TcpTxItem) : Nat × Nat × Bool := (item.node, item.size, item.sacked)

theorem TopSacked.same_shape {head : SequenceNumber32}
    {highestSack : Option Nat × SequenceNumber32} (ranked : TopSacked head highestSack list)
    (same : list'.map shape = list.map shape) : TopSacked head highestSack list' := by
  have flags : ∀ {l l' : PacketList}, l'.map shape = l.map shape →
      (∀ x ∈ l, x.sacked = false) → ∀ x ∈ l', x.sacked = false := by
    intro l l' same none_ x member
    obtain ⟨y, here, eq⟩ := List.mem_map.mp (same ▸ List.mem_map_of_mem member)
    rw [← none_ y here]
    exact (congrArg (fun t => t.2.2) eq).symm
  rcases ranked with ⟨none_, clear⟩ | ⟨below, top, above, rfl, sackedTop, cache, notAbove⟩
  · exact .inl ⟨none_, flags same clear⟩
  · rw [map_append, map_cons] at same
    obtain ⟨below', others, rfl, below_, tail⟩ := map_eq_append_iff.mp same
    obtain ⟨top', above', rfl, top_, above_⟩ := map_eq_cons_iff.mp tail
    have node : top'.node = top.node := congrArg Prod.fst top_
    have sacked_ : top'.sacked = top.sacked := congrArg (fun t => t.2.2) top_
    have totals : total below' = total below := by
      have sizes := congrArg (List.map fun t => t.2.1) below_
      rw [List.map_map, List.map_map] at sizes
      exact congrArg List.sum sizes
    exact .inr ⟨below', top', above', rfl, sacked_.trans sackedTop, by rw [cache, node, totals],
      flags above_ notAbove⟩

/-- So does `UpdateLostCount`, and no item is sacked by it. -/
theorem updateLostCount_rule (run : b.updateLostCount = some b') (pos : 1 ≤ b.dupAckThresh)
    (nodup : (b.sentList.map TcpTxItem.node).Nodup)
    (ranked : TopSacked b.firstByteSeq b.highestSack b.sentList) :
    DupThreshRule b.dupAckThresh b.sentList b'.sentList ∧
      b'.sentList.map shape = b.sentList.map shape := by
  unfold TcpTxBuffer.updateLostCount at run
  split at run
  swap
  · cases run
  next node head tail some_ sent =>
  rw [sent] at nodup ranked ⊢
  simp only [bind_returns] at run
  obtain ⟨⟨sacked, tail', lostOut⟩, visit, run⟩ := run
  rcases ranked with ⟨none_, -⟩ | ⟨below, top, above, list, sackedTop, cache, notAbove⟩
  · exact absurd (none_.symm.trans some_) (Option.some_ne_none _).symm
  obtain rfl : node = top.node :=
    Option.some.inj (some_.symm.trans (congrArg Prod.fst cache))
  obtain ⟨rule, count, same⟩ : DupThreshRule b.dupAckThresh tail tail' ∧
      sacked = tail'.countP TcpTxItem.sacked ∧ tail'.map shape = tail.map shape := by
    cases below with
    | nil =>
      cases list
      rw [if_pos rfl, Option.some.injEq, Prod.mk.injEq, Prod.mk.injEq] at visit
      obtain ⟨rfl, rfl, -⟩ := visit
      have zero : tail.countP TcpTxItem.sacked = 0 :=
        countP_eq_zero.mpr fun x member => by simp [notAbove x member]
      exact ⟨.refl_of_not_sacked pos notAbove, zero.symm, rfl⟩
    | cons first below =>
      cases list
      simp only [append_eq, map_append, map_cons, nodup_cons] at nodup
      obtain ⟨notAgain, nodup⟩ := nodup
      have different : head.node ≠ top.node := by
        intro same
        refine notAgain ?_
        rw [same]
        exact mem_append_right _ mem_cons_self
      have nodes : ∀ item ∈ below, item.node ≠ top.node := by
        intro item member same
        refine (nodup_append.mp nodup).2.2 _ (List.mem_map_of_mem member) _ ?_ same
        exact mem_cons_self
      rw [if_neg different] at visit
      obtain ⟨rule, count⟩ := markLost_rule pos visit nodes sackedTop notAbove
      exact ⟨rule, count, (markLost_marks visit).map shape fun _ => rfl⟩
  by_cases marked : (decide (b.dupAckThresh ≤ sacked) && !head.lost) = true
  · rw [if_pos marked, Option.pure_def, Option.some.injEq] at run
    subst run
    rw [Bool.and_eq_true, decide_eq_true_eq] at marked
    refine ⟨⟨fun _ _ => rfl, fun _ _ => Nat.le_trans marked.1 (Nat.le_of_eq count), rule⟩, ?_⟩
    rw [map_cons, map_cons, same]
    rfl
  · rw [if_neg marked, Option.pure_def, Option.some.injEq] at run
    subst run
    refine ⟨⟨fun _ enough => ?_, fun before now => ?_, rule⟩, ?_⟩
    · by_contra notLost
      have notLost : head.lost = false := Bool.eq_false_iff.mpr notLost
      refine marked ?_
      rw [notLost, decide_eq_true (Nat.le_trans enough (Nat.le_of_eq count.symm))]
      rfl
    · exact absurd (before.symm.trans now) Bool.false_ne_true
    · rw [map_cons, map_cons, same]

end Judge

section Block

variable {profile : BuildProfile} {head : SequenceNumber32} {block : SackBlock} {pos limit : Nat}
variable {front front' rest list list' below above : PacketList} {item top : TcpTxItem}
variable {k k' : Sacking}

/-- The walk for the block goes on behind these items, which begin at the position `pos`. -/
def Passes (head : SequenceNumber32) (block : SackBlock) : Nat → PacketList → Prop
  | _, [] => True
  | pos, item :: rest =>
    (Covers block (head.at pos) item ∨ ((head.at pos).add item.size).gt block.2 = false) ∧
      Passes head block (pos + item.size) rest

instance decidablePasses (head : SequenceNumber32) (block : SackBlock) :
    (pos : Nat) → (list : PacketList) → Decidable (Passes head block pos list)
  | _, [] => instDecidableTrue
  | pos, item :: rest =>
    have := decidablePasses head block (pos + item.size) rest
    instDecidableAnd

/-- The walk for the block reaches the item behind `front`, and the block covers it. -/
def Names (head : SequenceNumber32) (block : SackBlock) (front : PacketList) (item : TcpTxItem) :
    Prop :=
  Passes head block 0 front ∧ Covers block (head.at (total front)) item
  deriving Decidable

theorem passes_append : Passes head block pos (front ++ rest) ↔
    Passes head block pos front ∧ Passes head block (pos + total front) rest := by
  induction front generalizing pos with
  | nil => simp [Passes]
  | cons item front ih => rw [cons_append, Passes, ih, Passes, total_cons, Nat.add_assoc, and_assoc]

theorem Passes.same (passes : Passes head block pos list)
    (same : list'.map TcpTxItem.size = list.map TcpTxItem.size) : Passes head block pos list' := by
  induction list generalizing pos list' with
  | nil =>
    obtain rfl := map_eq_nil_iff.mp same
    trivial
  | cons item rest ih =>
    obtain ⟨item', rest', rfl, size, others⟩ := map_eq_cons_iff.mp same
    obtain ⟨here, later⟩ := passes
    refine ⟨?_, ?_⟩
    · rw [Covers, size]
      exact here
    · rw [size]
      exact ih later others

theorem total_of_sizes (same : list'.map TcpTxItem.size = list.map TcpTxItem.size) :
    total list' = total list := congrArg List.sum same

theorem Names.same {item' : TcpTxItem} (names : Names head block front item)
    (same : front'.map TcpTxItem.size = front.map TcpTxItem.size) (size : item'.size = item.size) :
    Names head block front' item' := by
  refine ⟨names.1.same same, ?_⟩
  rw [Covers, total_of_sizes same, size]
  exact names.2

/-- The walk over a list is the walk over its first part, and over the rest if that is passed. -/
theorem sackBlock_append
    (run : sackBlock profile block (front ++ rest) (head.at pos) k = some (list', k')) :
    ∃ front' k₁, sackBlock profile block front (head.at pos) k = some (front', k₁) ∧
      ((Passes head block pos front ∧ ∃ rest',
          sackBlock profile block rest (head.at (pos + total front : Nat)) k₁ = some (rest', k') ∧
          list' = front' ++ rest') ∨
        (¬ Passes head block pos front ∧ list' = front' ++ rest ∧ k' = k₁)) := by
  induction front generalizing pos k list' with
  | nil => exact ⟨[], k, rfl, .inl ⟨trivial, list', run, rfl⟩⟩
  | cons item front ih =>
    have next : (head.at pos).add item.size = head.at (pos + item.size : Nat) := at_add _ _ _
    have total_ : pos + total (item :: front) = pos + item.size + total front := by
      rw [total_cons, Nat.add_assoc]
    obtain ⟨others, covers, sacked, notLost, walk, rfl⟩ | ⟨others, covers, fresh, walk, rfl⟩ |
      ⟨notCovers, past, rfl, rfl⟩ | ⟨others, notCovers, before, walk, rfl⟩ :=
      sackBlock_cons_cases run
    · rw [next] at walk
      obtain ⟨front', k₁, first, second⟩ := ih walk
      refine ⟨item :: front', k₁, ?_, ?_⟩
      · have covered : ((head.at pos).ge block.1 &&
            ((head.at pos).add item.size).le block.2) = true := covers
        rw [next] at covered
        have asserted : nsAssert profile (!item.lost) = some () := by
          cases profile with
          | debug => simp [nsAssert, notLost rfl]
          | optimized => rfl
        rw [sackBlock]
        simp only [covered, if_true, sacked, asserted, next, first, some_bind, pure_some]
      · rcases second with ⟨passes, rest', later, rfl⟩ | ⟨stops, rfl, rfl⟩
        · exact .inl ⟨⟨.inl covers, passes⟩, rest', by rw [total_]; exact later, rfl⟩
        · exact .inr ⟨fun passes => stops passes.2, rfl, rfl⟩
    · rw [next] at walk
      obtain ⟨front', k₁, first, second⟩ := ih walk
      refine ⟨{ item with lost := false, sacked := true } :: front', k₁, ?_, ?_⟩
      · have covered : ((head.at pos).ge block.1 &&
            ((head.at pos).add item.size).le block.2) = true := covers
        rw [next] at covered
        rw [sackBlock]
        simp only [covered, if_true, fresh, Bool.false_eq_true, if_false, next, first, some_bind,
          pure_some]
      · rcases second with ⟨passes, rest', later, rfl⟩ | ⟨stops, rfl, rfl⟩
        · exact .inl ⟨⟨.inl covers, passes⟩, rest', by rw [total_]; exact later, rfl⟩
        · exact .inr ⟨fun passes => stops passes.2, rfl, rfl⟩
    · refine ⟨item :: front, k', ?_, .inr ⟨?_, rfl, rfl⟩⟩
      · have uncovered : ((head.at pos).ge block.1 &&
            ((head.at pos).add item.size).le block.2) = false := Bool.eq_false_iff.mpr notCovers
        rw [sackBlock]
        simp only [uncovered, Bool.false_eq_true, if_false, past, if_true, Option.pure_def]
      · rintro ⟨covers | before, -⟩
        · exact notCovers covers
        · exact absurd (before.symm.trans past) Bool.false_ne_true
    · rw [next] at walk
      obtain ⟨front', k₁, first, second⟩ := ih walk
      refine ⟨item :: front', k₁, ?_, ?_⟩
      · have uncovered : ((head.at pos).ge block.1 &&
            ((head.at pos).add item.size).le block.2) = false := Bool.eq_false_iff.mpr notCovers
        rw [next] at uncovered
        have notPast : (head.at (pos + item.size : Nat)).gt block.2 = false := next ▸ before
        rw [sackBlock]
        simp only [uncovered, Bool.false_eq_true, if_false, next, notPast, first, some_bind,
          pure_some]
      · rcases second with ⟨passes, rest', later, rfl⟩ | ⟨stops, rfl, rfl⟩
        · exact .inl ⟨⟨.inr before, passes⟩, rest', by rw [total_]; exact later, rfl⟩
        · exact .inr ⟨fun passes => stops passes.2, rfl, rfl⟩

/-- What a block leaves of an item: its node and its size. -/
def place (item : TcpTxItem) : Nat × Nat := (item.node, item.size)

theorem sackBlock_place {begin_ : SequenceNumber32}
    (run : sackBlock profile block list begin_ k = some (list', k')) :
    list'.map place = list.map place := by
  induction list generalizing list' begin_ k with
  | nil =>
    cases run
    rfl
  | cons item rest ih =>
    obtain ⟨rest', -, -, -, walk, rfl⟩ | ⟨rest', -, -, walk, rfl⟩ | ⟨-, -, rfl, -⟩ |
      ⟨rest', -, -, walk, rfl⟩ := sackBlock_cons_cases run
    · rw [map_cons, map_cons, ih walk]
    · rw [map_cons, map_cons, ih walk]
      rfl
    · rfl
    · rw [map_cons, map_cons, ih walk]

theorem sizes_of_place (same : list'.map place = list.map place) :
    list'.map TcpTxItem.size = list.map TcpTxItem.size := by
  have sizes := congrArg (List.map Prod.snd) same
  rwa [List.map_map, List.map_map] at sizes

/-- `m_highestSack` is not above a position. -/
def NotAbove (head : SequenceNumber32) (limit : Nat)
    (highestSack : Option Nat × SequenceNumber32) : Prop :=
  highestSack.1 = none ∨ ∃ q ≤ limit, highestSack.2 = head.at (q : Nat)

theorem NotAbove.walk (low : NotAbove head limit k.highestSack) (le : pos + total list ≤ limit)
    (run : sackBlock profile block list (head.at pos) k = some (list', k')) :
    NotAbove head limit k'.highestSack := by
  induction list generalizing list' pos k with
  | nil =>
    cases run
    exact low
  | cons item rest ih =>
    rw [total_cons] at le
    have next : (head.at pos).add item.size = head.at (pos + item.size : Nat) := at_add _ _ _
    obtain ⟨rest', -, -, -, walk, -⟩ | ⟨rest', -, -, walk, -⟩ | ⟨-, -, -, rfl⟩ |
      ⟨rest', -, -, walk, -⟩ := sackBlock_cons_cases run
    · exact ih low (by omega) (next ▸ walk)
    · refine ih ?_ (by omega) (next ▸ walk)
      have moved : (k.mark item (head.at pos)).highestSack = (some item.node, head.at pos) ∨
          (k.mark item (head.at pos)).highestSack = k.highestSack := ite_eq_or_eq _ _ _
      rcases moved with moves | stays
      · rw [moves]
        exact .inr ⟨pos, by omega, rfl⟩
      · rw [stays]
        exact low
    · exact low
    · exact ih low (by omega) (next ▸ walk)

/-- Marking items below `m_highestSack` moves it only at the one directly below. -/
theorem highestSack_stays {node at_ : Nat} (cache : k.highestSack = (some node, head.at at_))
    (le : pos + total list ≤ at_) (near : at_ ≤ halfMaxValue 32) (positive : Positive list)
    (last : ∀ pre item, list = pre ++ [item] → pos + total list = at_ → item.sacked = false →
      ¬ (Passes head block pos pre ∧ Covers block (head.at (pos + total pre : Nat)) item))
    (run : sackBlock profile block list (head.at pos) k = some (list', k')) :
    k'.highestSack = k.highestSack := by
  induction list generalizing list' pos k with
  | nil =>
    cases run
    rfl
  | cons item rest ih =>
    obtain ⟨here, others⟩ := positive_cons.mp positive
    rw [total_cons] at le last
    have next : (head.at pos).add item.size = head.at (pos + item.size : Nat) := at_add _ _ _
    have later : (Covers block (head.at pos) item ∨
        ((head.at pos).add item.size).gt block.2 = false) →
        ∀ pre x, rest = pre ++ [x] → pos + item.size + total rest = at_ → x.sacked = false →
        ¬ (Passes head block (pos + item.size) pre ∧
          Covers block (head.at (pos + item.size + total pre : Nat)) x) := by
      rintro goes pre x rfl ends fresh ⟨passes, covers⟩
      refine last (item :: pre) x rfl (by omega) fresh ⟨⟨goes, passes⟩, ?_⟩
      rw [total_cons, ← Nat.add_assoc]
      exact covers
    obtain ⟨rest', covers, -, -, walk, -⟩ | ⟨rest', covers, fresh, walk, -⟩ | ⟨-, -, -, rfl⟩ |
      ⟨rest', -, before, walk, -⟩ := sackBlock_cons_cases run
    · exact ih cache (by omega) others (later (.inl covers)) (next ▸ walk)
    · have stays : (k.mark item (head.at pos)).highestSack = k.highestSack := by
        refine mark_stays (congrArg Prod.fst cache) ?_
        have short : pos + item.size < at_ := by
          cases rest with
          | nil =>
            by_contra reaches
            refine last [] item rfl (by omega) fresh ⟨trivial, ?_⟩
            exact covers
          | cons second rest =>
            have := (positive_cons.mp others).1
            rw [total_cons] at le
            omega
        rw [congrArg Prod.snd cache, next, le_at_nat (by omega) (by omega)]
        exact decide_eq_false (by omega)
      have same := ih (stays.trans cache) (by omega) others (later (.inl covers)) (next ▸ walk)
      exact same.trans stays
    · rfl
    · exact ih cache (by omega) others (later (.inr before)) (next ▸ walk)

/-- A block that names no item that is not sacked changes nothing. -/
theorem sackBlock_nothing
    (unnamed : ∀ pre item post, list = pre ++ item :: post → item.sacked = false →
      ¬ (Passes head block pos pre ∧ Covers block (head.at (pos + total pre : Nat)) item))
    (run : sackBlock profile block list (head.at pos) k = some (list', k')) :
    list' = list ∧ k' = k := by
  induction list generalizing list' pos k with
  | nil =>
    cases run
    exact ⟨rfl, rfl⟩
  | cons item rest ih =>
    have next : (head.at pos).add item.size = head.at (pos + item.size : Nat) := at_add _ _ _
    have later : (Covers block (head.at pos) item ∨
        ((head.at pos).add item.size).gt block.2 = false) →
        ∀ pre x post, rest = pre ++ x :: post → x.sacked = false →
        ¬ (Passes head block (pos + item.size) pre ∧
          Covers block (head.at (pos + item.size + total pre : Nat)) x) := by
      rintro goes pre x post rfl fresh ⟨passes, covers⟩
      refine unnamed (item :: pre) x post rfl fresh ⟨⟨goes, passes⟩, ?_⟩
      rw [total_cons, ← Nat.add_assoc]
      exact covers
    obtain ⟨rest', covers, -, -, walk, rfl⟩ | ⟨rest', covers, fresh, walk, -⟩ | ⟨-, -, rfl, rfl⟩ |
      ⟨rest', -, before, walk, rfl⟩ := sackBlock_cons_cases run
    · obtain ⟨rfl, rfl⟩ := ih (later (.inl covers)) (next ▸ walk)
      exact ⟨rfl, rfl⟩
    · refine absurd ⟨trivial, ?_⟩ (unnamed [] item rest rfl fresh)
      exact covers
    · exact ⟨rfl, rfl⟩
    · obtain ⟨rfl, rfl⟩ := ih (later (.inr before)) (next ▸ walk)
      exact ⟨rfl, rfl⟩

/-- Around the item that will be the highest sacked one: above it nothing is sacked, and
`m_highestSack` is that item as soon as it is sacked, and not above it before. -/
structure TopKnown (head : SequenceNumber32) (highestSack : Option Nat × SequenceNumber32)
    (below : PacketList) (top : TcpTxItem) (above : PacketList) : Prop where
  notAbove : ∀ item ∈ above, item.sacked = false
  sacked : top.sacked = true → highestSack = (some top.node, head.at (total below))
  fresh : top.sacked = false → NotAbove head (total below) highestSack

/-- What one block does to the items around the highest one that is going to be sacked. -/
structure BlockDone (head : SequenceNumber32) (block : SackBlock) (below : PacketList)
    (top : TcpTxItem) (below' : PacketList) (top' : TcpTxItem) : Prop where
  places : below'.map place = below.map place
  place_ : place top' = place top
  flag : top'.sacked = true ↔ top.sacked = true ∨ Names head block below top
  last : ∀ pre item, below = pre ++ [item] → ∃ pre' item', below' = pre' ++ [item'] ∧
    (item'.sacked = false → item.sacked = false ∧ ¬ Names head block pre item)

/-- The last item of a walk is sacked when the block names it. -/
theorem sackBlock_last {pre : PacketList}
    (run : sackBlock profile block (pre ++ [item]) (head.at (0 : Nat)) k = some (list', k')) :
    ∃ pre' item', list' = pre' ++ [item'] ∧
      (item'.sacked = false → item.sacked = false ∧ ¬ Names head block pre item) := by
  obtain ⟨pre', k₁, -, ⟨-, rest', walk, rfl⟩ | ⟨stops, rfl, -⟩⟩ := sackBlock_append run
  · rw [Nat.zero_add] at walk
    obtain ⟨rest, -, sacked, -, nothing, rfl⟩ | ⟨rest, -, -, nothing, rfl⟩ |
      ⟨notCovers, -, rfl, -⟩ | ⟨rest, notCovers, -, nothing, rfl⟩ := sackBlock_cons_cases walk
    · cases nothing
      exact ⟨pre', item, rfl, fun fresh => absurd (fresh.symm.trans sacked) Bool.false_ne_true⟩
    · cases nothing
      exact ⟨pre', _, rfl, fun fresh => absurd fresh.symm Bool.false_ne_true⟩
    · exact ⟨pre', item, rfl, fun fresh => ⟨fresh, fun names => notCovers names.2⟩⟩
    · cases nothing
      exact ⟨pre', item, rfl, fun fresh => ⟨fresh, fun names => notCovers names.2⟩⟩
  · exact ⟨pre', item, rfl, fun fresh => ⟨fresh, fun names => stops names.1⟩⟩

/-- One block keeps the item known, unless it sacks the item directly below it too late. -/
theorem TopKnown.walk (known : TopKnown head k.highestSack below top above)
    (run : sackBlock profile block (below ++ top :: above) (head.at (0 : Nat)) k =
      some (list', k'))
    (positive : Positive (below ++ top :: above))
    (near : total (below ++ top :: above) ≤ halfMaxValue 32)
    (unnamed : ∀ pre item post, above = pre ++ item :: post →
      ¬ Names head block (below ++ top :: pre) item)
    (late : ∀ pre item, below = pre ++ [item] → item.sacked = false → Names head block pre item →
      top.sacked = false) :
    ∃ below' top', list' = below' ++ top' :: above ∧
      TopKnown head k'.highestSack below' top' above ∧
      BlockDone head block below top below' top' := by
  obtain ⟨below', k₁, first, second⟩ := sackBlock_append run
  rw [total_append, total_cons] at near
  have places := sackBlock_place first
  have totals : total below' = total below := total_of_sizes (sizes_of_place places)
  have last : ∀ pre item, below = pre ++ [item] → ∃ pre' item', below' = pre' ++ [item'] ∧
      (item'.sacked = false → item.sacked = false ∧ ¬ Names head block pre item) := by
    rintro pre item rfl
    exact sackBlock_last first
  -- `m_highestSack` behind the items below.
  have known₁ : TopKnown head k₁.highestSack below' top above := by
    refine ⟨known.notAbove, fun sacked => ?_, fun fresh => ?_⟩
    · have cache := known.sacked sacked
      have stays := highestSack_stays cache (by omega) (by omega) (positive_append.mp positive).1
        (fun pre item eq _ fresh names => ?_) first
      · rw [stays, cache, totals]
      · rw [Nat.zero_add] at names
        exact absurd (sacked.symm.trans (late pre item eq fresh names)) Bool.noConfusion
    · rw [totals]
      exact (known.fresh fresh).walk (by omega) first
  -- Nothing above is named.
  have nothing : (Covers block (head.at (total below)) top ∨
      ((head.at (total below)).add top.size).gt block.2 = false) → Passes head block 0 below →
      ∀ {k₂ : Sacking} {above' : PacketList}, sackBlock profile block above
        ((head.at (total below)).add top.size) k₂ = some (above', k') →
      above' = above ∧ k' = k₂ := by
    intro goes passes k₂ above' walk
    have next : (head.at (total below)).add top.size = head.at (total below + top.size : Nat) :=
      at_add _ _ _
    rw [next] at walk
    refine sackBlock_nothing (fun pre item post eq _ names => ?_) walk
    refine unnamed pre item post eq ⟨passes_append.mpr ⟨passes, ?_⟩, ?_⟩
    · rw [Nat.zero_add]
      exact ⟨goes, names.1⟩
    · rw [total_append, total_cons, ← Nat.add_assoc]
      exact names.2
  rcases second with ⟨passes, rest', onward, rfl⟩ | ⟨stops, rfl, rfl⟩
  · rw [Nat.zero_add] at onward
    obtain ⟨above', covers, sacked, -, walk, rfl⟩ | ⟨above', covers, fresh, walk, rfl⟩ |
      ⟨notCovers, -, rfl, rfl⟩ | ⟨above', notCovers, before, walk, rfl⟩ :=
      sackBlock_cons_cases onward
    · obtain ⟨rfl, rfl⟩ := nothing (.inl covers) passes walk
      refine ⟨below', top, rfl, known₁, ⟨places, rfl, ?_, last⟩⟩
      exact ⟨.inl, fun _ => sacked⟩
    · obtain ⟨rfl, rfl⟩ := nothing (.inl covers) passes walk
      refine ⟨below', _, rfl, ⟨known.notAbove, fun _ => ?_, fun fresh => ?_⟩,
        ⟨places, rfl, ?_, last⟩⟩
      · have next : (head.at (total below)).add top.size =
            head.at (total below + top.size : Nat) := at_add _ _ _
        rw [totals]
        rcases known₁.fresh fresh with none_ | ⟨q, le, cache⟩
        · simp [Sacking.mark, none_]
        · refine mark_moves ?_
          rw [cache, next, le_at_nat (by omega) (by omega)]
          exact decide_eq_true (by omega)
      · exact absurd fresh.symm Bool.false_ne_true
      · exact ⟨fun _ => .inr ⟨passes, covers⟩, fun _ => rfl⟩
    · refine ⟨below', top, rfl, known₁, ⟨places, rfl, ?_, last⟩⟩
      exact ⟨.inl, fun sacked => sacked.resolve_right fun names => notCovers names.2⟩
    · obtain ⟨rfl, rfl⟩ := nothing (.inr before) passes walk
      refine ⟨below', top, rfl, known₁, ⟨places, rfl, ?_, last⟩⟩
      exact ⟨.inl, fun sacked => sacked.resolve_right fun names => notCovers names.2⟩
  · refine ⟨below', top, rfl, known₁, ⟨places, rfl, ?_, last⟩⟩
    exact ⟨.inl, fun sacked => sacked.resolve_right fun names => stops names.1⟩

end Block

section Blocks

variable {profile : BuildProfile} {head : SequenceNumber32} {blocks : SackList} {sentSize : Nat}
variable {front front' rest list list' below above : PacketList} {item item' top : TcpTxItem}
variable {k k' : Sacking} {p q : SackBlock → Prop}

/-- No block with `q` comes in front of the first block with `p`, if there is one. -/
def InTime (p q : SackBlock → Prop) : SackList → Prop
  | [] => True
  | block :: later => p block ∨ ((q block → ∀ other ∈ later, ¬ p other) ∧ InTime p q later)

instance decidableInTime (p q : SackBlock → Prop) [DecidablePred p] [DecidablePred q] :
    (blocks : SackList) → Decidable (InTime p q blocks)
  | [] => instDecidableTrue
  | _ :: later =>
    have := decidableInTime p q later
    instDecidableOr

/-- The item `item`, directly below the item `top`, is not sacked later than that. -/
def SackedBefore (head : SequenceNumber32) (blocks : SackList) (front : PacketList)
    (item top : TcpTxItem) : Prop :=
  item.sacked = false →
    (top.sacked = true → ∀ block ∈ blocks, ¬ Names head block front item) ∧
    InTime (fun block => Names head block front item)
      (fun block => Names head block (front ++ [item]) top) blocks
  deriving Decidable

/-- The items behind `front` are not sacked, and no block names one of them. -/
def Unreached (head : SequenceNumber32) (blocks : SackList) : PacketList → PacketList → Prop
  | _, [] => True
  | front, item :: rest =>
    (item.sacked = false ∧ ∀ block ∈ blocks, ¬ Names head block front item) ∧
      Unreached head blocks (front ++ [item]) rest

instance decidableUnreached (head : SequenceNumber32) (blocks : SackList) :
    (front list : PacketList) → Decidable (Unreached head blocks front list)
  | _, [] => instDecidableTrue
  | front, item :: rest =>
    have := decidableUnreached head blocks (front ++ [item]) rest
    instDecidableAnd

/-- The item directly below the one that will be the highest sacked item is not sacked later than
that. -/
def TopInTime (head : SequenceNumber32) (blocks : SackList) : PacketList → PacketList → Prop
  | front, item :: top :: above =>
    (Unreached head blocks (front ++ [item, top]) above →
      SackedBefore head blocks front item top) ∧
    TopInTime head blocks (front ++ [item]) (top :: above)
  | _, _ => True

instance decidableTopInTime (head : SequenceNumber32) (blocks : SackList) :
    (front list : PacketList) → Decidable (TopInTime head blocks front list)
  | _, [] => instDecidableTrue
  | _, [_] => instDecidableTrue
  | front, item :: top :: above =>
    have := decidableTopInTime head blocks (front ++ [item]) (top :: above)
    instDecidableAnd

/-- The blocks name sacked items only. -/
def NamesSacked (head : SequenceNumber32) (blocks : SackList) : PacketList → PacketList → Prop
  | _, [] => True
  | front, item :: rest =>
    (item.sacked = false → ∀ block ∈ blocks, ¬ Names head block front item) ∧
      NamesSacked head blocks (front ++ [item]) rest

instance decidableNamesSacked (head : SequenceNumber32) (blocks : SackList) :
    (front list : PacketList) → Decidable (NamesSacked head blocks front list)
  | _, [] => instDecidableTrue
  | front, item :: rest =>
    have := decidableNamesSacked head blocks (front ++ [item]) rest
    instDecidableAnd

theorem Unreached.at (unreached : Unreached head blocks front list) :
    ∀ pre item post, list = pre ++ item :: post →
      item.sacked = false ∧ ∀ block ∈ blocks, ¬ Names head block (front ++ pre) item := by
  induction list generalizing front with
  | nil =>
    intro pre item post eq
    exact absurd eq.symm (append_ne_nil_of_right_ne_nil _ (cons_ne_nil _ _))
  | cons x rest ih =>
    rintro (_ | ⟨y, pre⟩) item post eq
    · cases eq
      rw [append_nil]
      exact unreached.1
    · cases eq
      have later := ih unreached.2 pre item post rfl
      rwa [append_assoc] at later

theorem NamesSacked.at (names : NamesSacked head blocks front list) :
    ∀ pre item post, list = pre ++ item :: post → item.sacked = false →
      ∀ block ∈ blocks, ¬ Names head block (front ++ pre) item := by
  induction list generalizing front with
  | nil =>
    intro pre item post eq
    exact absurd eq.symm (append_ne_nil_of_right_ne_nil _ (cons_ne_nil _ _))
  | cons x rest ih =>
    rintro (_ | ⟨y, pre⟩) item post eq
    · cases eq
      rw [append_nil]
      exact names.1
    · cases eq
      have later := ih names.2 pre item post rfl
      rwa [append_assoc] at later

theorem TopInTime.at (inTime : TopInTime head blocks front list) :
    ∀ pre item top above, list = pre ++ item :: top :: above →
      Unreached head blocks (front ++ pre ++ [item, top]) above →
      SackedBefore head blocks (front ++ pre) item top := by
  induction list generalizing front with
  | nil =>
    intro pre item top above eq
    exact absurd eq.symm (append_ne_nil_of_right_ne_nil _ (cons_ne_nil _ _))
  | cons x rest ih =>
    rintro (_ | ⟨y, pre⟩) item top above eq
    · cases eq
      rw [append_nil]
      exact inTime.1
    · cases eq
      cases pre with
      | nil =>
        have later := ih inTime.2 [] item top above rfl
        rwa [append_nil] at later
      | cons z pre =>
        have later := ih inTime.2 (z :: pre) item top above rfl
        have assoc : front ++ [x] ++ (z :: pre) = front ++ x :: z :: pre := by
          rw [append_assoc]
          rfl
        rwa [assoc] at later

/-- Some item is the last one that is sacked or named, or there is none. -/
theorem exists_top (head : SequenceNumber32) (blocks : SackList) (front list : PacketList) :
    Unreached head blocks front list ∨ ∃ below top above, list = below ++ top :: above ∧
      (top.sacked = true ∨ ∃ block ∈ blocks, Names head block (front ++ below) top) ∧
      Unreached head blocks (front ++ below ++ [top]) above := by
  induction list generalizing front with
  | nil => exact .inl trivial
  | cons item rest ih =>
    rcases ih (front ++ [item]) with none_ | ⟨below, top, above, rfl, reached, unreached⟩
    · by_cases here : item.sacked = false ∧ ∀ block ∈ blocks, ¬ Names head block front item
      · exact .inl ⟨here, none_⟩
      · refine .inr ⟨[], item, rest, rfl, ?_, by rw [append_nil]; exact none_⟩
        rw [append_nil]
        by_contra neither
        rw [not_or] at neither
        refine here ⟨Bool.eq_false_iff.mpr neither.1, fun block member names => ?_⟩
        exact neither.2 ⟨block, member, names⟩
    · rw [append_assoc] at reached
      rw [append_assoc front [item] below] at unreached
      exact .inr ⟨item :: below, top, above, rfl, reached, unreached⟩

theorem names_congr {block : SackBlock} (places : front'.map place = front.map place)
    (place_ : place item' = place item) :
    Names head block front' item' ↔ Names head block front item := by
  have sizes := sizes_of_place places
  have size : item'.size = item.size := congrArg Prod.snd place_
  exact ⟨fun names => names.same sizes.symm size.symm, fun names => names.same sizes size⟩

theorem Unreached.later {block : SackBlock}
    (unreached : Unreached head (block :: blocks) front list)
    (places : front'.map place = front.map place) : Unreached head blocks front' list := by
  induction list generalizing front front' with
  | nil => trivial
  | cons item rest ih =>
    obtain ⟨⟨fresh, unnamed⟩, others⟩ := unreached
    refine ⟨⟨fresh, fun other member names => ?_⟩, ih others ?_⟩
    · exact unnamed other (mem_cons_of_mem block member) ((names_congr places rfl).mp names)
    · rw [map_append, map_append, places]

/-- After one block the item directly below is sacked, or it is not sacked later by the rest. -/
theorem SackedBefore.later {block : SackBlock} {top' : TcpTxItem}
    (before : SackedBefore head (block :: blocks) front item top)
    (places : front'.map place = front.map place) (place_ : place item' = place item)
    (placeTop : place top' = place top)
    (flag : top'.sacked = true ↔ top.sacked = true ∨ Names head block (front ++ [item]) top)
    (last : item'.sacked = false → item.sacked = false ∧ ¬ Names head block front item) :
    SackedBefore head blocks front' item' top' := by
  intro fresh'
  obtain ⟨fresh, notNamed⟩ := last fresh'
  obtain ⟨sackedTop, inTime⟩ := before fresh
  have lower : (fun other => Names head other front' item') =
      fun other => Names head other front item :=
    funext fun other => propext (names_congr places place_)
  have upper : (fun other => Names head other (front' ++ [item']) top') =
      fun other => Names head other (front ++ [item]) top := by
    refine funext fun other => propext (names_congr ?_ placeTop)
    rw [map_append, map_append, places, map_singleton, map_singleton, place_]
  rw [lower, upper]
  obtain ⟨after, rest⟩ := inTime.resolve_left notNamed
  refine ⟨fun sacked other member names => ?_, rest⟩
  have names' := (names_congr places place_).mp names
  rcases flag.mp sacked with earlier | now
  · exact sackedTop earlier other (mem_cons_of_mem block member) names'
  · exact after now other member names'

/-- The items around the highest one, through all blocks. -/
theorem TopKnown.walks (known : TopKnown head k.highestSack below top above)
    (run : sackBlocks profile head sentSize blocks (below ++ top :: above) k =
      some (list', k', true))
    (positive : Positive (below ++ top :: above))
    (near : total (below ++ top :: above) ≤ halfMaxValue 32)
    (unreached : Unreached head blocks (below ++ [top]) above)
    (inTime : ∀ pre item, below = pre ++ [item] → SackedBefore head blocks pre item top) :
    ∃ below' top', list' = below' ++ top' :: above ∧
      TopKnown head k'.highestSack below' top' above ∧
      (top'.sacked = true ↔ top.sacked = true ∨ ∃ block ∈ blocks, Names head block below top) := by
  induction blocks generalizing below top k with
  | nil =>
    obtain ⟨rfl, rfl, -⟩ :=
      (by simpa only [sackBlocks, Option.some.injEq, Prod.mk.injEq] using run)
    refine ⟨below, top, rfl, known, .inl, fun sacked => ?_⟩
    rcases sacked with before | ⟨block, member, -⟩
    · exact before
    · cases member
  | cons block later ih =>
    have origin : head.at ((0 : Nat) : Int) = head := at_zero head
    rw [sackBlocks] at run
    cases beyond : (head.add sentSize).lt block.1 with
    | true =>
      rw [if_pos beyond, Option.pure_def, Option.some.injEq, Prod.mk.injEq,
        Prod.mk.injEq] at run
      exact absurd run.2.2 Bool.false_ne_true
    | false =>
      rw [if_neg (by rw [beyond]; exact Bool.false_ne_true)] at run
      simp only [bind_returns] at run
      obtain ⟨⟨list₁, k₁⟩, walk, run⟩ := run
      rw [← origin] at walk
      have unnamed : ∀ pre item post, above = pre ++ item :: post →
          ¬ Names head block (below ++ top :: pre) item := by
        intro pre item post eq
        have none_ := (unreached.at pre item post eq).2 block mem_cons_self
        rwa [append_assoc] at none_
      have late : ∀ pre item, below = pre ++ [item] → item.sacked = false →
          Names head block pre item → top.sacked = false := by
        intro pre item eq fresh names
        refine Bool.eq_false_iff.mpr fun sacked => ?_
        exact (inTime pre item eq fresh).1 sacked block mem_cons_self names
      obtain ⟨below', top', rfl, known', done⟩ :=
        known.walk walk positive near unnamed late
      have sizes : (below' ++ top' :: above).map TcpTxItem.size =
          (below ++ top :: above).map TcpTxItem.size :=
        sizes_of_place (sackBlock_place walk)
      have positive' : Positive (below' ++ top' :: above) := by
        intro x member
        obtain ⟨y, here, size⟩ := List.mem_map.mp (sizes ▸ List.mem_map_of_mem member)
        exact size ▸ positive y here
      have near' : total (below' ++ top' :: above) ≤ halfMaxValue 32 :=
        (total_of_sizes sizes).trans_le near
      have places : (below' ++ [top']).map place = (below ++ [top]).map place := by
        rw [map_append, map_append, done.places, map_singleton,
          map_singleton, done.place_]
      have inTime' : ∀ pre item, below' = pre ++ [item] →
          SackedBefore head later pre item top' := by
        rintro pre' item' rfl
        have places' := done.places
        rw [map_append] at places'
        obtain ⟨pre, last, rfl, pre_, last_⟩ := append_eq_map_iff.mp places'
        obtain ⟨item, rest, rfl, item_, rest_⟩ := map_eq_cons_iff.mp last_
        obtain rfl := map_eq_nil_iff.mp rest_
        obtain ⟨pre₁, item₁, same, freshly⟩ := done.last pre item rfl
        obtain ⟨rfl, tail⟩ := append_inj' same rfl
        obtain ⟨rfl, -⟩ := List.cons.inj tail
        exact (inTime pre item rfl).later pre_.symm item_.symm done.place_ done.flag freshly
      obtain ⟨below'', top'', eq, known'', flag⟩ :=
        ih known' run positive' near' (unreached.later places) inTime'
      refine ⟨below'', top'', eq, known'', flag.trans ?_⟩
      rw [done.flag, or_assoc]
      refine or_congr_right ?_
      simp only [exists_mem_cons_iff, names_congr done.places done.place_]

end Blocks

end Ns3.TcpTxBuffer
