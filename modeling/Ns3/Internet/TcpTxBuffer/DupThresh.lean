import Ns3.Internet.TcpTxBuffer.TopDropped

/-!
# The rule of duplicate acknowledgements

In a run that sends data, applies SACK options and discards what is acknowledged, `Update` marks
the items with enough sacked ones above them, as long as `m_highestSack` stays the highest sacked
item. `Update` itself loses it when it sacks the item directly below later than the highest one,
and `DiscardUpTo` when it moves the mark of a sacked head into a gap.
-/

namespace Ns3.TcpTxBuffer

open SequenceNumber List Option

/-- What the run keeps. -/
structure Ranked (b : TcpTxBuffer) : Prop where
  reached : Reached b
  nodes : Distinct (b.sentList.map TcpTxItem.node) b.nextNode
  clear : ∀ item ∈ b.appList, Clear item
  threshold : 1 ≤ b.dupAckThresh
  top : TopSacked b.firstByteSeq b.highestSack b.sentList

section Facts

variable {b : TcpTxBuffer} {below above front rest : PacketList} {top item : TcpTxItem}

theorem Reached.positive (reached : Reached b) : Positive b.sentList := by
  obtain ⟨⟨_, _, _, holds⟩, -⟩ := reached
  exact (positive_append.mp holds.positive).1

theorem Reached.near (reached : Reached b) : total b.sentList ≤ halfMaxValue 32 := by
  obtain ⟨⟨_, _, _, holds⟩, near⟩ := reached
  have le := holds.sentSize_le
  have eq := holds.sentSize
  omega

/-- There is one highest sacked item. -/
theorem top_unique (eq : front ++ item :: rest = below ++ top :: above)
    (sacked : item.sacked = true) (sackedTop : top.sacked = true)
    (notAbove : ∀ x ∈ rest, x.sacked = false) (notAbove' : ∀ x ∈ above, x.sacked = false) :
    front = below ∧ item = top ∧ rest = above := by
  rcases append_eq_append_iff.mp eq with ⟨between, rfl, tail⟩ | ⟨between, rfl, tail⟩
  · cases between with
    | nil =>
      obtain ⟨same, rest_⟩ := List.cons.inj tail
      exact ⟨(append_nil _).symm, same, rest_⟩
    | cons x between =>
      obtain ⟨-, rfl⟩ := List.cons.inj tail
      have := notAbove top (mem_append_right _ mem_cons_self)
      exact absurd (this.symm.trans sackedTop) Bool.false_ne_true
  · cases between with
    | nil =>
      obtain ⟨same, rest_⟩ := List.cons.inj tail
      exact ⟨append_nil _, same.symm, rest_.symm⟩
    | cons x between =>
      obtain ⟨-, rfl⟩ := List.cons.inj tail
      have := notAbove' item (mem_append_right _ mem_cons_self)
      exact absurd (this.symm.trans sacked) Bool.false_ne_true

/-- A list has a last sacked item, or none. -/
theorem exists_sacked (list : PacketList) : (∀ x ∈ list, x.sacked = false) ∨
    ∃ below top above, list = below ++ top :: above ∧ top.sacked = true ∧
      ∀ x ∈ above, x.sacked = false := by
  induction list with
  | nil => exact .inl fun x member => absurd member not_mem_nil
  | cons item rest ih =>
    rcases ih with none_ | ⟨below, top, above, rfl, sacked, notAbove⟩
    · cases sacked : item.sacked with
      | false => exact .inl (forall_mem_cons.mpr ⟨sacked, none_⟩)
      | true => exact .inr ⟨[], item, rest, rfl, sacked, none_⟩
    · exact .inr ⟨item :: below, top, above, rfl, sacked, notAbove⟩

variable {head : SequenceNumber32} {highestSack : Option Nat × SequenceNumber32}
variable {list : PacketList}

theorem TopSacked.cache (ranked : TopSacked head highestSack (below ++ top :: above))
    (sackedTop : top.sacked = true) (notAbove : ∀ x ∈ above, x.sacked = false) :
    highestSack = (some top.node, head.at (total below)) := by
  rcases ranked with ⟨-, clear⟩ | ⟨below', top', above', eq, sacked', cache, notAbove'⟩
  · exact absurd ((clear top (by simp)).symm.trans sackedTop) Bool.false_ne_true
  · obtain ⟨rfl, rfl, -⟩ := top_unique eq sackedTop sacked' notAbove notAbove'
    exact cache

theorem TopSacked.none (ranked : TopSacked head highestSack list)
    (clear : ∀ x ∈ list, x.sacked = false) : highestSack.1 = none := by
  rcases ranked with ⟨none_, -⟩ | ⟨below, top, above, rfl, sacked, -, -⟩
  · exact none_
  · exact absurd ((clear top (by simp)).symm.trans sacked) Bool.false_ne_true

end Facts

section Update

variable {profile : BuildProfile} {b b' : TcpTxBuffer} {blocks : SackList} {head : SequenceNumber32}
variable {list list' mid : PacketList} {k k' : Sacking} {sentSize n d : Nat}

/-- The condition on a SACK option: no block beyond the sent list ends `Update` before it judges
what it has sacked, and the item directly below the highest sacked one is not sacked later. -/
def UpdatesInOrder (b : TcpTxBuffer) (blocks : SackList) : Prop :=
  (processed b.firstByteSeq b.sentSize blocks = blocks ∨
    NamesSacked b.firstByteSeq (processed b.firstByteSeq b.sentSize blocks) [] b.sentList) ∧
  TopInTime b.firstByteSeq (processed b.firstByteSeq b.sentSize blocks) [] b.sentList
  deriving Decidable

/-- Blocks that name sacked items only change nothing. -/
theorem sackBlocks_nothing {goesOn : Bool}
    (names : NamesSacked head (processed head sentSize blocks) [] list)
    (run : sackBlocks profile head sentSize blocks list k = some (list', k', goesOn)) :
    list' = list ∧ k' = k := by
  have unnamed := names.at
  clear names
  induction blocks generalizing k with
  | nil =>
    rw [sackBlocks, some.injEq, Prod.mk.injEq, Prod.mk.injEq] at run
    exact ⟨run.1.symm, run.2.1.symm⟩
  | cons block later ih =>
    rw [sackBlocks] at run
    cases beyond : (head.add sentSize).lt block.1 with
    | true =>
      rw [if_pos beyond, Option.pure_def, some.injEq, Prod.mk.injEq,
        Prod.mk.injEq] at run
      exact ⟨run.1.symm, run.2.1.symm⟩
    | false =>
      have here : processed head sentSize (block :: later) =
          block :: processed head sentSize later := by
        rw [processed, takeWhile_cons_of_pos (by rw [beyond]; rfl), processed]
      rw [here] at unnamed
      rw [if_neg (by rw [beyond]; exact Bool.false_ne_true)] at run
      simp only [bind_returns] at run
      obtain ⟨⟨list₁, k₁⟩, walk, run⟩ := run
      have origin : head.at ((0 : Nat) : Int) = head := at_zero head
      rw [← origin] at walk
      obtain ⟨rfl, rfl⟩ := sackBlock_nothing (fun pre item post eq fresh named => by
        refine unnamed pre item post eq fresh block mem_cons_self ?_
        rwa [Nat.zero_add] at named) walk
      refine ih run fun pre item post eq fresh other member => ?_
      exact unnamed pre item post eq fresh other (mem_cons_of_mem block member)

theorem Unreached.namesSacked {front : PacketList} (unreached : Unreached head blocks front list) :
    NamesSacked head blocks front list := by
  induction list generalizing front with
  | nil => trivial
  | cons item rest ih => exact ⟨fun _ => unreached.1.2, ih unreached.2⟩

/-- The marks leave `m_highestSack` at the highest sacked item. -/
theorem TopSacked.sackBlocks (top : TopSacked head k.highestSack list) (positive : Positive list)
    (near : total list ≤ halfMaxValue 32) (inTime : TopInTime head blocks [] list)
    (whole : processed head sentSize blocks = blocks)
    (run : sackBlocks profile head sentSize blocks list k = some (list', k', true)) :
    TopSacked head k'.highestSack list' := by
  rcases exists_top head blocks [] list with none_ | ⟨below, item, above, rfl, reached, unreached⟩
  · obtain ⟨rfl, rfl⟩ := sackBlocks_nothing (by rw [whole]; exact none_.namesSacked) run
    exact top
  · have notAbove : ∀ x ∈ above, x.sacked = false := by
      intro x member
      obtain ⟨pre, post, eq⟩ := append_of_mem member
      exact (unreached.at pre x post eq).1
    have known : TopKnown head k.highestSack below item above := by
      rcases top with ⟨none_, clear⟩ | ⟨below₁, top₁, above₁, eq, sacked₁, cache, notAbove₁⟩
      · have fresh : item.sacked = false := clear item (by simp)
        exact ⟨notAbove, fun sacked => absurd (fresh.symm.trans sacked) Bool.false_ne_true,
          fun _ => .inl none_⟩
      · refine ⟨notAbove, fun sacked => ?_, fun fresh => ?_⟩
        · obtain ⟨rfl, rfl, -⟩ := top_unique eq sacked sacked₁ notAbove notAbove₁
          exact cache
        · rcases append_cases eq (by simp [fresh, sacked₁]) with
            ⟨between, -, rfl⟩ | ⟨between, rfl, -⟩
          · have := notAbove top₁ (by simp)
            exact absurd (this.symm.trans sacked₁) Bool.false_ne_true
          · refine .inr ⟨total below₁, ?_, congrArg Prod.snd cache⟩
            rw [total_append]
            exact Nat.le_add_right _ _
    have before : ∀ pre x, below = pre ++ [x] → SackedBefore head blocks pre x item := by
      rintro pre x rfl
      refine inTime.at pre x item above (by simp) ?_
      simpa using unreached
    obtain ⟨below', item', rfl, known', flag⟩ :=
      known.walks run positive near (by simpa using unreached) before
    have sacked' : item'.sacked = true := flag.mpr (by simpa using reached)
    exact .inr ⟨below', item', above, rfl, sacked', known'.sacked sacked', known'.notAbove⟩

theorem DupThreshRule.not_lost {front rest : PacketList} {old new : TcpTxItem}
    (rule : DupThreshRule d (front ++ new :: rest) list') (notLost : new.lost = false) :
    DupThreshRule d (front ++ old :: rest) list' := by
  induction front generalizing list' with
  | nil =>
    cases list' with
    | nil => exact rule
    | cons x others => exact ⟨rule.1, fun _ => rule.2.1 notLost, rule.2.2⟩
  | cons first front ih =>
    cases list' with
    | nil => exact rule
    | cons x others => exact ⟨rule.1, rule.2.1, ih rule.2.2⟩

theorem DupThreshRule.of_marked (marks : Marked head blocks list k mid k')
    (rule : DupThreshRule d mid list') : DupThreshRule d list list' := by
  induction marks with
  | refl => exact rule
  | mark _ _ _ _ ih => exact (ih rule).not_lost rfl

/-- `Update` keeps `m_highestSack` at the highest sacked item, and follows the rule. -/
theorem Ranked.update (ranked : Ranked b) (inOrder : b.UpdatesInOrder blocks)
    (run : b.update profile blocks = some (n, b')) :
    Ranked b' ∧ (0 < n → DupThreshRule b.dupAckThresh b.sentList b'.sentList) := by
  obtain ⟨whole, inTime⟩ := inOrder
  obtain ⟨nodup, fresh⟩ := ranked.nodes
  have reached' : Reached b' := ranked.reached.same (update_same run)
  simp only [TcpTxBuffer.update, bind_eq_bind, bind_eq_some_iff] at run
  obtain ⟨⟨mid, k, goesOn⟩, walk, run⟩ := run
  obtain ⟨marks, complete⟩ := sackBlocks_marked walk fun _ => id
  have nodes : mid.map TcpTxItem.node = b.sentList.map TcpTxItem.node := marks.nodes
  cases goesOn with
  | false =>
    obtain ⟨rfl, rfl⟩ := run
    have early : ¬ processed b.firstByteSeq b.sentSize blocks = blocks := by
      intro all
      exact Bool.false_ne_true (complete.mpr all)
    obtain ⟨rfl, rfl⟩ := sackBlocks_nothing (whole.resolve_left early) walk
    exact ⟨⟨reached', ranked.nodes, ranked.clear, ranked.threshold, ranked.top⟩,
      fun some_ => absurd some_ (lt_irrefl 0)⟩
  | true =>
    have all := complete.mp rfl
    rw [all] at inTime marks
    have top : TopSacked b.firstByteSeq k.highestSack mid :=
      TopSacked.sackBlocks (by exact ranked.top) ranked.reached.positive ranked.reached.near
        inTime all walk
    simp only [Bool.not_true, Bool.false_eq_true, if_false, bind_eq_some_iff,
      Option.pure_def, some.injEq, Prod.mk.injEq] at run
    obtain ⟨b₁, judged, _, -, _, -, rfl, rfl⟩ := run
    by_cases some_ : 0 < k.bytesSacked
    · simp only [if_pos some_, bind_eq_some_iff] at judged
      obtain ⟨_, -, judged⟩ := judged
      obtain ⟨rule, shapes⟩ := updateLostCount_rule judged ranked.threshold
        (by rw [nodes]; exact nodup) top
      have top' := top.same_shape shapes
      obtain ⟨sentList', lostOut, rfl, lossMarks⟩ := updateLostCount_marks judged
      have nodes' := lossMarks.map TcpTxItem.node fun _ => rfl
      refine ⟨⟨reached', ?_, ranked.clear, ranked.threshold, top'⟩, fun _ => ?_⟩
      · have same : sentList'.map TcpTxItem.node = b.sentList.map TcpTxItem.node :=
          nodes'.trans nodes
        exact ⟨same ▸ nodup, same ▸ fresh⟩
      · exact rule.of_marked marks
    · rw [if_neg some_] at judged
      cases judged
      refine ⟨⟨reached', ⟨?_, ?_⟩, ranked.clear, ranked.threshold, top⟩,
        fun more => absurd more some_⟩
      · exact nodes ▸ nodup
      · exact nodes ▸ fresh

end Update

section Send

variable {profile : BuildProfile} {b b' : TcpTxBuffer} {front rest old new : PacketList}
variable {item : TcpTxItem} {out : Sent} {n s : Nat} {now : Int} {seq head : SequenceNumber32}
variable {highestSack : Option Nat × SequenceNumber32}

/-- The range that is sent begins behind the sent data, or with an item that is not sacked. -/
def SendsUnsacked (b : TcpTxBuffer) (seq : SequenceNumber32) : Prop :=
  ∃ items < b.sentList.length + 1, seq = b.boundary items ∧
    ∀ item ∈ (b.sentList.drop items).head?, item.sacked = false

instance (b : TcpTxBuffer) (seq : SequenceNumber32) : Decidable (b.SendsUnsacked seq) :=
  inferInstanceAs (Decidable (∃ items < b.sentList.length + 1, _ ∧ _))

/-- Items that are not sacked may be cut and joined. -/
theorem TopSacked.replace (ranked : TopSacked head highestSack (front ++ (old ++ rest)))
    (oldFlags : ∀ x ∈ old, x.sacked = false) (newFlags : ∀ x ∈ new, x.sacked = false)
    (totals : total new = total old) : TopSacked head highestSack (front ++ (new ++ rest)) := by
  rcases exists_sacked rest with none_ | ⟨below, top, above, rfl, sacked, notAbove⟩
  · rcases exists_sacked front with none' | ⟨below, top, above, rfl, sacked, notAbove⟩
    · refine .inl ⟨ranked.none ?_, ?_⟩
      · simp only [forall_mem_append]
        exact ⟨none', oldFlags, none_⟩
      · simp only [forall_mem_append]
        exact ⟨none', newFlags, none_⟩
    · rw [append_assoc, cons_append] at ranked ⊢
      refine .inr ⟨below, top, _, rfl, sacked, ranked.cache sacked ?_, ?_⟩
      · simp only [forall_mem_append]
        exact ⟨notAbove, oldFlags, none_⟩
      · simp only [forall_mem_append]
        exact ⟨notAbove, newFlags, none_⟩
  · rw [← append_assoc, ← append_assoc] at ranked ⊢
    refine .inr ⟨_, top, above, rfl, sacked, ?_, notAbove⟩
    rw [ranked.cache sacked notAbove]
    simp [totals]

theorem TopSacked.append (ranked : TopSacked head highestSack front) (clear : item.sacked = false) :
    TopSacked head highestSack (front ++ [item]) := by
  rcases ranked with ⟨none_, notSacked⟩ | ⟨below, top, above, rfl, sacked, cache, notAbove⟩
  · refine .inl ⟨none_, ?_⟩
    rw [forall_mem_append, forall_mem_singleton]
    exact ⟨notSacked, clear⟩
  · rw [append_assoc, cons_append]
    refine .inr ⟨below, top, above ++ [item], rfl, sacked, cache, ?_⟩
    rw [forall_mem_append, forall_mem_singleton]
    exact ⟨notAbove, clear⟩

/-- An item that is not sacked is sent again. -/
theorem Ranked.resend (ranked : Ranked b) (sent : b.sentList = front ++ item :: rest)
    (fresh : item.sacked = false) (wanted : 0 < s)
    (run : b.getTransmittedSegment profile s (b.firstByteSeq.at (total front)) = some out)
    {x : TcpTxItem} (stamp : x = { out.item with lastSent := now })
    (reached : Reached { out.buffer with sentList := out.front ++ x :: out.rest }) :
    Ranked { out.buffer with sentList := out.front ++ x :: out.rest } := by
  obtain ⟨⟨_, _, _, holds⟩, -⟩ := ranked.reached
  obtain ⟨old, more, others, resends⟩ := getTransmittedSegment_resends run sent holds.starts
    ranked.reached.positive ranked.reached.near wanted fresh
  have distinct := (resends.stamp stamp).distinct sent ranked.nodes
  obtain ⟨before, -, rfl, after, frame, oldFlags, newFlags, totals, -⟩ := resends.stamp stamp
  have top := ranked.top
  rw [sent, before] at top
  have top' : TopSacked b.firstByteSeq b.highestSack (out.front ++ (x :: more ++ others)) := by
    refine top.replace (fun y member => (oldFlags y member).1.trans fresh) ?_ totals
    exact fun y member => (newFlags y member).1.trans fresh
  refine ⟨reached, ?_, ?_, ?_, ?_⟩
  · rw [after]
    exact distinct
  · rw [frame]
    exact ranked.clear
  · rw [frame]
    exact ranked.threshold
  · rw [after, frame]
    exact top'

/-- New data is sent. -/
theorem Ranked.sendNew (ranked : Ranked b) (run : b.getNewSegment profile s = some out)
    {x : TcpTxItem} (stamp : x = { out.item with lastSent := now })
    (reached : Reached { out.buffer with sentList := out.front ++ x :: out.rest }) :
    Ranked { out.buffer with sentList := out.front ++ x :: out.rest } := by
  have node : x.node = out.item.node := by rw [stamp]
  have sacked : x.sacked = out.item.sacked := by rw [stamp]
  simp only [getNewSegment, bind_returns, pure_returns] at run
  obtain ⟨p, picks, rfl⟩ := run
  have later := (getPacketFromList_reshape picks).2
  obtain ⟨clear, -⟩ := (getPacketFromList_reshape picks).1.clear ranked.clear
  simp only [forall_mem_append, forall_mem_cons] at clear
  obtain ⟨front, ⟨notSacked, -, -⟩, rest⟩ := clear
  refine ⟨reached, ?_, ?_, ranked.threshold, ranked.top.append (sacked.trans notSacked)⟩
  · rw [map_append, map_singleton, node]
    exact ranked.nodes.append later
  · exact forall_mem_append.mpr ⟨front, rest⟩

/-- Data is sent that is new or not sacked. -/
theorem Ranked.send (ranked : Ranked b) (sends : b.SendsUnsacked seq) {r : Option TcpTxItem}
    (run : b.copyFromSequence profile now n seq = some (r, b')) : Ranked b' := by
  have reached' : Reached b' := ranked.reached.call (c := .copyFromSequence now n seq) trivial
    (congrArg (Option.map Prod.snd) run)
  rcases copyFromSequence_cases run with ⟨-, rfl⟩ | ⟨s, out, wanted, -, inside, handed, -, rfl⟩
  · exact ranked
  obtain ⟨⟨_, _, _, holds⟩, near⟩ := ranked.reached
  have sentLe := holds.sentSize_le
  have sizes := holds.sentSize
  have half := halfMaxValue_32
  obtain ⟨items, -, rfl, first⟩ := sends
  have parts := take_append_drop items b.sentList
  have sentEnd : b.firstByteSeq.add b.sentSize = b.firstByteSeq.at b.sentSize := add_eq_at _ _
  have begin_ : b.boundary items = b.firstByteSeq.at (total (b.sentList.take items)) :=
    add_eq_at _ _
  have blockEnd : (b.firstByteSeq.at (total (b.sentList.take items))).add s =
      b.firstByteSeq.at (total (b.sentList.take items) + s : Nat) := at_add _ _ _
  have le : total (b.sentList.take items) ≤ b.sentSize := by
    have whole := congrArg total parts
    rw [total_append] at whole
    omega
  rw [begin_] at handed inside
  rw [sizeFromSequence_near near (by omega)] at inside
  cases last : b.sentList.drop items with
  | nil =>
    rw [last, append_nil] at parts
    rw [parts, ← sizes] at handed inside blockEnd
    rcases handOut_cases handed with ⟨within, -⟩ | ⟨-, new⟩
    · rw [sentEnd, blockEnd, ge_at_nat (by omega) (by omega), decide_eq_true_eq] at within
      omega
    · exact ranked.sendNew new rfl reached'
  | cons item rest =>
    rw [last] at parts first
    have pos : 0 < item.size := ranked.reached.positive item (by rw [← parts]; simp)
    have some_ : total (b.sentList.take items) < b.sentSize := by
      have whole := congrArg total parts
      rw [total_append, total_cons] at whole
      omega
    rcases handOut_cases handed with ⟨-, again⟩ | ⟨new, -⟩
    · exact ranked.resend parts.symm (first item rfl) wanted again rfl reached'
    · rw [sentEnd] at new
      have := (at_inj (by omega) (by omega)).mp new
      omega

theorem Ranked.add (ranked : Ranked b) (p : Packet) (near : (b.add p).2.size ≤ halfMaxValue 32) :
    Ranked (b.add p).2 := by
  have called : b.call .debug (.add p) = some (b.add p).2 := rfl
  have fits : b.Fits (.add p) := near
  have reached : Reached (b.add p).2 := ranked.reached.call fits called
  obtain ⟨nodup, fresh⟩ := ranked.nodes
  revert reached
  rw [TcpTxBuffer.add]
  split
  · split
    · intro reached
      refine ⟨reached, ⟨nodup, fun node member => Nat.lt_succ_of_lt (fresh node member)⟩, ?_,
        ranked.threshold, ranked.top⟩
      rw [forall_mem_append, forall_mem_singleton]
      exact ⟨ranked.clear, rfl, rfl, rfl⟩
    · exact fun _ => ranked
  · exact fun _ => ranked

end Send

section Discard

variable {profile : BuildProfile} {b b' : TcpTxBuffer} {now : Int} {seq : SequenceNumber32}

/-- An acknowledgement keeps `m_highestSack` at the highest sacked item. -/
theorem Ranked.discard (ranked : Ranked b) (inOrder : b.DiscardsInOrder seq)
    (run : b.discardUpTo profile now seq = some b') : Ranked b' := by
  have reached' : Reached b' := ranked.reached.call (c := .discardUpTo now seq) trivial run
  obtain ⟨⟨_, _, _, holds⟩, near⟩ := ranked.reached
  have sizes := holds.sentSize
  have sentLe := holds.sentSize_le
  have small := holds.size_lt
  have positive := ranked.reached.positive
  rw [TcpTxBuffer.discardUpTo] at run
  by_cases already : b.firstByteSeq.ge seq = true
  · rw [if_pos already] at run
    cases run
    exact ranked
  obtain ⟨le, settles⟩ := inOrder.resolve_left already
  rw [if_neg already] at run
  simp only [bind_returns, pure_returns] at run
  obtain ⟨b₁, loop, b₂, settle, _, -, _, -, rfl⟩ := run
  have dropped := discardLoop_dropped positive (by omega) (by omega) small loop
  obtain ⟨holds₁, size₁⟩ :=
    (discardLoop_contract now _ holds (.inr near) le_rfl).of_eq_some loop
  -- The loop has moved the head to `seq`, so acknowledging a FIN changes nothing more.
  have head : b₁.firstByteSeq = seq := dropped.head.trans (at_sub seq b.firstByteSeq)
  have fin : (if b₁.size = 0 then { b₁ with firstByteSeq := seq } else b₁) = b₁ := by
    split
    · rw [← head]
    · rfl
  rw [fin] at settle
  have near₁ : total b₁.sentList ≤ halfMaxValue 32 := by
    have := holds₁.sentSize_le
    have := holds₁.sentSize
    omega
  have settles₁ : SettlesInOrder b₁.sentList := by
    rcases dropped.left with ⟨-, nothing⟩ | ⟨front, item, item', rest, -, left, after, -, flag, -⟩
    · rw [nothing]
      trivial
    · rw [left] at settles
      rw [after]
      exact fun sacked => settles (flag.symm.trans sacked)
  have distinct : Distinct (b₁.sentList.map TcpTxItem.node) b.nextNode := by
    have distinct := ranked.nodes
    rcases dropped.left with ⟨-, nothing⟩ | ⟨front, item, item', rest, sent, -, after, node, -⟩
    · rw [nothing]
      exact ⟨nodup_nil, fun x member => absurd member not_mem_nil⟩
    · rw [sent, map_append, map_cons] at distinct
      rw [after, map_cons, node]
      exact distinct.suffix
  obtain ⟨list, highestSack, sackedOut, lostOut, retrans, rfl, nodes, top⟩ :=
    (ranked.top.dropped (by omega) (by omega) dropped).settleHead holds₁.starts
      (positive_append.mp holds₁.positive).1 near₁ settles₁ settle
  have settled_ : (if highestSack.2.le b₁.firstByteSeq then
        { b₁ with
          sentList := list, highestSack := (none, .ofNat 0), sackedOut, lostOut, retrans }
      else { b₁ with sentList := list, highestSack, sackedOut, lostOut, retrans }) =
      { b₁ with
        sentList := list, highestSack := settled b₁.firstByteSeq highestSack, sackedOut, lostOut,
        retrans } := by
    rw [settled]
    split
    · rfl
    · rfl
  rw [settled_] at reached' ⊢
  refine ⟨reached', ?_, ?_, ?_, top⟩
  · show Distinct (list.map TcpTxItem.node) b₁.nextNode
    rw [nodes, dropped.nextNode]
    exact distinct
  · show ∀ item ∈ b₁.appList, Clear item
    rw [dropped.appList]
    exact ranked.clear
  · show 1 ≤ b₁.dupAckThresh
    rw [dropped.threshold]
    exact ranked.threshold

end Discard

section Rule

variable {profile : BuildProfile} {b b' : TcpTxBuffer} {n : Nat}

/-- The call keeps `m_highestSack` at the highest sacked item. -/
def KeepsTop (b : TcpTxBuffer) : Call → Prop
  | .add p => (b.add p).2.size ≤ halfMaxValue 32
  | .copyFromSequence _ _ seq => b.SendsUnsacked seq
  | .update blocks => b.UpdatesInOrder blocks
  | .discardUpTo _ seq => b.DiscardsInOrder seq
  | _ => False

instance (b : TcpTxBuffer) : (c : Call) → Decidable (b.KeepsTop c)
  | .add _ => inferInstanceAs (Decidable (_ ≤ _))
  | .copyFromSequence _ _ seq => inferInstanceAs (Decidable (b.SendsUnsacked seq))
  | .update blocks => inferInstanceAs (Decidable (b.UpdatesInOrder blocks))
  | .discardUpTo _ seq => inferInstanceAs (Decidable (b.DiscardsInOrder seq))
  | .addRenoSack | .resetRenoSack | .markHeadAsLost | .deleteRetransmittedFlagFromHead
  | .setSentListLost _ | .resetSentList | .resetLastSegmentSent => instDecidableFalse

/-- When the call is an `Update` that returns a count above zero, it marks the items by the
rule. -/
def FollowsDupThresh (profile : BuildProfile) (b : TcpTxBuffer) (c : Call) : Prop :=
  ∀ blocks, c = .update blocks → ∀ n b', b.update profile blocks = some (n, b') → 0 < n →
    DupThreshRule b.dupAckThresh b.sentList b'.sentList

theorem Ranked.call {c : Call} (ranked : Ranked b) (keeps : b.KeepsTop c)
    (run : b.call profile c = some b') : Ranked b' := by
  cases c with
  | add p =>
    cases run
    exact ranked.add p keeps
  | copyFromSequence now n seq =>
    obtain ⟨⟨r, b₁⟩, copy, rfl⟩ := map_eq_some_iff.mp run
    exact ranked.send keeps copy
  | update blocks =>
    obtain ⟨⟨n, b₁⟩, update, rfl⟩ := map_eq_some_iff.mp run
    exact (ranked.update keeps update).1
  | discardUpTo now seq => exact ranked.discard keeps run
  | addRenoSack => exact absurd keeps id
  | resetRenoSack => exact absurd keeps id
  | markHeadAsLost => exact absurd keeps id
  | deleteRetransmittedFlagFromHead => exact absurd keeps id
  | setSentListLost resetSack => exact absurd keeps id
  | resetSentList => exact absurd keeps id
  | resetLastSegmentSent => exact absurd keeps id

theorem Ranked.start (seq : SequenceNumber32) {maxBuffer dupAckThresh : Nat}
    (fits : maxBuffer < 2 ^ 32) (threshold : 1 ≤ dupAckThresh) (segmentSize : Nat)
    (sackEnabled : Bool) : Ranked (start seq maxBuffer dupAckThresh segmentSize sackEnabled) where
  reached := Reached.start seq fits dupAckThresh segmentSize sackEnabled
  nodes := ⟨nodup_nil, nofun⟩
  clear _ member := absurd member not_mem_nil
  threshold := threshold
  top := .inl ⟨rfl, nofun⟩

end Rule

/-- In a run of calls that keep `m_highestSack`, every `Update` marks by the rule. -/
theorem update_followsDupThresh {profile : BuildProfile} (seq : SequenceNumber32)
    {maxBuffer dupAckThresh : Nat} (segmentSize : Nat) {calls : List Call}
    (fits : maxBuffer < 2 ^ 32) (threshold : 1 ≤ dupAckThresh)
    (keeps : Run.Meets (call profile) KeepsTop (start seq maxBuffer dupAckThresh segmentSize true)
      calls) :
    Run.Meets (call profile) (FollowsDupThresh profile)
      (start seq maxBuffer dupAckThresh segmentSize true) calls := by
  refine keeps.of_invariant (Ranked.start seq fits threshold segmentSize true)
    (fun _ _ _ ranked keeps run => ranked.call keeps run) ?_
  rintro b c ranked keeps blocks rfl n b' run some_
  exact (ranked.update keeps run).2 some_

/-- Five segments of two bytes are in flight. -/
def fiveInFlight : List Call :=
  [.add [1, 2, 3, 4, 5, 6, 7, 8, 9, 10], .copyFromSequence 0 2 (.ofNat 1),
    .copyFromSequence 0 2 (.ofNat 3), .copyFromSequence 0 2 (.ofNat 5),
    .copyFromSequence 0 2 (.ofNat 7), .copyFromSequence 0 2 (.ofNat 9)]

theorem update_followsDupThresh_inOrder :
    Run.Meets (call .debug) (FollowsDupThresh .debug) (start (.ofNat 1) 20 2 2 true)
      (fiveInFlight ++ [.update [(.ofNat 7, .ofNat 11)], .copyFromSequence 1 2 (.ofNat 1),
        .update [(.ofNat 3, .ofNat 5), (.ofNat 7, .ofNat 11)], .discardUpTo 2 (.ofNat 5),
        .update [(.ofNat 5, .ofNat 7)]]) :=
  update_followsDupThresh (.ofNat 1) 2 (by decide) (by decide) (by decide +kernel)

/-- `Update` sacks the last segment, and then the one directly below it. It takes that for the
highest one, and marks none of the segments with two sacked ones above them. -/
theorem update_loses_top :
    ¬ Run.Meets (call .debug) (FollowsDupThresh .debug) (start (.ofNat 1) 20 2 2 true)
      (fiveInFlight ++ [.update [(.ofNat 9, .ofNat 11)]] ++ [.update [(.ofNat 7, .ofNat 9)]]) := by
  intro meets
  have ran : (Run.exec (call .debug) (start (.ofNat 1) 20 2 2 true)
      (fiveInFlight ++ [.update [(.ofNat 9, .ofNat 11)]])).any (fun b =>
        (b.update .debug [(.ofNat 7, .ofNat 9)]).any fun r =>
          0 < r.1 ∧ ¬ DupThreshRule b.dupAckThresh b.sentList r.2.sentList) = true := by
    decide
  obtain ⟨b, run, holds⟩ := (Option.any_eq_true _ _).mp ran
  obtain ⟨⟨n, b'⟩, update, broken⟩ := (Option.any_eq_true _ _).mp holds
  obtain ⟨some_, broken⟩ := of_decide_eq_true broken
  exact broken ((meets.after run).1 _ rfl n b' update some_)

end Ns3.TcpTxBuffer
