import Ns3.Internet.TcpTxBuffer.TopSacked

/-!
# What the blocks of an option mark

The loops of `Update` in closed form. The items that become sacked, and with them the counters,
depend only on the set of the blocks. The order of the blocks is the order in which
`m_highestSack` sees the items.
-/

namespace Ns3.TcpTxBuffer

open SequenceNumber List Option

/-- One of the blocks names the item behind `front`. -/
def Named (head : SequenceNumber32) (blocks : SackList) (front : PacketList) (item : TcpTxItem) :
    Prop :=
  ∃ block ∈ blocks, Names head block front item
  deriving Decidable

/-- The item is not sacked, and one of the blocks names it. -/
def Sacks (head : SequenceNumber32) (blocks : SackList) (front : PacketList) (item : TcpTxItem) :
    Prop :=
  item.sacked = false ∧ Named head blocks front item
  deriving Decidable

/-- The items, which begin behind `front`, with those marked that the blocks name. -/
def sackNamed (head : SequenceNumber32) (blocks : SackList) : PacketList → PacketList → PacketList
  | _, [] => []
  | front, item :: rest =>
    (if Sacks head blocks front item then { item with lost := false, sacked :=
      true } else item) ::
      sackNamed head blocks (front ++ [item]) rest

/-- Those items with their positions. -/
def named (head : SequenceNumber32) (blocks : SackList) :
    PacketList → PacketList → List (Nat × TcpTxItem)
  | _, [] => []
  | front, item :: rest =>
    if Sacks head blocks front item then
      (total front, item) :: named head blocks (front ++ [item]) rest
    else named head blocks (front ++ [item]) rest

/-- The items that one block marks behind the blocks `done`. -/
def newly (head : SequenceNumber32) (done : SackList) (block : SackBlock) :
    PacketList → PacketList → List (Nat × TcpTxItem)
  | _, [] => []
  | front, item :: rest =>
    if Sacks head [block] front item ∧ ¬ Named head done front item then
      (total front, item) :: newly head done block (front ++ [item]) rest
    else newly head done block (front ++ [item]) rest

/-- The items that the blocks mark behind the blocks `done`, in the order in which they do. -/
def marksOf (head : SequenceNumber32) (done : SackList) (list : PacketList) :
    SackList → List (Nat × TcpTxItem)
  | [] => []
  | block :: later => newly head done block [] list ++ marksOf head (done ++ [block]) list later

/-- Mark some items one after the other. -/
def Sacking.marks (head : SequenceNumber32) (k : Sacking) (items : List (Nat × TcpTxItem)) :
    Sacking :=
  items.foldl (fun k m => k.mark m.2 (head.at m.1)) k

/-- In debug builds no item that a block names is sacked and lost. -/
def Agrees (profile : BuildProfile) (head : SequenceNumber32) (blocks : SackList) :
    PacketList → PacketList → Prop
  | _, [] => True
  | front, item :: rest =>
    (profile = .debug → item.sacked = true → Named head blocks front item → item.lost = false) ∧
      Agrees profile head blocks (front ++ [item]) rest

instance decidableAgrees (profile : BuildProfile) (head : SequenceNumber32) (blocks : SackList) :
    (front list : PacketList) → Decidable (Agrees profile head blocks front list)
  | _, [] => instDecidableTrue
  | front, item :: rest =>
    have := decidableAgrees profile head blocks (front ++ [item]) rest
    instDecidableAnd

section Closed

variable {profile : BuildProfile} {head : SequenceNumber32} {block : SackBlock}
variable {blocks blocks' done : SackList} {front rest list list' : PacketList} {item : TcpTxItem}
variable {k k' : Sacking} {sentSize : Nat}

theorem named_singleton : Named head [block] front item ↔ Names head block front item := by
  simp [Named]

theorem named_append :
    Named head (done ++ blocks) front item ↔
      Named head done front item ∨ Named head blocks front item := by
  simp [Named, or_and_right, exists_or]

theorem named_congr (same : ∀ block, block ∈ blocks ↔ block ∈ blocks') :
    Named head blocks front item ↔ Named head blocks' front item := by
  simp only [Named, same]

theorem sacks_congr (same : ∀ block, block ∈ blocks ↔ block ∈ blocks') :
    Sacks head blocks front item ↔ Sacks head blocks' front item :=
  and_congr_right fun _ => named_congr same

theorem Sacks.size (head : SequenceNumber32) (blocks : SackList) (front : PacketList)
    (item : TcpTxItem) :
    TcpTxItem.size (if Sacks head blocks front item then
      { item with lost := false, sacked := true } else item) = item.size := by
  split <;> rfl

/-- Where the walk of the block has stopped, the block names nothing. -/
theorem unreached_of_stop (done : SackList) (list : PacketList)
    (stops : ¬ Passes head block 0 front) :
    sackNamed head (done ++ [block]) front list = sackNamed head done front list ∧
      newly head done block front list = [] ∧ Agrees profile head [block] front list := by
  induction list generalizing front with
  | nil => exact ⟨rfl, rfl, trivial⟩
  | cons item rest ih =>
    have unnamed : ¬ Named head [block] front item := fun named =>
      stops (named_singleton.mp named).1
    obtain ⟨same, nothing, agrees⟩ := ih fun passes => stops (passes_append.mp passes).1
    refine ⟨?_, ?_, fun _ _ named => absurd named unnamed, agrees⟩
    · have sacks : Sacks head (done ++ [block]) front item ↔ Sacks head done front item :=
        and_congr_right fun _ => named_append.trans (or_iff_left unnamed)
      rw [sackNamed, sackNamed, same]
      simp only [sacks]
    · rw [newly, if_neg fun sacks => unnamed sacks.1.2]
      exact nothing

/-- The walk for one block behind the blocks `done`. -/
theorem sackBlock_iff (passes : Passes head block 0 front) :
    sackBlock profile block (sackNamed head done front list) (head.at (total front : Nat)) k =
        some (list', k') ↔
      Agrees profile head [block] front list ∧
        list' = sackNamed head (done ++ [block]) front list ∧
        k' = k.marks head (newly head done block front list) := by
  induction list generalizing front k list' with
  | nil =>
    simp only [sackNamed, sackBlock, newly, Agrees, Sacking.marks, foldl_nil, true_and,
      some.injEq, Prod.mk.injEq]
    exact and_congr eq_comm eq_comm
  | cons item rest ih =>
    have next : (head.at (total front : Nat)).add item.size =
        head.at (total (front ++ [item]) : Nat) := by
      rw [at_add, total_append, total_cons, total_nil, Nat.add_zero]
      rfl
    have goes : (Covers block (head.at (total front : Nat)) item ∨
        ((head.at (total front : Nat)).add item.size).gt block.2 = false) →
        Passes head block 0 (front ++ [item]) := by
      intro here
      refine passes_append.mpr ⟨passes, ?_, trivial⟩
      rwa [Nat.zero_add]
    -- After the item the walk goes on, with the new counts.
    have onward : ∀ {item' : TcpTxItem} {k₁ : Sacking} {f : PacketList × Sacking →
        Option (PacketList × Sacking)}, (∀ rest k, f (rest, k) = some (item' :: rest, k)) →
        Passes head block 0 (front ++ [item]) →
        ((sackBlock profile block (sackNamed head done (front ++ [item]) rest)
            (head.at (total (front ++ [item]) : Nat)) k₁).bind f = some (list', k') ↔
          Agrees profile head [block] (front ++ [item]) rest ∧
            list' = item' :: sackNamed head (done ++ [block]) (front ++ [item]) rest ∧
            k' = k₁.marks head (newly head done block (front ++ [item]) rest)) := by
      intro item' k₁ f marked passes'
      rw [bind_eq_some_iff]
      constructor
      · rintro ⟨⟨rest', k₂⟩, walk, last⟩
        rw [marked, some.injEq, Prod.mk.injEq] at last
        obtain ⟨rfl, rfl⟩ := last
        obtain ⟨agrees, rfl, rfl⟩ := (ih passes').mp walk
        exact ⟨agrees, rfl, rfl⟩
      · rintro ⟨agrees, rfl, rfl⟩
        exact ⟨(_, _), (ih passes').mpr ⟨agrees, rfl, rfl⟩, marked _ _⟩
    rw [sackNamed, sackBlock, Sacks.size, next, sackNamed, newly, Agrees]
    by_cases covers : Covers block (head.at (total front : Nat)) item
    · have covered : ((head.at (total front : Nat)).ge block.1 &&
          (head.at (total (front ++ [item]) : Nat)).le block.2) = true := next ▸ covers
      have names : Named head [block] front item := named_singleton.mpr ⟨passes, covers⟩
      have passes' := goes (.inl covers)
      simp only [covered, ↓reduceIte]
      cases sacked : item.sacked with
      | true =>
        have old : ∀ blocks, ¬ Sacks head blocks front item := fun _ sacks =>
          Bool.false_ne_true (sacks.1.symm.trans sacked)
        simp only [old, false_and, ↓reduceIte, sacked]
        refine bind_eq_some_iff.trans ?_
        simp only [nsAssert_eq_some, Bool.not_eq_true', exists_and_left, names, forall_const,
          and_assoc]
        exact and_congr_right fun _ => exists_const Unit |>.trans
          (onward (fun _ _ => rfl) passes')
      | false =>
        by_cases before : Named head done front item
        · have sacks : Sacks head done front item := ⟨sacked, before⟩
          have sacks' : Sacks head (done ++ [block]) front item :=
            ⟨sacked, named_append.mpr (.inl before)⟩
          simp only [sacks, sacks', before, not_true_eq_false, and_false, ↓reduceIte,
            Bool.not_false, nsAssert_true]
          refine (onward (fun _ _ => rfl) passes').trans (and_congr_left fun _ => ?_)
          exact (and_iff_right fun _ old => absurd old Bool.false_ne_true).symm
        · have notSacks : ¬ Sacks head done front item := fun sacks => before sacks.2
          have sacks' : Sacks head (done ++ [block]) front item :=
            ⟨sacked, named_append.mpr (.inr names)⟩
          have now : Sacks head [block] front item := ⟨sacked, names⟩
          simp only [notSacks, sacks', now, before, sacked, not_false_eq_true, and_self,
            ↓reduceIte, Bool.false_eq_true]
          refine (onward (fun _ _ => rfl) passes').trans
            (and_congr (and_iff_right ?_).symm Iff.rfl)
          exact fun _ old => absurd old id
    · have uncovered : ((head.at (total front : Nat)).ge block.1 &&
          (head.at (total (front ++ [item]) : Nat)).le block.2) = false :=
        Bool.eq_false_iff.mpr (next ▸ covers)
      have unnamed : ¬ Named head [block] front item := fun named =>
        covers (named_singleton.mp named).2
      have sacks : Sacks head (done ++ [block]) front item ↔ Sacks head done front item :=
        and_congr_right fun _ => named_append.trans (or_iff_left unnamed)
      have notNow : ¬ Sacks head [block] front item := fun sacks => unnamed sacks.2
      simp only [uncovered, Bool.false_eq_true, ↓reduceIte, notNow, false_and, sacks]
      cases past : (head.at (total (front ++ [item]) : Nat)).gt block.2 with
      | true =>
        simp only [↓reduceIte, Option.pure_def, some.injEq, Prod.mk.injEq]
        have stops : ¬ Passes head block 0 (front ++ [item]) := by
          intro passes'
          obtain ⟨-, covers' | before, -⟩ := passes_append.mp passes'
          · rw [Nat.zero_add] at covers'
            exact covers covers'
          · rw [Nat.zero_add, next, past] at before
            exact Bool.false_ne_true before.symm
        obtain ⟨same, nothing, agrees⟩ := unreached_of_stop done rest stops
        rw [same, nothing]
        refine Iff.trans (and_congr eq_comm eq_comm) (and_iff_right ⟨?_, agrees⟩).symm
        exact fun _ _ named => absurd named unnamed
      | false =>
        refine (onward (fun _ _ => rfl) (goes (.inr (next ▸ past)))).trans
          (and_congr_left fun _ => ?_)
        exact (and_iff_right fun _ _ named => absurd named unnamed).symm

theorem sackNamed_nil (head : SequenceNumber32) (front list : PacketList) :
    sackNamed head [] front list = list := by
  induction list generalizing front with
  | nil => rfl
  | cons item rest ih =>
    have unnamed : ¬ Sacks head [] front item := fun sacks => by
      obtain ⟨-, block, member, -⟩ := sacks
      exact not_mem_nil member
    rw [sackNamed, if_neg unnamed, ih]

theorem sackNamed_congr (same : ∀ block, block ∈ blocks ↔ block ∈ blocks') :
    sackNamed head blocks front list = sackNamed head blocks' front list := by
  induction list generalizing front with
  | nil => rfl
  | cons item rest ih =>
    rw [sackNamed, sackNamed, ih]
    simp only [sacks_congr same]

theorem named_of_congr (same : ∀ block, block ∈ blocks ↔ block ∈ blocks') :
    named head blocks front list = named head blocks' front list := by
  induction list generalizing front with
  | nil => rfl
  | cons item rest ih =>
    rw [named, named, ih]
    simp only [sacks_congr same]

theorem Agrees.mono (agrees : Agrees profile head blocks front list)
    (sub : ∀ block ∈ blocks', block ∈ blocks) : Agrees profile head blocks' front list := by
  induction list generalizing front with
  | nil => trivial
  | cons item rest ih =>
    obtain ⟨here, others⟩ := agrees
    refine ⟨fun debug sacked named => here debug sacked ?_, ih others⟩
    obtain ⟨block, member, names⟩ := named
    exact ⟨block, sub block member, names⟩

theorem agrees_append :
    Agrees profile head (done ++ blocks) front list ↔
      Agrees profile head done front list ∧ Agrees profile head blocks front list := by
  induction list generalizing front with
  | nil => exact (and_self_iff).symm
  | cons item rest ih =>
    rw [Agrees, Agrees, Agrees, ih, named_append]
    constructor
    · rintro ⟨here, first, second⟩
      exact ⟨⟨fun debug sacked named => here debug sacked (.inl named), first⟩,
        fun debug sacked named => here debug sacked (.inr named), second⟩
    · rintro ⟨⟨here, first⟩, here', second⟩
      exact ⟨fun debug sacked named => named.elim (here debug sacked) (here' debug sacked),
        first, second⟩

/-- The blocks `blocks` behind the blocks `done`, when all begin in the sent data. -/
theorem sackBlocks_iff (within : ∀ block ∈ blocks, (head.add sentSize).lt block.1 = false)
    {goesOn : Bool} :
    sackBlocks profile head sentSize blocks (sackNamed head done [] list) k =
        some (list', k', goesOn) ↔
      goesOn = true ∧ Agrees profile head blocks [] list ∧
        list' = sackNamed head (done ++ blocks) [] list ∧
        k' = k.marks head (marksOf head done list blocks) := by
  induction blocks generalizing k done with
  | nil =>
    have agrees : Agrees profile head [] [] list := by
      generalize ([] : PacketList) = front
      induction list generalizing front with
      | nil => trivial
      | cons item rest ih =>
        refine ⟨fun _ _ named => ?_, ih _⟩
        obtain ⟨block, member, -⟩ := named
        cases member
    simp only [sackBlocks, some.injEq, Prod.mk.injEq, append_nil, marksOf,
      Sacking.marks, foldl_nil]
    constructor
    · rintro ⟨rfl, rfl, rfl⟩
      exact ⟨rfl, agrees, rfl, rfl⟩
    · rintro ⟨rfl, -, rfl, rfl⟩
      exact ⟨rfl, rfl, rfl⟩
  | cons block later ih =>
    obtain ⟨here, others⟩ := forall_mem_cons.mp within
    have origin : head.at (total ([] : PacketList) : Nat) = head := at_zero head
    have begin_ : Passes head block 0 [] := trivial
    have both : Agrees profile head (block :: later) [] list ↔
        Agrees profile head [block] [] list ∧ Agrees profile head later [] list := by
      rw [← agrees_append]
      rfl
    have whole : done ++ block :: later = done ++ [block] ++ later := by simp
    rw [sackBlocks, here, if_neg Bool.false_ne_true, both, whole, marksOf, Sacking.marks,
      foldl_append]
    simp only [bind_returns]
    constructor
    · rintro ⟨⟨list₁, k₁⟩, walk, run⟩
      have walk : sackBlock profile block (sackNamed head done [] list)
          (head.at (total ([] : PacketList) : Nat)) k = some (list₁, k₁) := by
        rwa [origin]
      obtain ⟨agrees, rfl, rfl⟩ := (sackBlock_iff begin_).mp walk
      obtain ⟨rfl, agrees', rfl, rfl⟩ := (ih others).mp run
      exact ⟨rfl, ⟨agrees, agrees'⟩, rfl, rfl⟩
    · rintro ⟨rfl, ⟨agrees, agrees'⟩, rfl, rfl⟩
      refine ⟨(_, _), ?_, (ih others).mpr ⟨rfl, agrees', rfl, rfl⟩⟩
      have walk : sackBlock profile block (sackNamed head done [] list)
          (head.at (total ([] : PacketList) : Nat)) k = some (_, _) :=
        (sackBlock_iff begin_).mpr ⟨agrees, rfl, rfl⟩
      rwa [origin] at walk

end Closed

section Counts

variable {head : SequenceNumber32} {block : SackBlock} {blocks blocks' done : SackList}
variable {front list : PacketList} {k k' : Sacking} {items items' : List (Nat × TcpTxItem)}

/-- The counters of the walk. -/
def Sacking.counts (k : Sacking) : Nat × Nat × Nat := (k.lostOut, k.sackedOut, k.bytesSacked)

theorem Sacking.ext_counts (counts : k.counts = k'.counts)
    (highestSack : k.highestSack = k'.highestSack) : k = k' := by
  obtain ⟨lostOut, sackedOut, bytesSacked, top⟩ := k
  obtain ⟨lostOut', sackedOut', bytesSacked', top'⟩ := k'
  obtain ⟨rfl, rfl, rfl⟩ : lostOut = lostOut' ∧ sackedOut = sackedOut' ∧
      bytesSacked = bytesSacked' := by simpa [Sacking.counts] using counts
  exact congrArg _ highestSack

/-- They do not depend on the order of the marks. -/
theorem Sacking.counts_marks (perm : items.Perm items') (same : k.counts = k'.counts) :
    (k.marks head items).counts = (k'.marks head items').counts := by
  let count (c : Nat × Nat × Nat) (m : Nat × TcpTxItem) : Nat × Nat × Nat :=
    (if m.2.lost then UInt32.sub c.1 m.2.size else c.1, UInt32.add c.2.1 m.2.size,
      UInt32.add c.2.2 m.2.size)
  have folds : ∀ (items : List (Nat × TcpTxItem)) (k : Sacking),
      (k.marks head items).counts = items.foldl count k.counts := by
    intro items
    induction items with
    | nil => exact fun _ => rfl
    | cons m items ih => exact fun k => ih (k.mark m.2 (head.at m.1))
  have add_comm : ∀ a n m, UInt32.add (UInt32.add a n) m = UInt32.add (UInt32.add a m) n := by
    intro a n m
    unfold UInt32.add
    omega
  have sub_comm : ∀ a n m, UInt32.sub (UInt32.sub a n) m = UInt32.sub (UInt32.sub a m) n := by
    intro a n m
    unfold UInt32.sub
    omega
  rw [folds, folds, same]
  refine perm.foldl_eq' (fun m _ m' _ c => ?_) _
  refine Prod.ext ?_ (Prod.ext (add_comm _ _ _) (add_comm _ _ _))
  cases lost : m.2.lost with
  | false => simp [count, lost]
  | true =>
    cases lost' : m'.2.lost with
    | false => simp [count, lost, lost']
    | true => simpa [count, lost, lost'] using sub_comm _ _ _

theorem named_newly (head : SequenceNumber32) (done : SackList) (block : SackBlock)
    (front list : PacketList) :
    (named head done front list ++ newly head done block front list).Perm
      (named head (done ++ [block]) front list) := by
  induction list generalizing front with
  | nil => exact .nil
  | cons item rest ih =>
    have next := ih (front ++ [item])
    have split : Sacks head (done ++ [block]) front item ↔
        Sacks head done front item ∨ Sacks head [block] front item := by
      unfold Sacks
      rw [named_append, and_or_left]
    rw [named, newly, named]
    by_cases before : Sacks head done front item
    · rw [if_pos before, if_neg fun new => new.2 before.2, if_pos (split.mpr (.inl before))]
      exact next.cons _
    · rw [if_neg before]
      by_cases now : Sacks head [block] front item
      · rw [if_pos ⟨now, fun named => before ⟨now.1, named⟩⟩, if_pos (split.mpr (.inr now))]
        exact perm_middle.trans (next.cons _)
      · rw [if_neg fun new => now new.1, if_neg fun both => (split.mp both).elim before now]
        exact next

theorem named_nil (head : SequenceNumber32) (front list : PacketList) :
    named head [] front list = [] := by
  induction list generalizing front with
  | nil => rfl
  | cons item rest ih =>
    have unnamed : ¬ Sacks head [] front item := fun sacks => by
      obtain ⟨-, block, member, -⟩ := sacks
      exact not_mem_nil member
    rw [named, if_neg unnamed, ih]

theorem named_marksOf (head : SequenceNumber32) (done blocks : SackList) (list : PacketList) :
    (named head done [] list ++ marksOf head done list blocks).Perm
      (named head (done ++ blocks) [] list) := by
  induction blocks generalizing done with
  | nil => rw [marksOf, append_nil, append_nil]
  | cons block later ih =>
    have whole : done ++ block :: later = done ++ [block] ++ later := by simp
    rw [marksOf, ← append_assoc, whole]
    exact ((named_newly head done block [] list).append_right _).trans (ih (done ++ [block]))

theorem marksOf_perm (list : PacketList) (perm : blocks'.Perm blocks) :
    (marksOf head [] list blocks').Perm (marksOf head [] list blocks) := by
  have all : ∀ blocks, (marksOf head [] list blocks).Perm (named head blocks [] list) := by
    intro blocks
    have whole := named_marksOf head [] blocks list
    rwa [named_nil, nil_append, nil_append] at whole
  have same : named head blocks' [] list = named head blocks [] list :=
    named_of_congr fun _ => perm.mem_iff
  exact (all blocks').trans (same ▸ (all blocks).symm)

end Counts

section Pointer

variable {head : SequenceNumber32} {block : SackBlock} {blocks done : SackList}
variable {front list below above : PacketList} {item top : TcpTxItem} {limit pos : Nat}
variable {k : Sacking} {items : List (Nat × TcpTxItem)} {m : Nat × TcpTxItem}

/-- A position below the limit. -/
def Below (head : SequenceNumber32) (limit : Nat) (highestSack : Option Nat × SequenceNumber32) :
    Prop :=
  highestSack.1.isSome = true ∧ ∃ q < limit, highestSack.2 = head.at (q : Nat)

theorem highestSack_moves (low : NotAbove head (pos + item.size) k.highestSack)
    (near : pos + item.size ≤ halfMaxValue 32) :
    (k.mark item (head.at (pos : Nat))).highestSack = (some item.node, head.at (pos : Nat)) := by
  rcases low with none_ | ⟨q, le, cache⟩
  · simp [Sacking.mark, none_]
  · refine mark_moves ?_
    have next : (head.at (pos : Nat)).add item.size = head.at (pos + item.size : Nat) :=
      at_add _ _ _
    rw [cache, next, le_at_nat (by omega) (by omega)]
    exact decide_eq_true le

/-- Marks further below leave it. -/
theorem highestSack_stays_above {q : Nat} (known : k.highestSack.1.isSome = true)
    (cache : k.highestSack.2 = head.at (q : Nat)) (near : q ≤ halfMaxValue 32)
    (below : ∀ m ∈ items, m.1 + m.2.size < q) :
    (k.marks head items).highestSack = k.highestSack := by
  induction items generalizing k with
  | nil => rfl
  | cons m items ih =>
    obtain ⟨here, others⟩ := forall_mem_cons.mp below
    obtain ⟨node, node_⟩ := isSome_iff_exists.mp known
    have stays : (k.mark m.2 (head.at m.1)).highestSack = k.highestSack := by
      refine mark_stays node_ ?_
      have next : (head.at (m.1 : Nat)).add m.2.size = head.at (m.1 + m.2.size : Nat) :=
        at_add _ _ _
      rw [cache, next, le_at_nat (by omega) (by omega)]
      exact decide_eq_false (by omega)
    exact (ih (stays ▸ known) (stays ▸ cache) others).trans stays

theorem mark_cases (k : Sacking) (item : TcpTxItem) (pos : SequenceNumber32) :
    (k.mark item pos).highestSack = (some item.node, pos) ∨
      (k.mark item pos).highestSack = k.highestSack := ite_eq_or_eq _ _ _

theorem NotAbove.marks (low : NotAbove head limit k.highestSack)
    (below : ∀ m ∈ items, m.1 ≤ limit) : NotAbove head limit (k.marks head items).highestSack := by
  induction items generalizing k with
  | nil => exact low
  | cons m items ih =>
    obtain ⟨here, others⟩ := forall_mem_cons.mp below
    refine ih ?_ others
    rcases mark_cases k m.2 (head.at m.1) with moves | stays
    · rw [moves]
      exact .inr ⟨m.1, here, rfl⟩
    · rw [stays]
      exact low

theorem Below.marks (low : Below head limit k.highestSack) (below : ∀ m ∈ items, m.1 < limit) :
    Below head limit (k.marks head items).highestSack := by
  induction items generalizing k with
  | nil => exact low
  | cons m items ih =>
    obtain ⟨here, others⟩ := forall_mem_cons.mp below
    refine ih ?_ others
    rcases mark_cases k m.2 (head.at m.1) with moves | stays
    · rw [moves]
      exact ⟨rfl, m.1, here, rfl⟩
    · rw [stays]
      exact low

end Pointer

end Ns3.TcpTxBuffer
