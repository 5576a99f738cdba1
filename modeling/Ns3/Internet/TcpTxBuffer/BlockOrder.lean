import Ns3.Internet.TcpTxBuffer.Marks
import Ns3.Internet.TcpTxBuffer.DupThresh

/-!
# The order of the blocks of an option

The blocks of a SACK option may come in any order. `Update` marks the same items and counts the
same bytes for each of them. `m_highestSack` ends at the highest item that is marked, unless the
item directly below that one is marked later, and `UpdateLostCount` starts from there. A block
beyond the sent data ends the function where it stands.
-/

namespace Ns3.TcpTxBuffer

open SequenceNumber List Option

section Members

variable {head : SequenceNumber32} {block : SackBlock} {blocks done : SackList}
variable {front pre list below above : PacketList} {item top : TcpTxItem} {m : Nat × TcpTxItem}

theorem newly_append (head : SequenceNumber32) (done : SackList) (block : SackBlock)
    (front pre list : PacketList) :
    newly head done block front (pre ++ list) =
      newly head done block front pre ++ newly head done block (front ++ pre) list := by
  induction pre generalizing front with
  | nil => rw [append_nil, nil_append, newly, nil_append]
  | cons item pre ih =>
    have whole : front ++ item :: pre = front ++ [item] ++ pre := by simp
    rw [cons_append, newly, newly, ih, whole]
    split
    · rfl
    · rfl

theorem mem_newly :
    m ∈ newly head done block front list ↔ ∃ pre item post, list = pre ++ item :: post ∧
      m = (total (front ++ pre), item) ∧ Sacks head [block] (front ++ pre) item ∧
      ¬ Named head done (front ++ pre) item := by
  induction list generalizing front with
  | nil =>
    refine iff_of_false not_mem_nil ?_
    rintro ⟨pre, item, post, eq, -⟩
    exact append_ne_nil_of_right_ne_nil _ (cons_ne_nil _ _) eq.symm
  | cons x rest ih =>
    have later : m ∈ newly head done block (front ++ [x]) rest ↔
        ∃ pre item post, x :: rest = x :: pre ++ item :: post ∧
          m = (total (front ++ x :: pre), item) ∧ Sacks head [block] (front ++ x :: pre) item ∧
          ¬ Named head done (front ++ x :: pre) item := by
      rw [ih]
      simp
    have here : (∃ pre item post, x :: rest = pre ++ item :: post ∧
        m = (total (front ++ pre), item) ∧ Sacks head [block] (front ++ pre) item ∧
        ¬ Named head done (front ++ pre) item) ↔
        (m = (total front, x) ∧ Sacks head [block] front x ∧ ¬ Named head done front x) ∨
          m ∈ newly head done block (front ++ [x]) rest := by
      rw [later]
      constructor
      · rintro ⟨_ | ⟨y, pre⟩, item, post, eq, facts⟩
        · cases eq
          rw [append_nil] at facts
          exact .inl facts
        · cases eq
          exact .inr ⟨pre, item, post, rfl, facts⟩
      · rintro (facts | ⟨pre, item, post, eq, facts⟩)
        · exact ⟨[], x, rest, rfl, by rwa [append_nil]⟩
        · exact ⟨x :: pre, item, post, eq, facts⟩
    rw [here, newly]
    by_cases new : Sacks head [block] front x ∧ ¬ Named head done front x
    · rw [if_pos new, mem_cons]
      exact or_congr_left (and_iff_left new).symm
    · rw [if_neg new]
      exact (or_iff_right fun facts => new facts.2).symm

theorem mem_marksOf :
    m ∈ marksOf head done list blocks ↔ ∃ pre item post, list = pre ++ item :: post ∧
      m = (total pre, item) ∧ Sacks head blocks pre item ∧ ¬ Named head done pre item := by
  induction blocks generalizing done with
  | nil =>
    refine iff_of_false not_mem_nil ?_
    rintro ⟨pre, item, post, -, -, ⟨-, block, member, -⟩, -⟩
    exact not_mem_nil member
  | cons block later ih =>
    rw [marksOf, mem_append, mem_newly, ih]
    simp only [nil_append]
    have split : ∀ pre item, (Sacks head (block :: later) pre item ∧ ¬ Named head done pre item ↔
        (Sacks head [block] pre item ∧ ¬ Named head done pre item) ∨
          (Sacks head later pre item ∧ ¬ Named head (done ++ [block]) pre item)) := by
      intro pre item
      have both : Named head (block :: later) pre item ↔
          Named head [block] pre item ∨ Named head later pre item := by
        rw [← named_append]
        rfl
      unfold Sacks
      rw [named_append, both]
      tauto
    simp only [split, and_or_left, exists_or]

/-- An item of a list is another one, or lies below it, or lies above it. -/
theorem same_or_below_or_above (eq : list = pre ++ item :: front)
    (eq' : list = below ++ top :: above) :
    (pre = below ∧ item = top) ∨ (∃ post, below = pre ++ item :: post) ∨
      ∃ post, pre = below ++ top :: post ∧ above = post ++ item :: front := by
  rcases append_eq_append_iff.mp (eq.symm.trans eq') with
    ⟨between, rfl, tail⟩ | ⟨between, rfl, tail⟩
  · cases between with
    | nil => exact .inl ⟨(append_nil _).symm, (List.cons.inj tail).1⟩
    | cons x between =>
      obtain ⟨rfl, -⟩ := List.cons.inj tail
      exact .inr (.inl ⟨between, rfl⟩)
  · cases between with
    | nil => exact .inl ⟨append_nil _, (List.cons.inj tail).1.symm⟩
    | cons x between =>
      obtain ⟨rfl, above_⟩ := List.cons.inj tail
      exact .inr (.inr ⟨between, rfl, above_⟩)

end Members

section Top

variable {head : SequenceNumber32} {block : SackBlock} {blocks done : SackList}
variable {list below above pre : PacketList} {item top : TcpTxItem} {m : Nat × TcpTxItem}
variable {k : Sacking} {q : Nat}

/-- The blocks mark no item above the highest one. -/
theorem mem_marksOf_top (quiet : NamesSacked head blocks (below ++ [top]) above)
    (member : m ∈ marksOf head done (below ++ top :: above) blocks) :
    (m = (total below, top) ∧ Sacks head blocks below top ∧ ¬ Named head done below top) ∨
      ∃ pre post, below = pre ++ m.2 :: post ∧ m.1 = total pre ∧
        Sacks head blocks pre m.2 ∧ ¬ Named head done pre m.2 := by
  obtain ⟨pre, item, post, eq, rfl, sacks, fresh⟩ := (mem_marksOf).mp member
  rcases same_or_below_or_above eq rfl with ⟨rfl, rfl⟩ | ⟨between, below_⟩ |
    ⟨between, rfl, above_⟩
  · exact .inl ⟨rfl, sacks, fresh⟩
  · exact .inr ⟨pre, between, below_, rfl, sacks, fresh⟩
  · have unnamed := quiet.at between item post above_ sacks.1
    obtain ⟨block, member, names⟩ := sacks.2
    refine absurd ?_ (unnamed block member)
    rwa [append_assoc]

theorem mem_marksOf_below (quiet : NamesSacked head blocks (below ++ [top]) above)
    (before : Named head done below top)
    (member : m ∈ marksOf head done (below ++ top :: above) blocks) :
    ∃ pre post, below = pre ++ m.2 :: post ∧ m.1 = total pre ∧
      Sacks head blocks pre m.2 ∧ ¬ Named head done pre m.2 :=
  (mem_marksOf_top quiet member).resolve_left fun same => same.2.2 before

/-- Where `m_highestSack` is the highest item that the blocks name, it stays there if and only if
they do not mark the item directly below. -/
theorem marks_stay_iff (quiet : NamesSacked head blocks (below ++ [top]) above)
    (before : Named head done below top) (positive : Positive (below ++ top :: above))
    (near : total below ≤ halfMaxValue 32)
    (cache : k.highestSack = (some top.node, head.at (total below : Nat))) :
    (k.marks head (marksOf head done (below ++ top :: above) blocks)).highestSack =
        (some top.node, head.at (total below : Nat)) ↔
      ∀ pre item, below = pre ++ [item] → item.sacked = false → ¬ Named head done pre item →
        ¬ Named head blocks pre item := by
  have half := halfMaxValue_32
  have sizes : ∀ m ∈ marksOf head done (below ++ top :: above) blocks,
      m.1 < total below ∧ m.1 + m.2.size ≤ total below := by
    intro m member
    obtain ⟨pre, post, rfl, place, -, -⟩ := mem_marksOf_below quiet before member
    have here := positive m.2 (by simp)
    rw [total_append, total_cons]
    omega
  by_cases last : ∃ m ∈ marksOf head done (below ++ top :: above) blocks,
      m.1 + m.2.size = total below
  · obtain ⟨m, member, ends⟩ := last
    refine iff_of_false ?_ ?_
    · intro same
      obtain ⟨first, later, order⟩ := append_of_mem member
      rw [order] at sizes same
      -- The mark moves `m_highestSack` down, and later ones keep it there.
      have low : NotAbove head (m.1 + m.2.size) (k.marks head first).highestSack := by
        refine NotAbove.marks (.inr ⟨total below, ends.ge, by rw [cache]⟩) ?_
        intro other member
        rw [ends]
        exact (sizes other (mem_append_left _ member)).1.le
      have moved := highestSack_moves low (ends.trans_le near)
      have down : Below head (total below)
          ((k.marks head first).mark m.2 (head.at (m.1 : Nat))).highestSack := by
        rw [moved]
        exact ⟨rfl, m.1, (sizes m (by simp)).1, rfl⟩
      obtain ⟨-, q, less, cache'⟩ := down.marks fun other (member : other ∈ later) =>
        (sizes other (by simp [member])).1
      have whole : k.marks head (first ++ m :: later) =
          ((k.marks head first).mark m.2 (head.at (m.1 : Nat))).marks head later := by
        simp [Sacking.marks]
      rw [← whole, same] at cache'
      have := (at_inj (by omega) (by omega)).mp cache'
      omega
    · intro none_
      obtain ⟨pre, post, rfl, place, sacks, fresh⟩ := mem_marksOf_below quiet before member
      rw [total_append, total_cons, ← place] at ends
      cases post with
      | nil => exact none_ pre m.2 rfl sacks.1 fresh sacks.2
      | cons x post =>
        have := positive x (by simp)
        rw [total_cons] at ends
        omega
  · have short : ∀ m ∈ marksOf head done (below ++ top :: above) blocks,
        m.1 + m.2.size < total below := fun m member =>
      Nat.lt_of_le_of_ne (sizes m member).2 fun ends => last ⟨m, member, ends⟩
    have known : k.highestSack.1.isSome = true := by rw [cache]; rfl
    have stays := highestSack_stays_above known (congrArg Prod.snd cache) near short
    refine iff_of_true (stays.trans cache) ?_
    rintro pre item rfl fresh notBefore named
    refine last ⟨(total pre, item), (mem_marksOf).mpr ?_, by simp⟩
    exact ⟨pre, item, top :: above, by simp, rfl, ⟨fresh, named⟩, notBefore⟩

/-- Where `m_highestSack` lies beyond all items that the blocks name, it stays. -/
theorem marks_stay_above (quiet : NamesSacked head blocks (below ++ [top]) above)
    (positive : Positive (below ++ top :: above)) (known : k.highestSack.1.isSome = true)
    (cache : k.highestSack.2 = head.at (q : Nat)) (near : q ≤ halfMaxValue 32)
    (beyond : total below + top.size < q) :
    (k.marks head (marksOf head done (below ++ top :: above) blocks)).highestSack =
      k.highestSack := by
  refine highestSack_stays_above known cache near fun m member => ?_
  rcases mem_marksOf_top quiet member with ⟨rfl, -⟩ | ⟨pre, post, rfl, place, -⟩
  · exact beyond
  · rw [total_append, total_cons] at beyond
    omega

theorem NamesSacked.mono {blocks' : SackList} {front : PacketList}
    (names : NamesSacked head blocks front list) (sub : ∀ block ∈ blocks', block ∈ blocks) :
    NamesSacked head blocks' front list := by
  induction list generalizing front with
  | nil => trivial
  | cons item rest ih =>
    exact ⟨fun fresh block member => names.1 fresh block (sub block member), ih names.2⟩

theorem newly_nothing {front : PacketList} (names : NamesSacked head blocks front list)
    (member : block ∈ blocks) : newly head done block front list = [] := by
  refine eq_nil_iff_forall_not_mem.mpr fun m marked => ?_
  obtain ⟨pre, item, post, eq, -, sacks, -⟩ := (mem_newly).mp marked
  exact names.at pre item post eq sacks.1 block member (named_singleton.mp sacks.2)

theorem inTime_of_none {p r : SackBlock → Prop} (none_ : ∀ block ∈ blocks, ¬ p block) :
    InTime p r blocks := by
  induction blocks with
  | nil => trivial
  | cons block later ih =>
    obtain ⟨-, others⟩ := forall_mem_cons.mp none_
    exact .inr ⟨fun _ => others, ih others⟩

/-- Where `m_highestSack` does not lie beyond the highest item that the blocks name, it ends there
if and only if no block marks the item directly below later. -/
theorem marks_top_iff (quiet : NamesSacked head blocks (below ++ [top]) above)
    (sacks : Sacks head blocks below top) (fresh : ¬ Named head done below top)
    (positive : Positive (below ++ top :: above)) (near : total below + top.size ≤ halfMaxValue 32)
    (low : NotAbove head (total below + top.size) k.highestSack) :
    (k.marks head (marksOf head done (below ++ top :: above) blocks)).highestSack =
        (some top.node, head.at (total below : Nat)) ↔
      ∀ pre item, below = pre ++ [item] → item.sacked = false → ¬ Named head done pre item →
        InTime (fun block => Names head block pre item) (fun block => Names head block below top)
          blocks := by
  induction blocks generalizing done k with
  | nil =>
    obtain ⟨-, block, member, -⟩ := sacks
    cases member
  | cons block later ih =>
    have quiet_ : NamesSacked head later (below ++ [top]) above :=
      quiet.mono fun other member => mem_cons_of_mem block member
    have nothing : newly head done block (below ++ [top]) above = [] :=
      newly_nothing quiet mem_cons_self
    have low₁ : NotAbove head (total below + top.size)
        (k.marks head (newly head done block [] below)).highestSack := by
      refine low.marks fun m member => ?_
      obtain ⟨pre, item, post, rfl, rfl, -⟩ := (mem_newly).mp member
      rw [nil_append, total_append]
      omega
    have order : newly head done block [] (below ++ top :: above) =
        newly head done block [] below ++ newly head done block below (top :: above) :=
      newly_append head done block [] below (top :: above)
    rw [marksOf, order, newly, nothing]
    by_cases names : Names head block below top
    · have here : Sacks head [block] below top := ⟨sacks.1, named_singleton.mpr names⟩
      have moved := highestSack_moves low₁ near
      have before : Named head (done ++ [block]) below top := named_append.mpr (.inr here.2)
      rw [if_pos ⟨here, fresh⟩]
      have stay := marks_stay_iff quiet_ before positive (by omega) moved
      have whole : k.marks head (newly head done block [] below ++ [(total below, top)] ++
            marksOf head (done ++ [block]) (below ++ top :: above) later) =
          ((k.marks head (newly head done block [] below)).mark top
            (head.at (total below : Nat))).marks head
              (marksOf head (done ++ [block]) (below ++ top :: above) later) := by
        simp [Sacking.marks]
      rw [whole, stay]
      refine forall_congr' fun pre => forall_congr' fun item => imp_congr_right fun eq =>
        imp_congr_right fun unsacked => ?_
      rw [named_append, named_singleton, InTime]
      constructor
      · intro none_ notBefore
        by_cases now : Names head block pre item
        · exact .inl now
        · have unnamed := none_ fun either => either.elim notBefore now
          have each : ∀ other ∈ later, ¬ Names head other pre item :=
            fun other member names => unnamed ⟨other, member, names⟩
          exact .inr ⟨fun _ => each, inTime_of_none each⟩
      · rintro inTime neither ⟨other, member, names'⟩
        rw [not_or] at neither
        exact ((inTime neither.1).resolve_left neither.2).1 names other member names'
    · have unnamed : ¬ Named head [block] below top := fun named => names (named_singleton.mp named)
      rw [if_neg fun new => unnamed new.1.2, append_nil]
      have sacks' : Sacks head later below top := by
        obtain ⟨unsacked, other, member, names'⟩ := sacks
        rcases mem_cons.mp member with rfl | member
        · exact absurd names' names
        · exact ⟨unsacked, other, member, names'⟩
      have fresh' : ¬ Named head (done ++ [block]) below top := fun named =>
        (named_append.mp named).elim fresh unnamed
      have next := ih quiet_ sacks' fresh' low₁
      have whole : k.marks head (newly head done block [] below ++
            marksOf head (done ++ [block]) (below ++ top :: above) later) =
          (k.marks head (newly head done block [] below)).marks head
            (marksOf head (done ++ [block]) (below ++ top :: above) later) := by
        simp [Sacking.marks]
      rw [whole, next]
      refine forall_congr' fun pre => forall_congr' fun item => imp_congr_right fun eq =>
        imp_congr_right fun unsacked => ?_
      rw [named_append, named_singleton, InTime]
      constructor
      · intro inTime notBefore
        by_cases now : Names head block pre item
        · exact .inl now
        · exact .inr ⟨fun top => absurd top names,
            inTime fun either => either.elim notBefore now⟩
      · rintro inTime neither
        rw [not_or] at neither
        exact ((inTime neither.1).resolve_left neither.2).2

end Top

section Orders

variable {profile : BuildProfile} {head : SequenceNumber32} {blocks blocks' : SackList}
variable {front list list' : PacketList} {k k' : Sacking} {sentSize : Nat}
variable {C : PacketList → TcpTxItem → TcpTxItem → PacketList → Prop} {p r : SackBlock → Prop}

/-- The property holds of all neighbours, with the items below and above them. -/
def Neighbours (C : PacketList → TcpTxItem → TcpTxItem → PacketList → Prop) :
    PacketList → PacketList → Prop
  | front, item :: next :: rest =>
    C front item next rest ∧ Neighbours C (front ++ [item]) (next :: rest)
  | _, _ => True

instance decidableNeighbours (C : PacketList → TcpTxItem → TcpTxItem → PacketList → Prop)
    [∀ front item next rest, Decidable (C front item next rest)] :
    (front list : PacketList) → Decidable (Neighbours C front list)
  | _, [] => instDecidableTrue
  | _, [_] => instDecidableTrue
  | front, item :: next :: rest =>
    have := decidableNeighbours C (front ++ [item]) (next :: rest)
    instDecidableAnd

theorem neighbours_iff : Neighbours C front list ↔ ∀ pre item next rest,
    list = pre ++ item :: next :: rest → C (front ++ pre) item next rest := by
  induction list generalizing front with
  | nil =>
    refine iff_of_true trivial fun pre item next rest eq => ?_
    exact absurd eq.symm (append_ne_nil_of_right_ne_nil _ (cons_ne_nil _ _))
  | cons x tail ih =>
    cases tail with
    | nil =>
      refine iff_of_true trivial fun pre item next rest eq => ?_
      have length := congrArg List.length eq
      simp at length
      omega
    | cons y tail =>
      rw [Neighbours, ih]
      constructor
      · rintro ⟨here, later⟩ (_ | ⟨z, pre⟩) item next rest eq
        · obtain ⟨rfl, same⟩ := List.cons.inj eq
          cases same
          rwa [append_nil]
        · obtain ⟨rfl, same⟩ := List.cons.inj eq
          have there := later pre item next rest same
          rwa [append_assoc] at there
      · intro all
        refine ⟨by simpa using all [] x y tail rfl, fun pre item next rest eq => ?_⟩
        have there := all (x :: pre) item next rest (by rw [eq]; rfl)
        rwa [append_assoc]

/-- The highest item that the blocks mark is below `m_highestSack`, or the one directly below it is
not marked, or all blocks that name the first name the second. -/
def TopFree (head : SequenceNumber32) (highestSack : Option Nat × SequenceNumber32)
    (blocks : SackList) (front : PacketList) (item top : TcpTxItem) (above : PacketList) : Prop :=
  NamesSacked head blocks (front ++ [item, top]) above → Sacks head blocks (front ++ [item]) top →
    (highestSack.1.isSome = true ∧
      highestSack.2.le (head.at (total (front ++ [item, top]) : Nat)) = false) ∨
    ¬ Sacks head blocks front item ∨
    ∀ block ∈ blocks, Names head block (front ++ [item]) top → Names head block front item
  deriving Decidable

theorem inTime_of_each (each : ∀ block ∈ blocks, r block → p block) : InTime p r blocks := by
  induction blocks with
  | nil => trivial
  | cons block later ih =>
    obtain ⟨here, others⟩ := forall_mem_cons.mp each
    by_cases named : p block
    · exact .inl named
    · exact .inr ⟨fun other => absurd (here other) named, ih others⟩

/-- A highest item that is marked, unless nothing is. -/
theorem exists_marked (head : SequenceNumber32) (blocks : SackList) (front list : PacketList) :
    NamesSacked head blocks front list ∨ ∃ below top above, list = below ++ top :: above ∧
      Sacks head blocks (front ++ below) top ∧
      NamesSacked head blocks (front ++ below ++ [top]) above := by
  induction list generalizing front with
  | nil => exact .inl trivial
  | cons item rest ih =>
    rcases ih (front ++ [item]) with none_ | ⟨below, top, above, rfl, sacks, quiet⟩
    · by_cases here : Sacks head blocks front item
      · refine .inr ⟨[], item, rest, rfl, ?_, ?_⟩
        · rwa [append_nil]
        · rwa [append_nil]
      · refine .inl ⟨fun fresh block member names => ?_, none_⟩
        exact here ⟨fresh, block, member, names⟩
    · refine .inr ⟨item :: below, top, above, rfl, ?_, ?_⟩
      · rwa [append_assoc] at sacks
      · rwa [append_assoc front [item] below] at quiet

theorem marksOf_nothing (none_ : NamesSacked head blocks [] list) :
    marksOf head [] list blocks = [] := by
  refine eq_nil_iff_forall_not_mem.mpr fun m marked => ?_
  obtain ⟨pre, item, post, eq, -, ⟨fresh, block, member, names⟩, -⟩ := (mem_marksOf).mp marked
  exact none_.at pre item post eq fresh block member names

theorem not_named_nil {item : TcpTxItem} : ¬ Named head [] front item := by
  rintro ⟨block, member, -⟩
  exact not_mem_nil member

/-- Where `m_highestSack` ends when the item `top` is the highest one that the blocks mark. -/
theorem ends_at_top_iff {pre above : PacketList} {item top : TcpTxItem}
    (positive : Positive (pre ++ item :: top :: above))
    (near : total (pre ++ item :: top :: above) ≤ halfMaxValue 32)
    (low : NotAbove head (total (pre ++ [item]) + top.size) k.highestSack)
    (fresh : item.sacked = false) (quiet : NamesSacked head blocks (pre ++ [item, top]) above)
    (sacks : Sacks head blocks (pre ++ [item]) top) :
    (k.marks head (marksOf head [] (pre ++ item :: top :: above) blocks)).highestSack =
        (some top.node, head.at (total (pre ++ [item]) : Nat)) ↔
      InTime (fun block => Names head block pre item)
        (fun block => Names head block (pre ++ [item]) top) blocks := by
  have eq : pre ++ item :: top :: above = pre ++ [item] ++ top :: above := by simp
  have quiet' : NamesSacked head blocks (pre ++ [item] ++ [top]) above := by rwa [append_assoc]
  rw [eq] at positive near ⊢
  rw [marks_top_iff quiet' sacks not_named_nil positive ?_ low]
  · constructor
    · exact fun inTime => inTime pre item rfl fresh not_named_nil
    · rintro inTime pre' item' same - -
      obtain ⟨rfl, last⟩ := append_inj' same rfl
      obtain ⟨rfl, -⟩ := List.cons.inj last
      exact inTime
  · rw [total_append, total_cons] at near
    omega

/-- `m_highestSack` is beyond a position, or not above it. -/
theorem beyond_or_low {limit : Nat} (near : limit ≤ halfMaxValue 32)
    (pointer : NotAbove head (halfMaxValue 32) k.highestSack) :
    ((k.highestSack.1.isSome = true ∧ k.highestSack.2.le (head.at (limit : Nat)) = false) ∧
      ∃ q ≤ halfMaxValue 32, limit < q ∧ k.highestSack.2 = head.at (q : Nat)) ∨
    (¬ (k.highestSack.1.isSome = true ∧ k.highestSack.2.le (head.at (limit : Nat)) = false) ∧
      NotAbove head limit k.highestSack) := by
  rcases pointer with none_ | ⟨q, le, cache⟩
  · refine .inr ⟨fun known => ?_, .inl none_⟩
    rw [none_] at known
    exact absurd known.1 Bool.false_ne_true
  · have order : k.highestSack.2.le (head.at (limit : Nat)) = decide (q ≤ limit) := by
      rw [cache, le_at_nat (by omega) (by omega)]
    rw [order]
    by_cases low : q ≤ limit
    · refine .inr ⟨fun beyond => ?_, .inr ⟨q, low, cache⟩⟩
      exact absurd low (of_decide_eq_false beyond.2)
    · cases known : k.highestSack.1 with
      | none => exact .inr ⟨fun beyond => Bool.false_ne_true beyond.1, .inl known⟩
      | some node => exact .inl ⟨⟨rfl, decide_eq_false low⟩, q, le, by omega, cache⟩

/-- `m_highestSack` ends at the same place for each order of the blocks. -/
theorem pointer_orderFree_iff (positive : Positive list) (near : total list ≤ halfMaxValue 32)
    (pointer : NotAbove head (halfMaxValue 32) k.highestSack) :
    (∀ blocks', blocks'.Perm blocks →
      (k.marks head (marksOf head [] list blocks')).highestSack =
        (k.marks head (marksOf head [] list blocks)).highestSack) ↔
      Neighbours (TopFree head k.highestSack blocks) [] list := by
  rw [neighbours_iff]
  simp only [nil_append]
  constructor
  · rintro same pre item top above rfl quiet sacks
    have limit : total (pre ++ [item, top]) = total (pre ++ [item]) + top.size := by
      simp only [total_append, total_cons, total_nil]
      omega
    have within : total (pre ++ [item]) + top.size ≤ halfMaxValue 32 := by
      simp only [total_append, total_cons, total_nil] at near ⊢
      omega
    rw [limit]
    rcases beyond_or_low within pointer with ⟨beyond, -⟩ | ⟨-, low⟩
    · exact .inl beyond
    by_contra bad
    rw [not_or, not_or, not_not] at bad
    obtain ⟨-, ⟨fresh, c, memC, namesItem⟩, notEach⟩ := bad
    push Not at notEach
    obtain ⟨b, memB, namesTop, notItem⟩ := notEach
    have ends : ∀ blocks', blocks'.Perm blocks →
        ((k.marks head (marksOf head [] (pre ++ item :: top :: above) blocks')).highestSack =
          (some top.node, head.at (total (pre ++ [item]) : Nat)) ↔ _) := fun blocks' perm =>
      ends_at_top_iff positive near low fresh (quiet.mono fun _ member => perm.subset member)
        ((sacks_congr fun _ => perm.mem_iff).mpr sacks)
    have first := (List.perm_cons_erase memB).symm
    have second := (List.perm_cons_erase memC).symm
    have late : ¬ InTime (fun block => Names head block pre item)
        (fun block => Names head block (pre ++ [item]) top) (b :: blocks.erase b) := by
      rintro (names | ⟨unnamed, -⟩)
      · exact notItem names
      · refine unnamed namesTop c ?_ namesItem
        exact (mem_erase_of_ne fun eq : c = b => notItem (eq ▸ namesItem)).mpr memC
    refine late ((ends _ first).mp ?_)
    rw [same _ first, ← same _ second]
    exact (ends _ second).mpr (.inl namesItem)
  · intro free blocks' perm
    rcases exists_marked head blocks [] list with none_ | ⟨below, top, above, rfl, sacks, quiet⟩
    · rw [marksOf_nothing none_, marksOf_nothing (none_.mono fun _ member => perm.subset member)]
    rw [nil_append] at sacks quiet
    have within : total below + top.size ≤ halfMaxValue 32 := by
      rw [total_append, total_cons] at near
      omega
    have quiet' : NamesSacked head blocks' (below ++ [top]) above :=
      quiet.mono fun _ member => perm.subset member
    rcases beyond_or_low within pointer with ⟨beyond, q, le, less, cache⟩ | ⟨notBeyond, low⟩
    · rw [marks_stay_above quiet positive beyond.1 cache le less,
        marks_stay_above quiet' positive beyond.1 cache le less]
    have inTime : ∀ blocks', blocks'.Perm blocks → ∀ pre item, below = pre ++ [item] →
        item.sacked = false → InTime (fun block => Names head block pre item)
          (fun block => Names head block below top) blocks' := by
      rintro blocks' perm pre item rfl fresh
      have limit : total (pre ++ [item, top]) = total (pre ++ [item]) + top.size := by
        simp only [total_append, total_cons, total_nil]
        omega
      rcases free pre item top above (by simp) (by simpa using quiet) sacks with
        beyond | unmarked | each
      · rw [limit] at beyond
        exact absurd beyond notBeyond
      · refine inTime_of_none fun block member names => unmarked ⟨fresh, block, ?_, names⟩
        exact perm.subset member
      · exact inTime_of_each fun block member => each block (perm.subset member)
    rw [(marks_top_iff quiet sacks not_named_nil positive within low).mpr
        fun pre item eq fresh _ => inTime blocks .rfl pre item eq fresh,
      (marks_top_iff quiet' ((sacks_congr fun _ => perm.mem_iff).mpr sacks) not_named_nil positive
        within low).mpr fun pre item eq fresh _ => inTime blocks' perm pre item eq fresh]

/-- A block beyond the sent data ends the loop with what the blocks before it have marked. -/
theorem sackBlocks_beyond (some_ : ∃ block ∈ blocks, (head.add sentSize).lt block.1 = true) :
    sackBlocks profile head sentSize blocks list k =
      (sackBlocks profile head sentSize (processed head sentSize blocks) list k).map
        fun out => (out.1, out.2.1, false) := by
  induction blocks generalizing list k with
  | nil =>
    obtain ⟨block, member, -⟩ := some_
    cases member
  | cons block later ih =>
    cases beyond : (head.add sentSize).lt block.1 with
    | true =>
      have nothing : processed head sentSize (block :: later) = [] := by
        rw [processed, takeWhile_cons_of_neg (by simp [beyond])]
      have stops : sackBlocks profile head sentSize (block :: later) list k =
          some (list, k, false) := by
        rw [sackBlocks, if_pos beyond]
        rfl
      rw [nothing, stops]
      rfl
    | false =>
      have here : processed head sentSize (block :: later) =
          block :: processed head sentSize later := by
        rw [processed, takeWhile_cons_of_pos (by rw [beyond]; rfl), processed]
      have later_ : ∃ block ∈ later, (head.add sentSize).lt block.1 = true := by
        obtain ⟨other, member, is⟩ := some_
        rcases mem_cons.mp member with rfl | member
        · exact absurd (beyond.symm.trans is) Bool.false_ne_true
        · exact ⟨other, member, is⟩
      rw [here, sackBlocks, sackBlocks, beyond, if_neg Bool.false_ne_true,
        if_neg Bool.false_ne_true]
      simp only [bind_eq_bind, Option.map_bind]
      congr 1
      funext out
      exact ih later_

/-- The blocks that do not begin beyond the sent data. -/
def inside (head : SequenceNumber32) (sentSize : Nat) (blocks : SackList) : SackList :=
  blocks.filter fun block => !(head.add sentSize).lt block.1

/-- Marking nothing leaves the list. -/
theorem sackNamed_eq_iff : sackNamed head blocks front list = list ↔
    NamesSacked head blocks front list := by
  induction list generalizing front with
  | nil => exact iff_of_true rfl trivial
  | cons item rest ih =>
    rw [sackNamed, List.cons.injEq, ih, NamesSacked]
    refine and_congr_left fun _ => ?_
    by_cases sacks : Sacks head blocks front item
    · rw [if_pos sacks]
      refine iff_of_false (fun same => ?_) fun none_ => ?_
      · have flag := congrArg TcpTxItem.sacked same
        exact Bool.false_ne_true (sacks.1.symm.trans flag.symm)
      · obtain ⟨fresh, block, member, names⟩ := sacks
        exact none_ fresh block member names
    · rw [if_neg sacks]
      exact iff_of_true rfl fun fresh block member names => sacks ⟨fresh, block, member, names⟩

end Orders

section Update

variable {profile : BuildProfile} {b : TcpTxBuffer} {blocks blocks' : SackList}
variable {r : Nat × TcpTxBuffer}

/-- No block begins beyond the sent data, and `m_highestSack` ends at the same item in any order.
Or one does, and the blocks that do not have nothing to mark. -/
def OrderFree (profile : BuildProfile) (b : TcpTxBuffer) (blocks : SackList) : Prop :=
  if inside b.firstByteSeq b.sentSize blocks = blocks then
    Neighbours (TopFree b.firstByteSeq b.highestSack blocks) [] b.sentList
  else
    NamesSacked b.firstByteSeq (inside b.firstByteSeq b.sentSize blocks) [] b.sentList ∧
      Agrees profile b.firstByteSeq (inside b.firstByteSeq b.sentSize blocks) [] b.sentList
  deriving Decidable

/-- What `Update` starts from. -/
def sacking (b : TcpTxBuffer) : Sacking :=
  { lostOut := b.lostOut, sackedOut := b.sackedOut, bytesSacked := 0,
    highestSack := b.highestSack }

theorem update_congr
    (same : sackBlocks profile b.firstByteSeq b.sentSize blocks' b.sentList b.sacking =
      sackBlocks profile b.firstByteSeq b.sentSize blocks b.sentList b.sacking) :
    b.update profile blocks' = b.update profile blocks := by
  unfold sacking at same
  rw [TcpTxBuffer.update, same, TcpTxBuffer.update]

theorem mem_inside {head : SequenceNumber32} {sentSize : Nat} {block : SackBlock} :
    block ∈ inside head sentSize blocks ↔
      block ∈ blocks ∧ (head.add sentSize).lt block.1 = false := by
  simp [inside]

theorem inside_eq_iff {head : SequenceNumber32} {sentSize : Nat} :
    inside head sentSize blocks = blocks ↔
      ∀ block ∈ blocks, (head.add sentSize).lt block.1 = false := by
  simp [inside, filter_eq_self]

/-- With the blocks beyond the sent data at the end, all others are processed. -/
theorem processed_inside {head : SequenceNumber32} {sentSize : Nat} :
    processed head sentSize (inside head sentSize blocks ++ blocks.filter fun block =>
      !!(head.add sentSize).lt block.1) = inside head sentSize blocks := by
  rw [processed, takeWhile_append_of_pos]
  · cases rest : blocks.filter fun block => !!(head.add sentSize).lt block.1 with
    | nil => simp
    | cons block later =>
      have here : block ∈ blocks.filter fun block => !!(head.add sentSize).lt block.1 := by
        rw [rest]
        exact mem_cons_self
      have beyond := (mem_filter.mp here).2
      rw [takeWhile_cons_of_neg (by simpa using beyond), append_nil]
  · exact fun block member => (mem_filter.mp member).2

/-- The loop over blocks that begin in the sent data. -/
theorem walk_iff {head : SequenceNumber32} {sentSize : Nat} {list list' : PacketList}
    {k k' : Sacking} {goesOn : Bool}
    (within : ∀ block ∈ blocks, (head.add sentSize).lt block.1 = false) :
    sackBlocks profile head sentSize blocks list k = some (list', k', goesOn) ↔
      goesOn = true ∧ Agrees profile head blocks [] list ∧
        list' = sackNamed head blocks [] list ∧
          k' = k.marks head (marksOf head [] list blocks) := by
  have closed : sackBlocks profile head sentSize blocks (sackNamed head [] [] list) k =
      some (list', k', goesOn) ↔ _ := sackBlocks_iff within
  rwa [sackNamed_nil, nil_append] at closed

/-- Of an `Update` that returns, the loop over the blocks returns. It decides `m_highestSack`. -/
theorem update_walk (run : b.update profile blocks = some r) : ∃ list' k' goesOn,
    sackBlocks profile b.firstByteSeq b.sentSize blocks b.sentList b.sacking =
      some (list', k', goesOn) ∧ r.2.highestSack = k'.highestSack ∧
      (goesOn = false → r = (k'.bytesSacked, { b with
        sentList := list', lostOut := k'.lostOut, sackedOut := k'.sackedOut
        highestSack := k'.highestSack })) := by
  simp only [TcpTxBuffer.update, bind_eq_bind, bind_eq_some_iff] at run
  obtain ⟨⟨list', k', goesOn⟩, walk, run⟩ := run
  refine ⟨list', k', goesOn, walk, ?_⟩
  cases goesOn with
  | false =>
    simp only [Bool.not_false, ↓reduceIte, Option.pure_def, some.injEq] at run
    obtain rfl := run
    exact ⟨rfl, fun _ => rfl⟩
  | true =>
    refine ⟨?_, fun stops => absurd stops.symm Bool.false_ne_true⟩
    simp only [Bool.not_true, Bool.false_eq_true, ↓reduceIte, bind_eq_some_iff,
      Option.pure_def, some.injEq] at run
    obtain ⟨b₁, counted, -, -, -, -, rfl⟩ := run
    split at counted
    · simp only [bind_eq_some_iff] at counted
      obtain ⟨-, -, counted⟩ := counted
      obtain ⟨sentList, lostOut, rfl, -⟩ := updateLostCount_marks counted
      rfl
    · cases counted
      rfl

theorem update_beyond_first {block : SackBlock}
    (beyond : (b.firstByteSeq.add b.sentSize).lt block.1 = true) :
    b.update profile (block :: blocks) = some (0, b) := by
  rw [TcpTxBuffer.update, sackBlocks, if_pos beyond]
  rfl

/-- With a block beyond the sent data, `Update` does nothing where the other blocks have nothing
to mark. -/
theorem update_nothing
    (some_ : ∃ block ∈ blocks, (b.firstByteSeq.add b.sentSize).lt block.1 = true)
    (none_ : NamesSacked b.firstByteSeq (inside b.firstByteSeq b.sentSize blocks) [] b.sentList)
    (agrees : Agrees profile b.firstByteSeq (inside b.firstByteSeq b.sentSize blocks) []
      b.sentList) :
    b.update profile blocks = some (0, b) := by
  have within : ∀ block ∈ processed b.firstByteSeq b.sentSize blocks,
      (b.firstByteSeq.add b.sentSize).lt block.1 = false := by
    intro block member
    simpa using List.all_eq_true.mp (all_takeWhile) block member
  have sub : ∀ block ∈ processed b.firstByteSeq b.sentSize blocks,
      block ∈ inside b.firstByteSeq b.sentSize blocks := fun block member =>
    mem_inside.mpr ⟨(takeWhile_sublist _).subset member, within block member⟩
  have quiet := none_.mono sub
  have walk : sackBlocks profile b.firstByteSeq b.sentSize
      (processed b.firstByteSeq b.sentSize blocks) b.sentList b.sacking =
        some (b.sentList, b.sacking, true) := by
    refine (walk_iff within).mpr ⟨rfl, agrees.mono sub, (sackNamed_eq_iff.mpr quiet).symm, ?_⟩
    rw [marksOf_nothing quiet]
    rfl
  have whole : sackBlocks profile b.firstByteSeq b.sentSize blocks b.sentList b.sacking =
      some (b.sentList, b.sacking, false) := by
    rw [sackBlocks_beyond some_, walk]
    rfl
  unfold sacking at whole
  rw [TcpTxBuffer.update, whole]
  rfl

/-- The result of `Update` is the same for all orders of the blocks if and only if the option
meets the condition. -/
theorem update_orderFree_iff_of (positive : Positive b.sentList)
    (near : total b.sentList ≤ halfMaxValue 32)
    (pointer : NotAbove b.firstByteSeq (halfMaxValue 32) b.highestSack)
    (run : b.update profile blocks = some r) :
    (∀ blocks', blocks'.Perm blocks → b.update profile blocks' = some r) ↔
      b.OrderFree profile blocks := by
  rw [OrderFree]
  split
  · next all =>
    rw [inside_eq_iff] at all
    have within : ∀ blocks' : SackList, blocks'.Perm blocks → ∀ block ∈ blocks',
        (b.firstByteSeq.add b.sentSize).lt block.1 = false :=
      fun blocks' perm block member => all block (perm.subset member)
    refine Iff.trans ⟨fun same blocks' perm => ?_, fun ends blocks' perm => ?_⟩
      (pointer_orderFree_iff (k := b.sacking) positive near pointer)
    · obtain ⟨_, k, _, walk, top, -⟩ := update_walk run
      obtain ⟨_, k', _, walk', top', -⟩ := update_walk (same blocks' perm)
      obtain ⟨-, -, -, rfl⟩ := (walk_iff all).mp walk
      obtain ⟨-, -, -, rfl⟩ := (walk_iff (within blocks' perm)).mp walk'
      exact top'.symm.trans top
    · obtain ⟨list', k, goesOn, walk, -, -⟩ := update_walk run
      rw [← run]
      refine update_congr (Eq.trans ?_ walk.symm)
      obtain ⟨rfl, agrees, rfl, rfl⟩ := (walk_iff all).mp walk
      refine (walk_iff (within blocks' perm)).mpr
        ⟨rfl, agrees.mono fun _ member => perm.subset member,
          sackNamed_congr fun _ => perm.mem_iff.symm, ?_⟩
      have counts : (b.sacking.marks b.firstByteSeq (marksOf b.firstByteSeq [] b.sentList
          blocks')).counts = (b.sacking.marks b.firstByteSeq (marksOf b.firstByteSeq [] b.sentList
          blocks)).counts :=
        Sacking.counts_marks (marksOf_perm b.sentList perm) rfl
      exact Sacking.ext_counts counts.symm (ends blocks' perm).symm
  · next notAll =>
    obtain ⟨block, member, beyond⟩ :
        ∃ block ∈ blocks, (b.firstByteSeq.add b.sentSize).lt block.1 = true := by
      simpa [inside_eq_iff] using notAll
    have inside_perm : ∀ {blocks'}, blocks'.Perm blocks →
        (inside b.firstByteSeq b.sentSize blocks').Perm (inside b.firstByteSeq b.sentSize blocks) :=
      fun perm => perm.filter _
    constructor
    · intro same
      -- The block beyond the data may be the first one, or only blocks like it come behind it.
      have first := same _ (List.perm_cons_erase member).symm
      rw [update_beyond_first beyond] at first
      cases first
      have split := filter_append_perm
        (fun block : SackBlock => !(b.firstByteSeq.add b.sentSize).lt block.1) blocks
      obtain ⟨list', k, goesOn, walk, -, early⟩ := update_walk (same _ split)
      have later : (b.firstByteSeq.add b.sentSize).lt block.1 = true →
          ∃ block ∈ inside b.firstByteSeq b.sentSize blocks ++ blocks.filter fun block =>
            !!(b.firstByteSeq.add b.sentSize).lt block.1,
              (b.firstByteSeq.add b.sentSize).lt block.1 = true := fun is =>
        ⟨block, mem_append_right _ (mem_filter.mpr ⟨member, by simpa using is⟩), is⟩
      rw [← inside, sackBlocks_beyond (later beyond), processed_inside] at walk
      obtain ⟨⟨list₁, k₁, goesOn₁⟩, walk₁, same_⟩ := map_eq_some_iff.mp walk
      obtain ⟨rfl, rfl, rfl⟩ : list₁ = list' ∧ k₁ = k ∧ false = goesOn := by simpa using same_
      obtain ⟨-, agrees, rfl, -⟩ := 
        (walk_iff fun block inside => (mem_inside.mp inside).2).mp walk₁
      have unchanged := congrArg (fun r : Nat × TcpTxBuffer => r.2.sentList) (early rfl)
      exact ⟨sackNamed_eq_iff.mp unchanged.symm, agrees⟩
    · rintro ⟨none_, agrees⟩ blocks' perm
      have nothing : ∀ blocks', blocks'.Perm blocks → b.update profile blocks' = some (0, b) := by
        intro blocks' perm
        have sub : ∀ block ∈ inside b.firstByteSeq b.sentSize blocks',
            block ∈ inside b.firstByteSeq b.sentSize blocks := fun _ inside =>
          (inside_perm perm).subset inside
        exact update_nothing ⟨block, perm.mem_iff.mpr member, beyond⟩ (none_.mono sub)
          (agrees.mono sub)
      rw [nothing blocks' perm, ← run, nothing blocks .rfl]

end Update

end Ns3.TcpTxBuffer
