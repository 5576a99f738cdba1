import Ns3.Internet.TcpRxBuffer.Window

/-!
# The report of out-of-order data

Each block of `m_sackList` names positions that the buffer holds behind the next expected byte.
`UpdateSackList` joins blocks that touch, and `ClearSackList` takes out those that are in
sequence now. Only what is stored is reported, so a block that was sent is never taken back.
-/

namespace Ns3.TcpRxBuffer

open SequenceNumber Span List Option

section Blocks

variable {profile : BuildProfile} {isn : SequenceNumber32} {base : Nat} {f : Span}
variable {spans : List Span}

/-- The block that names the positions of a span. -/
def block (isn : SequenceNumber32) (s : Span) : SackBlock := (isn.at s.start, isn.at s.stop)

/-- The positions lie in half the space behind `base`. -/
def InsideHalf (base : Nat) (s : Span) : Prop :=
  base ≤ s.start ∧ s.stop ≤ base + halfMaxValue 32

theorem edges_eq {s t : Span} (hs : InsideHalf base s) (ht : InsideHalf base t) :
    isn.at s.start = isn.at t.stop ↔ t.stop = s.start := by
  obtain ⟨low, high⟩ := hs
  obtain ⟨low', high'⟩ := ht
  have le : s.start ≤ s.stop := Nat.le_add_right _ _
  have le' : t.start ≤ t.stop := Nat.le_add_right _ _
  rw [at_eq_at (by omega) (by omega), Nat.cast_inj, eq_comm]

theorem block_join_left {s : Span} (left : s.stop = f.start) :
    block isn (f.join s) = (isn.at s.start, isn.at f.stop) := by
  obtain ⟨start, stop⟩ := Touches.start_join (.inl left : Touches f s)
  have le : s.start ≤ s.stop := Nat.le_add_right _ _
  have le' : f.start ≤ f.stop := Nat.le_add_right _ _
  rw [block, start, stop, Nat.min_eq_right (by omega), Nat.max_eq_left (by omega)]

theorem block_join_right {s : Span} (right : f.stop = s.start) :
    block isn (f.join s) = (isn.at f.start, isn.at s.stop) := by
  obtain ⟨start, stop⟩ := Touches.start_join (.inr right : Touches f s)
  have le : s.start ≤ s.stop := Nat.le_add_right _ _
  have le' : f.start ≤ f.stop := Nat.le_add_right _ _
  rw [block, start, stop, Nat.min_eq_left (by omega), Nat.max_eq_right (by omega)]

/-- The scan finds a block that touches, if it finds one. -/
theorem findMerge_spec {found : Option (SackBlock × SackList)} (first : InsideHalf base f)
    (inside : ∀ s ∈ spans, InsideHalf base s)
    (run : findMerge profile (block isn f) (spans.map (block isn)) = some found) :
    found = none ∨ ∃ front s back, spans = front ++ s :: back ∧ Touches f s ∧
      found = some (block isn (f.join s), (front ++ back).map (block isn)) := by
  induction spans generalizing found with
  | nil => exact .inl (some.inj run).symm
  | cons s rest ih =>
    have here := inside s mem_cons_self
    rw [map_cons, findMerge] at run
    by_cases left : s.stop = f.start
    · rw [if_pos (show (block isn f).1 = (block isn s).2 from (edges_eq first here).mpr left)]
        at run
      obtain ⟨_, -, run⟩ := bind_returns.mp run
      refine .inr ⟨[], s, rest, rfl, .inl left, ?_⟩
      rw [← some.inj run, block_join_left left]
      rfl
    · rw [if_neg (show ¬ (block isn f).1 = (block isn s).2 from
        fun same => left ((edges_eq first here).mp same))] at run
      by_cases right : f.stop = s.start
      · rw [if_pos (show (block isn f).2 = (block isn s).1 from
          ((edges_eq here first).mpr right).symm)] at run
        obtain ⟨_, -, run⟩ := bind_returns.mp run
        refine .inr ⟨[], s, rest, rfl, .inr right, ?_⟩
        rw [← some.inj run, block_join_right right]
        rfl
      · rw [if_neg (show ¬ (block isn f).2 = (block isn s).1 from
          fun same => right ((edges_eq here first).mp same.symm))] at run
        obtain ⟨later, scan, run⟩ := bind_returns.mp run
        have found_ := some.inj run
        rcases ih (fun r hr => inside r (mem_cons_of_mem s hr)) scan with
          rfl | ⟨front, r, back, rfl, touches, rfl⟩
        · exact .inl found_.symm
        · exact .inr ⟨s :: front, r, back, rfl, touches, found_.symm⟩

/-- `UpdateSackList` joins the new block with blocks that touch it. -/
theorem mergeBlocks_spec {scans : Nat} {blocks : SackList} (first : InsideHalf base f)
    (inside : ∀ s ∈ spans, InsideHalf base s)
    (run : mergeBlocks profile scans (block isn f) (spans.map (block isn)) = some blocks) :
    ∃ g rest, Coalesces f spans g rest ∧ blocks = (g :: rest).map (block isn) := by
  induction scans generalizing f spans with
  | zero => exact ⟨f, spans, .done f spans, (some.inj run).symm⟩
  | succ scans ih =>
    obtain ⟨found, scan, run⟩ := bind_returns.mp run
    rcases findMerge_spec first inside scan with rfl | ⟨front, s, back, rfl, touches, rfl⟩
    · exact ⟨f, spans, .done f spans, (some.inj run).symm⟩
    · have here : InsideHalf base s := inside s (by simp)
      obtain ⟨start, stop⟩ := touches.start_join
      have joined : InsideHalf base (f.join s) := by
        obtain ⟨low, high⟩ := here
        obtain ⟨low', high'⟩ := first
        exact ⟨by omega, by omega⟩
      have others : ∀ r ∈ front ++ back, InsideHalf base r := by
        intro r hr
        refine inside r ?_
        rcases mem_append.mp hr with hr | hr
        · exact mem_append_left _ hr
        · exact mem_append_right _ (mem_cons_of_mem s hr)
      obtain ⟨g, rest, later, eq⟩ := ih joined others run
      exact ⟨g, rest, .join touches later, eq⟩

end Blocks

section Reports

variable {profile : BuildProfile} {isn : SequenceNumber32} {base nxt : Nat}
variable {held held' K : List Span} {b b' : TcpRxBuffer} {blocks : SackList}

/-- The blocks name the spans `K` of what is held behind the next expected byte. -/
structure Reports (isn : SequenceNumber32) (nxt : Nat) (held K : List Span) (blocks : SackList) :
    Prop where
  blocks : blocks = K.map (block isn)
  count : K.length ≤ 4
  above : ∀ s ∈ K, nxt < s.start ∧ 0 < s.length
  held : ∀ x, Covers K x → Covers held x

theorem Reports.nil : Reports isn nxt [] [] [] where
  blocks := rfl
  count := Nat.zero_le _
  above := nofun
  held := fun _ covered => absurd covered covers_nil

theorem Reports.inside (reports : Reports isn nxt held K blocks) (le : base ≤ nxt)
    (near : ∀ s ∈ held, InsideHalf base s) : ∀ s ∈ K, InsideHalf base s := by
  intro s hs
  obtain ⟨above, pos⟩ := reports.above s hs
  have stop : s.start + s.length = s.stop := rfl
  obtain ⟨r, hr, -, last⟩ := reports.held (s.stop - 1) ⟨s, hs, by omega, by omega⟩
  have high := (near r hr).2
  exact ⟨by omega, by omega⟩

/-- Of five blocks the last one is forgotten. -/
theorem updateSackList_spec {new : Span} (eq : b.sackList = K.map (block isn))
    (count : K.length ≤ 4) (first : InsideHalf base new) (inside : ∀ s ∈ K, InsideHalf base s)
    (run : b.updateSackList profile (isn.at new.start) (isn.at new.stop) = some b') :
    ∃ g rest K', Coalesces new K g rest ∧ K'.Sublist rest ∧ K'.length ≤ 3 ∧
      b'.sackList = (g :: K').map (block isn) := by
  obtain ⟨_, -, run⟩ := bind_returns.mp run
  obtain ⟨blocks, scan, run⟩ := bind_returns.mp run
  cases run
  rw [eq] at scan
  obtain ⟨g, rest, merged, rfl⟩ := mergeBlocks_spec first inside scan
  have length := merged.sublist.length_le
  by_cases full : 3 < rest.length
  · refine ⟨g, rest, rest.dropLast, merged, dropLast_sublist rest, ?_, ?_⟩
    · rw [length_dropLast]
      omega
    · have some_ : rest ≠ [] := fun none => by simp [none] at full
      rw [if_pos (by simp only [length_map, length_cons]; omega),
        ← map_dropLast, dropLast_cons_of_ne_nil some_]
  · refine ⟨g, rest, rest, merged, List.Sublist.refl rest, by omega, ?_⟩
    rw [if_neg (by simp only [length_map, length_cons]; omega)]

/-- The report of a segment that was stored out of order. -/
theorem Reports.update (reports : Reports isn nxt held K b.sackList) {new : Span} (le : base ≤ nxt)
    (near : ∀ s ∈ held, InsideHalf base s) (here : InsideHalf base new) (above : nxt < new.start)
    (pos : 0 < new.length) (more : ∀ x, Covers held x → Covers held' x)
    (stored : ∀ x, new.start ≤ x ∧ x < new.stop → Covers held' x)
    (run : b.updateSackList profile (isn.at new.start) (isn.at new.stop) = some b') :
    ∃ g K', Reports isn nxt held' (g :: K') b'.sackList ∧
      (g.start ≤ new.start ∧ new.stop ≤ g.stop) ∧
      ((new :: K).Pairwise Span.Disjoint → (g :: K').Pairwise Span.Disjoint) := by
  obtain ⟨g, rest, K', merged, sub, count, eq⟩ :=
    updateSackList_spec reports.blocks reports.count here (reports.inside le near) run
  obtain ⟨start, stop⟩ := merged.grows
  have length : g.start + g.length = g.stop := rfl
  have length' : new.start + new.length = new.stop := rfl
  have reported : ∀ x, Covers (g :: rest) x → (new.start ≤ x ∧ x < new.stop) ∨ Covers K x := by
    intro x covered
    exact covers_cons.mp (merged.covers.mp covered)
  refine ⟨g, K', ?_, ⟨start, stop⟩, fun apart => ?_⟩
  · exact
      { blocks := eq
        count := Nat.succ_le_succ count
        above := by
          intro s hs
          rcases mem_cons.mp hs with rfl | old
          · refine ⟨?_, by omega⟩
            rcases reported s.start ⟨s, mem_cons_self, by omega, by omega⟩ with
              new_ | ⟨r, hr, low, -⟩
            · omega
            · have := (reports.above r hr).1
              omega
          · exact reports.above s (merged.sublist.subset (sub.subset old))
        held := by
          rintro x ⟨s, hs, covered⟩
          rcases reported x ⟨s, (sub.cons_cons g).subset hs, covered⟩ with new_ | old
          · exact stored x new_
          · exact more x (reports.held x old) }
  · have each : ∀ s ∈ K, 0 < s.length := fun s hs => (reports.above s hs).2
    exact (merged.disjoint each apart).sublist (sub.cons_cons g)

/-- The report once the next expected byte has moved on. -/
theorem Reports.clear {nxt' : Nat} {stops : List Nat} (reports : Reports isn nxt held K blocks)
    (le : base ≤ nxt) (near : ∀ s ∈ held, InsideHalf base s) (moved : nxt ≤ nxt')
    (missing : ¬ Covers held nxt') (range : ∀ x ∈ stops, nxt ≤ x ∧ x ≤ nxt')
    (last : nxt < nxt' → nxt' ∈ stops) (high : nxt' ≤ base + halfMaxValue 32) :
    Reports isn nxt' held (K.filter fun s => decide (nxt' < s.start))
      (clearedAt isn stops blocks) := by
  have inside := reports.inside le near
  have kept : ∀ s ∈ K, (stops.all fun x => !(block isn s).2.le (isn.at x)) =
      decide (nxt' < s.start) := by
    intro s hs
    obtain ⟨low, below⟩ := inside s hs
    obtain ⟨above, pos⟩ := reports.above s hs
    have stop : s.start + s.length = s.stop := rfl
    have order : ∀ x ∈ stops, (block isn s).2.le (isn.at x) = decide (s.stop ≤ x) := by
      intro x hx
      have := range x hx
      exact le_at_nat (by omega) (by omega)
    by_cases ahead : nxt' < s.start
    · rw [decide_eq_true ahead, List.all_eq_true]
      intro x hx
      have := range x hx
      rw [order x hx, decide_eq_false (by omega)]
      rfl
    · -- The block does not reach over the next expected byte, which is not stored.
      have ended : s.stop ≤ nxt' := by
        by_contra longer
        exact missing (reports.held nxt' ⟨s, hs, by omega, by omega⟩)
      have cleared := last (by omega)
      rw [decide_eq_false ahead, List.all_eq_false]
      refine ⟨nxt', cleared, ?_⟩
      rw [order nxt' cleared, decide_eq_true ended]
      exact Bool.false_ne_true
  exact
    { blocks := by
        rw [reports.blocks, clearedAt, List.filter_map]
        exact congrArg _ (filter_congr kept)
      count := (length_filter_le _ K).trans reports.count
      above := by
        intro s hs
        obtain ⟨member, ahead⟩ := mem_filter.mp hs
        exact ⟨of_decide_eq_true ahead, (reports.above s member).2⟩
      held := by
        rintro x ⟨s, hs, covered⟩
        exact reports.held x ⟨s, (mem_filter.mp hs).1, covered⟩ }

end Reports

section Store

variable {profile : BuildProfile} {isn : SequenceNumber32} {lo base nxt nxt' i : Nat}
variable {B A B' A' K : List Span} {b b' : TcpRxBuffer} {p : Packet}

theorem Arranged.missing (a : Arranged isn base nxt B A b) : ¬ Covers (B ++ A) nxt := by
  rw [covers_append, a.tiles.covers]
  rintro (inSequence | ⟨s, hs, first, last⟩)
  · omega
  · obtain ⟨low, empty⟩ := a.behind s hs
    have stop : s.start + s.length = s.stop := rfl
    omega

theorem Arranged.insideHalf (a : Arranged isn base nxt B A b) :
    ∀ s ∈ B ++ A, InsideHalf base s := a.inside

/-- A span that `Add` erases although a block reports it: the segment begins in front of it, with
a byte that is missing there, and ends behind it. -/
def Swallows (held K : List Span) (maxBuffer nxt i n : Nat) : Prop :=
  nxt < i ∧ ∃ s ∈ held, s.stop < trimmedTail held maxBuffer i n ∧
    (∃ y, s.start ≤ y ∧ y < s.stop ∧ Covers K y) ∧
    ∃ x, trimmedHead held maxBuffer nxt i n ≤ x ∧ x < s.start ∧ ¬ Covers held x

/-- What a segment does to the report. -/
structure ReportsAdd (nxt' : Nat) (held held' K K' : List Span) (swallows : Prop) : Prop where
  newest : ∀ x, Covers held' x → ¬ Covers held x → nxt' ≤ x →
    ∃ g ∈ K'.head?, g.start ≤ x ∧ x < g.stop
  distinct : ¬ swallows → K.Pairwise Span.Disjoint → K'.Pairwise Span.Disjoint

section Part

variable {held held' : List Span} {n h t : Nat} {c c' : TcpRxBuffer}
  (some : AddedPart profile isn c c' lo base nxt nxt' i n held held' h t)
include some

/-- Exactly the part is new. -/
theorem AddedPart.covers {x : Nat} :
    Covers held' x ↔ Covers held x ∨ (h ≤ x ∧ x < t) := by
  have part := some.part
  obtain ⟨kept, left, stores⟩ := some.uncovered
  rw [stores.covers, stop_mk]
  constructor
  · rintro (⟨s, hs, here⟩ | here)
    · exact .inl ⟨s, left.sublist.subset hs, here⟩
    · exact .inr ⟨here.1, by omega⟩
  · rintro (⟨s, hs, here⟩ | here)
    · rcases left.erased s hs with stays | ⟨above, below, -⟩
      · exact .inl ⟨s, stays, here⟩
      · exact .inr ⟨by simp only; omega, by omega⟩
    · exact .inr ⟨here.1, by omega⟩

theorem AddedPart.first_missing : ¬ Covers held h := by
  have part := some.part
  obtain ⟨kept, left, -⟩ := some.uncovered
  rintro ⟨s, hs, first, last⟩
  rcases left.erased s hs with stays | ⟨above, -, -⟩
  · have := left.apart s stays
    omega
  · omega

theorem AddedPart.overlapped {y : Nat} (inside : h ≤ y ∧ y < t) (covered : Covers held y) :
    ∃ s ∈ held, s.stop < trimmedTail held c.maxBuffer i n ∧ (s.start ≤ y ∧ y < s.stop) ∧
      h < s.start := by
  obtain ⟨kept, left, -⟩ := some.uncovered
  obtain ⟨s, hs, here⟩ := covered
  rcases left.erased s hs with stays | ⟨above, -, below⟩
  · have := left.apart s stays
    omega
  · exact ⟨s, hs, below, here, above⟩

theorem AddedPart.in_sequence (old : i ≤ nxt) (missing : ¬ Covers held nxt) : h = nxt := by
  have part := some.part
  obtain ⟨kept, left, -⟩ := some.uncovered
  have head := left.head.1
  have tail := left.tail.1
  have exact_ : trimmedHead held c.maxBuffer nxt i n = nxt := by
    cases held with
    | nil => exact Nat.max_eq_right old
    | cons s rest =>
      simp only [trimmedHead] at head ⊢
      omega
  have moves := left.headMoves
  rw [exact_] at moves
  exact moves.resolve_right missing

end Part

section

variable (a : Arranged isn base nxt B A b) (a' : Arranged isn base nxt' B' A' b')
variable (reports : Reports isn nxt (B ++ A) K b.sackList)
include a a' reports

/-- A part that is stored behind the next expected byte becomes the first block. -/
theorem Reports.add_behind {n h t : Nat}
    (some : AddedPart profile isn b.blank b'.blank lo base nxt nxt' i n (B ++ A) (B' ++ A') h t)
    (behind : nxt < h) :
    ∃ K', Reports isn nxt' (B' ++ A') K' b'.sackList ∧
      ReportsAdd nxt' (B ++ A) (B' ++ A') K K' (Swallows (B ++ A) K b.maxBuffer nxt i n) := by
  have base_le := a.tiles.le
  have part := some.part
  have near := a.near
  have covers : ∀ x, Covers (B' ++ A') x ↔ Covers (B ++ A) x ∨ (h ≤ x ∧ x < t) :=
    fun x => some.covers
  have stop : h + (t - h) = t := by omega
  -- The next expected byte is still missing.
  have still : nxt' = nxt := by
    obtain ⟨kept, left, stores⟩ := some.uncovered
    have le := stores.le
    by_contra moved
    have inSequence : Covers (B' ++ A') nxt :=
      covers_append.mpr (.inl (a'.tiles.covers.mpr ⟨base_le, by omega⟩))
    rcases (covers nxt).mp inSequence with old | new
    · exact a.missing old
    · omega
  subst still
  obtain ⟨kept, left, stores⟩ := some.uncovered
  obtain ⟨blocks, stops, report, range, last, eq⟩ := stores.report
  have high : t ≤ base + halfMaxValue 32 := by
    obtain ⟨s, hs, -, below⟩ := (covers (t - 1)).mpr (.inr (by omega))
    have := (a'.insideHalf s hs).2
    omega
  have gt : (isn.at h).gt b.blank.nextRxSeq = true := by
    have next : b.blank.nextRxSeq = isn.at nxt' := a.next
    rw [next, gt_at_nat (by omega) (by omega)]
    exact decide_eq_true behind
  rw [reported, if_pos gt] at report
  obtain ⟨c, updated, rfl⟩ := map_eq_some_iff.mp report
  have unchanged : Reports isn nxt' (B ++ A) K b.blank.sackList := reports
  have here : InsideHalf base ⟨h, t - h⟩ := ⟨by simp only; omega, by rw [stop_mk]; omega⟩
  rw [← stop, ← stop_mk] at updated
  obtain ⟨g, K₁, now, ⟨start, stop_⟩, disjoint⟩ := unchanged.update base_le a.insideHalf here behind
    (by simp only; omega) (fun x old => (covers x).mpr (.inl old))
    (fun x new => (covers x).mpr (.inr (by rwa [stop_mk, stop] at new))) updated
  rw [stop_mk, stop] at stop_
  have later := now.clear base_le a'.insideHalf le_rfl a'.missing range last near
  refine ⟨_, eq ▸ later, ?_⟩
  have ahead := (now.above g mem_cons_self).1
  rw [filter_cons, if_pos (decide_eq_true ahead)]
  exact
    { newest := by
        intro x covered missing _
        rcases (covers x).mp covered with old | new
        · exact absurd old missing
        · exact ⟨g, rfl, by simp only at start; omega, by omega⟩
      distinct := by
        intro notSwallowed apart
        have first : ∀ s ∈ K, Span.Disjoint ⟨h, t - h⟩ s := by
          intro s hs
          have pos := (reports.above s hs).2
          have length : s.start + s.length = s.stop := rfl
          suffices apart : t ≤ s.start ∨ s.stop ≤ h by
            rwa [Span.Disjoint, stop_mk, stop]
          by_contra overlap
          have here : Covers K (max h s.start) := ⟨s, hs, by omega, by omega⟩
          obtain ⟨r, hr, below, within, above⟩ :=
            some.overlapped (y := max h s.start) (by omega) (reports.held _ here)
          refine notSwallowed ⟨?_, r, hr, below, ⟨_, within.1, within.2, here⟩, h, left.head.1,
            above, some.first_missing⟩
          by_contra old
          have := some.in_sequence (by omega) a.missing
          omega
        refine (disjoint (List.Pairwise.cons first apart)).sublist ?_
        exact List.Sublist.cons_cons g filter_sublist }

/-- A part that is stored in sequence is not reported, and takes out the blocks it reaches. -/
theorem Reports.add_next {n t : Nat}
    (some : AddedPart profile isn b.blank b'.blank lo base nxt nxt' i n (B ++ A) (B' ++ A') nxt t) :
    ∃ K', Reports isn nxt' (B' ++ A') K' b'.sackList ∧
      ReportsAdd nxt' (B ++ A) (B' ++ A') K K' (Swallows (B ++ A) K b.maxBuffer nxt i n) := by
  have base_le := a.tiles.le
  have near := a.near
  have near' := a'.near
  have covers : ∀ x, Covers (B' ++ A') x ↔ Covers (B ++ A) x ∨ (nxt ≤ x ∧ x < t) :=
    fun x => some.covers
  obtain ⟨kept, left, stores⟩ := some.uncovered
  have le := stores.le
  obtain ⟨blocks, stops, report, range, last, eq⟩ := stores.report
  have gt : ¬ (isn.at nxt).gt b.blank.nextRxSeq = true := by
    have next : b.blank.nextRxSeq = isn.at nxt := a.next
    rw [next, gt_at_nat (by omega) (by omega)]
    simp
  rw [reported, if_neg gt] at report
  obtain rfl : b.sackList = blocks := Option.some.inj report
  have now : Reports isn nxt (B' ++ A') K b.sackList :=
    { reports with held := fun x covered => (covers x).mpr (.inl (reports.held x covered)) }
  have later := now.clear base_le a'.insideHalf le a'.missing range last near'
  refine ⟨_, eq ▸ later, ?_⟩
  exact
    { newest := by
        intro x covered missing ahead
        rcases (covers x).mp covered with old | new
        · exact absurd old missing
        · -- All of the part is in sequence now.
          exact absurd ((covers nxt').mpr (.inr (by omega))) a'.missing
      distinct := fun _ apart => apart.sublist filter_sublist }

end

theorem Reports.add (a : Arranged isn base nxt B A b)
    (reports : Reports isn nxt (B ++ A) K b.sackList) {added : Bool}
    (near : Comparable lo base nxt b.maxBuffer i p.length (B ++ A))
    (run : b.add profile p (isn.at i) = some (added, b')) :
    ∃ (nxt' : Nat) (B' A' K' : List Span), Arranged isn base nxt' B' A' b' ∧
      Reports isn nxt' (B' ++ A') K' b'.sackList ∧
      ReportsAdd nxt' (B ++ A) (B' ++ A') K K'
        (Swallows (B ++ A) K b.maxBuffer nxt i p.length) := by
  obtain ⟨nxt', B', A', a', change⟩ := a.add_within near run
  refine ⟨nxt', B', A', ?_⟩
  rcases change with ⟨rfl, nothing⟩ | ⟨h, t, some⟩
  · have same : b'.sackList = b.sackList := nothing.sackList
    refine ⟨K, a', ?_, ?_⟩
    · rw [same]
      have held := fun x covered => (nothing.covers x).mpr (reports.held x covered)
      exact { reports with held }
    · exact
        { newest := fun x covered missing => absurd ((nothing.covers x).mp covered) missing
          distinct := fun _ apart => apart }
  · rcases Nat.eq_or_lt_of_le some.low with rfl | behind
    · obtain ⟨K', later, change⟩ := reports.add_next a a' some
      exact ⟨K', a', later, change⟩
    · obtain ⟨K', later, change⟩ := reports.add_behind a a' some behind
      exact ⟨K', a', later, change⟩

end Store

section Truthful

variable {profile : BuildProfile} {isn : SequenceNumber32} {base nxt : Nat} {B A K : List Span}
variable {b b' : TcpRxBuffer} {c : Access} {x : SequenceNumber32}

/-- The buffer holds the byte with this number. -/
def HasByte (b : TcpRxBuffer) (x : SequenceNumber32) : Prop :=
  ∃ e ∈ b.data, (x.sub e.1).toNat < e.2.length
  deriving Decidable

/-- The block names the byte with this number. -/
def InBlock (x : SequenceNumber32) (block : SackBlock) : Prop :=
  (x.sub block.1).toNat < (block.2.sub block.1).toNat
  deriving Decidable

/-- At most four blocks, each with bytes that are stored behind the next expected one. -/
structure Truthful (b : TcpRxBuffer) : Prop where
  count : b.sackList.length ≤ 4
  nonempty : ∀ block ∈ b.sackList, block.1.lt block.2 = true
  above : ∀ block ∈ b.sackList, block.1.gt b.nextRxSeq = true
  stored : ∀ block ∈ b.sackList, ∀ x, InBlock x block → b.HasByte x

/-- Bytes that `Add` stored out of order are in the first block. -/
def ReportsNewest (profile : BuildProfile) (b : TcpRxBuffer) (c : Access) : Prop :=
  ∀ p seq, c = .add p seq → ∀ added b', b.add profile p seq = some (added, b') →
    ∀ x, b'.HasByte x → ¬ b.HasByte x → x.ge b'.nextRxSeq = true →
      ∃ block ∈ b'.sackList.head?, InBlock x block

theorem Arranged.hasByte (a : Arranged isn base nxt B A b) :
    b.HasByte x ↔ ∃ q : Nat, x = isn.at q ∧ Covers (B ++ A) q := by
  have half := halfMaxValue_32
  constructor
  · rintro ⟨e, he, short⟩
    obtain ⟨s, hs, first, length⟩ := a.byte he
    have stop : s.start + s.length = s.stop := rfl
    rw [first, length] at short
    exact ⟨s.start + (x.sub (isn.at s.start)).toNat, eq_at_of_ahead rfl, s, hs, by omega, by omega⟩
  · rintro ⟨q, rfl, s, hs, low, high⟩
    obtain ⟨start, stop⟩ := a.inside s hs
    have length : s.start + s.length = s.stop := rfl
    have member : (isn.at s.start, s.length) ∈ b.data.map fun e => (e.1, e.2.length) := by
      rw [a.entries]
      exact List.mem_map_of_mem hs
    obtain ⟨e, he, same⟩ := List.mem_map.mp member
    have distance : (((isn.at q).sub (isn.at s.start)).toNat : Int) = q - s.start :=
      sub_at_toNat (by omega) (by omega)
    refine ⟨e, he, ?_⟩
    rw [(Prod.mk.inj same).1, (Prod.mk.inj same).2]
    omega

theorem inBlock_iff {s : Span} (inside : InsideHalf base s) :
    InBlock x (block isn s) ↔ ∃ q : Nat, x = isn.at q ∧ s.start ≤ q ∧ q < s.stop := by
  have half := halfMaxValue_32
  obtain ⟨low, high⟩ := inside
  have stop : s.start + s.length = s.stop := rfl
  have length : (((isn.at s.stop).sub (isn.at s.start)).toNat : Int) = s.stop - s.start :=
    sub_at_toNat (by omega) (by omega)
  have edges : InBlock x (block isn s) ↔
      (x.sub (isn.at s.start)).toNat < ((isn.at s.stop).sub (isn.at s.start)).toNat := Iff.rfl
  rw [edges]
  constructor
  · intro short
    exact ⟨s.start + (x.sub (isn.at s.start)).toNat, eq_at_of_ahead rfl, by omega, by omega⟩
  · rintro ⟨q, rfl, first, last⟩
    have distance : (((isn.at q).sub (isn.at s.start)).toNat : Int) = q - s.start :=
      sub_at_toNat (by omega) (by omega)
    omega

/-- The map and the report in terms of positions. -/
def Reporting (isn : SequenceNumber32) (b : TcpRxBuffer) : Prop :=
  ∃ base nxt B A K, halfMaxValue 32 ≤ base ∧ Arranged isn base nxt B A b ∧
    Reports isn nxt (B ++ A) K b.sackList

section

variable (a : Arranged isn base nxt B A b) (reports : Reports isn nxt (B ++ A) K b.sackList)
include a reports

theorem Reports.truthful : Truthful b := by
  have base_le := a.tiles.le
  have inside := reports.inside base_le a.insideHalf
  have named : ∀ blk ∈ b.sackList, ∃ s ∈ K, block isn s = blk := by
    intro blk member
    rw [reports.blocks] at member
    exact List.mem_map.mp member
  exact
    { count := by
        rw [reports.blocks, length_map]
        exact reports.count
      nonempty := by
        intro blk member
        obtain ⟨s, hs, rfl⟩ := named blk member
        obtain ⟨low, high⟩ := inside s hs
        obtain ⟨-, pos⟩ := reports.above s hs
        have stop : s.start + s.length = s.stop := rfl
        rw [block, lt_at_nat (by omega) (by omega)]
        exact decide_eq_true (by omega)
      above := by
        intro blk member
        obtain ⟨s, hs, rfl⟩ := named blk member
        obtain ⟨low, high⟩ := inside s hs
        obtain ⟨above, -⟩ := reports.above s hs
        have stop : s.start + s.length = s.stop := rfl
        rw [block, a.next, gt_at_nat (by omega) (by omega)]
        exact decide_eq_true above
      stored := by
        intro blk member x named_
        obtain ⟨s, hs, rfl⟩ := named blk member
        obtain ⟨q, rfl, first, last⟩ := (inBlock_iff (inside s hs)).mp named_
        exact a.hasByte.mpr ⟨q, rfl, reports.held q ⟨s, hs, first, last⟩⟩ }

theorem Reports.extract {maxSize : Nat} {packet : Option Packet}
    (run : b.extract profile maxSize = some (b', packet)) :
    ∃ B', Arranged isn (base + min maxSize b.availBytes) nxt B' A b' ∧
      Reports isn nxt (B' ++ A) K b'.sackList := by
  obtain ⟨B', a'⟩ := a.extract run
  refine ⟨B', a', ?_⟩
  rw [(extract_same run).sackList]
  refine { reports with held := fun x covered => ?_ }
  rcases covers_append.mp (reports.held x covered) with inSequence | outOfOrder
  · obtain ⟨s, hs, first, -⟩ := covered
    have above := (reports.above s hs).1
    have below := (a.tiles.covers.mp inSequence).2
    omega
  · exact covers_append.mpr (.inr outOfOrder)

end

/-- A step inside the window keeps the report true, and names what it stores. -/
theorem Reporting.access (reporting : Reporting isn b) (window : b.OneWindow c)
    (run : b.access profile c = some b') :
    Reporting isn b' ∧ (∀ p seq, c = .add p seq → ∀ x, b'.HasByte x → ¬ b.HasByte x →
      x.ge b'.nextRxSeq = true → ∃ block ∈ b'.sackList.head?, InBlock x block) := by
  obtain ⟨base, nxt, B, A, K, lead, a, reports⟩ := reporting
  cases c with
  | add p seq =>
    obtain ⟨⟨added, b''⟩, call, rfl⟩ := map_eq_some_iff.mp run
    obtain ⟨lo, i, rfl, near⟩ := window.comparable a lead
    obtain ⟨nxt', B', A', K', a', reports', change⟩ := reports.add a near call
    refine ⟨⟨base, nxt', B', A', K', lead, a', reports'⟩, ?_⟩
    rintro - - - x stored missing ahead
    obtain ⟨q, rfl, covered⟩ := a'.hasByte.mp stored
    have new : ¬ Covers (B ++ A) q := fun old => missing (a.hasByte.mpr ⟨q, rfl, old⟩)
    have base_le := a'.tiles.le
    have nextNear := a'.near
    obtain ⟨s, hs, first, last⟩ := covered
    obtain ⟨low, high⟩ := a'.inside s hs
    rw [a'.next, ge_at_nat (by omega) (by omega)] at ahead
    obtain ⟨g, head, within⟩ :=
      change.newest q ⟨s, hs, first, last⟩ new (of_decide_eq_true ahead)
    have inside := reports'.inside base_le a'.insideHalf g (mem_of_mem_head? head)
    refine ⟨block isn g, ?_, (inBlock_iff inside).mpr ⟨q, rfl, within⟩⟩
    rw [reports'.blocks, head?_map]
    exact Option.mem_map_of_mem (block isn) head
  | extract maxSize =>
    obtain ⟨⟨b'', packet⟩, call, rfl⟩ := map_eq_some_iff.mp run
    obtain ⟨B', a', reports'⟩ := reports.extract a call
    refine ⟨⟨_, nxt, B', A, K, by omega, a', reports'⟩, fun p seq other => ?_⟩
    cases other

theorem Reporting.start (isn : SequenceNumber32) (maxBuffer : Nat) :
    Reporting (isn.at (-(halfMaxValue 32 : Nat) : Int)) (empty isn maxBuffer) :=
  ⟨_, _, [], [], [], le_rfl, Arranged.start isn maxBuffer _, Reports.nil⟩

/-- In every run inside the window the report is true in every state, and out-of-order data is
reported in the first block. -/
theorem sackList_truthful (profile : BuildProfile) (isn : SequenceNumber32) (maxBuffer : Nat)
    (calls : List Access)
    (window : Run.Meets (access profile) OneWindow (empty isn maxBuffer) calls) :
    Run.Always (access profile) Truthful (empty isn maxBuffer) calls ∧
      Run.Meets (access profile) (ReportsNewest profile) (empty isn maxBuffer) calls := by
  have start := Reporting.start isn maxBuffer
  constructor
  · refine Run.Always.of_invariant start window ?_
      fun _ _ _ reporting inside run => (reporting.access inside run).1
    rintro b ⟨base, nxt, B, A, K, -, a, reports⟩
    exact reports.truthful a
  · refine Run.Meets.of_invariant start window
      (fun _ _ _ reporting inside run => (reporting.access inside run).1) ?_
    rintro b c reporting inside p seq rfl added b' run
    have stepped : b.access profile (.add p seq) = some b' := congrArg (Option.map Prod.snd) run
    exact (reporting.access inside stepped).2 p seq rfl

/-- Three blocks, two of which the next segment joins, and an in-sequence segment that clears. -/
theorem sackList_truthful_joined :
    Run.Always (access .debug) Truthful (empty (.ofNat 4294967294) 32)
        [.add [3] (.ofNat 0), .add [5] (.ofNat 2), .add [9] (.ofNat 6), .add [4] (.ofNat 1),
          .add [1, 2] (.ofNat 4294967294), .extract 3] ∧
      Run.Meets (access .debug) (ReportsNewest .debug) (empty (.ofNat 4294967294) 32)
        [.add [3] (.ofNat 0), .add [5] (.ofNat 2), .add [9] (.ofNat 6), .add [4] (.ofNat 1),
          .add [1, 2] (.ofNat 4294967294), .extract 3] :=
  sackList_truthful .debug (.ofNat 4294967294) 32
    [.add [3] (.ofNat 0), .add [5] (.ofNat 2), .add [9] (.ofNat 6), .add [4] (.ofNat 1),
      .add [1, 2] (.ofNat 4294967294), .extract 3] (by decide)

/-- A segment half the sequence space ahead is taken for old data, but its end is taken for the
end of new data: it erases a packet that was reported. -/
theorem sackList_reneged : ∃ b, Run.exec (access .optimized) (empty (.ofNat 0) 5)
        [.add [1, 2] (.ofNat 2147483642), .add [3] (.ofNat 2147483650)] = some b ∧
      b.sackList = [(.ofNat 2147483642, .ofNat 2147483644)] ∧ ¬ Truthful b := by
  have ran : (Run.exec (access .optimized) (empty (.ofNat 0) 5)
      [.add [1, 2] (.ofNat 2147483642), .add [3] (.ofNat 2147483650)]).any (fun b =>
        b.sackList = [(.ofNat 2147483642, .ofNat 2147483644)] ∧
          ¬ b.HasByte (.ofNat 2147483642)) = true := by
    decide
  obtain ⟨b, run, holds⟩ := (Option.any_eq_true _ _).mp ran
  obtain ⟨report, erased⟩ := of_decide_eq_true holds
  refine ⟨b, run, report, fun truthful => erased ?_⟩
  refine truthful.stored (.ofNat 2147483642, .ofNat 2147483644) ?_ _ (by decide)
  rw [report]
  exact List.mem_singleton.mpr rfl

end Truthful

section Distinct

variable {profile : BuildProfile} {isn : SequenceNumber32} {base nxt lo i : Nat}
variable {B A K : List Span} {b b' : TcpRxBuffer} {c : Access} {p : Packet}

/-- No byte is in both blocks, and each has a byte that the other has not. -/
def Apart (first second : SackBlock) : Prop :=
  (∀ x, ¬ (InBlock x first ∧ InBlock x second)) ∧
    (∃ x, InBlock x first ∧ ¬ InBlock x second) ∧ ∃ x, InBlock x second ∧ ¬ InBlock x first

def Distinct (b : TcpRxBuffer) : Prop := b.sackList.Pairwise Apart

/-- The segment replaces a stored packet although a block reports a byte of it: it begins behind
the next expected byte, a byte in front of the packet is missing, and it ends behind the packet. -/
def ReplacesReported (b : TcpRxBuffer) : Access → Prop
  | .add p seq => seq.gt b.nextRxSeq = true ∧ ∃ e ∈ b.data,
      (b.trimToWindow seq (seq.add p.length)).1.lt e.1 = true ∧
      (e.1.add e.2.length).lt (b.trimToWindow seq (seq.add p.length)).2 = true ∧
      (∃ j < e.2.length, ∃ block ∈ b.sackList, InBlock (e.1.add j) block) ∧
      ∃ k < (e.1.sub (b.trimToWindow seq (seq.add p.length)).1).toNat,
        ¬ b.HasByte ((b.trimToWindow seq (seq.add p.length)).1.add k)
  | .extract _ => False

instance (b : TcpRxBuffer) : (c : Access) → Decidable (b.ReplacesReported c)
  | .add _ _ => inferInstanceAs (Decidable (_ ∧ ∃ e ∈ b.data, _))
  | .extract _ => instDecidableFalse

/-- The call may overlap what is stored, but replaces nothing that is reported. -/
def KeepsReported (b : TcpRxBuffer) (c : Access) : Prop := b.OneWindow c ∧ ¬ b.ReplacesReported c
  deriving Decidable

theorem Reports.apart (reports : Reports isn nxt (B ++ A) K b.sackList)
    (inside : ∀ s ∈ K, InsideHalf base s) (apart : K.Pairwise Span.Disjoint) : Distinct b := by
  rw [Distinct, reports.blocks, pairwise_map]
  refine apart.imp_of_mem fun {s t} hs ht disjoint => ?_
  obtain ⟨low, high⟩ := inside s hs
  obtain ⟨low', high'⟩ := inside t ht
  have pos := (reports.above s hs).2
  have pos' := (reports.above t ht).2
  have stop : s.start + s.length = s.stop := rfl
  have stop' : t.start + t.length = t.stop := rfl
  have first : InBlock (isn.at s.start) (block isn s) :=
    (inBlock_iff (inside s hs)).mpr ⟨s.start, rfl, le_rfl, by omega⟩
  have second : InBlock (isn.at t.start) (block isn t) :=
    (inBlock_iff (inside t ht)).mpr ⟨t.start, rfl, le_rfl, by omega⟩
  have neither : ∀ x, ¬ (InBlock x (block isn s) ∧ InBlock x (block isn t)) := by
    rintro x ⟨inFirst, inSecond⟩
    obtain ⟨q, rfl, above, below⟩ := (inBlock_iff (inside s hs)).mp inFirst
    obtain ⟨q', same, above', below'⟩ := (inBlock_iff (inside t ht)).mp inSecond
    have eq : (q : Int) = q' := (at_eq_at (by omega) (by omega)).mp same
    rcases disjoint with before | behind
    · omega
    · omega
  exact ⟨neither, ⟨_, first, fun both => neither _ ⟨first, both⟩⟩,
    ⟨_, second, fun both => neither _ ⟨both, second⟩⟩⟩

/-- What the condition says about numbers is what it says about positions. -/
theorem Swallows.replaces (a : Arranged isn base nxt B A b)
    (reports : Reports isn nxt (B ++ A) K b.sackList)
    (near : Comparable lo base nxt b.maxBuffer i p.length (B ++ A))
    (swallows : Swallows (B ++ A) K b.maxBuffer nxt i p.length) :
    b.ReplacesReported (.add p (isn.at i)) := by
  have half := halfMaxValue_32
  have base_le := a.tiles.le
  have low := near.low
  have segment := near.segment
  obtain ⟨ahead, s, hs, ends, ⟨y, first, last, named⟩, x, from_, before, missing⟩ := swallows
  have length : s.start + s.length = s.stop := rfl
  have trimmed : b.trimToWindow (isn.at i) ((isn.at i).add p.length) =
      (isn.at (trimmedHead (B ++ A) b.maxBuffer nxt i p.length),
        isn.at (trimmedTail (B ++ A) b.maxBuffer i p.length)) := by
    obtain ⟨size, st⟩ := a
    have within := trimToWindow_within st near
    rw [blank_trimToWindow] at within
    have tail : (isn.at i).add p.length = isn.at (i + p.length : Nat) := at_add isn i p.length
    rw [tail]
    exact within
  have tailBelow := trimmedTail_le (B ++ A) b.maxBuffer i p.length
  have headAbove := le_trimmedHead (B ++ A) b.maxBuffer nxt i p.length
  generalize trimmedHead (B ++ A) b.maxBuffer nxt i p.length = h at trimmed from_ headAbove
  generalize trimmedTail (B ++ A) b.maxBuffer i p.length = t at trimmed ends tailBelow headAbove
  have member : (isn.at s.start, s.length) ∈ b.data.map fun e => (e.1, e.2.length) := by
    rw [a.entries]
    exact List.mem_map_of_mem hs
  obtain ⟨e, he, same⟩ := List.mem_map.mp member
  have key : e.1 = isn.at s.start := (Prod.mk.inj same).1
  have bytes : e.2.length = s.length := (Prod.mk.inj same).2
  refine ⟨?_, e, he, ?_⟩
  · rw [a.next, gt_at_nat (by omega) (by omega)]
    exact decide_eq_true ahead
  · rw [trimmed, key, bytes]
    simp only
    have tail : (isn.at s.start).add s.length = isn.at (s.start + s.length : Nat) :=
      at_add isn s.start s.length
    have distance : (((isn.at s.start).sub (isn.at h)).toNat : Int) = s.start - h :=
      sub_at_toNat (by omega) (by omega)
    refine ⟨?_, ?_, ⟨y - s.start, by omega, ?_⟩, x - h, by omega, ?_⟩
    · rw [lt_at_nat (by omega) (by omega)]
      exact decide_eq_true (by omega)
    · rw [tail, lt_at_nat (by omega) (by omega)]
      exact decide_eq_true (by omega)
    · obtain ⟨r, hr, above, below⟩ := named
      have byte : (isn.at s.start).add (y - s.start) = isn.at (s.start + (y - s.start) : Nat) :=
        at_add isn s.start _
      refine ⟨block isn r, ?_, ?_⟩
      · rw [reports.blocks]
        exact List.mem_map_of_mem hr
      · rw [byte, inBlock_iff (reports.inside base_le a.insideHalf r hr)]
        exact ⟨_, rfl, by omega, by omega⟩
    · have byte : (isn.at h).add (x - h) = isn.at (h + (x - h) : Nat) := at_add isn h _
      rw [byte, Nat.add_sub_cancel' from_, a.hasByte]
      rintro ⟨q, eq, r, hr, above, below⟩
      obtain ⟨rStart, rStop⟩ := a.inside r hr
      have same : (x : Int) = q := (at_eq_at (by omega) (by omega)).mp eq
      exact missing ⟨r, hr, by omega, by omega⟩

/-- The report names disjoint spans. -/
def ReportingApart (isn : SequenceNumber32) (b : TcpRxBuffer) : Prop :=
  ∃ base nxt B A K, halfMaxValue 32 ≤ base ∧ Arranged isn base nxt B A b ∧
    Reports isn nxt (B ++ A) K b.sackList ∧ K.Pairwise Span.Disjoint

theorem ReportingApart.distinct (reporting : ReportingApart isn b) : Distinct b := by
  obtain ⟨base, nxt, B, A, K, -, a, reports, apart⟩ := reporting
  exact reports.apart (reports.inside a.tiles.le a.insideHalf) apart

/-- A segment that replaces nothing reported keeps the blocks disjoint. -/
theorem ReportingApart.access (reporting : ReportingApart isn b) (keeps : b.KeepsReported c)
    (run : b.access profile c = some b') : ReportingApart isn b' := by
  obtain ⟨base, nxt, B, A, K, lead, a, reports, apart⟩ := reporting
  obtain ⟨window, keeps⟩ := keeps
  cases c with
  | add p seq =>
    obtain ⟨⟨added, b''⟩, call, rfl⟩ := map_eq_some_iff.mp run
    obtain ⟨lo, i, rfl, near⟩ := window.comparable a lead
    obtain ⟨nxt', B', A', K', a', reports', change⟩ := reports.add a near call
    refine ⟨base, nxt', B', A', K', lead, a', reports', change.distinct ?_ apart⟩
    exact fun swallows => keeps (swallows.replaces a reports near)
  | extract maxSize =>
    obtain ⟨⟨b'', packet⟩, call, rfl⟩ := map_eq_some_iff.mp run
    obtain ⟨B', a', reports'⟩ := reports.extract a call
    exact ⟨_, nxt, B', A, K, by omega, a', reports', apart⟩

/-- In every run whose segments replace nothing that is reported the blocks are distinct. -/
theorem sackList_distinct (profile : BuildProfile) (isn : SequenceNumber32) (maxBuffer : Nat)
    (calls : List Access)
    (keeps : Run.Meets (access profile) KeepsReported (empty isn maxBuffer) calls) :
    Run.Always (access profile) Distinct (empty isn maxBuffer) calls := by
  have start : ReportingApart (isn.at (-(halfMaxValue 32 : Nat) : Int)) (empty isn maxBuffer) :=
    ⟨_, _, [], [], [], le_refl _, Arranged.start isn maxBuffer _, Reports.nil, List.Pairwise.nil⟩
  exact Run.Always.of_invariant start keeps (fun _ => ReportingApart.distinct)
    fun _ _ _ reporting condition run => reporting.access condition run

/-- A segment over both ends of a packet in sequence, and one that fills a gap between two blocks
and overlaps both. -/
theorem sackList_distinct_overlapping :
    Run.Always (access .debug) Distinct (empty (.ofNat 4294967294) 32)
      [.add [5, 6] (.ofNat 2), .add [9, 10] (.ofNat 6), .add [6, 7, 8, 9] (.ofNat 3),
        .add [1, 2, 3] (.ofNat 4294967294), .extract 2] :=
  sackList_distinct .debug (.ofNat 4294967294) 32
    [.add [5, 6] (.ofNat 2), .add [9, 10] (.ofNat 6), .add [6, 7, 8, 9] (.ofNat 3),
      .add [1, 2, 3] (.ofNat 4294967294), .extract 2] (by decide)

/-- A segment around a stored packet: the block of the packet stays behind the new one. -/
theorem sackList_contained : ∃ b, Run.exec (access .debug) (empty (.ofNat 0) 32)
        [.add [3, 4] (.ofNat 3), .add [2, 3, 4, 5] (.ofNat 2)] = some b ∧
      b.sackList = [(.ofNat 2, .ofNat 6), (.ofNat 3, .ofNat 5)] ∧ ¬ Distinct b := by
  have ran : (Run.exec (access .debug) (empty (.ofNat 0) 32)
      [.add [3, 4] (.ofNat 3), .add [2, 3, 4, 5] (.ofNat 2)]).any (fun b =>
        b.sackList = [(.ofNat 2, .ofNat 6), (.ofNat 3, .ofNat 5)]) = true := by
    decide
  obtain ⟨b, run, holds⟩ := (Option.any_eq_true _ _).mp ran
  have report := of_decide_eq_true holds
  refine ⟨b, run, report, fun distinct => ?_⟩
  rw [Distinct, report] at distinct
  obtain ⟨neither, -, -⟩ := (List.pairwise_cons.mp distinct).1 _ List.mem_cons_self
  exact neither (.ofNat 3) (by decide)

end Distinct

end Ns3.TcpRxBuffer
