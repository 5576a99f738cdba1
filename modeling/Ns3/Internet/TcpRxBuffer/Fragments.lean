import Ns3.Internet.TcpRxBuffer.Basic
import Ns3.Library.Span

/-!
# Fragments of the receive buffer as spans of a stream

The map of the receive buffer is read as a list of spans of one byte stream. The
loops of `Add` and `Extract` are then statements about positions; the wrapping
comparisons of the code decide them inside a window of half the sequence space.
-/

namespace Ns3.TcpRxBuffer

open SequenceNumber Span List

/-- The map entry that stores a span of the stream. -/
def entry (isn : SequenceNumber32) (stream : List Byte) (s : Span) : SequenceNumber32 × Packet :=
  (isn.at s.start, s.slice stream)

/-- The bytes held by a list of map entries. -/
def occupancy (data : List (SequenceNumber32 × Packet)) : Nat :=
  (data.map fun e => e.2.length).sum

@[simp] theorem occupancy_cons (e : SequenceNumber32 × Packet)
    (data : List (SequenceNumber32 × Packet)) :
    occupancy (e :: data) = e.2.length + occupancy data := rfl

section Window

variable {isn : SequenceNumber32} {stream : List Byte} {base : Nat}

theorem entry_length {s : Span} (h : s.stop ≤ stream.length) :
    (entry isn stream s).2.length = s.length :=
  Span.length_slice h

theorem entry_last {s : Span} (h : s.stop ≤ stream.length) :
    (entry isn stream s).1.add (entry isn stream s).2.length = isn.at s.stop := by
  rw [entry_length h, entry, at_add]
  simp [Span.stop]

theorem occupancy_map {spans : List Span} (inside : ∀ s ∈ spans, s.stop ≤ stream.length) :
    occupancy (spans.map (entry isn stream)) = Span.total spans := by
  induction spans with
  | nil => rfl
  | cons s rest ih =>
    rw [map_cons, occupancy_cons, Span.total_cons, entry_length (inside s (by simp)),
      ih fun t ht => inside t (by simp [ht])]

end Window

section Overlap

variable {data rest front : List (SequenceNumber32 × Packet)} {o : Overlap}

variable {e : SequenceNumber32 × Packet}

example : removeOverlap [] o = ([], o) := by rw [removeOverlap]

theorem removeOverlap_cons_of_gt
    (h : e.1.le o.tailSeq = false) : removeOverlap (e :: rest) o = (e :: rest, o) := by
  rw [removeOverlap]
  simp [h]

theorem removeOverlap_cons_of_below
    (first : e.1.le o.tailSeq = true) (last : (e.1.add e.2.length).gt o.headSeq = false) :
    removeOverlap (e :: rest) o =
      (e :: (removeOverlap rest o).1, (removeOverlap rest o).2) := by
  rw [removeOverlap]
  simp [first, last]

theorem removeOverlap_cons_of_embedded
    (first : e.1.le o.tailSeq = true) (last : (e.1.add e.2.length).gt o.headSeq = true)
    (embedded : (e.1.gt o.headSeq && (e.1.add e.2.length).lt o.tailSeq) = true) :
    removeOverlap (e :: rest) o =
      removeOverlap rest { o with size := UInt32.sub o.size e.2.length } := by
  rw [removeOverlap]
  simp [first, last, embedded]

/-- The head and the tail after an entry that overlaps one of them. -/
def Overlap.shrink (o : Overlap) (e : SequenceNumber32 × Packet) : Overlap :=
  { o with
    headSeq := if e.1.le o.headSeq then e.1.add e.2.length else o.headSeq
    tailSeq := if (e.1.add e.2.length).ge o.tailSeq then e.1 else o.tailSeq }

theorem removeOverlap_cons_of_overlap
    (first : e.1.le o.tailSeq = true) (last : (e.1.add e.2.length).gt o.headSeq = true)
    (embedded : (e.1.gt o.headSeq && (e.1.add e.2.length).lt o.tailSeq) = false) :
    removeOverlap (e :: rest) o =
      (e :: (removeOverlap rest (o.shrink e)).1, (removeOverlap rest (o.shrink e)).2) := by
  rw [removeOverlap]
  simp [first, last, embedded, Overlap.shrink]

/-- What one turn of the loop does, by the cases of the source. -/
theorem removeOverlap_cons_cases (e : SequenceNumber32 × Packet)
    (rest : List (SequenceNumber32 × Packet)) (o : Overlap) :
    removeOverlap (e :: rest) o = (e :: rest, o) ∨
    ((e.1.add e.2.length).gt o.headSeq = true ∧ e.1.gt o.headSeq = true ∧
      removeOverlap (e :: rest) o =
        removeOverlap rest { o with size := UInt32.sub o.size e.2.length }) ∨
    ∃ o', (o' = o ∨ o' = o.shrink e ∧ (e.1.add e.2.length).gt o.headSeq = true) ∧
      removeOverlap (e :: rest) o =
        (e :: (removeOverlap rest o').1, (removeOverlap rest o').2) := by
  cases first : e.1.le o.tailSeq with
  | false => exact .inl (removeOverlap_cons_of_gt first)
  | true =>
    cases last : (e.1.add e.2.length).gt o.headSeq with
    | false => exact .inr (.inr ⟨o, .inl rfl, removeOverlap_cons_of_below first last⟩)
    | true =>
      cases embedded : e.1.gt o.headSeq && (e.1.add e.2.length).lt o.tailSeq with
      | false =>
        exact .inr (.inr ⟨o.shrink e, .inr ⟨rfl, rfl⟩,
          removeOverlap_cons_of_overlap first last embedded⟩)
      | true =>
        refine .inr (.inl ⟨rfl, ?_, removeOverlap_cons_of_embedded first last embedded⟩)
        simp only [Bool.and_eq_true] at embedded
        exact embedded.1

theorem removeOverlap_sublist (data : List (SequenceNumber32 × Packet)) (o : Overlap) :
    (removeOverlap data o).1.Sublist data := by
  induction data generalizing o with
  | nil => exact List.Sublist.refl []
  | cons e rest ih =>
    obtain stop | ⟨-, -, erased⟩ | ⟨o', -, kept⟩ := removeOverlap_cons_cases e rest o
    · rw [stop]
    · rw [erased]
      exact (ih _).cons e
    · rw [kept]
      exact (ih o').cons_cons e

/-- The loop accounts for the entries it takes out. -/
theorem removeOverlap_size (data : List (SequenceNumber32 × Packet)) (o : Overlap) {k : Nat}
    (size : o.size = k + occupancy data) (fits : o.size < 2 ^ 32) :
    (removeOverlap data o).2.size = k + occupancy (removeOverlap data o).1 := by
  induction data generalizing o k with
  | nil => exact size
  | cons e rest ih =>
    rw [occupancy_cons] at size
    obtain stop | ⟨-, -, erased⟩ | ⟨o', changed, kept⟩ := removeOverlap_cons_cases e rest o
    · rw [stop]
      exact size
    · rw [erased]
      have less : UInt32.sub o.size e.2.length = k + occupancy rest := by
        rw [UInt32.sub_of_le (by omega) fits]
        omega
      exact ih _ less (by simp only [less]; omega)
    · rw [kept, occupancy_cons, ← Nat.add_assoc]
      have same : o'.size = o.size := by
        rcases changed with rfl | ⟨rfl, -⟩
        · rfl
        · rfl
      exact ih o' (by omega) (by omega)

/-- Entries that end at or below the head are passed over, unless the loop stops at one. -/
theorem removeOverlap_front
    (below : ∀ e ∈ front, (e.1.add e.2.length).gt o.headSeq = false)
    (rest : List (SequenceNumber32 × Packet)) :
    ((∃ e ∈ front, e.1.le o.tailSeq = false) ∧
        removeOverlap (front ++ rest) o = (front ++ rest, o)) ∨
      removeOverlap (front ++ rest) o =
        (front ++ (removeOverlap rest o).1, (removeOverlap rest o).2) := by
  induction front with
  | nil => exact .inr rfl
  | cons e front ih =>
    cases first : e.1.le o.tailSeq with
    | false => exact .inl ⟨⟨e, by simp, first⟩, removeOverlap_cons_of_gt first⟩
    | true =>
      rw [cons_append, removeOverlap_cons_of_below first (below e (by simp))]
      rcases ih fun e he => below e (by simp [he]) with ⟨⟨e', he', gt⟩, stop⟩ | past
      · exact .inl ⟨⟨e', by simp [he'], gt⟩, by rw [stop]⟩
      · exact .inr (by rw [past]; rfl)

/-- When no entry covers the head, the head stays. -/
theorem removeOverlap_headSeq
    (free : ∀ e ∈ data, (e.1.add e.2.length).gt o.headSeq = true → e.1.gt o.headSeq = true) :
    (removeOverlap data o).2.headSeq = o.headSeq := by
  induction data generalizing o with
  | nil => rfl
  | cons e rest ih =>
    have tail := fun e' (he : e' ∈ rest) => free e' (by simp [he])
    obtain stop | ⟨-, -, erased⟩ | ⟨o', changed, kept⟩ := removeOverlap_cons_cases e rest o
    · rw [stop]
    · rw [erased]
      exact ih tail
    · rw [kept]
      have same : o'.headSeq = o.headSeq := by
        rcases changed with rfl | ⟨rfl, last⟩
        · rfl
        · have gt := free e (by simp) last
          simp [Overlap.shrink, le, gt]
      rw [ih (by rw [same]; exact tail), same]

end Overlap

/-- What is left of the segment `[h, t)` after the loop over the spans: the part `[h', t')`,
which overlaps none of the spans that stay. A span that goes lies inside that part, and both
ends stay where they are in front of all spans. -/
structure Uncovered (base lo h t : Nat) (spans kept : List Span) (h' t' : Nat) : Prop where
  sublist : kept.Sublist spans
  head : h ≤ h' ∧ h' ≤ base + halfMaxValue 32
  tail : t' ≤ t ∧ base ≤ t'
  apart : ∀ s ∈ kept, s.stop ≤ h' ∨ t' ≤ s.start
  headSame : h < lo → h' = h
  tailFrom : t' = t ∨ lo ≤ t'
  headMoves : h' = h ∨ Covers spans h
  erased : ∀ s ∈ spans, s ∈ kept ∨ (h' < s.start ∧ s.stop ≤ t' ∧ s.stop < t)

namespace Uncovered

variable {base lo h t h' t' : Nat} {s : Span} {rest kept : List Span}

theorem nil (headHigh : h ≤ base + halfMaxValue 32) (tailLow : base ≤ t) :
    Uncovered base lo h t [] [] h t where
  sublist := List.Sublist.refl []
  head := ⟨le_refl h, headHigh⟩
  tail := ⟨le_refl t, tailLow⟩
  apart := nofun
  headSame := fun _ => rfl
  tailFrom := .inl rfl
  headMoves := .inl rfl
  erased := nofun

theorem stop (ordered : Ordered lo (s :: rest)) (headHigh : h ≤ base + halfMaxValue 32)
    (tailLow : base ≤ t) (behind : t < s.start) :
    Uncovered base lo h t (s :: rest) (s :: rest) h t where
  sublist := .refl _
  head := ⟨le_refl h, headHigh⟩
  tail := ⟨le_refl t, tailLow⟩
  apart := by
    intro r hr
    rcases mem_cons.mp hr with rfl | hr
    · exact .inr behind.le
    · have := (ordered.tail_mem hr).2
      exact .inr (by omega)
  headSame := fun _ => rfl
  tailFrom := .inl rfl
  headMoves := .inl rfl
  erased := fun _ hs => .inl hs

/-- A span inside the segment goes. -/
theorem erase (left : Uncovered base (max s.stop (s.start + 1)) h t rest kept h' t')
    (low : lo ≤ s.start) (embedded : h < s.start ∧ s.stop < t) :
    Uncovered base lo h t (s :: rest) kept h' t' where
  sublist := left.sublist.cons s
  head := left.head
  tail := left.tail
  apart := left.apart
  headSame := fun _ => left.headSame (by omega)
  tailFrom := by
    rcases left.tailFrom with same | from_
    · exact .inl same
    · exact .inr (by omega)
  headMoves := .inl (left.headSame (by omega))
  erased := by
    intro r hr
    rcases mem_cons.mp hr with rfl | hr
    · have same := left.headSame (by omega)
      have from_ := left.tailFrom
      exact .inr ⟨by omega, by omega, embedded.2⟩
    · exact left.erased r hr

/-- A span that covers an end of the segment stays. -/
theorem shrink (left : Uncovered base (max s.stop (s.start + 1)) (if s.start ≤ h then s.stop else h)
      (if t ≤ s.stop then s.start else t) rest kept h' t') (low : lo ≤ s.start)
    (first : s.start ≤ t) (last : h < s.stop) (notEmbedded : ¬ (h < s.start ∧ s.stop < t)) :
    Uncovered base lo h t (s :: rest) (s :: kept) h' t' := by
  have head := left.head
  have tail := left.tail
  have headSame := left.headSame
  have tailFrom := left.tailFrom
  refine
    { sublist := left.sublist.cons_cons s
      head := ⟨by split at head <;> omega, head.2⟩
      tail := ⟨by split at tail <;> omega, tail.2⟩
      apart := ?_
      headSame := fun before => ?_
      tailFrom := ?_
      headMoves := ?_
      erased := ?_ }
  · intro r hr
    rcases mem_cons.mp hr with rfl | hr
    · by_cases covered : r.start ≤ h
      · rw [if_pos covered] at head
        exact .inl head.1
      · rw [if_pos (by omega)] at tail
        exact .inr tail.1
    · exact left.apart r hr
  · rw [if_neg (by omega)] at headSame
    exact headSame (by omega)
  · split at tailFrom
    · exact .inr (by omega)
    · rcases tailFrom with same | from_
      · exact .inl same
      · exact .inr (by omega)
  · by_cases covered : s.start ≤ h
    · exact .inr ⟨s, mem_cons_self, covered, last⟩
    · have moves := left.headMoves
      rw [if_neg covered] at moves
      exact moves.imp_right (covers_cons.mpr ∘ .inr)
  · intro r hr
    rcases mem_cons.mp hr with rfl | hr
    · exact .inl mem_cons_self
    · rcases left.erased r hr with kept | ⟨above, under, inside⟩
      · exact .inl (mem_cons_of_mem s kept)
      · refine .inr ⟨above, under, ?_⟩
        split at inside <;> omega

/-- A span that ends at or below the head stays. -/
theorem below (left : Uncovered base (max s.stop (s.start + 1)) h t rest kept h' t')
    (low : lo ≤ s.start) (under : s.stop ≤ h) :
    Uncovered base lo h t (s :: rest) (s :: kept) h' t' := by
  have head := left.head
  have startStop : s.start ≤ s.stop := Nat.le_add_right _ _
  refine
    { sublist := left.sublist.cons_cons s
      head := left.head
      tail := left.tail
      apart := ?_
      headSame := fun before => absurd before (by omega)
      tailFrom := ?_
      headMoves := left.headMoves.imp_right (covers_cons.mpr ∘ .inr)
      erased := ?_ }
  · intro r hr
    rcases mem_cons.mp hr with rfl | hr
    · exact .inl (by omega)
    · exact left.apart r hr
  · rcases left.tailFrom with same | from_
    · exact .inl same
    · exact .inr (by omega)
  · intro r hr
    rcases mem_cons.mp hr with rfl | hr
    · exact .inl mem_cons_self
    · rcases left.erased r hr with kept | gone
      · exact .inl (mem_cons_of_mem s kept)
      · exact .inr gone

end Uncovered

section Positions

variable {isn : SequenceNumber32} {stream : List Byte} {base lo : Nat} {spans : List Span}

/-- All positions of the span lie in the window of half the space above `base`,
and its bytes exist. -/
def InWindow (stream : List Byte) (base : Nat) (s : Span) : Prop :=
  base ≤ s.start ∧ s.stop ≤ base + halfMaxValue 32 ∧ s.stop ≤ stream.length

variable (inside : ∀ s ∈ spans, InWindow stream base s)
include inside

theorem entry_gt_entry (s t : Span) (hs : s ∈ spans) (ht : t ∈ spans) :
    (entry isn stream t).1.gt (entry isn stream s).1 = decide (s.start < t.start) := by
  have hs := inside s hs
  have ht := inside t ht
  simp only [InWindow, Span.stop] at hs ht
  exact gt_at_nat (by omega) (by omega)

/-- A segment trimmed to nothing changes no entry and stays empty, wherever it lies. -/
theorem removeOverlap_empty (ordered : Ordered lo spans) (o : Overlap)
    (empty : o.headSeq = o.tailSeq) :
    (removeOverlap (spans.map (entry isn stream)) o).1 = spans.map (entry isn stream) ∧
      (removeOverlap (spans.map (entry isn stream)) o).2.headSeq.ge
        (removeOverlap (spans.map (entry isn stream)) o).2.tailSeq = true := by
  induction spans generalizing lo with
  | nil => simp [removeOverlap, empty, ge]
  | cons s rest ih =>
    have insideRest : ∀ t ∈ rest, InWindow stream base t := fun t ht => inside t (by simp [ht])
    rw [map_cons]
    cases first : (entry isn stream s).1.le o.tailSeq with
    | false =>
      rw [removeOverlap_cons_of_gt first]
      simp [empty, ge]
    | true =>
      cases last : ((entry isn stream s).1.add (entry isn stream s).2.length).gt
          o.headSeq with
      | false =>
        rw [removeOverlap_cons_of_below first last]
        obtain ⟨same, nothing⟩ := ih insideRest ordered.2
        exact ⟨by rw [same], nothing⟩
      | true =>
        have notGt : (entry isn stream s).1.gt o.headSeq = false := by
          simpa only [le, Bool.not_eq_true', empty] using first
        rw [removeOverlap_cons_of_overlap first last (by simp [notGt])]
        -- The entry covers the empty segment: the tail moves to its begin, so
        -- the loop stops at the next entry.
        have covers : (entry isn stream s).1.le o.headSeq = true := empty ▸ first
        have reaches : ((entry isn stream s).1.add (entry isn stream s).2.length).ge
            o.tailSeq = true := by
          rw [ge, ← empty, last, Bool.true_or]
        have head : (o.shrink (entry isn stream s)).headSeq = isn.at s.stop := by
          simp only [Overlap.shrink, covers, if_true]
          exact entry_last (inside s (by simp)).2.2
        have tail : (o.shrink (entry isn stream s)).tailSeq = isn.at s.start := by
          simp only [Overlap.shrink, reaches, if_true]
          rfl
        have stop : removeOverlap (rest.map (entry isn stream))
            (o.shrink (entry isn stream s)) =
            (rest.map (entry isn stream), o.shrink (entry isn stream s)) := by
          cases rest with
          | nil => rfl
          | cons t others =>
            refine removeOverlap_cons_of_gt ?_
            have behind : (entry isn stream t).1.gt (entry isn stream s).1 = true := by
              rw [entry_gt_entry inside s t (by simp) (by simp)]
              simpa using (ordered.tail_mem (mem_cons_self ..)).2
            rw [tail, le, Bool.not_eq_false']
            exact behind
        obtain ⟨low, high, -⟩ := inside s (by simp)
        refine ⟨by rw [stop], ?_⟩
        rw [stop]
        simp only [head, tail]
        simp only [Span.stop] at high
        rw [ge_at_nat (by simp only [Span.stop]; omega) (by simp only [Span.stop]; omega)]
        simp [Span.stop]

/-- On a segment inside the window the loop keeps a part of the segment that
overlaps none of the entries it keeps. -/
theorem removeOverlap_window (ordered : Ordered lo spans) {h t : Nat} (o : Overlap)
    (head : o.headSeq = isn.at h) (tail : o.tailSeq = isn.at t)
    (headLow : base ≤ h) (headHigh : h ≤ base + halfMaxValue 32)
    (tailLow : base ≤ t) (tailHigh : t ≤ base + halfMaxValue 32) :
    ∃ (h' t' : Nat) (kept : List Span),
      (removeOverlap (spans.map (entry isn stream)) o).2.headSeq = isn.at h' ∧
      (removeOverlap (spans.map (entry isn stream)) o).2.tailSeq = isn.at t' ∧
      (removeOverlap (spans.map (entry isn stream)) o).1 = kept.map (entry isn stream) ∧
      Uncovered base lo h t spans kept h' t' := by
  induction spans generalizing lo h t o with
  | nil => exact ⟨h, t, [], head, tail, rfl, Uncovered.nil headHigh tailLow⟩
  | cons s rest ih =>
    have insideRest : ∀ t ∈ rest, InWindow stream base t := fun t ht => inside t (by simp [ht])
    obtain ⟨low, high, exists_⟩ := inside s (by simp)
    have startStop : s.start ≤ s.stop := Nat.le_add_right _ _
    have firstLe : (entry isn stream s).1.le o.tailSeq = decide (s.start ≤ t) := by
      rw [tail]
      exact le_at_nat (by omega) (by omega)
    have lastGt : ((entry isn stream s).1.add (entry isn stream s).2.length).gt o.headSeq =
        decide (h < s.stop) := by
      rw [head, entry_last exists_]
      exact gt_at_nat (by omega) (by omega)
    rw [map_cons]
    by_cases first : s.start ≤ t
    · by_cases last : h < s.stop
      · have firstGt : (entry isn stream s).1.gt o.headSeq = decide (h < s.start) := by
          rw [head]
          exact gt_at_nat (by omega) (by omega)
        have lastLt : ((entry isn stream s).1.add (entry isn stream s).2.length).lt o.tailSeq =
            decide (s.stop < t) := by
          rw [tail, entry_last exists_]
          exact lt_at_nat (by omega) (by omega)
        by_cases embedded : h < s.start ∧ s.stop < t
        · rw [removeOverlap_cons_of_embedded (by simp [firstLe, first]) (by simp [lastGt, last])
            (by simp [firstGt, lastLt, embedded])]
          obtain ⟨h', t', kept, eh, et, ek, left⟩ := ih insideRest ordered.2
            { o with size := UInt32.sub o.size (entry isn stream s).2.length } head tail
            headLow headHigh tailLow tailHigh
          exact ⟨h', t', kept, eh, et, ek, left.erase ordered.1 embedded⟩
        · rw [removeOverlap_cons_of_overlap (by simp [firstLe, first]) (by simp [lastGt, last])
            (by simpa [firstGt, lastLt] using embedded)]
          have lastGe : ((entry isn stream s).1.add (entry isn stream s).2.length).ge
              o.tailSeq = decide (t ≤ s.stop) := by
            rw [tail, entry_last exists_]
            exact ge_at_nat (by omega) (by omega)
          have newHead : (o.shrink (entry isn stream s)).headSeq =
              isn.at (if s.start ≤ h then s.stop else h : Nat) := by
            have firstLe : (entry isn stream s).1.le o.headSeq = decide (s.start ≤ h) := by
              rw [le, firstGt]
              by_cases covered : h < s.start <;> simp [covered, Nat.not_lt.mp]
            simp only [Overlap.shrink, firstLe, entry_last exists_, decide_eq_true_eq]
            split
            · rfl
            · exact head
          have newTail : (o.shrink (entry isn stream s)).tailSeq =
              isn.at (if t ≤ s.stop then s.start else t : Nat) := by
            simp only [Overlap.shrink, lastGe, decide_eq_true_eq]
            split
            · rfl
            · exact tail
          obtain ⟨h', t', kept, eh, et, ek, left⟩ :=
            ih insideRest ordered.2 (o.shrink (entry isn stream s)) newHead newTail
              (by split <;> omega) (by split <;> omega) (by split <;> omega)
              (by split <;> omega)
          exact ⟨h', t', s :: kept, eh, et, by rw [ek]; rfl,
            left.shrink ordered.1 first last embedded⟩
      · rw [removeOverlap_cons_of_below (by simp [firstLe, first]) (by simp [lastGt, last])]
        obtain ⟨h', t', kept, eh, et, ek, left⟩ :=
          ih insideRest ordered.2 o head tail headLow headHigh tailLow tailHigh
        exact ⟨h', t', s :: kept, eh, et, by rw [ek]; rfl, left.below ordered.1 (by omega)⟩
    · rw [removeOverlap_cons_of_gt (by simp [firstLe, first])]
      exact ⟨h, t, s :: rest, head, tail, rfl,
        Uncovered.stop ordered headHigh tailLow (by omega)⟩

end Positions

end Ns3.TcpRxBuffer
