import Mathlib.Data.List.Basic
import Mathlib.Data.List.TakeDrop
import Mathlib.Algebra.BigOperators.Group.List.Basic
import Mathlib.Algebra.GroupWithZero.Nat

/-!
# Spans of a stream

A span is an interval of positions of a stream. Two arrangements of spans occur
in reassembly: spans that tile an interval without a gap, and spans that only
stay in order. Both are defined by recursion on the list, so that a loop which
walks the list consumes them one constructor at a time.
-/

/-- The positions from `start` up to, not including, `start + length`. -/
structure Span where
  start : Nat
  length : Nat
  deriving DecidableEq

namespace Span

open List

def stop (s : Span) : Nat := s.start + s.length

@[simp] theorem stop_mk (start length : Nat) : (Span.mk start length).stop = start + length := rfl

/-- The bytes of the stream at these positions. -/
def slice {α : Type*} (stream : List α) (s : Span) : List α :=
  (stream.drop s.start).take s.length

/-- No position lies in both spans. -/
def Disjoint (s t : Span) : Prop := s.stop ≤ t.start ∨ t.stop ≤ s.start

def total (spans : List Span) : Nat := (spans.map length).sum

/-- Nonempty spans, each beginning where the former ends, from `lo` to `hi`. -/
def Tiles : Nat → List Span → Nat → Prop
  | lo, [], hi => lo = hi
  | lo, s :: rest, hi => s.start = lo ∧ 0 < s.length ∧ Tiles s.stop rest hi

/-- Spans in order from `lo` on: none begins before the former ends, and no two
begin at the same position. -/
def Ordered : Nat → List Span → Prop
  | _, [] => True
  | lo, s :: rest => lo ≤ s.start ∧ Ordered (max s.stop (s.start + 1)) rest

/-- Some span holds the position. -/
def Covers (spans : List Span) (x : Nat) : Prop := ∃ s ∈ spans, s.start ≤ x ∧ x < s.stop

section Covers

variable {front rest : List Span} {s : Span} {x : Nat}

@[simp] theorem covers_nil : ¬ Covers [] x := by
  rintro ⟨s, hs, -⟩
  cases hs

@[simp] theorem covers_cons : Covers (s :: rest) x ↔ (s.start ≤ x ∧ x < s.stop) ∨
    Covers rest x := by
  simp only [Covers, exists_mem_cons_iff]

@[simp] theorem covers_append : Covers (front ++ rest) x ↔ Covers front x ∨ Covers rest x := by
  simp [Covers, or_and_right, exists_or]

end Covers

section Slice

variable {α : Type*} {stream : List α} {s : Span}

theorem length_slice (h : s.stop ≤ stream.length) : (slice stream s).length = s.length := by
  simp only [stop] at h
  simp only [slice, length_take, length_drop]
  omega

theorem slice_take {n : Nat} (h : n ≤ s.length) :
    (slice stream s).take n = slice stream ⟨s.start, n⟩ := by
  simp only [slice, take_take, Nat.min_eq_left h]

theorem slice_drop (n : Nat) :
    (slice stream s).drop n = slice stream ⟨s.start + n, s.length - n⟩ := by
  simp [slice, drop_take]

theorem slice_append (start m n : Nat) :
    slice stream ⟨start, m⟩ ++ slice stream ⟨start + m, n⟩ = slice stream ⟨start, m + n⟩ := by
  simp [slice, take_add]

theorem take_append_slice {n : Nat} (h : s.start = n) :
    stream.take n ++ slice stream s = stream.take s.stop := by
  subst h
  rw [slice, stop, take_add]

end Slice

section Total

@[simp] theorem total_nil : total [] = 0 := rfl

@[simp] theorem total_cons (s : Span) (rest : List Span) :
    total (s :: rest) = s.length + total rest := rfl

@[simp] theorem total_append (front rest : List Span) :
    total (front ++ rest) = total front + total rest := by
  simp [total]

end Total

section Tiles

variable {lo mid hi : Nat} {front rest : List Span} {s : Span}

section

variable (h : Tiles lo front hi)
include h

theorem Tiles.total : lo + Span.total front = hi := by
  induction front generalizing lo with
  | nil => exact h
  | cons s front ih =>
    obtain ⟨start, -, tail⟩ := h
    have := ih tail
    simp only [stop, total_cons] at this ⊢
    omega

theorem Tiles.le : lo ≤ hi := by
  have := h.total
  omega

theorem Tiles.mem (hs : s ∈ front) :
    lo ≤ s.start ∧ 0 < s.length ∧ s.stop ≤ hi := by
  induction front generalizing lo with
  | nil => cases hs
  | cons t front ih =>
    obtain ⟨start, pos, tail⟩ := h
    rcases mem_cons.mp hs with rfl | hs
    · exact ⟨Nat.le_of_eq start.symm, pos, tail.le⟩
    · obtain ⟨low, nonempty, high⟩ := ih tail hs
      simp only [stop] at low
      exact ⟨by omega, nonempty, high⟩

theorem Tiles.le_of_forall {bound : Nat} (first : lo ≤ bound)
    (inside : ∀ s ∈ front, s.stop ≤ bound) : hi ≤ bound := by
  induction front generalizing lo with
  | nil => exact h ▸ first
  | cons s front ih => exact ih h.2.2 (inside s (by simp)) fun t ht => inside t (by simp [ht])

theorem Tiles.covers {x : Nat} : Covers front x ↔ lo ≤ x ∧ x < hi := by
  induction front generalizing lo with
  | nil =>
    obtain rfl : lo = hi := h
    simp only [covers_nil, false_iff]
    omega
  | cons s front ih =>
    obtain ⟨start, pos, others⟩ := h
    have le := others.le
    have stop : s.start + s.length = s.stop := rfl
    rw [covers_cons, ih others]
    omega

end

theorem Tiles.append (h : Tiles lo front mid) (h' : Tiles mid rest hi) :
    Tiles lo (front ++ rest) hi := by
  induction front generalizing lo with
  | nil =>
    cases h
    exact h'
  | cons s front ih => exact ⟨h.1, h.2.1, ih h.2.2⟩

end Tiles

section Ordered

variable {lo mid hi : Nat} {front rest spans : List Span} {s : Span}

theorem Ordered.mono (h : Ordered hi spans) (hle : lo ≤ hi) : Ordered lo spans := by
  cases spans with
  | nil => trivial
  | cons s rest => exact ⟨Nat.le_trans hle h.1, h.2⟩

theorem Ordered.mem (h : Ordered lo spans) (hs : s ∈ spans) : lo ≤ s.start := by
  induction spans generalizing lo with
  | nil => cases hs
  | cons t rest ih =>
    obtain ⟨start, tail⟩ := h
    rcases mem_cons.mp hs with rfl | hs
    · exact start
    · have := ih tail hs
      omega

theorem Ordered.tail_mem (h : Ordered lo (s :: rest)) {t : Span} (ht : t ∈ rest) :
    s.stop ≤ t.start ∧ s.start < t.start := by
  have := h.2.mem ht
  omega

theorem Ordered.sublist (h : Ordered lo spans) (hs : rest.Sublist spans) : Ordered lo rest := by
  induction hs generalizing lo with
  | slnil => trivial
  | cons s _ ih => exact (ih h.2).mono (by have := h.1; simp only [stop]; omega)
  | cons_cons s _ ih => exact ⟨h.1, ih h.2⟩

theorem Ordered.tiles_append (h : Tiles lo front mid) (h' : Ordered mid rest) :
    Ordered lo (front ++ rest) := by
  induction front generalizing lo with
  | nil =>
    cases h
    exact h'
  | cons s front ih =>
    obtain ⟨start, pos, tail⟩ := h
    refine ⟨Nat.le_of_eq start.symm, ?_⟩
    have stop : max s.stop (s.start + 1) = s.stop := by
      simp only [Span.stop]
      omega
    rw [stop]
    exact ih tail

theorem Ordered.pairwise (h : Ordered lo spans) : spans.Pairwise Disjoint := by
  induction spans generalizing lo with
  | nil => exact List.Pairwise.nil
  | cons s rest ih =>
    refine List.Pairwise.cons ?_ (ih h.2)
    intro t ht
    exact .inl (h.tail_mem ht).1

theorem Ordered.total_le (h : Ordered lo spans) (inside : ∀ s ∈ spans, s.stop ≤ hi)
    (hle : lo ≤ hi) : lo + Span.total spans ≤ hi := by
  induction spans generalizing lo with
  | nil => exact hle
  | cons s rest ih =>
    obtain ⟨start, tail⟩ := h
    have first := inside s (by simp)
    have others := ih (tail.mono (Nat.le_max_left _ _)) (fun t ht => inside t (by simp [ht])) first
    simp only [stop, total_cons] at others ⊢
    omega

end Ordered

/-- Each span begins at or before the point that `lo` and the spans in front of it reach. -/
def Joined : Nat → List Span → Prop
  | _, [] => True
  | lo, s :: rest => s.start ≤ lo ∧ Joined (max lo s.stop) rest

/-- The spans stand in the order of their starts. -/
def Sorted (spans : List Span) : Prop := spans.Pairwise fun s t => s.start ≤ t.start

section Joined

variable {lo : Nat} {spans : List Span}

/-- Sorted spans join if and only if they leave out no position in front of a later span. -/
theorem joined_iff (sorted : Sorted spans) :
    Joined lo spans ↔ ∀ x, lo ≤ x → (∃ s ∈ spans, x < s.start) → Covers spans x := by
  induction spans generalizing lo with
  | nil => simp [Joined]
  | cons s rest ih =>
    obtain ⟨first, later⟩ := pairwise_cons.mp sorted
    rw [Joined, ih later]
    constructor
    · rintro ⟨start, joined⟩ x from_ ⟨t, mem, before⟩
      by_cases here : x < s.stop
      · exact covers_cons.mpr (.inl ⟨by omega, here⟩)
      · obtain rfl | mem := mem_cons.mp mem
        · omega
        · exact covers_cons.mpr (.inr (joined x (by omega) ⟨t, mem, before⟩))
    · intro covered
      refine ⟨?_, fun x from_ before => ?_⟩
      · by_contra gap
        obtain ⟨t, mem, start, -⟩ := covered lo (Nat.le_refl _) ⟨s, mem_cons_self, by omega⟩
        obtain rfl | mem := mem_cons.mp mem
        · omega
        · have := first t mem
          omega
      · obtain ⟨t, mem, before⟩ := before
        obtain here | later := covers_cons.mp
          (covered x (by omega) ⟨t, mem_cons_of_mem s mem, before⟩)
        · omega
        · exact later

/-- Sorted spans inside an interval whose last one ends with it join from its start if and only
if they cover it. -/
theorem joined_zero_iff {hi : Nat} {l : Span} (sorted : Sorted spans)
    (inside : ∀ s ∈ spans, s.stop ≤ hi) (mem : l ∈ spans) (end_ : l.stop = hi)
    (last : ∀ s ∈ spans, s.start ≤ l.start) :
    Joined 0 spans ↔ ∀ x < hi, Covers spans x := by
  rw [joined_iff sorted]
  constructor
  · intro joined x inside'
    by_cases later : x < l.start
    · exact joined x (Nat.zero_le x) ⟨l, mem, later⟩
    · exact ⟨l, mem, by omega, by omega⟩
  · rintro covered x - ⟨s, mem', before⟩
    have end' := inside s mem'
    simp only [stop] at end'
    exact covered x (by omega)

end Joined

/-- One span begins where the other one ends. -/
def Touches (s t : Span) : Prop := t.stop = s.start ∨ s.stop = t.start

/-- Two spans that touch, as one. -/
def join (s t : Span) : Span := ⟨min s.start t.start, s.length + t.length⟩

/-- `f` takes up spans that it touches, one at a time, and becomes `g`. The others stay. -/
inductive Coalesces : Span → List Span → Span → List Span → Prop
  | done (f : Span) (spans : List Span) : Coalesces f spans f spans
  | join {f s g : Span} {front back rest : List Span} (touches : Touches f s)
      (later : Coalesces (f.join s) (front ++ back) g rest) :
      Coalesces f (front ++ s :: back) g rest

theorem Disjoint.symm {s t : Span} (h : Disjoint s t) : Disjoint t s := Or.symm h

section Join

variable {s t r f g : Span} {x : Nat} {spans rest : List Span}

theorem Touches.start_join (touches : Touches s t) :
    (s.join t).start = min s.start t.start ∧ (s.join t).stop = max s.stop t.stop := by
  have start : (s.join t).start = min s.start t.start := rfl
  have length : (s.join t).length = s.length + t.length := rfl
  simp only [Touches, stop] at *
  omega

theorem Touches.mem_join (touches : Touches s t) :
    ((s.join t).start ≤ x ∧ x < (s.join t).stop) ↔
      (s.start ≤ x ∧ x < s.stop) ∨ (t.start ≤ x ∧ x < t.stop) := by
  obtain ⟨start, end_⟩ := touches.start_join
  rcases touches with left | right
  · omega
  · omega

theorem Touches.disjoint_join (touches : Touches s t) (pos : 0 < r.length) (first : Disjoint s r)
    (second : Disjoint t r) : Disjoint (s.join t) r := by
  obtain ⟨start, end_⟩ := touches.start_join
  have length : r.start + r.length = r.stop := rfl
  have le : s.start ≤ s.stop := Nat.le_add_right _ _
  rw [Disjoint] at first second ⊢
  rcases touches with left | right
  · omega
  · omega

namespace Coalesces

section

variable (merged : Coalesces f spans g rest)
include merged

theorem covers : Covers (g :: rest) x ↔
    Covers (f :: spans) x := by
  induction merged with
  | done => rfl
  | join touches later ih =>
    rw [ih]
    simp only [covers_cons, covers_append, touches.mem_join]
    tauto

theorem sublist : rest.Sublist spans := by
  induction merged with
  | done => exact .refl _
  | join touches later ih =>
    refine ih.trans (List.Sublist.append_left ?_ _)
    exact sublist_cons_self _ _

theorem grows : g.start ≤ f.start ∧ f.stop ≤ g.stop := by
  induction merged with
  | done => exact ⟨Nat.le_refl _, Nat.le_refl _⟩
  | join touches later ih =>
    obtain ⟨start, end_⟩ := touches.start_join
    omega

/-- Spans that were disjoint stay disjoint. -/
theorem disjoint (pos : ∀ s ∈ spans, 0 < s.length)
    (apart : (f :: spans).Pairwise Disjoint) : (g :: rest).Pairwise Disjoint := by
  induction merged with
  | done => exact apart
  | @join f s g front back rest touches later ih =>
    have member : ∀ r ∈ front ++ back, r ∈ front ++ s :: back := by
      intro r hr
      rcases mem_append.mp hr with hr | hr
      · exact mem_append_left _ hr
      · exact mem_append_right _ (mem_cons_of_mem s hr)
    obtain ⟨first, others⟩ := pairwise_cons.mp apart
    have moved : (s :: (front ++ back)).Pairwise Disjoint := others.perm perm_middle fun h => h.symm
    obtain ⟨second, left⟩ := pairwise_cons.mp moved
    refine ih (fun r hr => pos r (member r hr)) (List.Pairwise.cons (fun r hr => ?_) left)
    exact touches.disjoint_join (pos r (member r hr)) (first r (member r hr)) (second r hr)

end

end Coalesces

end Join

end Span
