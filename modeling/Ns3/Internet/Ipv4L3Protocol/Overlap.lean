import Ns3.Internet.Ipv4L3Protocol.Basic
import Ns3.Library.SortedInsert
import Ns3.Library.Span
import Mathlib.Data.List.Induction
import Mathlib.Data.List.TakeWhile

/-!
# Reassembly of overlapping slices

Two paths with different MTUs cut a datagram in different ways, so the fragments that arrive may
overlap. `AddFragment` keeps them sorted by their offsets, and a walk over them finds every gap.
Whether the datagram has ended is kept in one flag, that of the last fragment in this order.
-/

namespace Ns3.Ipv4L3Protocol

open List Option

/-- The slices of one datagram in the order in which they arrive. -/
structure Arrivals where
  payload : Packet
  slices : List Span
  fits : payload.length ≤ 65515
  aligned : ∀ s ∈ slices, 8 ∣ s.start
  inside : ∀ s ∈ slices, s.stop ≤ payload.length

variable {payload : Packet} {received : List Span} {s : Span}

/-- The fragment with the bytes of a slice. -/
def pair (payload : Packet) (s : Span) : Packet × Nat := (s.slice payload, s.start)

/-- `AddFragment` for each slice. Its more-fragments flag is clear if it reaches the end. -/
def collect (payload : Packet) (received : List Span) : Fragments :=
  received.foldl (fun f s => f.addFragment (s.slice payload) s.start (s.stop ≠ payload.length)) {}

/-- The slice with the largest offset, and among several such the one received last. -/
def latest (received : List Span) : Option Span :=
  received.foldl (fun m s => if m.any fun m => s.start < m.start then m else some s) none

/-- The slices cover the payload. -/
def Covered (payload : Packet) (received : List Span) : Prop :=
  ∀ x < payload.length, Span.Covers received x

/-- The slice at the end of the list, if there is one, reaches the end of the payload. -/
def EndsLast (payload : Packet) (received : List Span) : Prop :=
  ∀ s ∈ latest received, s.stop = payload.length

/-- The slices received are entire when they cover the payload, and then the packet is it. -/
def Reassembles (profile : BuildProfile) (payload : Packet) (received : List Span) : Prop :=
  ((collect payload received).isEntire = true ↔ Covered payload received) ∧
    ((collect payload received).isEntire = true →
      (collect payload received).getPacket profile = some payload)

/-! ## The order of the fragments -/

/-- `AddFragment` walks behind the fragments whose offsets are not larger. -/
def before (s t : Span) : Bool := s.start < t.start

/-- The slices in the order in which they are kept. -/
def kept (received : List Span) : List Span := SortedInsert.sort before received

theorem kept_concat (received : List Span) (s : Span) :
    kept (received ++ [s]) = SortedInsert.insert before s (kept received) :=
  foldl_concat ..

theorem latest_concat (received : List Span) (s : Span) :
    latest (received ++ [s]) =
      if (latest received).any (fun m => s.start < m.start) then latest received else some s :=
  foldl_concat ..

theorem mem_kept : s ∈ kept received ↔ s ∈ received :=
  (SortedInsert.sort_perm before received).mem_iff

theorem before_compares (s t : Span) : SortedInsert.Compares before Span.start s t :=
  decide_eq_true_iff

theorem kept_sorted (received : List Span) : Span.Sorted (kept received) :=
  SortedInsert.sort_sorted fun s _ t _ => before_compares s t

theorem covers_kept {x : Nat} : Span.Covers (kept received) x ↔ Span.Covers received x := by
  simp only [Span.Covers, mem_kept]

theorem latest_eq (received : List Span) : latest received = (kept received).getLast? := by
  induction received using List.reverseRecOn with
  | nil => rfl
  | append_singleton received s ih =>
    rw [latest_concat, kept_concat,
      SortedInsert.getLast?_insert (fun t _ => before_compares s t) (kept_sorted received), ih]
    rfl

/-- The slice at the end has the largest offset. -/
theorem start_le_latest (last : s ∈ latest received) :
    s ∈ received ∧ ∀ t ∈ received, t.start ≤ s.start := by
  rw [latest_eq] at last
  obtain ⟨front, split⟩ := getLast?_eq_some_iff.mp last
  have sorted := kept_sorted received
  rw [split] at sorted
  refine ⟨mem_kept.mp (split ▸ mem_append_right front (mem_singleton_self s)), ?_⟩
  intro t mem
  have mem := mem_kept.mpr mem
  rw [split] at mem
  obtain earlier | here := mem_append.mp mem
  · exact (pairwise_append.mp sorted).2.2 t earlier s (mem_singleton_self s)
  · exact Nat.le_of_eq (congrArg Span.start (mem_singleton.mp here))

theorem latest_of_ne_nil (some_ : received ≠ []) : ∃ s, latest received = some s := by
  rw [latest_eq]
  refine isSome_iff_exists.mp (getLast?_isSome.mpr fun none_ => ?_)
  obtain ⟨s, mem⟩ := exists_mem_of_ne_nil received some_
  exact not_mem_nil (none_ ▸ mem_kept.mpr mem)

/-! ## `AddFragment` -/

/-- `AddFragment` for fragments that are slices. -/
theorem addFragment_pairs (spans : List Span) (flag more : Bool) (s : Span) :
    Fragments.addFragment ⟨spans.map (pair payload), flag⟩ (s.slice payload) s.start more =
      ⟨(SortedInsert.insert before s spans).map (pair payload),
        if spans.any (before s) then flag else more⟩ := by
  have same : (fun it : Packet × Nat => decide (it.2 ≤ s.start)) ∘ pair payload =
      fun t => !before s t := by
    funext t
    exact (decide_eq_decide.mpr Nat.not_lt.symm).trans decide_not
  have none_ : (spans.dropWhile fun t => !before s t).map (pair payload) = [] ↔
      spans.any (before s) = false := by
    simp
  rw [Fragments.addFragment, takeWhile_map, dropWhile_map, same, SortedInsert.insert_eq,
    map_append, map_cons]
  simp only [none_, Fragments.mk.injEq]
  refine ⟨rfl, ?_⟩
  cases spans.any (before s) <;> rfl

theorem any_before (received : List Span) (s : Span) :
    (kept received).any (before s) = (latest received).any fun m => s.start < m.start := by
  rw [Bool.eq_iff_iff, List.any_eq_true, Option.any_eq_true]
  constructor
  · rintro ⟨t, mem, less⟩
    have mem := mem_kept.mp mem
    obtain ⟨m, last⟩ := latest_of_ne_nil (ne_nil_of_mem mem)
    have least := (start_le_latest last).2 t mem
    exact ⟨m, last, decide_eq_true (Nat.lt_of_lt_of_le (of_decide_eq_true less) least)⟩
  · rintro ⟨m, last, less⟩
    exact ⟨m, mem_kept.mpr (start_le_latest last).1, less⟩

theorem collect_eq (payload : Packet) (received : List Span) :
    collect payload received = ⟨(kept received).map (pair payload),
      (latest received).any fun s => s.stop ≠ payload.length⟩ := by
  induction received using List.reverseRecOn with
  | nil => rfl
  | append_singleton received s ih =>
    have next : collect payload (received ++ [s]) = (collect payload received).addFragment
        (s.slice payload) s.start (s.stop ≠ payload.length) := foldl_concat ..
    rw [next, ih, addFragment_pairs, any_before, kept_concat, latest_concat]
    split <;> rfl

/-! ## `IsEntire` -/

variable {spans : List Span}

/-- The loop finds a gap unless the slices join. -/
theorem entireFrom_pairs {last : Nat} (fits : payload.length < 2 ^ 16)
    (inside : ∀ s ∈ spans, s.stop ≤ payload.length) :
    Fragments.entireFrom last (spans.map (pair payload)) = true ↔ Span.Joined last spans := by
  induction spans generalizing last with
  | nil => exact iff_of_true rfl trivial
  | cons s rest ih =>
    have here := inside s mem_cons_self
    have length := Span.length_slice here
    have stop : uint16 ((s.slice payload).length + s.start) = s.stop := by
      rw [length, Nat.add_comm]
      exact uint16_of_lt (Nat.lt_of_le_of_lt here fits)
    have later := @ih (max last s.stop) fun t mem => inside t (mem_cons_of_mem s mem)
    rw [map_cons, Fragments.entireFrom, Span.Joined, pair, stop]
    by_cases gap : last < s.start
    · rw [if_pos gap]
      exact iff_of_false Bool.false_ne_true fun joined => Nat.not_le.mpr gap joined.1
    · rw [if_neg gap, later]
      exact (and_iff_right (Nat.not_lt.mp gap)).symm

/-- The slices are entire if they cover the payload and the last one of them ends it. -/
theorem isEntire_iff (fits : payload.length < 2 ^ 16)
    (inside : ∀ s ∈ received, s.stop ≤ payload.length) (some_ : received ≠ []) :
    (collect payload received).isEntire = true ↔
      EndsLast payload received ∧ Covered payload received := by
  obtain ⟨l, last⟩ := latest_of_ne_nil some_
  obtain ⟨mem, largest⟩ := start_le_latest last
  have stored : ((kept received).map (pair payload)).isEmpty = false := by
    refine Bool.eq_false_iff.mpr fun none_ => ?_
    have none_ := map_eq_nil_iff.mp (List.isEmpty_iff.mp none_)
    exact not_mem_nil (none_ ▸ mem_kept.mpr mem)
  have ends : EndsLast payload received ↔ l.stop = payload.length := by simp [EndsLast, last]
  rw [collect_eq, Fragments.isEntire, last, ends]
  simp only [any_some, stored, Bool.not_false, Bool.and_true, Bool.and_eq_true,
    Bool.not_eq_true', decide_eq_false_iff_not, not_not]
  refine and_congr_right fun end_ => ?_
  rw [entireFrom_pairs fits fun s mem => inside s (mem_kept.mp mem),
    Span.joined_zero_iff (kept_sorted received) (fun s mem => inside s (mem_kept.mp mem))
      (mem_kept.mpr mem) end_ fun s mem => largest s (mem_kept.mp mem)]
  simp only [covers_kept, Covered]

/-! ## `GetPacket` -/

/-- A slice that begins in the front of the payload extends it up to its end. -/
theorem appendFrom_pair (profile : BuildProfile) {last : Nat} (fits : payload.length < 2 ^ 16)
    (inside : s.stop ≤ payload.length) (within : last ≤ payload.length) (start : s.start ≤ last)
    (rest : List (Packet × Nat)) :
    Fragments.appendFrom profile (payload.take last) (pair payload s :: rest) =
      Fragments.appendFrom profile (payload.take (max last s.stop)) rest := by
  have reached : uint16 (payload.take last).length = last := by
    rw [length_take, Nat.min_eq_left within]
    exact uint16_of_lt (Nat.lt_of_le_of_lt within fits)
  have length := Span.length_slice inside
  have end_ : s.start + s.length = s.stop := rfl
  rw [pair, Fragments.appendFrom, reached]
  by_cases overlap : last > s.start
  · rw [if_pos overlap]
    by_cases more : (s.slice payload).length > last - s.start
    · -- only the bytes behind the front are added
      have behind : (s.slice payload).drop (last - s.start) =
          Span.slice payload ⟨last, s.stop - last⟩ := by
        rw [Span.slice_drop]
        congr 2 <;> omega
      have fragment : Packet.createFragment profile (s.slice payload) (last - s.start)
          ((s.slice payload).length - (last - s.start)) =
            some (Span.slice payload ⟨last, s.stop - last⟩) := by
        have size : s.length - (last - s.start) = s.stop - last := by omega
        rw [Packet.createFragment_of_le (by omega) (by omega), behind, length, size]
        exact congrArg some (Span.slice_take (Nat.le_refl (s.stop - last)))
      have stop : Span.stop ⟨last, s.stop - last⟩ = max last s.stop := by
        rw [Span.stop_mk]
        omega
      rw [if_pos more, fragment, ← stop]
      exact congrArg (Fragments.appendFrom profile · rest) (Span.take_append_slice rfl)
    · rw [if_neg more, Nat.max_eq_left (by omega)]
  · rw [if_neg overlap, Nat.max_eq_right (by omega)]
    exact congrArg (Fragments.appendFrom profile · rest)
      (Span.take_append_slice (Nat.le_antisymm start (Nat.not_lt.mp overlap)))

/-- Slices that join behind the front of the payload extend it to the last of their ends. -/
theorem appendFrom_pairs (profile : BuildProfile) {last : Nat} (fits : payload.length < 2 ^ 16)
    (inside : ∀ s ∈ spans, s.stop ≤ payload.length) (within : last ≤ payload.length)
    (joined : Span.Joined last spans) :
    ∃ reached, Fragments.appendFrom profile (payload.take last) (spans.map (pair payload)) =
        some (payload.take reached) ∧ last ≤ reached ∧ ∀ s ∈ spans, s.stop ≤ reached := by
  induction spans generalizing last with
  | nil => exact ⟨last, rfl, Nat.le_refl last, fun s mem => absurd mem not_mem_nil⟩
  | cons s rest ih =>
    have here := inside s mem_cons_self
    obtain ⟨reached, run, least, all⟩ := ih (fun t mem => inside t (mem_cons_of_mem s mem))
      (Nat.max_le.mpr ⟨within, here⟩) joined.2
    refine ⟨reached, ?_, Nat.le_trans (Nat.le_max_left _ _) least, fun t mem => ?_⟩
    · rw [map_cons, appendFrom_pair profile fits here within joined.1, run]
    · obtain rfl | later := mem_cons.mp mem
      · exact Nat.le_trans (Nat.le_max_right _ _) least
      · exact all t later

/-- The packet of slices that are entire is the payload. -/
theorem getPacket_of_isEntire (profile : BuildProfile) (fits : payload.length < 2 ^ 16)
    (inside : ∀ s ∈ received, s.stop ≤ payload.length) (some_ : received ≠ [])
    (entire : (collect payload received).isEntire = true) :
    (collect payload received).getPacket profile = some payload := by
  obtain ⟨l, last⟩ := latest_of_ne_nil some_
  obtain ⟨mem, largest⟩ := start_le_latest last
  obtain ⟨ends, complete⟩ := (isEntire_iff fits inside some_).mp entire
  have mem := mem_kept.mpr mem
  have inside : ∀ s ∈ kept received, s.stop ≤ payload.length := fun s mem =>
    inside s (mem_kept.mp mem)
  have joined : Span.Joined 0 (kept received) := by
    refine (Span.joined_zero_iff (kept_sorted received) inside mem (ends l last)
      fun s mem => largest s (mem_kept.mp mem)).mpr ?_
    simpa only [covers_kept, Covered] using complete
  rw [collect_eq, Fragments.getPacket]
  cases split : kept received with
  | nil => exact absurd (split ▸ mem) not_mem_nil
  | cons s rest =>
    rw [split] at inside joined mem
    have here := inside s mem_cons_self
    obtain ⟨start, joined⟩ := joined
    have first : (s.slice payload) = payload.take s.stop := by
      have all : payload.take 0 ++ s.slice payload = payload.take s.stop :=
        Span.take_append_slice (Nat.le_zero.mp start)
      rwa [take_zero, nil_append] at all
    obtain ⟨reached, run, least, all⟩ := appendFrom_pairs profile fits
      (fun t mem => inside t (mem_cons_of_mem s mem)) here joined
    have whole : payload.length ≤ reached := by
      rw [← ends l last]
      obtain rfl | later := mem_cons.mp mem
      · exact least
      · exact all l later
    show Fragments.appendFrom profile (s.slice payload) (rest.map (pair payload)) = some payload
    rw [first, run, take_of_length_le whole]

/-! ## Every arrival -/

/-- What is received reassembles if and only if the last of the sorted slices ends the payload
once the slices cover it. -/
theorem reassembles_iff (profile : BuildProfile) (fits : payload.length < 2 ^ 16)
    (inside : ∀ s ∈ received, s.stop ≤ payload.length) (some_ : received ≠ []) :
    Reassembles profile payload received ↔
      (Covered payload received → EndsLast payload received) := by
  have entire := isEntire_iff fits inside some_
  constructor
  · rintro ⟨exact_, -⟩ complete
    exact (entire.mp (exact_.mpr complete)).1
  · intro ends
    refine ⟨?_, getPacket_of_isEntire profile fits inside some_⟩
    rw [entire]
    exact ⟨And.right, fun complete => ⟨ends complete, complete⟩⟩

/-- After each arrival the slices are entire exactly when they cover the payload, and give it,
if and only if after each one that makes them cover it the slice with the largest offset, and
of several such the last one received, ends the payload. -/
theorem arrivals_reassemble_iff (profile : BuildProfile) (a : Arrivals) :
    (∀ received, received ≠ [] → received <+: a.slices →
        Reassembles profile a.payload received) ↔
      ∀ received, received ≠ [] → received <+: a.slices →
        Covered a.payload received → EndsLast a.payload received := by
  have each (received : List Span) (some_ : received ≠ []) (arrived : received <+: a.slices) :=
    reassembles_iff profile (Nat.lt_of_le_of_lt a.fits (by decide))
      (fun s mem => a.inside s (arrived.subset mem)) some_
  exact forall₃_congr each

/-- The end of a datagram arrives in one slice, a part of it in another, and then its front. -/
def cutTwice : Arrivals where
  payload := List.replicate 176 0
  slices := [⟨96, 80⟩, ⟨96, 48⟩, ⟨0, 96⟩]
  fits := by
    rw [length_replicate]
    decide
  aligned := by decide
  inside := by
    rw [length_replicate]
    decide

/-- The slices cover the datagram and are not entire. -/
theorem cutTwice_not_entire :
    ¬ ∀ received, received ≠ [] → received <+: cutTwice.slices →
      Reassembles .debug cutTwice.payload received := by
  intro reassembles
  obtain ⟨entire, -⟩ := reassembles cutTwice.slices (by decide) (List.prefix_refl _)
  have complete : Covered cutTwice.payload cutTwice.slices := by
    intro x inside
    have inside : x < 176 := by rwa [cutTwice, List.length_replicate] at inside
    by_cases front : x < 96
    · exact ⟨⟨0, 96⟩, by decide, Nat.zero_le x, front⟩
    · exact ⟨⟨96, 80⟩, by decide, Nat.not_lt.mp front, inside⟩
  have not : (collect cutTwice.payload cutTwice.slices).isEntire = false := by decide +kernel
  exact Bool.false_ne_true (not.symm.trans (entire.mpr complete))

end Ns3.Ipv4L3Protocol
