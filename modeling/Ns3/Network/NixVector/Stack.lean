import Ns3.Network.NixVector.Basic
import Mathlib.Data.List.Basic
import Mathlib.Data.List.Infix

/-!
# Last in, first out

Indexes are added, and then extracted by their widths in reverse order, with round trips through
a buffer at any point. This returns the indexes if no extraction begins with words that are full,
all bits are counted by 32 bits, and the size that is read with counts the length word.
-/

namespace Ns3

open BitField List Option

/-- Is it a round trip? -/
def NixCall.isRoundTrip : NixCall → Bool
  | .roundTrip _ => true
  | _ => false

/-- The extraction of an index by its width. -/
def NeighborIndex.extraction (index : NeighborIndex) : NixCall := .extract index.numberOfBits

/-- The calls that add these indexes and extract them in reverse order. -/
def stacked (indexes : List NeighborIndex) : List NixCall :=
  indexes.map .add ++ indexes.reverse.map NeighborIndex.extraction

/-- Indexes that are added and extracted, and round trips inserted between these calls. -/
structure NixScript where
  indexes : List NeighborIndex
  calls : List NixCall
  inserted : calls.filter (fun call => !call.isRoundTrip) = stacked indexes

namespace NixScript

/-- The calls return, the extractions give the indexes in reverse order, and no bits are left. -/
def LastInFirstOut (profile : BuildProfile) (s : NixScript) : Prop :=
  ∃ t, Run.exec (NixRun.step profile) {} s.calls = some t ∧
    t.extracted = s.indexes.map NeighborIndex.bits ∧ t.vector.getRemainingBits = 0

/-- No extraction begins with full words, the bits are fewer than `2 ^ 32`, and each round trip
whose size leaves out the length word is made before an index is added. -/
structure Defined (s : NixScript) : Prop where
  fits : width (fields s.indexes) < 2 ^ 32
  open_ : ∀ front, front <+: s.indexes → front ≠ [] → width (fields front) % 32 ≠ 0
  counted : ∀ before after, s.calls = before ++ .roundTrip false :: after →
    ∀ call ∈ before, call.isRoundTrip = true

end NixScript

variable {profile : BuildProfile} {s t : NixRun} {v v' : NixVector} {n bits : Nat}
  {added rest toAdd indexes : List NeighborIndex} {calls : List NixCall}

/-! ## What is to be done -/

/-- The calls that are left when `rest` is to be extracted and `toAdd` to be added before. -/
def Pending (rest toAdd : List NeighborIndex) (calls : List NixCall) : Prop :=
  calls.filter (fun call => !call.isRoundTrip) =
    toAdd.map .add ++ (rest ++ toAdd).reverse.map NeighborIndex.extraction

theorem Pending.nil (pending : Pending rest toAdd []) : rest = [] ∧ toAdd = [] := by
  obtain ⟨none_, others⟩ := append_eq_nil_iff.mp pending.symm
  have none_ := map_eq_nil_iff.mp none_
  have others := append_eq_nil_iff.mp (reverse_eq_nil_iff.mp (map_eq_nil_iff.mp others))
  exact ⟨others.1, none_⟩

theorem Pending.add {index : NeighborIndex} (pending : Pending rest toAdd (.add index :: calls)) :
    ∃ later, toAdd = index :: later ∧ Pending (rest ++ [index]) later calls := by
  rw [Pending, filter_cons_of_pos rfl] at pending
  cases toAdd with
  | nil =>
    rw [map_nil, nil_append] at pending
    have mem : NixCall.add index ∈ (rest ++ []).reverse.map NeighborIndex.extraction :=
      pending ▸ mem_cons_self
    obtain ⟨_, _, same⟩ := List.mem_map.mp mem
    cases same
  | cons first later =>
    obtain ⟨same, others⟩ := List.cons.inj pending
    cases same
    refine ⟨later, rfl, ?_⟩
    rw [Pending, others, append_assoc]
    rfl

theorem Pending.extract (pending : Pending rest toAdd (.extract n :: calls)) :
    ∃ front index, toAdd = [] ∧ rest = front ++ [index] ∧ n = index.numberOfBits ∧
      Pending front [] calls := by
  rw [Pending, filter_cons_of_pos rfl] at pending
  cases toAdd with
  | cons first later => cases (List.cons.inj pending).1
  | nil =>
    rw [map_nil, nil_append, append_nil] at pending
    obtain none_ | ⟨front, index, rfl⟩ := eq_nil_or_concat' rest
    · rw [none_] at pending
      exact absurd pending (cons_ne_nil _ _)
    · rw [reverse_append, map_append] at pending
      obtain ⟨same, others⟩ := List.cons.inj pending
      cases same
      refine ⟨front, index, rfl, rfl, rfl, ?_⟩
      rw [Pending, others, append_nil]
      rfl

theorem Pending.roundTrip {counted : Bool}
    (pending : Pending rest toAdd (.roundTrip counted :: calls)) : Pending rest toAdd calls := by
  rwa [Pending, filter_cons_of_neg (by simp [NixCall.isRoundTrip])] at pending

/-! ## Enough bits for the extractions -/

/-- The number of bits that are extracted. -/
def extractedBits : List NixCall → Nat
  | [] => 0
  | .extract numberOfBits :: rest => numberOfBits + extractedBits rest
  | _ :: rest => extractedBits rest

/-- An extraction that returns takes bits that are left. -/
theorem extract_used (run : v.extractNeighborIndex n = some (bits, v')) :
    n ≤ v.getRemainingBits ∧ v' = { v with used := UInt32.add v.used n } := by
  rw [NixVector.extractNeighborIndex] at run
  by_cases large : n > 32
  · rw [if_pos large] at run
    cases run
  by_cases few : n > v.getRemainingBits
  · rw [if_neg large, if_pos few] at run
    cases run
  by_cases none_ : n ≤ 0
  · rw [if_neg large, if_neg few, if_pos none_] at run
    cases run
  rw [if_neg large, if_neg few, if_neg none_] at run
  refine ⟨Nat.not_lt.mp few, ?_⟩
  simp only [bind_eq_bind, bind_eq_some_iff] at run
  obtain ⟨_, _, _, _, run⟩ := run
  split at run
  · simp only [bind_eq_some_iff] at run
    obtain ⟨_, _, _, _, _, _, last⟩ := run
    cases last
    rfl
  · simp only [bind_eq_some_iff] at run
    obtain ⟨_, _, last⟩ := run
    cases last
    rfl

theorem extract_remaining (run : v.extractNeighborIndex n = some (bits, v')) :
    n + v'.getRemainingBits = v.getRemainingBits := by
  obtain ⟨le, rfl⟩ := extract_used run
  simp only [NixVector.getRemainingBits, UInt32.sub, UInt32.add] at le ⊢
  omega

/-- The counts that are read are those in the buffer. -/
theorem deserialize_counts {size : Nat} (some_ : v.totalBitSize ≠ 0)
    (run : NixVector.deserialize profile
      (v.totalBitSize :: v.used :: v.nixVector ++ [v.epoch]) size =
      some v') : v'.totalBitSize = v.totalBitSize ∧ v'.used = v.used := by
  have zero : (v.totalBitSize :: v.used :: v.nixVector ++ [v.epoch])[0]? = some v.totalBitSize :=
    rfl
  have one : (v.totalBitSize :: v.used :: v.nixVector ++ [v.epoch])[1]? = some v.used := rfl
  rw [NixVector.deserialize] at run
  simp only [zero, one, some_bind, if_neg some_] at run
  obtain ⟨_, -, run⟩ := bind_returns.mp run
  split at run
  · cases run
  · obtain ⟨_, -, run⟩ := bind_returns.mp run
    split at run
    · cases run
    · obtain ⟨_, -, last⟩ := bind_returns.mp run
      cases last
      exact ⟨rfl, rfl⟩

/-- A round trip leaves no more bits. -/
theorem roundTrip_remaining {counted : Bool} (run : v.roundTrip profile counted = some v') :
    v'.getRemainingBits ≤ v.getRemainingBits := by
  by_cases none_ : v.totalBitSize = 0
  · rw [NixVector.roundTrip_of_zero profile counted none_] at run
    cases run
    exact Nat.zero_le _
  · rw [NixVector.roundTrip, NixVector.serialize, if_neg (Nat.lt_irrefl _), if_neg none_] at run
    obtain ⟨total, used⟩ := deserialize_counts none_ run
    rw [NixVector.getRemainingBits, NixVector.getRemainingBits, total, used]

/-- Without additions, the extractions take bits that are left. -/
theorem extractedBits_le (run : Run.exec (NixRun.step profile) s calls = some t)
    (pending : Pending rest [] calls) : extractedBits calls ≤ s.vector.getRemainingBits := by
  induction calls generalizing s rest with
  | nil => exact Nat.zero_le _
  | cons call calls ih =>
    obtain ⟨m, step, run⟩ := Run.exec_cons_eq_some.mp run
    cases call with
    | add index =>
      obtain ⟨_, none_, -⟩ := pending.add
      cases none_
    | extract n =>
      obtain ⟨front, index, -, -, -, pending⟩ := pending.extract
      obtain ⟨⟨bits, vector⟩, call, last⟩ := bind_returns.mp step
      cases last
      have others := ih run pending
      have taken := extract_remaining call
      rw [extractedBits]
      simp only at others
      omega
    | roundTrip counted =>
      obtain ⟨vector, call, last⟩ := bind_returns.mp step
      cases last
      exact Nat.le_trans (ih run pending.roundTrip) (roundTrip_remaining call)

/-- The extractions of a run that returns take fewer than `2 ^ 32` bits. -/
theorem extractedBits_lt (run : Run.exec (NixRun.step profile) s calls = some t)
    (pending : Pending rest toAdd calls) : extractedBits calls < 2 ^ 32 := by
  induction calls generalizing s rest toAdd with
  | nil => exact Nat.two_pow_pos 32
  | cons call calls ih =>
    cases call with
    | add index =>
      obtain ⟨m, step, run⟩ := Run.exec_cons_eq_some.mp run
      obtain ⟨later, -, pending⟩ := pending.add
      exact ih run pending
    | extract n =>
      obtain ⟨front, index, rfl, -⟩ := pending.extract
      exact Nat.lt_of_le_of_lt (extractedBits_le run pending)
        (Nat.mod_lt _ (Nat.two_pow_pos 32))
    | roundTrip counted =>
      obtain ⟨m, step, run⟩ := Run.exec_cons_eq_some.mp run
      exact ih run pending.roundTrip

/-- All indexes are extracted. -/
theorem Pending.extractedBits (pending : Pending rest toAdd calls) :
    extractedBits calls = width (fields (rest ++ toAdd)) := by
  induction calls generalizing rest toAdd with
  | nil =>
    obtain ⟨rfl, rfl⟩ := pending.nil
    rfl
  | cons call calls ih =>
    cases call with
    | add index =>
      obtain ⟨later, rfl, next⟩ := pending.add
      rw [Ns3.extractedBits, ih next, append_assoc]
      · rfl
      · intro _ same
        cases same
    | extract n =>
      obtain ⟨front, index, rfl, rfl, rfl, next⟩ := pending.extract
      rw [Ns3.extractedBits, ih next]
      simp only [append_nil, fields_append, width_append, fields_cons, fields_nil,
        width_cons, width_nil, field_width]
      omega
    | roundTrip counted =>
      rw [Ns3.extractedBits, ih pending.roundTrip]
      intro _ same
      cases same

/-! ## Runs -/

/-- Every call finds what it needs: an extraction finds words that are not full, and a round trip
the length word counted or nothing added. -/
def Ready : List NeighborIndex → List NeighborIndex → List NixCall → Prop
  | _, _, [] => True
  | added, rest, .add index :: calls => Ready (added ++ [index]) (rest ++ [index]) calls
  | added, rest, .extract _ :: calls =>
    width (fields rest) % 32 ≠ 0 ∧ Ready added rest.dropLast calls
  | added, rest, .roundTrip counted :: calls =>
    (counted = true ∨ added = []) ∧ Ready added rest calls

/-- A run of such calls returns the indexes, and only a run of such calls returns. -/
theorem run_spec (profile : BuildProfile) (holds : s.vector.Holds added rest)
    (pending : Pending rest toAdd calls)
    (all : toAdd ≠ [] → rest = added) (fits : width (fields (added ++ toAdd)) < 2 ^ 32) :
    (Ready added rest calls → ∃ t, Run.exec (NixRun.step profile) s calls = some t ∧
        t.extracted = (rest ++ toAdd).map NeighborIndex.bits ++ s.extracted ∧
        t.vector.getRemainingBits = 0) ∧
      ∀ t, Run.exec (NixRun.step profile) s calls = some t → Ready added rest calls := by
  induction calls generalizing s added rest toAdd with
  | nil =>
    obtain ⟨rfl, rfl⟩ := pending.nil
    exact ⟨fun _ => ⟨s, rfl, rfl, holds.getRemainingBits⟩, fun _ _ => trivial⟩
  | cons call calls ih =>
    cases call with
    | add index =>
      obtain ⟨later, rfl, next⟩ := pending.add
      obtain rfl := all (cons_ne_nil _ _)
      have fits : width (fields (rest ++ [index] ++ later)) < 2 ^ 32 := by rwa [append_assoc]
      have small : width (fields (rest ++ [index])) < 2 ^ 32 := by
        rw [fields_append, width_append] at fits
        exact Nat.lt_of_le_of_lt (Nat.le_add_right _ _) fits
      obtain ⟨vector, call, holds⟩ := holds.add small
      have step : NixRun.step profile s (.add index) = some { s with vector } :=
        bind_returns.mpr ⟨vector, call, rfl⟩
      obtain ⟨forth, back⟩ := @ih { s with vector } _ _ _ holds next (fun _ => rfl) fits
      rw [Run.exec_cons, step]
      rw [append_assoc] at forth
      exact ⟨forth, back⟩
    | extract n =>
      obtain ⟨front, index, rfl, rfl, rfl, next⟩ := pending.extract
      rw [Run.exec_cons, Ready, dropLast_concat]
      by_cases full : width (fields (front ++ [index])) % 32 = 0
      · have step : NixRun.step profile s (.extract index.numberOfBits) = none := by
          rw [NixRun.step, holds.extract_undefined full]
          rfl
        rw [step]
        exact ⟨fun ready => absurd full ready.1, fun t run => by cases run⟩
      · obtain ⟨vector, call, holds⟩ := holds.extract full
        have step : NixRun.step profile s (.extract index.numberOfBits) =
            some { vector, extracted := index.bits :: s.extracted } :=
          bind_returns.mpr ⟨_, call, rfl⟩
        obtain ⟨forth, back⟩ := @ih { vector, extracted := index.bits :: s.extracted } _ _ _
          holds next (absurd rfl) fits
        rw [step]
        refine ⟨fun ready => ?_, fun t run => ⟨full, back t run⟩⟩
        obtain ⟨t, run, out, left⟩ := forth ready.2
        refine ⟨t, run, out.trans ?_, left⟩
        simp
    | roundTrip counted =>
      have next := pending.roundTrip
      rw [Run.exec_cons, Ready]
      by_cases accepted : counted = true ∨ added = []
      · obtain ⟨vector, call, holds⟩ := holds.roundTrip profile accepted
        have step : NixRun.step profile s (.roundTrip counted) = some { s with vector } :=
          bind_returns.mpr ⟨vector, call, rfl⟩
        obtain ⟨forth, back⟩ := @ih { s with vector } _ _ _ holds next all fits
        rw [step]
        exact ⟨fun ready => forth ready.2, fun t run => ⟨accepted, back t run⟩⟩
      · obtain ⟨short, some_⟩ := not_or.mp accepted
        have step : NixRun.step profile s (.roundTrip counted) = none := by
          rw [Bool.eq_false_iff.mpr short, NixRun.step, holds.roundTrip_refused profile some_]
          rfl
        rw [step]
        exact ⟨fun ready => absurd ready.1 accepted, fun t run => by cases run⟩

/-- No extraction of the pending calls begins with full words. -/
def Open (indexes : List NeighborIndex) : Prop :=
  ∀ front, front <+: indexes → front ≠ [] → width (fields front) % 32 ≠ 0

/-- Where a size leaves out the length word, nothing has been added. -/
def LengthCounted (added : List NeighborIndex) (calls : List NixCall) : Prop :=
  ∀ before after, calls = before ++ .roundTrip false :: after →
    added = [] ∧ ∀ call ∈ before, call.isRoundTrip = true

theorem open_concat {front : List NeighborIndex} {index : NeighborIndex} :
    Open (front ++ [index]) ↔ width (fields (front ++ [index])) % 32 ≠ 0 ∧ Open front := by
  constructor
  · intro open_
    refine ⟨open_ _ (prefix_refl _) (by simp), fun part isPrefix => ?_⟩
    exact open_ part (isPrefix.trans (prefix_append front [index]))
  · rintro ⟨whole, open_⟩ part isPrefix some_
    obtain rfl | inner := prefix_concat_iff.mp isPrefix
    · exact whole
    · exact open_ part inner some_

theorem counted_cons {call : NixCall} :
    LengthCounted added (call :: calls) ↔
      (call = .roundTrip false → added = []) ∧
        ((∃ before after, calls = before ++ .roundTrip false :: after) → call.isRoundTrip = true) ∧
        LengthCounted added calls := by
  constructor
  · intro counted
    refine ⟨fun here => ?_, fun ⟨before, after, later⟩ => ?_, fun before after later => ?_⟩
    · exact (counted [] calls (by rw [here]; rfl)).1
    · exact (counted (call :: before) after (by rw [later]; rfl)).2 call mem_cons_self
    · obtain ⟨none_, trips⟩ := counted (call :: before) after (by rw [later]; rfl)
      exact ⟨none_, fun other mem => trips other (mem_cons_of_mem call mem)⟩
  · rintro ⟨here, trip, counted⟩ before after split
    cases before with
    | nil =>
      obtain ⟨rfl, -⟩ := List.cons.inj split
      exact ⟨here rfl, nofun⟩
    | cons first before =>
      obtain ⟨rfl, later⟩ := List.cons.inj split
      obtain ⟨none_, trips⟩ := counted before after later
      refine ⟨none_, fun other mem => ?_⟩
      obtain rfl | mem := mem_cons.mp mem
      · exact trip ⟨before, after, later⟩
      · exact trips other mem

theorem counted_of_ne_nil (some_ : added ≠ []) :
    LengthCounted added calls ↔ ¬ ∃ before after, calls = before ++ .roundTrip false :: after := by
  constructor
  · rintro counted ⟨before, after, split⟩
    exact some_ (counted before after split).1
  · intro none_ before after split
    exact absurd ⟨before, after, split⟩ none_

/-- Behind a call that is no round trip, the length word is always counted. -/
theorem counted_behind {call : NixCall} (other : call.isRoundTrip = false) (some_ : rest ≠ []) :
    LengthCounted added (call :: calls) ↔ LengthCounted rest calls := by
  have trip : call ≠ .roundTrip false := by
    rintro rfl
    cases other
  rw [counted_cons, counted_of_ne_nil some_, other]
  constructor
  · rintro ⟨-, none_, -⟩ split
    exact Bool.false_ne_true (none_ split)
  · intro none_
    exact ⟨fun same => absurd same trip, fun split => absurd split none_,
      fun before after split => absurd ⟨before, after, split⟩ none_⟩

/-- The calls find what they need if and only if no extraction begins with full words and every
round trip has its size. -/
theorem ready_iff (pending : Pending rest toAdd calls) (unused : rest <+: added)
    (all : toAdd ≠ [] → rest = added) :
    Ready added rest calls ↔ Open (rest ++ toAdd) ∧ LengthCounted added calls := by
  induction calls generalizing added rest toAdd with
  | nil =>
    obtain ⟨rfl, rfl⟩ := pending.nil
    refine iff_of_true trivial ⟨fun front isPrefix some_ => ?_, fun before after split => ?_⟩
    · exact absurd (prefix_nil.mp isPrefix) some_
    · exact absurd split.symm (by simp)
  | cons call calls ih =>
    cases call with
    | add index =>
      obtain ⟨later, rfl, next⟩ := pending.add
      obtain rfl := all (cons_ne_nil _ _)
      rw [Ready, ih next (prefix_refl _) fun _ => rfl, append_assoc,
        counted_behind rfl (concat_ne_nil index rest)]
      rfl
    | extract n =>
      obtain ⟨front, index, rfl, rfl, rfl, next⟩ := pending.extract
      have some_ : added ≠ [] := by
        rintro rfl
        exact concat_ne_nil index front (prefix_nil.mp unused)
      rw [Ready, dropLast_concat,
        ih next ((prefix_append front [index]).trans unused) (absurd rfl), append_nil,
        append_nil, open_concat, counted_behind rfl some_, and_assoc]
    | roundTrip counted =>
      have here : (NixCall.roundTrip counted = .roundTrip false → added = []) ↔
          counted = true ∨ added = [] := by
        cases counted <;> simp
      rw [Ready, ih pending.roundTrip unused all, counted_cons, here]
      have trip : (NixCall.roundTrip counted).isRoundTrip = true := rfl
      simp [trip, and_left_comm]

theorem pending_script (s : NixScript) : Pending [] s.indexes s.calls := s.inserted

/-- Indexes that are added come back last in, first out if and only if every extraction and every
round trip is defined. -/
theorem NixScript.lastInFirstOut_iff (profile : BuildProfile) (s : NixScript) :
    s.LastInFirstOut profile ↔ s.Defined := by
  have pending := pending_script s
  have ready := ready_iff pending (List.prefix_refl []) fun _ => rfl
  have counted : LengthCounted [] s.calls ↔ ∀ before after,
      s.calls = before ++ .roundTrip false :: after → ∀ call ∈ before, call.isRoundTrip = true := by
    simp [LengthCounted]
  constructor
  · rintro ⟨t, run, -⟩
    have fits := extractedBits_lt run pending
    rw [pending.extractedBits] at fits
    have spec := run_spec profile (s := {}) NixVector.holds_empty pending (fun _ => rfl) fits
    obtain ⟨open_, trips⟩ := ready.mp (spec.2 t run)
    exact ⟨fits, open_, counted.mp trips⟩
  · rintro ⟨fits, open_, trips⟩
    have spec := run_spec profile (s := {}) NixVector.holds_empty pending (fun _ => rfl) fits
    obtain ⟨t, run, out, left⟩ := spec.1 (ready.mpr ⟨open_, counted.mpr trips⟩)
    exact ⟨t, run, out.trans (List.append_nil _), left⟩

/-- Two indexes of 16 bits fill a word. -/
def fullWord : NixScript where
  indexes := [⟨1, 16, Nat.le_add_left 1 15, by decide, by decide⟩,
    ⟨2, 16, Nat.le_add_left 1 15, by decide, by decide⟩]
  calls := [.add ⟨1, 16, Nat.le_add_left 1 15, by decide, by decide⟩,
    .add ⟨2, 16, Nat.le_add_left 1 15, by decide, by decide⟩,
    .extract 16, .extract 16]
  inserted := rfl

/-- The first extraction shifts by 32 bits. -/
theorem fullWord_undefined : ¬ fullWord.LastInFirstOut .optimized := by
  rintro ⟨t, run, -⟩
  have stops : Run.exec (NixRun.step .optimized) {} fullWord.calls = none := by decide
  cases stops.symm.trans run

end Ns3
