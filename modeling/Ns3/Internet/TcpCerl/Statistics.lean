import Ns3.Internet.TcpCerl.Basic
import Ns3.Library.Extremes
import Ns3.Library.Run
import Mathlib.Algebra.Order.BigOperators.Group.List
import Mathlib.Data.Int.ConditionallyCompleteOrder

/-!
# The statistics of CERL+ and CERL-X

`TcpCerlPlus` adds the sum and the number of the round-trip times to the statistics of
`TcpCerl`, and `TcpCerlX` keeps the samples of a sliding window. An insertion updates
the statistics through the inherited `PktsAcked`; an eviction computes the smallest
delay and the longest queue again from the window.

`AddPkt` reads the evicted sample through a reference into the deque after `pop_front`.
What such a read gives is a parameter.
-/

namespace Ns3.TcpCerl

open List

/-! ## The classes -/

/-- A `Time` after an operation. Its overflow is undefined; the value is then the one
of two's complement. -/
def wrap64 (t : Int) : Int := t.bmod (2 ^ 64)

/-- The statistics of `TcpCerlPlus`. -/
structure Samples extends Delays where
  rttSum : Int := 0
  sampleSize : BitVec 32 := 0
  deriving DecidableEq

/-- `GetA` divides by the sum. Without samples that is a division by zero, which stops the
program; the quotient is 0 here. -/
def plus : CerlStatistics Samples where
  pktsAcked now rtt s :=
    { toDelays := delays.pktsAcked now rtt s.toDelays
      rttSum := wrap64 (s.rttSum + rtt), sampleSize := s.sampleSize + 1 }
  isCongestionLoss s := scaled s.lMax (s.rttMin * s.sampleSize.toNat) s.rttSum ≤ s.l

/-- `TcpCerlX::PktInfo`. -/
structure PktInfo where
  rtt : Int
  ts : Int
  deriving DecidableEq

/-- The statistics of `TcpCerlX`. The multiset of round-trip times is a list in ascending
order. -/
structure Window extends Samples where
  samples : List PktInfo := []
  sampleRtts : List Int := []
  windowSize : BitVec 32 := 60
  deriving DecidableEq

/-- The age of a sample is above the window's size, which is in seconds. -/
def expired (windowSize : BitVec 32) (now : Int) (info : PktInfo) : Bool :=
  (windowSize.toNat : Int) * 10 ^ 9 < now - info.ts

/-- What `lastSample.rtt` reads after `pop_front`, by the members before it. -/
abbrev Popped := Window → BitVec 64

/-- The insertion of `AddPkt`. -/
def Window.push (info : PktInfo) (s : Window) : Window :=
  { s with samples := s.samples ++ [info]
           sampleRtts := s.sampleRtts.orderedInsert (· ≤ ·) info.rtt }

/-- The eviction of `AddPkt`: the statistics are computed again. -/
def Window.pop (popped : Popped) (front : PktInfo) (rest : List PktInfo) (s : Window) : Window :=
  let sampleRtts := s.sampleRtts.erase front.rtt
  let rttMin := sampleRtts.headD 0
  { s with samples := rest, sampleRtts, rttMin, lMax := sampleRtts.getLastD 0 - rttMin
           rttSum := wrap64 (s.rttSum - (popped s).toInt), sampleSize := s.sampleSize - 1 }

/-- `AddPkt`. -/
def Window.addPkt (popped : Popped) (now : Int) (info : PktInfo) (s : Window) : Window :=
  let s := s.push info
  match s.samples with
  | front :: rest =>
    if 2 < s.samples.length ∧ expired s.windowSize now front then s.pop popped front rest else s
  | [] => s

/-- `TcpCerlX`. -/
def sliding (popped : Popped) : CerlStatistics Window where
  pktsAcked now rtt s :=
    { s with toSamples := plus.pktsAcked now rtt s.toSamples }.addPkt popped now ⟨rtt, now⟩
  isCongestionLoss s := plus.isCongestionLoss s.toSamples

/-! ## Calls of PktsAcked -/

/-- A call of `PktsAcked`: the clock and the round-trip time. -/
structure Sample where
  now : Int
  rtt : Int
  deriving DecidableEq

/-- A round-trip time is a duration that fits in a `Time`. -/
def Sample.Valid (a : Sample) : Prop := 0 ≤ a.rtt ∧ a.rtt < 2 ^ 63
  deriving Decidable

/-- One call. It always returns. -/
def ack {τ : Type} (stats : CerlStatistics τ) (t : τ) (a : Sample) : Option τ :=
  some (stats.pktsAcked a.now a.rtt t)

/-- The window before its first sample. -/
def Window.start (windowSize : BitVec 32) : Window := { windowSize }

/-! ## The window alone -/

/-- The sample that a call evicts, with the ones that remain. -/
def evicted (windowSize : BitVec 32) (a : Sample) (samples : List PktInfo) :
    Option (PktInfo × List PktInfo) :=
  match samples with
  | first :: second :: rest =>
    if expired windowSize a.now first then some (first,
      second :: rest ++ [⟨a.rtt, a.now⟩]) else none
  | _ => none

/-- The samples after a call. -/
def slide (windowSize : BitVec 32) (a : Sample) (samples : List PktInfo) : List PktInfo :=
  match evicted windowSize a samples with
  | some (_, rest) => rest
  | none => samples ++ [⟨a.rtt, a.now⟩]

/-- The round-trip times of samples. -/
def rtts (samples : List PktInfo) : List Int := samples.map (·.rtt)

/-- The members after the insertion of a call. -/
def Window.inserted (a : Sample) (s : Window) : Window :=
  { s with toSamples := plus.pktsAcked a.now a.rtt s.toSamples }.push ⟨a.rtt, a.now⟩

variable {popped : Popped} {s : Window} {a : Sample}

theorem evicted_cons_cons {windowSize : BitVec 32} {front second : PktInfo} {later : List PktInfo} :
    evicted windowSize a (front :: second :: later) =
      if expired windowSize a.now front then
        some (front, second :: later ++ [⟨a.rtt, a.now⟩]) else none := rfl

/-- What is evicted is the front of at least two samples. -/
theorem evicted_eq_some {windowSize : BitVec 32} {samples rest : List PktInfo} {front : PktInfo}
    (evicts : evicted windowSize a samples = some (front, rest)) :
    ∃ second later, samples = front :: second :: later ∧
      rest = second :: later ++ [⟨a.rtt, a.now⟩] ∧ expired windowSize a.now front = true := by
  match samples, evicts with
  | [], evicts => cases evicts
  | [_], evicts => cases evicts
  | first :: second :: later, evicts =>
    rw [evicted_cons_cons] at evicts
    split at evicts
    case isTrue old =>
      cases evicts
      exact ⟨second, later, rfl, rfl, old⟩
    case isFalse => cases evicts

/-- Everything a call does to the members. -/
theorem sliding_cases (popped : Popped) (s : Window) (a : Sample) :
    (∃ front rest, evicted s.windowSize a s.samples = some (front, rest) ∧
      (sliding popped).pktsAcked a.now a.rtt s = (s.inserted a).pop popped front rest) ∨
    (evicted s.windowSize a s.samples = none ∧
      (sliding popped).pktsAcked a.now a.rtt s = s.inserted a) := by
  have call : (sliding popped).pktsAcked a.now a.rtt s =
      { s with toSamples := plus.pktsAcked a.now a.rtt s.toSamples }.addPkt popped a.now
        ⟨a.rtt, a.now⟩ := rfl
  rw [call, Window.addPkt]
  have pushed : ({ s with toSamples := plus.pktsAcked a.now a.rtt s.toSamples }.push
      ⟨a.rtt, a.now⟩ : Window) = s.inserted a := rfl
  have samples : (s.inserted a).samples = s.samples ++ [⟨a.rtt, a.now⟩] := rfl
  have size : (s.inserted a).windowSize = s.windowSize := rfl
  rw [pushed]
  simp only [samples, size]
  match s.samples with
  | [] => exact .inr ⟨rfl, rfl⟩
  | [first] => exact .inr ⟨rfl, rfl⟩
  | first :: second :: later =>
    have long : 2 < (first :: second :: later ++ [(⟨a.rtt, a.now⟩ : PktInfo)]).length := by simp
    by_cases old : expired s.windowSize a.now first = true
    · exact .inl ⟨first, _, if_pos old, if_pos ⟨long, old⟩⟩
    · exact .inr ⟨if_neg old, if_neg fun both => old both.2⟩

/-! ## Agreement with the window -/

/-- The statistics are those of the samples in the window. -/
structure Agrees (s : Window) : Prop where
  sampleRtts : s.sampleRtts.Perm (rtts s.samples)
  sampleSize : s.sampleSize.toNat = s.samples.length
  rttSum : s.rttSum = (rtts s.samples).sum
  rttMin : (rtts s.samples).minimum = s.rttMin
  lMax : (rtts s.samples).maximum = (s.rttMin + s.lMax : Int)

/-- A call that the sum and the number survive: an evicted sample still reads as it was,
and the window is not too large for the two members. -/
structure Counts (popped : Popped) (s : Window) (a : Sample) : Prop where
  reads : ∀ front rest, evicted s.windowSize a s.samples = some (front, rest) →
    (popped (s.inserted a)).toInt = front.rtt
  number : (slide s.windowSize a s.samples).length < 2 ^ 32
  sum : (rtts (slide s.windowSize a s.samples)).sum < 2 ^ 63

/-- What a call must meet for the agreement. Without an eviction its round-trip time is
not a new minimum. -/
structure Tracks (popped : Popped) (s : Window) (a : Sample) : Prop extends Counts popped s a where
  least : evicted s.windowSize a s.samples = none → s.samples ≠ [] → s.rttMin ≤ a.rtt

/-- Between calls: all of the agreement but for `m_lMax`, or a window that is as new. -/
structure Sound (s : Window) : Prop where
  ascending : s.sampleRtts.Pairwise (· ≤ ·)
  sampleRtts : s.sampleRtts.Perm (rtts s.samples)
  sampleSize : s.sampleSize.toNat = s.samples.length
  rttSum : s.rttSum = (rtts s.samples).sum
  valid : ∀ r ∈ rtts s.samples, 0 ≤ r ∧ r < 2 ^ 63
  least : s.samples = [] ∧ s.toDelays = {} ∨ s.samples ≠ [] ∧ (rtts s.samples).minimum = s.rttMin

/-- Between calls: the agreement, or a window that is as new. -/
structure Exact (s : Window) : Prop extends Sound s where
  greatest : s.samples ≠ [] → (rtts s.samples).maximum = (s.rttMin + s.lMax : Int)

theorem sound_start (windowSize : BitVec 32) : Sound (.start windowSize) where
  ascending := .nil
  sampleRtts := .nil
  sampleSize := rfl
  rttSum := rfl
  valid := nofun
  least := .inl ⟨rfl, rfl⟩

theorem exact_start (windowSize : BitVec 32) : Exact (.start windowSize) :=
  ⟨sound_start windowSize, fun some_ => absurd rfl some_⟩

theorem Sound.rttMin (h : Sound s) (some_ : s.samples ≠ []) :
    (rtts s.samples).minimum = s.rttMin := by
  obtain ⟨empty, -⟩ | ⟨-, least⟩ := h.least
  · exact absurd empty some_
  · exact least

theorem Exact.agrees (h : Exact s) (some_ : s.samples ≠ []) : Agrees s :=
  ⟨h.sampleRtts, h.sampleSize, h.rttSum, h.rttMin some_, h.greatest some_⟩

theorem wrap64_range (t : Int) : -2 ^ 63 ≤ wrap64 t ∧ wrap64 t < 2 ^ 63 := by
  have low := @Int.le_bmod t (2 ^ 64) (by decide)
  have high := @Int.bmod_lt t (2 ^ 64) (by decide)
  rw [wrap64]
  omega

theorem wrap64_of_range {t : Int} (low : -2 ^ 63 ≤ t) (high : t < 2 ^ 63) : wrap64 t = t := by
  rw [wrap64, Int.bmod_def]
  omega

/-- A sum that one value enters and another leaves. -/
theorem wrap64_sub_eq_iff {sum front : Int} {read : BitVec 64} (nonneg : 0 ≤ sum)
    (range : 0 ≤ front ∧ front < 2 ^ 63) :
    wrap64 (front + sum - read.toInt) = sum ↔ read.toInt = front ∧ sum < 2 ^ 63 := by
  have low := BitVec.le_toInt read
  have high := @BitVec.toInt_lt 64 read
  constructor
  · intro same
    have small := (wrap64_range (front + sum - read.toInt)).2
    refine ⟨?_, same ▸ small⟩
    rw [same] at small
    rw [wrap64, Int.bmod_def] at same
    omega
  · rintro ⟨same, small⟩
    rw [same, add_sub_cancel_left]
    exact wrap64_of_range (by omega) small

theorem wrap64_eq_iff {sum : Int} (nonneg : 0 ≤ sum) : wrap64 sum = sum ↔ sum < 2 ^ 63 := by
  constructor
  · intro same
    exact same ▸ (wrap64_range sum).2
  · intro small
    exact wrap64_of_range (by omega) small

@[simp] theorem rtts_concat (samples : List PktInfo) (info : PktInfo) :
    rtts (samples ++ [info]) = rtts samples ++ [info.rtt] := by simp [rtts]

@[simp] theorem rtts_cons (info : PktInfo) (samples : List PktInfo) :
    rtts (info :: samples) = info.rtt :: rtts samples := rfl

@[simp] theorem rtts_length (samples : List PktInfo) : (rtts samples).length = samples.length :=
  length_map _

variable {samples : List PktInfo}

@[simp] theorem rtts_eq_nil : rtts samples = [] ↔ samples = [] :=
  map_eq_nil_iff

theorem rtts_sum_nonneg (valid : ∀ r ∈ rtts samples, 0 ≤ r ∧ r < 2 ^ 63) :
    0 ≤ (rtts samples).sum :=
  sum_nonneg fun r mem => (valid r mem).1

/-! ## One call -/

theorem Sound.sampleRtts_inserted (h : Sound s) :
    (s.inserted a).sampleRtts.Pairwise (· ≤ ·) ∧
      (s.inserted a).sampleRtts.Perm (rtts (s.inserted a).samples) := by
  constructor
  · exact h.ascending.orderedInsert a.rtt _
  · have same := @Extremes.perm_push _ _ _ a.rtt _ h.sampleRtts
    rwa [← rtts_concat _ ⟨a.rtt, a.now⟩] at same

theorem Sound.sampleSize_inserted (h : Sound s) :
    (s.inserted a).sampleSize.toNat = (s.samples.length + 1) % 2 ^ 32 := by
  have size : (s.inserted a).sampleSize = s.sampleSize + 1 := rfl
  rw [size, BitVec.toNat_add, h.sampleSize]
  rfl

theorem Sound.rttSum_inserted (h : Sound s) :
    (s.inserted a).rttSum = wrap64 (rtts (s.inserted a).samples).sum := by
  have sum : (s.inserted a).rttSum = wrap64 (s.rttSum + a.rtt) := rfl
  have samples : (s.inserted a).samples = s.samples ++ [⟨a.rtt, a.now⟩] := rfl
  rw [sum, samples, rtts_concat, sum_append, sum_singleton, h.rttSum]

theorem Sound.rttMin_inserted (h : Sound s) (valid : a.Valid) :
    (rtts (s.inserted a).samples).minimum = ((s.inserted a).rttMin : Int) := by
  have samples : (s.inserted a).samples = s.samples ++ [⟨a.rtt, a.now⟩] := rfl
  have rttMin : (s.inserted a).rttMin = min a.rtt s.rttMin := rfl
  rw [samples, rttMin, rtts_concat, min_comm]
  obtain ⟨empty, fresh⟩ | ⟨-, least⟩ := h.least
  · have start : s.rttMin = 2 ^ 63 - 1 := congrArg Delays.rttMin fresh
    have low := valid.2
    rw [empty, start, min_eq_right (by omega)]
    rfl
  · exact Extremes.minimum_concat_min least

/-- The longest queue after an insertion: it is the one of the window unless the
round-trip time is a new minimum. -/
theorem Exact.lMax_inserted (h : Exact s) (valid : a.Valid) :
    (rtts (s.inserted a).samples).maximum = ((s.inserted a).rttMin + (s.inserted a).lMax : Int) ↔
      (s.samples ≠ [] → s.rttMin ≤ a.rtt) := by
  have samples : (s.inserted a).samples = s.samples ++ [⟨a.rtt, a.now⟩] := rfl
  have rttMin : (s.inserted a).rttMin = min a.rtt s.rttMin := rfl
  have lMax : (s.inserted a).lMax = max s.lMax (a.rtt - min a.rtt s.rttMin) := rfl
  rw [samples, rttMin, lMax, rtts_concat]
  obtain ⟨empty, fresh⟩ | ⟨some_, least⟩ := h.least
  · have start : s.rttMin = 2 ^ 63 - 1 := congrArg Delays.rttMin fresh
    have none_ : s.lMax = -2 ^ 63 := congrArg Delays.lMax fresh
    have low := valid.2
    refine iff_of_true ?_ fun some_ => absurd empty some_
    rw [empty, start, none_, min_eq_left (by omega), sub_self, max_eq_right (by decide), add_zero]
    rfl
  · have greatest := h.greatest some_
    have ordered := Extremes.minimum_le_maximum least greatest
    rw [Extremes.maximum_concat_max greatest, WithBot.coe_inj]
    simp only
    constructor
    · intro same _
      omega
    · intro above
      have above := above some_
      omega

/-- The members after an eviction. -/
theorem Sound.evict (h : Sound s) (popped : Popped) {front : PktInfo} {rest : List PktInfo}
    (evicts : evicted s.windowSize a s.samples = some (front, rest)) :
    let t := (s.inserted a).pop popped front rest
    t.sampleRtts.Pairwise (· ≤ ·) ∧ t.sampleRtts.Perm (rtts rest) ∧
      t.sampleSize.toNat = rest.length ∧
      t.rttSum = wrap64 (front.rtt + (rtts rest).sum - (popped (s.inserted a)).toInt) ∧
      (rtts rest).minimum = t.rttMin ∧ (rtts rest).maximum = (t.rttMin + t.lMax : Int) := by
  intro t
  obtain ⟨second, later, samples, rest_, -⟩ := evicted_eq_some evicts
  have pushed : (s.inserted a).samples = front :: rest := by
    have pushed : (s.inserted a).samples = s.samples ++ [⟨a.rtt, a.now⟩] := rfl
    rw [pushed, samples, rest_, cons_append]
  obtain ⟨ascending, same⟩ := h.sampleRtts_inserted (a := a)
  rw [pushed, rtts_cons] at same
  have ascending : t.sampleRtts.Pairwise (· ≤ ·) := ascending.sublist List.erase_sublist
  have same : t.sampleRtts.Perm (rtts rest) := Extremes.perm_pop same
  have some_ : t.sampleRtts ≠ [] := by
    intro empty
    rw [empty, nil_perm, rtts_eq_nil, rest_] at same
    cases same
  refine ⟨ascending, same, ?_, ?_, ?_, ?_⟩
  · have size : t.sampleSize = s.sampleSize + 1 - 1 := rfl
    rw [size, BitVec.add_sub_cancel, h.sampleSize, samples, rest_]
    simp
  · have sum : t.rttSum = wrap64 ((s.inserted a).rttSum - (popped (s.inserted a)).toInt) := rfl
    rw [sum, h.rttSum_inserted, pushed, rtts_cons, sum_cons, wrap64, wrap64, Int.bmod_sub_bmod]
    rfl
  · have rttMin : t.rttMin = t.sampleRtts.headD 0 := rfl
    rw [← same.minimum_eq, rttMin]
    refine Extremes.minimum_of_ascending ascending ?_
    rw [headD_eq_head?_getD, head?_eq_some_head some_]
    rfl
  · have lMax : t.rttMin + t.lMax = t.sampleRtts.getLastD 0 := add_sub_cancel _ _
    rw [← same.maximum_eq, lMax]
    refine Extremes.maximum_of_ascending ascending ?_
    rw [getLastD_eq_getLast?, getLast?_eq_some_getLast some_]
    rfl

theorem slide_of_evicted {windowSize : BitVec 32} {samples rest : List PktInfo} {front : PktInfo}
    (evicts : evicted windowSize a samples = some (front, rest)) :
    slide windowSize a samples = rest := by
  rw [slide, evicts]

theorem slide_of_kept {windowSize : BitVec 32}
    (keeps : evicted windowSize a samples = none) :
    slide windowSize a samples = samples ++ [⟨a.rtt, a.now⟩] := by
  rw [slide, keeps]

theorem sliding_samples (popped : Popped) (s : Window) (a : Sample) :
    ((sliding popped).pktsAcked a.now a.rtt s).samples = slide s.windowSize a s.samples := by
  obtain ⟨front, rest, evicts, result⟩ | ⟨keeps, result⟩ := sliding_cases popped s a
  · rw [result, slide_of_evicted evicts]
    rfl
  · rw [result, slide_of_kept keeps]
    rfl

theorem slide_ne_nil (windowSize : BitVec 32) (a : Sample) (samples : List PktInfo) :
    slide windowSize a samples ≠ [] := by
  cases evicts : evicted windowSize a samples with
  | none => simp [slide_of_kept evicts]
  | some pair =>
    obtain ⟨second, later, -, rest, -⟩ := evicted_eq_some evicts
    simp [slide_of_evicted evicts, rest]

/-- The samples after a call are some of those before, and the new one. -/
theorem slide_subset {windowSize : BitVec 32} {info : PktInfo}
    (mem : info ∈ slide windowSize a samples) : info ∈ samples ∨ info = ⟨a.rtt, a.now⟩ := by
  cases evicts : evicted windowSize a samples with
  | none =>
    rw [slide_of_kept evicts] at mem
    simpa using mem
  | some pair =>
    obtain ⟨second, later, before, rest, -⟩ := evicted_eq_some evicts
    rw [slide_of_evicted evicts, rest] at mem
    rw [before]
    obtain mem | mem := mem_append.mp mem
    · exact .inl (mem_cons_of_mem _ mem)
    · exact .inr (mem_singleton.mp mem)

theorem Sound.valid_slide (h : Sound s) (valid : a.Valid) :
    ∀ r ∈ rtts (slide s.windowSize a s.samples), 0 ≤ r ∧ r < 2 ^ 63 := by
  intro r mem
  obtain ⟨info, inside, rfl⟩ := List.mem_map.mp mem
  obtain old | rfl := slide_subset inside
  · exact h.valid _ (List.mem_map_of_mem old)
  · exact valid

theorem Sound.front_valid (h : Sound s) {front : PktInfo} {rest : List PktInfo}
    (evicts : evicted s.windowSize a s.samples = some (front, rest)) :
    0 ≤ front.rtt ∧ front.rtt < 2 ^ 63 := by
  obtain ⟨second, later, before, -, -⟩ := evicted_eq_some evicts
  refine h.valid _ (List.mem_map_of_mem ?_)
  rw [before]
  exact mem_cons_self

/-- A call keeps the sum, the number and the smallest delay if it meets the first condition. -/
theorem Sound.step (h : Sound s) (valid : a.Valid) (counts : Counts popped s a) :
    Sound ((sliding popped).pktsAcked a.now a.rtt s) := by
  have kept := h.valid_slide valid
  have nonneg := rtts_sum_nonneg kept
  have some_ := slide_ne_nil s.windowSize a s.samples
  have small := counts.sum
  have number := counts.number
  obtain ⟨front, rest, evicts, result⟩ | ⟨keeps, result⟩ := sliding_cases popped s a
  · obtain ⟨ascending, same, size, sum, least, -⟩ := h.evict popped evicts
    rw [slide_of_evicted evicts] at nonneg kept some_ small
    rw [result]
    refine ⟨ascending, same, size, ?_, kept, .inr ⟨some_, least⟩⟩
    rw [sum]
    exact (wrap64_sub_eq_iff nonneg (h.front_valid evicts)).mpr
      ⟨counts.reads front rest evicts, small⟩
  · obtain ⟨ascending, same⟩ := h.sampleRtts_inserted (a := a)
    rw [slide_of_kept keeps] at nonneg kept some_ small number
    rw [result]
    refine ⟨ascending, same, ?_, ?_, kept, .inr ⟨some_, h.rttMin_inserted valid⟩⟩
    · rw [h.sampleSize_inserted, Nat.mod_eq_of_lt]
      · exact (@length_append _ s.samples [⟨a.rtt, a.now⟩]).symm
      · simpa using number
    · rw [h.rttSum_inserted]
      exact (wrap64_eq_iff nonneg).mpr small

theorem Exact.step (h : Exact s) (valid : a.Valid) (tracks : Tracks popped s a) :
    Exact ((sliding popped).pktsAcked a.now a.rtt s) := by
  refine ⟨h.toSound.step valid tracks.toCounts, fun _ => ?_⟩
  obtain ⟨front, rest, evicts, result⟩ | ⟨keeps, result⟩ := sliding_cases popped s a
  · obtain ⟨-, -, -, -, -, greatest⟩ := h.evict popped evicts
    rw [result]
    exact greatest
  · rw [result]
    exact (h.lMax_inserted valid).mpr (tracks.least keeps)

/-- The condition is needed: a call that does not meet it ends the agreement. -/
theorem Exact.tracks (h : Exact s) (valid : a.Valid)
    (agrees : Agrees ((sliding popped).pktsAcked a.now a.rtt s)) : Tracks popped s a := by
  have nonneg := rtts_sum_nonneg (h.valid_slide valid)
  have number : (slide s.windowSize a s.samples).length < 2 ^ 32 := by
    rw [← sliding_samples popped, ← agrees.sampleSize]
    exact BitVec.isLt _
  obtain ⟨front, rest, evicts, result⟩ | ⟨keeps, result⟩ := sliding_cases popped s a
  · obtain ⟨-, -, -, sum, -, -⟩ := h.evict popped evicts
    rw [slide_of_evicted evicts] at nonneg
    have same := agrees.rttSum
    rw [result, sum] at same
    obtain ⟨read, small⟩ := (wrap64_sub_eq_iff nonneg (h.front_valid evicts)).mp same
    refine ⟨⟨fun front' rest' evicts' => ?_, number, ?_⟩, fun keeps => ?_⟩
    · rw [evicts] at evicts'
      cases evicts'
      exact read
    · rw [slide_of_evicted evicts]
      exact small
    · rw [evicts] at keeps
      cases keeps
  · rw [slide_of_kept keeps] at nonneg
    rw [result] at agrees
    refine ⟨⟨fun front rest evicts => ?_, number, ?_⟩, fun _ => ?_⟩
    · rw [keeps] at evicts
      cases evicts
    · have same := agrees.rttSum
      rw [h.rttSum_inserted] at same
      rw [slide_of_kept keeps]
      exact (wrap64_eq_iff nonneg).mp same
    · exact (h.lMax_inserted valid).mp agrees.lMax

/-! ## Runs -/

/-- CERL-X's statistics are those of its window after every call if and only if every call
meets the condition. -/
theorem statistics_agree_iff (popped : Popped) (windowSize : BitVec 32) (calls : List Sample)
    (valid : ∀ a ∈ calls, a.Valid) :
    Run.Always (ack (sliding popped)) (fun s => s.samples = [] ∨ Agrees s)
      (.start windowSize) calls ↔
      Run.Meets (ack (sliding popped)) (Tracks popped) (.start windowSize) calls := by
  have domain : Run.Meets (ack (sliding popped)) (fun _ a => a.Valid) (.start windowSize) calls :=
    Run.Meets.of_calls valid _
  refine Run.always_iff_meets_within (exact_start windowSize) domain ?_ ?_ ?_
  · intro s inv
    by_cases empty : s.samples = []
    · exact .inl empty
    · exact .inr (inv.agrees empty)
  · intro s a t inv valid tracks returns
    cases returns
    exact inv.step valid tracks
  · intro s a inv valid always
    obtain empty | agrees := always _ rfl
    · rw [sliding_samples] at empty
      exact absurd empty (slide_ne_nil _ _ _)
    · exact inv.tracks valid agrees

/-- A memory in which the evicted sample still reads as it was. -/
def intact : Popped := fun s => BitVec.ofInt 64 (s.samples.headD ⟨0, 0⟩).rtt

/-- A third sample evicts the first one, 99 seconds later. -/
theorem statistics_agree_small :
    Run.Always (ack (sliding intact)) (fun s => s.samples = [] ∨ Agrees s) (.start 60)
      [⟨0, 100⟩, ⟨10 ^ 9, 300⟩, ⟨10 ^ 11, 200⟩] := by
  refine (statistics_agree_iff intact 60 _ (by decide)).mpr ?_
  refine .cons ?_ rfl (.cons ?_ rfl (.cons ?_ rfl trivial))
  · exact ⟨⟨nofun, by decide, by decide⟩, fun _ some_ => absurd rfl some_⟩
  · exact ⟨⟨nofun, by decide, by decide⟩, fun _ _ => by decide⟩
  · refine ⟨⟨fun front rest evicts => ?_, by decide, by decide⟩, fun keeps =>
      absurd keeps (by decide)⟩
    obtain ⟨_, _, before, -, -⟩ := evicted_eq_some evicts
    obtain ⟨rfl, -⟩ := List.cons.inj before
    decide

/-- The second sample is a new minimum, and the longest queue stays at 0 nanoseconds. -/
theorem new_minimum_disagrees :
    ∃ s, Run.exec (ack (sliding intact)) (.start 60) [⟨0, 100⟩, ⟨1, 50⟩] = some s ∧
      rtts s.samples = [100, 50] ∧ s.lMax = 0 ∧ ¬ Agrees s := by
  refine ⟨_, rfl, rfl, rfl, fun agrees => ?_⟩
  have lMax := agrees.lMax
  revert lMax
  decide

end Ns3.TcpCerl
