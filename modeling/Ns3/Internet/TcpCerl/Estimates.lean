import Ns3.Internet.TcpCerl.Statistics
import Mathlib.Algebra.Order.Field.Rat
import Mathlib.Algebra.Order.Field.Basic

/-!
# The order of the estimates, and the age of the samples

The queue length that CERL estimates last is not above the longest one, and the factor
of CERL+ is not above 1. CERL-X keeps the second and, with a condition, the first. Its
window slides by one sample a call.
-/

namespace Ns3.TcpCerl

open List

/-! ## The order of the estimates -/

/-- `GetA` of `TcpCerlPlus`, as an exact quotient. -/
def getA (s : Samples) : ℚ := (s.rttMin * s.sampleSize.toNat : Int) / s.rttSum

/-- The estimates of all three classes after a round-trip time. -/
structure Ordered (d : Delays) (rtt : Int) : Prop where
  nonneg : 0 ≤ d.l
  longest : d.l ≤ d.lMax
  shortest : d.rttMin ≤ rtt

/-- Those of CERL+ and CERL-X. -/
structure OrderedSamples (s : Samples) (rtt : Int) : Prop extends Ordered s.toDelays rtt where
  sum : s.rttMin * s.sampleSize.toNat ≤ s.rttSum
  factor : 0 < getA s ∧ getA s ≤ 1

instance (d : Delays) (rtt : Int) : Decidable (Ordered d rtt) :=
  decidable_of_iff (0 ≤ d.l ∧ d.l ≤ d.lMax ∧ d.rttMin ≤ rtt)
    ⟨fun ⟨nonneg, longest, shortest⟩ => ⟨nonneg, longest, shortest⟩,
      fun ⟨nonneg, longest, shortest⟩ => ⟨nonneg, longest, shortest⟩⟩

/-- The statistics with the last round-trip time. -/
structure Observed (τ : Type) where
  statistics : τ
  last : Option Int := none

/-- One call, observed. -/
def observe {τ : Type} (stats : CerlStatistics τ) (t : Observed τ) (a : Sample) :
    Option (Observed τ) :=
  some { statistics := stats.pktsAcked a.now a.rtt t.statistics, last := some a.rtt }

/-- A round-trip time that is positive. -/
def Sample.Positive (a : Sample) : Prop := 0 < a.rtt ∧ a.rtt < 2 ^ 63
  deriving Decidable

theorem Sample.Positive.valid {a : Sample} (h : a.Positive) : a.Valid := ⟨h.1.le, h.2⟩

variable {a : Sample}

theorem factor_bounds {s : Samples} (positive : 0 < s.rttMin) (some_ : 0 < s.sampleSize.toNat)
    (sum : s.rttMin * s.sampleSize.toNat ≤ s.rttSum) : 0 < getA s ∧ getA s ≤ 1 := by
  have product : 0 < s.rttMin * (s.sampleSize.toNat : Int) := mul_pos positive (by omega)
  have product : (0 : ℚ) < (s.rttMin * s.sampleSize.toNat : Int) := by exact_mod_cast product
  have below : ((s.rttMin * s.sampleSize.toNat : Int) : ℚ) ≤ s.rttSum := by exact_mod_cast sum
  have total : (0 : ℚ) < s.rttSum := product.trans_le below
  exact ⟨div_pos product total, (div_le_one total).mpr below⟩

theorem ordered_delays (d : Delays) (now rtt : Int) : Ordered (delays.pktsAcked now rtt d) rtt where
  nonneg := sub_nonneg.mpr (min_le_left _ _)
  longest := le_max_right _ _
  shortest := min_le_left _ _

/-! ## CERL+ -/

/-- A call that the sum and the number of CERL+ survive. -/
def Fits (t : Observed Samples) (a : Sample) : Prop :=
  t.statistics.rttSum + a.rtt < 2 ^ 63 ∧ t.statistics.sampleSize.toNat + 1 < 2 ^ 32

/-- CERL+ between calls. -/
structure PlusInv (t : Observed Samples) : Prop where
  sum : 0 ≤ t.statistics.rttSum ∧ t.statistics.rttSum < 2 ^ 63
  positive : 0 < t.statistics.rttMin
  below : t.statistics.rttMin * t.statistics.sampleSize.toNat ≤ t.statistics.rttSum
  ordered : ∀ rtt ∈ t.last, OrderedSamples t.statistics rtt

theorem plusInv_start : PlusInv ({ statistics := {} } : Observed Samples) :=
  ⟨⟨le_rfl, by decide⟩, by decide, by decide, nofun⟩

theorem sampleSize_plus (now rtt : Int) (s : Samples) :
    (plus.pktsAcked now rtt s).sampleSize.toNat = (s.sampleSize.toNat + 1) % 2 ^ 32 :=
  BitVec.toNat_add _ _

/-- A sample that fits keeps the product below the sum. -/
theorem PlusInv.step {t u : Observed Samples} (h : PlusInv t) (positive : a.Positive)
    (fits : Fits t a)
    (call : observe plus t a = some u) : PlusInv u := by
  cases call
  obtain ⟨sumFits, sizeFits⟩ := fits
  have total : (plus.pktsAcked a.now a.rtt t.statistics).rttSum = t.statistics.rttSum + a.rtt :=
    wrap64_of_range (by have := h.sum.1; have := positive.1; omega) sumFits
  have size := sampleSize_plus a.now a.rtt t.statistics
  rw [Nat.mod_eq_of_lt sizeFits] at size
  have least : 0 < min a.rtt t.statistics.rttMin := lt_min positive.1 h.positive
  have below : min a.rtt t.statistics.rttMin * ((t.statistics.sampleSize.toNat + 1 : Nat) : Int) ≤
      t.statistics.rttSum + a.rtt := by
    have old : min a.rtt t.statistics.rttMin * (t.statistics.sampleSize.toNat : Int) ≤
        t.statistics.rttSum :=
      (mul_le_mul_of_nonneg_right (min_le_right _ _) (by omega)).trans h.below
    have new : min a.rtt t.statistics.rttMin ≤ a.rtt := min_le_left _ _
    push_cast
    rw [mul_add, mul_one]
    exact add_le_add old new
  have sum : (plus.pktsAcked a.now a.rtt t.statistics).rttMin *
      ((plus.pktsAcked a.now a.rtt t.statistics).sampleSize.toNat : Int) ≤
        (plus.pktsAcked a.now a.rtt t.statistics).rttSum := by
    rw [total, size]
    exact below
  refine ⟨?_, least, sum, fun rtt mem => ?_⟩
  · rw [total]
    exact ⟨add_nonneg h.sum.1 positive.1.le, sumFits⟩
  · cases mem
    refine ⟨ordered_delays _ a.now a.rtt, sum, factor_bounds least ?_ sum⟩
    rw [size]
    exact Nat.succ_pos _

/-- A sample that does not fit puts the estimates out of order. -/
theorem PlusInv.fits {t : Observed Samples} (h : PlusInv t) (positive : a.Positive)
    (ordered : OrderedSamples (plus.pktsAcked a.now a.rtt t.statistics) a.rtt) : Fits t a := by
  have least : 0 < min a.rtt t.statistics.rttMin := lt_min positive.1 h.positive
  have size := sampleSize_plus a.now a.rtt t.statistics
  constructor
  · have product : 0 ≤ (plus.pktsAcked a.now a.rtt t.statistics).rttSum :=
      (mul_nonneg least.le (by omega)).trans ordered.sum
    have total : (plus.pktsAcked a.now a.rtt t.statistics).rttSum =
      wrap64 (t.statistics.rttSum + a.rtt) := rfl
    have low := h.sum
    have small := positive
    rw [total, wrap64, Int.bmod_def] at product
    unfold Sample.Positive at small
    omega
  · by_contra large
    have zero : (plus.pktsAcked a.now a.rtt t.statistics).sampleSize.toNat = 0 := by omega
    have factor := ordered.factor.1
    rw [getA, zero] at factor
    simp at factor

/-! ## CERL-X -/

/-- A call that keeps the order of CERL-X: it keeps the statistics, and where it evicts,
the round-trip times that remain spread at least as far as the new one was from the
smallest. -/
structure KeepsOrder (popped : Popped) (t : Observed Window) (a : Sample) : Prop
    extends Counts popped t.statistics a where
  spread : ∀ front rest, evicted t.statistics.windowSize a t.statistics.samples =
    some (front, rest) →
    ∃ low ∈ rtts rest, ∃ high ∈ rtts rest, a.rtt - min a.rtt t.statistics.rttMin ≤ high - low

/-- CERL-X between calls. -/
structure SlidingInv (t : Observed Window) : Prop where
  sound : Sound t.statistics
  positive : ∀ r ∈ rtts t.statistics.samples, 0 < r
  ordered : ∀ rtt ∈ t.last, OrderedSamples t.statistics.toSamples rtt

theorem slidingInv_start (windowSize : BitVec 32) : SlidingInv
    { statistics := .start windowSize } :=
  ⟨sound_start windowSize, nofun, nofun⟩

theorem Sound.product_le {s : Window} (h : Sound s) (some_ : s.samples ≠ []) :
    s.rttMin * s.sampleSize.toNat ≤ s.rttSum := by
  have least := (minimum_eq_coe_iff.mp (h.rttMin some_)).2
  have sum := card_nsmul_le_sum (rtts s.samples) s.rttMin least
  rw [rtts_length, nsmul_eq_mul, mul_comm] at sum
  rw [h.sampleSize, h.rttSum]
  exact sum

theorem mem_slide (windowSize : BitVec 32) (a : Sample) (samples : List PktInfo) :
    (⟨a.rtt, a.now⟩ : PktInfo) ∈ slide windowSize a samples := by
  cases evicts : evicted windowSize a samples with
  | none => simp [slide_of_kept evicts]
  | some pair =>
    obtain ⟨second, later, -, rest, -⟩ := evicted_eq_some evicts
    simp [slide_of_evicted evicts, rest]

/-- The estimates of a call that meets the condition are in order. -/
theorem Sound.ordered {popped : Popped} {t : Observed Window} (h : Sound t.statistics)
    (keeps : KeepsOrder popped t a)
    (next : Sound ((sliding popped).pktsAcked a.now a.rtt t.statistics)) :
    Ordered ((sliding popped).pktsAcked a.now a.rtt t.statistics).toDelays a.rtt := by
  have samples := sliding_samples popped t.statistics a
  have some_ := slide_ne_nil t.statistics.windowSize a t.statistics.samples
  have least := (minimum_eq_coe_iff.mp (next.rttMin (samples ▸ some_))).2
  rw [samples] at least
  have shortest := least _ (List.mem_map_of_mem (mem_slide _ _ _))
  obtain ⟨front, rest, evicts, result⟩ | ⟨-, result⟩ := sliding_cases popped t.statistics a
  · obtain ⟨-, -, -, -, -, greatest⟩ := h.evict popped evicts
    obtain ⟨low, lowMem, high, highMem, spread⟩ := keeps.spread front rest evicts
    rw [slide_of_evicted evicts, result] at least
    rw [result] at shortest ⊢
    have above := least low lowMem
    have below := (maximum_eq_coe_iff.mp greatest).2 high highMem
    have l : ((t.statistics.inserted a).pop popped front rest).l =
      a.rtt - min a.rtt t.statistics.rttMin := rfl
    refine ⟨?_, ?_, shortest⟩
    · rw [l]
      exact sub_nonneg.mpr (min_le_left _ _)
    · rw [l]
      omega
  · rw [result]
    exact ordered_delays _ a.now a.rtt

theorem SlidingInv.step {popped : Popped} {t u : Observed Window} (h : SlidingInv t)
    (positive : a.Positive) (keeps : KeepsOrder popped t a)
    (call : observe (sliding popped) t a = some u) : SlidingInv u := by
  cases call
  have next := h.sound.step positive.valid keeps.toCounts
  have samples := sliding_samples popped t.statistics a
  have some_ := slide_ne_nil t.statistics.windowSize a t.statistics.samples
  rw [← samples] at some_
  have above : ∀ r ∈ rtts ((sliding popped).pktsAcked a.now a.rtt t.statistics).samples, 0 < r := by
    intro r mem
    rw [samples] at mem
    obtain ⟨info, inside, rfl⟩ := List.mem_map.mp mem
    obtain old | rfl := slide_subset inside
    · exact h.positive _ (List.mem_map_of_mem old)
    · exact positive.1
  refine ⟨next, above, fun rtt mem => ?_⟩
  cases mem
  have least := above _ (minimum_eq_coe_iff.mp (next.rttMin some_)).1
  have sum := next.product_le some_
  refine ⟨h.sound.ordered keeps next, sum, factor_bounds least ?_ sum⟩
  rw [next.sampleSize]
  exact length_pos_iff.mpr some_

/-! ## Every state of a run -/

/-- The estimates of `TcpCerl` are in order after every call. Those of CERL+ are if and
only if its sum and its number do not overflow, and those of CERL-X are where no eviction
leaves the round-trip times closer together than the last queue length. -/
theorem estimates_ordered (popped : Popped) (windowSize : BitVec 32) (calls : List Sample)
    (positive : ∀ a ∈ calls, a.Positive) :
    Run.Always (observe delays) (fun t => ∀ rtt ∈ t.last, Ordered t.statistics rtt)
        { statistics := {} } calls ∧
      (Run.Always (observe plus) (fun t => ∀ rtt ∈ t.last, OrderedSamples t.statistics rtt)
          { statistics := {} } calls ↔
        Run.Meets (observe plus) Fits { statistics := {} } calls) ∧
      (Run.Meets (observe (sliding popped)) (KeepsOrder popped) { statistics := .start windowSize }
          calls →
        Run.Always (observe (sliding popped))
          (fun t => ∀ rtt ∈ t.last, OrderedSamples t.statistics.toSamples rtt)
          { statistics := .start windowSize } calls) := by
  have domain {τ : Type} (stats : CerlStatistics τ) (start : Observed τ) :
      Run.Meets (observe stats) (fun _ a => a.Positive) start calls :=
    Run.Meets.of_calls positive _
  refine ⟨?_, ?_, fun keeps => ?_⟩
  · have start : ∀ rtt ∈ ({ statistics := {} } : Observed Delays).last,
        Ordered ({} : Delays) rtt := nofun
    refine Run.Always.of_invariant start (domain delays _) (fun _ ordered => ordered) ?_
    intro s a t _ _ call rtt mem
    cases call
    cases mem
    exact ordered_delays _ a.now a.rtt
  · refine Run.always_iff_meets_within plusInv_start (domain plus _)
      (fun _ inv => inv.ordered) ?_ ?_
    · exact fun s a t inv positive fits call => inv.step positive fits call
    · exact fun s a inv positive always => inv.fits positive (always _ rfl a.rtt rfl)
  · have both := keeps.and_forall positive
    refine Run.Always.of_invariant (slidingInv_start windowSize) both (fun _ inv => inv.ordered) ?_
    exact fun s a t inv conditions call => inv.step conditions.2 conditions.1 call

/-- Three round-trip times, the third of which evicts the first. -/
def threeSamples : List Sample := [⟨0, 100⟩, ⟨10 ^ 9, 300⟩, ⟨10 ^ 11, 200⟩]

/-- The round-trip times that remain are 100 nanoseconds apart, as far as the last one is
from the smallest. -/
theorem estimates_ordered_small :
    Run.Always (observe plus) (fun t => ∀ rtt ∈ t.last, OrderedSamples t.statistics rtt)
        { statistics := {} } threeSamples ∧
      Run.Always (observe (sliding intact))
        (fun t => ∀ rtt ∈ t.last, OrderedSamples t.statistics.toSamples rtt)
        { statistics := .start 60 } threeSamples := by
  obtain ⟨-, plus_, sliding_⟩ := estimates_ordered intact 60 threeSamples (by decide)
  refine ⟨plus_.mpr ?_, sliding_ ?_⟩
  · refine .cons ?_ rfl (.cons ?_ rfl (.cons ?_ rfl trivial))
    · exact ⟨by decide, by decide⟩
    · exact ⟨by decide, by decide⟩
    · exact ⟨by decide, by decide⟩
  · refine .cons ?_ rfl (.cons ?_ rfl (.cons ?_ rfl trivial))
    · exact ⟨⟨nofun, by decide, by decide⟩, nofun⟩
    · exact ⟨⟨nofun, by decide, by decide⟩, nofun⟩
    · refine ⟨⟨fun front rest evicts => ?_, by decide, by decide⟩, fun front rest evicts => ?_⟩
      · obtain ⟨_, _, before, -, -⟩ := evicted_eq_some evicts
        obtain ⟨rfl, -⟩ := List.cons.inj before
        decide
      · obtain ⟨_, _, before, rfl, -⟩ := evicted_eq_some evicts
        obtain ⟨-, before⟩ := List.cons.inj before
        cases before
        decide

/-- The eviction of the smallest round-trip time leaves two equal ones, with a longest
queue of 0 nanoseconds and a last one of 90. -/
theorem eviction_disorders :
    ∃ t, Run.exec (observe (sliding intact)) { statistics := .start 60 }
        [⟨0, 10⟩, ⟨10 ^ 9, 100⟩, ⟨7 * 10 ^ 10, 100⟩] = some t ∧
      t.statistics.l = 90 ∧ t.statistics.lMax = 0 ∧ ¬ Ordered t.statistics.toDelays 100 := by
  refine ⟨_, rfl, by decide, by decide, ?_⟩
  decide

/-! ## The age of the samples -/

/-- But for the two newest, no sample is older than the window. The newest was taken by
the last call. -/
def Recent (s : Window) : Prop :=
  ∀ newest ∈ s.samples.getLast?, ∀ info ∈ s.samples.dropLast.dropLast,
    expired s.windowSize newest.ts info = false

/-- A call that finds at least three samples, the second of which is not too old. -/
def Slides (s : Window) (a : Sample) : Prop :=
  3 ≤ s.samples.length → ∀ second ∈ s.samples[1]?, expired s.windowSize a.now second = false

theorem expired_mono {windowSize : BitVec 32} {now : Int} {old new : PktInfo}
    (later : old.ts ≤ new.ts)
    (recent : expired windowSize now old = false) : expired windowSize now new = false := by
  simp only [expired, decide_eq_false_iff_not, not_lt] at recent ⊢
  omega

/-- The samples in the order of their times. -/
def InOrder (s : Window) : Prop := s.samples.Pairwise (·.ts ≤ ·.ts)

/-- A clock that does not run backwards. -/
def Later (s : Window) (a : Sample) : Prop := ∀ info ∈ s.samples, info.ts ≤ a.now

theorem windowSize_pktsAcked (popped : Popped) (s : Window) (a : Sample) :
    ((sliding popped).pktsAcked a.now a.rtt s).windowSize = s.windowSize := by
  obtain ⟨front, rest, -, result⟩ | ⟨-, result⟩ := sliding_cases popped s a
  · rw [result]
    rfl
  · rw [result]
    rfl

theorem InOrder.step {popped : Popped} {s : Window} (h : InOrder s) (later : Later s a) :
    InOrder ((sliding popped).pktsAcked a.now a.rtt s) := by
  have pushed : (s.samples ++ [(⟨a.rtt, a.now⟩ : PktInfo)]).Pairwise (·.ts ≤ ·.ts) := by
    refine pairwise_append.mpr ⟨h, pairwise_singleton _ _, fun info mem new last => ?_⟩
    obtain rfl := mem_singleton.mp last
    exact later info mem
  rw [InOrder, sliding_samples]
  cases evicts : evicted s.windowSize a s.samples with
  | none =>
    rw [slide_of_kept evicts]
    exact pushed
  | some pair =>
    obtain ⟨second, later, before, rest, -⟩ := evicted_eq_some evicts
    rw [before, cons_append, pairwise_cons] at pushed
    rw [slide_of_evicted evicts, rest]
    exact pushed.2

/-- The samples after a call, but for the two newest. -/
theorem recent_iff {popped : Popped} {s : Window} :
    Recent ((sliding popped).pktsAcked a.now a.rtt s) ↔
      ∀ info ∈ (slide s.windowSize a s.samples).dropLast.dropLast,
        expired s.windowSize a.now info = false := by
  have newest : (slide s.windowSize a s.samples).getLast? = some ⟨a.rtt, a.now⟩ := by
    cases evicts : evicted s.windowSize a s.samples with
    | none => simp [slide_of_kept evicts]
    | some pair =>
      obtain ⟨second, later, -, rest, -⟩ := evicted_eq_some evicts
      rw [slide_of_evicted evicts, rest]
      exact getLast?_concat
  rw [Recent, sliding_samples, windowSize_pktsAcked, newest]
  simp

/-- In order, the samples are recent after a call if and only if it finds a second sample
that is. -/
theorem InOrder.recent_iff_slides {popped : Popped} {s : Window} (h : InOrder s) :
    Recent ((sliding popped).pktsAcked a.now a.rtt s) ↔ Slides s a := by
  rw [recent_iff, Slides]
  rw [InOrder] at h
  match samples : s.samples, h with
  | [], _ => simp [slide, evicted]
  | [first], _ => simp [slide, evicted]
  | [first, second], _ =>
    by_cases old : expired s.windowSize a.now first = true
    · simp [slide, evicted, old]
    · simp [slide, evicted, old]
  | first :: second :: third :: later, h =>
    obtain ⟨afterFirst, h⟩ := pairwise_cons.mp h
    have afterSecond := (pairwise_cons.mp h).1
    have others {info : PktInfo} (mem : info ∈ (third :: later).dropLast)
        (recent : expired s.windowSize a.now second = false) :
        expired s.windowSize a.now info = false :=
      expired_mono (afterSecond info (mem_of_mem_dropLast mem)) recent
    have condition : (3 ≤ (first :: second :: third :: later).length →
        ∀ info ∈ (first :: second :: third :: later)[1]?, expired s.windowSize a.now info =
          false) ↔
        expired s.windowSize a.now second = false := by simp
    rw [condition]
    by_cases old : expired s.windowSize a.now first = true
    · have slid : slide s.windowSize a (first :: second :: third :: later) =
          second :: third :: later ++ [⟨a.rtt, a.now⟩] := slide_of_evicted (if_pos old)
      rw [slid, dropLast_concat, dropLast_cons_cons]
      constructor
      · exact fun all => all second mem_cons_self
      · intro recent info mem
        obtain rfl | mem := mem_cons.mp mem
        · exact recent
        · exact others mem recent
    · have slid : slide s.windowSize a (first :: second :: third :: later) =
          first :: second :: third :: later ++ [⟨a.rtt, a.now⟩] := slide_of_kept (if_neg old)
      have young := Bool.eq_false_iff.mpr old
      have recent := expired_mono (afterFirst second mem_cons_self) young
      rw [slid, dropLast_concat]
      refine iff_of_true (fun info mem => ?_) recent
      obtain rfl | mem := mem_cons.mp (mem_of_mem_dropLast mem)
      · exact young
      · exact expired_mono (afterFirst info mem) young

/-- A window of samples in order, none of them too old. -/
structure RecentInOrder (s : Window) : Prop where
  order : InOrder s
  recent : Recent s

/-- Calls at times that do not decrease find only earlier samples. -/
theorem meets_later (popped : Popped) {s : Window} {calls : List Sample}
    (earlier : ∀ info ∈ s.samples, ∀ a ∈ calls, info.ts ≤ a.now)
    (order : calls.Pairwise (·.now ≤ ·.now)) : Run.Meets (ack (sliding popped)) Later s calls := by
  induction calls generalizing s with
  | nil => trivial
  | cons a calls ih =>
    obtain ⟨next, order⟩ := pairwise_cons.mp order
    refine .cons (fun info mem => earlier info mem a mem_cons_self) rfl (ih ?_ order)
    intro info mem b inside
    rw [sliding_samples] at mem
    obtain old | rfl := slide_subset mem
    · exact earlier info old b (mem_cons_of_mem a inside)
    · exact next b inside

/-- At times that do not decrease, CERL-X forgets old samples after every call if and only
if every call that finds three samples or more finds a second one that is not too old. -/
theorem forgets_iff (popped : Popped) (windowSize : BitVec 32) (calls : List Sample)
    (order : calls.Pairwise (·.now ≤ ·.now)) :
    Run.Always (ack (sliding popped)) Recent (.start windowSize) calls ↔
      Run.Meets (ack (sliding popped)) Slides (.start windowSize) calls := by
  have start : RecentInOrder (.start windowSize) := ⟨.nil, nofun⟩
  have domain : Run.Meets (ack (sliding popped)) Later (.start windowSize) calls :=
    meets_later popped nofun order
  refine Run.always_iff_meets_within start domain (fun _ inv => inv.recent) ?_ ?_
  · intro s a t inv later slides call
    cases call
    exact ⟨inv.order.step later, inv.order.recent_iff_slides.mpr slides⟩
  · exact fun s a inv later always => inv.order.recent_iff_slides.mp (always _ rfl)

/-- Four samples a second apart, and one a minute after the second of them. -/
theorem forgets_small :
    Run.Always (ack (sliding intact)) Recent (.start 60)
      [⟨0, 100⟩, ⟨10 ^ 9, 100⟩, ⟨2 * 10 ^ 9, 100⟩, ⟨3 * 10 ^ 9, 100⟩, ⟨61 * 10 ^ 9, 100⟩] := by
  refine (forgets_iff intact 60 _ (by decide)).mpr ?_
  refine .cons ?_ rfl (.cons ?_ rfl (.cons ?_ rfl (.cons ?_ rfl (.cons ?_ rfl trivial))))
  · exact fun long => absurd long (by decide)
  · exact fun long => absurd long (by decide)
  · exact fun long => absurd long (by decide)
  · intro _ second mem
    cases mem
    decide
  · intro _ second mem
    cases mem
    decide

/-- After a burst of four samples and an idle time of 100 seconds, the next call evicts
only the first of them. -/
theorem burst_stays :
    ∃ s, Run.exec (ack (sliding intact)) (.start 60)
        [⟨0, 100⟩, ⟨0, 100⟩, ⟨0, 100⟩, ⟨0, 100⟩, ⟨10 ^ 11, 100⟩] = some s ∧
      s.samples = [⟨100, 0⟩, ⟨100, 0⟩, ⟨100, 0⟩, ⟨100, 10 ^ 11⟩] ∧ ¬ Recent s := by
  refine ⟨_, rfl, by decide, fun recent => ?_⟩
  have old := recent ⟨100, 10 ^ 11⟩ (by decide) ⟨100, 0⟩ (by decide)
  revert old
  decide

end Ns3.TcpCerl
