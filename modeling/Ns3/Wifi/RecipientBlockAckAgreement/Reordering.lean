import Ns3.Wifi.RecipientBlockAckAgreement.Basic
import Ns3.Library.Run

/-!
# The reordering buffer

Seen from the start of the window the buffered MPDUs stand in the order of their
distances, and each call passes a front part of them. A call that moves the window
start by `n` passes MPDUs at distances below `n` only, and keeps those beyond it: so
what is passed is ordered along the moving window, and nothing is lost.

The new window start for an MPDU beyond the window is computed without a reduction
modulo the space of sequence numbers. Below the window size it wraps at 2^16 instead.
-/

namespace Ns3.RecipientBlockAckAgreement

open List

variable {μ : Type} {profile : BuildProfile}

/-! ## Buffers as seen from a window start -/

/-- The MPDUs stand in the order of their distances from `w`, which lie between `lo` and
`hi`. -/
structure Spread (w lo hi : Nat) (mpdus : List (BufferedMpdu μ)) : Prop where
  ranked : OrderedList.Ranked (fun q => distance q w) mpdus
  valid : ∀ x ∈ mpdus, x.1 < 4096
  from_ : ∀ x ∈ mpdus, lo ≤ distance x.1 w
  until_ : ∀ x ∈ mpdus, distance x.1 w < hi

variable {w lo hi : Nat} {mpdus rest : List (BufferedMpdu μ)} {x : BufferedMpdu μ}

theorem spread_nil : Spread w lo hi ([] : List (BufferedMpdu μ)) :=
  ⟨List.Pairwise.nil, nofun, nofun, nofun⟩

theorem Spread.tail (h : Spread w lo hi (x :: rest)) : Spread w (distance x.1 w + 1) hi rest where
  ranked := (pairwise_cons.mp h.ranked).2
  valid y mem := h.valid y (mem_cons_of_mem x mem)
  from_ y mem := (pairwise_cons.mp h.ranked).1 y mem
  until_ y mem := h.until_ y (mem_cons_of_mem x mem)

theorem Spread.weaken {lo' hi' : Nat} (h : Spread w lo hi mpdus) (low : lo' ≤ lo)
    (high : hi ≤ hi') :
    Spread w lo' hi' mpdus where
  ranked := h.ranked
  valid := h.valid
  from_ y mem := low.trans (h.from_ y mem)
  until_ y mem := (h.until_ y mem).trans_le high

theorem Spread.above (h : Spread w lo hi (x :: rest)) (low : lo ≤ distance x.1 w) :
    ∀ y ∈ x :: rest, distance x.1 w ≤ distance y.1 w := by
  intro y mem
  obtain rfl | later := mem_cons.mp mem
  · exact le_rfl
  · exact ((pairwise_cons.mp h.ranked).1 y later).le

theorem Spread.shift {n : Nat} (h : Spread w lo hi mpdus) (start : w < 4096) (low : n ≤ lo) :
    Spread ((w + n) % 4096) (lo - n) (hi - n) mpdus := by
  have nearer (y : BufferedMpdu μ) (mem : y ∈ mpdus) :
      distance y.1 ((w + n) % 4096) = distance y.1 w - n :=
    distance_sub start (low.trans (h.from_ y mem))
  refine ⟨?_, h.valid, ?_, ?_⟩
  · refine List.Pairwise.imp_of_mem ?_ h.ranked
    intro a b first second lt
    have reached := low.trans (h.from_ a first)
    simp only at lt ⊢
    rw [nearer a first, nearer b second]
    omega
  · intro y mem
    have reached := h.from_ y mem
    rw [nearer y mem]
    omega
  · intro y mem
    have reached := low.trans (h.from_ y mem)
    have bound := h.until_ y mem
    rw [nearer y mem]
    omega

theorem Spread.far {n : Nat} (h : Spread ((w + n) % 4096) lo hi mpdus) (start : w < 4096)
    (near : hi ≤ 2048) (short : n ≤ 2048) : ∀ y ∈ mpdus, n ≤ distance y.1 w := by
  intro y mem
  by_contra! before
  have wrapped := distance_wrap (h.valid y mem) start before (by omega)
  have bound := h.until_ y mem
  omega

theorem compare_iff (start : w < 4096) (a b : Nat) :
    compare w a b = true ↔ distance a w < distance b w := by
  rw [compare, decide_eq_true_eq, seqnoOffset_eq start, seqnoOffset_eq start, Int.ofNat_lt]

/-! ## The two loops -/

/-- The MPDUs that follow the window start without a gap are passed. -/
theorem takeConsecutive_spec (start : w < 4096) {k : Nat} (low : k ≤ hi) (high : hi < 4096)
    (h : Spread w k hi mpdus) :
    let r := takeConsecutive ((w + k) % 4096) mpdus
    r.1 ++ r.2.1 = mpdus ∧ r.2.2 = (w + (k + r.1.length)) % 4096 ∧ k + r.1.length ≤ hi ∧
      (∀ y ∈ r.1, distance y.1 w < k + r.1.length) ∧
      Spread w (k + r.1.length + 1) hi r.2.1 := by
  induction mpdus generalizing k with
  | nil => exact ⟨rfl, rfl, low, nofun, spread_nil⟩
  | cons x rest ih =>
    have inSpace := h.valid x mem_cons_self
    rw [takeConsecutive]
    split
    case isTrue next =>
      have here : distance x.1 w = k := by
        rw [next]
        exact distance_add start (low.trans_lt high)
      have later := h.tail
      rw [here] at later
      have bound := h.until_ x mem_cons_self
      rw [here] at bound
      have wrap : ((w + k) % 4096 + 1) % seqnoSpaceSize = (w + (k + 1)) % 4096 := by
        unfold seqnoSpaceSize
        omega
      rw [wrap]
      obtain ⟨all, moved, reached, below, spread⟩ := @ih (k + 1) bound later
      refine ⟨?_, ?_, ?_, ?_, ?_⟩
      · simp [all]
      · rw [moved, length_cons]
        congr 2
        omega
      · rw [length_cons]
        omega
      · intro y mem
        rw [length_cons]
        obtain rfl | passed := mem_cons.mp mem
        · omega
        · have := below y passed
          omega
      · rw [length_cons]
        exact spread.weaken (by omega) le_rfl
    case isFalse gap =>
      have reached := h.from_ x mem_cons_self
      have notHere : distance x.1 w ≠ k := by
        intro here
        rw [← here, add_distance inSpace start] at gap
        exact gap rfl
      refine ⟨rfl, by simp, by simpa using low, nofun, ?_⟩
      refine ⟨h.ranked, h.valid, fun y mem => ?_, h.until_⟩
      have first := h.above reached y mem
      simp only [length_nil]
      omega

/-- The MPDUs before the new window start are passed. -/
theorem takeLessThan_spec (profile : BuildProfile) (start : w < 4096) {new : Nat}
    (target : new < 4096)
    (h : Spread w lo hi mpdus) :
    ∃ passed stay, takeLessThan profile w new mpdus = some (passed, stay) ∧ passed ++ stay = mpdus ∧
      (∀ y ∈ passed, distance y.1 w < distance new w) ∧
      Spread w (max lo (distance new w)) hi stay := by
  induction mpdus generalizing lo with
  | nil => exact ⟨[], [], rfl, rfl, nofun, spread_nil⟩
  | cons x rest ih =>
    have inSpace := h.valid x mem_cons_self
    have reached := h.from_ x mem_cons_self
    simp only [takeLessThan, getDistance_eq profile inSpace start,
      getDistance_eq profile target start, some_bind]
    split
    case isTrue less =>
      obtain ⟨passed, stay, taken, all, below, spread⟩ := ih h.tail
      refine ⟨x :: passed, stay, by rw [taken]; rfl, by simp [all], ?_, ?_⟩
      · intro y mem
        obtain rfl | later := mem_cons.mp mem
        · exact less
        · exact below y later
      · exact spread.weaken (by omega) le_rfl
    case isFalse notLess =>
      refine ⟨[], x :: rest, rfl, rfl, nofun, h.ranked, h.valid, fun y mem => ?_, h.until_⟩
      have first := h.above reached y mem
      omega

/-! ## The passes of a call -/

/-- The window start moves by `n`, the MPDUs in `passed` go up, and those in `added` and
in the buffer are either among them or in the buffer afterwards. -/
structure Passes (s t : RecipientBlockAckAgreement μ) (added passed : List (BufferedMpdu μ))
    (n : Nat) : Prop where
  moved : t.winStartB = (s.winStartB + n) % 4096
  forwarded : t.forwarded = s.forwarded ++ passed
  kept : (passed ++ t.bufferedMpdus).Perm (added ++ s.bufferedMpdus)
  ranked : OrderedList.Ranked (fun q => distance q s.winStartB) passed
  below : ∀ y ∈ passed, distance y.1 s.winStartB < n
  scoreboard : t.scoreboard = s.scoreboard
  size : t.winSizeB = s.winSizeB

theorem Passes.refl (s : RecipientBlockAckAgreement μ) (start : s.winStartB < 4096) :
    Passes s s [] [] 0 where
  moved := (Nat.mod_eq_of_lt start).symm
  forwarded := (append_nil _).symm
  kept := .rfl
  ranked := List.Pairwise.nil
  below := nofun
  scoreboard := rfl
  size := rfl

/-- The buffer without gaps at its front: the state between calls. -/
structure Settled (s : RecipientBlockAckAgreement μ) : Prop where
  start : s.winStartB < 4096
  pos : 0 < s.winSizeB
  small : s.winSizeB ≤ 256
  spread : Spread s.winStartB 1 s.winSizeB s.bufferedMpdus

variable {s t u : RecipientBlockAckAgreement μ}

theorem assertNotOld_eq (profile : BuildProfile) (start : s.winStartB < 4096)
    (h : Spread s.winStartB lo hi s.bufferedMpdus) (near : hi ≤ 2048) :
      s.assertNotOld profile = some () := by
  unfold assertNotOld
  cases profile with
  | optimized => rfl
  | debug =>
    rw [if_pos rfl]
    split
    case h_1 => rfl
    case h_2 last found =>
      have mem := mem_of_getLast? found
      have bound := h.until_ last mem
      have fresh : decide (distance last.1 s.winStartB < seqnoSpaceHalfSize) = true := by
        rw [decide_eq_true_eq]
        unfold seqnoSpaceHalfSize
        omega
      simp [getDistance_eq _ (h.valid last mem) start, fresh]

/-- `PassBufferedMpdusUntilFirstLost` closes the gaps at the front. -/
theorem passUntilFirstLost_spec (profile : BuildProfile) (start : s.winStartB < 4096)
    (near : hi ≤ 2048)
    (h : Spread s.winStartB 0 hi s.bufferedMpdus) :
    ∃ t passed n, s.passBufferedMpdusUntilFirstLost profile = some t ∧ Passes s t [] passed n ∧
      n ≤ hi ∧ Spread t.winStartB 1 (hi - n) t.bufferedMpdus := by
  have spec := takeConsecutive_spec start (Nat.zero_le hi) (by omega) h
  rw [Nat.add_zero, Nat.mod_eq_of_lt start] at spec
  obtain ⟨all, moved, reached, below, spread⟩ := spec
  simp only [Nat.zero_add] at moved reached below spread
  generalize taken : takeConsecutive s.winStartB s.bufferedMpdus =
    r at all moved reached below spread
  refine ⟨{ s with winStartB := r.2.2, bufferedMpdus := r.2.1, forwarded := s.forwarded ++ r.1 },
    r.1, r.1.length, ?_, ?_, reached, ?_⟩
  · simp [passBufferedMpdusUntilFirstLost, assertNotOld_eq profile start h near, taken]
  · refine ⟨moved, rfl, ?_, ?_, below, rfl, rfl⟩
    · exact List.Perm.of_eq all
    · have ranked := h.ranked
      rw [← all] at ranked
      exact (pairwise_append.mp ranked).1
  · have later := spread.shift (n := r.1.length) start (Nat.le_succ _)
    rw [← moved] at later
    exact later.weaken (by omega) le_rfl

/-- `PassBufferedMpdusWithSeqNumberLessThan` moves the window start. -/
theorem passLessThan_spec (profile : BuildProfile) (start : s.winStartB < 4096) {new : Nat}
    (target : new < 4096)
    (near : hi ≤ 2048) (h : Spread s.winStartB lo hi s.bufferedMpdus) :
    ∃ t passed, s.passBufferedMpdusWithSeqNumberLessThan profile new = some t ∧
      Passes s t [] passed (distance new s.winStartB) ∧ t.winStartB = new ∧
      Spread new 0 (hi - distance new s.winStartB) t.bufferedMpdus := by
  obtain ⟨passed, stay, taken, all, below, spread⟩ :=
    takeLessThan_spec profile start target h
  have back : (s.winStartB + distance new s.winStartB) % 4096 = new := add_distance target start
  refine ⟨{ s with winStartB := new, bufferedMpdus := stay, forwarded := s.forwarded ++ passed },
    passed, ?_, ?_, rfl, ?_⟩
  · simp [passBufferedMpdusWithSeqNumberLessThan, assertNotOld_eq profile start h near, taken]
  · refine ⟨back.symm, rfl, List.Perm.of_eq all, ?_, below, rfl, rfl⟩
    have ranked := h.ranked
    rw [← all] at ranked
    exact (pairwise_append.mp ranked).1
  · have later := spread.shift (n := distance new s.winStartB) start (le_max_right _ _)
    rw [back] at later
    exact later.weaken (Nat.zero_le _) le_rfl

/-- Two passes of one call. -/
theorem Passes.trans {added first second : List (BufferedMpdu μ)} {m n : Nat}
    (h : Passes s t added first m) (h' : Passes t u [] second n) (start : s.winStartB < 4096)
    (short : m ≤ 2048) (spread : Spread t.winStartB lo hi t.bufferedMpdus) (near : hi ≤ 2048) :
    Passes s u added (first ++ second) (m + n) := by
  have stays (y : BufferedMpdu μ) (mem : y ∈ second) : m ≤ distance y.1 s.winStartB := by
    rw [h.moved] at spread
    have held : y ∈ t.bufferedMpdus := h'.kept.subset (mem_append_left _ mem)
    exact spread.far start near short y held
  have nearer (y : BufferedMpdu μ) (mem : y ∈ second) :
      distance y.1 s.winStartB = distance y.1 t.winStartB + m := by
    have far := stays y mem
    rw [h.moved, distance_sub start far]
    omega
  constructor
  · rw [h'.moved, h.moved]
    omega
  · rw [h'.forwarded, h.forwarded, append_assoc]
  · rw [append_assoc]
    exact (h'.kept.append_left first).trans h.kept
  · refine pairwise_append.mpr ⟨h.ranked, ?_, ?_⟩
    · refine List.Pairwise.imp_of_mem ?_ h'.ranked
      intro a b memA memB lt
      simp only at lt ⊢
      rw [nearer a memA, nearer b memB]
      omega
    · intro a memA b memB
      exact (h.below a memA).trans_le (stays b memB)
  · intro y mem
    obtain early | late := mem_append.mp mem
    · exact (h.below y early).trans_le (Nat.le_add_right m n)
    · rw [nearer y late, Nat.add_comm]
      exact Nat.add_lt_add_left (h'.below y late) m
  · exact h'.scoreboard.trans h.scoreboard
  · exact h'.size.trans h.size

/-! ## The calls -/

/-- What a call does to the buffer and to the window start. -/
structure Reorders (s t : RecipientBlockAckAgreement μ) (added passed : List (BufferedMpdu μ))
    (n : Nat) : Prop extends Passes s t added passed n where
  settled : Settled t
  short : n < 4096

/-- An MPDU is taken into the buffer, unless it is old or buffered already. -/
def accepts (seq : Nat) (s : RecipientBlockAckAgreement μ) : Bool :=
  decide (distance seq s.winStartB < 2048) && s.bufferedMpdus.all fun x => x.1 != seq

theorem buffer_spread {seq : Nat} (mpdu : μ) (start : s.winStartB < 4096) (valid : seq < 4096)
    (h : Spread s.winStartB lo hi s.bufferedMpdus) :
    Spread s.winStartB (min lo (distance seq s.winStartB)) (max hi (distance seq s.winStartB + 1))
      (s.buffer seq mpdu).bufferedMpdus := by
  have cases_ (y : BufferedMpdu μ) (mem : y ∈ (s.buffer seq mpdu).bufferedMpdus) :
      y = (seq, mpdu) ∨ y ∈ s.bufferedMpdus := OrderedList.mem_insertNew mem
  refine ⟨h.ranked.insertNew (compare_iff start), fun y mem => ?_, fun y mem => ?_, fun y mem => ?_⟩
  · obtain rfl | held := cases_ y mem
    · exact valid
    · exact h.valid y held
  · obtain rfl | held := cases_ y mem
    · exact min_le_right _ _
    · exact (min_le_left _ _).trans (h.from_ y held)
  · obtain rfl | held := cases_ y mem
    · exact lt_max_of_lt_right (Nat.lt_succ_self _)
    · exact lt_max_of_lt_left (h.until_ y held)

/-- The buffer with the MPDU, if it is accepted. -/
theorem buffer_perm {seq : Nat} (mpdu : μ) (start : s.winStartB < 4096) (valid : seq < 4096)
    (near : distance seq s.winStartB < 2048)
    (h : Spread s.winStartB lo hi s.bufferedMpdus) :
    (s.buffer seq mpdu).bufferedMpdus.Perm
      ((if s.accepts seq then [(seq, mpdu)] else []) ++ s.bufferedMpdus) := by
  have close : decide (distance seq s.winStartB < 2048) = true := decide_eq_true near
  cases new : s.bufferedMpdus.all fun x => x.1 != seq with
  | true =>
    rw [accepts, close, new, Bool.true_and, if_pos rfl]
    refine OrderedList.insertNew_perm (compare_iff start) fun x mem same => ?_
    rw [distance_inj (h.valid x mem) valid start] at same
    have other := List.all_eq_true.mp new x mem
    simp [same] at other
  | false =>
    rw [accepts, close, new, Bool.true_and, if_neg Bool.false_ne_true]
    obtain ⟨x, mem, same⟩ := List.all_eq_false.mp new
    have present : distance x.1 s.winStartB = distance seq s.winStartB := by
      simp only [bne_iff_ne, ne_eq, Decidable.not_not] at same
      rw [same]
    exact List.Perm.of_eq
      (OrderedList.insertNew_present h.ranked (compare_iff start) ⟨x, mem, present⟩)

/-- The MPDU lies in the window, or beyond it without the new window start wrapping. -/
def StartFits (seq : Nat) (s : RecipientBlockAckAgreement μ) : Prop :=
  s.winSizeB ≤ distance seq s.winStartB → distance seq s.winStartB < 2048 → s.winSizeB ≤ seq + 1
  deriving Decidable

theorem Passes.buffered {seq n : Nat} {mpdu : μ} {passed : List (BufferedMpdu μ)}
    (h : Passes (s.buffer seq mpdu) t [] passed n) (start : s.winStartB < 4096)
    (valid : seq < 4096) (near : distance seq s.winStartB < 2048)
    (spread : Spread s.winStartB lo hi s.bufferedMpdus) :
    Passes s t (if s.accepts seq then [(seq, mpdu)] else []) passed n :=
  { h with kept := h.kept.trans (buffer_perm mpdu start valid near spread) }

theorem Passes.reorders {added passed : List (BufferedMpdu μ)} {n : Nat}
    (h : Passes s t added passed n) (settled : Settled s) (short : n < 4096)
    (size : hi ≤ s.winSizeB) (spread : Spread t.winStartB 1 hi t.bufferedMpdus) :
    Reorders s t added passed n := by
  refine { h with settled := ⟨?_, ?_, ?_, ?_⟩, short := short }
  · rw [h.moved]
    exact Nat.mod_lt _ (by decide)
  · rw [h.size]
    exact settled.pos
  · rw [h.size]
    exact settled.small
  · rw [h.size]
    exact spread.weaken le_rfl size

theorem reorderMpdu_spec (profile : BuildProfile) {seq : Nat} (mpdu : μ) (h : Settled s)
    (valid : seq < 4096) (fits : s.StartFits seq) :
    ∃ t passed n, s.reorderMpdu profile seq mpdu = some t ∧
      Reorders s t (if s.accepts seq then [(seq, mpdu)] else []) passed n := by
  have start := h.start
  have small := h.small
  have pos := h.pos
  have exact_ : distance seq s.winStartB % 2 ^ 16 = distance seq s.winStartB :=
    Nat.mod_eq_of_lt ((distance_lt seq s.winStartB).trans (by decide))
  have spread := buffer_spread mpdu start valid h.spread
  simp only [reorderMpdu, getDistance_eq profile valid start, some_bind, exact_]
  split
  case isTrue inside =>
    obtain ⟨t, passed, n, run, passes, short, later⟩ := passUntilFirstLost_spec profile
      (s := s.buffer seq mpdu) start (by omega) (spread.weaken (Nat.zero_le _) le_rfl)
    refine ⟨t, passed, n, run, ?_⟩
    exact (passes.buffered start valid (by omega) h.spread).reorders h (by omega) (by omega) later
  case isFalse outside =>
    split
    case isTrue near =>
      unfold seqnoSpaceHalfSize at near
      have fit := fits (by omega) near
      have new : s.newWinStartB seq = seq + 1 - s.winSizeB := by
        unfold newWinStartB
        omega
      have moved : distance (s.newWinStartB seq) s.winStartB =
          distance seq s.winStartB - s.winSizeB + 1 := by
        unfold distance at outside ⊢
        omega
      have fresh : s.newWinStartB seq < 4096 := by omega
      obtain ⟨t, first, run, passes, target, kept⟩ :=
        passLessThan_spec profile (s := s.buffer seq mpdu) start fresh (by omega) spread
      have passes : Passes (s.buffer seq mpdu) t [] first
          (distance seq s.winStartB - s.winSizeB + 1) := by
        rw [← moved]
        exact passes
      have kept : Spread t.winStartB 0 s.winSizeB t.bufferedMpdus := by
        rw [target]
        refine kept.weaken le_rfl (le_of_eq_of_le (congrArg _ moved) ?_)
        omega
      obtain ⟨u, second, n, rerun, repasses, short, later⟩ :=
        passUntilFirstLost_spec profile (by omega) (by omega) kept
      have both := (passes.buffered start valid near h.spread).trans repasses start (by omega) kept
        (by omega)
      refine ⟨u, first ++ second, _, ?_, both.reorders h (by omega) (Nat.sub_le _ n) later⟩
      rw [run]
      exact rerun
    case isFalse far =>
      unfold seqnoSpaceHalfSize at far
      have refused : s.accepts seq = false := by simp [accepts, far]
      refine ⟨s, [], 0, rfl, ?_⟩
      rw [refused, if_neg Bool.false_ne_true]
      exact (Passes.refl s start).reorders h (by omega) le_rfl h.spread

theorem reorderBar_spec (profile : BuildProfile) {ssn : Nat} (h : Settled s) (valid : ssn < 4096) :
    ∃ t passed n, s.reorderBar profile ssn = some t ∧ Reorders s t [] passed n := by
  have start := h.start
  have small := h.small
  have exact_ : distance ssn s.winStartB % 2 ^ 16 = distance ssn s.winStartB :=
    Nat.mod_eq_of_lt ((distance_lt ssn s.winStartB).trans (by decide))
  simp only [reorderBar, getDistance_eq profile valid start, some_bind, exact_]
  split
  case isTrue near =>
    unfold seqnoSpaceHalfSize at near
    obtain ⟨t, first, run, passes, target, kept⟩ :=
      passLessThan_spec profile start valid (by omega) h.spread
    have kept : Spread t.winStartB 0 s.winSizeB t.bufferedMpdus := by
      rw [target]
      exact kept.weaken le_rfl (Nat.sub_le _ _)
    obtain ⟨u, second, n, rerun, repasses, short, later⟩ :=
      passUntilFirstLost_spec profile (by omega) (by omega) kept
    have both := passes.trans repasses start (by omega) kept (by omega)
    refine ⟨u, first ++ second, _, ?_, both.reorders h (by omega) (Nat.sub_le _ n) later⟩
    rw [run]
    exact rerun
  case isFalse => exact ⟨s, [], 0, rfl, (Passes.refl s start).reorders h (by omega) le_rfl h.spread⟩

/-! ## Runs -/

/-- The state between calls. -/
structure Ready (s : RecipientBlockAckAgreement μ) : Prop extends Settled s where
  scoreboard : s.scoreboard.Valid
  scored : s.scoreboard.window.length = s.winSizeB

/-- The MPDU of a call, if it is accepted. -/
def accepted (s : RecipientBlockAckAgreement μ) : Call μ → List (BufferedMpdu μ)
  | .mpdu seq mpdu => if s.accepts seq then [(seq, mpdu)] else []
  | .bar _ => []

/-- No MPDU beyond the window makes the new window start wrap. -/
def StartsFit (s : RecipientBlockAckAgreement μ) : Call μ → Prop
  | .mpdu seq _ => s.StartFits seq
  | .bar _ => True

instance (s : RecipientBlockAckAgreement μ) : DecidablePred s.StartsFit
  | .mpdu seq _ => inferInstanceAs (Decidable (s.StartFits seq))
  | .bar _ => instDecidableTrue

/-- A call that meets the condition returns, and passes MPDUs in order. -/
theorem step_spec (profile : BuildProfile) {c : Call μ} (h : Ready s) (valid : c.seq < 4096)
    (fits : s.StartsFit c) :
    ∃ t passed n, s.step profile c = some t ∧ Passes { s with scoreboard := t.scoreboard } t
      (s.accepted c) passed n ∧ n < 4096 ∧ Ready t := by
  have size : s.scoreboard.window.length ≤ 256 := h.scored.trans_le h.small
  cases c with
  | mpdu seq mpdu =>
    have valid : seq < 4096 := valid
    obtain ⟨w, scored, scores⟩ := scoreMpdu_spec profile h.scoreboard size valid
    have settled : Settled { s with scoreboard := w } := ⟨h.start, h.pos, h.small, h.spread⟩
    obtain ⟨t, passed, n, run, reorders⟩ := reorderMpdu_spec profile mpdu settled valid fits
    have board : t.scoreboard = w := reorders.scoreboard
    refine ⟨t, passed, n, ?_, ?_, reorders.short, reorders.settled, ?_, ?_⟩
    · simp [step, notifyReceivedMpdu, scored, run]
    · rw [board]
      exact reorders.toPasses
    · rw [board]
      exact scores.valid
    · rw [board, scores.size, reorders.size]
      exact h.scored
  | bar ssn =>
    have valid : ssn < 4096 := valid
    obtain ⟨w, scored, scores⟩ := scoreBar_spec profile h.scoreboard size valid
    have settled : Settled { s with scoreboard := w } := ⟨h.start, h.pos, h.small, h.spread⟩
    obtain ⟨t, passed, n, run, reorders⟩ := reorderBar_spec profile settled valid
    have board : t.scoreboard = w := reorders.scoreboard
    refine ⟨t, passed, n, ?_, ?_, reorders.short, reorders.settled, ?_, ?_⟩
    · simp [step, notifyReceivedBar, scored, run]
    · rw [board]
      exact reorders.toPasses
    · rw [board]
      exact scores.valid
    · rw [board, scores.size, reorders.size]
      exact h.scored

/-- What an observer of the agreement has seen: how far the window start has moved in
total, the MPDUs that were passed, each with its distance from the first window start, and
the MPDUs that were accepted. -/
structure Observed (μ : Type) where
  agreement : RecipientBlockAckAgreement μ
  moved : Nat := 0
  passed : List (Nat × BufferedMpdu μ) := []
  accepted : List (BufferedMpdu μ) := []

/-- One call, observed. -/
def observe (profile : BuildProfile) (o : Observed μ) (c : Call μ) : Option (Observed μ) := do
  let t ← o.agreement.step profile c
  let passed := t.forwarded.drop o.agreement.forwarded.length
  return {
    agreement := t
    moved := o.moved + distance t.winStartB o.agreement.winStartB
    passed := o.passed ++ passed.map fun x => (o.moved + distance x.1 o.agreement.winStartB, x)
    accepted := o.accepted ++ o.agreement.accepted c }

/-- The observer of a new agreement. -/
def Observed.start (bufferSize startingSeq : Nat) : Observed μ where
  agreement := RecipientBlockAckAgreement.start bufferSize startingSeq

/-- Nothing is lost and everything is in order: the MPDUs passed have increasing places
along the window start, all before its present place, and every accepted MPDU was passed
or is buffered, strictly inside the window and once. -/
structure InOrder (bufferSize startingSeq : Nat) (o : Observed μ) : Prop where
  window : o.agreement.winStartB < 4096
  place : o.agreement.winStartB = (startingSeq + o.moved) % 4096
  inside : ∀ x ∈ o.agreement.bufferedMpdus,
    0 < distance x.1 o.agreement.winStartB ∧ distance x.1 o.agreement.winStartB < bufferSize
  once : (o.agreement.bufferedMpdus.map Prod.fst).Nodup
  increasing : o.passed.Pairwise fun a b => a.1 < b.1
  before : ∀ p ∈ o.passed, p.1 < o.moved
  named : ∀ p ∈ o.passed, p.2.1 = (startingSeq + p.1) % 4096
  forwarded : o.agreement.forwarded = o.passed.map Prod.snd
  kept : (o.passed.map Prod.snd ++ o.agreement.bufferedMpdus).Perm o.accepted

/-- The invariant of an observed run. -/
structure Tracks (bufferSize startingSeq : Nat) (o : Observed μ) : Prop
    extends InOrder bufferSize startingSeq o where
  ready : Ready o.agreement
  size : o.agreement.winSizeB = bufferSize

theorem Ready.once (h : Ready s) : (s.bufferedMpdus.map Prod.fst).Nodup := by
  refine pairwise_map.mpr (h.spread.ranked.imp ?_)
  intro a b lt same
  simp only [same, lt_irrefl] at lt

theorem accepted_valid {c : Call μ} (valid : c.seq < 4096) : ∀ x ∈ s.accepted c, x.1 < 4096 := by
  cases c with
  | mpdu seq mpdu =>
    intro x mem
    rw [accepted] at mem
    split at mem
    · rw [mem_singleton.mp mem]
      exact valid
    · cases mem
  | bar ssn =>
    intro x mem
    cases mem

theorem Tracks.observe {bufferSize startingSeq : Nat} {o : Observed μ} {c : Call μ}
    (h : Tracks bufferSize startingSeq o) (valid : c.seq < 4096) (fits : o.agreement.StartsFit c) :
    ∃ o', observe profile o c = some o' ∧ Tracks bufferSize startingSeq o' := by
  obtain ⟨t, passed, n, run, passes, short, ready⟩ := step_spec profile h.ready valid fits
  have start := h.window
  have reached : distance t.winStartB o.agreement.winStartB = n := by
    rw [passes.moved]
    exact distance_add start short
  have handed : t.forwarded = o.agreement.forwarded ++ passed := passes.forwarded
  have new : t.forwarded.drop o.agreement.forwarded.length = passed := by rw [handed, drop_left]
  refine ⟨{
    agreement := t
    moved := o.moved + n
    passed := o.passed ++ passed.map fun x => (o.moved + distance x.1 o.agreement.winStartB, x)
    accepted := o.accepted ++ o.agreement.accepted c }, ?_, ?_⟩
  · simp only [RecipientBlockAckAgreement.observe, run, some_bind, new, reached, pure_some]
  · have size : t.winSizeB = bufferSize := passes.size.trans h.size
    have listed : (passed.map fun x => (o.moved + distance x.1 o.agreement.winStartB, x)).map
        Prod.snd = passed := by
      rw [List.map_map]
      exact List.map_id passed
    have valid (x : BufferedMpdu μ) (mem : x ∈ passed) : x.1 < 4096 := by
      obtain accepted | held := mem_append.mp (passes.kept.subset (mem_append_left _ mem))
      · exact accepted_valid valid x accepted
      · exact h.ready.spread.valid x held
    refine ⟨⟨ready.start, ?_, fun x mem => ⟨ready.spread.from_ x mem, ?_⟩, ready.once, ?_, ?_, ?_,
      ?_, ?_⟩, ready, size⟩
    · rw [passes.moved]
      simp only [h.place]
      omega
    · rw [← size]
      exact ready.spread.until_ x mem
    · refine pairwise_append.mpr ⟨h.increasing, ?_, ?_⟩
      · refine pairwise_map.mpr (passes.ranked.imp ?_)
        intro a b lt
        exact Nat.add_lt_add_left lt o.moved
      · intro a early b late
        obtain ⟨x, -, rfl⟩ := List.mem_map.mp late
        exact (h.before a early).trans_le (Nat.le_add_right _ _)
    · intro p mem
      obtain early | late := mem_append.mp mem
      · exact (h.before p early).trans_le (Nat.le_add_right _ n)
      · obtain ⟨x, held, rfl⟩ := List.mem_map.mp late
        exact Nat.add_lt_add_left (passes.below x held) o.moved
    · intro p mem
      obtain early | late := mem_append.mp mem
      · exact h.named p early
      · obtain ⟨x, held, rfl⟩ := List.mem_map.mp late
        have back := add_distance (valid x held) start
        rw [h.place] at back ⊢
        simp only
        omega
    · rw [handed, h.forwarded, map_append, listed]
    · rw [map_append, listed, append_assoc]
      have later := (passes.kept.append_left (o.passed.map Prod.snd)).trans
        (perm_append_comm_assoc _ _ _)
      exact later.trans ((perm_append_comm).trans (h.kept.append_right _))

theorem start_tracks {bufferSize startingSeq : Nat} (pos : 0 < bufferSize)
    (small : bufferSize ≤ 256)
    (start : startingSeq < 4096) :
    Tracks bufferSize startingSeq (Observed.start bufferSize startingSeq : Observed μ) := by
  have ready : Ready (RecipientBlockAckAgreement.start bufferSize startingSeq :
      RecipientBlockAckAgreement μ) :=
    ⟨⟨start, pos, small, spread_nil⟩, BlockAckWindow.init_valid start pos,
      by simp [RecipientBlockAckAgreement.start, BlockAckWindow.init]⟩
  exact ⟨⟨start, (Nat.mod_eq_of_lt start).symm, forall_mem_nil _, ready.once,
    List.Pairwise.nil, forall_mem_nil _, forall_mem_nil _, rfl, .rfl⟩, ready,
      rfl⟩

/-- The reordering buffer of every run whose new window starts do not wrap. -/
theorem reordering_inOrder (profile : BuildProfile) (bufferSize startingSeq : Nat)
    (pos : 1 ≤ bufferSize) (small : bufferSize ≤ 256) (start : startingSeq < 4096)
    (calls : List (Call μ)) (valid : ∀ c ∈ calls, c.seq < 4096)
    (fits : Run.Meets (observe profile) (fun o c => o.agreement.StartsFit c)
      (Observed.start bufferSize startingSeq) calls) :
    ∃ o, Run.exec (observe profile) (Observed.start bufferSize startingSeq) calls = some o ∧
      InOrder bufferSize startingSeq o := by
  have tracks := start_tracks (μ := μ) pos small start
  have returns (o : Observed μ) (c : Call μ) (inv : Tracks bufferSize startingSeq o)
      (condition : o.agreement.StartsFit c ∧ c.seq < 4096) :
      ∃ o', observe profile o c = some o' ∧ Tracks bufferSize startingSeq o' :=
    inv.observe condition.2 condition.1
  obtain ⟨o, run, inv⟩ := Run.total tracks (fits.and_forall valid) returns
  exact ⟨o, run, inv.toInOrder⟩

/-- Across the wrap of the sequence numbers, up to an MPDU far beyond the window. -/
theorem reordering_inOrder_wrap :
    ∃ o, Run.exec (observe .debug) (Observed.start 64 4000)
        [.mpdu 4001 (), .mpdu 4000 (), .mpdu 4090 (), .bar 4080, .mpdu 80 ()] = some o ∧
      InOrder 64 4000 o := by
  refine reordering_inOrder .debug 64 4000 (by decide) (by decide) (by decide) _ (by decide) ?_
  decide

/-- An MPDU shortly after the wrap moves the window start out of the space. -/
theorem reordering_leavesSpace :
    (Run.exec (observe .optimized) (Observed.start 64 4000) [.mpdu 10 ()]).map
        (fun o => o.agreement.winStartB) = some 65483 ∧
      (Run.exec (observe .debug) (Observed.start 64 4000) [.mpdu 10 ()]).isNone = true := by
  decide

end Ns3.RecipientBlockAckAgreement
