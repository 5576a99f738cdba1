import Ns3.Wifi.RecipientBlockAckAgreement.Reordering

/-!
# Flushing the reordering buffer

`Flush` passes the MPDUs below the start of the scoreboard, and those that follow it without a
gap. `BlockAckManager::DestroyRecipientAgreement` erases the agreement after that. The scoreboard
keeps its start while the window of the buffer moves on: an MPDU behind a lost one stays in the
buffer.
-/

namespace Ns3.RecipientBlockAckAgreement

open List Option

variable {μ : Type} (profile : BuildProfile)

/-- `Flush`. -/
def flush (s : RecipientBlockAckAgreement μ) : Option (RecipientBlockAckAgreement μ) := do
  let s ← s.passBufferedMpdusWithSeqNumberLessThan profile s.scoreboard.winStart
  s.passBufferedMpdusUntilFirstLost profile

/-- `Flush` passes every buffered MPDU once, in the order of the sequence numbers from the window
start on, and leaves the buffer empty. -/
def FlushesAll (s : RecipientBlockAckAgreement μ) : Prop :=
  ∃ t passed, s.flush profile = some t ∧ t.forwarded = s.forwarded ++ passed ∧
    passed.Perm s.bufferedMpdus ∧ OrderedList.Ranked (fun q => distance q s.winStartB) passed ∧
    t.bufferedMpdus = []

/-- Each buffered MPDU lies below the start of the scoreboard, or every number from there up to it
is buffered. -/
def WithoutGap (s : RecipientBlockAckAgreement μ) : Prop :=
  ∀ x ∈ s.bufferedMpdus, ∀ d, distance s.scoreboard.winStart s.winStartB ≤ d →
    d ≤ distance x.1 s.winStartB → ∃ y ∈ s.bufferedMpdus, distance y.1 s.winStartB = d

variable {profile} {w k hi : Nat} {mpdus : List (BufferedMpdu μ)}
  {s t : RecipientBlockAckAgreement μ}

/-! ## The numbers that are passed without a gap -/

theorem takeConsecutive_range (start : w < 4096) (high : hi < 4096) (h : Spread w k hi mpdus) :
    let passed := (takeConsecutive ((w + k) % 4096) mpdus).1
    passed.map (fun y => distance y.1 w) = List.range' k passed.length := by
  induction mpdus generalizing k with
  | nil => rfl
  | cons x rest ih =>
    rw [takeConsecutive]
    split
    case isTrue next =>
      have inside := (h.from_ x mem_cons_self).trans_lt (h.until_ x mem_cons_self)
      have here : distance x.1 w = k := by
        rw [next]
        exact distance_add start (inside.trans high)
      have later := h.tail
      rw [here] at later
      have wrap : ((w + k) % 4096 + 1) % seqnoSpaceSize = (w + (k + 1)) % 4096 := by
        rw [seqnoSpaceSize]
        omega
      rw [wrap]
      simp only [map_cons, length_cons, range'_succ, here]
      exact congrArg (k :: ·) (ih later)
    case isFalse gap => rfl

theorem takeConsecutive_covers (start : w < 4096) (high : hi < 4096) (h : Spread w k hi mpdus)
    {d : Nat} (low : k ≤ d)
    (below : d < k + (takeConsecutive ((w + k) % 4096) mpdus).1.length) :
    ∃ y ∈ (takeConsecutive ((w + k) % 4096) mpdus).1, distance y.1 w = d := by
  have range := takeConsecutive_range start high h
  have mem : d ∈ List.range' k (takeConsecutive ((w + k) % 4096) mpdus).1.length :=
    mem_range'_1.mpr ⟨low, below⟩
  rw [← range] at mem
  exact List.mem_map.mp mem

/-! ## `Flush` -/

/-- What a flush passes below the start of the scoreboard, what it passes from there on, and what
it leaves in the buffer. -/
structure Flushes (s t : RecipientBlockAckAgreement μ) (below next : List (BufferedMpdu μ)) :
    Prop where
  parts : below ++ (next ++ t.bufferedMpdus) = s.bufferedMpdus
  forwarded : t.forwarded = s.forwarded ++ (below ++ next)
  below : ∀ y ∈ below, distance y.1 s.winStartB < distance s.scoreboard.winStart s.winStartB
  covers : ∀ d, distance s.scoreboard.winStart s.winStartB ≤ d →
    d < distance s.scoreboard.winStart s.winStartB + next.length →
    ∃ y ∈ next, distance y.1 s.winStartB = d
  nearer : ∀ y ∈ next, distance y.1 s.winStartB <
    distance s.scoreboard.winStart s.winStartB + next.length
  beyond : ∀ y ∈ t.bufferedMpdus,
    distance s.scoreboard.winStart s.winStartB + next.length < distance y.1 s.winStartB

/-- A flush returns. -/
theorem flush_spec (profile : BuildProfile) (h : Ready s) :
    ∃ t below next, s.flush profile = some t ∧ Flushes s t below next := by
  have start := h.start
  have small := h.small
  have target := h.scoreboard.start
  generalize limit : distance s.scoreboard.winStart s.winStartB = n
  obtain ⟨below, stay, taken, parts, lower, spread⟩ :=
    takeLessThan_spec profile start target h.spread
  rw [limit] at lower spread
  have stays : Spread s.winStartB n s.winSizeB stay := spread.weaken (le_max_right _ _) le_rfl
  have back : (s.winStartB + n) % 4096 = s.scoreboard.winStart := by
    rw [← limit]
    exact add_distance target start
  have moved : Spread s.scoreboard.winStart 0 (s.winSizeB - n) stay := by
    have later := stays.shift start le_rfl
    rw [back] at later
    exact later.weaken (Nat.zero_le _) le_rfl
  generalize consecutive : takeConsecutive s.scoreboard.winStart stay = r
  refine ⟨{ s with
      winStartB := r.2.2, bufferedMpdus := r.2.1, forwarded := s.forwarded ++ below ++ r.1 },
    below, r.1, ?_, ?_⟩
  · have first := assertNotOld_eq profile start h.spread (by omega)
    have second := @assertNotOld_eq _ _ _
      { s with
        winStartB := s.scoreboard.winStart, bufferedMpdus := stay
        forwarded := s.forwarded ++ below } profile target moved (by omega)
    simp [flush, passBufferedMpdusWithSeqNumberLessThan, passBufferedMpdusUntilFirstLost, first,
      taken, second, consecutive]
  · have near := distance_lt s.scoreboard.winStart s.winStartB
    have wide : Spread s.winStartB n (max n s.winSizeB) stay :=
      stays.weaken le_rfl (le_max_right _ _)
    obtain ⟨all, -, -, nearer, beyond⟩ :=
      takeConsecutive_spec start (le_max_left n s.winSizeB) (by omega) wide
    have covers (d : Nat) := @takeConsecutive_covers _ _ _ _ _ start (by omega) wide d
    rw [back, consecutive] at all nearer beyond
    rw [back, consecutive] at covers
    refine ⟨?_, ?_, ?_, ?_, ?_, ?_⟩
    · rw [all, parts]
    · exact append_assoc _ _ _
    · rw [limit]
      exact lower
    · rw [limit]
      exact covers
    · rw [limit]
      exact nearer
    · rw [limit]
      exact beyond.from_

/-- A flush empties the buffer if and only if it finds no gap. -/
theorem flushesAll_iff (profile : BuildProfile) (h : Ready s) :
    s.FlushesAll profile ↔ s.WithoutGap := by
  obtain ⟨t, below, next, run, flushes⟩ := flush_spec profile h
  constructor
  · rintro ⟨t', passed, run', -, -, -, empty⟩
    obtain rfl := some.inj (run.symm.trans run')
    have parts := flushes.parts
    rw [empty, append_nil] at parts
    intro x mem d low high
    rw [← parts] at mem
    obtain early | late := mem_append.mp mem
    · have before := flushes.below x early
      omega
    · have reached := flushes.nearer x late
      obtain ⟨y, held, here⟩ := flushes.covers d low (by omega)
      exact ⟨y, parts ▸ mem_append_right _ held, here⟩
  · intro withoutGap
    have empty : t.bufferedMpdus = [] := by
      -- an MPDU that stays has a gap before it, right after those that were passed
      refine eq_nil_iff_forall_not_mem.mpr fun x stays => ?_
      have far := flushes.beyond x stays
      have held : x ∈ s.bufferedMpdus := by
        rw [← flushes.parts]
        exact mem_append_right _ (mem_append_right _ stays)
      obtain ⟨y, mem, here⟩ := withoutGap x held
        (distance s.scoreboard.winStart s.winStartB + next.length) (Nat.le_add_right _ _) far.le
      rw [← flushes.parts] at mem
      obtain early | late := mem_append.mp mem
      · have before := flushes.below y early
        omega
      · obtain passed | stays' := mem_append.mp late
        · have reached := flushes.nearer y passed
          omega
        · have beyond := flushes.beyond y stays'
          omega
    have parts := flushes.parts
    rw [empty, append_nil] at parts
    refine ⟨t, below ++ next, run, flushes.forwarded, List.Perm.of_eq parts, ?_, empty⟩
    rw [parts]
    exact h.spread.ranked

/-! ## Runs -/

theorem buffer_ne_nil (seq : Nat) (mpdu : μ) (s : RecipientBlockAckAgreement μ) :
    (s.buffer seq mpdu).bufferedMpdus ≠ [] := by
  rw [buffer]
  cases s.bufferedMpdus with
  | nil => exact cons_ne_nil _ _
  | cons x rest =>
    simp only [OrderedList.insertNew]
    split
    · exact cons_ne_nil _ _
    · split <;> exact cons_ne_nil _ _

theorem takeLessThan_outside {new : Nat} (outside : 4096 ≤ new) (nonempty : mpdus ≠ []) :
    takeLessThan .debug w new mpdus = none := by
  have fails : getDistance .debug new w = none := by
    have high : ¬ new < seqnoSpaceSize := Nat.not_lt.mpr outside
    simp [getDistance, high, nsAssert]
  cases mpdus with
  | nil => exact absurd rfl nonempty
  | cons x rest =>
    rw [takeLessThan]
    cases getDistance .debug x.1 w with
    | none => rfl
    | some distance => simp [fails]

/-- A debug build stops when the new window start wraps. -/
theorem startFits_of_debug {seq : Nat} {mpdu : μ} (h : Settled s) (valid : seq < 4096)
    (returns : s.reorderMpdu .debug seq mpdu = some t) : s.StartFits seq := by
  intro beyond near
  by_contra! wraps
  have start := h.start
  have exact_ : distance seq s.winStartB % 2 ^ 16 = distance seq s.winStartB :=
    Nat.mod_eq_of_lt ((distance_lt seq s.winStartB).trans (by decide))
  have outside : 4096 ≤ s.newWinStartB seq := by
    rw [newWinStartB]
    omega
  have spread := buffer_spread mpdu start valid h.spread
  have asserted : (s.buffer seq mpdu).assertNotOld .debug = some () :=
    assertNotOld_eq _ start spread (by omega)
  have stops : (s.buffer seq mpdu).passBufferedMpdusWithSeqNumberLessThan .debug
      (s.newWinStartB seq) = none := by
    simp [passBufferedMpdusWithSeqNumberLessThan, asserted,
      takeLessThan_outside outside (buffer_ne_nil seq mpdu s)]
  have half : distance seq s.winStartB < seqnoSpaceHalfSize := near
  rw [reorderMpdu] at returns
  simp only [getDistance_eq .debug valid start, exact_, Nat.not_lt.mpr beyond, half, stops,
    if_false, if_true, bind_eq_bind, bind_some, bind_none, reduceCtorEq]
    at returns

theorem startsFit_of_debug {c : Call μ} (h : Ready s) (valid : c.seq < 4096)
    (returns : s.step .debug c = some t) : s.StartsFit c := by
  have size : s.scoreboard.window.length ≤ 256 := h.scored.trans_le h.small
  cases c with
  | mpdu seq mpdu =>
    have valid : seq < 4096 := valid
    obtain ⟨w, scored, -⟩ := scoreMpdu_spec .debug h.scoreboard size valid
    simp only [step, notifyReceivedMpdu, scored, some_bind] at returns
    have settled : Settled { s with scoreboard := w } := ⟨h.start, h.pos, h.small, h.spread⟩
    have fits := startFits_of_debug settled valid returns
    exact fits
  | bar ssn => exact trivial

theorem start_ready {bufferSize startingSeq : Nat} (pos : 1 ≤ bufferSize)
    (small : bufferSize ≤ 256) (start : startingSeq < 4096) :
    Ready (.start bufferSize startingSeq : RecipientBlockAckAgreement μ) := by
  refine ⟨⟨start, pos, small, spread_nil⟩, BlockAckWindow.init_valid start pos, ?_⟩
  exact length_replicate

theorem ready_of_fits (profile : BuildProfile) {c : Call μ} (h : Ready s) (valid : c.seq < 4096)
    (fits : s.StartsFit c) (returns : s.step profile c = some t) : Ready t := by
  obtain ⟨t', passed, n, run, -, -, ready⟩ := step_spec profile h valid fits
  obtain rfl := some.inj (run.symm.trans returns)
  exact ready

/-- In every run, a flush loses nothing if and only if it finds no gap in the buffer. -/
theorem flush_losesNothing_iff (profile : BuildProfile) {bufferSize startingSeq : Nat}
    (pos : 1 ≤ bufferSize) (small : bufferSize ≤ 256) (start : startingSeq < 4096)
    {calls : List (Call μ)} (valid : ∀ c ∈ calls, c.seq < 4096)
    (fits : profile = .optimized →
      Run.Meets (step profile) StartsFit (.start bufferSize startingSeq) calls)
    {s : RecipientBlockAckAgreement μ}
    (run : Run.exec (step profile) (.start bufferSize startingSeq) calls = some s) :
    s.FlushesAll profile ↔ s.WithoutGap := by
  have ready : Ready (.start bufferSize startingSeq : RecipientBlockAckAgreement μ) :=
    start_ready pos small start
  have meets : Run.Meets (step profile) (fun s c => s.StartsFit c ∧ c.seq < 4096)
      (.start bufferSize startingSeq) calls := by
    cases profile with
    | optimized => exact (fits rfl).and_forall valid
    | debug =>
      -- in a debug build the calls of a run that returns meet the condition
      refine (Run.meets_of_exec ready (Run.Meets.of_calls valid _) ?_ ?_ run).and_forall valid
      · intro s c t h valid returns
        exact ready_of_fits .debug h valid (startsFit_of_debug h valid returns) returns
      · intro s c t h valid returns
        exact startsFit_of_debug h valid returns
  have reached := Run.invariant ready meets
    (fun s c t h condition => ready_of_fits profile h condition.2 condition.1) run
  exact flushesAll_iff profile reached

/-- The scoreboard is behind the window start: all MPDUs lie below it. -/
theorem flush_losesNothing_iff_behind :
    ∃ s : RecipientBlockAckAgreement Unit,
      Run.exec (step .optimized) (.start 64 0) [.mpdu 1 (), .mpdu 64 ()] = some s ∧
        (s.FlushesAll .optimized ↔ s.WithoutGap) := by
  have run : (Run.exec (step .optimized) (.start 64 0 : RecipientBlockAckAgreement Unit)
      [.mpdu 1 (), .mpdu 64 ()]).isSome = true := by
    decide
  obtain ⟨s, run⟩ := Option.isSome_iff_exists.mp run
  refine ⟨s, run, flush_losesNothing_iff .optimized (by decide) (by decide) (by decide)
    (by decide) (fun _ => ?_) run⟩
  decide

/-- The number zero is lost, and the MPDU with the number one stays in the buffer. -/
theorem flush_leavesMpdu :
    ∃ s : RecipientBlockAckAgreement Unit,
      Run.exec (step .debug) (.start 64 0) [.mpdu 1 ()] = some s ∧ ¬ s.FlushesAll .debug := by
  refine ⟨{
    scoreboard := ⟨0, false :: true :: List.replicate 62 false, 0⟩
    winStartB := 0, winSizeB := 64, bufferedMpdus := [(1, ())] }, by decide, ?_⟩
  rintro ⟨t, passed, flushed, -, -, -, empty⟩
  have left : (flush .debug ({
      scoreboard := ⟨0, false :: true :: List.replicate 62 false, 0⟩
      winStartB := 0, winSizeB := 64
      bufferedMpdus := [(1, ())] } : RecipientBlockAckAgreement Unit)).map
        (fun t => t.bufferedMpdus) = some [(1, ())] := by
    decide
  rw [flushed, Option.map_some, empty] at left
  exact absurd left (by decide)

end Ns3.RecipientBlockAckAgreement
