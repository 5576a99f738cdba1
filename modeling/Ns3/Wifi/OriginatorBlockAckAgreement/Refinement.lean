import Ns3.Library.Run
import Ns3.Wifi.OriginatorBlockAckAgreement.Basic

/-!
# The transmit window over whole runs

An observer counts the sequence numbers on without wrapping and writes down which of them were
transmitted, acknowledged in the window and discarded. A call keeps the window in step with these
lists, as long as what is acknowledged has been transmitted and is not too far behind the window.
-/

namespace Ns3.OriginatorBlockAckAgreement

variable (profile : BuildProfile)

/-- The agreement, the number at the start of its window, and the numbers of the calls so far.
Each call also leaves how far it has moved the window. -/
structure Observed where
  agreement : OriginatorBlockAckAgreement
  start : Nat
  transmitted : List Nat := []
  acked : List Nat := []
  discarded : List Nat := []
  moves : List Nat := []
  deriving DecidableEq

namespace Observed

/-- The observer of a new agreement. The first numbers lie far enough up for those behind the
window start to be numbers, too. -/
def init (bufferSize startingSeq : Nat) : Observed where
  agreement := initTxWindow { startingSeq, bufferSize }
  start := startingSeq + 4096

/-- A sequence number, counted on: an old one lies behind the window start. -/
def number (o : Observed) (seq : Nat) : Nat :=
  let d := distance seq o.agreement.txWindow.winStart
  if d < 2048 then o.start + d else o.start + d - 4096

/-- A call is written down. An MPDU is acknowledged in the window if it is not old. -/
def note (o : Observed) : Call → Observed
  | .transmitted seq => { o with transmitted := o.number seq :: o.transmitted }
  | .acked seq =>
    if distance seq o.agreement.txWindow.winStart < 2048 then
      { o with acked := o.number seq :: o.acked }
    else o
  | .discarded seq => { o with discarded := o.number seq :: o.discarded }

/-- One call, observed. -/
def observe (o : Observed) (call : Call) : Option Observed := do
  let agreement ← o.agreement.step profile call
  let move := distance agreement.txWindow.winStart o.agreement.txWindow.winStart
  return { o.note call with agreement, start := o.start + move, moves := o.moves ++ [move] }

/-- What is acknowledged has been transmitted, and the window start has not moved on by more than
2048 since it passed it. -/
def AckFits (o : Observed) : Call → Prop
  | .acked seq => ∃ n ∈ o.transmitted, n % 4096 = seq ∧ o.start ≤ n + 2048
  | _ => True

instance (o : Observed) : DecidablePred o.AckFits
  | .transmitted _ => instDecidableTrue
  | .acked seq =>
    inferInstanceAs (Decidable (∃ n ∈ o.transmitted, n % 4096 = seq ∧ o.start ≤ n + 2048))
  | .discarded _ => instDecidableTrue

/-- A number that may lie behind the window start: it has been acknowledged, or one at or after it
has been discarded, or one at least a window size after it transmitted. -/
def Accounted (size : Nat) (o : Observed) (n : Nat) : Prop :=
  n ∈ o.acked ∨ (∃ m ∈ o.discarded, n ≤ m) ∨ ∃ m ∈ o.transmitted, n + size ≤ m

/-- The window shows which numbers have been acknowledged, and it moves on over numbers that are
accounted for. -/
structure Refines (size first : Nat) (o : Observed) : Prop where
  winStart : o.agreement.txWindow.winStart = o.start % 4096
  moves : ∀ move ∈ o.moves, move ≤ 2048
  waiting : o.agreement.txWindow.at profile 0 = some false
  acked : ∀ d < size, o.agreement.txWindow.at profile d = some (decide (o.start + d ∈ o.acked))
  left : ∀ n, first ≤ n → n < o.start → Accounted size o n

/-- The invariant of an observed run. -/
structure Tracks (size first : Nat) (o : Observed) : Prop where
  represents : o.agreement.txWindow.Represents size o.start o.acked
  far : 4096 ≤ o.start
  small : size ≤ 1024
  moves : ∀ move ∈ o.moves, move ≤ 2048
  waiting : o.start ∉ o.acked
  left : ∀ n, first ≤ n → n < o.start → Accounted size o n
  transmitted : ∀ n ∈ o.transmitted, n < o.start + size

variable {profile} {size first : Nat} {o : Observed}

theorem Tracks.refines (h : Tracks size first o) : Refines profile size first o where
  winStart := h.represents.winStart
  moves := h.moves
  waiting := by
    rw [h.represents.at profile h.represents.pos, Nat.add_zero, decide_eq_false h.waiting]
  acked d inside := h.represents.at profile inside
  left := h.left

theorem start_tracks {bufferSize startingSeq : Nat} (pos : 0 < bufferSize)
    (small : bufferSize ≤ 1024) (start : startingSeq < 4096) :
    Tracks bufferSize (startingSeq + 4096) (.init bufferSize startingSeq) where
  represents := .init pos start 1
  far := Nat.le_add_left _ _
  small := small
  moves := nofun
  waiting := List.not_mem_nil
  left _ low high := absurd low (Nat.not_le.mpr high)
  transmitted := nofun

/-! ## One call -/

section

variable {call : Call} {w : BlockAckWindow} {count : Nat}

theorem Accounted.note {n : Nat} (h : Accounted size o n) (call : Call) :
    Accounted size (o.note call) n := by
  cases call with
  | transmitted seq =>
    refine h.imp id (Or.imp id ?_)
    rintro ⟨m, mem, far⟩
    exact ⟨m, List.mem_cons_of_mem _ mem, far⟩
  | acked seq =>
    rw [Observed.note]
    split
    · exact h.imp (List.mem_cons_of_mem _) id
    · exact h
  | discarded seq =>
    refine h.imp id (Or.imp ?_ id)
    rintro ⟨m, mem, far⟩
    exact ⟨m, List.mem_cons_of_mem _ mem, far⟩

theorem observe_eq {a : OriginatorBlockAckAgreement} (count : Nat)
    (start : o.agreement.txWindow.winStart =
    o.start % 4096) (returns : o.agreement.step profile call = some a)
    (moved : a.txWindow.winStart = (o.start + count) % 4096) (short : count < 4096) :
    observe profile o call = some { o.note call with
      agreement := a, start := o.start + count, moves := o.moves ++ [count] } := by
  have move : distance a.txWindow.winStart o.agreement.txWindow.winStart = count := by
    rw [moved, start, distance]
    omega
  simp [observe, returns, move]

theorem Tracks.stay (h : Tracks size first o)
    (returns : o.agreement.step profile call = some o.agreement)
    (acked : (o.note call).acked = o.acked)
    (transmitted : ∀ n ∈ (o.note call).transmitted, n < o.start + size) :
    ∃ o', observe profile o call = some o' ∧ Tracks size first o' := by
  refine ⟨_, observe_eq 0 h.represents.winStart returns h.represents.winStart (by decide), ?_⟩
  constructor
  · simp only [acked]
    exact h.represents
  · exact h.far
  · exact h.small
  · intro move mem
    obtain before | here := List.mem_append.mp mem
    · exact h.moves move before
    · rw [List.mem_singleton.mp here]
      exact Nat.zero_le _
  · simp only [acked]
    exact h.waiting
  · intro n low high
    exact (h.left n low high).note call
  · exact transmitted

/-- A call that changes the window, after which it advances to the nearest number that is not
acknowledged. -/
theorem Tracks.move (h : Tracks size first o) (count : Nat)
    (represents : w.Represents size (o.start + count) (o.note call).acked)
    (inside : ∀ n ∈ (o.note call).acked, n < o.start + size) (short : count ≤ 2048)
    (passed : ∀ n, o.start ≤ n → n < o.start + count → Accounted size (o.note call) n)
    (transmitted : ∀ n ∈ (o.note call).transmitted, n < o.start + count + size)
    (returns : ∀ v, advanceTxWindow profile w = some v →
      o.agreement.step profile call = some { o.agreement with txWindow := v }) :
    ∃ o', observe profile o call = some o' ∧ Tracks size first o' := by
  obtain ⟨v, n, run, later, between, waiting⟩ := advanceTxWindow_spec profile represents
  rw [Nat.add_assoc] at later waiting
  have small := h.small
  have bound : count + n ≤ 2048 := by
    -- numbers that are acknowledged lie in the window that was there before
    cases n with
    | zero => exact short
    | succ n =>
      have last := inside _ (between n (Nat.lt_succ_self n))
      omega
  refine ⟨_, observe_eq _ h.represents.winStart (returns v run) later.winStart (by omega), ?_⟩
  constructor
  · exact later
  · exact h.far.trans (Nat.le_add_right _ _)
  · exact small
  · intro move mem
    obtain before | here := List.mem_append.mp mem
    · exact h.moves move before
    · rw [List.mem_singleton.mp here]
      exact bound
  · exact waiting
  · intro m low high
    have high : m < o.start + (count + n) := high
    by_cases old : m < o.start
    · exact (h.left m low old).note call
    · by_cases first : m < o.start + count
      · exact passed m (by omega) first
      · have mem := between (m - (o.start + count)) (by omega)
        have same : o.start + count + (m - (o.start + count)) = m := by omega
        rw [same] at mem
        exact .inl mem
  · intro m mem
    have bound := transmitted m mem
    exact bound.trans_le (by simp only; omega)

/-! ## The calls -/

variable {seq : Nat}

theorem getDistance_spec (profile : BuildProfile) (h : Tracks size first o) (valid : seq < 4096) :
    o.agreement.getDistance profile seq =
      some (distance seq o.agreement.txWindow.winStart) ∧
    distance seq o.agreement.txWindow.winStart % 2 ^ 16 =
      distance seq o.agreement.txWindow.winStart :=
  ⟨getDistance_eq profile valid h.represents.valid.start,
    Nat.mod_eq_of_lt ((distance_lt _ _).trans (by decide))⟩

theorem number_near (near : distance seq o.agreement.txWindow.winStart < 2048) :
    o.number seq = o.start + distance seq o.agreement.txWindow.winStart := by
  rw [number, if_pos near]

theorem number_old (old : ¬ distance seq o.agreement.txWindow.winStart < 2048) :
    o.number seq = o.start + distance seq o.agreement.txWindow.winStart - 4096 := by
  rw [number, if_neg old]

/-- An MPDU that is transmitted lies in the window afterwards. -/
theorem Tracks.transmitted_spec (h : Tracks size first o) (valid : seq < 4096) :
    ∃ o', observe profile o (.transmitted seq) = some o' ∧ Tracks size first o' := by
  obtain ⟨read, exact_⟩ := getDistance_spec profile h valid
  have far := h.far
  have length : o.agreement.txWindow.winSize = size := h.represents.length
  have behind := distance_lt seq o.agreement.txWindow.winStart
  have bounds (extra : Nat) (fits : o.number seq < o.start + extra + size) :
      ∀ n ∈ o.number seq :: o.transmitted, n < o.start + extra + size := by
    intro n mem
    obtain rfl | before := List.mem_cons.mp mem
    · exact fits
    · have bound := h.transmitted n before
      omega
  by_cases near : distance seq o.agreement.txWindow.winStart < 2048
  · have here := number_near near
    have young : ¬ distance seq o.agreement.txWindow.winStart ≥ seqnoSpaceHalfSize :=
      Nat.not_le.mpr near
    by_cases beyond : size ≤ distance seq o.agreement.txWindow.winStart
    · generalize reach : distance seq o.agreement.txWindow.winStart - size + 1 = count
      refine h.move count (h.represents.advance count) h.represents.inside (by omega) ?_
        (bounds count (by omega)) ?_
      · intro n low high
        exact .inr (.inr ⟨o.number seq, List.mem_cons_self, by omega⟩)
      · intro v advanced
        simp only [step, notifyTransmittedMpdu, read, exact_, young, if_false, length, ge_iff_le,
          beyond, if_true, reach, advanced, some_bind, pure_some]
    · refine h.stay ?_ rfl (bounds 0 (by omega))
      simp only [step, notifyTransmittedMpdu, read, exact_, young, if_false, length, ge_iff_le,
        beyond, some_bind]
  · have here := number_old near
    have old : distance seq o.agreement.txWindow.winStart ≥ seqnoSpaceHalfSize := Nat.not_lt.mp near
    refine h.stay ?_ rfl (bounds 0 (by omega))
    simp only [step, notifyTransmittedMpdu, read, exact_, old, if_true, some_bind]

theorem AckFits.inside (fits : o.AckFits (.acked seq)) (h : Tracks size first o)
    (near : distance seq o.agreement.txWindow.winStart < 2048) :
    distance seq o.agreement.txWindow.winStart < size := by
  obtain ⟨n, mem, rfl, recent⟩ := fits
  have bound := h.transmitted n mem
  have start := h.represents.winStart
  rw [start, distance] at near ⊢
  omega

theorem Tracks.acked_spec (h : Tracks size first o) (valid : seq < 4096)
    (fits : o.AckFits (.acked seq)) :
    ∃ o', observe profile o (.acked seq) = some o' ∧ Tracks size first o' := by
  obtain ⟨read, exact_⟩ := getDistance_spec profile h valid
  by_cases near : distance seq o.agreement.txWindow.winStart < 2048
  · have here := number_near near
    have within := fits.inside h near
    have young : ¬ distance seq o.agreement.txWindow.winStart ≥ seqnoSpaceHalfSize :=
      Nat.not_le.mpr near
    obtain ⟨w, marked, represents⟩ := h.represents.mark profile within
    have noted : (o.note (.acked seq)).acked = o.number seq :: o.acked := by rw [note, if_pos near]
    have kept : (o.note (.acked seq)).transmitted = o.transmitted := by rw [note, if_pos near]
    rw [← here, ← noted] at represents
    refine h.move 0 represents ?_ (Nat.zero_le _) ?_ ?_ ?_
    · exact represents.inside
    · intro n low high
      exact absurd low (Nat.not_le.mpr high)
    · rw [kept]
      exact h.transmitted
    · intro v advanced
      simp only [step, notifyAckedMpdu, read, exact_, young, if_false, marked, advanced, some_bind,
        pure_some]
  · have old : distance seq o.agreement.txWindow.winStart ≥ seqnoSpaceHalfSize := Nat.not_lt.mp near
    have unchanged : o.note (.acked seq) = o := by rw [note, if_neg near]
    refine h.stay ?_ (by rw [unchanged]) (by rw [unchanged]; exact h.transmitted)
    simp only [step, notifyAckedMpdu, read, exact_, old, if_true, some_bind]

theorem Tracks.discarded_spec (h : Tracks size first o) (valid : seq < 4096) :
    ∃ o', observe profile o (.discarded seq) = some o' ∧ Tracks size first o' := by
  obtain ⟨read, exact_⟩ := getDistance_spec profile h valid
  by_cases near : distance seq o.agreement.txWindow.winStart < 2048
  · have here := number_near near
    have young : ¬ distance seq o.agreement.txWindow.winStart ≥ seqnoSpaceHalfSize :=
      Nat.not_le.mpr near
    refine h.move _ (h.represents.advance (distance seq o.agreement.txWindow.winStart + 1))
      h.represents.inside near ?_ ?_ ?_
    · intro n low high
      exact .inr (.inl ⟨o.number seq, List.mem_cons_self, by omega⟩)
    · intro n mem
      have bound := h.transmitted n mem
      omega
    · intro v advanced
      simp only [step, notifyDiscardedMpdu, read, exact_, young, if_false, advanced, some_bind,
        pure_some]
  · have old : distance seq o.agreement.txWindow.winStart ≥ seqnoSpaceHalfSize := Nat.not_lt.mp near
    refine h.stay ?_ rfl h.transmitted
    simp only [step, notifyDiscardedMpdu, read, exact_, old, if_true, some_bind]

theorem Tracks.observe (h : Tracks size first o) (valid : call.seq < 4096)
    (fits : o.AckFits call) :
    ∃ o', observe profile o call = some o' ∧ Tracks size first o' := by
  cases call with
  | transmitted seq => exact h.transmitted_spec valid
  | acked seq => exact h.acked_spec valid fits
  | discarded seq => exact h.discarded_spec valid

end

/-- In every run whose acknowledgements are for MPDUs transmitted not too long ago, the window
refines the set of acknowledged numbers. -/
theorem window_refines (profile : BuildProfile) {bufferSize startingSeq : Nat}
    (pos : 1 ≤ bufferSize) (small : bufferSize ≤ 1024) (start : startingSeq < 4096)
    {calls : List Call} (valid : ∀ call ∈ calls, call.seq < 4096)
    (fits : Run.Meets (observe profile) AckFits (.init bufferSize startingSeq) calls) :
    ∃ o, Run.exec (observe profile) (.init bufferSize startingSeq) calls = some o ∧
      Refines profile bufferSize (startingSeq + 4096) o := by
  obtain ⟨o, run, tracks⟩ := Run.total (start_tracks pos small start) (fits.and_forall valid)
    fun o call h condition => h.observe condition.2 condition.1
  exact ⟨o, run, tracks.refines⟩

/-- Across the wrap of the sequence numbers: an MPDU beyond the window is acknowledged, and the
window follows when the ones before it are. -/
theorem window_refines_wrap :
    ∃ o, Run.exec (observe .debug) (.init 4 4094)
        [.transmitted 4094, .transmitted 2, .acked 2, .acked 4094, .discarded 1, .acked 4094] =
        some o ∧ Refines .debug 4 (4094 + 4096) o :=
  window_refines .debug (by decide) (by decide) (by decide) (by decide) (by decide)

/-- A discarded MPDU can move the window by 2048, an acknowledgement can be for an MPDU that the
window start has left far behind, and a window without slots has no first bit. -/
theorem window_leavesClaim :
    (Run.exec (observe .debug) (.init 64 0) [.discarded 2047]).map (fun o => o.moves) =
        some [2048] ∧
      (Run.exec (observe .debug) (.init 64 0)
        [.transmitted 5, .transmitted 1500, .transmitted 2120]).isSome = true ∧
      Run.exec (observe .debug) (.init 64 0)
        [.transmitted 5, .transmitted 1500, .transmitted 2120, .acked 5] = none ∧
      Run.exec (observe .debug) (.init 0 0) [.discarded 0] = none := by
  decide

end Observed

end Ns3.OriginatorBlockAckAgreement
