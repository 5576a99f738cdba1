import Ns3.Wifi.BlockAckManager.InFlight

/-!
# Block Acks and discarded MPDUs

A Block Ack acknowledges MPDUs anywhere in the list while the window moves, and a discarded MPDU
takes the window past MPDUs in flight. `NotifyDiscardedMpdu` stops at the first MPDU that is not
old: in a list in order, no old MPDU comes after it.
-/

namespace Ns3.BlockAckManager

open OriginatorBlockAckAgreement BlockAckWindow List Option

variable {μ : Type} {profile : BuildProfile} {size start : Nat} {acked : List Nat}
  {w v : BlockAckWindow} {mpdus rest : List (Mpdu μ)} {x : Mpdu μ}
  {a : OriginatorBlockAckAgreement} {s : BlockAckManager μ}

/-! ## Block Acks -/

theorem InFlight.apart {front : List (Mpdu μ)}
    (h : InFlight w size start acked (front ++ x :: rest)) :
    ∀ y ∈ front ++ rest, y.seq ≠ x.seq := by
  obtain ⟨-, below, across⟩ := pairwise_append.mp h.ranked
  intro y mem same
  obtain before | after := mem_append.mp mem
  · have lt := across y before x mem_cons_self
    rw [same] at lt
    exact lt_irrefl _ lt
  · have lt := (pairwise_cons.mp below).1 y after
    rw [same] at lt
    exact lt_irrefl _ lt

/-- The loop over the MPDUs in flight keeps those in front of it, and those that have not been
received. -/
theorem ackReceived_spec (profile : BuildProfile) (received : Nat → Bool)
    (isQueued : Mpdu μ → Bool) (small : size ≤ 2048) {front : List (Mpdu μ)}
    (represents : a.txWindow.Represents size start acked)
    (h : InFlight a.txWindow size start acked (front ++ mpdus)) :
    ∃ b kept count, ackReceived profile received isQueued a mpdus = some (b, kept, count) ∧
      ∃ start acked, b.txWindow.Represents size start acked ∧
        InFlight b.txWindow size start acked (front ++ kept) := by
  induction mpdus generalizing a start acked front with
  | nil => exact ⟨a, [], 0, rfl, start, acked, represents, h⟩
  | cons x rest ih =>
    by_cases got : received x.seq = true
    · have mem : x ∈ front ++ x :: rest := mem_append_right _ mem_cons_self
      have sub : (front ++ rest).Sublist (front ++ x :: rest) :=
        (sublist_cons_self x rest).append_left front
      obtain ⟨v, n, acks, later, passed⟩ :=
        notifyAckedMpdu_spec profile represents (h.valid x mem) small (h.inside x mem)
      have waiting := (h.sublist sub).others represents.valid.start (h.valid x mem) h.apart
      have moved := (h.sublist sub).move represents later passed waiting
      obtain ⟨b, kept, count, run, final⟩ := ih (a := { a with txWindow := v }) later moved
      refine ⟨b, kept, count + 1, ?_, final⟩
      simp [ackReceived, got, acks, handleInFlightMpdu_acknowledged, run]
    · have regrouped : InFlight a.txWindow size start acked ((front ++ [x]) ++ rest) := by
        rw [append_assoc]
        exact h
      obtain ⟨b, kept, count, run, start', acked', later, final⟩ := ih represents regrouped
      refine ⟨b, x :: kept, count, ?_, start', acked', later, ?_⟩
      · simp [ackReceived, got, run]
      · rw [append_assoc] at final
        exact final

theorem Sorted.gotBlockAck_spec (profile : BuildProfile) (linkId : Nat) (received : Nat → Bool)
    (isQueued : Mpdu μ → Bool) (linkIds : Mpdu μ → List Nat) (h : Sorted size start acked s)
    (small : size ≤ 2048) :
    ∃ t counts, s.notifyGotBlockAck profile linkId received isQueued linkIds = some (t, counts) ∧
      Keeps size t := by
  have all : InFlight s.agreement.txWindow size start acked ([] ++ s.inFlight) := h.inFlight
  obtain ⟨b, outstanding, count, run, start', acked', later, kept⟩ :=
    ackReceived_spec profile received isQueued small h.represents all
  rw [nil_append] at kept
  obtain ⟨left, handled, sub⟩ := handleAll_returns profile later isQueued
    (fun x => if failedOn linkId linkIds x then .toRetransmit else .stayInflight) kept.valid
  refine ⟨{ agreement := b, inFlight := left }, (count % 2 ^ 16,
    (outstanding.filter (failedOn linkId linkIds)).length % 2 ^ 16), ?_, start', acked', later,
    kept.sublist sub⟩
  simp [notifyGotBlockAck, run, handled]

theorem Sorted.missedBlockAck_spec (profile : BuildProfile) (linkId : Nat)
    (isQueued : Mpdu μ → Bool) (linkIds : Mpdu μ → List Nat) (h : Sorted size start acked s) :
    ∃ t, s.notifyMissedBlockAck profile linkId isQueued linkIds = some t ∧ Keeps size t := by
  obtain ⟨left, all, sub⟩ := handleAll_returns profile h.represents isQueued
    (fun x => if linkId ∈ linkIds x then .toRetransmit else .stayInflight) h.inFlight.valid
  refine ⟨{ s with inFlight := left }, ?_, start, acked, h.represents, h.inFlight.sublist sub⟩
  simp [notifyMissedBlockAck, all]

theorem Sorted.missedAck_spec (profile : BuildProfile) (mpdu : Mpdu μ) (isQueued : Mpdu μ → Bool)
    (h : Sorted size start acked s) :
    ∃ t, s.notifyMissedAck profile mpdu isQueued = some t ∧ Keeps size t := by
  have leaves (x : Mpdu μ) (mem : x ∈ s.inFlight) :
      handleInFlightMpdu profile s.agreement isQueued .toRetransmit x = some false := by
    obtain ⟨stays, run, only⟩ := handleInFlightMpdu_returns profile h.represents
      isQueued .toRetransmit (h.inFlight.valid x mem)
    cases stays with
    | false => exact run
    | true => exact absurd (only rfl) (by decide)
  refine ⟨{ s with inFlight := s.inFlight.eraseP fun x => x.seq = mpdu.seq }, ?_, start, acked,
    h.represents, h.inFlight.sublist eraseP_sublist⟩
  simp [notifyMissedAck, handleFirst_eq isQueued mpdu.seq leaves]

/-! ## Discarded MPDUs -/

theorem dropWhile_eq_filter {α : Type*} {p : α → Bool} {l : List α}
    (prefix_ : l.Pairwise fun a b => p a = false → p b = false) :
    l.dropWhile p = l.filter fun a => !p a := by
  induction l with
  | nil => rfl
  | cons a rest ih =>
    obtain ⟨here, later⟩ := pairwise_cons.mp prefix_
    cases old : p a with
    | true =>
      rw [dropWhile_cons_of_pos old, filter_cons_of_neg (by simp [old])]
      exact ih later
    | false =>
      have keep : ∀ b ∈ rest, (!p b) = true := by
        intro b mem
        rw [here b mem old]
        rfl
      rw [dropWhile_cons_of_neg (by simp [old]), filter_cons_of_pos (by simp [old]),
        filter_eq_self.mpr keep]

theorem dropOld_eq (profile : BuildProfile) (a : OriginatorBlockAckAgreement)
    (start : a.txWindow.winStart < 4096) (valid : ∀ x ∈ mpdus, x.seq < 4096) :
    dropOld profile a mpdus =
      some (mpdus.dropWhile fun x => 2048 ≤ distance x.seq a.txWindow.winStart) := by
  induction mpdus with
  | nil => rfl
  | cons x rest ih =>
    have read : a.getDistance profile x.seq = some (distance x.seq a.txWindow.winStart) :=
      getDistance_eq profile (valid x mem_cons_self) start
    have later := ih fun y mem => valid y (mem_cons_of_mem x mem)
    by_cases old : 2048 ≤ distance x.seq a.txWindow.winStart
    · have past : distance x.seq a.txWindow.winStart ≥ seqnoSpaceHalfSize := old
      rw [dropWhile_cons_of_pos (by simpa using old)]
      simp [dropOld, read, past, later]
    · have young : ¬ distance x.seq a.txWindow.winStart ≥ seqnoSpaceHalfSize := old
      rw [dropWhile_cons_of_neg (by simpa using old)]
      simp [dropOld, read, young]

section

variable (h : InFlight w size start acked mpdus) (represents : w.Represents size start acked)
include h represents

theorem InFlight.jump {n : Nat} (later : v.Represents size (start + n) acked)
    (small : size ≤ 2048) (half : n ≤ 2048) (mem : x ∈ mpdus) :
    distance x.seq v.winStart < 2048 ↔ n ≤ distance x.seq w.winStart := by
  have begins : v.winStart = (w.winStart + n) % 4096 := by
    rw [later.winStart, represents.winStart]
    omega
  have inside := h.inside x mem
  by_cases reached : n ≤ distance x.seq w.winStart
  · rw [begins, distance_sub represents.valid.start reached]
    omega
  · rw [begins, distance_wrap (h.valid x mem) represents.valid.start (by omega) (by omega)]
    omega

theorem InFlight.discard {n : Nat} (later : v.Represents size (start + n) acked)
    (small : size ≤ 2048) (half : n ≤ 2048) :
    (mpdus.dropWhile fun x => 2048 ≤ distance x.seq v.winStart) =
        mpdus.filter (fun x => distance x.seq v.winStart < 2048) ∧
      InFlight v size (start + n) acked
        (mpdus.filter fun x => distance x.seq v.winStart < 2048) := by
  have jump (x : Mpdu μ) (mem : x ∈ mpdus) := h.jump represents later small half mem
  constructor
  · have prefix_ : mpdus.Pairwise fun x y =>
        decide (2048 ≤ distance x.seq v.winStart) = false →
          decide (2048 ≤ distance y.seq v.winStart) = false := by
      refine List.Pairwise.imp_of_mem ?_ h.ranked
      intro x y memX memY lt young
      have young := Nat.not_le.mp (of_decide_eq_false young)
      have reached := (jump x memX).mp young
      have further := (jump y memY).mpr (reached.trans lt.le)
      exact decide_eq_false (Nat.not_le.mpr further)
    rw [dropWhile_eq_filter prefix_]
    refine filter_congr fun x _ => ?_
    rw [← decide_not]
    simp
  · have kept := h.sublist (filter_sublist (p := fun x => distance x.seq v.winStart < 2048))
    have reached (x : Mpdu μ)
        (mem : x ∈ mpdus.filter fun x => distance x.seq v.winStart < 2048) :
        n ≤ distance x.seq w.winStart := by
      obtain ⟨held, young⟩ := mem_filter.mp mem
      exact (jump x held).mp (of_decide_eq_true young)
    exact kept.shift represents later reached kept.waiting

end

theorem qosUtilsIsOldPacket_eq (profile : BuildProfile) {startingSeq seq : Nat}
    (first : startingSeq < 4096) (valid : seq < 4096) :
    qosUtilsIsOldPacket profile startingSeq seq =
      some (decide (2048 ≤ distance seq startingSeq)) := by
  have bound := distance_lt seq startingSeq
  have exact_ : ((distance seq startingSeq : Nat) : Int) % 2 ^ 16 = distance seq startingSeq := by
    omega
  simp only [qosUtilsIsOldPacket, first, valid, decide_true, nsAssert_true, seqnoOffset_eq first,
    exact_, some_bind, pure_some, some.injEq, decide_eq_decide]
  omega

/-- What is discarded takes the window past it, and what became old leaves the list. -/
theorem Sorted.discardedMpdu_spec (profile : BuildProfile) (mpdu : Mpdu μ)
    (isRetryOrInFlight : Bool) (h : Sorted size start acked s) (small : size ≤ 2048)
    (fresh : mpdu.seq < 4096) :
    ∃ t, s.notifyDiscardedMpdu profile mpdu isRetryOrInFlight = some t ∧ Keeps size t ∧
      t.inFlight = s.inFlight.filter fun x =>
        distance x.seq t.agreement.txWindow.winStart < 2048 := by
  have begins := h.represents.valid.start
  have unchanged : s.inFlight = s.inFlight.filter fun x =>
      distance x.seq s.agreement.txWindow.winStart < 2048 := by
    symm
    rw [filter_eq_self]
    intro x mem
    exact decide_eq_true ((h.inFlight.inside x mem).trans_le small)
  have starting : s.agreement.getStartingSequence = s.agreement.txWindow.winStart := by
    have pos := h.represents.pos
    rw [getStartingSequence, if_neg (by rw [winSize, h.represents.length]; omega)]
  have old := qosUtilsIsOldPacket_eq profile begins fresh
  cases isRetryOrInFlight with
  | false => exact ⟨s, rfl, ⟨start, acked, h⟩, unchanged⟩
  | true =>
    by_cases far : 2048 ≤ distance mpdu.seq s.agreement.txWindow.winStart
    · refine ⟨s, ?_, ⟨start, acked, h⟩, unchanged⟩
      simp only [notifyDiscardedMpdu, starting, old, far, decide_true, if_true, Bool.not_true,
        Bool.false_eq_true, if_false, some_bind, pure_some]
    · obtain ⟨read, exact_⟩ := getDistance_spec profile h.represents fresh
      have near : ¬ distance mpdu.seq s.agreement.txWindow.winStart ≥ seqnoSpaceHalfSize := far
      have advanced := h.represents.advance (distance mpdu.seq s.agreement.txWindow.winStart + 1)
      obtain ⟨v, n, run, later, passed, -⟩ := advanceTxWindow_spec profile advanced
      have half : distance mpdu.seq s.agreement.txWindow.winStart + 1 + n ≤ 2048 := by
        by_contra! beyond
        have last := passed (n - 1) (by omega)
        have bound := h.represents.inside _ last
        omega
      rw [Nat.add_assoc start] at later
      obtain ⟨removes, kept⟩ := h.inFlight.discard h.represents later small half
      refine ⟨{ agreement := { s.agreement with txWindow := v }
                inFlight := s.inFlight.filter fun x => distance x.seq v.winStart < 2048 }, ?_,
        ⟨_, acked, later, kept⟩, rfl⟩
      have dropped := dropOld_eq profile { s.agreement with txWindow := v } later.valid.start
        h.inFlight.valid
      have notified : s.agreement.notifyDiscardedMpdu profile mpdu.seq =
          some { s.agreement with txWindow := v } := by
        simp only [OriginatorBlockAckAgreement.notifyDiscardedMpdu, read, exact_, near, if_false,
          run, some_bind, pure_some]
      simp only [notifyDiscardedMpdu, starting, old, far, decide_false, Bool.not_true,
        Bool.false_eq_true, if_false, notified, dropped, removes, some_bind, pure_some]

/-! ## Runs -/

theorem Keeps.step_spec (profile : BuildProfile) (small : size ≤ 2048) (s : BlockAckManager μ)
    (call : Call μ) (keeps : Keeps size s) (fits : s.Fits call) :
    ∃ t, s.step profile call = some t ∧ Keeps size t := by
  obtain ⟨start, acked, h⟩ := keeps
  cases call with
  | storePacket mpdu => exact h.storePacket_spec profile small fits
  | gotAck mpdu isQueued => exact h.gotAck_spec profile isQueued small fits
  | missedAck mpdu isQueued => exact h.missedAck_spec profile mpdu isQueued
  | gotBlockAck linkId received isQueued linkIds =>
    obtain ⟨t, counts, run, final⟩ :=
      h.gotBlockAck_spec profile linkId received isQueued linkIds small
    refine ⟨t, ?_, final⟩
    rw [step, run, map_some]
  | missedBlockAck linkId isQueued linkIds =>
    exact h.missedBlockAck_spec profile linkId isQueued linkIds
  | discardedMpdu mpdu isRetryOrInFlight =>
    obtain ⟨t, run, final, -⟩ := h.discardedMpdu_spec profile mpdu isRetryOrInFlight small fits
    exact ⟨t, run, final⟩

theorem Keeps.removesOld (profile : BuildProfile) (small : size ≤ 2048) (s : BlockAckManager μ)
    (call : Call μ) (keeps : Keeps size s) (fits : s.Fits call) : s.RemovesOld profile call := by
  obtain ⟨start, acked, h⟩ := keeps
  cases call with
  | discardedMpdu mpdu isRetryOrInFlight =>
    intro t returns
    obtain ⟨t', run, -, removes⟩ := h.discardedMpdu_spec profile mpdu isRetryOrInFlight small fits
    obtain rfl := some.inj (returns.symm.trans run)
    exact removes
  | storePacket | gotAck | missedAck | gotBlockAck | missedBlockAck => trivial

theorem Keeps.inOrder (small : size ≤ 2048) (keeps : Keeps size s) : s.InOrder := by
  obtain ⟨start, acked, h⟩ := keeps
  exact ⟨h.inFlight.ranked, fun x mem => (h.inFlight.inside x mem).trans_le small⟩

theorem Keeps.init {startingSeq : Nat} (pos : 0 < size) (first : startingSeq < 4096) :
    Keeps size (init (μ := μ) size startingSeq) := by
  refine ⟨startingSeq, [], ?_, .nil, nofun, nofun, nofun, nofun⟩
  exact Represents.init pos first 0

/-- The list of MPDUs in flight stays in order, holds no old MPDU, and a discarded MPDU removes
exactly the MPDUs that became old. -/
theorem inFlight_inOrder (profile : BuildProfile) {bufferSize startingSeq : Nat}
    (pos : 0 < bufferSize) (small : bufferSize ≤ 2048) (first : startingSeq < 4096)
    (calls : List (Call μ))
    (meets : Run.Meets (step profile) Fits (init bufferSize startingSeq) calls) :
    (∃ s, Run.exec (step profile) (init bufferSize startingSeq) calls = some s ∧ s.InOrder) ∧
      Run.Meets (step profile) (RemovesOld profile) (init bufferSize startingSeq) calls := by
  have begins : Keeps bufferSize (init (μ := μ) bufferSize startingSeq) := .init pos first
  have returns := Keeps.step_spec (μ := μ) profile small
  constructor
  · obtain ⟨s, run, keeps⟩ := Run.total begins meets returns
    exact ⟨s, run, keeps.inOrder small⟩
  · apply Run.Meets.of_invariant begins meets
    · intro s call t keeps fits next
      obtain ⟨t', next', final⟩ := returns s call keeps fits
      obtain rfl := Option.some.inj (next.symm.trans next')
      exact final
    · intro s call keeps fits
      exact keeps.removesOld profile small s call fits

/-- A window that wraps around: an acknowledgement out of order, a Block Ack, and a discarded
MPDU. -/
theorem inFlight_inOrder_wrap : ∃ s,
    Run.exec (step .debug) (init 4 4094) [.storePacket ⟨1, 0, ()⟩, .storePacket ⟨4094, 0, ()⟩,
      .storePacket ⟨4095, 0, ()⟩, .gotAck ⟨4095, 0, ()⟩ fun _ => true, .storePacket ⟨0, 0, ()⟩,
      .gotBlockAck 0 (· = 4094) (fun _ => true) fun _ => [1],
      .discardedMpdu ⟨0, 0, ()⟩ true] = some s ∧ s.InOrder :=
  (inFlight_inOrder .debug (by decide) (by decide) (by decide) _ (by decide)).1

/-- The condition on the calls that the window alone gives. -/
def StoresInWindow (s : BlockAckManager μ) : Call μ → Prop
  | .storePacket mpdu => mpdu.seq < 4096 ∧
      distance mpdu.seq s.agreement.txWindow.winStart < s.agreement.txWindow.winSize
  | .gotAck mpdu _ => mpdu.seq < 4096
  | .discardedMpdu mpdu _ => mpdu.seq < 4096
  | _ => True

instance (s : BlockAckManager μ) : DecidablePred s.StoresInWindow
  | .storePacket _ => instDecidableAnd
  | .gotAck _ _ => inferInstanceAs (Decidable (_ < _))
  | .discardedMpdu _ _ => inferInstanceAs (Decidable (_ < _))
  | .missedAck _ _ | .gotBlockAck _ _ _ _ | .missedBlockAck _ _ _ => .isTrue trivial

/-- A run inside the transmit window that leaves an old MPDU in the list. -/
def LeavesOld (calls : List (Call Unit)) : Prop :=
  Run.Meets (step .optimized) StoresInWindow (init 4 4) calls ∧
    ∃ s ∈ Run.exec (step .optimized) (init 4 4) calls, ∃ x ∈ s.inFlight,
      2048 ≤ distance x.seq s.agreement.txWindow.winStart
  deriving Decidable

/-- An MPDU stored again after its acknowledgement, a second fragment of an acknowledged number,
and an acknowledgement from beyond the window: each leaves an old MPDU in the list. -/
theorem storesInWindow_leavesOld :
    LeavesOld [.storePacket ⟨5, 0, ()⟩, .gotAck ⟨5, 0, ()⟩ fun _ => true, .storePacket ⟨5, 0, ()⟩,
        .storePacket ⟨4, 0, ()⟩, .gotAck ⟨4, 0, ()⟩ fun _ => true] ∧
      LeavesOld [.storePacket ⟨4, 0, ()⟩, .storePacket ⟨4, 1, ()⟩,
        .gotAck ⟨4, 0, ()⟩ fun _ => true] ∧
      LeavesOld [.storePacket ⟨4, 0, ()⟩, .gotAck ⟨8, 0, ()⟩ fun _ => true] := by
  decide

end Ns3.BlockAckManager
