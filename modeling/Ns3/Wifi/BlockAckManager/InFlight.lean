import Ns3.Library.Run
import Ns3.Wifi.BlockAckManager.Basic
import Ns3.Wifi.OriginatorBlockAckAgreement.Basic

/-!
# The MPDUs in flight stay in order

An MPDU in flight lies in the transmit window and has not been acknowledged. The window stops at
the nearest number that has not been acknowledged, so it passes no MPDU in flight unless one is
discarded: distances from the window start all shrink by the same number.
-/

namespace Ns3.BlockAckManager

open OriginatorBlockAckAgreement BlockAckWindow List Option

variable {μ : Type} {profile : BuildProfile} {size start : Nat} {acked : List Nat}
  {w v : BlockAckWindow} {mpdus rest : List (Mpdu μ)} {x : Mpdu μ}

/-- MPDUs in the window from `start` on, in order, none of them acknowledged. -/
structure InFlight (w : BlockAckWindow) (size start : Nat) (acked : List Nat)
    (mpdus : List (Mpdu μ)) : Prop where
  ranked : mpdus.Pairwise fun x y => distance x.seq w.winStart < distance y.seq w.winStart
  valid : ∀ x ∈ mpdus, x.seq < 4096
  whole : ∀ x ∈ mpdus, x.frag = 0
  inside : ∀ x ∈ mpdus, distance x.seq w.winStart < size
  waiting : ∀ x ∈ mpdus, start + distance x.seq w.winStart ∉ acked

section

variable (h : InFlight w size start acked mpdus)
include h

theorem InFlight.sublist (sub : rest.Sublist mpdus) :
    InFlight w size start acked rest where
  ranked := h.ranked.sublist sub
  valid x mem := h.valid x (sub.subset mem)
  whole x mem := h.whole x (sub.subset mem)
  inside x mem := h.inside x (sub.subset mem)
  waiting x mem := h.waiting x (sub.subset mem)

/-- The window moves on, and stops before all the MPDUs. -/
theorem InFlight.shift {n : Nat} {acked' : List Nat}
    (represents : w.Represents size start acked) (later : v.Represents size (start + n) acked')
    (reached : ∀ x ∈ mpdus, n ≤ distance x.seq w.winStart)
    (waiting : ∀ x ∈ mpdus, start + distance x.seq w.winStart ∉ acked') :
    InFlight v size (start + n) acked' mpdus := by
  have begins : v.winStart = (w.winStart + n) % 4096 := by
    rw [later.winStart, represents.winStart]
    omega
  have nearer (x : Mpdu μ) (mem : x ∈ mpdus) :
      distance x.seq v.winStart = distance x.seq w.winStart - n := by
    rw [begins]
    exact distance_sub represents.valid.start (reached x mem)
  refine ⟨?_, h.valid, h.whole, ?_, ?_⟩
  · refine List.Pairwise.imp_of_mem ?_ h.ranked
    intro a b memA memB lt
    have low := reached a memA
    rw [nearer a memA, nearer b memB]
    omega
  · intro x mem
    have inside := h.inside x mem
    rw [nearer x mem]
    omega
  · intro x mem
    have low := reached x mem
    rw [nearer x mem, Nat.add_assoc, Nat.add_sub_cancel' low]
    exact waiting x mem

theorem InFlight.move {n : Nat} {acked' : List Nat}
    (represents : w.Represents size start acked) (later : v.Represents size (start + n) acked')
    (passed : ∀ e < n, start + e ∈ acked')
    (waiting : ∀ x ∈ mpdus, start + distance x.seq w.winStart ∉ acked') :
    InFlight v size (start + n) acked' mpdus := by
  apply h.shift represents later _ waiting
  intro x mem
  by_contra! less
  exact waiting x mem (passed _ less)

end

/-- What the invariant says about the manager: the window represents a set of acknowledged
numbers, and the MPDUs in flight are in order. -/
structure Sorted (size start : Nat) (acked : List Nat) (s : BlockAckManager μ) : Prop where
  represents : s.agreement.txWindow.Represents size start acked
  inFlight : InFlight s.agreement.txWindow size start acked s.inFlight

variable {a : OriginatorBlockAckAgreement} {s : BlockAckManager μ}

/-! ## The agreement -/

theorem getDistance_spec (profile : BuildProfile)
    (represents : a.txWindow.Represents size start acked) {seq : Nat}
    (valid : seq < 4096) :
    a.getDistance profile seq = some (distance seq a.txWindow.winStart) ∧
      distance seq a.txWindow.winStart % 2 ^ 16 = distance seq a.txWindow.winStart :=
  ⟨getDistance_eq profile valid represents.valid.start,
    Nat.mod_eq_of_lt ((distance_lt _ _).trans (by decide))⟩

theorem notifyAckedMpdu_spec (profile : BuildProfile)
    (represents : a.txWindow.Represents size start acked) {seq : Nat} (valid : seq < 4096)
    (small : size ≤ 2048) (inside : distance seq a.txWindow.winStart < size) :
    ∃ v n, a.notifyAckedMpdu profile seq = some { a with txWindow := v } ∧
      v.Represents size (start + n) ((start + distance seq a.txWindow.winStart) :: acked) ∧
      ∀ e < n, start + e ∈ (start + distance seq a.txWindow.winStart) :: acked := by
  obtain ⟨read, exact_⟩ := getDistance_spec profile represents valid
  obtain ⟨w, marked, next⟩ := represents.mark profile inside
  obtain ⟨v, n, run, later, passed, stops⟩ := advanceTxWindow_spec profile next
  have young : ¬ distance seq a.txWindow.winStart ≥ seqnoSpaceHalfSize :=
    Nat.not_le.mpr (inside.trans_le small)
  refine ⟨v, n, ?_, later, passed⟩
  simp only [notifyAckedMpdu, read, exact_, young, if_false, marked, run, some_bind, pure_some]

/-! ## `HandleInFlightMpdu` -/

theorem handleInFlightMpdu_acknowledged (isQueued : Mpdu μ → Bool) (x : Mpdu μ) :
    handleInFlightMpdu profile a isQueued .acknowledged x = some false := by
  rw [handleInFlightMpdu]
  cases isQueued x <;> rfl

theorem handleInFlightMpdu_returns (profile : BuildProfile)
    (represents : a.txWindow.Represents size start acked)
    (isQueued : Mpdu μ → Bool) (status : MpduStatus) (valid : x.seq < 4096) :
    ∃ stays, handleInFlightMpdu profile a isQueued status x = some stays ∧
      (stays = true → status = .stayInflight) := by
  have read := (getDistance_spec profile represents valid).1
  rw [handleInFlightMpdu]
  simp only [read]
  cases isQueued x with
  | false => exact ⟨false, rfl, nofun⟩
  | true =>
    cases status with
    | acknowledged => exact ⟨false, rfl, nofun⟩
    | stayInflight =>
      by_cases old : distance x.seq a.txWindow.winStart ≥ seqnoSpaceHalfSize
      · exact ⟨false, by simp [old], nofun⟩
      · exact ⟨true, by simp [old], fun _ => rfl⟩
    | toRetransmit => exact ⟨false, by simp, nofun⟩

theorem handleFirst_eq (isQueued : Mpdu μ → Bool) {status : MpduStatus} (seq : Nat)
    (leaves : ∀ x ∈ mpdus, handleInFlightMpdu profile a isQueued status x = some false) :
    handleFirst profile a isQueued status seq mpdus =
      some (mpdus.eraseP fun x => x.seq = seq) := by
  induction mpdus with
  | nil => rfl
  | cons x rest ih =>
    have later := ih fun y mem => leaves y (mem_cons_of_mem x mem)
    rw [handleFirst]
    by_cases same : x.seq = seq
    · simp [same, leaves x mem_cons_self]
    · simp [same, later]

theorem handleAll_returns (profile : BuildProfile)
    (represents : a.txWindow.Represents size start acked) (isQueued : Mpdu μ → Bool)
    (status : Mpdu μ → MpduStatus) (valid : ∀ x ∈ mpdus, x.seq < 4096) :
    ∃ kept, handleAll profile a isQueued status mpdus = some kept ∧ kept.Sublist mpdus := by
  induction mpdus with
  | nil => exact ⟨[], rfl, .slnil⟩
  | cons x rest ih =>
    obtain ⟨kept, later, sub⟩ := ih fun y mem => valid y (mem_cons_of_mem x mem)
    obtain ⟨stays, here, -⟩ := handleInFlightMpdu_returns profile represents isQueued
      (status x) (valid x mem_cons_self)
    cases stays with
    | true =>
      refine ⟨x :: kept, ?_, sub.cons_cons x⟩
      simp [handleAll, here, later]
    | false =>
      refine ⟨kept, ?_, sub.cons x⟩
      simp [handleAll, here, later]

/-! ## `StorePacket` -/

/-- The scan from the end of the list finds the place of an MPDU, or the MPDU. -/
theorem storeScan_spec (profile : BuildProfile)
    (represents : a.txWindow.Represents size start acked) {mpdu : Mpdu μ}
    (single : mpdu.frag = 0) (fresh : mpdu.seq < 4096)
    (ranked : mpdus.Pairwise fun x y =>
      distance y.seq a.txWindow.winStart < distance x.seq a.txWindow.winStart)
    (valid : ∀ x ∈ mpdus, x.seq < 4096) (whole : ∀ x ∈ mpdus, x.frag = 0) :
    storeScan profile a mpdu (distance mpdu.seq a.txWindow.winStart) mpdus = some none ∨
      ∃ stored, storeScan profile a mpdu (distance mpdu.seq a.txWindow.winStart) mpdus =
          some (some stored) ∧ stored.Perm (mpdu :: mpdus) ∧
        stored.Pairwise fun x y =>
          distance y.seq a.txWindow.winStart < distance x.seq a.txWindow.winStart := by
  induction mpdus with
  | nil => exact .inr ⟨[mpdu], rfl, .refl _, pairwise_singleton _ _⟩
  | cons x rest ih =>
    obtain ⟨below, later⟩ := pairwise_cons.mp ranked
    have inSpace := valid x mem_cons_self
    have single' := whole x mem_cons_self
    obtain ⟨read, exact_⟩ := getDistance_spec profile represents inSpace
    have start := represents.valid.start
    by_cases same : mpdu.sequenceControl = x.sequenceControl
    · left
      simp only [storeScan, same, if_true]
      rfl
    · have other :
        distance mpdu.seq a.txWindow.winStart ≠ distance x.seq a.txWindow.winStart := by
        intro equal
        rw [distance_inj fresh inSpace start] at equal
        rw [Mpdu.sequenceControl, Mpdu.sequenceControl, equal, single, single'] at same
        exact same rfl
      by_cases above :
          distance x.seq a.txWindow.winStart < distance mpdu.seq a.txWindow.winStart
      · refine .inr ⟨mpdu :: x :: rest, ?_, .refl _, ?_⟩
        · simp only [storeScan, same, if_false, read, exact_, some_bind, gt_iff_lt, above,
            true_or, if_true, pure_some]
        · refine pairwise_cons.mpr ⟨fun y mem => ?_, ranked⟩
          obtain rfl | further := mem_cons.mp mem
          · exact above
          · exact (below y further).trans above
      · have goesOn : ¬ (distance mpdu.seq a.txWindow.winStart >
            distance x.seq a.txWindow.winStart ∨
            (distance mpdu.seq a.txWindow.winStart = distance x.seq a.txWindow.winStart ∧
              mpdu.frag > x.frag)) := by
          omega
        obtain present | ⟨stored, scanned, perm, ordered⟩ := ih later
          (fun y mem => valid y (mem_cons_of_mem x mem))
          (fun y mem => whole y (mem_cons_of_mem x mem))
        · left
          simp only [storeScan, same, if_false, read, exact_, goesOn, present, some_bind,
            map_none, pure_some]
        · refine .inr ⟨x :: stored, ?_, ?_, ?_⟩
          · simp only [storeScan, same, if_false, read, exact_, goesOn, scanned, some_bind,
              map_some, pure_some]
          · exact (perm.cons x).trans (.swap mpdu x rest)
          · refine pairwise_cons.mpr ⟨fun y mem => ?_, ordered⟩
            obtain rfl | further := mem_cons.mp (perm.subset mem)
            · omega
            · exact below y further

/-! ## The calls -/

/-- The condition under which a call is made. An MPDU that is stored has one fragment, lies in the
transmit window and has not been acknowledged; one that is acknowledged lies in the window or is
old. -/
def Fits (s : BlockAckManager μ) : Call μ → Prop
  | .storePacket mpdu => mpdu.seq < 4096 ∧ mpdu.frag = 0 ∧
      distance mpdu.seq s.agreement.txWindow.winStart < s.agreement.txWindow.winSize ∧
      s.agreement.txWindow.bit (distance mpdu.seq s.agreement.txWindow.winStart) = false
  | .gotAck mpdu _ => mpdu.seq < 4096 ∧
      (distance mpdu.seq s.agreement.txWindow.winStart < s.agreement.txWindow.winSize ∨
        2048 ≤ distance mpdu.seq s.agreement.txWindow.winStart)
  | .discardedMpdu mpdu _ => mpdu.seq < 4096
  | _ => True

instance (s : BlockAckManager μ) : DecidablePred s.Fits
  | .storePacket _ => inferInstanceAs (Decidable (_ ∧ _ ∧ _ ∧ _))
  | .gotAck _ _ => inferInstanceAs (Decidable (_ ∧ (_ ∨ _)))
  | .discardedMpdu _ _ => inferInstanceAs (Decidable (_ < _))
  | .missedAck _ _ | .gotBlockAck _ _ _ _ | .missedBlockAck _ _ _ => .isTrue trivial

/-- A discarded MPDU leaves those in the list that are not old. -/
def RemovesOld (profile : BuildProfile) (s : BlockAckManager μ) : Call μ → Prop
  | .discardedMpdu mpdu isRetryOrInFlight => ∀ t,
      s.notifyDiscardedMpdu profile mpdu isRetryOrInFlight = some t →
      t.inFlight = s.inFlight.filter fun x =>
        distance x.seq t.agreement.txWindow.winStart < 2048
  | _ => True

/-- The list in order, and without an old MPDU. -/
structure InOrder (s : BlockAckManager μ) : Prop where
  increasing : s.inFlight.Pairwise fun x y =>
    distance x.seq s.agreement.txWindow.winStart < distance y.seq s.agreement.txWindow.winStart
  young : ∀ x ∈ s.inFlight, distance x.seq s.agreement.txWindow.winStart < 2048

/-- The invariant, for some numbers that have been acknowledged. -/
def Keeps (size : Nat) (s : BlockAckManager μ) : Prop := ∃ start acked, Sorted size start acked s

theorem Sorted.storePacket_spec (profile : BuildProfile) {mpdu : Mpdu μ}
    (h : Sorted size start acked s) (small : size ≤ 2048) (fits : s.Fits (.storePacket mpdu)) :
    ∃ t, s.storePacket profile mpdu = some t ∧ Keeps size t := by
  obtain ⟨fresh, single, inside, clear⟩ := fits
  obtain ⟨read, exact_⟩ := getDistance_spec profile h.represents fresh
  have inside : distance mpdu.seq s.agreement.txWindow.winStart < size :=
    inside.trans_eq h.represents.length
  have young : ¬ distance mpdu.seq s.agreement.txWindow.winStart ≥ seqnoSpaceHalfSize :=
    Nat.not_le.mpr (inside.trans_le small)
  obtain present | ⟨stored, scanned, perm, ordered⟩ := storeScan_spec profile
    h.represents single fresh (pairwise_reverse.mpr h.inFlight.ranked)
    (fun x mem => h.inFlight.valid x (mem_reverse.mp mem))
    (fun x mem => h.inFlight.whole x (mem_reverse.mp mem))
  · refine ⟨s, ?_, start, acked, h⟩
    simp only [storePacket, read, exact_, young, if_false, present, some_bind]
  · have within : ¬ distance mpdu.seq s.agreement.txWindow.winStart ≥
        s.agreement.txWindow.winSize := by
      omega
    have transmitted : s.agreement.notifyTransmittedMpdu profile mpdu.seq = some s.agreement := by
      simp only [notifyTransmittedMpdu, read, exact_, young, within, if_false, some_bind]
    have member (x : Mpdu μ) (mem : x ∈ stored.reverse) : x = mpdu ∨ x ∈ s.inFlight := by
      have held := perm.subset (mem_reverse.mp mem)
      exact (mem_cons.mp held).imp id mem_reverse.mp
    refine ⟨{ s with inFlight := stored.reverse }, ?_, start, acked, h.represents, ?_⟩
    · simp only [storePacket, read, exact_, young, if_false, scanned, transmitted, some_bind,
        pure_some]
    · refine ⟨pairwise_reverse.mpr ordered, ?_, ?_, ?_, ?_⟩
      · intro x mem
        obtain rfl | held := member x mem
        · exact fresh
        · exact h.inFlight.valid x held
      · intro x mem
        obtain rfl | held := member x mem
        · exact single
        · exact h.inFlight.whole x held
      · intro x mem
        obtain rfl | held := member x mem
        · exact inside
        · exact h.inFlight.inside x held
      · intro x mem
        obtain rfl | held := member x mem
        · rw [h.represents.bits _ inside, decide_eq_false_iff_not] at clear
          exact clear
        · exact h.inFlight.waiting x held

theorem InFlight.others {seq : Nat} (h : InFlight w size start acked mpdus)
    (valid : w.winStart < 4096)
    (fresh : seq < 4096) (others : ∀ x ∈ mpdus, x.seq ≠ seq) :
    ∀ x ∈ mpdus, start + distance x.seq w.winStart ∉
      (start + distance seq w.winStart) :: acked := by
  intro x mem same
  obtain here | before := mem_cons.mp same
  · rw [Nat.add_left_cancel_iff, distance_inj (h.valid x mem) fresh valid] at here
    exact others x mem here
  · exact h.waiting x mem before

theorem InFlight.eraseP_others (h : InFlight w size start acked mpdus) (seq : Nat) :
    ∀ x ∈ mpdus.eraseP fun x => x.seq = seq, x.seq ≠ seq := by
  induction mpdus with
  | nil => exact nofun
  | cons y rest ih =>
    have later := h.sublist (sublist_cons_self y rest)
    have below := (pairwise_cons.mp h.ranked).1
    by_cases same : y.seq = seq
    · rw [eraseP_cons_of_pos (by simpa using same)]
      intro x mem equal
      have lt := below x mem
      rw [equal, same] at lt
      exact lt_irrefl _ lt
    · rw [eraseP_cons_of_neg (by simpa using same)]
      intro x mem
      obtain rfl | further := mem_cons.mp mem
      · exact same
      · exact ih later x further

theorem Sorted.gotAck_spec (profile : BuildProfile) {mpdu : Mpdu μ} (isQueued : Mpdu μ → Bool)
    (h : Sorted size start acked s) (small : size ≤ 2048) (fits : s.Fits (.gotAck mpdu isQueued)) :
    ∃ t, s.notifyGotAck profile mpdu isQueued = some t ∧ Keeps size t := by
  obtain ⟨fresh, place⟩ := fits
  have leaves (b : OriginatorBlockAckAgreement) :
      handleFirst profile b isQueued .acknowledged mpdu.seq s.inFlight =
        some (s.inFlight.eraseP fun x => x.seq = mpdu.seq) :=
    handleFirst_eq isQueued mpdu.seq fun x _ => handleInFlightMpdu_acknowledged isQueued x
  have kept := h.inFlight.sublist (eraseP_sublist (p := fun x => x.seq = mpdu.seq))
  by_cases inside : distance mpdu.seq s.agreement.txWindow.winStart < size
  · obtain ⟨v, n, acks, later, passed⟩ :=
      notifyAckedMpdu_spec profile h.represents fresh small inside
    have others := kept.others h.represents.valid.start fresh
      (h.inFlight.eraseP_others mpdu.seq)
    refine ⟨{ agreement := { s.agreement with txWindow := v }
              inFlight := s.inFlight.eraseP fun x => x.seq = mpdu.seq }, ?_, _, _, later,
      kept.move h.represents later passed others⟩
    simp only [notifyGotAck, acks, leaves, some_bind, pure_some]
  · have old : distance mpdu.seq s.agreement.txWindow.winStart ≥ seqnoSpaceHalfSize := by
      obtain near | far := place
      · rw [winSize, h.represents.length] at near
        exact absurd near inside
      · exact far
    obtain ⟨read, exact_⟩ := getDistance_spec profile h.represents fresh
    refine ⟨{ s with inFlight := s.inFlight.eraseP fun x => x.seq = mpdu.seq }, ?_, start, acked,
      h.represents, kept⟩
    simp only [notifyGotAck, notifyAckedMpdu, read, exact_, old, if_true, leaves, some_bind,
      pure_some]

end Ns3.BlockAckManager
