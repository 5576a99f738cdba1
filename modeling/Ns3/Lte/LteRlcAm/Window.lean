import Ns3.Lte.LteRlcAm.Receive

/-!
# The receiving window of RLC AM

The state variables are read as positions in the stream, with their bases at VR(R). Every call
keeps VR(R) ≤ VR(MS) ≤ VR(H) and VR(H) inside the window, and no comparison finds two bases that
differ.
-/

namespace Ns3.LteRlcAm

open SequenceNumber10 (from_ less_from lessEq_from greaterEq_from greater_from incr_from add_from
  from_value from_modulusBase setModulusBase_from)

variable {α : Type} {profile : BuildProfile} {s t : LteRlcAmRx α} {R₀ R Ms H p : Nat}

/-- The state variables stand at these positions. While the timer runs, VR(X) lies ahead of where
VR(R) was at `R₀`. -/
structure Tracks (s : LteRlcAmRx α) (R₀ R Ms H : Nat) : Prop where
  vrR : s.vrR = from_ R R
  vrMs : s.vrMs = from_ R Ms
  vrH : s.vrH = from_ R H
  start : R₀ ≤ R
  low : R ≤ Ms
  high : Ms ≤ H
  window : H ≤ R₀ + 512
  stored : ∀ q it, s.rxonBuffer q = some it →
    it.pduComplete = true ∧ it.byteSegments.length = 1 ∧ ∃ p, R ≤ p ∧ p < H ∧ q = p % 1024
  timer : s.reorderingTimer = true → ∃ X, s.vrX = from_ R X ∧ R₀ < X ∧ X ≤ H

/-- Between events. -/
def Inv (s : LteRlcAmRx α) : Prop :=
  ∃ R Ms H, Tracks s R R Ms H ∧ s.vrMr = from_ R (R + 512)

theorem inv_init : Inv ({} : LteRlcAmRx α) := by
  refine ⟨0, 0, 0, ⟨rfl, rfl, rfl, le_rfl, le_rfl, le_rfl, by decide, ?_, ?_⟩,
    rfl⟩
  · intro q it stored
    cases stored
  · intro running
    cases running

/-! ## Complete PDUs -/

theorem complete_iff {q : Nat} : complete s q = true ↔
    ∃ it, s.rxonBuffer q = some it ∧ it.pduComplete = true := by
  rw [complete, Option.any_eq_true]

theorem Tracks.position (tracks : Tracks s R₀ R Ms H) {q : Nat} (found : complete s q = true) :
    ∃ p, R ≤ p ∧ p < H ∧ q = p % 1024 := by
  obtain ⟨it, stored, -⟩ := complete_iff.mp found
  exact (tracks.stored q it stored).2.2

theorem Tracks.lt_of_complete (tracks : Tracks s R₀ R Ms H) (high : p ≤ H)
    (found : complete s (p % 1024) = true) : p < H := by
  obtain ⟨y, ly, hy, same⟩ := tracks.position found
  have := tracks.window
  have := tracks.start
  omega

/-- Moving over complete PDUs ends at the first position without one, VR(H) at the latest. -/
theorem Tracks.skipComplete (tracks : Tracks s R₀ R Ms H) (profile : BuildProfile) {M : Nat}
    (base : R ≤ M) (rounds : Nat) : ∀ p, M ≤ p → p ≤ H → H < p + rounds →
    ∃ p', LteRlcAm.skipComplete profile s (M % 1024) rounds (from_ R p) = some (from_ R p') ∧
      p ≤ p' ∧ p' ≤ H ∧ complete s (p' % 1024) = false := by
  induction rounds with
  | zero =>
    intro p _ high enough
    omega
  | succ rounds ih =>
    intro p low high enough
    rw [LteRlcAm.skipComplete, from_value]
    cases found : complete s (p % 1024) with
    | false => exact ⟨p, rfl, Nat.le_refl p, high, found⟩
    | true =>
      have below := tracks.lt_of_complete high found
      have apart : (M % 1024 != (p + 1) % 1024) = true := by
        have := tracks.window
        have := tracks.start
        exact bne_iff_ne.mpr (by omega)
      obtain ⟨p', returns, later, most, hole⟩ := ih (p + 1) (by omega) below (by omega)
      refine ⟨p', ?_, by omega, most, hole⟩
      simp only [if_true, incr_from, from_value, apart, nsAssert_true, some_bind]
      exact returns

/-! ## The window -/

theorem isInside_eq (vrR : s.vrR = from_ R R) (vrMr : s.vrMr = from_ R (R + 512))
    {seqNumber : SequenceNumber10} (value : seqNumber.value = p % 1024) (low : R ≤ p)
    (near : p < R + 1024) :
    isInsideReceivingWindow profile seqNumber s = some (decide (p < R + 512), s) := by
  have rebasedR : s.vrR.setModulusBase s.vrR = from_ R R := by
    rw [vrR]
    exact setModulusBase_from rfl rfl
  have rebasedMr : s.vrMr.setModulusBase (from_ R R) = from_ R (R + 512) := by
    rw [vrMr]
    exact setModulusBase_from rfl rfl
  have rebased : seqNumber.setModulusBase (from_ R R) = from_ R p := setModulusBase_from rfl value
  have same : { s with vrR := from_ R R, vrMr := from_ R (R + 512) } = s := by rw [← vrR, ← vrMr]
  simp [isInsideReceivingWindow, rebasedR, rebasedMr, rebased, same,
    lessEq_from (Nat.le_refl R) (by omega : R < R + 1024) low near,
    less_from low near (by omega : R ≤ R + 512) (by omega), low]

/-- The position at which a sequence number comes next, from VR(R) on. -/
def ahead (R q : Nat) : Nat := R + (q + 1024 - R % 1024) % 1024

theorem ahead_spec (R : Nat) {q : Nat} (small : q < 1024) :
    R ≤ ahead R q ∧ ahead R q < R + 1024 ∧ q = ahead R q % 1024 := by
  unfold ahead
  omega

/-! ## Delivery -/

/-- One PDU is delivered, where VR(MS) is not yet reached. -/
theorem Tracks.deliverOne (tracks : Tracks s R₀ R Ms H) (below : R < Ms) (front : α) :
    Tracks (LteRlcAm.deliverOne front s) R₀ (R + 1) Ms H := by
  have next : s.vrR.incr.setModulusBase s.vrR.incr = from_ (R + 1) (R + 1) := by
    rw [tracks.vrR, incr_from]
    exact setModulusBase_from rfl rfl
  have value : s.vrR.value = R % 1024 := by rw [tracks.vrR, from_value]
  refine ⟨next, ?_, ?_, tracks.start.trans (Nat.le_succ R), below, tracks.high, tracks.window, ?_,
    ?_⟩
  · simp only [LteRlcAm.deliverOne, next, tracks.vrMs]
    exact setModulusBase_from rfl rfl
  · simp only [LteRlcAm.deliverOne, next, tracks.vrH]
    exact setModulusBase_from rfl rfl
  · intro q it stored
    simp only [LteRlcAm.deliverOne, value] at stored
    split at stored
    case isTrue => cases stored
    case isFalse other =>
      obtain ⟨done, one, p, low, top, same⟩ := tracks.stored q it stored
      refine ⟨done, one, p, ?_, top, same⟩
      refine Nat.lt_of_le_of_ne low fun here => other ?_
      rw [same, here]
  · intro running
    obtain ⟨X, vrX, after, most⟩ := tracks.timer running
    refine ⟨X, ?_, after, most⟩
    simp only [LteRlcAm.deliverOne, next, vrX]
    exact setModulusBase_from rfl rfl

theorem complete_deliverOne {front : α} {q : Nat} (hole : complete s q = false) :
    complete (LteRlcAm.deliverOne front s) q = false := by
  simp only [complete, LteRlcAm.deliverOne]
  split
  · rfl
  · exact hole

/-- VR(R) moves over complete PDUs, to VR(MS) at the latest. -/
theorem Tracks.deliverFrom (profile : BuildProfile) (rounds : Nat) : ∀ (s : LteRlcAmRx α) (R : Nat),
    Tracks s R₀ R Ms H → complete s (Ms % 1024) = false → Ms < R + rounds →
    ∃ t R', LteRlcAm.deliverFrom profile (R₀ % 1024) rounds s = some t ∧ Tracks t R₀ R' Ms H := by
  induction rounds with
  | zero =>
    intro s R tracks _ enough
    have := tracks.low
    omega
  | succ rounds ih =>
    intro s R tracks hole enough
    have value : s.vrR.value = R % 1024 := by rw [tracks.vrR, from_value]
    rw [LteRlcAm.deliverFrom, value]
    cases found : s.rxonBuffer (R % 1024) with
    | none => exact ⟨s, R, rfl, tracks⟩
    | some it =>
      obtain ⟨done, one, -⟩ := tracks.stored _ it found
      have below : R < Ms := by
        refine Nat.lt_of_le_of_ne tracks.low fun same => ?_
        rw [← same, complete, found, Option.any_some, done] at hole
        cases hole
      obtain ⟨front, segments⟩ := List.length_eq_one_iff.mp one
      have tracks' := tracks.deliverOne below front
      have apart : (R₀ % 1024 != (LteRlcAm.deliverOne front s).vrR.value) = true := by
        have window := tracks.window
        have high := tracks.high
        have start := tracks.start
        rw [tracks'.vrR, from_value, bne_iff_ne]
        omega
      obtain ⟨t, R', returns, tracked⟩ :=
        ih _ (R + 1) tracks' (complete_deliverOne hole) (by omega)
      refine ⟨t, R', ?_, tracked⟩
      simp only [done, if_true, segments, List.length_singleton, beq_self_eq_true,
        nsAssert_true, List.head?_cons, apart, some_bind]
      exact returns

/-! ## The calls -/

/-- A PDU is placed in the buffer, or it is there already, and VR(H) is raised. -/
theorem Tracks.place (tracks : Tracks s R R Ms H) (profile : BuildProfile) (low : R ≤ p)
    (near : p < R + 512) (front : α) :
    ∃ t, placePdu profile (from_ R p) front s = some t ∧ t.vrMr = s.vrMr ∧ t.vrH = s.vrH ∧
      Tracks { t with vrH := from_ R (max H (p + 1)) } R R Ms (max H (p + 1)) := by
  have window := tracks.window
  have high := tracks.high
  have wider : ∀ q it, s.rxonBuffer q = some it → it.pduComplete = true ∧
      it.byteSegments.length = 1 ∧ ∃ p', R ≤ p' ∧ p' < max H (p + 1) ∧ q = p' % 1024 := by
    intro q it stored
    obtain ⟨done, one, p', low', top, same⟩ := tracks.stored q it stored
    exact ⟨done, one, p', low', by omega, same⟩
  have timer : s.reorderingTimer = true → ∃ X, s.vrX = from_ R X ∧ R < X ∧ X ≤ max H (p + 1) := by
    intro running
    obtain ⟨X, vrX, after, most⟩ := tracks.timer running
    exact ⟨X, vrX, after, by omega⟩
  rw [placePdu, from_value]
  cases found : s.rxonBuffer (p % 1024) with
  | some it =>
    obtain ⟨-, one, -⟩ := tracks.stored _ it found
    obtain ⟨front, segments⟩ := List.length_eq_one_iff.mp one
    refine ⟨s, by simp [segments], rfl, rfl, ?_⟩
    exact ⟨tracks.vrR, tracks.vrMs, rfl, Nat.le_refl R,
      tracks.low, by omega, by omega, wider, timer⟩
  | none =>
    refine ⟨_, rfl, rfl, rfl, tracks.vrR, tracks.vrMs, rfl, Nat.le_refl R, tracks.low, by omega,
      by omega, ?_, timer⟩
    intro q it stored
    dsimp only at stored
    split at stored
    case isTrue here =>
      cases stored
      exact ⟨rfl, rfl, p, low, by omega, here⟩
    case isFalse => exact wider q it stored

theorem raiseVrH_eq (profile : BuildProfile) (vrH : s.vrH = from_ R H) (low : R ≤ p)
    (near : p < R + 512) (start : R ≤ H) (bound : H ≤ R + 512) :
    raiseVrH profile (from_ R p) s = some { s with vrH := from_ R (max H (p + 1)) } := by
  rw [raiseVrH, vrH, greaterEq_from low (by omega) start (by omega)]
  by_cases above : H ≤ p
  · rw [Nat.max_eq_right (by omega)]
    simp [above]
  · rw [Nat.max_eq_left (by omega), ← vrH]
    simp [above]

theorem Tracks.moveVrMs (tracks : Tracks s R R Ms H) (profile : BuildProfile) :
    ∃ Ms', LteRlcAm.moveVrMs profile s = some { s with vrMs := from_ R Ms' } ∧
      complete s (Ms' % 1024) = false ∧ Tracks { s with vrMs := from_ R Ms' } R R Ms' H := by
  have window := tracks.window
  have low := tracks.low
  obtain ⟨Ms', skips, later, most, hole⟩ := tracks.skipComplete profile low 1024 Ms le_rfl
    tracks.high (by omega)
  refine ⟨Ms', ?_, hole, { tracks with vrMs := rfl, low := low.trans later, high := most }⟩
  rw [LteRlcAm.moveVrMs, tracks.vrMs, from_value, skips]
  rfl

theorem Tracks.setVrMr (tracks : Tracks s R₀ R Ms H) (vrMr : SequenceNumber10) :
    Tracks { s with vrMr } R₀ R Ms H :=
  ⟨tracks.vrR, tracks.vrMs, tracks.vrH, tracks.start, tracks.low, tracks.high, tracks.window,
    tracks.stored, tracks.timer⟩

theorem Tracks.moveVrR (tracks : Tracks s R R Ms H) (profile : BuildProfile)
    (hole : complete s (Ms % 1024) = false) (vrMr : s.vrMr = from_ R (R + 512))
    (seqNumber : SequenceNumber10) :
    ∃ t R', LteRlcAm.moveVrR profile seqNumber s = some t ∧ Tracks t R R' Ms H ∧
      t.vrMr = from_ R' (R' + 512) := by
  rw [LteRlcAm.moveVrR]
  split
  case isTrue =>
    have window := tracks.window
    have high := tracks.high
    obtain ⟨t, R', returns, tracked⟩ := Tracks.deliverFrom profile 1024 s R tracks hole (by omega)
    refine ⟨{ t with vrMr := t.vrR.add windowSize }, R', ?_, tracked.setVrMr _, ?_⟩
    · rw [tracks.vrR, from_value, returns]
      rfl
    · rw [tracked.vrR, add_from, windowSize]
  case isFalse => exact ⟨s, R, rfl, tracks, vrMr⟩

theorem Tracks.reset (tracks : Tracks s R₀ R Ms H) {running : Bool}
    (timer : running = true → ∃ X, s.vrX = from_ R X ∧ R < X ∧ X ≤ H) :
    Tracks { s with reorderingTimer := running } R R Ms H :=
  { vrR := tracks.vrR
    vrMs := tracks.vrMs
    vrH := tracks.vrH
    start := Nat.le_refl R
    low := tracks.low
    high := tracks.high
    window := tracks.window.trans (Nat.add_le_add_right tracks.start 512)
    stored := tracks.stored
    timer := timer }

theorem Tracks.stopTimer (tracks : Tracks s R₀ R Ms H) (profile : BuildProfile)
    (vrMr : s.vrMr = from_ R (R + 512)) :
    ∃ running, LteRlcAm.stopTimer profile s = some { s with reorderingTimer := running } ∧
      Tracks { s with reorderingTimer := running } R R Ms H := by
  rw [LteRlcAm.stopTimer]
  cases timer : s.reorderingTimer with
  | false =>
    refine ⟨false, ?_, tracks.reset fun running => nomatch running⟩
    rw [if_neg Bool.false_ne_true, ← timer]
    rfl
  | true =>
    obtain ⟨X, vrX, after, most⟩ := tracks.timer timer
    have window := tracks.window
    have start := tracks.start
    have low := tracks.low
    have high := tracks.high
    have valueX : s.vrX.value = X % 1024 := by rw [vrX, from_value]
    have valueR : s.vrR.value = R % 1024 := by rw [tracks.vrR, from_value]
    have valueMr : s.vrMr.value = (R + 512) % 1024 := by rw [vrMr, from_value]
    rw [if_pos rfl, valueX, valueR]
    by_cases reached : X % 1024 = R % 1024
    · exact ⟨false, if_pos reached, tracks.reset fun running => nomatch running⟩
    · rw [if_neg reached]
      rcases Nat.lt_or_ge R X with ahead | passed
      · rw [isInside_eq tracks.vrR vrMr valueX ahead.le (by omega)]
        exact ⟨_, rfl, tracks.reset fun _ => ⟨X, vrX, ahead, most⟩⟩
      · -- VR(R) has passed VR(X), which now counts as a number of the next round
        rw [isInside_eq tracks.vrR vrMr (by omega : s.vrX.value = (X + 1024) % 1024) (by omega)
          (by omega)]
        refine ⟨_, rfl, tracks.reset fun running => ?_⟩
        rw [Bool.or_eq_true, decide_eq_true_eq, beq_iff_eq] at running
        omega

theorem Tracks.startTimer (tracks : Tracks s R R Ms H) (profile : BuildProfile) :
    ∃ t, LteRlcAm.startTimer profile s = some t ∧ Tracks t R R Ms H ∧ t.vrMr = s.vrMr := by
  have window := tracks.window
  have low := tracks.low
  have high := tracks.high
  rw [LteRlcAm.startTimer]
  cases timer : s.reorderingTimer with
  | true => exact ⟨s, rfl, tracks, rfl⟩
  | false =>
    rw [tracks.vrH, tracks.vrR, greater_from (by omega : R ≤ H) (by omega) (Nat.le_refl R)
      (by omega)]
    by_cases missing : R < H
    · refine ⟨{ s with reorderingTimer := true, vrX := from_ R H }, ?_, ?_, rfl⟩
      · simp [missing, tracks.vrH, tracks.vrR]
      · exact { tracks with timer := fun _ => ⟨H, rfl, missing, Nat.le_refl H⟩ }
    · exact ⟨s, by simp [missing], tracks, rfl⟩

theorem Tracks.restartTimer (tracks : Tracks s R R Ms H) (profile : BuildProfile) :
    ∃ t, LteRlcAm.restartTimer profile s = some t ∧ Tracks t R R Ms H ∧ t.vrMr = s.vrMr := by
  have window := tracks.window
  have low := tracks.low
  have high := tracks.high
  rw [LteRlcAm.restartTimer, tracks.vrH, tracks.vrMs, greater_from (by omega : R ≤ H) (by omega) low
    (by omega)]
  by_cases missing : Ms < H
  · refine ⟨{ s with reorderingTimer := true, vrX := from_ R H }, ?_, ?_, rfl⟩
    · simp [missing, tracks.vrH, tracks.vrMs]
    · exact { tracks with timer := fun _ => ⟨H, rfl, by omega, Nat.le_refl H⟩ }
  · exact ⟨s, by simp [missing], tracks, rfl⟩

/-! ## Events -/

/-- A PDU inside the window is accepted without a failed assertion. -/
theorem Tracks.acceptPdu (tracks : Tracks s R R Ms H) (profile : BuildProfile)
    (vrMr : s.vrMr = from_ R (R + 512)) (low : R ≤ p) (near : p < R + 512) (front : α) :
    ∃ t, LteRlcAm.acceptPdu profile (from_ R p) front s = some t ∧ Inv t := by
  obtain ⟨s₁, placed, sameMr, sameH, tracks₁⟩ := tracks.place profile low near front
  have raised := raiseVrH_eq profile (sameH.trans tracks.vrH) low near
    (tracks.low.trans tracks.high) tracks.window
  obtain ⟨Ms', moved, hole, tracks₂⟩ := tracks₁.moveVrMs profile
  obtain ⟨s₃, R', delivered, tracks₃, vrMr₃⟩ := tracks₂.moveVrR profile hole
    (sameMr.trans vrMr) (from_ R p)
  obtain ⟨running, stopped, tracks₄⟩ := tracks₃.stopTimer profile vrMr₃
  obtain ⟨t, started, tracks₅, vrMr₅⟩ := tracks₄.startTimer profile
  refine ⟨t, ?_, R', Ms', _, tracks₅, vrMr₅.trans vrMr₃⟩
  simp [LteRlcAm.acceptPdu, placed, raised, moved, delivered, stopped, started]

theorem Inv.setStatus (inv : Inv s) (statusPduRequested : Bool) (statusPduBufferSize : Nat)
    (statusProhibitTimer : Bool) :
    Inv { s with statusPduRequested, statusPduBufferSize, statusProhibitTimer } := by
  obtain ⟨R, Ms, H, tracks, vrMr⟩ := inv
  exact ⟨R, Ms, H, { tracks with }, vrMr⟩

theorem Inv.receivePdu {rlcAmHeader : LteRlcAmHeader} {front : α} (inv : Inv s)
    (small : rlcAmHeader.sequenceNumber.value < 1024)
    (returns : doReceivePdu profile rlcAmHeader front s = some t) : Inv t := by
  rw [doReceivePdu] at returns
  split at returns
  case isTrue =>
    obtain ⟨_, -, same⟩ := bind_returns.mp returns
    cases same
    exact inv
  case isFalse =>
    -- the STATUS PDU that may be requested changes nothing here
    have polled : Inv (if rlcAmHeader.pollingBit = 1 then
        { s with statusPduRequested := true, statusPduBufferSize := 4 } else s) ∧
        (if rlcAmHeader.pollingBit = 1 then
          { s with statusPduRequested := true, statusPduBufferSize := 4 } else s).vrR = s.vrR := by
      split
      · exact ⟨inv.setStatus true 4 s.statusProhibitTimer, rfl⟩
      · exact ⟨inv, rfl⟩
    dsimp only at returns
    obtain ⟨⟨R, Ms, H, tracks, vrMr⟩, sameR⟩ := polled
    obtain ⟨low, near, value⟩ := ahead_spec R small
    have seqNumber : rlcAmHeader.sequenceNumber.setModulusBase s.vrR =
        from_ R (ahead R rlcAmHeader.sequenceNumber.value) := by
      rw [← sameR, tracks.vrR]
      exact setModulusBase_from rfl value
    generalize ahead R rlcAmHeader.sequenceNumber.value = p at *
    rw [seqNumber, isInside_eq tracks.vrR vrMr (from_value R p) low near] at returns
    by_cases inside : p < R + 512
    · obtain ⟨t', accepted, inv⟩ := tracks.acceptPdu profile vrMr low inside front
      simp only [inside, decide_true, if_true, some_bind, accepted]
        at returns
      cases returns
      exact inv
    · simp only [inside, decide_false, Bool.false_eq_true, if_false, some_bind, pure_some,
        Option.some.injEq] at returns
      exact ⟨R, Ms, H, returns ▸ tracks, returns ▸ vrMr⟩

theorem Inv.expireReorderingTimer (inv : Inv s) (running : s.reorderingTimer = true) :
    ∃ t, LteRlcAm.expireReorderingTimer profile s = some t ∧ Inv t := by
  obtain ⟨R, Ms, H, tracks, vrMr⟩ := inv
  obtain ⟨X, vrX, after, most⟩ := tracks.timer running
  have window := tracks.window
  obtain ⟨Ms', skips, later, most', hole⟩ := tracks.skipComplete profile after.le 1024 X
    le_rfl most (by omega)
  have moved : Tracks { s with vrMs := from_ R Ms', reorderingTimer := false } R R Ms' H :=
    { tracks with
      vrMs := rfl
      low := after.le.trans later
      high := most'
      timer := fun running => nomatch running }
  obtain ⟨t, restarted, tracked, vrMr'⟩ := moved.restartTimer profile
  refine ⟨{ t with statusPduRequested := true }, ?_, R, Ms', H, { tracked with },
    vrMr'.trans vrMr⟩
  have skipped : LteRlcAm.skipComplete profile s s.vrX.value 1024 s.vrX = some (from_ R Ms') := by
    rw [vrX, from_value]
    exact skips
  rw [LteRlcAm.expireReorderingTimer, skipped]
  simp [restarted]

/-- Every event keeps the window. -/
theorem Inv.step {e : RxEvent α} (inv : Inv s) (returns : rxStep profile s e = some t) : Inv t := by
  cases e with
  | receivePdu resegmentationFlag pollingBit sn p =>
    exact inv.receivePdu (Nat.mod_lt sn (by decide)) returns
  | expireReorderingTimer =>
    rw [rxStep] at returns
    split at returns
    case isTrue running =>
      obtain ⟨t', expires, inv⟩ := inv.expireReorderingTimer running
      cases expires.symm.trans returns
      exact inv
    case isFalse =>
      cases returns
      exact inv
  | notifyTxOpportunity bytes =>
    obtain ⟨⟨header, t'⟩, sends, rfl⟩ := Option.map_eq_some_iff.mp returns
    rw [doNotifyTxOpportunity] at sends
    split at sends
    · obtain ⟨_, -, same⟩ := bind_returns.mp sends
      cases same
      exact inv
    · split at sends
      · split at sends
        · obtain ⟨_, -, same⟩ := bind_returns.mp sends
          cases same
          exact inv
        · obtain ⟨_, -, same⟩ := bind_returns.mp sends
          cases same
          exact inv.setStatus false 0 true
      · cases sends
        exact inv
  | expireStatusProhibitTimer =>
    cases returns
    exact inv.setStatus s.statusPduRequested s.statusPduBufferSize false

theorem run_inv {events : List (RxEvent α)} (run : Run.exec (rxStep profile) {} events = some s) :
    Inv s :=
  Run.invariant inv_init (Run.Meets.of_forall (fun _ _ => trivial) _ events)
    (fun _ _ _ inv _ returns => inv.step returns) run

end Ns3.LteRlcAm
