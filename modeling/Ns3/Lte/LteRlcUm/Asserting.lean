import Ns3.Lte.LteRlcUm.Variables

/-!
# The assertion of the comparisons

The same calls, with the assertion that two numbers that are compared have the same modulus base.
The bases are set before each comparison, or kept from the last call: the assertion never fails.
-/

namespace Ns3.LteRlcUm.Asserting

open SequenceNumber10 (less lessEq greater greater_eq)

variable {α : Type}

/-- `IsInsideReorderingWindow`, apart from the base of VR(UH). -/
def isInsideReorderingWindow (profile : BuildProfile) (vrUh seqNumber : SequenceNumber10) :
    Option Bool := do
  let base := vrUh.sub windowSize
  let vrUh := vrUh.setModulusBase base
  let seqNumber := seqNumber.setModulusBase base
  if ← lessEq profile (vrUh.sub windowSize) seqNumber then less profile seqNumber vrUh
  else return false

/-- The loop of `ReassembleOutsideWindow` from an entry of the map on. -/
def reassembleOutsideLoop (profile : BuildProfile) :
    List (Nat × RlcPdu α) → LteRlcUmRx α → Option (LteRlcUmRx α)
  | [], s => some s
  | (sn, packet) :: rest, s => do
      let s := rebaseVrUh s
      if ← isInsideReorderingWindow profile s.vrUh (.ofNat sn) then return s
      else
        let s ← reassembleAndDeliver packet s
        reassembleOutsideLoop profile rest { s with rxBuffer := rest }

/-- The loop of `ReassembleSnInterval`; a number comes again after 1024 rounds. -/
def reassembleSnLoop (profile : BuildProfile) : Nat → SequenceNumber10 → SequenceNumber10 →
    LteRlcUmRx α → Option (LteRlcUmRx α)
  | 0, _, _, _ => none
  | rounds + 1, reassembleSn, highSeqNumber, s => do
      if ← less profile reassembleSn highSeqNumber then
        match find reassembleSn.value s.rxBuffer with
        | some packet =>
          let s ← reassembleAndDeliver packet s
          reassembleSnLoop profile rounds reassembleSn.incr highSeqNumber
            { s with rxBuffer := OrderedList.erase reassembleSn.value s.rxBuffer }
        | none => reassembleSnLoop profile rounds reassembleSn.incr highSeqNumber s
      else return s

/-- The window moves: what falls outside is delivered. -/
def moveWindow (profile : BuildProfile) (seqNumber : SequenceNumber10) (s : LteRlcUmRx α) :
    Option (LteRlcUmRx α) := do
  let s := { s with vrUh := seqNumber.add 1 }
  let s ← reassembleOutsideLoop profile s.rxBuffer s
  let s := rebaseVrUh s
  if ← isInsideReorderingWindow profile s.vrUh s.vrUr then return s
  else return { s with vrUr := s.vrUh.sub windowSize }

/-- What has been received from VR(UR) on is delivered. -/
def deliverFromVrUr (profile : BuildProfile) (s : LteRlcUmRx α) : Option (LteRlcUmRx α) :=
  if (find s.vrUr.value s.rxBuffer).isSome then do
    let newVrUr ← nextMissing 1024 (s.vrUr.value + 1) s.rxBuffer
    let oldVrUr := s.vrUr
    let s := { s with vrUr := s.vrUr.assign newVrUr }
    reassembleSnLoop profile 1025 oldVrUr s.vrUr s
  else some s

/-- Does t-Reordering run for numbers that VR(UR) or the window has passed? -/
def timerIsLate (profile : BuildProfile) (s : LteRlcUmRx α) : Option Bool := do
  if ← lessEq profile s.vrUx s.vrUr then return true
  else if ← isInsideReorderingWindow profile s.vrUh s.vrUx then return false
  else return s.vrUx.value ≠ s.vrUh.value

/-- t-Reordering is stopped, if it runs. -/
def stopTimer (profile : BuildProfile) (s : LteRlcUmRx α) : Option (LteRlcUmRx α) := do
  if s.reorderingTimer then
    let late ← timerIsLate profile s
    return if late then { s with reorderingTimer := false } else s
  else return s

/-- t-Reordering is started, if it does not run. -/
def startTimer (profile : BuildProfile) (s : LteRlcUmRx α) : Option (LteRlcUmRx α) := do
  if s.reorderingTimer then return s
  else if ← greater profile s.vrUh s.vrUr then
    return { s with reorderingTimer := true, vrUx := s.vrUh }
  else return s

/-- The t-Reordering timer is stopped and started. -/
def updateTimer (profile : BuildProfile) (s : LteRlcUmRx α) : Option (LteRlcUmRx α) := do
  let base := s.vrUh.sub windowSize
  let s ← stopTimer profile { s with
    vrUr := s.vrUr.setModulusBase base
    vrUx := s.vrUx.setModulusBase base
    vrUh := s.vrUh.setModulusBase base }
  startTimer profile s

/-- Is the PDU between VR(UR) and VR(UH), and received before? -/
def isDuplicate (profile : BuildProfile) (seqNumber : SequenceNumber10) (s : LteRlcUmRx α) :
    Option Bool := do
  if ← less profile s.vrUr seqNumber then
    if ← less profile seqNumber s.vrUh then return (find seqNumber.value s.rxBuffer).isSome
    else return false
  else return false

/-- Is the PDU before VR(UR), in the window? -/
def isBefore (profile : BuildProfile) (seqNumber : SequenceNumber10) (s : LteRlcUmRx α) :
    Option Bool := do
  if ← lessEq profile (s.vrUh.sub windowSize) seqNumber then less profile seqNumber s.vrUr
  else return false

/-- Is the PDU discarded? -/
def isDiscarded (profile : BuildProfile) (seqNumber : SequenceNumber10) (s : LteRlcUmRx α) :
    Option Bool := do
  if ← isDuplicate profile seqNumber s then return true else isBefore profile seqNumber s

/-- `DoReceivePdu`. -/
def doReceivePdu (profile : BuildProfile) (p : RlcPdu α) (s : LteRlcUmRx α) :
    Option (LteRlcUmRx α) := do
  let rlcHeader ← p.peekHeader
  let base := s.vrUh.sub windowSize
  let s := { s with vrUr := s.vrUr.setModulusBase base, vrUh := s.vrUh.setModulusBase base }
  let seqNumber := rlcHeader.sequenceNumber.setModulusBase base
  if ← isDiscarded profile seqNumber s then return s
  else
    let s := { s with rxBuffer := store seqNumber.value p s.rxBuffer }
    let s := rebaseVrUh s
    let s ← do
      if ← isInsideReorderingWindow profile s.vrUh seqNumber then pure s
      else moveWindow profile seqNumber s
    let s ← deliverFromVrUr profile s
    updateTimer profile s

/-- `ExpireReorderingTimer`. -/
def expireReorderingTimer (profile : BuildProfile) (s : LteRlcUmRx α) :
    Option (LteRlcUmRx α) := do
  let newVrUr ← nextMissingFrom 1025 s.vrUx s.rxBuffer
  let oldVrUr := s.vrUr
  let s := { s with vrUr := newVrUr }
  let s ← reassembleSnLoop profile 1025 oldVrUr s.vrUr s
  if ← greater profile s.vrUh s.vrUr then return { s with reorderingTimer := true, vrUx := s.vrUh }
  else return { s with reorderingTimer := false }

/-! ## Runs -/

/-- An event of the receiving side. -/
inductive RxEvent (α : Type) where
  | receivePdu (p : RlcPdu α)
  | expireReorderingTimer

/-- One event. A timer that does not run does not expire. -/
def rxStep (profile : BuildProfile) (s : LteRlcUmRx α) : RxEvent α → Option (LteRlcUmRx α)
  | .receivePdu p => doReceivePdu profile p s
  | .expireReorderingTimer => if s.reorderingTimer then expireReorderingTimer profile s else some s

/-! ## Comparisons of numbers with one base -/

section Comparisons

variable {profile : BuildProfile} {a b : SequenceNumber10}

theorem lessEq_eq (same : a.modulusBase = b.modulusBase) :
    lessEq profile a b = some (a.le b) := by
  rw [lessEq, greater_eq same]
  rfl

theorem less_eq (same : a.modulusBase = b.modulusBase) : less profile a b = some (a.lt b) := by
  rw [less, greater_eq same]
  rfl

end Comparisons

/-! ## The calls -/

section Calls

variable {profile : BuildProfile} {s t : LteRlcUmRx α}

theorem isInside_eq (vrUh seqNumber : SequenceNumber10) :
    isInsideReorderingWindow profile vrUh seqNumber =
      some (LteRlcUm.isInsideReorderingWindow vrUh seqNumber) := by
  rw [isInsideReorderingWindow, lessEq_eq (by rfl), LteRlcUm.isInsideReorderingWindow,
    less_eq (by rfl)]
  cases ((vrUh.setModulusBase (vrUh.sub windowSize)).sub windowSize).le
    (seqNumber.setModulusBase (vrUh.sub windowSize)) <;> rfl

theorem reassembleOutsideLoop_eq (entries : List (Nat × RlcPdu α)) : ∀ s : LteRlcUmRx α,
    reassembleOutsideLoop profile entries s = LteRlcUm.reassembleOutsideLoop entries s := by
  induction entries with
  | nil => exact fun _ => rfl
  | cons entry rest ih =>
    intro s
    simp [reassembleOutsideLoop, LteRlcUm.reassembleOutsideLoop, isInside_eq, ih]

theorem reassembleSnLoop_eq {high : SequenceNumber10} (rounds : Nat) : ∀ (low : SequenceNumber10)
    (s : LteRlcUmRx α), low.modulusBase = high.modulusBase →
    reassembleSnLoop profile rounds low high s = LteRlcUm.reassembleSnLoop rounds low high s := by
  induction rounds with
  | zero => exact fun _ _ _ => rfl
  | succ rounds ih =>
    intro low s same
    have next := fun u => ih low.incr u same
    rw [reassembleSnLoop, LteRlcUm.reassembleSnLoop, less_eq same, funext next]
    rfl

theorem moveWindow_eq (seqNumber : SequenceNumber10) :
    moveWindow profile seqNumber s = LteRlcUm.moveWindow seqNumber s := by
  simp [moveWindow, LteRlcUm.moveWindow, reassembleOutsideWindow, reassembleOutsideLoop_eq,
    isInside_eq]

theorem deliverFromVrUr_eq : deliverFromVrUr profile s = LteRlcUm.deliverFromVrUr s := by
  simp only [deliverFromVrUr, LteRlcUm.deliverFromVrUr, reassembleSnInterval]
  split
  · refine congrArg (Option.bind _) (funext fun newVrUr => ?_)
    exact reassembleSnLoop_eq 1025 s.vrUr _ rfl
  · rfl

theorem timerIsLate_eq (same : s.vrUx.modulusBase = s.vrUr.modulusBase) :
    timerIsLate profile s = some (s.vrUx.le s.vrUr ||
      (!LteRlcUm.isInsideReorderingWindow s.vrUh s.vrUx && s.vrUx.value ≠ s.vrUh.value)) := by
  rw [timerIsLate, lessEq_eq same, isInside_eq]
  cases s.vrUx.le s.vrUr with
  | true => rfl
  | false =>
    cases LteRlcUm.isInsideReorderingWindow s.vrUh s.vrUx <;>
      simp

theorem startTimer_eq (same : s.vrUh.modulusBase = s.vrUr.modulusBase) :
    startTimer profile s = some (if !s.reorderingTimer && s.vrUh.gt s.vrUr then
      { s with reorderingTimer := true, vrUx := s.vrUh } else s) := by
  rw [startTimer, greater_eq same]
  cases running : s.reorderingTimer with
  | true => rfl
  | false => cases s.vrUh.gt s.vrUr <;> simp

theorem updateTimer_eq : updateTimer profile s = some (LteRlcUm.updateTimer s) := by
  simp only [updateTimer, LteRlcUm.updateTimer, stopTimer]
  rw [timerIsLate_eq (by rfl)]
  cases running : s.reorderingTimer with
  | false =>
    simp only [Bool.false_eq_true, if_false, pure_some, some_bind, Bool.false_and]
    exact startTimer_eq rfl
  | true =>
    simp only [if_true, pure_some, some_bind, Bool.true_and]
    split
    · exact startTimer_eq rfl
    · exact startTimer_eq rfl

theorem isDuplicate_eq {seqNumber : SequenceNumber10}
    (low : s.vrUr.modulusBase = seqNumber.modulusBase)
    (high : seqNumber.modulusBase = s.vrUh.modulusBase) :
    isDuplicate profile seqNumber s = some (s.vrUr.lt seqNumber && seqNumber.lt s.vrUh &&
      (find seqNumber.value s.rxBuffer).isSome) := by
  rw [isDuplicate, less_eq low, less_eq high]
  cases s.vrUr.lt seqNumber <;> cases seqNumber.lt s.vrUh <;> rfl

theorem isBefore_eq {seqNumber : SequenceNumber10}
    (low : s.vrUr.modulusBase = seqNumber.modulusBase)
    (high : seqNumber.modulusBase = s.vrUh.modulusBase) :
    isBefore profile seqNumber s =
      some ((s.vrUh.sub windowSize).le seqNumber && seqNumber.lt s.vrUr) := by
  have least : (s.vrUh.sub windowSize).modulusBase = seqNumber.modulusBase := high.symm
  rw [isBefore, lessEq_eq least, less_eq low.symm]
  cases (s.vrUh.sub windowSize).le seqNumber <;> rfl

theorem isDiscarded_eq {seqNumber : SequenceNumber10}
    (low : s.vrUr.modulusBase = seqNumber.modulusBase)
    (high : seqNumber.modulusBase = s.vrUh.modulusBase) :
    isDiscarded profile seqNumber s = some ((s.vrUr.lt seqNumber && seqNumber.lt s.vrUh &&
        (find seqNumber.value s.rxBuffer).isSome) ||
      ((s.vrUh.sub windowSize).le seqNumber && seqNumber.lt s.vrUr)) := by
  rw [isDiscarded, isDuplicate_eq low high, isBefore_eq low high]
  cases s.vrUr.lt seqNumber && seqNumber.lt s.vrUh &&
    (find seqNumber.value s.rxBuffer).isSome <;> rfl

theorem doReceivePdu_eq (p : RlcPdu α) : doReceivePdu profile p s = LteRlcUm.doReceivePdu p s := by
  refine congrArg (Option.bind _) (funext fun rlcHeader => ?_)
  simp only
  rw [isDiscarded_eq (by rfl) (by rfl)]
  simp [isInside_eq, moveWindow_eq, deliverFromVrUr_eq, updateTimer_eq]

end Calls

/-! ## The bases -/

section Bases

variable {profile : BuildProfile} {s t : LteRlcUmRx α} {packet : RlcPdu α}

/-- While the timer runs, the numbers have the base of the window. -/
def Based (s : LteRlcUmRx α) : Prop :=
  s.reorderingTimer = true → s.vrUr.modulusBase = (s.vrUh.sub windowSize).value ∧
    s.vrUx.modulusBase = (s.vrUh.sub windowSize).value ∧
    s.vrUh.modulusBase = (s.vrUh.sub windowSize).value

theorem based_updateTimer (s : LteRlcUmRx α) : Based (LteRlcUm.updateTimer s) := by
  intro _
  simp only [LteRlcUm.updateTimer]
  split <;> split <;> exact ⟨rfl, rfl, rfl⟩

theorem Based.receive (based : Based s) (returns : LteRlcUm.doReceivePdu packet s = some t) :
    Based t := by
  obtain ⟨rlcHeader, -, returns⟩ := bind_returns.mp returns
  dsimp only at returns
  split at returns
  · cases returns
    exact fun running => ⟨rfl, (based running).2.1, rfl⟩
  · split at returns
    all_goals
      obtain ⟨m, -, returns⟩ := bind_returns.mp returns
      obtain ⟨u, -, same⟩ := bind_returns.mp returns
      cases same
      exact based_updateTimer u

theorem nextMissingFrom_modulusBase {rxBuffer : List (Nat × RlcPdu α)} {sn : SequenceNumber10}
    (rounds : Nat) : ∀ newVrUr, nextMissingFrom rounds newVrUr rxBuffer = some sn →
    sn.modulusBase = newVrUr.modulusBase := by
  induction rounds with
  | zero =>
    intro newVrUr returns
    cases returns
  | succ rounds ih =>
    intro newVrUr returns
    rw [nextMissingFrom] at returns
    split at returns
    · exact ih newVrUr.incr returns
    · cases returns
      rfl

theorem Based.expire (based : Based s) (running : s.reorderingTimer = true)
    (returns : LteRlcUm.expireReorderingTimer s = some t) : Based t := by
  obtain ⟨vrUr, vrUx, vrUh⟩ := based running
  obtain ⟨newVrUr, skips, returns⟩ := bind_returns.mp returns
  have base := nextMissingFrom_modulusBase 1025 _ skips
  obtain ⟨u, delivers, returns⟩ := bind_returns.mp returns
  have same := reassembleSnLoop_variables 1025 _ _ delivers
  have vrUrU : u.vrUr = newVrUr := same.vrUr
  have vrUhU : u.vrUh = s.vrUh := same.vrUh
  split at returns
  · cases returns
    intro _
    exact ⟨by rw [vrUrU, vrUhU, base, vrUx], by rw [vrUhU, vrUh], by rw [vrUhU, vrUh]⟩
  · cases returns
    exact fun running => nomatch running

theorem Based.expire_eq (based : Based s) (running : s.reorderingTimer = true) :
    expireReorderingTimer profile s = LteRlcUm.expireReorderingTimer s := by
  obtain ⟨vrUr, vrUx, vrUh⟩ := based running
  rw [expireReorderingTimer, LteRlcUm.expireReorderingTimer]
  cases skips : nextMissingFrom 1025 s.vrUx s.rxBuffer with
  | none => rfl
  | some newVrUr =>
    have base := nextMissingFrom_modulusBase 1025 _ skips
    simp only [Option.bind_eq_bind, Option.bind_some, reassembleSnInterval]
    rw [reassembleSnLoop_eq 1025 s.vrUr _ (by rw [base, vrUr, vrUx])]
    cases delivers : LteRlcUm.reassembleSnLoop 1025 s.vrUr newVrUr { s with vrUr := newVrUr } with
    | none => rfl
    | some u =>
      have same := reassembleSnLoop_variables 1025 _ _ delivers
      have vrUrU : u.vrUr = newVrUr := same.vrUr
      have vrUhU : u.vrUh = s.vrUh := same.vrUh
      rw [Option.bind_some, Option.bind_some, greater_eq
        (by rw [vrUrU, vrUhU, base, vrUx, vrUh])]
      rfl

end Bases

/-! ## The assertion never fails -/

section Runs

variable {profile : BuildProfile} {s t : LteRlcUmRx α}

theorem Based.step_eq (based : Based s) (e : RxEvent α) :
    rxStep profile s e = rxStep .optimized s e := by
  cases e with
  | receivePdu p => exact (doReceivePdu_eq p).trans (doReceivePdu_eq p).symm
  | expireReorderingTimer =>
    simp only [rxStep]
    split
    case isTrue running => exact (based.expire_eq running).trans (based.expire_eq running).symm
    case isFalse => rfl

theorem Based.step {e : RxEvent α} (based : Based s) (returns : rxStep profile s e = some t) :
    Based t := by
  cases e with
  | receivePdu p => exact based.receive ((doReceivePdu_eq p).symm.trans returns)
  | expireReorderingTimer =>
    rw [rxStep] at returns
    split at returns
    case isTrue running => exact based.expire running ((based.expire_eq running).symm.trans returns)
    case isFalse =>
      cases returns
      exact based

theorem exec_eq (profile : BuildProfile) (events : List (RxEvent α)) :
    Run.exec (rxStep profile) {} events = Run.exec (rxStep .optimized) {} events := by
  have start : Based ({} : LteRlcUmRx α) := fun running => nomatch running
  generalize ({} : LteRlcUmRx α) = s at start
  induction events generalizing s with
  | nil => rfl
  | cons e events ih =>
    rw [Run.exec_cons, Run.exec_cons, start.step_eq e]
    cases returns : rxStep .optimized s e with
    | none => rfl
    | some t => exact ih t (start.step returns)

end Runs

end Ns3.LteRlcUm.Asserting
