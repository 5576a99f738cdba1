import Ns3.Library.OrderedList
import Ns3.Wifi.BlockAckWindow

/-!
# The recipient of a Block Ack agreement

`RecipientBlockAckAgreement` keeps a scoreboard, from which Block Acks are filled, and
a buffer that puts the received MPDUs in order. The buffer is a map whose comparison
depends on `m_winStartB`, the start of its window.

What is handed to `m_rxMiddle` is kept in `forwarded`, the oldest first.
-/

namespace Ns3

/-- A received MPDU, with its sequence number as the key. -/
abbrev BufferedMpdu (μ : Type) := Nat × μ

/-- `RecipientBlockAckAgreement`, for MPDUs of type `μ`. -/
structure RecipientBlockAckAgreement (μ : Type) where
  scoreboard : BlockAckWindow
  winStartB : Nat
  winSizeB : Nat
  bufferedMpdus : List (BufferedMpdu μ) := []
  forwarded : List (BufferedMpdu μ) := []
  deriving DecidableEq

namespace RecipientBlockAckAgreement

variable {μ : Type} (profile : BuildProfile)

/-- The constructor. -/
def start (bufferSize startingSeq : Nat) : RecipientBlockAckAgreement μ where
  scoreboard := BlockAckWindow.init startingSeq bufferSize
  winStartB := startingSeq
  winSizeB := bufferSize

/-- `Compare`: the key of an MPDU is compared by its offset from the window start. -/
def compare (winStartB a b : Nat) : Bool := seqnoOffset a winStartB < seqnoOffset b winStartB

/-- `m_bufferedMpdus.insert`. -/
def buffer (seq : Nat) (mpdu : μ) (s : RecipientBlockAckAgreement μ) :
    RecipientBlockAckAgreement μ :=
  { s with bufferedMpdus :=
      OrderedList.insertNew (compare s.winStartB) seq mpdu s.bufferedMpdus }

/-- The assertion that no buffered MPDU is old, made about the last one. -/
def assertNotOld (s : RecipientBlockAckAgreement μ) : Option Unit :=
  if profile = .debug then
    match s.bufferedMpdus.getLast? with
    | none => some ()
    | some last => do
        let distance ← getDistance profile last.1 s.winStartB
        nsAssert profile (distance < seqnoSpaceHalfSize)
  else some ()

/-- The loop of `PassBufferedMpdusUntilFirstLost`: what is passed, what stays, and the
window start. -/
def takeConsecutive (winStartB : Nat) :
    List (BufferedMpdu μ) → List (BufferedMpdu μ) × List (BufferedMpdu μ) × Nat
  | [] => ([], [], winStartB)
  | mpdu :: rest =>
    if mpdu.1 = winStartB then
      let r := takeConsecutive ((winStartB + 1) % seqnoSpaceSize) rest
      (mpdu :: r.1, r.2)
    else ([], mpdu :: rest, winStartB)

/-- `PassBufferedMpdusUntilFirstLost`. -/
def passBufferedMpdusUntilFirstLost (s : RecipientBlockAckAgreement μ) :
    Option (RecipientBlockAckAgreement μ) := do
  s.assertNotOld profile
  let (passed, stay, winStartB) := takeConsecutive s.winStartB s.bufferedMpdus
  return { s with winStartB, bufferedMpdus := stay, forwarded := s.forwarded ++ passed }

/-- The loop of `PassBufferedMpdusWithSeqNumberLessThan`. -/
def takeLessThan (winStartB newWinStartB : Nat) :
    List (BufferedMpdu μ) → Option (List (BufferedMpdu μ) × List (BufferedMpdu μ))
  | [] => some ([], [])
  | mpdu :: rest => do
      let distance ← getDistance profile mpdu.1 winStartB
      let limit ← getDistance profile newWinStartB winStartB
      if distance < limit then
        (takeLessThan winStartB newWinStartB rest).map fun r => (mpdu :: r.1, r.2)
      else some ([], mpdu :: rest)

/-- `PassBufferedMpdusWithSeqNumberLessThan`. -/
def passBufferedMpdusWithSeqNumberLessThan (newWinStartB : Nat) (s : RecipientBlockAckAgreement μ) :
    Option (RecipientBlockAckAgreement μ) := do
  s.assertNotOld profile
  let (passed, stay) ← takeLessThan profile s.winStartB newWinStartB s.bufferedMpdus
  return { s with
    winStartB := newWinStartB, bufferedMpdus := stay, forwarded := s.forwarded ++ passed }

/-- The scoreboard on an MPDU. -/
def scoreMpdu (seq : Nat) (s : RecipientBlockAckAgreement μ) :
    Option (RecipientBlockAckAgreement μ) := do
  let distance := (← getDistance profile seq s.scoreboard.winStart) % 2 ^ 16
  if distance < s.scoreboard.winSize then
    (s.scoreboard.mark profile distance).map fun scoreboard => { s with scoreboard }
  else if distance < seqnoSpaceHalfSize then
    let scoreboard := s.scoreboard.advance (distance - s.scoreboard.winSize + 1)
    (scoreboard.mark profile (scoreboard.winSize - 1)).map fun scoreboard => { s with scoreboard }
  else some s

/-- The new window start for an MPDU beyond the window, as a `uint16_t`. -/
def newWinStartB (seq : Nat) (s : RecipientBlockAckAgreement μ) : Nat :=
  (((seq : Int) - s.winSizeB + 1) % 2 ^ 16).toNat

/-- The reordering buffer on an MPDU. -/
def reorderMpdu (seq : Nat) (mpdu : μ) (s : RecipientBlockAckAgreement μ) :
    Option (RecipientBlockAckAgreement μ) := do
  let distance := (← getDistance profile seq s.winStartB) % 2 ^ 16
  if distance < s.winSizeB then
    (s.buffer seq mpdu).passBufferedMpdusUntilFirstLost profile
  else if distance < seqnoSpaceHalfSize then
    let s ← (s.buffer seq mpdu).passBufferedMpdusWithSeqNumberLessThan profile (s.newWinStartB seq)
    s.passBufferedMpdusUntilFirstLost profile
  else some s

/-- `NotifyReceivedMpdu`. -/
def notifyReceivedMpdu (seq : Nat) (mpdu : μ) (s : RecipientBlockAckAgreement μ) :
    Option (RecipientBlockAckAgreement μ) := do
  let s ← s.scoreMpdu profile seq
  s.reorderMpdu profile seq mpdu

/-- The scoreboard on a Block Ack Request. -/
def scoreBar (startingSequenceNumber : Nat) (s : RecipientBlockAckAgreement μ) :
    Option (RecipientBlockAckAgreement μ) := do
  let distance := (← getDistance profile startingSequenceNumber s.scoreboard.winStart) % 2 ^ 16
  if 0 < distance ∧ distance < s.scoreboard.winSize then
    let scoreboard := s.scoreboard.advance distance
    nsAssert profile (scoreboard.winStart == startingSequenceNumber)
    return { s with scoreboard }
  else if 0 < distance ∧ distance < seqnoSpaceHalfSize then
    return { s with scoreboard := s.scoreboard.reset startingSequenceNumber }
  else some s

/-- The reordering buffer on a Block Ack Request. -/
def reorderBar (startingSequenceNumber : Nat) (s : RecipientBlockAckAgreement μ) :
    Option (RecipientBlockAckAgreement μ) := do
  let distance := (← getDistance profile startingSequenceNumber s.winStartB) % 2 ^ 16
  if 0 < distance ∧ distance < seqnoSpaceHalfSize then
    let s ← s.passBufferedMpdusWithSeqNumberLessThan profile startingSequenceNumber
    s.passBufferedMpdusUntilFirstLost profile
  else some s

/-- `NotifyReceivedBar`. -/
def notifyReceivedBar (startingSequenceNumber : Nat) (s : RecipientBlockAckAgreement μ) :
    Option (RecipientBlockAckAgreement μ) := do
  let s ← s.scoreBar profile startingSequenceNumber
  s.reorderBar profile startingSequenceNumber

/-- The two calls of a run. -/
inductive Call (μ : Type) where
  | mpdu (seq : Nat) (mpdu : μ)
  | bar (startingSequenceNumber : Nat)
  deriving DecidableEq

/-- The sequence number of a call. -/
def Call.seq : Call μ → Nat
  | .mpdu seq _ => seq
  | .bar startingSequenceNumber => startingSequenceNumber

/-- One call. -/
def step (s : RecipientBlockAckAgreement μ) : Call μ → Option (RecipientBlockAckAgreement μ)
  | .mpdu seq mpdu => s.notifyReceivedMpdu profile seq mpdu
  | .bar startingSequenceNumber => s.notifyReceivedBar profile startingSequenceNumber

end RecipientBlockAckAgreement

end Ns3

/-!
## The scoreboard

Both calls update the scoreboard first. Seen by sequence numbers, a received MPDU moves
the window so far that it is inside and marks it there, a Block Ack Request moves the
window only, and every number that stays in the window keeps its mark.
-/

namespace Ns3

namespace BlockAckWindow

/-- The sequence number lies in the window. -/
def covers (w : BlockAckWindow) (q : Nat) : Bool := distance q w.winStart < w.window.length

/-- The bit of a sequence number. -/
def marked (w : BlockAckWindow) (q : Nat) : Bool := w.bit (distance q w.winStart)

/-- The window moves from `w` to `v`, and the numbers in `heard` are marked on the way. -/
structure Scores (w v : BlockAckWindow) (heard : Nat → Bool) : Prop where
  valid : v.Valid
  size : v.window.length = w.window.length
  marks : ∀ q < 4096, v.covers q = true →
    v.marked q = (heard q || w.covers q && w.marked q)

variable {w v : BlockAckWindow} {d count : Nat}

theorem Scores.refl (valid : w.Valid) {heard : Nat → Bool}
    (nothing : ∀ q < 4096, w.covers q = true → heard q = false) : Scores w w heard where
  valid := valid
  size := rfl
  marks q hq inside := by simp [nothing q hq inside, inside]

theorem distance_before {q s n : Nat} (hq : q < 4096) (hs : s < 4096)
    (near : distance q ((s + n) % 4096) + n < 4096) :
    distance q s = distance q ((s + n) % 4096) + n := by
  unfold distance at near ⊢
  omega

theorem advance_scores (count : Nat) (valid : w.Valid) (size : w.window.length ≤ 256)
    (short : count ≤ 2048) :
    Scores w (w.advance count) fun _ => false := by
  obtain ⟨valid', length, start, bits⟩ := advance_spec count valid
  refine ⟨valid', length, fun q hq inside => ?_⟩
  simp only [covers, decide_eq_true_eq, length] at inside
  have before : distance q w.winStart = distance q (w.advance count).winStart + count := by
    rw [start] at inside ⊢
    exact distance_before hq valid.start (by omega)
  rw [marked, bits _ inside, covers, marked, before, Bool.false_or]

theorem reset_scores {start : Nat} (valid : w.Valid) (target : start < 4096)
    (far : w.window.length ≤ distance start w.winStart)
    (short : distance start w.winStart + w.window.length ≤ 4096) :
    Scores w (w.reset start) fun _ => false := by
  refine ⟨init_valid target valid.pos, by simp [reset, init], fun q hq inside => ?_⟩
  have outside : w.covers q = false := by
    simp only [covers, reset, init, List.length_replicate, decide_eq_true_eq] at inside
    simp only [covers, decide_eq_false_iff_not]
    have base := valid.start
    unfold distance at inside far short ⊢
    omega
  simp [marked, reset, outside]

theorem mark_scores (profile : BuildProfile) {q : Nat} (valid : w.Valid) (hq : q < 4096)
    (inside : distance q w.winStart < w.window.length) :
    ∃ v, w.mark profile (distance q w.winStart) = some v ∧ v.winStart = w.winStart ∧
      Scores w v (· == q) := by
  obtain ⟨v, run, start, length, head, bits⟩ := mark_eq profile inside
  refine ⟨v, run, start, ⟨by rw [start]; exact valid.start, by rw [head, length]; exact valid.head⟩,
    length,
    fun p hp covered => ?_⟩
  simp only [covers, start, length, decide_eq_true_eq] at covered
  have same : (distance p w.winStart == distance q w.winStart) = (p == q) := by
    rw [Bool.eq_iff_iff, beq_iff_eq, beq_iff_eq]
    exact distance_inj hp hq valid.start
  have here : w.covers p = true := by simp [covers, covered]
  rw [marked, start, bits _ covered, same, here, marked, Bool.true_and]

theorem Scores.trans {u : BlockAckWindow} {heard : Nat → Bool}
    (first : Scores w v fun _ => false) (second : Scores v u heard)
    (stays : ∀ q < 4096, u.covers q = true → v.covers q = true) : Scores w u heard where
  valid := second.valid
  size := second.size.trans first.size
  marks q hq inside := by
    have there := stays q hq inside
    rw [second.marks q hq inside, there, first.marks q hq there, Bool.false_or, Bool.true_and]

end BlockAckWindow

namespace RecipientBlockAckAgreement

variable {μ : Type} {s : RecipientBlockAckAgreement μ}

/-- `NotifyReceivedMpdu` on the scoreboard. -/
theorem scoreMpdu_spec (profile : BuildProfile) {seq : Nat} (valid : s.scoreboard.Valid)
    (size : s.scoreboard.window.length ≤ 256) (hseq : seq < 4096) :
    ∃ w, s.scoreMpdu profile seq = some { s with scoreboard := w } ∧
      BlockAckWindow.Scores s.scoreboard w (· == seq) := by
  have start := valid.start
  have pos := valid.pos
  have exact_ : distance seq s.scoreboard.winStart % 2 ^ 16 = distance seq s.scoreboard.winStart :=
    Nat.mod_eq_of_lt ((distance_lt _ _).trans (by decide))
  simp only [scoreMpdu, getDistance_eq profile hseq start, some_bind, exact_,
    BlockAckWindow.winSize]
  split
  case isTrue inside =>
    obtain ⟨w, run, -, scores⟩ := BlockAckWindow.mark_scores profile valid hseq inside
    exact ⟨w, by rw [run]; rfl, scores⟩
  case isFalse outside =>
    split
    case isTrue near =>
      unfold seqnoSpaceHalfSize at near
      obtain ⟨valid', length, moved, -⟩ := BlockAckWindow.advance_spec
        (distance seq s.scoreboard.winStart - s.scoreboard.window.length + 1) valid
      have advanced := BlockAckWindow.advance_scores
        (distance seq s.scoreboard.winStart - s.scoreboard.window.length + 1) valid size (by omega)
      generalize s.scoreboard.advance _ = v at valid' length moved advanced
      have last : v.window.length - 1 = distance seq v.winStart := by
        rw [moved, distance_sub start (by omega), length]
        omega
      obtain ⟨w, run, same, scores⟩ := BlockAckWindow.mark_scores profile valid' hseq
        (by omega)
      refine ⟨w, by rw [last, run]; rfl, advanced.trans scores fun q _ inside => ?_⟩
      rw [BlockAckWindow.covers, same, scores.size] at inside
      exact inside
    case isFalse far =>
      refine ⟨s.scoreboard, rfl, .refl valid fun q _ inside => ?_⟩
      simp only [BlockAckWindow.covers, decide_eq_true_eq] at inside
      rw [beq_eq_false_iff_ne]
      rintro rfl
      omega

/-- `NotifyReceivedBar` on the scoreboard. -/
theorem scoreBar_spec (profile : BuildProfile) {ssn : Nat} (valid : s.scoreboard.Valid)
    (size : s.scoreboard.window.length ≤ 256) (hssn : ssn < 4096) :
    ∃ w, s.scoreBar profile ssn = some { s with scoreboard := w } ∧
      BlockAckWindow.Scores s.scoreboard w fun _ => false := by
  have start := valid.start
  have exact_ : distance ssn s.scoreboard.winStart % 2 ^ 16 = distance ssn s.scoreboard.winStart :=
    Nat.mod_eq_of_lt ((distance_lt _ _).trans (by decide))
  simp only [scoreBar, getDistance_eq profile hssn start, some_bind, exact_, BlockAckWindow.winSize]
  split
  case isTrue inside =>
    obtain ⟨-, -, moved, -⟩ := BlockAckWindow.advance_spec
      (distance ssn s.scoreboard.winStart) valid
    rw [add_distance hssn start] at moved
    refine ⟨s.scoreboard.advance (distance ssn s.scoreboard.winStart), ?_,
      BlockAckWindow.advance_scores _ valid size (by omega)⟩
    simp [moved]
  case isFalse =>
    split
    case isTrue near =>
      unfold seqnoSpaceHalfSize at near
      exact ⟨s.scoreboard.reset ssn, rfl,
        BlockAckWindow.reset_scores valid hssn (by omega) (by omega)⟩
    case isFalse => exact ⟨s.scoreboard, rfl, .refl valid fun _ _ _ => rfl⟩

end RecipientBlockAckAgreement

end Ns3
