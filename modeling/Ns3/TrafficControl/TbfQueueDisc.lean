import Ns3.Core.Assert
import Ns3.Library.Run
import Ns3.Library.TokenBucket
import Mathlib.Data.NNRat.Defs
import Mathlib.Data.Rat.Floor
import Mathlib.Tactic.Positivity

/-!
# The token bucket filter

`TbfQueueDisc::DoDequeue` releases the packet at the head of its child queue disc when both buckets
hold tokens for it. Seconds are exact rational numbers, and so is what a bucket earns until it is
rounded.

The child queue disc is any that answers the calls. Whether the event that wakes the queue has
expired is known to the simulator: it is part of each call.
-/

namespace Ns3

/-- The child queue disc. What it peeks and dequeues may depend on the time. -/
structure ChildQueueDisc (σ ι : Type) where
  enqueue : ℚ → ι → σ → σ
  peek : ℚ → σ → Option ι × σ
  dequeue : ℚ → σ → Option ι × σ
  getSize : ι → Nat
  getSize_lt : ∀ item, getSize item < 2 ^ 32

/-- The parameters of the queue disc: sizes in bytes, rates in bits per second. -/
structure TbfConfig where
  burst : Nat
  mtu : Nat
  rate : Nat
  peakRate : Nat
  burst_lt : burst < 2 ^ 32
  mtu_lt : mtu < 2 ^ 32

/-- The variables of the queue disc, and its child. -/
structure TbfQueueDisc (σ : Type) where
  child : σ
  btokens : Nat
  ptokens : Nat
  timeCheckPoint : ℚ
  deriving DecidableEq

namespace TbfQueueDisc

variable {σ ι : Type} (profile : BuildProfile) (c : TbfConfig) (qd : ChildQueueDisc σ ι)

/-- `InitializeParams`. -/
def initializeParams (child : σ) : TbfQueueDisc σ where
  child
  btokens := c.burst
  ptokens := c.mtu
  timeCheckPoint := 0

/-- `round`: halves go away from zero. -/
def round (x : ℚ) : Int := if 0 ≤ x then ⌊x + 1 / 2⌋ else ⌈x - 1 / 2⌉

/-- The tokens of one bucket that can be consumed. -/
def tokensAfter (tokens rate size : Nat) (delta : ℚ) : Int :=
  let toks := (tokens : Int) + round (delta * (rate / 8 : Nat))
  if toks > size then size else toks

/-- `DataRate::CalculateBytesTxTime`, with the conversion of its argument to `uint32_t`. -/
def calculateBytesTxTime (bps : Nat) (bytes : Int) : ℚ :=
  (((bytes % 2 ^ 32).toNat * 8 % 2 ^ 32 : Nat) : ℚ) / bps

/-- The time until the tokens that lack have been earned. -/
def requiredDelayTime (btoks ptoks : Int) : Option ℚ := do
  if c.peakRate = 0 then
    nsAssert profile (btoks < 0)
    return calculateBytesTxTime c.rate (-btoks)
  else if btoks < 0 ∧ ptoks ≥ 0 then return calculateBytesTxTime c.rate (-btoks)
  else if btoks ≥ 0 ∧ ptoks < 0 then return calculateBytesTxTime c.peakRate (-ptoks)
  else return max (calculateBytesTxTime c.rate (-btoks)) (calculateBytesTxTime c.peakRate (-ptoks))

/-- `DoDequeue`: the packet, and the delay after which the queue is woken. -/
def doDequeue (now : ℚ) (idExpired : Bool) (s : TbfQueueDisc σ) :
    Option (Option ι × Option ℚ × TbfQueueDisc σ) := do
  let (itemPeek, child) := qd.peek now s.child
  let s := { s with child }
  match itemPeek with
  | none => return (none, none, s)
  | some itemPeek =>
    let pktSize := qd.getSize itemPeek
    let delta := now - s.timeCheckPoint
    let ptoks :=
      if c.peakRate > 0 then tokensAfter s.ptokens c.peakRate c.mtu delta - pktSize else 0
    let btoks := tokensAfter s.btokens c.rate c.burst delta - pktSize
    if (BitVec.ofInt 64 btoks ||| BitVec.ofInt 64 ptoks).toInt ≥ 0 then
      match qd.dequeue now s.child with
      | (none, child) => return (none, none, { s with child })
      | (some item, child) =>
        return (some item, none,
          { child
            btokens := (btoks % 2 ^ 32).toNat
            ptokens := (ptoks % 2 ^ 32).toNat
            timeCheckPoint := now })
    else if idExpired then
      nsAssert profile (c.rate > 0)
      let requiredDelayTime ← requiredDelayTime profile c btoks ptoks
      nsAssert profile (requiredDelayTime ≥ 0)
      return (none, some requiredDelayTime, s)
    else return (none, none, s)

/-! ## Runs -/

/-- The queue disc in a simulation, with the bytes it has released and when. -/
structure Simulation (σ : Type) where
  now : ℚ
  disc : TbfQueueDisc σ
  released : List (ℚ × ℚ)
  deriving DecidableEq

/-- Time passes, a packet arrives, or a packet is to be dequeued. -/
inductive Call (ι : Type) where
  | wait (time : NNRat)
  | enqueue (item : ι)
  | dequeue (idExpired : Bool)

/-- One call. -/
def step (s : Simulation σ) : Call ι → Option (Simulation σ)
  | .wait time => some { s with now := s.now + time }
  | .enqueue item =>
    some { s with disc := { s.disc with child := qd.enqueue s.now item s.disc.child } }
  | .dequeue idExpired => do
      let (item, _, disc) ← doDequeue profile c qd s.now idExpired s.disc
      let bytes := item.toList.map fun item => (s.now, (qd.getSize item : ℚ))
      return { s with disc, released := s.released ++ bytes }

/-- The start of a simulation. -/
def init (child : σ) : Simulation σ where
  now := 0
  disc := initializeParams c child
  released := []

end TbfQueueDisc

end Ns3

/-!
## Conformance of the token bucket filter

Each bucket in use is a token bucket, unless a release takes tokens that rounding has added, or the
child queue disc dequeues a longer packet than the one it showed.
-/

namespace Ns3.TbfQueueDisc

open TokenBucket

variable {σ ι : Type} {profile : BuildProfile} {c : TbfConfig} {qd : ChildQueueDisc σ ι}

/-! ## One bucket -/

theorem round_nonneg {x : ℚ} (nonneg : 0 ≤ x) : 0 ≤ round x := by
  rw [round, if_pos nonneg]
  exact Int.floor_nonneg.mpr (by linarith)

theorem tokensAfter_le (tokens rate size : Nat) (delta : ℚ) :
    tokensAfter tokens rate size delta ≤ size := by
  unfold tokensAfter
  dsimp only
  split
  · exact le_rfl
  · next small => exact not_lt.mp small

theorem tokensAfter_nonneg (tokens rate size : Nat) {delta : ℚ} (nonneg : 0 ≤ delta) :
    0 ≤ tokensAfter tokens rate size delta := by
  have earned : 0 ≤ round (delta * (rate / 8 : Nat)) := round_nonneg (by positivity)
  unfold tokensAfter
  dsimp only
  split <;> omega

/-- Rounding adds tokens that the bucket has not earned, and the bucket has room for them. -/
def RoundsUp (tokens rate size : Nat) (delta : ℚ) : Prop :=
  delta * rate / 8 < round (delta * (rate / 8 : Nat)) ∧ tokens + delta * rate / 8 < size
  deriving Decidable

theorem tokensAfter_le_earned {tokens rate size : Nat} {delta : ℚ}
    (earned : ¬ RoundsUp tokens rate size delta) :
    (tokensAfter tokens rate size delta : ℚ) ≤ tokens + delta * (rate / 8) := by
  have high : (tokensAfter tokens rate size delta : ℚ) ≤ size :=
    mod_cast tokensAfter_le tokens rate size delta
  have rounded : tokensAfter tokens rate size delta ≤
      tokens + round (delta * (rate / 8 : Nat)) := by
    unfold tokensAfter
    dsimp only
    split
    · next large => exact large.le
    · exact le_rfl
  have rounded : (tokensAfter tokens rate size delta : ℚ) ≤
      tokens + round (delta * (rate / 8 : Nat)) := mod_cast rounded
  obtain down | full := not_and_or.mp earned
  · linarith
  · linarith

/-! ## The bitwise test -/

theorem or_nonneg_iff {a b : Int} (lowA : -2 ^ 32 ≤ a) (highA : a ≤ 2 ^ 32) (lowB : -2 ^ 32 ≤ b)
    (highB : b ≤ 2 ^ 32) :
    (BitVec.ofInt 64 a ||| BitVec.ofInt 64 b).toInt ≥ 0 ↔ 0 ≤ a ∧ 0 ≤ b := by
  have sign (x : BitVec 64) : 0 ≤ x.toInt ↔ x.msb = false := by
    rw [BitVec.msb_eq_toInt, decide_eq_false_iff_not, not_lt]
  have valueA : (BitVec.ofInt 64 a).toInt = a :=
    BitVec.toInt_ofInt_eq_self (by decide) (by omega) (by omega)
  have valueB : (BitVec.ofInt 64 b).toInt = b :=
    BitVec.toInt_ofInt_eq_self (by decide) (by omega) (by omega)
  rw [ge_iff_le, sign, BitVec.msb_or, Bool.or_eq_false_iff, ← sign, ← sign, valueA, valueB]

theorem toNat_of_bounds {a : Int} (low : 0 ≤ a) (high : a < 2 ^ 32) :
    (((a % 2 ^ 32).toNat : Nat) : Int) = a := by
  omega

/-! ## `DoDequeue` -/

theorem calculateBytesTxTime_nonneg (bps : Nat) (bytes : Int) :
    0 ≤ calculateBytesTxTime bps bytes := by
  unfold calculateBytesTxTime
  positivity

theorem requiredDelayTime_returns (profile : BuildProfile) (c : TbfConfig) {btoks : Int}
    (ptoks : Int) (unused : c.peakRate = 0 → btoks < 0) :
    ∃ delay, requiredDelayTime profile c btoks ptoks = some delay ∧ 0 ≤ delay := by
  unfold requiredDelayTime
  by_cases peak : c.peakRate = 0
  · refine ⟨calculateBytesTxTime c.rate (-btoks), ?_, calculateBytesTxTime_nonneg _ _⟩
    simp [peak, unused peak]
  · simp only [peak, if_false]
    split
    · exact ⟨_, rfl, calculateBytesTxTime_nonneg _ _⟩
    · split
      · exact ⟨_, rfl, calculateBytesTxTime_nonneg _ _⟩
      · exact ⟨_, rfl, le_max_of_le_left (calculateBytesTxTime_nonneg _ _)⟩

/-- What a packet leaves in the buckets. -/
structure Releases (c : TbfConfig) (qd : ChildQueueDisc σ ι) (now : ℚ) (s t : TbfQueueDisc σ)
    (head item : ι) : Prop where
  peeks : (qd.peek now s.child).1 = some head
  dequeues : (qd.dequeue now (qd.peek now s.child).2).1 = some item
  time : t.timeCheckPoint = now
  btokens : (t.btokens : Int) =
    tokensAfter s.btokens c.rate c.burst (now - s.timeCheckPoint) - qd.getSize head
  ptokens : c.peakRate > 0 → (t.ptokens : Int) =
    tokensAfter s.ptokens c.peakRate c.mtu (now - s.timeCheckPoint) - qd.getSize head

/-- `DoDequeue` releases a packet that the buckets have tokens for, or leaves them as they are. -/
theorem doDequeue_spec (profile : BuildProfile) (qd : ChildQueueDisc σ ι) (positive : c.rate > 0)
    {now : ℚ} (idExpired : Bool) {s : TbfQueueDisc σ} (later : s.timeCheckPoint ≤ now) :
    ∃ item delay t, doDequeue profile c qd now idExpired s = some (item, delay, t) ∧
      ((∃ head released, item = some released ∧ Releases c qd now s t head released) ∨
        item = none ∧ t.btokens = s.btokens ∧ t.ptokens = s.ptokens ∧
          t.timeCheckPoint = s.timeCheckPoint) := by
  have elapsed : 0 ≤ now - s.timeCheckPoint := sub_nonneg.mpr later
  rcases peeks : qd.peek now s.child with ⟨head, child⟩
  cases head with
  | none =>
    refine ⟨none, none, { s with child }, ?_, .inr ⟨rfl, rfl, rfl, rfl⟩⟩
    simp only [doDequeue, peeks, Option.pure_def]
  | some head =>
    have size := qd.getSize_lt head
    have lowB := tokensAfter_nonneg s.btokens c.rate c.burst elapsed
    have highB := tokensAfter_le s.btokens c.rate c.burst (now - s.timeCheckPoint)
    have lowP := tokensAfter_nonneg s.ptokens c.peakRate c.mtu elapsed
    have highP := tokensAfter_le s.ptokens c.peakRate c.mtu (now - s.timeCheckPoint)
    have burst := c.burst_lt
    have mtu := c.mtu_lt
    obtain ⟨btoks, valueB⟩ : ∃ btoks, btoks =
        tokensAfter s.btokens c.rate c.burst (now - s.timeCheckPoint) - qd.getSize head :=
      ⟨_, rfl⟩
    obtain ⟨ptoks, valueP⟩ : ∃ ptoks, ptoks = if c.peakRate > 0 then
        tokensAfter s.ptokens c.peakRate c.mtu (now - s.timeCheckPoint) - qd.getSize head
        else 0 := ⟨_, rfl⟩
    have rangeB : -2 ^ 32 ≤ btoks ∧ btoks < 2 ^ 32 := by omega
    have rangeP : -2 ^ 32 ≤ ptoks ∧ ptoks < 2 ^ 32 := by split at valueP <;> omega
    have test := or_nonneg_iff rangeB.1 rangeB.2.le rangeP.1 rangeP.2.le
    by_cases both : 0 ≤ btoks ∧ 0 ≤ ptoks
    · have passes := test.mpr both
      rcases dequeues : qd.dequeue now child with ⟨item, rest⟩
      cases item with
      | none =>
        refine ⟨none, none, { s with child := rest }, ?_, .inr ⟨rfl, rfl, rfl, rfl⟩⟩
        simp only [doDequeue, peeks, ← valueB, ← valueP, passes, if_true, dequeues,
          Option.pure_def]
      | some item =>
        refine ⟨some item, none,
          { child := rest
            btokens := (btoks % 2 ^ 32).toNat
            ptokens := (ptoks % 2 ^ 32).toNat
            timeCheckPoint := now }, ?_, .inl ⟨head, item, rfl, ?_⟩⟩
        · simp only [doDequeue, peeks, ← valueB, ← valueP, passes, if_true, dequeues,
            Option.pure_def]
        · refine ⟨congrArg Prod.fst peeks, ?_, rfl, ?_, ?_⟩
          · rw [peeks]
            exact congrArg Prod.fst dequeues
          · rw [← valueB]
            exact toNat_of_bounds both.1 rangeB.2
          · intro peak
            rw [if_pos peak] at valueP
            rw [← valueP]
            exact toNat_of_bounds both.2 rangeP.2
    · have blocked := mt test.mp both
      cases idExpired with
      | false =>
        refine ⟨none, none, { s with child }, ?_, .inr ⟨rfl, rfl, rfl, rfl⟩⟩
        simp only [doDequeue, peeks, ← valueB, ← valueP, blocked, if_false, Bool.false_eq_true,
          Option.pure_def]
      | true =>
        have unused : c.peakRate = 0 → btoks < 0 := by
          intro unset
          omega
        obtain ⟨delay, required, nonneg⟩ := requiredDelayTime_returns profile c ptoks unused
        refine ⟨none, some delay, { s with child }, ?_, .inr ⟨rfl, rfl, rfl, rfl⟩⟩
        simp only [doDequeue, peeks, ← valueB, ← valueP, blocked, if_false, if_true, positive,
          decide_true, nsAssert_true, required, nonneg, ge_iff_le, some_bind, pure_some]

/-! ## Runs -/

/-- The condition under which a packet is released: no bucket in use has its earned tokens rounded
up, and the packet is no longer than the one at the head. -/
def Earned (c : TbfConfig) (qd : ChildQueueDisc σ ι) (s : Simulation σ) : Call ι → Prop
  | .dequeue _ => ∀ head ∈ (qd.peek s.now s.disc.child).1,
      qd.getSize head ≤
        tokensAfter s.disc.btokens c.rate c.burst (s.now - s.disc.timeCheckPoint) →
      (c.peakRate > 0 → qd.getSize head ≤
        tokensAfter s.disc.ptokens c.peakRate c.mtu (s.now - s.disc.timeCheckPoint)) →
      ¬ RoundsUp s.disc.btokens c.rate c.burst (s.now - s.disc.timeCheckPoint) ∧
      (c.peakRate > 0 →
        ¬ RoundsUp s.disc.ptokens c.peakRate c.mtu (s.now - s.disc.timeCheckPoint)) ∧
      ∀ item ∈ (qd.dequeue s.now (qd.peek s.now s.disc.child).2).1,
        qd.getSize item ≤ qd.getSize head
  | _ => True

instance (s : Simulation σ) : DecidablePred (Earned c qd s)
  | .dequeue _ => inferInstanceAs (Decidable (∀ head ∈ (qd.peek s.now s.disc.child).1, _))
  | .wait _ | .enqueue _ => .isTrue trivial

/-- Each bucket in use is a token bucket for what has been released. -/
structure Buckets (c : TbfConfig) (s : Simulation σ) : Prop where
  clock : s.disc.timeCheckPoint ≤ s.now
  first : History (c.rate / 8 : ℚ) c.burst s.disc.btokens s.disc.timeCheckPoint s.released
  second : c.peakRate > 0 →
    History (c.peakRate / 8 : ℚ) c.mtu s.disc.ptokens s.disc.timeCheckPoint s.released

theorem Buckets.init (c : TbfConfig) (child : σ) : Buckets c (init c child) :=
  ⟨le_rfl, .start (by positivity) le_rfl, fun _ => .start (by positivity) le_rfl⟩

theorem history_release {tokens left rate size packet bytes : Nat} {checkPoint now : ℚ}
    {released : List (ℚ × ℚ)}
    (h : History (rate / 8 : ℚ) size tokens checkPoint released) (later : checkPoint ≤ now)
    (earned : ¬ RoundsUp tokens rate size (now - checkPoint))
    (leaves : (left : Int) = tokensAfter tokens rate size (now - checkPoint) - packet)
    (short : bytes ≤ packet) :
    History (rate / 8 : ℚ) size left now (released ++ [(now, (bytes : ℚ))]) := by
  have taken : (left : ℚ) = tokensAfter tokens rate size (now - checkPoint) - packet :=
    mod_cast leaves
  have short : (bytes : ℚ) ≤ packet := mod_cast short
  apply h.release later left.cast_nonneg
  · have most := tokensAfter_le_earned earned
    linarith
  · have most : (tokensAfter tokens rate size (now - checkPoint) : ℚ) ≤ size :=
      mod_cast tokensAfter_le tokens rate size (now - checkPoint)
    linarith

theorem Buckets.step_spec (profile : BuildProfile) (qd : ChildQueueDisc σ ι) (positive : c.rate > 0)
    (s : Simulation σ) (call : Call ι) (h : Buckets c s) (earned : Earned c qd s call) :
    ∃ t, step profile c qd s call = some t ∧ Buckets c t := by
  cases call with
  | wait time =>
    refine ⟨{ s with now := s.now + time }, rfl, ?_, h.first, h.second⟩
    exact h.clock.trans (le_add_of_nonneg_right time.coe_nonneg)
  | enqueue item =>
    refine ⟨{ s with disc := { s.disc with child := qd.enqueue s.now item s.disc.child } }, rfl,
      h.clock, h.first, h.second⟩
  | dequeue idExpired =>
    obtain ⟨item, delay, disc, run, outcome⟩ :=
      doDequeue_spec profile qd positive idExpired h.clock
    obtain ⟨head, item, rfl, releases⟩ | ⟨rfl, sameB, sameP, sameT⟩ := outcome
    · refine ⟨{ s with
        disc, released := s.released ++ [(s.now, (qd.getSize item : ℚ))] }, ?_, ?_⟩
      · simp [step, run]
      · have fitsB : (qd.getSize head : Int) ≤ tokensAfter s.disc.btokens c.rate c.burst
            (s.now - s.disc.timeCheckPoint) := by
          have left := releases.btokens
          omega
        have fitsP (peak : c.peakRate > 0) : (qd.getSize head : Int) ≤ tokensAfter
            s.disc.ptokens c.peakRate c.mtu (s.now - s.disc.timeCheckPoint) := by
          have left := releases.ptokens peak
          omega
        obtain ⟨first, second, short⟩ := earned head releases.peeks fitsB fitsP
        have short := short item releases.dequeues
        refine ⟨releases.time.le, ?_, ?_⟩
        · rw [releases.time]
          exact history_release h.first h.clock first releases.btokens short
        · intro peak
          rw [releases.time]
          exact history_release (h.second peak) h.clock (second peak) (releases.ptokens peak)
            short
    · refine ⟨{ s with disc }, ?_, ?_⟩
      · simp [step, run]
      · refine ⟨?_, ?_, ?_⟩
        · rw [sameT]
          exact h.clock
        · rw [sameB, sameT]
          exact h.first
        · intro peak
          rw [sameP, sameT]
          exact h.second peak

/-- The bytes released in each interval of time are at most what the rates allow. -/
def Conforms (c : TbfConfig) (s : Simulation σ) : Prop :=
  ∀ first last, first ≤ last →
    between first last s.released ≤ c.burst + (last - first) * (c.rate / 8) ∧
      (c.peakRate > 0 →
        between first last s.released ≤ c.mtu + (last - first) * (c.peakRate / 8))

theorem Buckets.conforms {s : Simulation σ} (h : Buckets c s) : Conforms c s := by
  intro first last interval
  constructor
  · exact h.first.between_le (by positivity) (by positivity) interval
  · intro peak
    exact (h.second peak).between_le (by positivity) (by positivity) interval

/-- In every run whose releases take earned tokens only, the queue disc conforms to its rates. -/
theorem released_conforms (profile : BuildProfile) (c : TbfConfig) (qd : ChildQueueDisc σ ι)
    (positive : c.rate > 0) (child : σ) (calls : List (Call ι))
    (earned : Run.Meets (step profile c qd) (Earned c qd) (init c child) calls) :
    ∃ s, Run.exec (step profile c qd) (init c child) calls = some s ∧ Conforms c s := by
  have begins := Buckets.init c child
  obtain ⟨s, run, h⟩ := Run.total begins earned (Buckets.step_spec profile qd positive)
  exact ⟨s, run, h.conforms⟩

/-- A `FifoQueueDisc` without a limit, with the sizes of its packets. -/
def fifo : ChildQueueDisc (List UInt32) UInt32 where
  enqueue _ item packets := packets ++ [item]
  peek _ packets := (packets.head?, packets)
  dequeue _ packets := (packets.head?, packets.tail)
  getSize := UInt32.toNat
  getSize_lt := UInt32.toNat_lt

/-- Two buckets, and releases that wait for their tokens. -/
theorem released_conforms_two : ∃ s,
    Run.exec (step .debug ⟨3000, 1500, 8000, 16000, by decide, by decide⟩ fifo)
      (init ⟨3000, 1500, 8000, 16000, by decide, by decide⟩ [])
      [.enqueue 1500, .enqueue 1500, .enqueue 600, .dequeue true, .dequeue true, .wait (3 / 4),
        .dequeue true, .wait (1 / 2), .dequeue false] = some s ∧
      Conforms ⟨3000, 1500, 8000, 16000, by decide, by decide⟩ s :=
  released_conforms .debug _ fifo (by decide) [] _ (by decide +kernel)

/-- Every half second a bucket that earns one byte a second is given a whole byte. -/
theorem rounding_exceedsRate : ∃ s,
    Run.exec (step .debug ⟨1, 0, 8, 0, by decide, by decide⟩ fifo)
      (init ⟨1, 0, 8, 0, by decide, by decide⟩ [])
      [.enqueue 1, .enqueue 1, .enqueue 1, .enqueue 1, .dequeue true, .wait (1 / 2), .dequeue true,
        .wait (1 / 2), .dequeue true, .wait (1 / 2), .dequeue true] = some s ∧
      ¬ Conforms ⟨1, 0, 8, 0, by decide, by decide⟩ s := by
  refine ⟨⟨3 / 2, ⟨[], 0, 0, 3 / 2⟩, [(0, 1), (1 / 2, 1), (1, 1), (3 / 2, 1)]⟩,
    by decide +kernel, ?_⟩
  intro conforms
  have bound := (conforms 0 (3 / 2) (by decide +kernel)).1
  have exceeds : ¬ between (0 : ℚ) (3 / 2) [(0, 1), (1 / 2, 1), (1, 1), (3 / 2, 1)] ≤
      ((1 : Nat) : ℚ) + (3 / 2 - 0) * (((8 : Nat) : ℚ) / 8) := by
    decide +kernel
  exact exceeds bound

end Ns3.TbfQueueDisc
