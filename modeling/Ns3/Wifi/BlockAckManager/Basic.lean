import Ns3.Wifi.OriginatorBlockAckAgreement.Basic

/-!
# The MPDUs in flight under a Block Ack agreement

`BlockAckManager` keeps for each established agreement of an originator the list of the MPDUs that
have been transmitted and not yet been acknowledged, in the order of their sequence numbers from
the window start on. Modelled is one agreement.

Which MPDUs are in the EDCA queue, and on which links they are in flight, is known to the queue:
it is part of each call. No lifetime expires while a call looks at an MPDU.
-/

namespace Ns3

namespace BlockAckManager

/-- What is read of an MPDU, and its content. -/
structure Mpdu (μ : Type) where
  seq : Nat
  frag : Nat := 0
  content : μ
  deriving DecidableEq

/-- `GetSequenceControl`. -/
def Mpdu.sequenceControl {μ : Type} (mpdu : Mpdu μ) : Nat := mpdu.seq * 16 + mpdu.frag

/-- `MpduStatus`. -/
inductive MpduStatus where
  | stayInflight
  | toRetransmit
  | acknowledged
  deriving DecidableEq

end BlockAckManager

/-- An agreement and its MPDUs in flight. -/
structure BlockAckManager (μ : Type) where
  agreement : OriginatorBlockAckAgreement
  inFlight : List (BlockAckManager.Mpdu μ) := []
  deriving DecidableEq

namespace BlockAckManager

variable {μ : Type} (profile : BuildProfile)

/-! ## `StorePacket` -/

/-- The loop of `StorePacket` and the insertion, over the list from its end: nothing if the MPDU
is in the list. -/
def storeScan (a : OriginatorBlockAckAgreement) (mpdu : Mpdu μ) (mpduDist : Nat) :
    List (Mpdu μ) → Option (Option (List (Mpdu μ)))
  | [] => some (some [mpdu])
  | x :: rest => do
      if mpdu.sequenceControl = x.sequenceControl then return none
      let dist := (← a.getDistance profile x.seq) % 2 ^ 16
      if mpduDist > dist ∨ (mpduDist = dist ∧ mpdu.frag > x.frag) then
        return some (mpdu :: x :: rest)
      else return (← storeScan a mpdu mpduDist rest).map (x :: ·)

/-- `StorePacket`. -/
def storePacket (mpdu : Mpdu μ) (s : BlockAckManager μ) : Option (BlockAckManager μ) := do
  let mpduDist := (← s.agreement.getDistance profile mpdu.seq) % 2 ^ 16
  if mpduDist ≥ seqnoSpaceHalfSize then some s
  else match ← storeScan profile s.agreement mpdu mpduDist s.inFlight.reverse with
    | none => some s
    | some stored =>
      return { agreement := ← s.agreement.notifyTransmittedMpdu profile mpdu.seq
               inFlight := stored.reverse }

/-! ## `HandleInFlightMpdu` -/

/-- `HandleInFlightMpdu`: does the MPDU stay in the list? -/
def handleInFlightMpdu (a : OriginatorBlockAckAgreement) (isQueued : Mpdu μ → Bool)
    (status : MpduStatus) (mpdu : Mpdu μ) : Option Bool := do
  if !isQueued mpdu then return false
  if status = .acknowledged then return false
  if (← a.getDistance profile mpdu.seq) ≥ seqnoSpaceHalfSize then return false
  return status = .stayInflight

/-- The first MPDU with a sequence number is handled. -/
def handleFirst (a : OriginatorBlockAckAgreement) (isQueued : Mpdu μ → Bool)
    (status : MpduStatus) (seq : Nat) : List (Mpdu μ) → Option (List (Mpdu μ))
  | [] => some []
  | x :: rest =>
    if x.seq = seq then do
      return if ← handleInFlightMpdu profile a isQueued status x then x :: rest else rest
    else return x :: (← handleFirst a isQueued status seq rest)

/-- All MPDUs are handled, each with its own status. -/
def handleAll (a : OriginatorBlockAckAgreement) (isQueued : Mpdu μ → Bool)
    (status : Mpdu μ → MpduStatus) : List (Mpdu μ) → Option (List (Mpdu μ))
  | [] => some []
  | x :: rest => do
      let stays ← handleInFlightMpdu profile a isQueued (status x) x
      let rest ← handleAll a isQueued status rest
      return if stays then x :: rest else rest

/-! ## Acknowledgements -/

/-- `NotifyGotAck`. -/
def notifyGotAck (mpdu : Mpdu μ) (isQueued : Mpdu μ → Bool) (s : BlockAckManager μ) :
    Option (BlockAckManager μ) := do
  let agreement ← s.agreement.notifyAckedMpdu profile mpdu.seq
  return { agreement
           inFlight := ← handleFirst profile agreement isQueued .acknowledged mpdu.seq s.inFlight }

/-- `NotifyMissedAck`. -/
def notifyMissedAck (mpdu : Mpdu μ) (isQueued : Mpdu μ → Bool) (s : BlockAckManager μ) :
    Option (BlockAckManager μ) := do
  return { s with
    inFlight := ← handleFirst profile s.agreement isQueued .toRetransmit mpdu.seq s.inFlight }

/-- The first loop of `NotifyGotBlockAck`, with the number of MPDUs that have been received. -/
def ackReceived (received : Nat → Bool) (isQueued : Mpdu μ → Bool) :
    OriginatorBlockAckAgreement → List (Mpdu μ) →
      Option (OriginatorBlockAckAgreement × List (Mpdu μ) × Nat)
  | a, [] => some (a, [], 0)
  | a, x :: rest =>
    if received x.seq then do
      let a ← a.notifyAckedMpdu profile x.seq
      let stays ← handleInFlightMpdu profile a isQueued .acknowledged x
      let (a, rest, successful) ← ackReceived received isQueued a rest
      return (a, if stays then x :: rest else rest, successful + 1)
    else do
      let (a, rest, successful) ← ackReceived received isQueued a rest
      return (a, x :: rest, successful)

/-- Is the MPDU in flight on this link only? -/
def failedOn (linkId : Nat) (linkIds : Mpdu μ → List Nat) (mpdu : Mpdu μ) : Bool :=
  linkIds mpdu = [linkId]

/-- `NotifyGotBlockAck`, with the numbers of successful and of failed MPDUs. -/
def notifyGotBlockAck (linkId : Nat) (received : Nat → Bool) (isQueued : Mpdu μ → Bool)
    (linkIds : Mpdu μ → List Nat) (s : BlockAckManager μ) :
    Option (BlockAckManager μ × Nat × Nat) := do
  let (agreement, outstanding, nSuccessfulMpdus) ←
    ackReceived profile received isQueued s.agreement s.inFlight
  let nFailedMpdus := (outstanding.filter (failedOn linkId linkIds)).length
  let inFlight ← handleAll profile agreement isQueued
    (fun x => if failedOn linkId linkIds x then .toRetransmit else .stayInflight) outstanding
  return ({ agreement, inFlight }, nSuccessfulMpdus % 2 ^ 16, nFailedMpdus % 2 ^ 16)

/-- `NotifyMissedBlockAck`. -/
def notifyMissedBlockAck (linkId : Nat) (isQueued : Mpdu μ → Bool) (linkIds : Mpdu μ → List Nat)
    (s : BlockAckManager μ) : Option (BlockAckManager μ) := do
  return { s with
    inFlight := ← handleAll profile s.agreement isQueued
      (fun x => if linkId ∈ linkIds x then .toRetransmit else .stayInflight) s.inFlight }

/-! ## Discarded MPDUs -/

/-- `QosUtilsIsOldPacket`. -/
def qosUtilsIsOldPacket (startingSeq seqNumber : Nat) : Option Bool := do
  nsAssert profile (startingSeq < 4096)
  nsAssert profile (seqNumber < 4096)
  let distance := seqnoOffset seqNumber startingSeq % 2 ^ 16
  return distance ≥ 2048

/-- The loop of `NotifyDiscardedMpdu`: the MPDUs that stay in the list. -/
def dropOld (a : OriginatorBlockAckAgreement) : List (Mpdu μ) → Option (List (Mpdu μ))
  | [] => some []
  | x :: rest => do
      if (← a.getDistance profile x.seq) ≥ seqnoSpaceHalfSize then dropOld a rest
      else return x :: rest

/-- `NotifyDiscardedMpdu`, for a QoS data frame. -/
def notifyDiscardedMpdu (mpdu : Mpdu μ) (isRetryOrInFlight : Bool) (s : BlockAckManager μ) :
    Option (BlockAckManager μ) := do
  if !isRetryOrInFlight then return s
  if ← qosUtilsIsOldPacket profile s.agreement.getStartingSequence mpdu.seq then return s
  let agreement ← s.agreement.notifyDiscardedMpdu profile mpdu.seq
  return { agreement, inFlight := ← dropOld profile agreement s.inFlight }

/-! ## Runs -/

/-- The calls. -/
inductive Call (μ : Type) where
  | storePacket (mpdu : Mpdu μ)
  | gotAck (mpdu : Mpdu μ) (isQueued : Mpdu μ → Bool)
  | missedAck (mpdu : Mpdu μ) (isQueued : Mpdu μ → Bool)
  | gotBlockAck (linkId : Nat) (received : Nat → Bool) (isQueued : Mpdu μ → Bool)
      (linkIds : Mpdu μ → List Nat)
  | missedBlockAck (linkId : Nat) (isQueued : Mpdu μ → Bool) (linkIds : Mpdu μ → List Nat)
  | discardedMpdu (mpdu : Mpdu μ) (isRetryOrInFlight : Bool)

/-- One call. -/
def step (s : BlockAckManager μ) : Call μ → Option (BlockAckManager μ)
  | .storePacket mpdu => s.storePacket profile mpdu
  | .gotAck mpdu isQueued => s.notifyGotAck profile mpdu isQueued
  | .missedAck mpdu isQueued => s.notifyMissedAck profile mpdu isQueued
  | .gotBlockAck linkId received isQueued linkIds =>
    (s.notifyGotBlockAck profile linkId received isQueued linkIds).map Prod.fst
  | .missedBlockAck linkId isQueued linkIds =>
    s.notifyMissedBlockAck profile linkId isQueued linkIds
  | .discardedMpdu mpdu isRetryOrInFlight => s.notifyDiscardedMpdu profile mpdu isRetryOrInFlight

/-- A new agreement. -/
def init (bufferSize startingSeq : Nat) : BlockAckManager μ where
  agreement := OriginatorBlockAckAgreement.initTxWindow { startingSeq, bufferSize }

end BlockAckManager

end Ns3
