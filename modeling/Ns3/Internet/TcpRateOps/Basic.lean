import Ns3.Internet.TcpTxBuffer.Basic
import Mathlib.Logic.Function.Basic

/-!
# The delivery rate

`TcpRateLinux` counts the bytes that were delivered. Each item that is sent takes a snapshot of the
count and of its times along, and gives it back when it is reported as delivered: when a SACK
option covers it, or when a cumulative acknowledgement removes it. An item without such a snapshot
is not counted.

The functions of `TcpTxBuffer` that report items are stated here with their callback.
-/

namespace Ns3

/-- `TcpTxItem::RateInformation`. The time `none` is `Time::Max ()`. -/
structure RateInformation where
  delivered : Nat := 0
  deliveredTime : Option Int := none
  firstSent : Option Int := none
  isAppLimited : Bool := false

/-- `TcpRateOps::TcpRateConnection`, as far as `SkbSent` and `SkbDelivered` use it. -/
structure TcpRateConnection where
  delivered : Nat := 0
  deliveredTime : Int := 0
  firstSentTime : Int := 0
  appLimited : Nat := 0
  txItemDelivered : Nat := 0

/-- `TcpRateOps::TcpRateSample`, as far as `SkbDelivered` uses it. -/
structure TcpRateSample where
  isAppLimited : Bool := false
  priorDelivered : Nat := 0
  priorTime : Int := 0
  sendElapsed : Int := 0
  ackElapsed : Int := 0

/-- `TcpRateLinux`, with the rate information of the items by their nodes. -/
structure TcpRateLinux where
  rate : TcpRateConnection := {}
  rateSample : TcpRateSample := {}
  info : Nat → RateInformation := fun _ => {}

namespace TcpRateLinux

/-- `SkbSent`. -/
def skbSent (now : Int) (skb : TcpTxItem) (isStartOfTransmission : Bool) (r : TcpRateLinux) :
    TcpRateLinux :=
  let rate := if isStartOfTransmission then
      { r.rate with firstSentTime := now, deliveredTime := now }
    else r.rate
  { r with
    rate
    info := Function.update r.info skb.node
      { firstSent := some rate.firstSentTime
        deliveredTime := some rate.deliveredTime
        isAppLimited := rate.appLimited != 0
        delivered := rate.delivered } }

/-- The part of `SkbDelivered` that favours the item sent last. -/
def sample (now : Int) (skb : TcpTxItem) (skbInfo : RateInformation) (deliveredTime : Int)
    (r : TcpRateLinux) : TcpRateLinux :=
  if r.rateSample.priorDelivered = 0 ∨ r.rateSample.priorDelivered < skbInfo.delivered then
    { r with
      rateSample := { r.rateSample with
        ackElapsed := now - r.rateSample.priorTime
        priorDelivered := skbInfo.delivered % 2 ^ 32
        priorTime := deliveredTime
        isAppLimited := skbInfo.isAppLimited
        sendElapsed := skb.lastSent - skbInfo.firstSent.getD 0 }
      rate := { r.rate with firstSentTime := skb.lastSent } }
  else r

/-- `SkbDelivered`. -/
def skbDelivered (now : Int) (skb : TcpTxItem) (r : TcpRateLinux) : TcpRateLinux :=
  let skbInfo := r.info skb.node
  match skbInfo.deliveredTime with
  | none => r
  | some deliveredTime =>
    let r := sample now skb skbInfo deliveredTime { r with
      rate := { r.rate with delivered := r.rate.delivered + skb.size, deliveredTime := now } }
    { r with
      info := Function.update r.info skb.node { skbInfo with deliveredTime := none }
      rate := { r.rate with txItemDelivered := skbInfo.delivered % 2 ^ 32 } }

end TcpRateLinux

namespace TcpTxBuffer

variable {κ : Type} (callback : TcpTxItem → κ → κ) (profile : BuildProfile)

/-! ## The functions that report items -/

/-- The walk of `Update` for one block, with `sackedCb`. -/
def sackBlockWith (block : SackBlock) :
    PacketList → SequenceNumber32 → Sacking → κ → Option (PacketList × Sacking × κ)
  | [], _, k, c => some ([], k, c)
  | item :: rest, beginOfCurrentPacket, k, c => do
      let endOfCurrentPacket := beginOfCurrentPacket.add item.size
      if beginOfCurrentPacket.ge block.1 && endOfCurrentPacket.le block.2 then
        if item.sacked then
          nsAssert profile (!item.lost)
          let (rest, k, c) ← sackBlockWith block rest endOfCurrentPacket k c
          return (item :: rest, k, c)
        else
          let marked := { item with lost := false, sacked := true }
          let (rest, k, c) ← sackBlockWith block rest endOfCurrentPacket
            (k.mark item beginOfCurrentPacket) (callback marked c)
          return (marked :: rest, k, c)
      else if endOfCurrentPacket.gt block.2 then
        return (item :: rest, k, c)
      else
        let (rest, k, c) ← sackBlockWith block rest endOfCurrentPacket k c
        return (item :: rest, k, c)

/-- The loop of `Update` over the blocks, with `sackedCb`. -/
def sackBlocksWith (first : SequenceNumber32) (sentSize : Nat) :
    SackList → PacketList → Sacking → κ → Option (PacketList × Sacking × Bool × κ)
  | [], list, k, c => some (list, k, true, c)
  | block :: blocks, list, k, c => do
      if (first.add sentSize).lt block.1 then
        return (list, k, false, c)
      else
        let (list, k, c) ← sackBlockWith callback profile block list first k c
        sackBlocksWith first sentSize blocks list k c

/-- `Update`, with `sackedCb`. -/
def updateWith (b : TcpTxBuffer) (list : SackList) (c : κ) : Option (Nat × TcpTxBuffer × κ) := do
  let (sentList, k, goesOn, c) ← sackBlocksWith callback profile b.firstByteSeq b.sentSize list
    b.sentList
    { lostOut := b.lostOut, sackedOut := b.sackedOut, bytesSacked := 0,
      highestSack := b.highestSack } c
  let b := { b with
    sentList, lostOut := k.lostOut, sackedOut := k.sackedOut, highestSack := k.highestSack }
  if !goesOn then
    return (k.bytesSacked, b, c)
  let b ← (if 0 < k.bytesSacked then do
      nsAssert profile b.highestSack.1.isSome
      b.updateLostCount
    else some b)
  nsAssert profile (b.sentList.head?.any fun head => !head.sacked)
  nsAssert profile (UInt32.add b.sackedOut b.lostOut ≤ b.sentSize)
  return (k.bytesSacked, b, c)

/-- The loop of `DiscardUpTo`, with `beforeDelCb`. -/
def discardLoopWith (now : Int) :
    Nat → Nat → TcpTxBuffer → κ → Option (TcpTxBuffer × κ)
  | turns, offset, b, c =>
    if 0 < b.size ∧ 0 < offset then
      match turns with
      | 0 => none
      | turns + 1 => do
          let b ← b.refill profile now offset
          match b.sentList with
          | [] => none
          | item :: rest =>
            nsAssert profile (item.startSeq == b.firstByteSeq)
            if item.size ≤ offset then
              let b ← b.removeFromCounts profile item item.size
              discardLoopWith now turns (offset - item.size) { b with
                sentList := rest
                size := UInt32.sub b.size item.size
                sentSize := UInt32.sub b.sentSize item.size
                firstByteSeq := b.firstByteSeq.add item.size } (callback item c)
            else
              let packet ← item.packet.createFragment profile offset (item.size - offset)
              let b ← b.removeFromCounts profile item offset
              return ({ b with
                sentList := { item with packet, startSeq := item.startSeq.add offset } :: rest
                size := UInt32.sub b.size offset
                sentSize := UInt32.sub b.sentSize offset
                firstByteSeq := b.firstByteSeq.add offset }, c)
    else some (b, c)

/-- `DiscardUpTo`, with `beforeDelCb`. -/
def discardUpToWith (now : Int) (b : TcpTxBuffer) (seq : SequenceNumber32) (c : κ) :
    Option (TcpTxBuffer × κ) :=
  if b.firstByteSeq.ge seq then some (b, c)
  else do
    let offset := (seq.sub b.firstByteSeq).toNat
    let (b, c) ← discardLoopWith callback profile now offset offset b c
    -- Catching the case of ACKing a FIN.
    let b ← settleHead profile seq
      (if b.size = 0 then { b with firstByteSeq := seq } else b)
    let b := if b.highestSack.2.le b.firstByteSeq then { b with highestSack := (none, .ofNat 0) }
      else b
    nsAssert profile (b.firstByteSeq.ge seq)
    nsAssert profile (UInt32.add b.sackedOut b.lostOut ≤ b.sentSize)
    return (b, c)

end TcpTxBuffer

end Ns3
