import Ns3.Internet.TcpOption.Basic

/-!
# The transmit buffer

`TcpTxBuffer` keeps the bytes of the application in two lists: `m_sentList` with
the segments in flight and the scoreboard flags of each, and behind it
`m_appList` with the bytes that were not sent yet.

The lists are linked lists, and `m_highestSack` is an iterator into one of them.
Every list node therefore has an identity, `node`, taken fresh at each
insertion; an iterator is the identity it points to, and `none` is `end()`.
Following an iterator whose node is not in the list any more is undefined, like
following a null pointer: such a call is `none`, as a failed assertion is.
-/

namespace Ns3

/-- The fields of `TcpTxItem`, with the identity of the list node that holds it. -/
structure TcpTxItem where
  startSeq : SequenceNumber32 := .ofNat 0
  packet : Packet
  lost : Bool := false
  retrans : Bool := false
  sacked : Bool := false
  lastSent : Int := 0
  node : Nat
  deriving DecidableEq

abbrev PacketList := List TcpTxItem

/-- The fields of `TcpTxBuffer`. `nextNode` is the next unused node identity. -/
structure TcpTxBuffer where
  appList : PacketList := []
  sentList : PacketList := []
  maxBuffer : Nat := 32768
  size : Nat := 0
  sentSize : Nat := 0
  firstByteSeq : SequenceNumber32
  highestSack : Option Nat × SequenceNumber32 := (none, .ofNat 0)
  lostOut : Nat := 0
  sackedOut : Nat := 0
  retrans : Nat := 0
  dupAckThresh : Nat := 0
  segmentSize : Nat := 0
  sackEnabled : Bool := true
  nextNode : Nat := 0
  deriving DecidableEq

namespace TcpTxItem

/-- `m_packet->GetSize()`. -/
def size (item : TcpTxItem) : Nat := item.packet.length

/-- `SplitItems`: cut the first `size` bytes off `t2`. The first component is
`t1`, which goes to a new node. -/
def split (profile : BuildProfile) (t2 : TcpTxItem) (size node : Nat) :
    Option (TcpTxItem × TcpTxItem) := do
  let packet ← t2.packet.createFragment profile 0 size
  return ({ t2 with packet, node },
    { t2 with packet := t2.packet.removeAtStart size, startSeq := t2.startSeq.add size })

/-- `MergeItems`: append `t2` to `t1`. When only one of them is marked as
retransmitted, the mark is taken back, also in the count `retrans`. -/
def merge (profile : BuildProfile) (t1 t2 : TcpTxItem) (retrans : Nat) :
    Option (TcpTxItem × Nat) := do
  nsAssert profile (t1.sacked == t2.sacked)
  nsAssert profile (t1.lost == t2.lost)
  let merged := { t1 with
    packet := t1.packet.addAtEnd t2.packet
    lastSent := if t1.lastSent < t2.lastSent then t2.lastSent else t1.lastSent }
  if t1.retrans = t2.retrans then
    return (merged, retrans)
  else if t1.retrans then
    return ({ merged with retrans := false }, UInt32.sub retrans t1.size)
  else
    return (merged, UInt32.sub retrans t2.size)

end TcpTxItem

namespace TcpTxBuffer

/-- A buffer after its constructor and `SetHeadSequence`. -/
def start (seq : SequenceNumber32) (maxBuffer dupAckThresh segmentSize : Nat)
    (sackEnabled : Bool) : TcpTxBuffer :=
  { maxBuffer, firstByteSeq := seq, dupAckThresh, segmentSize, sackEnabled }

def headSequence (b : TcpTxBuffer) : SequenceNumber32 := b.firstByteSeq

def tailSequence (b : TcpTxBuffer) : SequenceNumber32 := b.firstByteSeq.add b.size

def available (b : TcpTxBuffer) : Nat := UInt32.sub b.maxBuffer b.size

/-- `Add`: append the bytes of the application when there is room for them. -/
def add (b : TcpTxBuffer) (p : Packet) : Bool × TcpTxBuffer :=
  if p.length ≤ b.available then
    if 0 < p.length then
      (true, { b with
        appList := b.appList ++ [{ packet := p, node := b.nextNode }]
        size := UInt32.add b.size p.length
        nextNode := b.nextNode + 1 })
    else (true, b)
  else (false, b)

def sizeFromSequence (b : TcpTxBuffer) (seq : SequenceNumber32) : Nat :=
  if b.tailSequence.ge seq then (b.tailSequence.sub seq).toNat else 0

section GetPacketFromList

/-- Where the walk of `GetPacketFromList` stops: at the item that begins with
the requested sequence number, or at the item that has it inside, so many bytes
behind its begin. -/
inductive Found where
  | begins (front : PacketList) (item : TcpTxItem) (rest : PacketList)
  | inside (front : PacketList) (item : TcpTxItem) (rest : PacketList) (offset : Nat)

/-- One more item in front of those the walk has passed. -/
def Found.push (item : TcpTxItem) : Found → Found
  | .begins front found rest => .begins (item :: front) found rest
  | .inside front found rest offset => .inside (item :: front) found rest offset

/-- The walk. For the sent list, `first` is `m_firstByteSeq` and the assertion
is checked; the list of the application has none. -/
def findSeq (profile : BuildProfile) (first : Option SequenceNumber32) (seq : SequenceNumber32) :
    PacketList → SequenceNumber32 → Option Found
  | [], _ => none
  | item :: rest, beginOfCurrentPacket => do
      nsAssert profile (first.all fun f => item.startSeq.ge f)
      if seq.lt (beginOfCurrentPacket.add item.size) then
        if seq = beginOfCurrentPacket then
          return .begins [] item rest
        else if seq.gt beginOfCurrentPacket then
          return .inside [] item rest (seq.sub beginOfCurrentPacket).toNat
        else none
      else
        let found ← findSeq profile first seq rest (beginOfCurrentPacket.add item.size)
        return found.push item

/-- The result of `GetPacketFromList`: the item, the items around it in the
edited list, and the members that a merge or a split changes. -/
structure Picked where
  front : PacketList
  item : TcpTxItem
  rest : PacketList
  retrans : Nat
  nextNode : Nat

/-- `GetPacketFromList`. Every call of itself follows a split, after which the
sequence number begins an item, or a merge, which shortens the list; two more
than the length of the list bounds their number. -/
def getPacketFromList (profile : BuildProfile) (first : Option SequenceNumber32)
    (listStartFrom : SequenceNumber32) (numBytes : Nat) (seq : SequenceNumber32) :
    Nat → PacketList → Nat → Nat → Option Picked
  | 0, _, _, _ => none
  | calls + 1, list, retrans, nextNode => do
      match ← findSeq profile first seq list listStartFrom with
      | .inside front item rest offset =>
        let (firstPart, item) ← item.split profile offset nextNode
        getPacketFromList profile first listStartFrom numBytes seq calls
          (front ++ firstPart :: item :: rest) retrans (nextNode + 1)
      | .begins front item rest =>
        if (seq.add numBytes).le (seq.add item.size) then
          if numBytes = item.size then
            return { front, item, rest, retrans, nextNode }
          else if numBytes < item.size then
            let (firstPart, item) ← item.split profile numBytes nextNode
            return { front, item := firstPart, rest := item :: rest, retrans,
                     nextNode := nextNode + 1 }
          else
            -- The loop goes round without moving on.
            none
        else
          match rest with
          | [] => return { front, item, rest := [], retrans, nextNode }
          | next :: rest =>
            let (item, retrans) ← item.merge profile next retrans
            getPacketFromList profile first listStartFrom numBytes seq calls
              (front ++ item :: rest) retrans nextNode

end GetPacketFromList

section CopyFromSequence

/-- An item of the sent list that is handed out. The sent list of `buffer` is
`front`, then `item`, then `rest`. -/
structure Sent where
  buffer : TcpTxBuffer
  front : PacketList
  item : TcpTxItem
  rest : PacketList

/-- `GetNewSegment`: move the first `numBytes` bytes of the application list to
the end of the sent list. -/
def getNewSegment (profile : BuildProfile) (b : TcpTxBuffer) (numBytes : Nat) : Option Sent := do
  let startOfAppList := b.firstByteSeq.add b.sentSize
  let picked ← getPacketFromList profile none startOfAppList numBytes startOfAppList
    (b.appList.length + 2) b.appList b.retrans b.nextNode
  let item := { picked.item with startSeq := startOfAppList, node := picked.nextNode }
  return {
    buffer := { b with
      appList := picked.front ++ picked.rest
      sentSize := UInt32.add b.sentSize item.size
      retrans := picked.retrans
      nextNode := picked.nextNode + 1 }
    front := b.sentList, item, rest := [] }

/-- The number of bytes to retransmit from `seq` on: at most two segments, and
the second one only when its flags allow to merge them. -/
def transmittedSize (seq : SequenceNumber32) (numBytes : Nat) : PacketList → Nat
  | [] => numBytes
  | item :: rest =>
    if item.startSeq = seq then
      match rest with
      | next :: _ =>
        if !next.sacked && item.lost == next.lost then
          min numBytes (UInt32.add item.size next.size)
        else min numBytes item.size
      | [] => min numBytes item.size
    else transmittedSize seq numBytes rest

/-- `GetTransmittedSegment`: an item of the sent list that begins at `seq`,
marked as retransmitted. -/
def getTransmittedSegment (profile : BuildProfile) (b : TcpTxBuffer) (numBytes : Nat)
    (seq : SequenceNumber32) : Option Sent := do
  nsAssert profile (seq.ge b.firstByteSeq)
  nsAssert profile (numBytes ≤ b.sentSize)
  nsAssert profile (!b.sentList.isEmpty)
  let s := transmittedSize seq numBytes b.sentList
  let picked ← getPacketFromList profile b.firstByteSeq b.firstByteSeq s seq
    (b.sentList.length + 2) b.sentList b.retrans b.nextNode
  let retrans := if picked.item.retrans then picked.retrans
    else UInt32.add picked.retrans picked.item.size
  return {
    buffer := { b with retrans, nextNode := picked.nextNode }
    front := picked.front
    item := { picked.item with retrans := true }
    rest := picked.rest }

/-- The two cases of `CopyFromSequence` that hand out an item: a block that was
sent completely, and a new block. -/
def handOut (profile : BuildProfile) (b : TcpTxBuffer) (s : Nat) (seq : SequenceNumber32) :
    Option (Option Sent) := do
  if (b.firstByteSeq.add b.sentSize).ge (seq.add s) then
    let out ← b.getTransmittedSegment profile s seq
    nsAssert profile (!out.item.sacked)
    return some out
  else if (b.firstByteSeq.add b.sentSize).le seq then
    nsAbortIf (b.firstByteSeq.add b.sentSize != seq)
    let out ← b.getNewSegment profile s
    nsAssert profile (!out.item.retrans)
    return some out
  else return none

/-- `CopyFromSequence`, as far as `calls` calls of itself. The result is the
item, or `none` for the null pointer. A block that is sent only in part is asked
for again up to the end of that part. -/
def copyFromSequenceWithin (profile : BuildProfile) (now : Int) :
    Nat → TcpTxBuffer → Nat → SequenceNumber32 → Option (Option TcpTxItem × TcpTxBuffer)
  | 0, _, _, _ => none
  | calls + 1, b, numBytes, seq => do
      nsAbortIf (b.firstByteSeq.gt seq)
      let s := min numBytes (b.sizeFromSequence seq)
      if s = 0 then
        return (none, b)
      match ← b.handOut profile s seq with
      | some out =>
        let item := { out.item with lastSent := now }
        nsAssert profile (item.startSeq.ge b.firstByteSeq)
        return (some item, { out.buffer with sentList := out.front ++ item :: out.rest })
      | none =>
        let sentEnd := UInt32.add b.firstByteSeq.value.toNat b.sentSize
        if seq.value.toNat < sentEnd ∧ sentEnd < UInt32.add seq.value.toNat s then
          copyFromSequenceWithin profile now calls b (UInt32.sub sentEnd seq.value.toNat) seq
        else none

/-- `CopyFromSequence`: it calls itself at most once. -/
def copyFromSequence (profile : BuildProfile) (now : Int) (b : TcpTxBuffer) (numBytes : Nat)
    (seq : SequenceNumber32) : Option (Option TcpTxItem × TcpTxBuffer) :=
  copyFromSequenceWithin profile now 2 b numBytes seq

end CopyFromSequence

section Discard

/-- `RemoveFromCounts`. -/
def removeFromCounts (profile : BuildProfile) (item : TcpTxItem) (size : Nat) (b : TcpTxBuffer) :
    Option TcpTxBuffer := do
  nsAssert profile (!item.sacked || size ≤ b.sackedOut)
  nsAssert profile (!item.retrans || size ≤ b.retrans)
  nsAssert profile (!item.lost || size ≤ b.lostOut)
  return { b with
    sackedOut := if item.sacked then UInt32.sub b.sackedOut size else b.sackedOut
    retrans := if item.retrans then UInt32.sub b.retrans size else b.retrans
    lostOut := if item.lost then UInt32.sub b.lostOut size else b.lostOut }

/-- Mark the first item that is not sacked, and report its node and begin. -/
def sackFirst : PacketList → PacketList × Option TcpTxItem
  | [] => ([], none)
  | item :: rest =>
    if item.sacked then
      let (rest, marked) := sackFirst rest
      (item :: rest, marked)
    else ({ item with sacked := true } :: rest, some item)

/-- `AddRenoSack`: mark one more segment behind the head as sacked. -/
def addRenoSack (profile : BuildProfile) (b : TcpTxBuffer) : Option TcpTxBuffer := do
  nsAssert profile (if b.sackEnabled then 1 < b.sentList.length else !b.sentList.isEmpty)
  match b.sentList with
  | [] => none
  | head :: tail =>
    match sackFirst tail with
    | (tail, some item) =>
      return { b with
        sentList := head :: tail
        sackedOut := UInt32.add b.sackedOut item.size
        highestSack := (some item.node, item.startSeq) }
    | (_, none) => return b

def resetRenoSack (b : TcpTxBuffer) : TcpTxBuffer :=
  { b with
    sackedOut := 0
    sentList := b.sentList.map fun item => { item with sacked := false }
    highestSack := (none, .ofNat 0) }

def markHeadAsLost (b : TcpTxBuffer) : TcpTxBuffer :=
  match b.sentList with
  | [] => b
  | head :: tail =>
    { b with
      sentList := { head with sacked := false, retrans := false, lost := true } :: tail
      sackedOut := if head.sacked then UInt32.sub b.sackedOut head.size else b.sackedOut
      retrans := if head.retrans then UInt32.sub b.retrans head.size else b.retrans
      lostOut := if head.lost then b.lostOut else UInt32.add b.lostOut head.size }

/-- `DeleteRetransmittedFlagFromHead`. -/
def deleteRetransmittedFlagFromHead (b : TcpTxBuffer) : Option TcpTxBuffer :=
  if b.sentSize = 0 then some b
  else match b.sentList with
    | [] => none
    | head :: tail =>
      some (if head.retrans then
        { b with
          sentList := { head with retrans := false } :: tail
          retrans := UInt32.sub b.retrans head.size }
      else b)

/-- When the sent list is empty, `DiscardUpTo` moves data there so that it can
delete the item. -/
def refill (profile : BuildProfile) (now : Int) (offset : Nat) (b : TcpTxBuffer) :
    Option TcpTxBuffer :=
  match b.sentList with
  | _ :: _ => some b
  | [] => do
      match ← b.copyFromSequence profile now offset b.firstByteSeq with
      | (some _, b) => return b
      | (none, _) => none

/-- The loop of `DiscardUpTo`. Every turn that goes on takes a whole packet off
`offset`, so `offset` bounds the number of turns. -/
def discardLoop (profile : BuildProfile) (now : Int) : Nat → Nat → TcpTxBuffer → Option TcpTxBuffer
  | turns, offset, b =>
    if 0 < b.size ∧ 0 < offset then
      match turns with
      | 0 => none
      | turns + 1 => do
          let b ← b.refill profile now offset
          match b.sentList with
          | [] => none
          | item :: rest =>
            nsAssert profile (item.startSeq == b.firstByteSeq)
            if item.size ≤ offset then
              let b ← b.removeFromCounts profile item item.size
              discardLoop profile now turns (offset - item.size) { b with
                sentList := rest
                size := UInt32.sub b.size item.size
                sentSize := UInt32.sub b.sentSize item.size
                firstByteSeq := b.firstByteSeq.add item.size }
            else
              let packet ← item.packet.createFragment profile offset (item.size - offset)
              let b ← b.removeFromCounts profile item offset
              return { b with
                sentList := { item with packet, startSeq := item.startSeq.add offset } :: rest
                size := UInt32.sub b.size offset
                sentSize := UInt32.sub b.sentSize offset
                firstByteSeq := b.firstByteSeq.add offset }
    else some b

/-- The head of the sent list cannot stay sacked: its mark moves to another
segment and the head counts as lost. -/
def settleHead (profile : BuildProfile) (seq : SequenceNumber32) (b : TcpTxBuffer) :
    Option TcpTxBuffer :=
  match b.sentList with
  | [] => some b
  | head :: tail => do
      let b ← (if head.sacked then do
          nsAssert profile (!head.lost)
          let b ← addRenoSack profile { b with
            sentList := { head with sacked := false } :: tail
            sackedOut := UInt32.sub b.sackedOut head.size }
          return b.markHeadAsLost
        else some b)
      nsAssert profile (head.startSeq == seq)
      return b

/-- `DiscardUpTo`. -/
def discardUpTo (profile : BuildProfile) (now : Int) (b : TcpTxBuffer) (seq : SequenceNumber32) :
    Option TcpTxBuffer :=
  if b.firstByteSeq.ge seq then some b
  else do
    let offset := (seq.sub b.firstByteSeq).toNat
    let b ← discardLoop profile now offset offset b
    -- Catching the case of ACKing a FIN.
    let b ← settleHead profile seq
      (if b.size = 0 then { b with firstByteSeq := seq } else b)
    let b := if b.highestSack.2.le b.firstByteSeq then { b with highestSack := (none, .ofNat 0) }
      else b
    nsAssert profile (b.firstByteSeq.ge seq)
    nsAssert profile (UInt32.add b.sackedOut b.lostOut ≤ b.sentSize)
    return b

end Discard

section Scoreboard

/-- What `Update` changes besides the flags of the items. -/
structure Sacking where
  lostOut : Nat
  sackedOut : Nat
  bytesSacked : Nat
  highestSack : Option Nat × SequenceNumber32

/-- Mark one item that a block of the option covers. -/
def Sacking.mark (k : Sacking) (item : TcpTxItem) (beginOfCurrentPacket : SequenceNumber32) :
    Sacking where
  lostOut := if item.lost then UInt32.sub k.lostOut item.size else k.lostOut
  sackedOut := UInt32.add k.sackedOut item.size
  bytesSacked := UInt32.add k.bytesSacked item.size
  highestSack :=
    if k.highestSack.1.isNone || k.highestSack.2.le (beginOfCurrentPacket.add item.size) then
      (some item.node, beginOfCurrentPacket)
    else k.highestSack

/-- The walk of `Update` over the sent list for one block of the option. -/
def sackBlock (profile : BuildProfile) (block : SackBlock) :
    PacketList → SequenceNumber32 → Sacking → Option (PacketList × Sacking)
  | [], _, k => some ([], k)
  | item :: rest, beginOfCurrentPacket, k => do
      let endOfCurrentPacket := beginOfCurrentPacket.add item.size
      if beginOfCurrentPacket.ge block.1 && endOfCurrentPacket.le block.2 then
        if item.sacked then
          nsAssert profile (!item.lost)
          let (rest, k) ← sackBlock profile block rest endOfCurrentPacket k
          return (item :: rest, k)
        else
          let (rest, k) ← sackBlock profile block rest endOfCurrentPacket
            (k.mark item beginOfCurrentPacket)
          return ({ item with lost := false, sacked := true } :: rest, k)
      else if endOfCurrentPacket.gt block.2 then
        return (item :: rest, k)
      else
        let (rest, k) ← sackBlock profile block rest endOfCurrentPacket k
        return (item :: rest, k)

/-- The loop of `Update` over the blocks. A block beyond the sent list ends the
whole function: the last component says whether it goes on. -/
def sackBlocks (profile : BuildProfile) (first : SequenceNumber32) (sentSize : Nat) :
    SackList → PacketList → Sacking → Option (PacketList × Sacking × Bool)
  | [], list, k => some (list, k, true)
  | block :: blocks, list, k => do
      if (first.add sentSize).lt block.1 then
        return (list, k, false)
      else
        let (list, k) ← sackBlock profile block list first k
        sackBlocks profile first sentSize blocks list k

/-- The walk of `UpdateLostCount` from the highest sacked node down to the
second item: the number of sacked items visited, the items with those that count
as lost marked, and the new `m_lostOut`. -/
def markLost (dupAckThresh node : Nat) (lostOut : Nat) :
    PacketList → Option (Nat × PacketList × Nat)
  | [] => none
  | item :: rest => do
      let (sacked, rest, lostOut) ← (if item.node = node then some (0, rest, lostOut)
        else markLost dupAckThresh node lostOut rest)
      let sacked := if item.sacked then sacked + 1 else sacked
      if dupAckThresh ≤ sacked && !item.sacked && !item.lost then
        return (sacked, { item with lost := true } :: rest, UInt32.add lostOut item.size)
      else
        return (sacked, item :: rest, lostOut)

/-- `UpdateLostCount`: an item with enough sacked items above it is lost. -/
def updateLostCount (b : TcpTxBuffer) : Option TcpTxBuffer :=
  match b.highestSack.1, b.sentList with
  | some node, head :: tail => do
      let (sacked, tail, lostOut) ← (if head.node = node then some (0, tail, b.lostOut)
        else markLost b.dupAckThresh node b.lostOut tail)
      if b.dupAckThresh ≤ sacked && !head.lost then
        return { b with
          sentList := { head with lost := true } :: tail
          lostOut := UInt32.add lostOut head.size }
      else
        return { b with sentList := head :: tail, lostOut }
  | _, _ => none

/-- `Update`: mark what the blocks of a SACK option cover. The result is the
number of bytes newly marked. -/
def update (profile : BuildProfile) (b : TcpTxBuffer) (list : SackList) :
    Option (Nat × TcpTxBuffer) := do
  let (sentList, k, goesOn) ← sackBlocks profile b.firstByteSeq b.sentSize list b.sentList
    { lostOut := b.lostOut, sackedOut := b.sackedOut, bytesSacked := 0,
      highestSack := b.highestSack }
  let b := { b with
    sentList, lostOut := k.lostOut, sackedOut := k.sackedOut, highestSack := k.highestSack }
  if !goesOn then
    return (k.bytesSacked, b)
  let b ← (if 0 < k.bytesSacked then do
      nsAssert profile b.highestSack.1.isSome
      b.updateLostCount
    else some b)
  nsAssert profile (b.sentList.head?.any fun head => !head.sacked)
  nsAssert profile (UInt32.add b.sackedOut b.lostOut ≤ b.sentSize)
  return (k.bytesSacked, b)

/-- `SetSentListLost`. -/
def setSentListLost (profile : BuildProfile) (b : TcpTxBuffer) (resetSack : Bool) :
    Option TcpTxBuffer := do
  let b := if resetSack then
      { b with
        retrans := 0
        sackedOut := 0
        lostOut := b.sentSize
        highestSack := (none, .ofNat 0)
        sentList := b.sentList.map fun item =>
          { item with sacked := false, lost := true, retrans := false } }
    else
      { b with
        retrans := 0
        lostOut := b.sentList.foldl (fun lostOut item =>
          if item.lost || !item.sacked then UInt32.add lostOut item.size else lostOut) 0
        sentList := b.sentList.map fun item =>
          { item with lost := item.lost || !item.sacked, retrans := false } }
  nsAssert profile (UInt32.add b.sackedOut b.lostOut ≤ b.sentSize)
  return b

def resetSentList (b : TcpTxBuffer) : TcpTxBuffer :=
  { b with
    appList := b.sentList.map (fun item =>
      { item with retrans := false, sacked := false, lost := false }) ++ b.appList
    sentList := []
    sentSize := 0
    lostOut := 0
    retrans := 0
    sackedOut := 0
    highestSack := (none, .ofNat 0) }

/-- `ResetLastSegmentSent`: the last segment goes back, in a new node, to the
front of the application list, with its flags. -/
def resetLastSegmentSent (b : TcpTxBuffer) : TcpTxBuffer :=
  match b.sentList.getLast? with
  | none => b
  | some item =>
    { b with
      sentList := b.sentList.dropLast
      sentSize := UInt32.sub b.sentSize item.size
      retrans := if item.retrans then UInt32.sub b.retrans item.size else b.retrans
      appList := { item with node := b.nextNode } :: b.appList
      nextNode := b.nextNode + 1 }

end Scoreboard

section Pipe

/-- The walk of `NextSeg`. It ends at a segment that rule (1) allows to send
again, or with the first one that rule (3) allows. The sequence number 0 stands
for "none saved yet", so it is overwritten when it is a real one. -/
def nextSegWalk (isRecovery : Bool) : PacketList → SequenceNumber32 →
    SequenceNumber32 × Bool → SequenceNumber32 ⊕ (SequenceNumber32 × Bool)
  | [], _, seqPerRule3 => .inr seqPerRule3
  | item :: rest, beginOfCurrentPkt, seqPerRule3 =>
    if !item.retrans && !item.sacked then
      if item.lost then .inl beginOfCurrentPkt
      else nextSegWalk isRecovery rest (beginOfCurrentPkt.add item.size)
        (if seqPerRule3.1 == .ofNat 0 && isRecovery then (beginOfCurrentPkt, true)
          else seqPerRule3)
    else nextSegWalk isRecovery rest (beginOfCurrentPkt.add item.size) seqPerRule3

/-- `NextSeg`: the range to send next, by RFC 6675. `rWnd` is what the callback
for the receiver window returns. -/
def nextSeg (b : TcpTxBuffer) (rWnd : Nat) (isRecovery : Bool) :
    Option (SequenceNumber32 × SequenceNumber32) :=
  match nextSegWalk isRecovery b.sentList b.firstByteSeq (.ofNat 0, false) with
  | .inl seq => some (seq, seq.add b.segmentSize)
  | .inr (seqPerRule3, isSeqPerRule3Valid) =>
    let seq := b.firstByteSeq.add b.sentSize
    if 0 < b.sizeFromSequence seq then
      if b.sentSize ≤ rWnd then
        some (seq, seq.add (min b.segmentSize (UInt32.sub rWnd b.sentSize)))
      else none
    else if isSeqPerRule3Valid then some (seqPerRule3, seqPerRule3.add b.segmentSize)
    else none

/-- `BytesInFlight`. -/
def bytesInFlight (profile : BuildProfile) (b : TcpTxBuffer) : Option Nat := do
  nsAssert profile (UInt32.add b.sackedOut b.lostOut ≤ b.sentSize)
  let leftOut := UInt32.add b.sackedOut b.lostOut
  return UInt32.add (UInt32.sub b.sentSize leftOut) b.retrans

/-- The walk of `IsLostRFC` from the segment in question on. -/
def isLostRFCWalk (b : TcpTxBuffer) : PacketList → SequenceNumber32 → Nat → Nat → Bool
  | [], _, _, _ => false
  | item :: rest, beginOfCurrentPacket, count, bytes =>
    let count := if item.sacked then count + 1 else count
    let bytes := if item.sacked then UInt32.add bytes item.size else bytes
    if item.sacked && (decide (b.dupAckThresh ≤ count) ||
        decide (UInt32.sub b.dupAckThresh 1 * b.segmentSize % 2 ^ 32 < bytes)) then true
    else if beginOfCurrentPacket.ge b.highestSack.2 then item.lost && !item.retrans
    else isLostRFCWalk b rest (beginOfCurrentPacket.add item.size) count bytes

/-- `IsLostRFC`, for the segment at the front of `segment`. -/
def isLostRFC (b : TcpTxBuffer) (seq : SequenceNumber32) (segment : PacketList) : Bool :=
  match segment with
  | [] => false
  | item :: _ => !item.sacked && isLostRFCWalk b segment seq 0 0

/-- The counts that `BytesInFlightRFC` derives from the sent list. -/
structure RFCCounts where
  size : Nat := 0
  sackedOut : Nat := 0
  lostOut : Nat := 0
  retrans : Nat := 0
  totalSize : Nat := 0

def countRFC (b : TcpTxBuffer) : PacketList → SequenceNumber32 → RFCCounts → RFCCounts
  | [], _, c => c
  | item :: rest, beginOfCurrentPkt, c =>
    let isLost := b.isLostRFC beginOfCurrentPkt (item :: rest)
    let inFlight := !item.sacked && (!isLost || item.retrans)
    countRFC b rest (beginOfCurrentPkt.add item.size) {
      size := if inFlight then UInt32.add c.size item.size else c.size
      sackedOut := if item.sacked then UInt32.add c.sackedOut item.size else c.sackedOut
      lostOut := if !item.sacked && isLost then UInt32.add c.lostOut item.size else c.lostOut
      retrans := if item.retrans then UInt32.add c.retrans item.size else c.retrans
      totalSize := UInt32.add c.totalSize item.size }

/-- `BytesInFlightRFC`. -/
def bytesInFlightRFC (profile : BuildProfile) (b : TcpTxBuffer) : Option Nat := do
  let c := b.countRFC b.sentList b.firstByteSeq {}
  nsAssert profile (c.lostOut == b.lostOut)
  nsAssert profile (c.retrans == b.retrans)
  nsAssert profile (c.sackedOut == b.sackedOut)
  nsAssert profile (c.totalSize == b.sentSize)
  return c.size

end Pipe

/-- The calls that change a buffer. One that sends carries the simulation time. -/
inductive Call where
  | add (p : Packet)
  | copyFromSequence (now : Int) (numBytes : Nat) (seq : SequenceNumber32)
  | update (list : SackList)
  | discardUpTo (now : Int) (seq : SequenceNumber32)
  | addRenoSack
  | resetRenoSack
  | markHeadAsLost
  | deleteRetransmittedFlagFromHead
  | setSentListLost (resetSack : Bool)
  | resetSentList
  | resetLastSegmentSent
  deriving DecidableEq

/-- The buffer that a call leaves, when the call returns. -/
def call (profile : BuildProfile) (b : TcpTxBuffer) : Call → Option TcpTxBuffer
  | .add p => some (b.add p).2
  | .copyFromSequence now numBytes seq => (b.copyFromSequence profile now numBytes seq).map Prod.snd
  | .update list => (b.update profile list).map Prod.snd
  | .discardUpTo now seq => b.discardUpTo profile now seq
  | .addRenoSack => b.addRenoSack profile
  | .resetRenoSack => some b.resetRenoSack
  | .markHeadAsLost => some b.markHeadAsLost
  | .deleteRetransmittedFlagFromHead => b.deleteRetransmittedFlagFromHead
  | .setSentListLost resetSack => b.setSentListLost profile resetSack
  | .resetSentList => some b.resetSentList
  | .resetLastSegmentSent => some b.resetLastSegmentSent

end TcpTxBuffer

end Ns3

/-!
## Queries of the transmit buffer

The questions a socket asks about the scoreboard besides `NextSeg` and
`BytesInFlight`. None of them changes the buffer.
-/

namespace Ns3.TcpTxBuffer

/-- The walk of `IsLost` over the sent list. -/
def isLostWalk (seq : SequenceNumber32) : PacketList → SequenceNumber32 → Bool
  | [], _ => false
  | item :: rest, beginOfCurrentPacket =>
    if beginOfCurrentPacket.ge seq then
      if item.lost then true
      else if item.sacked then false
      else isLostWalk seq rest (beginOfCurrentPacket.add item.size)
    else isLostWalk seq rest (beginOfCurrentPacket.add item.size)

/-- `IsLost`. -/
def isLost (b : TcpTxBuffer) (seq : SequenceNumber32) : Bool :=
  if seq.ge b.highestSack.2 then false else isLostWalk seq b.sentList b.firstByteSeq

/-- `IsRetransmittedDataAcked`: a segment that ends at `ack` was sent again. -/
def isRetransmittedDataAcked (b : TcpTxBuffer) (ack : SequenceNumber32) : Bool :=
  b.sentList.any fun item => item.startSeq.add item.size == ack && !item.sacked && item.retrans

/-- `IsHeadRetransmitted`. -/
def isHeadRetransmitted (b : TcpTxBuffer) : Option Bool :=
  if b.sentSize = 0 then some false else b.sentList.head?.map TcpTxItem.retrans

/-- `GetLost`. -/
def getLost (b : TcpTxBuffer) : Nat := b.lostOut

end Ns3.TcpTxBuffer
