import Ns3.Internet.TcpOption.Basic
import Ns3.Library.OrderedList

/-!
# The receive buffer

`TcpRxBuffer` stores out-of-order segments in a map from sequence numbers to
packets and delivers the bytes below `m_nextRxSeq`. `add` trims an arriving
segment against the window and against what is already stored; `extract` takes
bytes from the front of the map.
-/

namespace Ns3

/-- The fields of `TcpRxBuffer`. `data` lists the entries of `m_data` in the
iteration order of the map. -/
structure TcpRxBuffer where
  sackList : SackList := []
  nextRxSeq : SequenceNumber32
  finSeq : SequenceNumber32 := .ofNat 0
  gotFin : Bool := false
  size : Nat := 0
  maxBuffer : Nat := 32768
  availBytes : Nat := 0
  data : List (SequenceNumber32 × Packet) := []
  deriving DecidableEq

namespace TcpRxBuffer

/-- The constructor, with the initial value of `m_nextRxSeq`. -/
def new (n : Nat) : TcpRxBuffer := { nextRxSeq := .ofNat n }

/-- Return the lowest sequence number that this buffer cannot accept. -/
def maxRxSequence (b : TcpRxBuffer) : SequenceNumber32 :=
  if b.gotFin then b.finSeq
  else match b.data with
    | (first, _) :: _ =>
      if b.nextRxSeq.gt first then first.add b.maxBuffer else b.nextRxSeq.add b.maxBuffer
    | [] => b.nextRxSeq.add b.maxBuffer

def setFinSequence (b : TcpRxBuffer) (s : SequenceNumber32) : TcpRxBuffer :=
  { b with
    gotFin := true
    finSeq := s
    nextRxSeq := if b.nextRxSeq = s then b.nextRxSeq.add 1 else b.nextRxSeq }

def finished (b : TcpRxBuffer) : Bool := b.gotFin && b.finSeq.lt b.nextRxSeq

/-- Look for the first block that touches `first` on either side. On success
the result is the merged block and the list without the block found. -/
def findMerge (profile : BuildProfile) (first : SackBlock) :
    SackList → Option (Option (SackBlock × SackList))
  | [] => some none
  | current :: rest =>
    if first.1 = current.2 then do
      nsAssert profile (current.1.lt first.2)
      return some ((current.1, first.2), rest)
    else if first.2 = current.1 then do
      nsAssert profile (first.1.lt current.2)
      return some ((first.1, current.2), rest)
    else do
      let found ← findMerge profile first rest
      return found.map fun (merged, others) => (merged, current :: others)

/-- The loop of `UpdateSackList`: a merged block becomes the front of the list
and the scan starts again behind it. Every merge shortens the list, so its
length bounds the number of scans. -/
def mergeBlocks (profile : BuildProfile) : Nat → SackBlock → SackList → Option SackList
  | 0, first, rest => some (first :: rest)
  | scans + 1, first, rest => do
      match ← findMerge profile first rest with
      | none => return first :: rest
      | some (merged, others) => mergeBlocks profile scans merged others

/-- Report the block `[head, tail)`, merged with the blocks it touches, first. -/
def updateSackList (profile : BuildProfile) (b : TcpRxBuffer) (head tail : SequenceNumber32) :
    Option TcpRxBuffer := do
  nsAssert profile (head.gt b.nextRxSeq)
  let blocks ← mergeBlocks profile b.sackList.length (head, tail) b.sackList
  return { b with sackList := if 4 < blocks.length then blocks.dropLast else blocks }

/-- Drop the blocks that end at or below `seq`. -/
def clearSackList (profile : BuildProfile) (seq : SequenceNumber32) : SackList → Option SackList
  | [] => some []
  | block :: rest => do
      nsAssert profile (block.1.lt block.2)
      let others ← clearSackList profile seq rest
      return if block.2.le seq then others else block :: others

/-- What the overlap loop of `Add` works on: the part of the segment not yet
known to be stored, and the occupancy. -/
structure Overlap where
  headSeq : SequenceNumber32
  tailSeq : SequenceNumber32
  size : Nat
  deriving DecidableEq

/-- Remove overlapped bytes from the segment, walking the map from its start.
The first component is the map that remains. -/
def removeOverlap : List (SequenceNumber32 × Packet) → Overlap →
    List (SequenceNumber32 × Packet) × Overlap
  | [], o => ([], o)
  | (first, p) :: rest, o =>
    if first.le o.tailSeq then
      let lastByteSeq := first.add p.length
      if lastByteSeq.gt o.headSeq then
        if first.gt o.headSeq && lastByteSeq.lt o.tailSeq then
          -- Rare case: the stored packet is embedded fully in the new one.
          removeOverlap rest { o with size := UInt32.sub o.size p.length }
        else
          let headSeq := if first.le o.headSeq then lastByteSeq else o.headSeq
          let tailSeq := if lastByteSeq.ge o.tailSeq then first else o.tailSeq
          let (rest, o) := removeOverlap rest { o with headSeq, tailSeq }
          ((first, p) :: rest, o)
      else
        let (rest, o) := removeOverlap rest o
        ((first, p) :: rest, o)
    else ((first, p) :: rest, o)

/-- Trim the segment `[headSeq, tailSeq)` to the window. Only a non-empty
buffer limits the tail. -/
def trimToWindow (b : TcpRxBuffer) (headSeq tailSeq : SequenceNumber32) :
    SequenceNumber32 × SequenceNumber32 :=
  let headSeq := if headSeq.lt b.nextRxSeq then b.nextRxSeq else headSeq
  match b.data with
  | [] => (headSeq, tailSeq)
  | (first, _) :: _ =>
    let maxSeq := first.add b.maxBuffer
    let tailSeq := if maxSeq.lt tailSeq then maxSeq else tailSeq
    let headSeq := if tailSeq.lt headSeq then tailSeq else headSeq
    (headSeq, tailSeq)

/-- Advance `m_nextRxSeq` over the stored packets that are now in sequence. -/
def advance (profile : BuildProfile) : List (SequenceNumber32 × Packet) → TcpRxBuffer →
    Option TcpRxBuffer
  | [], b => some b
  | (first, p) :: rest, b =>
    if first.lt b.nextRxSeq then advance profile rest b
    else if first.gt b.nextRxSeq then some b
    else do
      let nextRxSeq := first.add p.length
      let sackList ← clearSackList profile nextRxSeq b.sackList
      advance profile rest
        { b with nextRxSeq, availBytes := UInt32.add b.availBytes p.length, sackList }

/-- The end of `Add`: cut the piece `[headSeq, tailSeq)` out of the segment `p`
and insert it. -/
def store (profile : BuildProfile) (b : TcpRxBuffer) (p : Packet)
    (seq headSeq tailSeq : SequenceNumber32) : Option TcpRxBuffer := do
  let length := (tailSeq.sub headSeq).toNat
  let piece ← p.createFragment profile (headSeq.sub seq).toNat length
  nsAssert profile (length = piece.length)
  nsAssert profile (!OrderedList.contains SequenceNumber.lt headSeq b.data)
  let b := { b with data := OrderedList.set SequenceNumber.lt headSeq piece b.data }
  let b ← (if headSeq.gt b.nextRxSeq then b.updateSackList profile headSeq tailSeq else some b)
  let b := { b with size := UInt32.add b.size piece.length }
  let b ← advance profile b.data b
  -- Account for the FIN packet.
  let nextRxSeq := if b.gotFin && b.nextRxSeq == b.finSeq then b.nextRxSeq.add 1 else b.nextRxSeq
  return { b with nextRxSeq }

/-- `Add`: store the bytes of the segment `p`, which starts at sequence number
`seq`, that are inside the window and not stored yet. -/
def add (profile : BuildProfile) (b : TcpRxBuffer) (p : Packet) (seq : SequenceNumber32) :
    Option (Bool × TcpRxBuffer) :=
  let trimmed := b.trimToWindow seq (seq.add p.length)
  let (data, o) := removeOverlap b.data
    { headSeq := trimmed.1, tailSeq := trimmed.2, size := b.size }
  let b := { b with data, size := o.size }
  if o.headSeq.ge o.tailSeq then some (false, b)
  else do
    let b ← b.store profile p seq o.headSeq o.tailSeq
    return (true, b)

/-- The loop of `Extract`: take whole packets from the front of the map while
they fit, then a part of the next one. Taking from an empty map is undefined. -/
def extractLoop (profile : BuildProfile) : List (SequenceNumber32 × Packet) → TcpRxBuffer →
    Nat → Packet → Option (TcpRxBuffer × Packet)
  | data, b, 0, outPkt => some ({ b with data }, outPkt)
  | [], _, _ + 1, _ => none
  | (first, p) :: rest, b, extractSize + 1, outPkt => do
      nsAssert profile (first.le b.nextRxSeq)
      if p.length ≤ extractSize + 1 then
        let b := { b with
          size := UInt32.sub b.size p.length
          availBytes := UInt32.sub b.availBytes p.length }
        extractLoop profile rest b (extractSize + 1 - p.length) (outPkt.addAtEnd p)
      else
        let head ← p.createFragment profile 0 (extractSize + 1)
        let tail ← p.createFragment profile (extractSize + 1) (p.length - (extractSize + 1))
        let data := OrderedList.erase first
          (OrderedList.set SequenceNumber.lt (first.add (extractSize + 1)) tail
            ((first, p) :: rest))
        let b := { b with
          size := UInt32.sub b.size (extractSize + 1)
          availBytes := UInt32.sub b.availBytes (extractSize + 1) }
        return ({ b with data }, outPkt.addAtEnd head)

/-- `Extract`: at most `maxSize` in-sequence bytes. A null packet is `none`. -/
def extract (profile : BuildProfile) (b : TcpRxBuffer) (maxSize : Nat) :
    Option (TcpRxBuffer × Option Packet) := do
  let extractSize := min maxSize b.availBytes
  if extractSize = 0 then
    return (b, none)
  nsAssert profile (!b.data.isEmpty)
  let (b, outPkt) ← extractLoop profile b.data b extractSize []
  return (b, if outPkt.length = 0 then none else some outPkt)

end TcpRxBuffer

end Ns3
