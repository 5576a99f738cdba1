import Ns3.Core.Assert
import Ns3.Network.Packet
import Mathlib.Logic.Function.Basic

/-!
# The middle of the MAC receive path

`MacRxMiddle` drops duplicates and puts fragments together. For each originator, for QoS
data for each originator and TID, it keeps the last sequence control it took and the
fragments of one MSDU.
-/

namespace Ns3

/-- `Mac48Address`, the first byte the most significant one. -/
abbrev Mac48Address := BitVec 48

/-- `Mac48Address::IsGroup`. -/
def Mac48Address.isGroup (a : Mac48Address) : Bool := a.getLsbD 40

/-- The types of frames that the receive path tells apart. -/
inductive WifiMacType where
  | mgt
  | ctl
  | data
  | qosData (tid : Nat)
  deriving DecidableEq

/-- The members of `WifiMacHeader` that `MacRxMiddle` reads. -/
structure WifiMacHeader where
  type : WifiMacType
  addr1 : Mac48Address
  addr2 : Mac48Address
  sequenceNumber : Nat
  fragmentNumber : Nat
  retry : Bool
  moreFragments : Bool
  deriving DecidableEq

namespace WifiMacHeader

/-- `GetSequenceControl`: 12 bits of sequence number over 4 bits of fragment number. -/
def sequenceControl (hdr : WifiMacHeader) : Nat := hdr.sequenceNumber * 16 + hdr.fragmentNumber

/-- `IsData () || IsMgt ()`. -/
def isDataOrMgt (hdr : WifiMacHeader) : Bool := hdr.type != .ctl

end WifiMacHeader

/-- `OriginatorRxStatus`. -/
structure OriginatorRxStatus where
  defragmenting : Bool := false
  lastSequenceControl : Nat := 0xffff
  fragments : List Packet := []
  deriving DecidableEq

namespace OriginatorRxStatus

variable (profile : BuildProfile)

/-- `AccumulateFirstFragment`. -/
def accumulateFirstFragment (packet : Packet) (o : OriginatorRxStatus) :
    Option OriginatorRxStatus := do
  nsAssert profile (!o.defragmenting)
  return { o with defragmenting := true, fragments := o.fragments ++ [packet] }

/-- `AccumulateLastFragment`: the packet put together. -/
def accumulateLastFragment (packet : Packet) (o : OriginatorRxStatus) :
    Option (Packet × OriginatorRxStatus) := do
  nsAssert profile o.defragmenting
  return ((o.fragments ++ [packet]).flatten, { o with defragmenting := false, fragments := [] })

/-- `AccumulateFragment`. -/
def accumulateFragment (packet : Packet) (o : OriginatorRxStatus) : Option OriginatorRxStatus := do
  nsAssert profile o.defragmenting
  return { o with fragments := o.fragments ++ [packet] }

/-- `IsNextFragment`. -/
def isNextFragment (sequenceControl : Nat) (o : OriginatorRxStatus) : Bool :=
  sequenceControl / 16 == o.lastSequenceControl / 16 &&
    sequenceControl % 16 == o.lastSequenceControl % 16 + 1

/-- `SetSequenceControl`. -/
def setSequenceControl (sequenceControl : Nat) (o : OriginatorRxStatus) : OriginatorRxStatus :=
  { o with lastSequenceControl := sequenceControl }

end OriginatorRxStatus

/-- The key under which `Lookup` finds the status of an originator: of
`m_originatorStatus`, or of `m_qosOriginatorStatus`. -/
inductive OriginatorKey where
  | originator (source : Mac48Address)
  | qosOriginator (source : Mac48Address) (tid : Nat)
  deriving DecidableEq

/-- The choice of `Lookup`. -/
def WifiMacHeader.key (hdr : WifiMacHeader) : OriginatorKey :=
  match hdr.type with
  | .qosData tid =>
    if hdr.addr2.isGroup then .originator hdr.addr2 else .qosOriginator hdr.addr2 tid
  | _ => .originator hdr.addr2

/-- A packet with its MAC header. -/
abbrev WifiMpdu := WifiMacHeader × Packet

/-- `MacRxMiddle`. Entries of the two maps are created with the default status; what
`m_callback` is given is kept in `forwarded`, the oldest first. -/
structure MacRxMiddle where
  status : OriginatorKey → OriginatorRxStatus := fun _ => {}
  forwarded : List WifiMpdu := []

namespace MacRxMiddle

variable (profile : BuildProfile)

/-- `IsDuplicate`. -/
def isDuplicate (hdr : WifiMacHeader) (originator : OriginatorRxStatus) : Bool :=
  hdr.retry && originator.lastSequenceControl == hdr.sequenceControl

/-- `HandleFragments`: the packet to forward, if there is one. -/
def handleFragments (packet : Packet) (hdr : WifiMacHeader) (originator : OriginatorRxStatus) :
    Option (Option Packet × OriginatorRxStatus) :=
  if originator.defragmenting then
    if hdr.moreFragments then
      if originator.isNextFragment hdr.sequenceControl then do
        let originator ← originator.accumulateFragment profile packet
        return (none, originator.setSequenceControl hdr.sequenceControl)
      else some (none, originator)
    else
      if originator.isNextFragment hdr.sequenceControl then do
        let (p, originator) ← originator.accumulateLastFragment profile packet
        return (some p, originator.setSequenceControl hdr.sequenceControl)
      else some (none, originator)
  else
    if hdr.moreFragments then do
      let originator ← originator.accumulateFirstFragment profile packet
      return (none, originator.setSequenceControl hdr.sequenceControl)
    else some (some packet, originator)

/-- The status of an originator, replaced. -/
def setStatus (key : OriginatorKey) (originator : OriginatorRxStatus) (m : MacRxMiddle) :
    MacRxMiddle :=
  { m with status := Function.update m.status key originator }

/-- `Receive`. -/
def receive (m : MacRxMiddle) (mpdu : WifiMpdu) : Option MacRxMiddle := do
  let hdr := mpdu.1
  nsAssert profile hdr.isDataOrMgt
  let originator := m.status hdr.key
  if isDuplicate hdr originator then some m
  else
    let (aggregate, originator) ← handleFragments profile mpdu.2 hdr originator
    match aggregate with
    | none => some (m.setStatus hdr.key originator)
    | some packet =>
      let originator :=
        if hdr.addr1.isGroup then originator
        else originator.setSequenceControl hdr.sequenceControl
      let m := m.setStatus hdr.key originator
      some { m with forwarded := m.forwarded ++ [(hdr, packet)] }

end MacRxMiddle

end Ns3
