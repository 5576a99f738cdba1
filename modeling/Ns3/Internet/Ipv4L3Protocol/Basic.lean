import Ns3.Network.Packet
import Mathlib.Logic.Function.Basic

/-!
# Fragmentation and reassembly in IPv4

A router sends a packet that is larger than the MTU of its link as fragments, and a
fragment that is larger than the MTU of a later link as smaller ones. The destination
collects the fragments of a datagram under its source, destination, identification and
protocol.
-/

namespace Ns3

/-- A value converted to `uint16_t`. -/
def uint16 (n : Nat) : Nat := n % 2 ^ 16

theorem uint16_of_lt {n : Nat} (h : n < 2 ^ 16) : uint16 n = n := Nat.mod_eq_of_lt h

/-- The members of `Ipv4Header` that a path without options keeps or fragmentation changes. -/
structure Ipv4Header where
  source : BitVec 32
  destination : BitVec 32
  identification : BitVec 16
  protocol : BitVec 8
  payloadSize : Nat
  dontFragment : Bool
  moreFragments : Bool
  fragmentOffset : Nat
  deriving DecidableEq

/-- `FragmentKey_t`. -/
abbrev FragmentKey := Nat × Nat

namespace Ipv4Header

/-- The key under which `ProcessFragment` collects fragments. -/
def key (h : Ipv4Header) : FragmentKey :=
  (h.source.toNat <<< 32 ||| h.destination.toNat,
    h.identification.toNat <<< 16 ||| h.protocol.toNat)

/-- `GetSerializedSize`. -/
def serializedSize (_ : Ipv4Header) : Nat := 5 * 4

/-- `IsLastFragment`. -/
def isLastFragment (h : Ipv4Header) : Bool := !h.moreFragments

/-- `SetFragmentOffset`. -/
def setFragmentOffset (h : Ipv4Header) (offsetBytes : Nat) : Option Ipv4Header := do
  nsAbortIf (offsetBytes &&& 0x7 != 0)
  return { h with fragmentOffset := offsetBytes }

/-- The size, the flags with the high bits of the offset, and the low bits of the offset, as
`Serialize` writes them. -/
structure FragmentField where
  size : Nat
  flagsFrag : Nat
  frag : Nat
  deriving DecidableEq

/-- `Serialize`. -/
def serialize (h : Ipv4Header) : FragmentField :=
  let fragmentOffset := h.fragmentOffset / 8
  let flagsFrag := fragmentOffset >>> 8 &&& 0x1f
  let flagsFrag := if h.dontFragment then flagsFrag ||| 1 <<< 6 else flagsFrag
  let flagsFrag := if h.moreFragments then flagsFrag ||| 1 <<< 5 else flagsFrag
  { size := uint16 (h.payloadSize + 5 * 4), flagsFrag, frag := fragmentOffset &&& 0xff }

/-- `Deserialize`, for the other members of the header that was serialized. -/
def deserialize (h : Ipv4Header) (field : FragmentField) : Ipv4Header :=
  { h with
    payloadSize := uint16 (field.size + 2 ^ 16 - 5 * 4)
    dontFragment := field.flagsFrag &&& 1 <<< 6 != 0
    moreFragments := field.flagsFrag &&& 1 <<< 5 != 0
    fragmentOffset := uint16 (((field.flagsFrag &&& 0x1f) <<< 8 ||| field.frag) <<< 3) }

/-- The header on the other side of a link. -/
def transmit (h : Ipv4Header) : Ipv4Header := h.deserialize h.serialize

end Ipv4Header

/-- `Ipv4PayloadHeaderPair`. -/
structure Fragment where
  packet : Packet
  header : Ipv4Header
  deriving DecidableEq

namespace Ipv4L3Protocol

variable (profile : BuildProfile)

/-! ## `DoFragmentation` -/

/-- The loop over the fragments of a packet. The first number bounds the rounds. -/
def fragmentFrom (p : Packet) (header : Ipv4Header) (fragmentSize : Nat) :
    Nat → Nat → Option (List Fragment)
  | 0, _ => none
  | rounds + 1, offset =>
    if p.length > UInt32.add offset fragmentSize then do
      let fragmentHeader := { header with moreFragments := true }
      let fragment ← p.createFragment profile offset fragmentSize
      let fragmentHeader ← fragmentHeader.setFragmentOffset
        (uint16 (offset + header.fragmentOffset))
      let fragmentHeader := { fragmentHeader with payloadSize := uint16 fragmentSize }
      let rest ← fragmentFrom p header fragmentSize rounds (uint16 (offset + fragmentSize))
      return ⟨fragment, fragmentHeader⟩ :: rest
    else do
      let size := UInt32.sub p.length offset
      let fragmentHeader := { header with moreFragments := !header.isLastFragment }
      let fragment ← p.createFragment profile offset size
      let fragmentHeader ← fragmentHeader.setFragmentOffset
        (uint16 (offset + header.fragmentOffset))
      return [⟨fragment, { fragmentHeader with payloadSize := uint16 size }⟩]

/-- `DoFragmentation`. -/
def doFragmentation (packet : Packet) (header : Ipv4Header) (outIfaceMtu : Nat) :
    Option (List Fragment) := do
  nsAssert profile (header.serializedSize = 5 * 4)
  let fragmentSize := UInt32.sub outIfaceMtu header.serializedSize &&& UInt32.sub (2 ^ 32 - 1) 0x7
  fragmentFrom profile packet header fragmentSize (packet.length + 1) 0

/-- `SendRealOut`, for an interface that is up: what is sent over the link. -/
def sendRealOut (mtu : Nat) (packet : Packet) (header : Ipv4Header) : Option (List Fragment) :=
  if packet.length + header.serializedSize > mtu then doFragmentation profile packet header mtu
  else some [⟨packet, header⟩]

/-- What arrives over one link. -/
def cross (mtu : Nat) : List Fragment → Option (List Fragment)
  | [] => some []
  | x :: rest => do
      let sent ← sendRealOut profile mtu x.packet x.header
      let others ← cross mtu rest
      return sent.map (fun y => ⟨y.packet, y.header.transmit⟩) ++ others

/-- What arrives at the end of a path, whose links have these MTUs. -/
def route : List Nat → List Fragment → Option (List Fragment)
  | [], fragments => some fragments
  | mtu :: mtus, fragments => do route mtus (← cross profile mtu fragments)

/-! ## `Fragments` -/

/-- `Fragments`: the packets in the order of their offsets. -/
structure Fragments where
  fragments : List (Packet × Nat) := []
  moreFragment : Bool := false
  deriving DecidableEq

namespace Fragments

/-- `AddFragment`. -/
def addFragment (f : Fragments) (fragment : Packet) (fragmentOffset : Nat) (moreFragment : Bool) :
    Fragments :=
  let before := f.fragments.takeWhile fun it => it.2 ≤ fragmentOffset
  let it := f.fragments.dropWhile fun it => it.2 ≤ fragmentOffset
  { fragments := before ++ (fragment, fragmentOffset) :: it
    moreFragment := if it = [] then moreFragment else f.moreFragment }

/-- The loop of `IsEntire`. -/
def entireFrom : Nat → List (Packet × Nat) → Bool
  | _, [] => true
  | lastEndOffset, it :: rest =>
    if lastEndOffset < it.2 then false
    else entireFrom (max lastEndOffset (uint16 (it.1.length + it.2))) rest

/-- `IsEntire`. -/
def isEntire (f : Fragments) : Bool :=
  !f.moreFragment && !f.fragments.isEmpty && entireFrom 0 f.fragments

/-- The loop of `GetPacket`. -/
def appendFrom : Packet → List (Packet × Nat) → Option Packet
  | p, [] => some p
  | p, it :: rest =>
    let lastEndOffset := uint16 p.length
    if lastEndOffset > it.2 then
      let newStart := lastEndOffset - it.2
      if it.1.length > newStart then do
        let tempFragment ← it.1.createFragment profile newStart (it.1.length - newStart)
        appendFrom (p.addAtEnd tempFragment) rest
      else appendFrom p rest
    else appendFrom (p.addAtEnd it.1) rest

/-- `GetPacket`. -/
def getPacket (f : Fragments) : Option Packet :=
  match f.fragments with
  | [] => none
  | it :: rest => appendFrom profile it.1 rest

end Fragments

/-! ## `ProcessFragment` -/

/-- `m_fragments`. -/
abbrev MapFragments := FragmentKey → Option Fragments

/-- `ProcessFragment`: the packet, if it returns true. -/
def processFragment (w : MapFragments) (packet : Packet) (header : Ipv4Header) :
    Option (Option Packet × MapFragments) :=
  let key := header.key
  let fragments := (w key).getD {}
  let fragments := fragments.addFragment packet header.fragmentOffset (!header.isLastFragment)
  if fragments.isEntire then do
    let packet ← fragments.getPacket profile
    return (some packet, Function.update w key none)
  else some (none, Function.update w key (some fragments))

/-- What `ProcessFragment` returns for fragments one after the other. -/
def processAll : MapFragments → List Fragment → Option (List (Option Packet) × MapFragments)
  | w, [] => some ([], w)
  | w, x :: rest => do
      let (out, w) ← processFragment profile w x.packet x.header
      let (outs, w) ← processAll w rest
      return (out :: outs, w)

end Ipv4L3Protocol

end Ns3
