import Ns3.Network.Packet
import Ns3.Network.SequenceNumber

/-!
# TCP options

One constructor for each class derived from `TcpOption`, with the data the class
stores. The values of `TcpOption::Kind` are numbers, since a received header may
carry any byte in their place.
-/

namespace Ns3

/-- `TcpOptionSack::SackBlock`: left and right edge. -/
abbrev SackBlock := SequenceNumber32 × SequenceNumber32

/-- `TcpOptionSack::SackList`. -/
abbrev SackList := List SackBlock

namespace TcpOption

/-! The values of `TcpOption::Kind`. -/

def END : Byte := 0
def NOP : Byte := 1
def MSS : Byte := 2
def WINSCALE : Byte := 3
def SACKPERMITTED : Byte := 4
def SACK : Byte := 5
def TS : Byte := 8
def CWND : Byte := 16

/-- `TcpOption::IsKindKnown`. -/
def isKindKnown (kind : Byte) : Bool :=
  kind ∈ [END, NOP, MSS, WINSCALE, SACKPERMITTED, SACK, TS, CWND]

end TcpOption

/-- `TcpOptionUnknown`, which is only made for a kind that is not known. -/
structure TcpOptionUnknown where
  kind : Byte
  size : Nat
  content : List Byte
  not_known : TcpOption.isKindKnown kind = false
  deriving DecidableEq

/-- An option with its data. -/
inductive TcpOption where
  | «end»
  | nop
  | mss (mss : BitVec 16)
  | winScale (scale : Byte)
  | sackPermitted
  | sack (sackList : SackList)
  | ts (timestamp echo : BitVec 32)
  | cwnd (cwnd : BitVec 32)
  | unknown (option : TcpOptionUnknown)
  deriving DecidableEq

namespace TcpOption

/-- `GetKind` of each class. -/
def getKind : TcpOption → Byte
  | .«end» => END
  | .nop => NOP
  | .mss _ => MSS
  | .winScale _ => WINSCALE
  | .sackPermitted => SACKPERMITTED
  | .sack _ => SACK
  | .ts _ _ => TS
  | .cwnd _ => CWND
  | .unknown option => option.kind

/-- `GetSerializedSize` of each class, a `uint32_t`. -/
def getSerializedSize : TcpOption → Nat
  | .«end» => 1
  | .nop => 1
  | .mss _ => 4
  | .winScale _ => 3
  | .sackPermitted => 2
  | .sack sackList => UInt32.add 2 (sackList.length * 8)
  | .ts _ _ => 10
  | .cwnd _ => 6
  | .unknown option => option.size

theorem getKind_unknown_ne (option : TcpOptionUnknown) {kind : Byte}
    (known : isKindKnown kind = true) : (unknown option).getKind ≠ kind := by
  intro same
  have notKnown := option.not_known
  rw [show option.kind = kind from same, known] at notKnown
  exact Bool.noConfusion notKnown

theorem eq_winScale {o : TcpOption} (h : o.getKind = WINSCALE) : ∃ scale, o = .winScale scale := by
  cases o with
  | winScale scale => exact ⟨scale, rfl⟩
  | unknown option => exact absurd h (getKind_unknown_ne option (by decide))
  | _ => simp [getKind, END, NOP, MSS, WINSCALE, SACKPERMITTED, SACK, TS, CWND] at h

theorem eq_cwnd {o : TcpOption} (h : o.getKind = CWND) : ∃ value, o = .cwnd value := by
  cases o with
  | cwnd value => exact ⟨value, rfl⟩
  | unknown option => exact absurd h (getKind_unknown_ne option (by decide))
  | _ => simp [getKind, END, NOP, MSS, WINSCALE, SACKPERMITTED, SACK, TS, CWND] at h

end TcpOption

end Ns3
