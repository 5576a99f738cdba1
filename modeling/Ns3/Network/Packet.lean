import Ns3.Core.Assert
import Mathlib.Data.List.TakeDrop

/-!
# Packets as payloads

The buffers below TCP only look at a packet's bytes, so a packet is the list of
its bytes. Sizes are `uint32_t` and their sums wrap, which is visible when a
fragment is requested beyond the end of the packet.
-/

namespace Ns3

abbrev Byte := BitVec 8

abbrev Packet := List Byte

namespace Packet

/-- `Packet::RemoveAtStart`: more bytes than there are empties the packet. -/
def removeAtStart (p : Packet) (size : Nat) : Packet := p.drop size

/-- `Packet::RemoveAtEnd`: at most all bytes are removed. -/
def removeAtEnd (p : Packet) (size : Nat) : Packet := p.take (p.length - min size p.length)

/-- `Buffer::CreateFragment`: the number of bytes cut off at the end is a
32-bit subtraction from the size of the original buffer. -/
def fragmentBytes (p : Packet) (start length : Nat) : Packet :=
  removeAtEnd (removeAtStart p start) (UInt32.sub p.length (UInt32.add start length))

/-- `Packet::CreateFragment`. -/
def createFragment (profile : BuildProfile) (p : Packet) (start length : Nat) :
    Option Packet := do
  nsAssert profile (UInt32.add start length ≤ p.length)
  return fragmentBytes p start length

/-- `Packet::AddAtEnd`. -/
def addAtEnd (p q : Packet) : Packet := p ++ q

theorem fragmentBytes_of_le {p : Packet} {start length : Nat}
    (h : start + length ≤ p.length) (hp : p.length < 2 ^ 32) :
    fragmentBytes p start length = (p.drop start).take length := by
  unfold fragmentBytes removeAtEnd removeAtStart
  rw [UInt32.add_of_lt (by omega), UInt32.sub_of_le h hp, List.length_drop]
  congr 1
  omega

theorem fragmentBytes_of_length_le {p : Packet} {start : Nat} (h : p.length ≤ start)
    (length : Nat) : fragmentBytes p start length = [] := by
  simp [fragmentBytes, removeAtEnd, removeAtStart, List.drop_eq_nil_of_le h]

theorem createFragment_of_le {profile : BuildProfile} {p : Packet} {start length : Nat}
    (h : start + length ≤ p.length) (hp : p.length < 2 ^ 32) :
    createFragment profile p start length = some ((p.drop start).take length) := by
  have inside : (decide (UInt32.add start length ≤ p.length)) = true := by
    rw [UInt32.add_of_lt (by omega)]
    simpa using h
  simp [createFragment, inside, fragmentBytes_of_le h hp]

end Packet

end Ns3
