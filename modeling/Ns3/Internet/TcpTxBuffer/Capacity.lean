import Ns3.Internet.TcpTxBuffer.Sizes
import Ns3.Library.Run

/-!
# The capacity of the buffer

`Add` takes a packet when `Available` reports room for it. The limit that `Available` starts from
may be set at any time, also below the size of the data that are buffered.
-/

namespace Ns3.TcpTxBuffer

/-- `SetMaxBufferSize`. -/
def setMaxBufferSize (b : TcpTxBuffer) (n : Nat) : TcpTxBuffer := { b with maxBuffer := n }

/-- A call that changes the data, or a new limit for them. -/
inductive LimitCall where
  | call (c : Call)
  | setMaxBufferSize (n : BitVec 32)
  deriving DecidableEq

/-- The buffer that a call leaves, when the call returns. -/
def limitCall (profile : BuildProfile) (b : TcpTxBuffer) : LimitCall → Option TcpTxBuffer
  | .call c => b.call profile c
  | .setMaxBufferSize n => some (b.setMaxBufferSize n.toNat)

/-- The room reported is within the limit, and so are the data after an `Add` that succeeds. -/
def CapacityEnforced (b : TcpTxBuffer) : Prop :=
  b.available ≤ b.maxBuffer ∧
    ∀ p : Packet, (b.add p).1 = true → (b.add p).2.size ≤ (b.add p).2.maxBuffer

/-- A new limit has room for the data that are buffered. -/
def LeavesRoom (b : TcpTxBuffer) : LimitCall → Prop
  | .call _ => True
  | .setMaxBufferSize n => b.size ≤ n.toNat

instance (b : TcpTxBuffer) : (c : LimitCall) → Decidable (b.LeavesRoom c)
  | .call _ => instDecidableTrue
  | .setMaxBufferSize _ => inferInstanceAs (Decidable (_ ≤ _))

section Runs

variable {profile : BuildProfile} {b b' : TcpTxBuffer}

theorem Sized.limitCall {c : LimitCall} (h : Sized b) (room : b.LeavesRoom c)
    (run : b.limitCall profile c = some b') : Sized b' := by
  cases c with
  | call c => exact h.call run
  | setMaxBufferSize n =>
    cases run
    exact { h with room, maxBuffer := n.isLt }

theorem Sized.capacityEnforced (h : Sized b) : CapacityEnforced b := by
  refine ⟨?_, fun p _ => (h.add p).room⟩
  rw [available, UInt32.sub_of_le h.room h.maxBuffer]
  exact Nat.sub_le _ _

theorem CapacityEnforced.size_le {n : BitVec 32} (fits : b.size < 2 ^ 32)
    (enforced : CapacityEnforced (b.setMaxBufferSize n.toNat)) : b.size ≤ n.toNat := by
  have le : UInt32.sub n.toNat b.size ≤ n.toNat := enforced.1
  unfold UInt32.sub at le
  omega

/-- The capacity is enforced in every state of a run if and only if no call of the run sets a
limit below the data that are buffered. -/
theorem capacityEnforced_iff (profile : BuildProfile) (seq : SequenceNumber32)
    (maxBuffer dupAckThresh segmentSize : Nat) (sackEnabled : Bool) (fits : maxBuffer < 2 ^ 32)
    (calls : List LimitCall) :
    Run.Always (limitCall profile) CapacityEnforced
        (start seq maxBuffer dupAckThresh segmentSize sackEnabled) calls ↔
      Run.Meets (limitCall profile) LeavesRoom
        (start seq maxBuffer dupAckThresh segmentSize sackEnabled) calls := by
  have empty : Sized (start seq maxBuffer dupAckThresh segmentSize sackEnabled) :=
    ⟨rfl, rfl, Nat.zero_le _, fits⟩
  refine Run.always_iff_meets empty (fun _ sized => sized.capacityEnforced)
    (fun _ _ _ sized room run => sized.limitCall room run) ?_
  intro b c sized enforced
  cases c with
  | call c => trivial
  | setMaxBufferSize n =>
    exact (enforced _ rfl).size_le (Nat.lt_of_le_of_lt sized.room sized.maxBuffer)

/-- The limit shrinks with the data: three bytes of eight are acknowledged before the buffer is
cut to five, and one more byte leaves before two come. -/
theorem capacityEnforced_shrinking :
    Run.Always (limitCall .debug) CapacityEnforced (start (.ofNat 10) 8 3 4 true)
      [.call (.add [1, 2, 3, 4, 5, 6, 7, 8]), .call (.discardUpTo 1 (.ofNat 13)),
        .setMaxBufferSize 5, .call (.add [9]), .call (.discardUpTo 2 (.ofNat 15)),
        .call (.add [9, 10])] :=
  (capacityEnforced_iff .debug (.ofNat 10) 8 3 4 true (by decide)
    [.call (.add [1, 2, 3, 4, 5, 6, 7, 8]), .call (.discardUpTo 1 (.ofNat 13)),
      .setMaxBufferSize 5, .call (.add [9]), .call (.discardUpTo 2 (.ofNat 15)),
      .call (.add [9, 10])]).mpr (by decide +kernel)

/-- The limit is set to four while five bytes are buffered. The room left is then all but one of
the 32-bit numbers, and the next packet is accepted beyond the limit. -/
theorem capacity_exceeded :
    ∃ b, Run.exec (limitCall .debug) (start (.ofNat 10) 8 3 4 true)
        [.call (.add [1, 2, 3, 4, 5]), .setMaxBufferSize 4] = some b ∧
      b.maxBuffer = 4 ∧ b.available = 2 ^ 32 - 1 ∧
      b.add [6, 7, 8] = (true, (b.add [6, 7, 8]).2) ∧ (b.add [6, 7, 8]).2.size = 8 := by
  refine ⟨_, rfl, ?_⟩
  decide

end Runs

end Ns3.TcpTxBuffer
