import Ns3.Internet.TcpSocketBase.Sender.Basic

/-!
# What `Send` reports

`Send` stores the packet in the transmit buffer before it looks at `m_shutdownSend`, and it
reports a failure by the value -1. So a failure need not mean that the packet was refused:
the bytes of a packet sent after `ShutdownSend` stay in the buffer and go out later.
-/

namespace Ns3.TcpSocketBase

/-- The values of `SocketErrno` that `Send` assigns. -/
inductive SocketErrno where
  | errorNotConn
  | errorMsgSize
  | errorShutdown
  deriving DecidableEq

/-- What `Send` returns, what it assigns to `m_errno`, and the socket it leaves. -/
structure SendResult (σ ρ : Type) where
  value : Int
  errno : Option SocketErrno
  sender : Sender σ ρ

namespace Sender

variable {σ ρ : Type}

/-- The states in which the application may send. -/
def maySend (s : Sender σ ρ) : Prop :=
  s.around.state = .established ∨ s.around.state = .synSent ∨ s.around.state = .closeWait
  deriving Decidable

/-- `AvailableWindow`, which the test for a transmission calls in a connection. -/
def submit (profile : BuildProfile) (s : Sender σ ρ) : Option (Sender σ ρ) :=
  if s.around.state = .established ∨ s.around.state = .closeWait then s.bytesInFlight profile
  else some s

/-- `Send` after the packet was given to the buffer, which took it or not. -/
def report (profile : BuildProfile) (p : Packet) (added : Bool) (s : Sender σ ρ) :
    Option (SendResult σ ρ) := do
  if !added then return { value := -1, errno := some .errorMsgSize, sender := s }
  else if s.around.shutdownSend then
    return { value := -1, errno := some .errorShutdown, sender := s }
  else
    let s ← s.submit profile
    return { value := int32 p.length, errno := none, sender := s }

/-- `Send`, with the value it returns. -/
def sendPacket (profile : BuildProfile) (p : Packet) (flags : Nat) (s : Sender σ ρ) :
    Option (SendResult σ ρ) := do
  nsAbortIf (flags != 0)
  if s.maySend then
    let (added, txBuffer) := s.txBuffer.add p
    { s with txBuffer }.report profile p added
  else return { value := -1, errno := some .errorNotConn, sender := s }

variable {profile : BuildProfile} {p : Packet} {flags : Nat} {s : Sender σ ρ}
variable {r : SendResult σ ρ}

/-- The packet finds room, and there is something to store. -/
def Stores (p : Packet) (s : Sender σ ρ) : Prop :=
  s.maySend ∧ 0 < p.length ∧ p.length ≤ s.txBuffer.available

theorem add_of_refused (refused : ¬ (0 < p.length ∧ p.length ≤ s.txBuffer.available)) :
    (s.txBuffer.add p).2 = s.txBuffer := by
  rw [TcpTxBuffer.add]
  split
  · rw [if_neg (fun some_ => refused ⟨some_, ‹_›⟩)]
  · rfl

theorem add_of_stored (some_ : 0 < p.length) (room : p.length ≤ s.txBuffer.available) :
    (s.txBuffer.add p).1 = true ∧
      (s.txBuffer.add p).2.appList =
        s.txBuffer.appList ++ [{ packet := p, node := s.txBuffer.nextNode }] := by
  rw [TcpTxBuffer.add, if_pos room, if_pos some_]
  exact ⟨rfl, rfl⟩

theorem submit_txBuffer {t : Sender σ ρ} (run : s.submit profile = some t) :
    t.txBuffer = s.txBuffer := by
  rw [submit] at run
  split at run
  · obtain ⟨bytes, -, run⟩ := bind_returns.mp run
    rw [← Option.some.inj run]
  · rw [← Option.some.inj run]

/-- The rest of `Send` leaves the buffer as `Add` made it. -/
theorem report_cases {added : Bool} (run : s.report profile p added = some r) :
    r.sender.txBuffer = s.txBuffer ∧
      (added = true → r.value = if s.around.shutdownSend then -1 else int32 p.length) := by
  cases added with
  | false =>
    cases run
    exact ⟨rfl, fun no => absurd no (by decide)⟩
  | true =>
    cases shut : s.around.shutdownSend with
    | true =>
      simp only [report, shut, Bool.not_true, Bool.false_eq_true, if_false, if_true] at run
      cases run
      exact ⟨rfl, fun _ => rfl⟩
    | false =>
      simp only [report, shut, Bool.not_true, Bool.false_eq_true, if_false] at run
      obtain ⟨t, submitted, run⟩ := bind_returns.mp run
      obtain rfl := Option.some.inj run
      exact ⟨submit_txBuffer submitted, fun _ => by rw [if_neg Bool.false_ne_true]⟩

/-- What each way out of `Send` leaves in the buffer. -/
theorem sendPacket_cases (run : s.sendPacket profile p flags = some r) :
    (¬ Stores p s ∧ r.sender.txBuffer = s.txBuffer) ∨
      (Stores p s ∧ r.sender.txBuffer = (s.txBuffer.add p).2 ∧
        r.value = if s.around.shutdownSend then -1 else int32 p.length) := by
  obtain ⟨-, -, run⟩ := bind_returns.mp run
  by_cases may : s.maySend
  · rw [if_pos may] at run
    obtain ⟨buffer, value⟩ := report_cases run
    by_cases stored : 0 < p.length ∧ p.length ≤ s.txBuffer.available
    · exact .inr ⟨⟨may, stored⟩, buffer, value (add_of_stored stored.1 stored.2).1⟩
    · exact .inl ⟨fun stores => stored stores.2, buffer.trans (add_of_refused stored)⟩
  · rw [if_neg may] at run
    cases run
    exact .inl ⟨fun stores => may stores.1, rfl⟩

theorem int32_eq_neg_one {n : Nat} (fits : n < 2 ^ 32) :
    int32 n = -1 ↔ n = 2 ^ 32 - 1 := by
  constructor
  · intro h
    rw [int32, Int.bmod_def] at h
    omega
  · rintro rfl
    decide

theorem available_lt (b : TcpTxBuffer) : b.available < 2 ^ 32 := Nat.mod_lt _ (by decide)

/-- The send is atomic when the packet is not stored, or stored and reported by its size. -/
def Atomic (p : Packet) (s : Sender σ ρ) : Prop :=
  ¬ s.maySend ∨ p.length = 0 ∨ s.txBuffer.available < p.length ∨
    (s.around.shutdownSend = false ∧ p.length ≠ 2 ^ 32 - 1)
  deriving Decidable

/-- A call of `Send` that returns -1 leaves the buffer unchanged if and only if it did not
store the packet before it found a reason to fail. -/
theorem failedSend_unchanged_iff (run : s.sendPacket profile p flags = some r) :
    (r.value = -1 → r.sender.txBuffer.appList = s.txBuffer.appList ∧
      r.sender.txBuffer.size = s.txBuffer.size) ↔ Atomic p s := by
  obtain ⟨refused, same⟩ | ⟨⟨may, some_, room⟩, stored, value⟩ := sendPacket_cases run
  · rw [same]
    refine iff_of_true (fun _ => ⟨rfl, rfl⟩) ?_
    by_contra slips
    simp only [Atomic, not_or, not_not, Nat.not_lt] at slips
    exact refused ⟨slips.1, Nat.pos_of_ne_zero slips.2.1, slips.2.2.1⟩
  · have more : r.sender.txBuffer.appList ≠ s.txBuffer.appList := by
      rw [stored, (add_of_stored some_ room).2]
      intro same
      have length := congrArg List.length same
      simp at length
    have fails : r.value = -1 ↔ s.around.shutdownSend = true ∨ p.length = 2 ^ 32 - 1 := by
      rw [value]
      cases s.around.shutdownSend with
      | true => simp
      | false => simpa using int32_eq_neg_one (lt_of_le_of_lt room (available_lt _))
    have atomic : Atomic p s ↔ ¬ (s.around.shutdownSend = true ∨ p.length = 2 ^ 32 - 1) := by
      simp only [Atomic, may, not_true_eq_false, false_or, not_or, Bool.not_eq_true]
      constructor
      · rintro (empty | full | ok)
        · omega
        · omega
        · exact ok
      · intro ok
        exact Or.inr (Or.inr ok)
    rw [atomic, ← fails]
    constructor
    · intro unchanged fail
      exact more (unchanged fail).1
    · intro ok fail
      exact absurd fail ok

/-- A socket with two bytes to send, and with or without `ShutdownSend` behind it. -/
def holding (shutdownSend : Bool) : Sender Unit Unit where
  congestionControl := ()
  recoveryOps := ()
  txBuffer := ((TcpTxBuffer.start (.ofNat 1) 10 3 2 true).add [1, 2]).2
  around := { shutdownSend }

/-- A packet that is larger than the room left is refused, and nothing is stored. -/
theorem failedSend_unchanged_full :
    ∃ r, (holding false).sendPacket .debug (List.replicate 9 0) 0 = some r ∧ r.value = -1 ∧
      r.sender.txBuffer.appList = (holding false).txBuffer.appList := by
  obtain ⟨r, run, value⟩ : ∃ r, (holding false).sendPacket .debug (List.replicate 9 0) 0 = some r ∧
      r.value = -1 := ⟨_, rfl, by decide⟩
  exact ⟨r, run, value, ((failedSend_unchanged_iff run).mpr (by decide) value).1⟩

/-- After `ShutdownSend` the packet is reported as refused, and handed out after the bytes in
front of it. -/
theorem refusedPacket_handedOut :
    ∃ (r : SendResult Unit Unit) (b b' : TcpTxBuffer) (item : TcpTxItem),
      (holding true).sendPacket .debug [3, 4] 0 = some r ∧ r.value = -1 ∧
      r.errno = some .errorShutdown ∧
      r.sender.txBuffer.appList ≠ (holding true).txBuffer.appList ∧
      (r.sender.txBuffer.copyFromSequence .debug 0 2 (.ofNat 1)).map Prod.snd = some b ∧
      b.copyFromSequence .debug 0 2 (.ofNat 3) = some (some item, b') ∧ item.packet = [3, 4] :=
  ⟨_, _, _, _, rfl, by decide, rfl, by decide, rfl, rfl, rfl⟩

end Sender

end Ns3.TcpSocketBase
