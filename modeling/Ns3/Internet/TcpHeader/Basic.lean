import Ns3.Internet.TcpOption.Basic

/-!
# The TCP header

`TcpHeader` with the members the sender sets and the receiver reads. A header on
its way between two sockets is the record itself; its bytes are another matter.
-/

namespace Ns3

structure TcpHeader where
  sourcePort : BitVec 16 := 0
  destinationPort : BitVec 16 := 0
  sequenceNumber : SequenceNumber32 := ⟨0⟩
  ackNumber : SequenceNumber32 := ⟨0⟩
  length : Byte := 5
  flags : Byte := 0
  windowSize : BitVec 16 := 0xffff
  urgentPointer : BitVec 16 := 0
  options : List TcpOption := []
  optionsLen : Byte := 0
  deriving DecidableEq

namespace TcpHeader

/-! The values of `TcpHeader::Flags_t`. -/

def FIN : Byte := 1
def SYN : Byte := 2
def RST : Byte := 4
def PSH : Byte := 8
def ACK : Byte := 16
def URG : Byte := 32
def ECE : Byte := 64
def CWR : Byte := 128

/-- `GetFlags() & flag`, as a condition. -/
def hasFlag (h : TcpHeader) (flag : Byte) : Bool := h.flags &&& flag != 0

/-- The `tcpflags` of the state machine: PSH, URG, CWR and ECE are disregarded. -/
def tcpflags (h : TcpHeader) : Byte := h.flags &&& ~~~(PSH ||| URG ||| CWR ||| ECE)

variable {h : TcpHeader} {option : TcpOption}

theorem hasFlag_syn (pure : h.tcpflags = SYN) : h.hasFlag SYN = true := by
  have all : ∀ flags : Byte, flags &&& ~~~(PSH ||| URG ||| CWR ||| ECE) = SYN →
      (flags &&& SYN != 0) = true := by
    decide
  exact all h.flags pure

/-- `TcpHeader::GetOption`: the first option of the kind. -/
def getOption (h : TcpHeader) (kind : Byte) : Option TcpOption :=
  h.options.find? (·.getKind == kind)

/-- `TcpHeader::HasOption`. -/
def hasOption (h : TcpHeader) (kind : Byte) : Bool := (h.getOption kind).isSome

/-- `m_maxOptionsLen`. -/
def maxOptionsLen : Nat := 40

/-- `TcpHeader::AppendOption`: the header after the call, and the result. -/
def appendOption (h : TcpHeader) (option : TcpOption) : TcpHeader × Bool :=
  if UInt32.add h.optionsLen.toNat option.getSerializedSize ≤ maxOptionsLen then
    if !TcpOption.isKindKnown option.getKind then (h, false)
    else if option.getKind ≠ TcpOption.END then
      let optionsLen := h.optionsLen + BitVec.ofNat 8 option.getSerializedSize
      ({ h with
        options := h.options ++ [option]
        optionsLen := optionsLen
        length := BitVec.ofNat 8 ((20 + 3 + optionsLen.toNat) >>> 2) }, true)
    else (h, true)
  else (h, false)

/-- An option appended only if it is enabled; the result is not looked at. -/
def appendOptionIf (h : TcpHeader) (enabled : Bool) (option : TcpOption) : TcpHeader :=
  if enabled then (h.appendOption option).1 else h

theorem getOption_kind {kind : Byte} {o : TcpOption}
    (found : h.getOption kind = some o) : o.getKind = kind := by
  simpa using List.find?_some found

theorem getOption_appendOption_ne {kind : Byte}
    (other : option.getKind ≠ kind) :
    (h.appendOption option).1.getOption kind = h.getOption kind := by
  have absent : [option].find? (·.getKind == kind) = none := by simp [other]
  unfold appendOption
  split
  · split
    · rfl
    · split
      · simp [getOption, List.find?_append, absent]
      · rfl
  · rfl

/-- An option that fits is found again. -/
theorem getOption_appendOption_self
    (known : TcpOption.isKindKnown option.getKind = true) (notEnd : option.getKind ≠ TcpOption.END)
    (absent : h.getOption option.getKind = none)
    (fits : h.optionsLen.toNat + option.getSerializedSize ≤ maxOptionsLen) :
    (h.appendOption option).1.getOption option.getKind = some option := by
  have room : UInt32.add h.optionsLen.toNat option.getSerializedSize ≤ maxOptionsLen := by
    rw [UInt32.add_of_lt (lt_of_le_of_lt fits (by decide))]
    exact fits
  simp only [appendOption, if_pos room, known, Bool.not_true, Bool.false_eq_true, if_false,
    if_pos notEnd, getOption, List.find?_append]
  rw [show h.options.find? (·.getKind == option.getKind) = none from absent]
  simp

theorem optionsLen_appendOption {n : Nat}
    (bound : h.optionsLen.toNat ≤ n) :
    (h.appendOption option).1.optionsLen.toNat ≤ n + option.getSerializedSize := by
  unfold appendOption
  split
  · split
    · exact bound.trans (Nat.le_add_right _ _)
    · split
      · simp only [BitVec.toNat_add, BitVec.toNat_ofNat]
        refine (Nat.mod_le _ _).trans (Nat.add_le_add bound (Nat.mod_le _ _))
      · exact bound.trans (Nat.le_add_right _ _)
  · exact bound.trans (Nat.le_add_right _ _)

@[simp] theorem appendOption_flags (h : TcpHeader) (option : TcpOption) :
    (h.appendOption option).1.flags = h.flags := by
  unfold appendOption
  split
  · split
    · rfl
    · split <;> rfl
  · rfl

theorem getOption_appendOptionIf_ne {enabled : Bool}
    {kind : Byte} (other : option.getKind ≠ kind) :
    (h.appendOptionIf enabled option).getOption kind = h.getOption kind := by
  cases enabled
  · rfl
  · exact getOption_appendOption_ne other

theorem optionsLen_appendOptionIf {enabled : Bool} {n : Nat}
    (bound : h.optionsLen.toNat ≤ n) :
    (h.appendOptionIf enabled option).optionsLen.toNat ≤ n + option.getSerializedSize := by
  cases enabled
  · exact bound.trans (Nat.le_add_right _ _)
  · exact optionsLen_appendOption bound

@[simp] theorem appendOptionIf_flags (h : TcpHeader) (enabled : Bool) (option : TcpOption) :
    (h.appendOptionIf enabled option).flags = h.flags := by
  cases enabled
  · rfl
  · exact appendOption_flags h option

theorem exists_getOption {kind : Byte} (present : h.hasOption kind = true) :
    ∃ o, h.getOption kind = some o ∧ o.getKind = kind := by
  obtain ⟨o, found⟩ := Option.isSome_iff_exists.mp present
  exact ⟨o, found, getOption_kind found⟩

end TcpHeader

end Ns3
