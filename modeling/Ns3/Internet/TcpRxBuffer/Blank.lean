import Ns3.Internet.TcpRxBuffer.Reassembly

/-!
# The bytes do not matter

What the receive buffer does depends on the lengths of the packets, not on their bytes. So
segments that are no slices of one stream can be read as slices of a stream of zeros: `blank`
forgets the bytes, and every call commutes with it.
-/

namespace OrderedList

variable {κ ν μ : Type*} (lt : κ → κ → Bool) (f : ν → μ) (key : κ)

theorem set_map (value : ν) (entries : List (κ × ν)) :
    set lt key (f value) (entries.map fun e => (e.1, f e.2)) =
      (set lt key value entries).map fun e => (e.1, f e.2) := by
  induction entries with
  | nil => rfl
  | cons entry rest ih =>
    rw [List.map_cons, set, set]
    split
    · rfl
    · split
      · rw [ih, List.map_cons]
      · rfl

theorem contains_map (entries : List (κ × ν)) :
    contains lt key (entries.map fun e => (e.1, f e.2)) = contains lt key entries := by
  rw [contains, List.any_map]
  rfl

theorem erase_map [DecidableEq κ] (entries : List (κ × ν)) :
    erase key (entries.map fun e => (e.1, f e.2)) =
      (erase key entries).map fun e => (e.1, f e.2) := by
  induction entries with
  | nil => rfl
  | cons entry rest ih =>
    rw [List.map_cons, erase, erase]
    split
    · rfl
    · rw [ih, List.map_cons]

end OrderedList

namespace Ns3

/-- A packet of the same length, of zeros. -/
def Packet.blank (p : Packet) : Packet := List.replicate p.length 0

namespace Packet

@[simp] theorem length_blank (p : Packet) : p.blank.length = p.length := List.length_replicate

theorem blank_addAtEnd (p q : Packet) : (p.addAtEnd q).blank = p.blank.addAtEnd q.blank := by
  rw [blank, addAtEnd, List.length_append, List.replicate_add]
  rfl

theorem blank_fragmentBytes (p : Packet) (start length : Nat) :
    fragmentBytes p.blank start length = (fragmentBytes p start length).blank := by
  rw [fragmentBytes, fragmentBytes, removeAtEnd, removeAtEnd, removeAtStart, removeAtStart,
    length_blank]
  simp [blank]

theorem blank_createFragment (profile : BuildProfile) (p : Packet) (start length : Nat) :
    createFragment profile p.blank start length =
      (createFragment profile p start length).map blank := by
  rw [createFragment, createFragment, length_blank, blank_fragmentBytes]
  cases nsAssert profile (UInt32.add start length ≤ p.length) with
  | none => rfl
  | some _ => rfl

end Packet

namespace TcpRxBuffer

/-- The map entry with its bytes forgotten. -/
def blankEntry (e : SequenceNumber32 × Packet) : SequenceNumber32 × Packet := (e.1, e.2.blank)

/-- The buffer with all bytes forgotten. -/
def blank (b : TcpRxBuffer) : TcpRxBuffer := { b with data := b.data.map blankEntry }

section Commute

variable (profile : BuildProfile) (b : TcpRxBuffer)

theorem blank_maxRxSequence : b.blank.maxRxSequence = b.maxRxSequence := by
  rw [maxRxSequence, maxRxSequence, blank]
  cases b.data with
  | nil => rfl
  | cons e rest => rfl

theorem blank_trimToWindow (headSeq tailSeq : SequenceNumber32) :
    b.blank.trimToWindow headSeq tailSeq = b.trimToWindow headSeq tailSeq := by
  rw [trimToWindow, trimToWindow, blank]
  cases b.data with
  | nil => rfl
  | cons e rest => rfl

theorem blank_removeOverlap (data : List (SequenceNumber32 × Packet)) (o : Overlap) :
    removeOverlap (data.map blankEntry) o =
      ((removeOverlap data o).1.map blankEntry, (removeOverlap data o).2) := by
  induction data generalizing o with
  | nil => rfl
  | cons e rest ih =>
    rw [List.map_cons, blankEntry, removeOverlap, removeOverlap, Packet.length_blank]
    split
    · simp only [ih]
      split
      · split
        · rfl
        · rfl
      · rfl
    · rfl

theorem blank_advance (data : List (SequenceNumber32 × Packet)) :
    advance profile (data.map blankEntry) b.blank = (advance profile data b).map blank := by
  induction data generalizing b with
  | nil => rfl
  | cons e rest ih =>
    obtain ⟨first, p⟩ := e
    rw [List.map_cons, blankEntry, advance, advance, Packet.length_blank]
    show (if first.lt b.nextRxSeq then _ else if first.gt b.nextRxSeq then _ else _) = _
    split
    · exact ih b
    · split
      · rfl
      · have same : b.blank.sackList = b.sackList := rfl
        simp only [same]
        cases clearSackList profile (first.add p.length) b.sackList with
        | none => rfl
        | some sackList => exact ih { b with
            nextRxSeq := first.add p.length
            availBytes := UInt32.add b.availBytes p.length, sackList }

theorem blank_updateSackList (head tail : SequenceNumber32) :
    b.blank.updateSackList profile head tail =
      (b.updateSackList profile head tail).map blank := by
  rw [updateSackList, updateSackList]
  show (do
    nsAssert profile (head.gt b.nextRxSeq)
    let blocks ← mergeBlocks profile b.sackList.length (head, tail) b.sackList
    _) = _
  cases nsAssert profile (head.gt b.nextRxSeq) with
  | none => rfl
  | some _ =>
    cases mergeBlocks profile b.sackList.length (head, tail) b.sackList with
    | none => rfl
    | some blocks => rfl

theorem blank_sacked (headSeq tailSeq : SequenceNumber32) :
    (if headSeq.gt b.blank.nextRxSeq then b.blank.updateSackList profile headSeq tailSeq
      else some b.blank) =
      (if headSeq.gt b.nextRxSeq then b.updateSackList profile headSeq tailSeq
        else some b).map blank := by
  have same : b.blank.nextRxSeq = b.nextRxSeq := rfl
  rw [same]
  split
  · exact blank_updateSackList profile b headSeq tailSeq
  · rfl

theorem blank_set (key : SequenceNumber32) (p : Packet)
    (data : List (SequenceNumber32 × Packet)) :
    OrderedList.set SequenceNumber.lt key p.blank (data.map blankEntry) =
      (OrderedList.set SequenceNumber.lt key p data).map blankEntry :=
  OrderedList.set_map SequenceNumber.lt Packet.blank key p data

theorem blank_erase (key : SequenceNumber32) (data : List (SequenceNumber32 × Packet)) :
    OrderedList.erase key (data.map blankEntry) =
      (OrderedList.erase key data).map blankEntry :=
  OrderedList.erase_map Packet.blank key data

theorem blank_store (p : Packet) (seq headSeq tailSeq : SequenceNumber32) :
    b.blank.store profile p.blank seq headSeq tailSeq =
      (b.store profile p seq headSeq tailSeq).map blank := by
  rw [store, store, Packet.blank_createFragment]
  cases p.createFragment profile (headSeq.sub seq).toNat (tailSeq.sub headSeq).toNat with
  | none => rfl
  | some piece =>
    have present : OrderedList.contains SequenceNumber.lt headSeq b.blank.data =
        OrderedList.contains SequenceNumber.lt headSeq b.data :=
      OrderedList.contains_map SequenceNumber.lt Packet.blank headSeq b.data
    have inserted : OrderedList.set SequenceNumber.lt headSeq piece.blank b.blank.data =
        (OrderedList.set SequenceNumber.lt headSeq piece b.data).map blankEntry :=
      blank_set headSeq piece b.data
    simp only [Option.map_some, Option.bind_eq_bind, Option.bind_some, Packet.length_blank,
      present, inserted]
    cases nsAssert profile ((tailSeq.sub headSeq).toNat = piece.length) with
    | none => rfl
    | some _ =>
      cases nsAssert profile (!OrderedList.contains SequenceNumber.lt headSeq b.data) with
      | none => rfl
      | some _ =>
        have sacked := blank_sacked profile
          { b with data := OrderedList.set SequenceNumber.lt headSeq piece b.data }
          headSeq tailSeq
        simp only [Option.bind_some]
        refine (congrArg (Option.bind · _) sacked).trans ?_
        cases (if headSeq.gt b.nextRxSeq then
            updateSackList profile { b with
              data := OrderedList.set SequenceNumber.lt headSeq piece b.data } headSeq tailSeq
          else some { b with
            data := OrderedList.set SequenceNumber.lt headSeq piece b.data }) with
        | none => rfl
        | some c =>
          refine (congrArg (Option.bind · _) (blank_advance profile
            { c with size := UInt32.add c.size piece.length } c.data)).trans ?_
          rw [Option.bind_some]
          cases advance profile c.data
            { c with size := UInt32.add c.size piece.length } with
          | none => rfl
          | some d => rfl

theorem blank_add (p : Packet) (seq : SequenceNumber32) :
    b.blank.add profile p.blank seq = (b.add profile p seq).map fun r => (r.1, r.2.blank) := by
  rw [add, add, Packet.length_blank, blank_trimToWindow]
  have same : b.blank.data = b.data.map blankEntry := rfl
  have size : b.blank.size = b.size := rfl
  simp only [same, size]
  generalize Overlap.mk (b.trimToWindow seq (seq.add p.length)).1
    (b.trimToWindow seq (seq.add p.length)).2 b.size = o
  simp only [blank_removeOverlap]
  split
  · rfl
  · refine (congrArg (Option.bind · _) (blank_store profile { b with
        data := (removeOverlap b.data o).1, size := (removeOverlap b.data o).2.size }
      p seq (removeOverlap b.data o).2.headSeq (removeOverlap b.data o).2.tailSeq)).trans ?_
    cases store profile { b with
        data := (removeOverlap b.data o).1, size := (removeOverlap b.data o).2.size }
      p seq (removeOverlap b.data o).2.headSeq (removeOverlap b.data o).2.tailSeq with
    | none => rfl
    | some c => rfl

theorem blank_with (data : List (SequenceNumber32 × Packet)) (size availBytes : Nat)
    (outPkt : Packet) :
    some ({ b.blank with data := data.map blankEntry, size, availBytes }, outPkt.blank) =
      (some ({ b with data, size, availBytes }, outPkt)).map
        fun r : TcpRxBuffer × Packet => (r.1.blank, r.2.blank) := rfl

/-- The last packet, of which only a part is taken. -/
theorem blank_extractLoop_part (first : SequenceNumber32) (p : Packet)
    (rest : List (SequenceNumber32 × Packet)) {size : Nat} (outPkt : Packet)
    (long : ¬ p.length ≤ size + 1) :
    extractLoop profile (((first, p) :: rest).map blankEntry) b.blank (size + 1) outPkt.blank =
      (extractLoop profile ((first, p) :: rest) b (size + 1) outPkt).map
        fun r => (r.1.blank, r.2.blank) := by
  have next : b.blank.nextRxSeq = b.nextRxSeq := rfl
  rw [List.map_cons, blankEntry, extractLoop, extractLoop, Packet.length_blank, next]
  cases nsAssert profile (first.le b.nextRxSeq) with
  | none => rfl
  | some _ =>
    simp only [Option.bind_eq_bind, Option.bind_some]
    rw [if_neg long, if_neg long, Packet.blank_createFragment, Packet.blank_createFragment]
    cases p.createFragment profile 0 (size + 1) with
    | none => rfl
    | some head =>
      cases p.createFragment profile (size + 1) (p.length - (size + 1)) with
      | none => rfl
      | some tail =>
        have kept := blank_set (first.add (size + 1)) tail ((first, p) :: rest)
        rw [List.map_cons, blankEntry] at kept
        simp only [Option.map_some, Option.bind_some]
        rw [kept, blank_erase, ← Packet.blank_addAtEnd]
        exact blank_with b _ _ _ _

theorem blank_extractLoop (data : List (SequenceNumber32 × Packet)) (size : Nat)
    (outPkt : Packet) :
    extractLoop profile (data.map blankEntry) b.blank size outPkt.blank =
      (extractLoop profile data b size outPkt).map fun r => (r.1.blank, r.2.blank) := by
  induction data generalizing b size outPkt with
  | nil =>
    cases size with
    | zero => rfl
    | succ size => rfl
  | cons e rest ih =>
    obtain ⟨first, p⟩ := e
    cases size with
    | zero => rfl
    | succ size =>
      by_cases whole : p.length ≤ size + 1
      · have next : b.blank.nextRxSeq = b.nextRxSeq := rfl
        rw [List.map_cons, blankEntry, extractLoop, extractLoop, Packet.length_blank, next]
        cases nsAssert profile (first.le b.nextRxSeq) with
        | none => rfl
        | some _ =>
          rw [if_pos whole, if_pos whole, ← Packet.blank_addAtEnd]
          exact ih { b with
            size := UInt32.sub b.size p.length
            availBytes := UInt32.sub b.availBytes p.length } _ _
      · exact blank_extractLoop_part profile b first p rest outPkt whole

theorem blank_extract (maxSize : Nat) :
    b.blank.extract profile maxSize =
      (b.extract profile maxSize).map fun r => (r.1.blank, r.2.map Packet.blank) := by
  have avail : b.blank.availBytes = b.availBytes := rfl
  have data : b.blank.data = b.data.map blankEntry := rfl
  rw [extract, extract, avail, data, List.isEmpty_map]
  simp only [Option.bind_eq_bind]
  split
  · rfl
  · cases nsAssert profile (!b.data.isEmpty) with
    | none => rfl
    | some _ =>
      have taken := blank_extractLoop profile b b.data (min maxSize b.availBytes) []
      refine (congrArg (Option.bind · _) taken).trans ?_
      cases extractLoop profile b.data b (min maxSize b.availBytes) [] with
      | none => rfl
      | some r =>
        obtain ⟨c, outPkt⟩ := r
        simp only [Option.map_some, Option.bind_some, Packet.length_blank]
        by_cases nothing : outPkt.length = 0
        · rw [if_pos nothing, if_pos nothing]
          rfl
        · rw [if_neg nothing, if_neg nothing]
          rfl

end Commute

end TcpRxBuffer

end Ns3
