import Ns3.Internet.TcpTxBuffer.Basic

/-!
# Segments as pieces of a stream

The items of a list hold consecutive bytes. `GetPacketFromList` may cut items
and join them, but it changes neither the bytes of the list nor the place where
an item begins, and the item it returns begins at the requested position.

Positions are counted from the head of the buffer, `head.at p`. All comparisons
of the walk are between positions that `Room` orders.
-/

namespace Ns3.TcpTxBuffer

open SequenceNumber

/-- The bytes of a list of items. -/
def bytes (list : PacketList) : List Byte := list.flatMap TcpTxItem.packet

/-- The sum of the item sizes. -/
def total (list : PacketList) : Nat := (list.map TcpTxItem.size).sum

/-- No item is empty. -/
def Positive (list : PacketList) : Prop := ∀ item ∈ list, 0 < item.size

/-- Each item carries the sequence number of its place, counted from `pos`. -/
def Starts (head : SequenceNumber32) : Nat → PacketList → Prop
  | _, [] => True
  | pos, item :: rest => item.startSeq = head.at pos ∧ Starts head (pos + item.size) rest

section Lists

variable {front rest list : PacketList} {item : TcpTxItem} {head : SequenceNumber32} {pos : Nat}

@[simp] theorem bytes_nil : bytes [] = [] := rfl

@[simp] theorem bytes_cons : bytes (item :: rest) = item.packet ++ bytes rest := rfl

@[simp] theorem bytes_append : bytes (front ++ rest) = bytes front ++ bytes rest := by
  simp [bytes]

@[simp] theorem total_nil : total [] = 0 := rfl

@[simp] theorem total_cons : total (item :: rest) = item.size + total rest := rfl

@[simp] theorem total_append : total (front ++ rest) = total front + total rest := by
  simp [total]

@[simp] theorem length_bytes (list : PacketList) : (bytes list).length = total list := by
  induction list with
  | nil => rfl
  | cons item rest ih => rw [bytes_cons, List.length_append, ih, total_cons, TcpTxItem.size]

theorem positive_append : Positive (front ++ rest) ↔ Positive front ∧ Positive rest := by
  simp only [Positive, List.mem_append]
  constructor
  · intro h
    exact ⟨fun item hi => h item (.inl hi), fun item hi => h item (.inr hi)⟩
  · rintro ⟨hf, hr⟩ item (hi | hi)
    · exact hf item hi
    · exact hr item hi

theorem positive_cons : Positive (item :: rest) ↔ 0 < item.size ∧ Positive rest := by
  simp [Positive]

theorem starts_append :
    Starts head pos (front ++ rest) ↔ Starts head pos front ∧
      Starts head (pos + total front) rest := by
  induction front generalizing pos with
  | nil => simp [Starts]
  | cons item front ih => simp [Starts, ih, Nat.add_assoc, and_assoc]

theorem starts_cons : Starts head pos (item :: rest) ↔
    item.startSeq = head.at pos ∧ Starts head (pos + item.size) rest := Iff.rfl

/-- Every position of a list lies in one of its items. -/
theorem exists_item {start k : Nat} (low : start ≤ k) (high : k < start + total list) :
    ∃ (front : PacketList) (item : TcpTxItem) (rest : PacketList) (offset : Nat),
      list = front ++ item :: rest ∧ start + total front + offset = k ∧ offset < item.size := by
  induction list generalizing start with
  | nil =>
    rw [total_nil] at high
    omega
  | cons first others ih =>
    rw [total_cons] at high
    rcases Nat.lt_or_ge k (start + first.size) with here | later
    · exact ⟨[], first, others, k - start, rfl, by simp; omega, by omega⟩
    · obtain ⟨front, item, rest, offset, eq, sum, lt⟩ := ih later (by omega)
      exact ⟨first :: front, item, rest, offset, by rw [eq]; rfl, by rw [total_cons]; omega, lt⟩

end Lists

section Items

variable {profile : BuildProfile} {item next : TcpTxItem}

theorem split_eq {m : Nat} (inside : m ≤ item.size) (fits : item.size < 2 ^ 32) (node : Nat) :
    item.split profile m node =
      some ({ item with packet := item.packet.take m, node },
        { item with packet := item.packet.drop m, startSeq := item.startSeq.add m }) := by
  unfold TcpTxItem.size at inside fits
  rw [TcpTxItem.split, Packet.createFragment_of_le (by omega) fits]
  rfl

theorem merge_contract (retrans : Nat) :
    Contract (profile = .debug) (item.merge profile next retrans)
      fun m => m.1.packet = item.packet ++ next.packet ∧ m.1.startSeq = item.startSeq := by
  refine (nsAssert_contract profile _).bind fun _ _ => ?_
  refine (nsAssert_contract profile _).bind fun _ _ => ?_
  cases item.retrans <;> cases next.retrans <;> exact ⟨rfl, rfl⟩

end Items

section Walk

variable {profile : BuildProfile} {first : Option SequenceNumber32} {head : SequenceNumber32}
variable {front rest : PacketList} {item : TcpTxItem} {start offset : Nat}

/-- The walk stops at the item that holds the requested position. -/
theorem findSeq_contract {k : Nat} (position : start + total front + offset = k)
    (near : k ≤ start + halfMaxValue 32) (inside : offset < item.size)
    (room : Room head k (start + total front + item.size)) :
    Contract (profile = .debug)
      (findSeq profile first (head.at k) (front ++ item :: rest) (head.at start))
      (· = if offset = 0 then .begins front item rest else .inside front item rest offset) := by
  induction front generalizing start with
  | nil =>
    rw [total_nil, Nat.add_zero] at position room
    refine (nsAssert_contract profile _).bind fun _ _ => ?_
    have last : (head.at start).add item.size = head.at (start + item.size : Nat) :=
      at_add head start item.size
    have isLt : (head.at k).lt ((head.at start).add item.size) = true := by
      rw [last, room.lt_later (by omega), decide_eq_true_eq]
      omega
    have isEq : head.at k = head.at start ↔ offset = 0 := by
      rw [(Room.of_le near).eq_iff (by omega)]
      omega
    have isGt : (head.at k).gt (head.at start) = decide (start < k) :=
      gt_at_nat (by omega) (by omega)
    rw [if_pos isLt]
    by_cases zero : offset = 0
    · rw [if_pos (isEq.mpr zero), if_pos zero]
      rfl
    · have distance : ((head.at k).sub (head.at start)).toNat = offset := by
        have : (((head.at k).sub (head.at start)).toNat : Int) = k - start :=
          sub_at_toNat (by omega) (by rw [halfMaxValue_32] at near; omega)
        omega
      rw [if_neg (fun e => zero (isEq.mp e)), if_neg zero, isGt,
        if_pos (decide_eq_true (by omega)), distance]
      rfl
  | cons passed front ih =>
    rw [total_cons, ← Nat.add_assoc] at position room
    refine (nsAssert_contract profile _).bind fun _ _ => ?_
    have last : (head.at start).add passed.size = head.at (start + passed.size : Nat) :=
      at_add head start passed.size
    have notLt : (head.at k).lt ((head.at start).add passed.size) = false := by
      rw [last, lt_at_nat (by omega) (by omega), decide_eq_false_iff_not]
      omega
    rw [if_neg (by rw [notLt]; exact Bool.false_ne_true), last]
    refine (ih position (by omega) room).bind fun found eq => ?_
    subst eq
    by_cases zero : offset = 0
    · rw [if_pos zero, if_pos zero]
      rfl
    · rw [if_neg zero, if_neg zero]
      rfl

end Walk

/-- What `GetPacketFromList` returns for the `n` bytes at position `k` of a list
that starts at `start`. -/
structure PickedAt (head : SequenceNumber32) (start k n : Nat) (list : PacketList)
    (p : Picked) : Prop where
  bytes : bytes (p.front ++ p.item :: p.rest) = bytes list
  positive : Positive (p.front ++ p.item :: p.rest)
  position : start + total p.front = k
  bound : p.item.size ≤ n
  starts : Starts head start list → Starts head start (p.front ++ p.item :: p.rest)

section Pick

variable {profile : BuildProfile} {first : Option SequenceNumber32} {head : SequenceNumber32}
variable {front rest list : PacketList} {item : TcpTxItem} {start k n : Nat}

/-- Cutting an item in two changes neither the bytes nor the begins of a list. -/
theorem split_list (head : SequenceNumber32) (node : Nat) {m : Nat} (inside : m < item.size)
    (pos : 0 < m)
    (positive : Positive (front ++ item :: rest)) :
    let firstPart := { item with packet := item.packet.take m, node }
    let second := { item with packet := item.packet.drop m, startSeq := item.startSeq.add m }
    bytes (front ++ firstPart :: second :: rest) = bytes (front ++ item :: rest) ∧
      Positive (front ++ firstPart :: second :: rest) ∧ firstPart.size = m ∧
      (∀ start, Starts head start (front ++ item :: rest) →
        Starts head start (front ++ firstPart :: second :: rest)) := by
  intro firstPart second
  have size : item.size = item.packet.length := rfl
  have firstSize : firstPart.size = m := by
    show (item.packet.take m).length = m
    rw [List.length_take]
    omega
  have secondSize : second.size = item.size - m := List.length_drop
  obtain ⟨positiveFront, -, positiveRest⟩ := by
    simpa only [positive_append, positive_cons] using positive
  refine ⟨?_, ?_, firstSize, ?_⟩
  · simp only [bytes_append, bytes_cons, firstPart, second]
    rw [← List.append_assoc (List.take m item.packet), List.take_append_drop]
  · simp only [positive_append, positive_cons, firstSize, secondSize]
    exact ⟨positiveFront, pos, by omega, positiveRest⟩
  · intro start
    simp only [starts_append, starts_cons, firstSize, secondSize]
    rintro ⟨before, here, behind⟩
    refine ⟨before, here, ?_, ?_⟩
    · show item.startSeq.add m = _
      rw [here, at_add]
      rfl
    · rwa [Nat.add_assoc, Nat.add_sub_cancel' inside.le]

/-- Joining an item with the next one changes neither the bytes nor the begins. -/
theorem merge_list (head : SequenceNumber32) {next merged : TcpTxItem}
    (packet : merged.packet = item.packet ++ next.packet)
    (startSeq : merged.startSeq = item.startSeq)
    (positive : Positive (front ++ item :: next :: rest)) :
    bytes (front ++ merged :: rest) = bytes (front ++ item :: next :: rest) ∧
      Positive (front ++ merged :: rest) ∧
      (∀ start, Starts head start (front ++ item :: next :: rest) →
        Starts head start (front ++ merged :: rest)) := by
  have size : merged.size = item.size + next.size := by simp [TcpTxItem.size, packet]
  simp only [positive_append, positive_cons] at positive ⊢
  obtain ⟨positiveFront, positiveItem, -, positiveRest⟩ := positive
  refine ⟨by simp [packet], ⟨positiveFront, by omega, positiveRest⟩, ?_⟩
  intro start
  simp only [starts_append, starts_cons, startSeq, size, Nat.add_assoc]
  rintro ⟨before, here, -, behind⟩
  exact ⟨before, here, behind⟩

/-- From the begin of an item, merges collect at most `n` bytes. -/
theorem getPacketFromList_begins (calls : Nat) (retrans nextNode : Nat)
    (positive : Positive (front ++ item :: rest)) (position : start + total front = k)
    (wanted : 0 < n) (enough : k + n ≤ start + total (front ++ item :: rest))
    (near : k ≤ start + halfMaxValue 32)
    (room : Room head k (start + total (front ++ item :: rest)))
    (fits : total (front ++ item :: rest) < 2 ^ 32)
    (fuel : (front ++ item :: rest).length ≤ calls) :
    Contract (profile = .debug)
      (getPacketFromList profile first (head.at start) n (head.at k) calls (front ++ item :: rest)
        retrans nextNode)
      (PickedAt head start k n (front ++ item :: rest)) := by
  induction calls generalizing item rest retrans nextNode with
  | zero => simp at fuel
  | succ calls ih =>
    have pos : 0 < item.size := positive item (by simp)
    simp only [total_append, total_cons] at enough room fits
    refine (findSeq_contract (show start + total front + 0 = k from position) near pos
      (room.mono (le_refl k) (by omega))).bind fun found eq => ?_
    rw [if_pos rfl] at eq
    subst eq
    have endSeq : (head.at k).add n = head.at (k + n : Nat) := at_add head k n
    have itemEnd : (head.at k).add item.size = head.at (k + item.size : Nat) :=
      at_add head k item.size
    simp only [endSeq, itemEnd]
    rcases Nat.lt_or_ge item.size n with beyond | within
    · -- The end is behind the item: join it with the next one.
      have isLe : (head.at (k + n : Nat)).le (head.at (k + item.size : Nat)) = false := by
        rw [(room.mono (by omega) (by omega)).le_earlier (by omega), decide_eq_false_iff_not]
        omega
      rw [if_neg (by rw [isLe]; exact Bool.false_ne_true)]
      cases rest with
      | nil =>
        rw [total_nil] at enough
        omega
      | cons next rest =>
        refine (merge_contract retrans).bind fun merged eq => ?_
        obtain ⟨packet, startSeq⟩ := eq
        obtain ⟨sameBytes, positive', starts'⟩ :=
          merge_list head packet startSeq positive
        have sameTotal : total (front ++ merged.1 :: rest) =
            total (front ++ item :: next :: rest) := by
          rw [← length_bytes, sameBytes, length_bytes]
        have expand : total (front ++ item :: next :: rest) =
            total front + (item.size + total (next :: rest)) := by simp
        refine (ih merged.2 nextNode positive' (by omega) (by rwa [sameTotal, expand])
          (by omega) (by simp at fuel ⊢; omega)).mono fun p picked => ?_
        exact
          { bytes := picked.bytes.trans sameBytes
            positive := picked.positive
            position := picked.position
            bound := picked.bound
            starts := fun h => picked.starts (starts' start h) }
    · have isLe : (head.at (k + n : Nat)).le (head.at (k + item.size : Nat)) = true :=
        (room.mono (by omega) (by omega)).le_later (by omega)
      rw [if_pos isLe]
      by_cases exact_ : n = item.size
      · rw [if_pos exact_]
        exact ⟨rfl, positive, position, exact_.ge, id⟩
      · obtain ⟨sameBytes, positive', size, starts'⟩ :=
          split_list head nextNode (show n < item.size by omega) wanted positive
        rw [if_neg exact_, if_pos (by omega), split_eq within (by omega)]
        exact ⟨sameBytes, positive', position, size.le, starts' start⟩

/-- From any position of the list, one cut makes it the begin of an item. -/
theorem getPacketFromList_contract (calls : Nat) (retrans nextNode : Nat)
    (positive : Positive list) (low : start ≤ k) (wanted : 0 < n)
    (enough : k + n ≤ start + total list) (near : k ≤ start + halfMaxValue 32)
    (room : Room head k (start + total list)) (fits : total list < 2 ^ 32)
    (fuel : list.length + 2 ≤ calls) :
    Contract (profile = .debug)
      (getPacketFromList profile first (head.at start) n (head.at k) calls list retrans nextNode)
      (PickedAt head start k n list) := by
  have high : k < start + total list := by omega
  obtain ⟨front, item, rest, offset, rfl, position, inside⟩ := exists_item low high
  by_cases zero : offset = 0
  · subst zero
    exact getPacketFromList_begins calls retrans nextNode positive position wanted enough near room
      fits (by omega)
  · cases calls with
    | zero => omega
    | succ calls =>
      have expand : total (front ++ item :: rest) = total front + (item.size + total rest) := by
        simp
      refine (findSeq_contract position near inside
        (room.mono (le_refl k) (by omega))).bind fun found eq => ?_
      rw [if_neg zero] at eq
      subst eq
      simp only [split_eq inside.le (show item.size < 2 ^ 32 by omega), some_bind]
      obtain ⟨sameBytes, positive', size, starts'⟩ :=
        split_list head nextNode inside (by omega) positive
      generalize { item with packet := item.packet.take offset, node := nextNode } = firstPart,
        { item with packet := item.packet.drop offset,
                    startSeq := item.startSeq.add offset } = second
        at sameBytes positive' size starts' ⊢
      have regroup : front ++ firstPart :: second :: rest =
          (front ++ [firstPart]) ++ second :: rest := by simp
      have sameTotal : total (front ++ firstPart :: second :: rest) =
          total (front ++ item :: rest) := by
        rw [← length_bytes, sameBytes, length_bytes]
      have length : (front ++ firstPart :: second :: rest).length =
          (front ++ item :: rest).length + 1 := by
        simp only [List.length_append, List.length_cons]
        omega
      rw [regroup] at sameBytes positive' starts' sameTotal length ⊢
      refine (getPacketFromList_begins calls retrans (nextNode + 1) positive'
        (by simp [size]; omega) wanted (by omega) near (by rwa [sameTotal]) (by omega)
        (by omega)).mono fun p picked => ?_
      exact
        { bytes := picked.bytes.trans sameBytes
          positive := picked.positive
          position := picked.position
          bound := picked.bound
          starts := fun h => picked.starts (starts' start h) }

end Pick

end Ns3.TcpTxBuffer
