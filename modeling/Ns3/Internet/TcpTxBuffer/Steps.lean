import Ns3.Internet.TcpTxBuffer.Segments

/-!
# What one turn of each loop does

Inversion lemmas for the loops that cut, join and mark items, whatever their
arguments. The invariants of the scoreboard are derived from these, never from
the definitions themselves.
-/

namespace Ns3.TcpTxBuffer

open List Option

section GetPacketFromList

/-- The list in which the walk stopped. -/
def Found.list : Found → PacketList
  | .begins front item rest => front ++ item :: rest
  | .inside front item rest _ => front ++ item :: rest

theorem Found.list_push (item : TcpTxItem) (found : Found) :
    (found.push item).list = item :: found.list := by
  cases found with
  | begins => rfl
  | inside => rfl

variable {profile : BuildProfile}

/-- The walk changes nothing, and the distance it returns is a 32-bit number. -/
theorem findSeq_list {first : Option SequenceNumber32}
    {seq pos : SequenceNumber32} {list : PacketList} {found : Found}
    (run : findSeq profile first seq list pos = some found) :
    found.list = list ∧
      ∀ front item rest offset, found = .inside front item rest offset → offset < 2 ^ 32 := by
  induction list generalizing pos found with
  | nil => exact absurd run (by simp [findSeq])
  | cons item rest ih =>
    simp only [findSeq, bind_returns] at run
    obtain ⟨-, -, run⟩ := run
    split at run
    · split at run
      · cases run
        exact ⟨rfl, by simp⟩
      · split at run
        · cases run
          refine ⟨rfl, ?_⟩
          rintro _ _ _ _ ⟨⟩
          exact BitVec.isLt _
        · cases run
    · obtain ⟨found₁, walk, pushed⟩ := bind_returns.mp run
      cases pushed
      obtain ⟨same, small⟩ := ih walk
      refine ⟨by rw [Found.list_push, same], ?_⟩
      intro front item rest offset inside
      cases found₁ with
      | begins => exact absurd inside (by simp [Found.push])
      | inside front₁ item₁ rest₁ offset₁ =>
        obtain ⟨-, -, -, rfl⟩ := Found.inside.inj inside
        exact small _ _ _ _ rfl

theorem split_cases {item : TcpTxItem} {size node : Nat}
    {parts : TcpTxItem × TcpTxItem} (run : item.split profile size node = some parts) :
    ∃ packet, parts = ({ item with packet, node },
      { item with packet := item.packet.drop size, startSeq := item.startSeq.add size }) := by
  obtain ⟨packet, -, eq⟩ := bind_returns.mp run
  exact ⟨packet, (some.inj eq).symm⟩

/-- Joining keeps the flags of the first item, except that only two retransmitted
items make one. -/
theorem merge_cases {item second merged : TcpTxItem}
    {retrans retrans' : Nat}
    (run : item.merge profile second retrans = some (merged, retrans')) :
    (profile = .debug → item.sacked = second.sacked ∧ item.lost = second.lost) ∧
      merged = { item with
        packet := item.packet ++ second.packet
        lastSent := if item.lastSent < second.lastSent then second.lastSent else item.lastSent
        retrans := item.retrans && second.retrans } ∧
      retrans' = (if item.retrans = second.retrans then retrans
        else if item.retrans then UInt32.sub retrans item.size
        else UInt32.sub retrans second.size) := by
  simp only [TcpTxItem.merge, bind_returns] at run
  obtain ⟨_, sameSacked, _, sameLost, run⟩ := run
  refine ⟨?_, ?_⟩
  · rintro rfl
    exact ⟨by simpa using sameSacked, by simpa using sameLost⟩
  · obtain ⟨startSeq, packet, lost, flag, sacked, lastSent, node⟩ := item
    cases flag <;> cases other : second.retrans <;>
      · simp only [other, if_true, if_false, reduceCtorEq, Bool.false_eq_true, Option.pure_def,
          some.injEq, Prod.mk.injEq] at run ⊢
        exact ⟨run.1.symm, run.2.symm⟩

/-- A list and the count of retransmitted bytes, reshaped by cutting items in
two and by joining neighbours. -/
inductive Reshape (profile : BuildProfile) : PacketList → Nat → PacketList → Nat → Prop
  | refl (list : PacketList) (retrans : Nat) : Reshape profile list retrans list retrans
  | split {front rest list' : PacketList} {item firstPart secondPart : TcpTxItem}
      {size node retrans retrans' : Nat}
      (small : size < 2 ^ 32 ∨ size < item.size)
      (parts : item.split profile size node = some (firstPart, secondPart))
      (next : Reshape profile (front ++ firstPart :: secondPart :: rest) retrans list' retrans') :
      Reshape profile (front ++ item :: rest) retrans list' retrans'
  | merge {front rest list' : PacketList} {item second merged : TcpTxItem}
      {retrans retrans₁ retrans' : Nat}
      (joined : item.merge profile second retrans = some (merged, retrans₁))
      (next : Reshape profile (front ++ merged :: rest) retrans₁ list' retrans') :
      Reshape profile (front ++ item :: second :: rest) retrans list' retrans'

/-- All that `GetPacketFromList` does to a list. -/
theorem getPacketFromList_reshape {first : Option SequenceNumber32}
    {start seq : SequenceNumber32} {n calls : Nat} {list : PacketList} {retrans nextNode : Nat}
    {p : Picked}
    (run : getPacketFromList profile first start n seq calls list retrans nextNode = some p) :
    Reshape profile list retrans (p.front ++ p.item :: p.rest) p.retrans ∧
      nextNode ≤ p.nextNode := by
  induction calls generalizing list retrans nextNode with
  | zero => exact absurd run (by simp [getPacketFromList])
  | succ calls ih =>
    simp only [getPacketFromList, bind_eq_bind, bind_eq_some_iff] at run
    obtain ⟨found, walk, run⟩ := run
    obtain ⟨rfl, small⟩ := findSeq_list walk
    cases found with
    | inside front item rest offset =>
      simp only [bind_eq_some_iff] at run
      obtain ⟨⟨firstPart, secondPart⟩, parts, run⟩ := run
      obtain ⟨reshape, le⟩ := ih run
      exact ⟨.split (.inl (small _ _ _ _ rfl)) parts reshape, by omega⟩
    | begins front item rest =>
      simp only at run
      split at run
      · split at run
        · cases run
          exact ⟨.refl _ _, le_rfl⟩
        · split at run
          · next inside =>
              simp only [bind_eq_some_iff] at run
              obtain ⟨⟨firstPart, secondPart⟩, parts, run⟩ := run
              cases run
              exact ⟨.split (.inr inside) parts (.refl _ _), Nat.le_succ _⟩
          · cases run
      · cases rest with
        | nil =>
          cases run
          exact ⟨.refl _ _, le_rfl⟩
        | cons second rest =>
          simp only [bind_eq_some_iff] at run
          obtain ⟨⟨merged, retrans₁⟩, joined, run⟩ := run
          exact ⟨.merge joined (ih run).1, (ih run).2⟩

end GetPacketFromList

section CopyFromSequence

variable {profile : BuildProfile} {b b' : TcpTxBuffer} {s : Nat} {seq : SequenceNumber32}
variable {out : Sent} {r : Option TcpTxItem}

/-- An item that is handed out was sent before, or is new and continues the sent
data. -/
theorem handOut_cases (run : b.handOut profile s seq = some (some out)) :
    ((b.firstByteSeq.add b.sentSize).ge (seq.add s) = true ∧
        b.getTransmittedSegment profile s seq = some out) ∨
      (seq = b.firstByteSeq.add b.sentSize ∧ b.getNewSegment profile s = some out) := by
  rw [handOut] at run
  split at run
  · next within =>
    simp only [bind_returns, pure_returns, some.injEq]
      at run
    obtain ⟨out, sent, _, -, rfl⟩ := run
    exact .inl ⟨within, sent⟩
  · split at run
    · simp only [bind_returns, pure_returns, some.injEq]
        at run
      obtain ⟨_, noHole, out, new, _, -, rfl⟩ := run
      rw [nsAbortIf_eq_some, bne_eq_false_iff_eq] at noHole
      exact .inr ⟨noHole.symm, new⟩
    · cases run

theorem handOut_notSacked (run : b.handOut .debug s seq = some (some out))
    (within : (b.firstByteSeq.add b.sentSize).ge (seq.add s) = true) :
    out.item.sacked = false := by
  rw [handOut, if_pos within] at run
  simp only [bind_returns, pure_returns, some.injEq, nsAssert_debug_eq_some] at run
  obtain ⟨_, -, _, notSacked, rfl⟩ := run
  exact (Bool.not_eq_true' _).mp notSacked

/-- `CopyFromSequence` returns nothing and leaves the buffer, or hands out an
item with the time of sending. -/
theorem copyFromSequence_cases {now : Int} {n : Nat}
    (run : b.copyFromSequence profile now n seq = some (r, b')) :
    (r = none ∧ b' = b) ∨ ∃ s out, 0 < s ∧ s ≤ n ∧ s ≤ b.sizeFromSequence seq ∧
      b.handOut profile s seq = some (some out) ∧
      r = some { out.item with lastSent := now } ∧
      b' = { out.buffer with
        sentList := out.front ++ { out.item with lastSent := now } :: out.rest } := by
  rw [copyFromSequence] at run
  generalize 2 = calls at run
  induction calls generalizing n with
  | zero => exact absurd run (by simp [copyFromSequenceWithin])
  | succ calls ih =>
    simp only [copyFromSequenceWithin, bind_eq_bind, bind_eq_some_iff] at run
    obtain ⟨-, -, run⟩ := run
    split at run
    · simp only [Option.pure_def, some.injEq, Prod.mk.injEq] at run
      exact .inl ⟨run.1.symm, run.2.symm⟩
    · next some_ =>
        obtain ⟨handed, out, run⟩ := bind_eq_some_iff.mp run
        cases handed with
        | some sent =>
          simp only [bind_eq_some_iff, Option.pure_def, some.injEq,
            Prod.mk.injEq] at run
          obtain ⟨-, -, rfl, rfl⟩ := run
          refine .inr ⟨_, sent, Nat.pos_of_ne_zero some_, ?_, ?_, out, rfl, rfl⟩
          · exact Nat.min_le_left _ _
          · exact Nat.min_le_right _ _
        | none =>
          simp only at run
          split at run
          · next part =>
              -- The part that is sent is shorter than the block asked for.
              have shorter : UInt32.sub (UInt32.add b.firstByteSeq.value.toNat b.sentSize)
                  seq.value.toNat ≤ n := by
                obtain ⟨before, behind⟩ := part
                have small := UInt32.add_lt b.firstByteSeq.value.toNat b.sentSize
                rw [UInt32.sub_of_le before.le small]
                unfold UInt32.add at behind small ⊢
                omega
              rcases ih run with left | ⟨s, out, pos, le, rest⟩
              · exact .inl left
              · exact .inr ⟨s, out, pos, Nat.le_trans le shorter, rest⟩
          · cases run

end CopyFromSequence

section Discard

variable {profile : BuildProfile} {now : Int} {b b' : TcpTxBuffer} {n turns : Nat}

/-- A buffer in whose sent list `n` bytes less are held: `list` is what stays of it. -/
def shortened (list : PacketList) (n : Nat) (b : TcpTxBuffer) : TcpTxBuffer :=
  { b with
    sentList := list
    size := UInt32.sub b.size n
    sentSize := UInt32.sub b.sentSize n
    firstByteSeq := b.firstByteSeq.add n }

theorem refill_cases {b₁ : TcpTxBuffer} (run : b.refill profile now n = some b₁) :
    (b.sentList ≠ [] ∧ b₁ = b) ∨ b.sentList = [] ∧ ∃ item,
      b.copyFromSequence profile now n b.firstByteSeq = some (some item, b₁) := by
  rw [refill] at run
  split at run
  · next sent =>
    cases run
    exact .inl ⟨sent ▸ cons_ne_nil _ _, rfl⟩
  · next sent =>
    obtain ⟨⟨item, b₂⟩, copy, run⟩ := bind_returns.mp run
    cases item with
    | none => cases run
    | some item =>
      cases run
      exact .inr ⟨sent, item, copy⟩

/-- Induction along the loop of `DiscardUpTo`: it stops, or it takes a whole item off the
front and goes on, or it takes a part of an item. -/
theorem discardLoop_induct {R : Nat → TcpTxBuffer → Prop}
    (stop : ∀ {n}, ¬ (0 < b'.size ∧ 0 < n) → R n b')
    (whole : ∀ {n b b₁ b₂ item rest}, 0 < b.size ∧ 0 < n → b.refill profile now n = some b₁ →
      b₁.sentList = item :: rest → item.size ≤ n →
      b₁.removeFromCounts profile item item.size = some b₂ →
      R (n - item.size) (b₂.shortened rest item.size) → R n b)
    (part : ∀ {n b b₁ b₂ item rest packet}, 0 < b.size ∧ 0 < n →
      b.refill profile now n = some b₁ → b₁.sentList = item :: rest → n < item.size →
      item.packet.createFragment profile n (item.size - n) = some packet →
      b₁.removeFromCounts profile item n = some b₂ →
      b' = b₂.shortened ({ item with packet, startSeq := item.startSeq.add n } :: rest) n → R n b)
    (run : discardLoop profile now turns n b = some b') : R n b := by
  induction turns generalizing b n with
  | zero =>
    rw [discardLoop] at run
    split at run
    · cases run
    · next idle =>
      cases run
      exact stop idle
  | succ turns ih =>
    rw [discardLoop] at run
    split at run
    · next goes =>
      obtain ⟨b₁, filled, run⟩ := bind_returns.mp run
      split at run
      · cases run
      · next item rest sent =>
        obtain ⟨-, -, run⟩ := bind_returns.mp run
        split at run
        · next le =>
          obtain ⟨b₂, counted, run⟩ := bind_returns.mp run
          exact whole goes filled sent le counted (ih run)
        · next inside =>
          simp only [bind_returns, pure_returns] at run
          obtain ⟨packet, cut, b₂, counted, same⟩ := run
          exact part goes filled sent (Nat.not_le.mp inside) cut counted same.symm
    · next idle =>
      cases run
      exact stop idle

/-- The packet of an item of which a part was taken. -/
theorem length_cut {item : TcpTxItem} {packet : Packet} (inside : n < item.size)
    (small : item.size < 2 ^ 32)
    (cut : item.packet.createFragment profile n (item.size - n) = some packet) :
    packet.length = item.size - n := by
  unfold TcpTxItem.size at inside small cut ⊢
  rw [Packet.createFragment_of_le (by omega) (by omega)] at cut
  rw [← some.inj cut, length_take, length_drop, Nat.min_self]

end Discard

section Marks

variable {profile : BuildProfile} {item next : TcpTxItem} {rest list' : PacketList}

/-- Does the block of a SACK option cover an item that begins at this number? -/
def Covers (block : SackBlock) (begin_ : SequenceNumber32) (item : TcpTxItem) : Prop :=
  (begin_.ge block.1 && (begin_.add item.size).le block.2) = true
  deriving Decidable

/-- One item under one block of the option: it is covered and sacked already, or
newly marked, or it ends the walk, or it is passed over. -/
theorem sackBlock_cons_cases {block : SackBlock} {pos : SequenceNumber32} {k k' : Sacking}
    (run : sackBlock profile block (item :: rest) pos k = some (list', k')) :
    (∃ rest', Covers block pos item ∧ item.sacked = true ∧
      (profile = .debug → item.lost = false) ∧
      sackBlock profile block rest (pos.add item.size) k = some (rest', k') ∧
      list' = item :: rest') ∨
    (∃ rest', Covers block pos item ∧ item.sacked = false ∧
      sackBlock profile block rest (pos.add item.size) (k.mark item pos) = some (rest', k') ∧
      list' = { item with lost := false, sacked := true } :: rest') ∨
    (¬ Covers block pos item ∧ (pos.add item.size).gt block.2 = true ∧
      list' = item :: rest ∧ k' = k) ∨
    (∃ rest', ¬ Covers block pos item ∧ (pos.add item.size).gt block.2 = false ∧
      sackBlock profile block rest (pos.add item.size) k = some (rest', k') ∧
      list' = item :: rest') := by
  rw [sackBlock] at run
  by_cases covers : Covers block pos item
  · have covered : (pos.ge block.1 && (pos.add item.size).le block.2) = true := covers
    simp only [covered, if_true] at run
    cases sacked : item.sacked with
    | true =>
      simp only [sacked, if_true, bind_returns, pure_returns, Prod.mk.injEq] at run
      obtain ⟨_, assertion, ⟨rest', k₁⟩, walk, rfl, rfl⟩ := run
      refine .inl ⟨rest', covers, rfl, ?_, walk, rfl⟩
      rintro rfl
      simpa using assertion
    | false =>
      simp only [sacked, Bool.false_eq_true, if_false, bind_returns, pure_returns,
        Prod.mk.injEq] at run
      obtain ⟨⟨rest', k₁⟩, walk, rfl, rfl⟩ := run
      exact .inr (.inl ⟨rest', covers, rfl, walk, rfl⟩)
  · have passed : (pos.ge block.1 && (pos.add item.size).le block.2) = false :=
      Bool.eq_false_iff.mpr covers
    simp only [passed, Bool.false_eq_true, if_false] at run
    cases past : (pos.add item.size).gt block.2 with
    | true =>
      simp only [past, if_true, Option.pure_def, some.injEq, Prod.mk.injEq] at run
      exact .inr (.inr (.inl ⟨covers, rfl, run.1.symm, run.2.symm⟩))
    | false =>
      simp only [past, Bool.false_eq_true, if_false, bind_returns, pure_returns,
        Prod.mk.injEq] at run
      obtain ⟨⟨rest', k₁⟩, walk, rfl, rfl⟩ := run
      exact .inr (.inr (.inr ⟨rest', covers, rfl, walk, rfl⟩))

/-- Items of the list, each covered by one of the blocks, marked one after the
other. -/
inductive Marked (head : SequenceNumber32) (blocks : SackList) :
    PacketList → Sacking → PacketList → Sacking → Prop
  | refl (list : PacketList) (k : Sacking) : Marked head blocks list k list k
  | mark {front rest list' : PacketList} {item : TcpTxItem} {k k' : Sacking} {block : SackBlock}
      (member : block ∈ blocks) (covers : Covers block (head.at (total front)) item)
      (fresh : item.sacked = false)
      (next : Marked head blocks (front ++ { item with lost := false, sacked := true } :: rest)
        (k.mark item (head.at (total front))) list' k') :
      Marked head blocks (front ++ item :: rest) k list' k'

theorem Marked.trans {head : SequenceNumber32} {blocks : SackList} {list list₁ list₂ : PacketList}
    {k k₁ k₂ : Sacking} (h : Marked head blocks list k list₁ k₁)
    (h' : Marked head blocks list₁ k₁ list₂ k₂) : Marked head blocks list k list₂ k₂ := by
  induction h with
  | refl => exact h'
  | mark member covers fresh _ ih => exact .mark member covers fresh (ih h')

theorem sackBlock_marked {head : SequenceNumber32} {blocks : SackList} {block : SackBlock}
    {list list' : PacketList} {k k' : Sacking} (front : PacketList) (member : block ∈ blocks)
    (run : sackBlock profile block list (head.at (total front)) k = some (list', k')) :
    Marked head blocks (front ++ list) k (front ++ list') k' := by
  induction list generalizing list' k front with
  | nil =>
    obtain ⟨rfl, rfl⟩ := run
    exact .refl _ _
  | cons item rest ih =>
    have last : (head.at (total front)).add item.size = head.at (total (front ++ [item])) := by
      rw [SequenceNumber.at_add, total_append, total_cons, total_nil]
      rfl
    have walk : ∀ {item' : TcpTxItem} {k₁ : Sacking} {rest' : PacketList},
        item'.size = item.size →
        sackBlock profile block rest (head.at (total (front ++ [item]))) k₁ =
          some (rest', k') →
        Marked head blocks (front ++ item' :: rest) k₁ (front ++ item' :: rest') k' := by
      intro item' k₁ rest' size run
      have same : total (front ++ [item']) = total (front ++ [item]) := by simp [size]
      have marked := ih (front ++ [item']) (same ▸ run)
      rw [append_assoc, append_assoc] at marked
      exact marked
    obtain ⟨rest', -, -, -, next, rfl⟩ | ⟨rest', covers, fresh, next, rfl⟩ | ⟨-, -, rfl, rfl⟩ |
      ⟨rest', -, -, next, rfl⟩ := sackBlock_cons_cases run
    · exact walk rfl (last ▸ next)
    · exact .mark member covers fresh (walk rfl (last ▸ next))
    · exact .refl _ _
    · exact walk rfl (last ▸ next)

/-- The blocks of an option up to the first one that is beyond the sent list. -/
def processed (first : SequenceNumber32) (sentSize : Nat) (blocks : SackList) : SackList :=
  blocks.takeWhile fun block => !(first.add sentSize).lt block.1

/-- All that the blocks of an option do. -/
theorem sackBlocks_marked {first : SequenceNumber32} {sentSize : Nat} {all blocks : SackList}
    {list list' : PacketList} {k k' : Sacking} {goesOn : Bool}
    (run : sackBlocks profile first sentSize blocks list k = some (list', k', goesOn))
    (among : ∀ block ∈ processed first sentSize blocks, block ∈ all) :
    Marked first all list k list' k' ∧
      (goesOn = true ↔ processed first sentSize blocks = blocks) := by
  induction blocks generalizing list k with
  | nil =>
    obtain ⟨rfl, rfl, rfl⟩ := run
    exact ⟨.refl _ _, by simp [processed]⟩
  | cons block blocks ih =>
    rw [sackBlocks] at run
    cases beyond : (first.add sentSize).lt block.1 with
    | true =>
      simp only [beyond, if_true, Option.pure_def, some.injEq, Prod.mk.injEq] at run
      obtain ⟨rfl, rfl, rfl⟩ := run
      exact ⟨.refl _ _, by simp [processed, beyond]⟩
    | false =>
      have here : processed first sentSize (block :: blocks) =
          block :: processed first sentSize blocks := by
        rw [processed, takeWhile_cons_of_pos (by rw [beyond]; rfl), processed]
      rw [here] at among ⊢
      simp only [beyond, Bool.false_eq_true, if_false, bind_returns] at run
      obtain ⟨⟨list₁, k₁⟩, walk, run⟩ := run
      obtain ⟨member, others⟩ := forall_mem_cons.mp among
      obtain ⟨marked, goesOn_⟩ := ih run others
      have origin : first.at (total ([] : PacketList)) = first := SequenceNumber.at_zero first
      have first_ : Marked first all list k list₁ k₁ :=
        sackBlock_marked [] member (by rw [origin]; exact walk)
      exact ⟨first_.trans marked, goesOn_.trans (by simp)⟩

/-- One item on the way of `UpdateLostCount`. -/
theorem markLost_cons_cases {dupAckThresh node lostOut sacked lostOut' : Nat}
    (run : markLost dupAckThresh node lostOut (item :: rest) = some (sacked, list', lostOut')) :
    ∃ sacked₁ rest' lostOut₁,
      (item.node = node ∧ sacked₁ = 0 ∧ rest' = rest ∧ lostOut₁ = lostOut ∨
        item.node ≠ node ∧
          markLost dupAckThresh node lostOut rest = some (sacked₁, rest', lostOut₁)) ∧
      sacked = (if item.sacked then sacked₁ + 1 else sacked₁) ∧
      ((dupAckThresh ≤ sacked ∧ item.sacked = false ∧ item.lost = false ∧
          list' = { item with lost := true } :: rest' ∧
          lostOut' = UInt32.add lostOut₁ item.size) ∨
        (¬ (dupAckThresh ≤ sacked ∧ item.sacked = false ∧ item.lost = false) ∧
          list' = item :: rest' ∧ lostOut' = lostOut₁)) := by
  simp only [markLost, bind_returns] at run
  obtain ⟨⟨sacked₁, rest', lostOut₁⟩, visit, run⟩ := run
  refine ⟨sacked₁, rest', lostOut₁, ?_, ?_⟩
  · split at visit
    · next here =>
        simp only [some.injEq, Prod.mk.injEq] at visit
        exact .inl ⟨here, visit.1.symm, visit.2.1.symm, visit.2.2.symm⟩
    · next there => exact .inr ⟨there, visit⟩
  · generalize (if item.sacked then sacked₁ + 1 else sacked₁) = counted at run ⊢
    cases lost : decide (dupAckThresh ≤ counted) && !item.sacked && !item.lost with
    | true =>
      simp only [lost, if_true, Option.pure_def, some.injEq, Prod.mk.injEq] at run
      simp only [Bool.and_eq_true, decide_eq_true_eq, Bool.not_eq_true'] at lost
      obtain ⟨rfl, list, out⟩ := run
      exact ⟨rfl, .inl ⟨lost.1.1, lost.1.2, lost.2, list.symm, out.symm⟩⟩
    | false =>
      simp only [lost, Bool.false_eq_true, if_false, Option.pure_def, some.injEq,
        Prod.mk.injEq] at run
      obtain ⟨rfl, list, out⟩ := run
      refine ⟨rfl, .inr ⟨?_, list.symm, out.symm⟩⟩
      rintro ⟨enough, sacked, notLost⟩
      exact Bool.false_ne_true (lost.symm.trans (by simp [enough, sacked, notLost]))

/-- What `UpdateLostCount` does to a list and to `m_lostOut`. -/
inductive LossMarks : PacketList → Nat → PacketList → Nat → Prop where
  | refl (list : PacketList) (lostOut : Nat) : LossMarks list lostOut list lostOut
  | keep {list list' : PacketList} {l l' : Nat} (item : TcpTxItem)
      (rest : LossMarks list l list' l') : LossMarks (item :: list) l (item :: list') l'
  | mark {list list' : PacketList} {l l' : Nat} {item : TcpTxItem} (notLost : item.lost = false)
      (rest : LossMarks list l list' l') :
      LossMarks (item :: list) l ({ item with lost := true } :: list') (UInt32.add l' item.size)

theorem markLost_marks {dupAckThresh node lostOut sacked lostOut' : Nat}
    (run : markLost dupAckThresh node lostOut list = some (sacked, list', lostOut')) :
    LossMarks list lostOut list' lostOut' := by
  induction list generalizing sacked list' lostOut' with
  | nil => cases run
  | cons item rest ih =>
    obtain ⟨sacked₁, rest', lostOut₁, visit, -, marked⟩ := markLost_cons_cases run
    have marks : LossMarks rest lostOut rest' lostOut₁ := by
      rcases visit with ⟨-, -, rfl, rfl⟩ | ⟨-, walk⟩
      · exact .refl _ _
      · exact ih walk
    rcases marked with ⟨-, -, notLost, rfl, rfl⟩ | ⟨-, rfl, rfl⟩
    · exact .mark notLost marks
    · exact .keep item marks

/-- All that `UpdateLostCount` changes. -/
theorem updateLostCount_marks {b b' : TcpTxBuffer} (run : b.updateLostCount = some b') :
    ∃ sentList lostOut, b' = { b with sentList, lostOut } ∧
      LossMarks b.sentList b.lostOut sentList lostOut := by
  unfold updateLostCount at run
  split at run
  · next node head tail _ sent =>
      simp only [bind_returns] at run
      obtain ⟨⟨sacked, tail', lostOut⟩, visit, run⟩ := run
      have marks : LossMarks tail b.lostOut tail' lostOut := by
        split at visit
        · cases visit
          exact .refl _ _
        · exact markLost_marks visit
      rw [sent]
      split at run
      · next marked =>
          cases run
          simp only [Bool.and_eq_true, Bool.not_eq_true'] at marked
          exact ⟨_, _, rfl, .mark marked.2 marks⟩
      · cases run
        exact ⟨_, _, rfl, .keep head marks⟩
  · cases run

/-- What does not depend on the flag is the same for every item. -/
theorem LossMarks.map {α : Type} {l l' : Nat} (h : LossMarks list l list' l') (f : TcpTxItem → α)
    (blind : ∀ item, f { item with lost := true } = f item) : list'.map f = list.map f := by
  induction h with
  | refl => rfl
  | keep item _ ih => rw [map_cons, map_cons, ih]
  | mark _ _ ih => rw [map_cons, map_cons, ih, blind]

end Marks

end Ns3.TcpTxBuffer
