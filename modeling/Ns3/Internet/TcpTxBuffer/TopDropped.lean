import Ns3.Internet.TcpTxBuffer.Pipe
import Ns3.Internet.TcpTxBuffer.TopSacked

/-!
# Acknowledging around the highest sacked item

`DiscardUpTo` takes items off the front, moves the mark of a sacked head to the first item behind
it that is not sacked, and forgets `m_highestSack` when it is not behind the new head. When the
sacked items lie together behind the head, `m_highestSack` stays the highest sacked item.
-/

namespace Ns3.TcpTxBuffer

open SequenceNumber List Option

section Discard

variable {profile : BuildProfile} {b b' : TcpTxBuffer} {list below above tail : PacketList}
variable {item top : TcpTxItem} {n turns : Nat} {now : Int} {seq head : SequenceNumber32}
variable {highestSack : Option Nat × SequenceNumber32}

/-- What is left of the items when their first `n` bytes are acknowledged. The first of them may
be acknowledged in part. -/
def remaining : Nat → PacketList → PacketList
  | _, [] => []
  | n, item :: rest => if item.size ≤ n then remaining (n - item.size) rest else item :: rest

/-- Once an item is not sacked, no later one is. -/
def Tidy (list : PacketList) : Prop := list.Pairwise fun x y => x.sacked = false → y.sacked = false
  deriving Decidable

/-- When a sacked item becomes the head, its mark does not move into a gap. -/
def SettlesInOrder : PacketList → Prop
  | [] => True
  | head :: tail => head.sacked = true → Tidy tail

instance : (list : PacketList) → Decidable (SettlesInOrder list)
  | [] => instDecidableTrue
  | _ :: _ => inferInstanceAs (Decidable (_ → _))

/-- The condition on an acknowledgement: it acknowledges sent data, if anything, and leaves no
sacked head whose mark would move into a gap. -/
def DiscardsInOrder (b : TcpTxBuffer) (seq : SequenceNumber32) : Prop :=
  b.firstByteSeq.ge seq = true ∨
    ((seq.sub b.firstByteSeq).toNat ≤ b.sentSize ∧
      SettlesInOrder (remaining (seq.sub b.firstByteSeq).toNat b.sentList))
  deriving Decidable

/-- The items `list` have been acknowledged up to a place in front of the item `top`, at it, or
behind it. -/
structure Dropped (b b' : TcpTxBuffer) (n : Nat) : Prop where
  head : b'.firstByteSeq = b.firstByteSeq.at n
  highestSack : b'.highestSack = b.highestSack
  appList : b'.appList = b.appList
  threshold : b'.dupAckThresh = b.dupAckThresh
  nextNode : b'.nextNode = b.nextNode
  left : (remaining n b.sentList = [] ∧ b'.sentList = []) ∨
    ∃ front item item' rest, b.sentList = front ++ item :: rest ∧
      remaining n b.sentList = item :: rest ∧ b'.sentList = item' :: rest ∧
      item'.node = item.node ∧ item'.sacked = item.sacked ∧
      total front ≤ n ∧ item'.size + n = total front + item.size

theorem Dropped.nothing (positive : Positive b.sentList) : Dropped b b 0 := by
  refine ⟨(at_zero _).symm, rfl, rfl, rfl, rfl, ?_⟩
  cases sent : b.sentList with
  | nil => exact .inl ⟨rfl, rfl⟩
  | cons item rest =>
    have pos : 0 < item.size := positive item (by rw [sent]; exact mem_cons_self)
    refine .inr ⟨[], item, item, rest, rfl, ?_, rfl, rfl, rfl, le_rfl, ?_⟩
    · rw [remaining, if_neg (by omega)]
    · rw [total_nil]
      omega

/-- The loop takes whole items off the front, and then a part of the next one. -/
theorem discardLoop_dropped (positive : Positive b.sentList) (le : n ≤ total b.sentList)
    (fits : total b.sentList ≤ b.size) (small : b.size < 2 ^ 32)
    (run : discardLoop profile now turns n b = some b') : Dropped b b' n := by
  have first {n : Nat} {b b₁ : TcpTxBuffer} (wanted : 0 < n) (le : n ≤ total b.sentList)
      (run : b.refill profile now n = some b₁) : b₁ = b := by
    obtain ⟨-, rfl⟩ | ⟨none_, -⟩ := refill_cases run
    · rfl
    · rw [none_, total_nil] at le
      omega
  refine discardLoop_induct (R := fun n b => Positive b.sentList → n ≤ total b.sentList →
    total b.sentList ≤ b.size → b.size < 2 ^ 32 →
      Dropped b b' n) ?_ ?_ ?_ run positive le fits small
  · intro n idle positive le fits _
    obtain rfl : n = 0 := by omega
    exact Dropped.nothing positive
  · intro n b b₁ b₂ item rest goes filled sent whole removed ih positive le fits small
    obtain rfl := first goes.2 le filled
    rw [sent] at positive le fits
    rw [total_cons] at le fits
    obtain ⟨pos, others⟩ := positive_cons.mp positive
    obtain ⟨sackedOut, retrans, lostOut, rfl⟩ :=
      (removeFromCounts_contract item item.size b₁).of_eq_some removed
    have size : UInt32.sub b₁.size item.size = b₁.size - item.size :=
      UInt32.sub_of_le (by omega) small
    have shorter : n - item.size ≤ total rest := by omega
    have fits' : total rest ≤ UInt32.sub b₁.size item.size := by omega
    have small' : UInt32.sub b₁.size item.size < 2 ^ 32 := by omega
    have dropped := ih others shorter fits' small'
    have next : (b₁.firstByteSeq.add item.size).at (n - item.size : Nat) =
        b₁.firstByteSeq.at n := by
      rw [add_eq_at, at_at, ← Nat.cast_add, Nat.add_sub_cancel' whole]
    have left : remaining n b₁.sentList = remaining (n - item.size) rest := by
      rw [sent, remaining, if_pos whole]
    refine ⟨dropped.head.trans next, dropped.highestSack, dropped.appList, dropped.threshold,
      dropped.nextNode, ?_⟩
    rw [left, sent]
    rcases dropped.left with nothing | ⟨front, x, x', others, eq, rest_, after, node, flag,
      before, size_⟩
    · exact .inl nothing
    · refine .inr ⟨item :: front, x, x', others, ?_, rest_, after, node, flag, ?_, ?_⟩
      · exact congrArg (List.cons item) eq
      · rw [total_cons]
        omega
      · rw [total_cons]
        omega
  · rintro n b b₁ b₂ item rest packet goes filled sent inside cut removed rfl positive le fits
      small
    obtain rfl := first goes.2 le filled
    rw [sent, total_cons] at le fits
    obtain ⟨sackedOut, retrans, lostOut, rfl⟩ :=
      (removeFromCounts_contract item n b₁).of_eq_some removed
    have size := length_cut inside (by omega) cut
    refine ⟨add_eq_at _ _, rfl, rfl, rfl, rfl, .inr ⟨[], item, _, rest, sent, ?_, rfl, rfl, rfl,
      Nat.zero_le _, ?_⟩⟩
    · rw [sent, remaining, if_neg (Nat.not_le.mpr inside)]
    · rw [TcpTxItem.size, size, total_nil]
      omega

/-- Where `m_highestSack` is when the head has moved on: it lags behind when its item is gone or
has become the head. -/
def TopDropped (head : SequenceNumber32) (highestSack : Option Nat × SequenceNumber32)
    (list : PacketList) : Prop :=
  ((∀ x ∈ list, x.sacked = false) ∧ (highestSack.1 = none ∨ highestSack.2.le head = true)) ∨
    (∃ first below top above, list = first :: below ++ top :: above ∧ top.sacked = true ∧
      (∀ x ∈ above, x.sacked = false) ∧
      highestSack = (some top.node, head.at (total (first :: below)))) ∨
    ∃ top above, list = top :: above ∧ top.sacked = true ∧ (∀ x ∈ above, x.sacked = false) ∧
      highestSack.2.le head = true

theorem total_le_of_gone (gone : remaining n list = []) : total list ≤ n := by
  induction list generalizing n with
  | nil => exact Nat.zero_le n
  | cons item rest ih =>
    rw [remaining] at gone
    by_cases whole : item.size ≤ n
    · rw [if_pos whole] at gone
      have := ih gone
      rw [total_cons]
      omega
    · rw [if_neg whole] at gone
      exact absurd gone (cons_ne_nil _ _)

theorem TopSacked.dropped (ranked : TopSacked b.firstByteSeq b.highestSack b.sentList)
    (near : total b.sentList ≤ halfMaxValue 32) (le : n ≤ total b.sentList)
    (dropped : Dropped b b' n) :
    TopDropped b'.firstByteSeq b'.highestSack b'.sentList := by
  rw [dropped.head, dropped.highestSack]
  have lags : ∀ {q : Nat}, q ≤ n → (b.firstByteSeq.at q).le (b.firstByteSeq.at n) = true := by
    intro q before
    rw [le_at_nat (by omega) (by omega)]
    exact decide_eq_true before
  rcases ranked with ⟨none_, clear⟩ | ⟨below, top, above, eq, sacked, cache, notAbove⟩
  · refine .inl ⟨?_, .inl none_⟩
    rcases dropped.left with ⟨-, nothing⟩ | ⟨front, item, item', rest, sent, -, after, -, flag, -⟩
    · rw [nothing]
      exact fun x member => absurd member not_mem_nil
    · rw [after]
      refine forall_mem_cons.mpr ⟨?_, fun x member => clear x (by rw [sent]; simp [member])⟩
      exact flag.trans (clear item (by rw [sent]; simp))
  · rw [cache]
    rcases dropped.left with ⟨gone, nothing⟩ | ⟨front, item, item', rest, sent, -, after, node,
      flag, before, size⟩
    · have whole := total_le_of_gone gone
      rw [eq, total_append] at whole
      rw [nothing]
      exact .inl ⟨fun x member => absurd member not_mem_nil, .inr (lags (by omega))⟩
    · rw [after]
      rcases append_eq_append_iff.mp (sent.symm.trans eq) with
        ⟨between, rfl, tail⟩ | ⟨between, rfl, tail⟩
      · cases between with
        | nil =>
          -- The highest sacked item is the new head.
          obtain ⟨rfl, rfl⟩ := List.cons.inj tail
          rw [append_nil]
          exact .inr (.inr ⟨item', rest, rfl, flag.trans sacked, notAbove, lags before⟩)
        | cons x between =>
          cases tail
          refine .inr (.inl ⟨item', between, top, above, rfl, sacked, notAbove, ?_⟩)
          rw [at_at, ← Nat.cast_add, total_append, total_cons, total_cons]
          have same : n + (item'.size + total between) =
              total front + (item.size + total between) := by omega
          rw [same]
      · cases between with
        | nil =>
          cases tail
          rw [append_nil] at before
          exact .inr (.inr ⟨item', above, rfl, flag.trans sacked, notAbove, lags before⟩)
        | cons x between =>
          -- The highest sacked item is acknowledged.
          cases tail
          rw [total_append] at before
          refine .inl ⟨forall_mem_cons.mpr ⟨?_, fun x member => ?_⟩,
            .inr (lags (by omega))⟩
          · exact flag.trans (notAbove item (by simp))
          · exact notAbove x (by simp [member])

/-- In a tidy list the first item that is not sacked follows all sacked ones. -/
theorem sackFirst_tidy (tidy : Tidy list) :
    ((∀ x ∈ list, x.sacked = true) ∧ sackFirst list = (list, none)) ∨
      ∃ front unsacked rest, list = front ++ unsacked :: rest ∧
        (∀ x ∈ rest, x.sacked = false) ∧
        sackFirst list = (front ++ { unsacked with sacked := true } :: rest, some unsacked) := by
  induction list with
  | nil => exact .inl ⟨fun x member => absurd member not_mem_nil, rfl⟩
  | cons item rest ih =>
    obtain ⟨behind, others⟩ := pairwise_cons.mp tidy
    cases sacked : item.sacked with
    | false =>
      refine .inr ⟨[], item, rest, rfl, fun x member => behind x member sacked, ?_⟩
      rw [sackFirst, sacked]
      rfl
    | true =>
      rcases ih others with ⟨all, none_⟩ | ⟨front, unsacked, rest, rfl, clear, some_⟩
      · refine .inl ⟨forall_mem_cons.mpr ⟨sacked, all⟩, ?_⟩
        rw [sackFirst, if_pos sacked, none_]
      · refine .inr ⟨item :: front, unsacked, rest, rfl, clear, ?_⟩
        rw [sackFirst, if_pos sacked, some_]
        rfl

/-- What becomes of a sacked head. -/
theorem settleHead_moves {rest : PacketList} (sent : b.sentList = item :: rest)
    (sacked : item.sacked = true) (run : b.settleHead profile seq = some b') :
    ∃ item' rest' highestSack sackedOut lostOut retrans,
      b' = { b with sentList := item' :: rest', highestSack, sackedOut, lostOut, retrans } ∧
      item'.node = item.node ∧ item'.size = item.size ∧ item'.sacked = false ∧
      ((∃ unsacked, sackFirst rest = (rest', some unsacked) ∧
          highestSack = (some unsacked.node, unsacked.startSeq)) ∨
        ((sackFirst rest).2 = none ∧ rest' = rest ∧ highestSack = b.highestSack)) := by
  rw [settleHead.eq_def] at run
  simp only [sent, sacked, if_true, bind_returns, pure_returns] at run
  obtain ⟨_, ⟨_, -, b₁, moved, rfl⟩, _, -, rfl⟩ := run
  simp only [TcpTxBuffer.addRenoSack, bind_returns] at moved
  obtain ⟨_, -, moved⟩ := moved
  rcases first : sackFirst rest with ⟨rest', _ | unsacked⟩
  · rw [first, Option.pure_def, some.injEq] at moved
    subst moved
    exact ⟨_, _, _, _, _, _, rfl, rfl, rfl, rfl, .inr ⟨rfl, rfl, rfl⟩⟩
  · rw [first, Option.pure_def, some.injEq] at moved
    subst moved
    exact ⟨_, _, _, _, _, _, rfl, rfl, rfl, rfl, .inl ⟨unsacked, rfl, rfl⟩⟩

end Discard

section Settle

variable {profile : BuildProfile} {b b' : TcpTxBuffer} {list rest : PacketList} {n q : Nat}
variable {item : TcpTxItem} {now : Int} {seq head : SequenceNumber32}
variable {highestSack : Option Nat × SequenceNumber32}

/-- `m_highestSack` behind the reset at the end of `DiscardUpTo`. -/
def settled (head : SequenceNumber32) (highestSack : Option Nat × SequenceNumber32) :
    Option Nat × SequenceNumber32 :=
  if highestSack.2.le head then (none, .ofNat 0) else highestSack

theorem settled_of_le (lags : highestSack.2.le head = true) :
    settled head highestSack = (none, .ofNat 0) := if_pos lags

theorem settled_of_none (none_ : highestSack.1 = none) :
    (settled head highestSack).1 = none := by
  rw [settled]
  split
  · rfl
  · exact none_

theorem settled_of_behind {node : Option Nat} (pos : 0 < q) (near : q ≤ halfMaxValue 32) :
    settled head (node, head.at q) = (node, head.at q) := by
  have behind : (head.at q).le (head.at (0 : Nat)) = false := by
    rw [le_at_nat (by omega) (by omega), decide_eq_false_iff_not]
    omega
  have origin : head.at ((0 : Nat) : Int) = head := at_zero head
  rw [origin] at behind
  rw [settled, if_neg (by rw [behind]; exact Bool.false_ne_true)]

/-- A head that is not sacked leaves nothing to settle. -/
theorem TopDropped.kept (ranked : TopDropped head highestSack list)
    (first : ∀ x ∈ list.head?, x.sacked = false) (positive : Positive list)
    (near : total list ≤ halfMaxValue 32) : TopSacked head (settled head highestSack) list := by
  rcases ranked with ⟨clear, none_ | lags⟩ | ⟨first_, below, top, above, rfl, sacked, notAbove,
    cache⟩ | ⟨top, above, rfl, sacked, -, -⟩
  · exact .inl ⟨settled_of_none none_, clear⟩
  · rw [settled_of_le lags]
    exact .inl ⟨rfl, clear⟩
  · have pos : 0 < first_.size := positive first_ mem_cons_self
    simp only [total_cons, total_append] at near
    rw [cache, settled_of_behind (by rw [total_cons]; omega) (by rw [total_cons]; omega)]
    exact .inr ⟨first_ :: below, top, above, rfl, sacked, rfl, notAbove⟩
  · exact absurd ((first top rfl).symm.trans sacked) Bool.false_ne_true

/-- A sacked head hands its mark on, or there is no item for it. -/
theorem TopDropped.moves {item' : TcpTxItem} (ranked : TopDropped head highestSack (item :: rest))
    (sacked : item.sacked = true) (tidy : Tidy rest) (starts : Starts head 0 (item :: rest))
    (positive : Positive (item :: rest)) (near : total (item :: rest) ≤ halfMaxValue 32)
    (size : item'.size = item.size) (clear : item'.sacked = false) {rest' : PacketList}
    {highestSack' : Option Nat × SequenceNumber32}
    (mark : (∃ unsacked, sackFirst rest = (rest', some unsacked) ∧
        highestSack' = (some unsacked.node, unsacked.startSeq)) ∨
      ((sackFirst rest).2 = none ∧ rest' = rest ∧ highestSack' = highestSack)) :
    TopSacked head (settled head highestSack') (item' :: rest') := by
  have pos : 0 < item.size := positive item mem_cons_self
  rcases sackFirst_tidy tidy with ⟨all, none_⟩ | ⟨front, unsacked, others, rfl, clear', some_⟩
  · obtain ⟨_, some_, -⟩ | ⟨-, rfl, rfl⟩ := mark
    · rw [none_] at some_
      exact absurd (congrArg Prod.snd some_).symm (some_ne_none _)
    rcases ranked with ⟨none', -⟩ | ⟨first, below, top, above, eq, sackedTop, notAbove, cache⟩ |
      ⟨top, above, eq, -, notAbove, lags⟩
    · exact absurd ((none' item mem_cons_self).symm.trans sacked) Bool.false_ne_true
    · cases eq
      have within : total (below ++ top :: above) ≤ halfMaxValue 32 - item.size := by
        exact Nat.le_sub_of_add_le' near
      rw [total_append] at within
      rw [total_cons] at near
      rw [cache, total_cons, settled_of_behind (by omega) (by omega)]
      refine .inr ⟨item' :: below, top, above, rfl, sackedTop, ?_, notAbove⟩
      rw [total_cons, size]
    · cases eq
      rw [settled_of_le lags]
      exact .inl ⟨rfl, forall_mem_cons.mpr ⟨clear, notAbove⟩⟩
  · obtain ⟨_, same, rfl⟩ | ⟨none_, -⟩ := mark
    swap
    · rw [some_] at none_
      cases none_
    rw [some_, Prod.mk.injEq, some.injEq] at same
    obtain ⟨rfl, rfl⟩ := same
    obtain ⟨-, others_⟩ := starts_cons.mp starts
    obtain ⟨-, later⟩ := starts_append.mp others_
    obtain ⟨begin_, -⟩ := starts_cons.mp later
    rw [Nat.zero_add] at begin_
    rw [total_cons, total_append] at near
    rw [begin_, settled_of_behind (by omega) (by omega)]
    refine .inr ⟨item' :: front, _, others, rfl, rfl, ?_, clear'⟩
    rw [total_cons, size]

/-- What the end of `DiscardUpTo` makes of the buffer. -/
theorem TopDropped.settleHead (ranked : TopDropped b.firstByteSeq b.highestSack b.sentList)
    (starts : Starts b.firstByteSeq 0 b.sentList) (positive : Positive b.sentList)
    (near : total b.sentList ≤ halfMaxValue 32) (inOrder : SettlesInOrder b.sentList)
    (run : b.settleHead profile seq = some b') :
    ∃ list highestSack sackedOut lostOut retrans,
      b' = { b with sentList := list, highestSack, sackedOut, lostOut, retrans } ∧
      list.map TcpTxItem.node = b.sentList.map TcpTxItem.node ∧
      TopSacked b.firstByteSeq (settled b.firstByteSeq highestSack) list := by
  by_cases first : ∀ item ∈ b.sentList.head?, item.sacked = false
  · obtain rfl := settleHead_stays first run
    exact ⟨_, _, _, _, _, rfl, rfl, ranked.kept first positive near⟩
  · cases sent : b.sentList with
    | nil => exact absurd (fun item member => by rw [sent] at member; cases member) first
    | cons item rest =>
      rw [sent] at first ranked starts positive near inOrder
      have sacked : item.sacked = true := by
        by_contra notSacked
        refine first fun x member => ?_
        cases member
        exact Bool.eq_false_iff.mpr notSacked
      obtain ⟨item', rest', highestSack, sackedOut, lostOut, retrans, rfl, node, size, clear,
        mark⟩ := settleHead_moves sent sacked run
      have nodes : rest'.map TcpTxItem.node = rest.map TcpTxItem.node := by
        rcases mark with ⟨unsacked, some_, -⟩ | ⟨-, rfl, -⟩
        · rcases sackFirst_tidy
            (inOrder sacked) with ⟨-, none_⟩ | ⟨front, u, others, rfl, -, same⟩
          · rw [none_] at some_
            exact absurd (congrArg Prod.snd some_).symm (some_ne_none _)
          · rw [same, Prod.mk.injEq] at some_
            rw [← some_.1, map_append, map_append, map_cons, map_cons]
        · rfl
      refine ⟨_, _, _, _, _, rfl, ?_, ?_⟩
      · rw [map_cons, map_cons, node, nodes]
      · exact ranked.moves sacked (inOrder sacked) starts positive near size clear mark

end Settle

end Ns3.TcpTxBuffer
