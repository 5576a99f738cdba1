import Ns3.Internet.TcpTxBuffer.Consistency

/-!
# Sacked or lost, not both

The scoreboard counts a segment as sacked or as lost, and `BytesInFlight` takes both counts off
the size of the sent data. Most calls that set one mark clear the other or look at it first.
`AddRenoSack` does neither: it marks the first item behind the head that is not sacked, also when
that item is lost. `DiscardUpTo` calls it when a sacked item becomes the head.

The assertions that compare the two counts with the size are left out of the calls here, so that
a run also reaches the states in which they fail.
-/

namespace Ns3.TcpTxBuffer

open SequenceNumber List Option

/-- `Update` in debug builds, without the assertion on the counts. -/
def updateUnsummed (b : TcpTxBuffer) (list : SackList) : Option (Nat × TcpTxBuffer) := do
  let (sentList, k, goesOn) ← sackBlocks .debug b.firstByteSeq b.sentSize list b.sentList
    { lostOut := b.lostOut, sackedOut := b.sackedOut, bytesSacked := 0,
      highestSack := b.highestSack }
  let b := { b with
    sentList, lostOut := k.lostOut, sackedOut := k.sackedOut, highestSack := k.highestSack }
  if !goesOn then
    return (k.bytesSacked, b)
  let b ← (if 0 < k.bytesSacked then do
      nsAssert .debug b.highestSack.1.isSome
      b.updateLostCount
    else some b)
  nsAssert .debug (b.sentList.head?.any fun head => !head.sacked)
  return (k.bytesSacked, b)

/-- `DiscardUpTo` in debug builds, without the assertion on the counts. -/
def discardUpToUnsummed (now : Int) (b : TcpTxBuffer) (seq : SequenceNumber32) :
    Option TcpTxBuffer :=
  if b.firstByteSeq.ge seq then some b
  else do
    let offset := (seq.sub b.firstByteSeq).toNat
    let b ← discardLoop .debug now offset offset b
    let b ← settleHead .debug seq
      (if b.size = 0 then { b with firstByteSeq := seq } else b)
    let b := if b.highestSack.2.le b.firstByteSeq then { b with highestSack := (none, .ofNat 0) }
      else b
    nsAssert .debug (b.firstByteSeq.ge seq)
    return b

/-- The calls in debug builds without these assertions. That of `SetSentListLost` is its only
one. -/
def callUnsummed (b : TcpTxBuffer) : Call → Option TcpTxBuffer
  | .update list => (b.updateUnsummed list).map Prod.snd
  | .discardUpTo now seq => b.discardUpToUnsummed now seq
  | .setSentListLost resetSack => b.setSentListLost .optimized resetSack
  | c => b.call .debug c

/-- The mark of an item is one of the two at most. -/
def Apart (item : TcpTxItem) : Prop := ¬ (item.sacked = true ∧ item.lost = true)

/-- No item is both sacked and lost. The counts fit into the sent data, as the assertions of
`BytesInFlight`, `Update` and `DiscardUpTo` say, and after a timeout nothing is in flight. -/
structure OneMark (b : TcpTxBuffer) : Prop where
  apart : ∀ item ∈ b.sentList, Apart item
  sum : UInt32.add b.sackedOut b.lostOut ≤ b.sentSize
  timeout : ∀ resetSack, ∃ b', b.setSentListLost .debug resetSack = some b' ∧
    b'.bytesInFlight .debug = some 0

/-- The first item that is not sacked is not lost. -/
def NextUnlost (list : PacketList) : Prop :=
  ∀ item ∈ list.find? fun item => !item.sacked, item.lost = false
  deriving Decidable

/-- A sacked head hands its mark to an item that is not lost. -/
def HandsUnlost (list : PacketList) : Prop :=
  ∀ head ∈ list.head?, head.sacked = true → NextUnlost list.tail
  deriving Decidable

/-- The items that the loop of `DiscardUpTo` leaves of those that were sent, when `size` bytes
are buffered and `n` acknowledged. The first of them may be acknowledged in part. -/
def kept : Nat → Nat → PacketList → PacketList
  | _, _, [] => []
  | size, n, item :: rest =>
    if 0 < size ∧ 0 < n ∧ item.size ≤ n then kept (size - item.size) (n - item.size) rest
    else item :: rest

/-- A mark that a call moves or adds for an emulated SACK goes to an item that is not lost. -/
def MarksUnlost (b : TcpTxBuffer) : Call → Prop
  | .addRenoSack => NextUnlost b.sentList.tail
  | .discardUpTo _ seq => b.firstByteSeq.ge seq = true ∨
      HandsUnlost (kept b.size (seq.sub b.firstByteSeq).toNat b.sentList)
  | _ => True

instance (b : TcpTxBuffer) : (c : Call) → Decidable (b.MarksUnlost c)
  | .addRenoSack => inferInstanceAs (Decidable (NextUnlost _))
  | .discardUpTo _ _ => inferInstanceAs (Decidable (_ ∨ HandsUnlost _))
  | .add _ | .copyFromSequence _ _ _ | .update _ | .resetRenoSack | .markHeadAsLost
  | .deleteRetransmittedFlagFromHead | .setSentListLost _ | .resetSentList
  | .resetLastSegmentSent => instDecidableTrue

section Unsummed

variable {b b' : TcpTxBuffer} {c : Call}

/-- Where the counts fit, the assertions on them stop no call. -/
theorem call_of_unsummed (run : b.callUnsummed c = some b')
    (sum : UInt32.add b'.sackedOut b'.lostOut ≤ b'.sentSize) : b.call .debug c = some b' := by
  cases c with
  | update list =>
    obtain ⟨⟨n, b₁⟩, update, rfl⟩ := map_eq_some_iff.mp run
    simp only [updateUnsummed, bind_eq_bind, bind_eq_some_iff] at update
    obtain ⟨⟨sentList, k, goesOn⟩, walk, update⟩ := update
    have same : b.update .debug list = some (n, b₁) := by
      simp only [TcpTxBuffer.update, bind_eq_bind, bind_eq_some_iff]
      refine ⟨_, walk, ?_⟩
      split at update
      · next stops => rwa [if_pos stops]
      · next goes =>
        rw [if_neg goes]
        simp only [bind_eq_some_iff, Option.pure_def, some.injEq,
          Prod.mk.injEq] at update ⊢
        obtain ⟨b₂, counted, _, head, rfl, rfl⟩ := update
        exact ⟨b₂, counted, (), head, (), nsAssert_debug_eq_some.mpr (decide_eq_true sum),
          rfl, rfl⟩
    exact congrArg (Option.map Prod.snd) same
  | discardUpTo now seq =>
    show b.discardUpTo .debug now seq = some b'
    have run : b.discardUpToUnsummed now seq = some b' := run
    rw [discardUpToUnsummed] at run
    rw [discardUpTo]
    split at run
    · next already => rwa [if_pos already]
    · next ahead =>
      rw [if_neg ahead]
      simp only [bind_returns, pure_returns] at run ⊢
      obtain ⟨b₁, dropped, b₂, settled, _, reached, rfl⟩ := run
      exact ⟨b₁, dropped, b₂, settled, (), reached, (),
        nsAssert_debug_eq_some.mpr (decide_eq_true sum), rfl⟩
  | setSentListLost resetSack =>
    have run : b.setSentListLost .optimized resetSack = some b' := run
    show b.setSentListLost .debug resetSack = some b'
    simp only [setSentListLost, bind_eq_bind, nsAssert_optimized, bind_some,
      Option.pure_def, some.injEq, bind_eq_some_iff] at run ⊢
    subst run
    exact ⟨(), nsAssert_debug_eq_some.mpr (decide_eq_true sum), rfl⟩
  | add _ | copyFromSequence _ _ _ | addRenoSack | resetRenoSack | markHeadAsLost
  | deleteRetransmittedFlagFromHead | resetSentList | resetLastSegmentSent => exact run

end Unsummed

section Marks

variable {profile : BuildProfile} {b b' : TcpTxBuffer} {list list' new : PacketList}
variable {item : TcpTxItem}

theorem Clear.apart (h : Clear item) : Apart item := by
  rintro ⟨sacked, -⟩
  exact Bool.false_ne_true (h.1.symm.trans sacked)

/-- With one mark at most no byte is counted twice. -/
theorem flagged_add_le (apart : ∀ item ∈ list, Apart item) :
    flagged TcpTxItem.sacked list + flagged TcpTxItem.lost list ≤ total list := by
  induction list with
  | nil => exact le_refl 0
  | cons item rest ih =>
    obtain ⟨here, others⟩ := forall_mem_cons.mp apart
    have le := ih others
    have one : share TcpTxItem.sacked item + share TcpTxItem.lost item ≤ item.size := by
      cases sacked : item.sacked with
      | false =>
        rw [share, sacked, if_neg Bool.false_ne_true, Nat.zero_add]
        exact share_le _ item
      | true =>
        have notLost : item.lost = false := Bool.eq_false_iff.mpr fun lost => here ⟨sacked, lost⟩
        simp [share, sacked, notLost]
    rw [flagged_cons, flagged_cons, total_cons]
    omega

/-- Where every byte has a mark, the counts sum up to all of them. -/
theorem flagged_add_eq (apart : ∀ item ∈ list, Apart item)
    (marked : ∀ item ∈ list, item.sacked = true ∨ item.lost = true) :
    flagged TcpTxItem.sacked list + flagged TcpTxItem.lost list = total list := by
  induction list with
  | nil => rfl
  | cons item rest ih =>
    obtain ⟨here, others⟩ := forall_mem_cons.mp apart
    obtain ⟨mark, marks⟩ := forall_mem_cons.mp marked
    have eq := ih others marks
    have one : share TcpTxItem.sacked item + share TcpTxItem.lost item = item.size := by
      rcases mark with sacked | lost
      · have notLost : item.lost = false := Bool.eq_false_iff.mpr fun lost => here ⟨sacked, lost⟩
        simp [share, sacked, notLost]
      · have notSacked : item.sacked = false :=
          Bool.eq_false_iff.mpr fun sacked => here ⟨sacked, lost⟩
        simp [share, lost, notSacked]
    rw [flagged_cons, flagged_cons, total_cons]
    omega

theorem Reshape.apart {retrans retrans' : Nat} (h : Reshape profile list retrans list' retrans')
    (apart : ∀ item ∈ list, Apart item) : ∀ item ∈ list', Apart item := by
  induction h with
  | refl list retrans => exact apart
  | @split front rest list' item firstPart secondPart size node retrans retrans' _ parts _ ih =>
    obtain ⟨packet, eq⟩ := split_cases parts
    cases eq
    refine ih ?_
    simp only [forall_mem_append, forall_mem_cons] at apart ⊢
    exact ⟨apart.1, apart.2.1, apart.2.1, apart.2.2⟩
  | @merge front rest list' item second merged retrans retrans₁ retrans' joined _ ih =>
    obtain ⟨-, rfl, -⟩ := merge_cases joined
    refine ih ?_
    simp only [forall_mem_append, forall_mem_cons] at apart ⊢
    exact ⟨apart.1, apart.2.1, apart.2.2.2⟩

theorem Marked.apart {head : SequenceNumber32} {blocks : SackList} {k k' : Sacking}
    (h : Marked head blocks list k list' k') (apart : ∀ item ∈ list, Apart item) :
    ∀ item ∈ list', Apart item := by
  induction h with
  | refl list k => exact apart
  | @mark front rest list' item k k' block _ _ _ _ ih =>
    refine ih ?_
    simp only [forall_mem_append, forall_mem_cons] at apart ⊢
    exact ⟨apart.1, fun marks => Bool.false_ne_true marks.2, apart.2.2⟩

theorem markLost_apart {d node lostOut sacked lostOut' : Nat}
    (run : markLost d node lostOut list = some (sacked, list', lostOut'))
    (apart : ∀ item ∈ list, Apart item) : ∀ item ∈ list', Apart item := by
  induction list generalizing sacked list' lostOut' with
  | nil => exact absurd run (by simp [markLost])
  | cons item rest ih =>
    obtain ⟨here, others⟩ := forall_mem_cons.mp apart
    obtain ⟨sacked₁, rest', lostOut₁, visit, -, marked⟩ := markLost_cons_cases run
    have behind : ∀ item ∈ rest', Apart item := by
      rcases visit with ⟨-, -, rfl, -⟩ | ⟨-, walk⟩
      · exact others
      · exact ih walk others
    rcases marked with ⟨-, notSacked, -, rfl, -⟩ | ⟨-, rfl, -⟩
    · refine forall_mem_cons.mpr ⟨fun marks => ?_, behind⟩
      exact Bool.false_ne_true (notSacked.symm.trans marks.1)
    · exact forall_mem_cons.mpr ⟨here, behind⟩

/-- The loss pass does not look whether the head is sacked. -/
theorem updateLostCount_apart (run : b.updateLostCount = some b')
    (apart : ∀ item ∈ b.sentList, Apart item)
    (head : b'.sentList.head?.any (fun head => !head.sacked) = true) :
    ∀ item ∈ b'.sentList, Apart item := by
  unfold TcpTxBuffer.updateLostCount at run
  split at run
  · next node first tail _ sent =>
      rw [sent] at apart
      obtain ⟨here, others⟩ := forall_mem_cons.mp apart
      simp only [bind_returns] at run
      obtain ⟨⟨sacked, tail', lostOut⟩, visit, run⟩ := run
      have behind : ∀ item ∈ tail', Apart item := by
        split at visit
        · cases visit
          exact others
        · exact markLost_apart visit others
      split at run
      · rw [Option.pure_def, some.injEq] at run
        subst run
        refine forall_mem_cons.mpr ⟨fun marks => ?_, behind⟩
        rw [head?_cons, any_some, Bool.not_eq_true'] at head
        exact Bool.false_ne_true (head.symm.trans marks.1)
      · rw [Option.pure_def, some.injEq] at run
        subst run
        exact forall_mem_cons.mpr ⟨here, behind⟩
  · cases run

/-- An emulated SACK marks the first item that is not sacked, lost or not. -/
theorem sackFirst_apart_iff (apart : ∀ item ∈ list, Apart item) :
    (∀ item ∈ (sackFirst list).1, Apart item) ↔ NextUnlost list := by
  induction list with
  | nil => simp [sackFirst, NextUnlost]
  | cons item rest ih =>
    obtain ⟨here, others⟩ := forall_mem_cons.mp apart
    cases sacked : item.sacked with
    | true =>
      have next : NextUnlost (item :: rest) ↔ NextUnlost rest := by
        rw [NextUnlost, find?_cons_of_neg (by simp [sacked]), NextUnlost]
      rw [next, sackFirst, sacked, if_pos rfl, forall_mem_cons, ← ih others]
      exact and_iff_right here
    | false =>
      have next : NextUnlost (item :: rest) ↔ item.lost = false := by
        rw [NextUnlost, find?_cons_of_pos (by simp [sacked])]
        simp
      rw [next, sackFirst, sacked, if_neg Bool.false_ne_true, forall_mem_cons,
        and_iff_left others]
      simp [Apart]

theorem sackFirst_none (run : sackFirst list = (list', none)) : list' = list := by
  induction list generalizing list' with
  | nil => exact (Prod.mk.inj run).1.symm
  | cons item rest ih =>
    rw [sackFirst] at run
    cases sacked : item.sacked with
    | true =>
      rw [sacked, if_pos rfl] at run
      obtain ⟨rfl, found⟩ := Prod.mk.inj run
      exact congrArg (item :: ·) (ih (Prod.ext rfl found))
    | false =>
      rw [sacked, if_neg Bool.false_ne_true] at run
      exact absurd (Prod.mk.inj run).2 (by simp)

/-- Where `AddRenoSack` returns, it has marked what it could behind the head. -/
theorem addRenoSack_sentList (run : b.addRenoSack profile = some b') :
    ∃ head tail, b.sentList = head :: tail ∧ b'.sentList = head :: (sackFirst tail).1 := by
  simp only [TcpTxBuffer.addRenoSack, bind_returns] at run
  obtain ⟨-, -, run⟩ := run
  cases sent : b.sentList with
  | nil =>
    rw [sent] at run
    cases run
  | cons head tail =>
    refine ⟨head, tail, rfl, ?_⟩
    rw [sent] at run
    rcases found : sackFirst tail with ⟨tail', item | item⟩
    · simp only [found, Option.pure_def, some.injEq] at run
      rw [← run, sent, sackFirst_none found]
    · simp only [found, Option.pure_def, some.injEq] at run
      rw [← run]

theorem addRenoSack_apart_iff (run : b.addRenoSack profile = some b')
    (apart : ∀ item ∈ b.sentList, Apart item) :
    (∀ item ∈ b'.sentList, Apart item) ↔ NextUnlost b.sentList.tail := by
  obtain ⟨head, tail, sent, sent'⟩ := addRenoSack_sentList run
  rw [sent] at apart ⊢
  obtain ⟨here, others⟩ := forall_mem_cons.mp apart
  rw [sent', forall_mem_cons, and_iff_right here]
  exact sackFirst_apart_iff others

/-- A sacked head hands its mark to the items behind it. -/
theorem settleHead_apart_iff {seq : SequenceNumber32} (run : b.settleHead .debug seq = some b')
    (apart : ∀ item ∈ b.sentList, Apart item) :
    (∀ item ∈ b'.sentList, Apart item) ↔ HandsUnlost b.sentList := by
  rw [TcpTxBuffer.settleHead.eq_def] at run
  cases sent : b.sentList with
  | nil =>
    rw [sent] at run
    cases run
    simp [sent, HandsUnlost]
  | cons head tail =>
    rw [sent] at run apart
    simp only [bind_eq_bind, bind_eq_some_iff, Option.pure_def,
      some.injEq] at run
    obtain ⟨b₁, settled, -, -, rfl⟩ := run
    cases sacked : head.sacked with
    | false =>
      rw [sacked, if_neg Bool.false_ne_true] at settled
      cases settled
      rw [sent]
      exact iff_of_true apart (by simp [HandsUnlost, sacked])
    | true =>
      simp only [sacked, if_true, bind_eq_some_iff] at settled
      obtain ⟨-, -, b₂, moved, eq⟩ := settled
      cases eq
      obtain ⟨here, others⟩ := forall_mem_cons.mp apart
      obtain ⟨first, rest, sent₁, sent₂⟩ := addRenoSack_sentList moved
      cases sent₁
      have marked : b₂.markHeadAsLost.sentList =
          { head with sacked := false, retrans := false, lost := true } ::
            (sackFirst tail).1 := by
        unfold markHeadAsLost
        rw [sent₂]
      rw [marked, forall_mem_cons, sackFirst_apart_iff others]
      simp [Apart, HandsUnlost, sacked]

end Marks

section Kept

variable {b b₁ b' : TcpTxBuffer} {list list' new : PacketList} {item : TcpTxItem}
variable {now : Int} {n : Nat} {seq : SequenceNumber32}

/-- The two marks of an item. -/
def marks (item : TcpTxItem) : Bool × Bool := (item.sacked, item.lost)

theorem apart_congr (same : list.map marks = list'.map marks) :
    (∀ item ∈ list, Apart item) ↔ ∀ item ∈ list', Apart item := by
  have by_marks : ∀ list : PacketList, (∀ item ∈ list, Apart item) ↔
      ∀ m ∈ list.map marks, ¬ (m.1 = true ∧ m.2 = true) := by
    intro list
    rw [List.forall_mem_map]
    rfl
  rw [by_marks, by_marks, same]

theorem nextUnlost_congr (same : list.map marks = list'.map marks) :
    NextUnlost list ↔ NextUnlost list' := by
  have by_marks : ∀ list : PacketList, NextUnlost list ↔
      ∀ m ∈ (list.map marks).find? (fun m => !m.1), m.2 = false := by
    intro list
    simp [NextUnlost, marks, Function.comp_def]
  rw [by_marks, by_marks, same]

theorem nextUnlost_append (clear : ∀ item ∈ new, Clear item) :
    NextUnlost (list ++ new) ↔ NextUnlost list := by
  rw [NextUnlost, NextUnlost, find?_append]
  cases found : list.find? fun item => !item.sacked with
  | some item => simp
  | none =>
    simp only [none_or, mem_def, reduceCtorEq, false_imp_iff, implies_true,
      iff_true]
    intro item found
    exact (clear item (mem_of_find?_eq_some found)).2.1

theorem handsUnlost_congr (same : list.map marks = list'.map marks) :
    HandsUnlost list ↔ HandsUnlost list' := by
  cases list with
  | nil =>
    obtain rfl := map_eq_nil_iff.mp same.symm
    exact Iff.rfl
  | cons head tail =>
    cases list' with
    | nil => cases same
    | cons head' tail' =>
      obtain ⟨heads, tails⟩ := List.cons.inj same
      have sacked : head.sacked = head'.sacked := (Prod.mk.inj heads).1
      simp [HandsUnlost, sacked, nextUnlost_congr tails]

theorem handsUnlost_append (clear : ∀ item ∈ new, Clear item) :
    HandsUnlost (list ++ new) ↔ HandsUnlost list := by
  cases list with
  | nil =>
    refine iff_of_true ?_ (by simp [HandsUnlost])
    intro head mem sacked
    have notSacked := (clear head (mem_of_head? mem)).1
    exact absurd (notSacked.symm.trans sacked) Bool.false_ne_true
  | cons head tail => simp [HandsUnlost, nextUnlost_append clear]

theorem kept_subset (size n : Nat) (list : PacketList) :
    ∀ item ∈ kept size n list, item ∈ list := by
  induction list generalizing size n with
  | nil =>
    intro item mem
    exact mem
  | cons head rest ih =>
    intro item mem
    rw [kept] at mem
    split at mem
    · exact mem_cons_of_mem head (ih _ _ item mem)
    · exact mem

/-- What is moved to an empty sent list has no flag. -/
theorem refill_clear (h : Counted b) (sent : b.sentList = [])
    (run : b.refill .debug now n = some b₁) : ∀ item ∈ b₁.sentList, Clear item := by
  obtain ⟨some_, -⟩ | ⟨-, item, copy⟩ := refill_cases run
  · exact absurd sent some_
  · rcases copyFromSequence_cases copy with ⟨none_, -⟩ | ⟨s, out, -, -, -, handed, -, rfl⟩
    · cases none_
    rcases handOut_cases handed with ⟨-, again⟩ | ⟨-, fresh⟩
    · simp only [TcpTxBuffer.getTransmittedSegment, bind_returns]
        at again
      obtain ⟨-, -, -, -, _, some_, -⟩ := again
      rw [nsAssert_debug_eq_some, sent] at some_
      cases some_
    · have clear := (h.exact.getNewSegment now fresh).2
      simp only [TcpTxBuffer.getNewSegment, bind_returns, pure_returns] at fresh
      obtain ⟨p, -, rfl⟩ := fresh
      rw [forall_mem_append, sent]
      exact ⟨by simp, forall_mem_singleton.mpr clear⟩

/-- The loop of `DiscardUpTo` keeps the marks of the items it leaves, and what it moves there
has none. -/
theorem discardLoop_kept {turns : Nat} (h : Counted b)
    (run : discardLoop .debug now turns n b = some b') :
    ∃ new : PacketList, (∀ item ∈ new, Clear item) ∧
      b'.sentList.map marks = (kept b.size n b.sentList ++ new).map marks := by
  -- Either the list was there before, or all of it was just moved.
  have origin {n : Nat} {b b₁ : TcpTxBuffer} (h : Counted b)
      (filled : b.refill .debug now n = some b₁) :
      b₁ = b ∨ b.sentList = [] ∧ ∀ item ∈ b₁.sentList, Clear item :=
    (refill_cases filled).imp And.right fun moved => ⟨moved.1, refill_clear h moved.1 filled⟩
  refine discardLoop_induct (R := fun n b => Counted b → ∃ new : PacketList,
    (∀ item ∈ new, Clear item) ∧
      b'.sentList.map marks = (kept b.size n b.sentList ++ new).map marks) ?_ ?_ ?_ run h
  · intro n idle _
    refine ⟨[], by simp, ?_⟩
    cases b'.sentList with
    | nil => rfl
    | cons item rest => rw [kept, if_neg fun goes => idle ⟨goes.1, goes.2.1⟩, append_nil]
  · intro n b b₁ b₂ item rest goes filled sent₁ whole counted ih h
    have h₁ := h.refill filled
    have left := h₁.sized.size
    have room := h₁.sized.room
    have maxBuffer := h₁.sized.maxBuffer
    rw [sent₁, cons_append, total_cons] at left
    obtain ⟨new, clear, same⟩ := ih (h₁.drops sent₁ le_rfl counted (by simp))
    obtain ⟨_, _, _, rfl⟩ :=
      (removeFromCounts_contract item item.size b₁).of_eq_some counted
    have shorter : UInt32.sub b₁.size item.size = b₁.size - item.size :=
      UInt32.sub_of_le (by omega) (by omega)
    dsimp only [shortened] at same
    rw [shorter] at same
    rcases origin h filled with rfl | ⟨sent, clear₁⟩
    · refine ⟨new, clear, ?_⟩
      rw [same, sent₁, kept, if_pos ⟨goes.1, goes.2, whole⟩]
    · refine ⟨kept (b₁.size - item.size) (n - item.size) rest ++ new, ?_, ?_⟩
      · refine forall_mem_append.mpr ⟨fun item' mem => clear₁ item' ?_, clear⟩
        rw [sent₁]
        exact mem_cons_of_mem item (kept_subset _ _ _ item' mem)
      · rw [same, sent]
        rfl
  · rintro n b b₁ b₂ item rest packet _ filled sent₁ inside _ _ rfl h
    rcases origin h filled with rfl | ⟨sent, clear₁⟩
    · refine ⟨[], by simp, ?_⟩
      rw [sent₁, kept, if_neg fun goes => Nat.not_le.mpr inside goes.2.2, append_nil]
      rfl
    · refine ⟨item :: rest, sent₁ ▸ clear₁, ?_⟩
      rw [sent]
      rfl

end Kept

section Calls

variable {b b' : TcpTxBuffer} {c : Call}

theorem Counted.updateUnsummed {blocks : SackList} {r : Nat × TcpTxBuffer} (h : Counted b)
    (run : b.updateUnsummed blocks = some r) : Counted r.2 := by
  simp only [TcpTxBuffer.updateUnsummed, bind_eq_bind, bind_eq_some_iff] at run
  obtain ⟨⟨sentList, k, goesOn⟩, walk, run⟩ := run
  have marked := h.marked walk
  split at run
  · simp only [Option.pure_def, some.injEq] at run
    exact run ▸ marked
  · simp only [bind_eq_some_iff, Option.pure_def, some.injEq] at run
    obtain ⟨b₁, counted, -, -, rfl⟩ := run
    split at counted
    · simp only [bind_eq_some_iff] at counted
      obtain ⟨-, -, counted⟩ := counted
      exact marked.updateLostCount counted
    · exact some.inj counted ▸ marked

theorem Counted.discardUpToUnsummed {now : Int} {seq : SequenceNumber32} (h : Counted b)
    (run : b.discardUpToUnsummed now seq = some b') : Counted b' := by
  rw [TcpTxBuffer.discardUpToUnsummed] at run
  split at run
  · exact some.inj run ▸ h
  · simp only [bind_returns, pure_returns] at run
    obtain ⟨b₁, dropped, b₂, settled, -, -, rfl⟩ := run
    exact (((h.discardLoop dropped).fin seq).settleHead settled).dropHighest

theorem Counted.callUnsummed (h : Counted b) (clear : b.TakesBackClear c)
    (run : b.callUnsummed c = some b') : Counted b' := by
  cases c with
  | update list =>
    obtain ⟨r, update, rfl⟩ := map_eq_some_iff.mp run
    exact h.updateUnsummed update
  | discardUpTo now seq => exact h.discardUpToUnsummed run
  | setSentListLost resetSack => exact h.setSentListLost run
  | add _ | copyFromSequence _ _ _ | addRenoSack | resetRenoSack | markHeadAsLost
  | deleteRetransmittedFlagFromHead | resetSentList | resetLastSegmentSent => exact h.call clear run

/-- `Update` marks with one mark what it finds with one at most. -/
theorem updateUnsummed_apart {blocks : SackList} {r : Nat × TcpTxBuffer}
    (run : b.updateUnsummed blocks = some r) (apart : ∀ item ∈ b.sentList, Apart item) :
    ∀ item ∈ r.2.sentList, Apart item := by
  simp only [TcpTxBuffer.updateUnsummed, bind_eq_bind, bind_eq_some_iff] at run
  obtain ⟨⟨sentList, k, goesOn⟩, walk, run⟩ := run
  have marked := (sackBlocks_marked walk fun _ => id).1.apart apart
  split at run
  · simp only [Option.pure_def, some.injEq] at run
    exact run ▸ marked
  · simp only [bind_eq_some_iff, Option.pure_def, some.injEq] at run
    obtain ⟨b₁, counted, _, head, rfl⟩ := run
    rw [nsAssert_debug_eq_some] at head
    split at counted
    · simp only [bind_eq_some_iff] at counted
      obtain ⟨-, -, counted⟩ := counted
      exact updateLostCount_apart counted marked head
    · exact some.inj counted ▸ marked

theorem discardUpToUnsummed_apart_iff {now : Int} {seq : SequenceNumber32} (h : Counted b)
    (run : b.discardUpToUnsummed now seq = some b') (apart : ∀ item ∈ b.sentList, Apart item) :
    (∀ item ∈ b'.sentList, Apart item) ↔ b.MarksUnlost (.discardUpTo now seq) := by
  rw [TcpTxBuffer.discardUpToUnsummed] at run
  show _ ↔ _ ∨ _
  split at run
  · next already =>
    cases run
    exact iff_of_true apart (.inl already)
  · next ahead =>
    rw [or_iff_right ahead]
    simp only [bind_returns, pure_returns] at run
    obtain ⟨b₁, dropped, b₂, settled, -, -, rfl⟩ := run
    obtain ⟨new, clear, same⟩ := discardLoop_kept h dropped
    have sent₁ : (if b₁.size = 0 then { b₁ with firstByteSeq := seq } else b₁).sentList =
        b₁.sentList := by
      split <;> rfl
    have sent₂ : (if b₂.highestSack.2.le b₂.firstByteSeq then
        { b₂ with highestSack := (none, .ofNat 0) } else b₂).sentList = b₂.sentList := by
      split <;> rfl
    have apart₁ : ∀ item ∈ b₁.sentList, Apart item := by
      rw [apart_congr same, forall_mem_append]
      exact ⟨fun item mem => apart item (kept_subset _ _ _ item mem),
        fun item mem => (clear item mem).apart⟩
    rw [sent₂, settleHead_apart_iff settled (by rwa [sent₁]), sent₁, handsUnlost_congr same,
      handsUnlost_append clear]

theorem copyFromSequence_apart {profile : BuildProfile} {now : Int} {n : Nat}
    {seq : SequenceNumber32} {r : Option TcpTxItem × TcpTxBuffer} (h : Counted b)
    (run : b.copyFromSequence profile now n seq = some r)
    (apart : ∀ item ∈ b.sentList, Apart item) : ∀ item ∈ r.2.sentList, Apart item := by
  obtain ⟨item, b'⟩ := r
  rcases copyFromSequence_cases run with ⟨-, rfl⟩ | ⟨s, out, -, -, -, handed, -, rfl⟩
  · exact apart
  · rcases handOut_cases handed with ⟨-, sent⟩ | ⟨-, new⟩
    · simp only [TcpTxBuffer.getTransmittedSegment, bind_returns, pure_returns] at sent
      obtain ⟨-, -, -, -, -, -, p, picks, rfl⟩ := sent
      have reshaped := (getPacketFromList_reshape picks).1.apart apart
      simp only [forall_mem_append, forall_mem_cons] at reshaped ⊢
      exact reshaped
    · have clear := (h.exact.getNewSegment now new).2
      simp only [TcpTxBuffer.getNewSegment, bind_returns, pure_returns] at new
      obtain ⟨p, -, rfl⟩ := new
      exact forall_mem_append.mpr ⟨apart, forall_mem_singleton.mpr clear.apart⟩

theorem add_sentList (p : Packet) : (b.add p).2.sentList = b.sentList := by
  rw [TcpTxBuffer.add]
  split
  · split <;> rfl
  · rfl

theorem markHeadAsLost_apart (apart : ∀ item ∈ b.sentList, Apart item) :
    ∀ item ∈ b.markHeadAsLost.sentList, Apart item := by
  unfold markHeadAsLost
  split
  · exact apart
  · next head tail sent =>
    rw [sent] at apart
    refine forall_mem_cons.mpr ⟨fun marks => ?_, (forall_mem_cons.mp apart).2⟩
    exact Bool.false_ne_true marks.1

theorem deleteRetransmittedFlagFromHead_apart (run : b.deleteRetransmittedFlagFromHead = some b')
    (apart : ∀ item ∈ b.sentList, Apart item) : ∀ item ∈ b'.sentList, Apart item := by
  rw [deleteRetransmittedFlagFromHead] at run
  split at run
  · exact some.inj run ▸ apart
  · split at run
    · cases run
    · next head tail sent =>
      rw [some.injEq] at run
      subst run
      split
      · rw [sent] at apart
        obtain ⟨here, others⟩ := forall_mem_cons.mp apart
        exact forall_mem_cons.mpr ⟨here, others⟩
      · exact apart

/-- A timeout marks as lost what is not sacked. -/
theorem setSentListLost_apart {profile : BuildProfile} {resetSack : Bool}
    (run : b.setSentListLost profile resetSack = some b')
    (apart : ∀ item ∈ b.sentList, Apart item) : ∀ item ∈ b'.sentList, Apart item := by
  simp only [setSentListLost, bind_returns, pure_returns] at run
  obtain ⟨-, -, rfl⟩ := run
  cases resetSack with
  | true =>
    refine List.forall_mem_map.mpr fun item _ marks => ?_
    exact Bool.false_ne_true marks.1
  | false =>
    refine List.forall_mem_map.mpr fun item mem marks => ?_
    obtain ⟨sacked, lost⟩ := marks
    rw [sacked, Bool.not_true, Bool.or_false] at lost
    exact apart item mem ⟨sacked, lost⟩

/-- A call leaves no item with both marks if and only if no mark for an emulated SACK goes to a
lost item. -/
theorem callUnsummed_apart_iff (h : Counted b) (apart : ∀ item ∈ b.sentList, Apart item)
    (kept : c ≠ .resetLastSegmentSent) (run : b.callUnsummed c = some b') :
    (∀ item ∈ b'.sentList, Apart item) ↔ b.MarksUnlost c := by
  cases c with
  | add p =>
    cases run
    refine iff_of_true ?_ trivial
    rwa [add_sentList]
  | copyFromSequence now numBytes seq =>
    obtain ⟨r, copy, rfl⟩ := map_eq_some_iff.mp run
    exact iff_of_true (copyFromSequence_apart h copy apart) trivial
  | update list =>
    obtain ⟨r, update, rfl⟩ := map_eq_some_iff.mp run
    exact iff_of_true (updateUnsummed_apart update apart) trivial
  | discardUpTo now seq => exact discardUpToUnsummed_apart_iff h run apart
  | addRenoSack => exact addRenoSack_apart_iff run apart
  | resetRenoSack =>
    cases run
    refine iff_of_true (List.forall_mem_map.mpr fun item _ marks => ?_) trivial
    exact Bool.false_ne_true marks.1
  | markHeadAsLost =>
    cases run
    exact iff_of_true (markHeadAsLost_apart apart) trivial
  | deleteRetransmittedFlagFromHead =>
    exact iff_of_true (deleteRetransmittedFlagFromHead_apart run apart) trivial
  | setSentListLost resetSack => exact iff_of_true (setSentListLost_apart run apart) trivial
  | resetSentList =>
    cases run
    exact iff_of_true (by simp [resetSentList]) trivial
  | resetLastSegmentSent => exact absurd rfl kept

/-- What the runs keep. -/
structure ApartInv (b : TcpTxBuffer) : Prop where
  counted : Counted b
  apart : ∀ item ∈ b.sentList, Apart item

theorem setSentListLost_marked {profile : BuildProfile} {resetSack : Bool}
    (run : b.setSentListLost profile resetSack = some b') :
    b'.retrans = 0 ∧ ∀ item ∈ b'.sentList, item.sacked = true ∨ item.lost = true := by
  simp only [setSentListLost, bind_returns, pure_returns] at run
  obtain ⟨-, -, rfl⟩ := run
  cases resetSack with
  | true => exact ⟨rfl, List.forall_mem_map.mpr fun item _ => .inr rfl⟩
  | false =>
    refine ⟨rfl, List.forall_mem_map.mpr fun item _ => ?_⟩
    cases sacked : item.sacked with
    | true => exact .inl rfl
    | false => exact .inr (Bool.or_true _)

/-- The counts fit, and after a timeout nothing is in flight. -/
theorem ApartInv.oneMark (h : ApartInv b) : OneMark b := by
  have fits_of : ∀ {b : TcpTxBuffer}, Counted b → (∀ item ∈ b.sentList, Apart item) →
      UInt32.add b.sackedOut b.lostOut =
        flagged TcpTxItem.sacked b.sentList + flagged TcpTxItem.lost b.sentList := by
    intro b counted apart
    have fits := counted.sized.fits
    have le := flagged_add_le apart
    rw [← counted.exact.sackedOut, ← counted.exact.lostOut] at le ⊢
    exact UInt32.add_of_lt (by omega)
  refine ⟨h.apart, ?_, fun resetSack => ?_⟩
  · rw [fits_of h.counted h.apart, h.counted.sized.sentSize]
    exact flagged_add_le h.apart
  · obtain ⟨b', run⟩ : ∃ b', b.setSentListLost .optimized resetSack = some b' := ⟨_, rfl⟩
    have counted := h.counted.setSentListLost run
    have apart := setSentListLost_apart run h.apart
    obtain ⟨retrans, marked⟩ := setSentListLost_marked run
    have all : UInt32.add b'.sackedOut b'.lostOut = b'.sentSize := by
      rw [fits_of counted apart, counted.sized.sentSize]
      exact flagged_add_eq apart marked
    refine ⟨b', call_of_unsummed (c := .setSentListLost resetSack) run all.le, ?_⟩
    have fits := counted.sized.fits
    have small : b'.sentSize < 2 ^ 32 := by
      rw [counted.sized.sentSize]
      omega
    simp only [bytesInFlight, all, retrans, UInt32.sub_of_le (le_refl b'.sentSize) small,
      Nat.sub_self, decide_eq_true (le_refl b'.sentSize), nsAssert_true]
    rfl

theorem ApartInv.start (seq : SequenceNumber32) {maxBuffer : Nat} (fits : maxBuffer < 2 ^ 32)
    (dupAckThresh segmentSize : Nat) (sackEnabled : Bool) :
    ApartInv (start seq maxBuffer dupAckThresh segmentSize sackEnabled) :=
  ⟨Counted.start seq fits dupAckThresh segmentSize sackEnabled, by simp [TcpTxBuffer.start]⟩

end Calls

end Ns3.TcpTxBuffer
