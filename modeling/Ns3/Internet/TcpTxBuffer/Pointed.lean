import Ns3.Internet.TcpTxBuffer.BlockOrder

/-!
# Where `m_highestSack` points

In every state of a run `m_highestSack` is unknown or a number in the buffer, so a comparison with
the begin or the end of an item is one of positions. The result of `Update` in these states is the
same for all orders of the blocks exactly under the condition on the option.
-/

namespace Ns3.TcpTxBuffer

open SequenceNumber List Option

/-- `m_highestSack` is unknown, or not beyond the data. -/
def Pointed (b : TcpTxBuffer) : Prop := NotAbove b.firstByteSeq b.size b.highestSack

section Frames

variable {profile : BuildProfile} {b b' : TcpTxBuffer} {now : Int} {n : Nat}
variable {seq head : SequenceNumber32} {limit limit' : Nat} {list : PacketList}
variable {highestSack : Option Nat × SequenceNumber32}

theorem NotAbove.mono (low : NotAbove head limit highestSack) (le : limit ≤ limit') :
    NotAbove head limit' highestSack := by
  rcases low with none_ | ⟨q, below, cache⟩
  · exact .inl none_
  · exact .inr ⟨q, below.trans le, cache⟩

/-- Sending moves neither the head nor `m_highestSack`. -/
theorem copyFromSequence_pointer {r : Option TcpTxItem × TcpTxBuffer}
    (run : b.copyFromSequence profile now n seq = some r) :
    r.2.firstByteSeq = b.firstByteSeq ∧ r.2.highestSack = b.highestSack ∧ r.2.size = b.size := by
  obtain ⟨item, b'⟩ := r
  rcases copyFromSequence_cases run with ⟨-, rfl⟩ | ⟨s, out, -, -, -, handed, -, rfl⟩
  · exact ⟨rfl, rfl, rfl⟩
  · rcases handOut_cases handed with ⟨-, sent⟩ | ⟨-, new⟩
    · simp only [TcpTxBuffer.getTransmittedSegment, bind_returns, pure_returns] at sent
      obtain ⟨-, -, -, -, -, -, p, -, rfl⟩ := sent
      exact ⟨rfl, rfl, rfl⟩
    · simp only [TcpTxBuffer.getNewSegment, bind_returns, pure_returns] at new
      obtain ⟨p, -, rfl⟩ := new
      exact ⟨rfl, rfl, rfl⟩

/-- The loop of `DiscardUpTo` does not look at `m_highestSack`. -/
theorem discardLoop_highestSack {turns : Nat} (run : discardLoop profile now turns n b = some b') :
    b'.highestSack = b.highestSack := by
  have refilled {n : Nat} {b b₁ : TcpTxBuffer} (run : b.refill profile now n = some b₁) :
      b₁.highestSack = b.highestSack := by
    obtain ⟨-, rfl⟩ | ⟨-, item, copy⟩ := refill_cases run
    · rfl
    · exact (copyFromSequence_pointer copy).2.1
  refine discardLoop_induct (R := fun _ b => b'.highestSack = b.highestSack) (fun _ => rfl) ?_ ?_
    run
  · intro n b b₁ b₂ item rest _ filled _ _ counted ih
    obtain ⟨_, _, _, rfl⟩ := (removeFromCounts_contract item item.size b₁).of_eq_some counted
    have kept := refilled filled
    exact ih.trans kept
  · rintro n b b₁ b₂ item rest packet _ filled _ _ _ counted rfl
    obtain ⟨_, _, _, rfl⟩ := (removeFromCounts_contract item n b₁).of_eq_some counted
    have kept := refilled filled
    exact kept

theorem Starts.mem {pos : Nat} (starts : Starts head pos list) :
    ∀ item ∈ list, ∃ q ≤ pos + total list, item.startSeq = head.at (q : Nat) := by
  intro item member
  obtain ⟨front, rest, rfl⟩ := append_of_mem member
  refine ⟨pos + total front, ?_, ((starts_append.mp starts).2).1⟩
  rw [total_append]
  omega

/-- An emulated SACK moves `m_highestSack` to an item of the list, if it marks one. -/
theorem addRenoSack_pointer (run : b.addRenoSack profile = some b') :
    b'.highestSack = b.highestSack ∨
      ∃ item ∈ b.sentList, b'.highestSack = (some item.node, item.startSeq) := by
  have marked : ∀ {list list' : PacketList} {item : TcpTxItem},
      sackFirst list = (list', some item) → item ∈ list := by
    intro list
    induction list with
    | nil => exact fun found => absurd found (by simp [sackFirst])
    | cons head tail ih =>
      intro list' item found
      rw [sackFirst] at found
      split at found
      · exact mem_cons_of_mem _ (ih (Prod.ext rfl (Prod.mk.inj found).2))
      · obtain rfl := some.inj (Prod.mk.inj found).2
        exact mem_cons_self
  simp only [TcpTxBuffer.addRenoSack, bind_returns] at run
  obtain ⟨-, -, run⟩ := run
  split at run
  · cases run
  · next head tail sent =>
    split at run
    · next tail' item found =>
      cases run
      exact .inr ⟨item, sent ▸ mem_cons_of_mem head (marked found), rfl⟩
    · rw [some.inj run]
      exact .inl rfl

theorem markHeadAsLost_pointer (b : TcpTxBuffer) :
    b.markHeadAsLost.highestSack = b.highestSack := by
  unfold markHeadAsLost
  split
  · rfl
  · rfl

theorem settleHead_pointer (run : b.settleHead profile seq = some b') :
    b'.highestSack = b.highestSack ∨
      ∃ item ∈ b.sentList, ∃ node, b'.highestSack = (some node, item.startSeq) := by
  rw [TcpTxBuffer.settleHead.eq_def] at run
  split at run
  · rw [some.inj run]
    exact .inl rfl
  · next head tail sent =>
    simp only [bind_eq_bind, bind_eq_some_iff, Option.pure_def,
      some.injEq] at run
    obtain ⟨b₁, settled, -, -, rfl⟩ := run
    split at settled
    · simp only [bind_eq_some_iff] at settled
      obtain ⟨-, -, b₂, moved, eq⟩ := settled
      cases eq
      rw [markHeadAsLost_pointer]
      rcases addRenoSack_pointer moved with same | ⟨item, member, eq⟩
      · exact .inl same
      · rcases mem_cons.mp member with rfl | member
        · exact .inr ⟨head, sent ▸ mem_cons_self, _, eq⟩
        · exact .inr ⟨item, sent ▸ mem_cons_of_mem head member, _, eq⟩
    · cases settled
      exact .inl rfl

/-- `Update` moves `m_highestSack` to items of the list only. -/
theorem NotAbove.sackBlocks {k k' : Sacking} {blocks : SackList} {list' : PacketList}
    {sentSize : Nat} {goesOn : Bool} (low : NotAbove head limit k.highestSack)
    (le : total list ≤ limit)
    (run : sackBlocks profile head sentSize blocks list k = some (list', k', goesOn)) :
    NotAbove head limit k'.highestSack := by
  induction blocks generalizing list k with
  | nil =>
    rw [TcpTxBuffer.sackBlocks, some.injEq, Prod.mk.injEq, Prod.mk.injEq] at run
    exact run.2.1 ▸ low
  | cons block later ih =>
    rw [TcpTxBuffer.sackBlocks] at run
    split at run
    · rw [Option.pure_def, some.injEq, Prod.mk.injEq, Prod.mk.injEq] at run
      exact run.2.1 ▸ low
    · simp only [bind_returns] at run
      obtain ⟨⟨list₁, k₁⟩, walk, run⟩ := run
      have origin : head.at ((0 : Nat) : Int) = head := at_zero head
      have same := total_of_sizes (sizes_of_place (sackBlock_place walk))
      have walk₀ : sackBlock profile block list (head.at ((0 : Nat) : Int)) k =
          some (list₁, k₁) := by
        rwa [origin]
      exact ih (low.walk (by omega) walk₀) (same.trans_le le) run

end Frames

section Runs

variable {profile : BuildProfile} {b b' : TcpTxBuffer} {now : Int} {seq : SequenceNumber32}

theorem Pointed.add (reached : Reached b) (pointed : Pointed b) (p : Packet) :
    Pointed (b.add p).2 := by
  obtain ⟨⟨_, _, _, holds⟩, -⟩ := reached
  have room := holds.room
  have maxBuffer := holds.maxBuffer
  have available : b.available = b.maxBuffer - b.size := UInt32.sub_of_le room maxBuffer
  rw [TcpTxBuffer.add, available]
  split
  · split
    · have sum : UInt32.add b.size p.length = b.size + p.length := UInt32.add_of_lt (by omega)
      refine NotAbove.mono pointed ?_
      show b.size ≤ UInt32.add b.size p.length
      omega
    · exact pointed
  · exact pointed

theorem Pointed.update {blocks : SackList} {r : Nat × TcpTxBuffer} (reached : Reached b)
    (pointed : Pointed b) (run : b.update profile blocks = some r) : Pointed r.2 := by
  obtain ⟨⟨_, _, _, holds⟩, -⟩ := reached
  have sentLe := holds.sentSize_le
  have sentSize := holds.sentSize
  obtain ⟨list', k', goesOn, walk, top, -⟩ := update_walk run
  have same := update_same run
  have low₀ : NotAbove b.firstByteSeq b.size b.sacking.highestSack := pointed
  have low : NotAbove b.firstByteSeq b.size k'.highestSack := low₀.sackBlocks (by omega) walk
  rw [Pointed, same.head, same.size, top]
  exact low

/-- A number behind the head is a position. -/
theorem distance_of_ahead {head : SequenceNumber32} (ahead : ¬ head.ge seq = true) :
    (head.lt seq = true) ∧ (seq.sub head).toNat ≤ halfMaxValue 32 + 1 := by
  have half := halfMaxValue_32
  rw [ge, Bool.or_eq_true, not_or, Bool.not_eq_true, Bool.not_eq_true] at ahead
  have before : head.lt seq = true := by
    rw [lt, ahead.1, bne, ahead.2]
    rfl
  obtain ⟨d, -, small, begins⟩ := exists_of_lt before
  refine ⟨before, ?_⟩
  have distance : ((seq.sub (seq.at (-(d : Int)))).toNat : Int) = 0 - -(d : Int) := by
    have whole : (((seq.at 0).sub (seq.at (-(d : Int)))).toNat : Int) = 0 - -(d : Int) :=
      sub_at_toNat (by omega) (by omega)
    rwa [at_zero] at whole
  rw [begins]
  omega

/-- An acknowledgement forgets `m_highestSack`, or its item is behind the new head. -/
theorem Pointed.discardUpTo (reached : Reached b) (pointed : Pointed b)
    (run : b.discardUpTo profile now seq = some b') : Pointed b' := by
  obtain ⟨⟨_, _, _, holds⟩, near⟩ := reached
  rw [TcpTxBuffer.discardUpTo] at run
  by_cases already : b.firstByteSeq.ge seq = true
  · rw [if_pos already] at run
    cases run
    exact pointed
  rw [if_neg already] at run
  simp only [bind_returns, pure_returns] at run
  obtain ⟨b₁, loop, b₂, settle, _, -, _, -, rfl⟩ := run
  obtain ⟨holds₁, size₁⟩ :=
    (discardLoop_contract now _ holds (.inr near) le_rfl).of_eq_some loop
  have pointer₁ := discardLoop_highestSack loop
  have same := (settleHead_contract seq _).of_eq_some settle
  have pointer₂ := settleHead_pointer settle
  obtain ⟨before, small⟩ := distance_of_ahead already
  have here : b.firstByteSeq.at ((seq.sub b.firstByteSeq).toNat : Nat) = seq := at_sub _ _
  generalize (seq.sub b.firstByteSeq).toNat = d at *
  have head₁ : b₁.firstByteSeq = b.firstByteSeq.at (min d b.size : Nat) := by
    rw [holds₁.head, holds.head, at_at, Nat.cast_add]
  -- The new head is `seq`, also when that is beyond all data.
  have head₂ : b₂.firstByteSeq = seq := by
    rw [same.head]
    split
    · rfl
    · next some_ =>
      have part : min d b.size = d := by omega
      rw [head₁, part, here]
  have size₂ : b₂.size = b₁.size := by
    rw [same.size]
    split
    · rfl
    · rfl
  have old : (if b₁.size = 0 then { b₁ with firstByteSeq := seq } else b₁).highestSack =
      b.highestSack := by
    rw [← pointer₁]
    split
    · rfl
    · rfl
  have list₁ : (if b₁.size = 0 then { b₁ with firstByteSeq := seq } else b₁).sentList =
      b₁.sentList := by
    split
    · rfl
    · rfl
  split
  · exact .inl rfl
  · next ahead =>
    rw [Pointed, head₂, size₂]
    rw [head₂] at ahead
    rcases pointer₂ with stays | ⟨item, member, node, moved⟩
    · rw [stays, old] at ahead ⊢
      rcases pointed with none_ | ⟨q, le, cache⟩
      · exact .inl none_
      rw [cache, ← here] at ahead
      have beyond : d < q := by
        by_contra low
        refine ahead ?_
        rcases Nat.eq_zero_or_pos q with rfl | pos
        · have origin : b.firstByteSeq.at ((0 : Nat) : Int) = b.firstByteSeq := at_zero _
          rw [origin, here, SequenceNumber.le]
          exact (Bool.and_eq_true_iff.mp before).1
        · rw [le_at_nat (by omega) (by omega)]
          exact decide_eq_true (by omega)
      refine .inr ⟨q - d, by omega, ?_⟩
      rw [cache, ← here, at_at]
      congr 1
      omega
    · rw [list₁] at member
      have low := holds₁.sentSize_le
      have sizes := holds₁.sentSize
      obtain ⟨q, le, begins⟩ := holds₁.starts.mem item member
      have pos := (positive_append.mp holds₁.positive).1 item member
      have part : item.size ≤ total b₁.sentList := by
        obtain ⟨front, rest, eq⟩ := append_of_mem member
        rw [eq, total_append, total_cons]
        omega
      have whole : min d b.size = d := by omega
      rw [moved, begins, head₁, whole, here]
      exact .inr ⟨q, by omega, rfl⟩

/-- Every call keeps `m_highestSack` in the buffer. -/
theorem Pointed.call {c : Call} (reached : Reached b) (pointed : Pointed b)
    (run : b.call profile c = some b') : Pointed b' := by
  have keeps : ∀ {b' : TcpTxBuffer}, SameData b b' → b'.highestSack = b.highestSack →
      Pointed b' := by
    intro b' same pointer
    rw [Pointed, same.head, same.size, pointer]
    exact pointed
  cases c with
  | add p => exact some.inj run ▸ pointed.add reached p
  | copyFromSequence now numBytes seq =>
    obtain ⟨r, copy, rfl⟩ := map_eq_some_iff.mp run
    obtain ⟨head, pointer, size⟩ := copyFromSequence_pointer copy
    rw [Pointed, head, pointer, size]
    exact pointed
  | update list =>
    obtain ⟨r, update, rfl⟩ := map_eq_some_iff.mp run
    exact pointed.update reached update
  | discardUpTo now seq => exact pointed.discardUpTo reached run
  | addRenoSack =>
    have same := addRenoSack_same run
    rcases addRenoSack_pointer run with stays | ⟨item, member, moved⟩
    · exact keeps same stays
    · obtain ⟨⟨_, _, _, holds⟩, -⟩ := reached
      have low := holds.sentSize_le
      have sizes := holds.sentSize
      obtain ⟨q, le, begins⟩ := holds.starts.mem item member
      rw [Pointed, same.head, same.size, moved, begins]
      exact .inr ⟨q, by omega, rfl⟩
  | resetRenoSack =>
    cases run
    exact .inl rfl
  | markHeadAsLost =>
    cases run
    exact keeps (markHeadAsLost_same b) (markHeadAsLost_pointer b)
  | deleteRetransmittedFlagFromHead =>
    refine keeps (deleteRetransmittedFlagFromHead_same run) ?_
    have run : b.deleteRetransmittedFlagFromHead = some b' := run
    rw [deleteRetransmittedFlagFromHead] at run
    split at run
    · rw [some.inj run]
    · split at run
      · cases run
      · rw [← some.inj run]
        split
        · rfl
        · rfl
  | setSentListLost resetSack =>
    have same := setSentListLost_same run
    have run : b.setSentListLost profile resetSack = some b' := run
    simp only [setSentListLost, bind_returns, pure_returns] at run
    obtain ⟨-, -, rfl⟩ := run
    cases resetSack with
    | true => exact .inl rfl
    | false => exact keeps same rfl
  | resetSentList =>
    cases run
    exact .inl rfl
  | resetLastSegmentSent =>
    cases run
    unfold resetLastSegmentSent
    split
    · exact pointed
    · exact pointed

theorem Pointed.start (seq : SequenceNumber32) (maxBuffer dupAckThresh segmentSize : Nat)
    (sackEnabled : Bool) : Pointed (start seq maxBuffer dupAckThresh segmentSize sackEnabled) :=
  .inl rfl

/-- In every state of a run an `Update` that returns has the same result for all orders of the
blocks if and only if the option meets the condition in that state. -/
theorem update_orderFree_iff (seq : SequenceNumber32) {maxBuffer : Nat} (fits : maxBuffer < 2 ^ 32)
    (dupAckThresh segmentSize : Nat) (sackEnabled : Bool) (calls : List Call)
    (near : Run.Meets (call profile) Fits
      (start seq maxBuffer dupAckThresh segmentSize sackEnabled) calls)
    (reaches : Run.exec (call profile) (start seq maxBuffer dupAckThresh segmentSize sackEnabled)
      calls = some b) {blocks : SackList} {r : Nat × TcpTxBuffer}
    (run : b.update profile blocks = some r) :
    (∀ blocks', blocks'.Perm blocks → b.update profile blocks' = some r) ↔
      b.OrderFree profile blocks := by
  have inv : Reached b ∧ Pointed b := by
    refine Run.invariant (I := fun b => Reached b ∧ Pointed b) ?_ near ?_ reaches
    · exact ⟨Reached.start seq fits dupAckThresh segmentSize sackEnabled, Pointed.start _ _ _ _ _⟩
    · exact fun b c b' inv fits run => ⟨inv.1.call fits run, inv.2.call inv.1 run⟩
  obtain ⟨reached, pointed⟩ := inv
  exact update_orderFree_iff_of reached.positive reached.near (pointed.mono reached.2) run

/-- Two blocks with a gap between the items, in a buffer with five segments in flight. -/
theorem update_orderFree_gap :
    ∃ b r, Run.exec (call .debug) (start (.ofNat 1) 20 3 2 true) fiveInFlight = some b ∧
      b.update .debug [(.ofNat 9, .ofNat 11), (.ofNat 3, .ofNat 7)] = some r ∧
      ∀ blocks', blocks'.Perm [(.ofNat 9, .ofNat 11), (.ofNat 3, .ofNat 7)] →
        b.update .debug blocks' = some r := by
  have ran : (Run.exec (call .debug) (start (.ofNat 1) 20 3 2 true) fiveInFlight).any (fun b =>
      (b.update .debug [(.ofNat 9, .ofNat 11), (.ofNat 3, .ofNat 7)]).isSome &&
        decide (b.OrderFree .debug [(.ofNat 9, .ofNat 11), (.ofNat 3, .ofNat 7)])) = true := by
    decide
  obtain ⟨b, reaches, both⟩ := (Option.any_eq_true _ _).mp ran
  obtain ⟨returns, free⟩ := Bool.and_eq_true_iff.mp both
  obtain ⟨r, run⟩ := Option.isSome_iff_exists.mp returns
  exact ⟨b, r, reaches, run, (update_orderFree_iff (.ofNat 1) (by decide) 3 2 true fiveInFlight
    (by decide) reaches run).mpr (of_decide_eq_true free)⟩

/-- Three blocks name the last three of five segments. From the lowest one on, `m_highestSack` ends
at the last segment and the first two count as lost. From the highest one on, it ends at the
third segment and none does. -/
theorem update_depends_on_order :
    ((Run.exec (call .debug) (start (.ofNat 1) 20 3 2 true) fiveInFlight).bind fun b =>
        b.update .debug [(.ofNat 5, .ofNat 7), (.ofNat 7, .ofNat 9), (.ofNat 9, .ofNat 11)]).map
          (fun r => (r.1, r.2.highestSack.2, r.2.lostOut)) = some (6, .ofNat 9, 4) ∧
      ((Run.exec (call .debug) (start (.ofNat 1) 20 3 2 true) fiveInFlight).bind fun b =>
        b.update .debug [(.ofNat 9, .ofNat 11), (.ofNat 7, .ofNat 9), (.ofNat 5, .ofNat 7)]).map
          (fun r => (r.1, r.2.highestSack.2, r.2.lostOut)) = some (6, .ofNat 5, 0) := by
  decide

end Runs

end Ns3.TcpTxBuffer
