import Ns3.Internet.TcpTxBuffer.Counters

/-!
# The consistency of a run

The loops of `Update` and `DiscardUpTo`, the calls that move items back, and the
law of the counters over whole runs. The one call that breaks the law,
`ResetLastSegmentSent` on a segment with a flag, is described exactly.
-/

namespace Ns3.TcpTxBuffer

open List Option

section Update

variable {profile : BuildProfile} {b b' : TcpTxBuffer} {list list' : PacketList}
variable {k k' : Sacking}

/-- What marking items keeps: two counters follow their flags, and the
third flag is not touched. -/
structure SackTracks (list : PacketList) (k : Sacking) (list' : PacketList) (k' : Sacking) :
    Prop where
  sackedOut : Tracks TcpTxItem.sacked k.sackedOut list k'.sackedOut list'
  lostOut : Tracks TcpTxItem.lost k.lostOut list k'.lostOut list'
  retrans : flagged TcpTxItem.retrans list' = flagged TcpTxItem.retrans list

theorem SackTracks.refl (list : PacketList) (k : Sacking) : SackTracks list k list k :=
  ⟨Tracks.refl _ _, Tracks.refl _ _, rfl⟩

theorem SackTracks.trans {list'' : PacketList} {k'' : Sacking} (h : SackTracks list k list' k')
    (h' : SackTracks list' k' list'' k'') : SackTracks list k list'' k'' :=
  ⟨h.sackedOut.trans h'.sackedOut, h.lostOut.trans h'.lostOut, h'.retrans.trans h.retrans⟩

theorem Marked.tracks {head : SequenceNumber32} {blocks : SackList}
    (h : Marked head blocks list k list' k') : SackTracks list k list' k' := by
  induction h with
  | refl list k => exact SackTracks.refl list k
  | @mark front rest list' item k k' block _ _ fresh _ ih =>
    refine SackTracks.trans ⟨?_, ?_, ?_⟩ ih
    · exact Tracks.gain front rest (by simp [share, fresh, TcpTxItem.size])
    · exact Tracks.clear front rest rfl rfl
    · simp [share, TcpTxItem.size]

/-- What `UpdateLostCount` keeps: one counter follows its flag, and the two
others are not touched. -/
structure LostTracks (list : PacketList) (lostOut : Nat) (list' : PacketList) (lostOut' : Nat) :
    Prop where
  lostOut : Tracks TcpTxItem.lost lostOut list lostOut' list'
  sackedOut : flagged TcpTxItem.sacked list' = flagged TcpTxItem.sacked list
  retrans : flagged TcpTxItem.retrans list' = flagged TcpTxItem.retrans list

theorem LostTracks.cons {l l' : Nat} (h : LostTracks list l list' l') (item : TcpTxItem) :
    LostTracks (item :: list) l (item :: list') l' :=
  ⟨h.lostOut.cons rfl, congrArg (_ + ·) h.sackedOut, congrArg (_ + ·) h.retrans⟩

theorem LostTracks.mark {l l' : Nat} (h : LostTracks list l list' l') {item : TcpTxItem}
    (notLost : item.lost = false) :
    LostTracks (item :: list) l ({ item with lost := true } :: list')
      (UInt32.add l' item.size) := by
  have rest := h.cons item
  refine ⟨rest.lostOut.trans ?_, rest.sackedOut, rest.retrans⟩
  exact Tracks.gain [] list' (by simp [share, notLost, TcpTxItem.size])

theorem LossMarks.tracks {l l' : Nat} (h : LossMarks list l list' l') :
    LostTracks list l list' l' := by
  induction h with
  | refl => exact ⟨Tracks.refl _ _, rfl, rfl⟩
  | keep item _ ih => exact ih.cons item
  | mark notLost _ ih => exact ih.mark notLost

theorem Counted.updateLostCount (h : Counted b) (run : b.updateLostCount = some b') :
    Counted b' := by
  have same := updateLostCount_same run
  obtain ⟨sentList, lostOut, rfl, marks⟩ := updateLostCount_marks run
  have all := marks.tracks
  exact h.tracks same (Tracks.same all.sackedOut) all.lostOut (Tracks.same all.retrans)

/-- The blocks of an option, before the loss pass. -/
theorem Counted.marked {blocks : SackList} {goesOn : Bool} (h : Counted b)
    (walk : sackBlocks profile b.firstByteSeq b.sentSize blocks b.sentList
      { lostOut := b.lostOut, sackedOut := b.sackedOut, bytesSacked := 0,
        highestSack := b.highestSack } = some (list, k, goesOn)) :
    Counted { b with
      sentList := list, lostOut := k.lostOut, sackedOut := k.sackedOut
      highestSack := k.highestSack } := by
  have marks := (sackBlocks_marked walk fun _ => id).1
  have tracks := marks.tracks
  exact h.tracks ⟨marks.same, rfl, rfl, rfl, rfl, rfl⟩ tracks.sackedOut tracks.lostOut
    (Tracks.same tracks.retrans)

theorem Counted.update {blocks : SackList} {r : Nat × TcpTxBuffer} (h : Counted b)
    (run : b.update profile blocks = some r) : Counted r.2 := by
  simp only [TcpTxBuffer.update, bind_eq_bind, bind_eq_some_iff] at run
  obtain ⟨⟨sentList, k, goesOn⟩, walk, run⟩ := run
  have marked := h.marked walk
  split at run
  · simp only [Option.pure_def, some.injEq] at run
    exact run ▸ marked
  · simp only [bind_eq_some_iff, Option.pure_def, some.injEq] at run
    obtain ⟨b₁, counted, -, -, -, -, rfl⟩ := run
    split at counted
    · simp only [bind_eq_some_iff] at counted
      obtain ⟨-, -, counted⟩ := counted
      exact marked.updateLostCount counted
    · exact some.inj counted ▸ marked

end Update

section Discard

variable {b b₁ b' : TcpTxBuffer} {item : TcpTxItem} {rest list : PacketList}
variable {now : Int} {n : Nat} {seq : SequenceNumber32}

theorem removed_count {flag : Bool} {k m others : Nat}
    (counted : k = (if flag then n + m else 0) + others) (fits : k < 2 ^ 32) :
    (if flag then UInt32.sub k n else k) = (if flag then m else 0) + others := by
  cases flag with
  | true =>
    simp only [if_true] at counted ⊢
    rw [UInt32.sub_of_le (by omega) fits]
    omega
  | false => simpa using counted

section

variable (h : Counted b)
include h

/-- `n` bytes of the first item leave the buffer. -/
theorem Counted.drops (sent : b.sentList = item :: rest) (le : n ≤ item.size)
    {profile : BuildProfile} (run : removeFromCounts profile item n b = some b₁)
    (left : ∀ flag ∈ [TcpTxItem.sacked, TcpTxItem.lost, TcpTxItem.retrans, fun _ => true],
      flagged flag list = (if flag item then item.size - n else 0) + flagged flag rest) :
    Counted (b₁.shortened list n) := by
  obtain ⟨exact_, sized⟩ := h
  have fits := sized.fits
  simp only [removeFromCounts, bind_returns, pure_returns] at run
  obtain ⟨-, -, -, -, -, -, rfl⟩ := run
  have counter : ∀ {flag : TcpTxItem → Bool} {k : Nat}, k = flagged flag b.sentList →
      flagged flag list = (if flag item then item.size - n else 0) + flagged flag rest →
      (if flag item then UInt32.sub k n else k) = flagged flag list := by
    intro flag k counted after
    have small := flagged_le_total flag b.sentList
    rw [after]
    refine removed_count ?_ (by omega)
    rw [counted, sent, flagged_cons, share, Nat.add_sub_cancel' le]
  have total_ : total list = item.size - n + total rest := by
    simpa [total_eq_flagged] using left (fun _ => true) (by simp)
  refine ⟨?_, sized.drops ?_ ?_ _ _ _⟩
  · exact
      { sackedOut := counter exact_.sackedOut (left _ (by simp))
        lostOut := counter exact_.lostOut (left _ (by simp))
        retrans := counter exact_.retrans (left _ (by simp))
        clear := exact_.clear }
  · rw [sent, total_cons]
    omega
  · rw [total_, sent, total_cons]
    omega

theorem Counted.refill (run : b.refill .debug now n = some b') : Counted b' := by
  obtain ⟨-, rfl⟩ | ⟨-, item, copy⟩ := refill_cases run
  · exact h
  · exact h.copyFromSequence copy

theorem Counted.discardLoop {turns : Nat}
    (run : discardLoop .debug now turns n b = some b') : Counted b' := by
  refine discardLoop_induct (R := fun _ b => Counted b → Counted b') (fun _ h => h) ?_ ?_ run h
  · intro n b b₁ b₂ item rest _ filled sent _ counted ih h
    exact ih ((h.refill filled).drops sent le_rfl counted (by simp))
  · rintro n b b₁ b₂ item rest packet _ filled sent inside cut counted rfl h
    have h₁ := h.refill filled
    have fits := h₁.sized.fits
    rw [sent, total_cons] at fits
    have size := length_cut inside (by omega) cut
    refine h₁.drops sent inside.le counted ?_
    simp [share, TcpTxItem.size, size]

theorem Counted.settleHead (run : b.settleHead .debug seq = some b') :
    Counted b' := by
  rw [TcpTxBuffer.settleHead.eq_def] at run
  cases sent : b.sentList with
  | nil =>
    rw [sent] at run
    exact some.inj run ▸ h
  | cons head tail =>
    rw [sent] at run
    simp only [bind_eq_bind, bind_eq_some_iff, Option.pure_def,
      some.injEq] at run
    obtain ⟨b₁, settled, -, -, rfl⟩ := run
    cases sacked : head.sacked with
    | false =>
      rw [sacked, if_neg Bool.false_ne_true] at settled
      exact some.inj settled ▸ h
    | true =>
      simp only [sacked, if_true, bind_eq_some_iff] at settled
      obtain ⟨-, -, b₂, moved, eq⟩ := settled
      cases eq
      have cleared : Counted { b with
          sentList := { head with sacked := false } :: tail
          sackedOut := UInt32.sub b.sackedOut head.size } := by
        refine h.tracks ⟨?_, rfl, rfl, rfl, rfl, rfl⟩ ?_ ?_ ?_
        · exact sent ▸ SameItems.cons rfl rfl (SameItems.refl tail)
        · rw [sent]
          exact Tracks.lose [] tail (by simp [share, sacked])
        · rw [sent]
          exact Tracks.same rfl
        · rw [sent]
          exact Tracks.same rfl
      exact (cleared.addRenoSack moved).markHeadAsLost

theorem Counted.moved (seq : SequenceNumber32)
    (highestSack : Option Nat × SequenceNumber32) :
    Counted { b with firstByteSeq := seq, highestSack } where
  exact := ⟨h.exact.sackedOut, h.exact.lostOut, h.exact.retrans, h.exact.clear⟩
  sized := ⟨h.sized.sentSize, h.sized.size, h.sized.room, h.sized.maxBuffer⟩

theorem Counted.fin (seq : SequenceNumber32) :
    Counted (if b.size = 0 then { b with firstByteSeq := seq } else b) := by
  split
  · exact h.moved seq b.highestSack
  · exact h

theorem Counted.dropHighest :
    Counted (if b.highestSack.2.le b.firstByteSeq then { b with highestSack := (none, .ofNat 0) }
      else b) := by
  split
  · exact h.moved b.firstByteSeq (none, .ofNat 0)
  · exact h

theorem Counted.discardUpTo (run : b.discardUpTo .debug now seq = some b') :
    Counted b' := by
  rw [TcpTxBuffer.discardUpTo] at run
  split at run
  · exact some.inj run ▸ h
  · simp only [bind_returns, pure_returns] at run
    obtain ⟨b₁, dropped, b₂, settled, -, -, -, -, rfl⟩ := run
    exact (((h.discardLoop dropped).fin seq).settleHead settled).dropHighest

end

end Discard

section Reset

variable {b : TcpTxBuffer}

theorem Counted.resetSentList (h : Counted b) : Counted b.resetSentList where
  exact :=
    { sackedOut := rfl
      lostOut := rfl
      retrans := rfl
      clear := forall_mem_append.mpr
        ⟨List.forall_mem_map.mpr fun _ _ => ⟨rfl, rfl, rfl⟩, h.exact.clear⟩ }
  sized := h.sized.resetSentList

/-- There is no segment to take back, or it has no flag. -/
def LastClear (b : TcpTxBuffer) : Prop := ∀ item ∈ b.sentList.getLast?, Clear item
  deriving Decidable

/-- Taking the last segment back keeps the law exactly when it has no flag: the
item keeps its flags, and only its retransmitted bytes leave a counter. -/
theorem exact_resetLastSegmentSent_iff (h : Counted b) :
    Exact b.resetLastSegmentSent ↔ b.LastClear := by
  unfold LastClear
  rw [TcpTxBuffer.resetLastSegmentSent.eq_def]
  cases last : b.sentList.getLast? with
  | none => exact ⟨fun _ => by simp, fun _ => h.exact⟩
  | some item =>
    have sent : b.sentList.dropLast ++ [item] = b.sentList := dropLast_append_getLast? item last
    constructor
    · rintro exact_ _ ⟨⟩
      exact exact_.clear { item with node := b.nextNode } mem_cons_self
    · intro clear
      obtain ⟨sacked, lost, retrans⟩ := clear item rfl
      have kept : ∀ flag : TcpTxItem → Bool, flag item = false →
          flagged flag b.sentList = flagged flag b.sentList.dropLast := by
        intro flag none
        conv_lhs => rw [← sent]
        simp [share, none]
      exact
        { sackedOut := h.exact.sackedOut.trans (kept _ sacked)
          lostOut := h.exact.lostOut.trans (kept _ lost)
          retrans := by
            dsimp only
            rw [retrans, if_neg Bool.false_ne_true]
            exact h.exact.retrans.trans (kept _ retrans)
          clear := forall_mem_cons.mpr ⟨⟨sacked, lost, retrans⟩, h.exact.clear⟩ }

end Reset

section Runs

variable {b b' : TcpTxBuffer} {c : Call}

/-- The condition on a call: a segment that is taken back has no flag. -/
def TakesBackClear (b : TcpTxBuffer) : Call → Prop
  | .resetLastSegmentSent => b.LastClear
  | _ => True

instance (b : TcpTxBuffer) : (c : Call) → Decidable (b.TakesBackClear c)
  | .resetLastSegmentSent => inferInstanceAs (Decidable b.LastClear)
  | .add _ | .copyFromSequence _ _ _ | .update _ | .discardUpTo _ _ | .addRenoSack
  | .resetRenoSack | .markHeadAsLost | .deleteRetransmittedFlagFromHead | .setSentListLost _
  | .resetSentList => instDecidableTrue

theorem Counted.call (h : Counted b) (clear : b.TakesBackClear c)
    (run : b.call .debug c = some b') : Counted b' := by
  cases c with
  | add p => exact some.inj run ▸ h.add p
  | copyFromSequence now numBytes seq =>
    obtain ⟨r, copy, rfl⟩ := map_eq_some_iff.mp run
    exact h.copyFromSequence copy
  | update list =>
    obtain ⟨r, update, rfl⟩ := map_eq_some_iff.mp run
    exact h.update update
  | discardUpTo now seq => exact h.discardUpTo run
  | addRenoSack => exact h.addRenoSack run
  | resetRenoSack => exact some.inj run ▸ h.resetRenoSack
  | markHeadAsLost => exact some.inj run ▸ h.markHeadAsLost
  | deleteRetransmittedFlagFromHead => exact h.deleteRetransmittedFlagFromHead run
  | setSentListLost resetSack => exact h.setSentListLost run
  | resetSentList => exact some.inj run ▸ h.resetSentList
  | resetLastSegmentSent =>
    cases run
    exact ⟨(exact_resetLastSegmentSent_iff h).mpr clear, h.sized.resetLastSegmentSent⟩

theorem Counted.start (seq : SequenceNumber32) {maxBuffer : Nat} (fits : maxBuffer < 2 ^ 32)
    (dupAckThresh segmentSize : Nat) (sackEnabled : Bool) :
    Counted (start seq maxBuffer dupAckThresh segmentSize sackEnabled) where
  exact := ⟨rfl, rfl, rfl, by simp [TcpTxBuffer.start]⟩
  sized := ⟨rfl, rfl, Nat.zero_le _, fits⟩

/-- The counters are exact in every state of a run of calls that violate no
assertion if and only if the run takes back only segments without flags. -/
theorem counters_exact_iff (seq : SequenceNumber32) (maxBuffer dupAckThresh segmentSize : Nat)
    (sackEnabled : Bool) (fits : maxBuffer < 2 ^ 32) (calls : List Call) :
    Run.Always (call .debug) Exact (start seq maxBuffer dupAckThresh segmentSize sackEnabled)
        calls ↔
      Run.Meets (call .debug) TakesBackClear
        (start seq maxBuffer dupAckThresh segmentSize sackEnabled) calls := by
  refine Run.always_iff_meets (Counted.start seq fits dupAckThresh segmentSize sackEnabled)
    (fun _ h => h.exact) (fun _ _ _ h clear run => h.call clear run) ?_
  intro b c h exact_
  cases c with
  | resetLastSegmentSent => exact (exact_resetLastSegmentSent_iff h).mp (exact_ _ rfl)
  | _ => trivial

/-- A segment is sacked, another one sent again, the first one taken back after
all flags are cleared. -/
theorem counters_exact_cleared : Run.Always (call .debug) Exact (start (.ofNat 10) 8 1 2 true)
      [.add [1, 2, 3, 4], .copyFromSequence 0 2 (.ofNat 10), .copyFromSequence 0 2 (.ofNat 12),
        .update [(.ofNat 12, .ofNat 14)], .copyFromSequence 1 2 (.ofNat 10), .resetRenoSack,
        .resetLastSegmentSent, .discardUpTo 2 (.ofNat 11)] :=
  (counters_exact_iff (.ofNat 10) 8 1 2 true (by decide)
    [.add [1, 2, 3, 4], .copyFromSequence 0 2 (.ofNat 10), .copyFromSequence 0 2 (.ofNat 12),
      .update [(.ofNat 12, .ofNat 14)], .copyFromSequence 1 2 (.ofNat 10), .resetRenoSack,
      .resetLastSegmentSent, .discardUpTo 2 (.ofNat 11)]).mpr (by decide +kernel)

/-- A segment that counts as lost is taken back. Its bytes stay counted. -/
theorem lost_segment_taken_back :
    ∃ calls b, Run.exec (call .debug) (start (.ofNat 1) 8 3 2 true) calls = some b ∧
      ¬ Exact b := by
  have ran : (Run.exec (call .debug) (start (.ofNat 1) 8 3 2 true)
      [.add [1, 2], .copyFromSequence 0 2 (.ofNat 1), .setSentListLost false,
        .resetLastSegmentSent]).map (fun b => (b.lostOut, b.sentList)) = some (2, []) := by
    decide
  obtain ⟨b, run, eq⟩ := Option.map_eq_some_iff.mp ran
  obtain ⟨lostOut, sentList⟩ := Prod.mk.inj eq
  refine ⟨_, b, run, fun exact_ => ?_⟩
  have counted := exact_.lostOut
  rw [lostOut, sentList] at counted
  exact absurd counted (by decide)

end Runs

end Ns3.TcpTxBuffer
