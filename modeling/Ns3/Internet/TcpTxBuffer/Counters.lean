import Ns3.Internet.TcpTxBuffer.Scoreboard
import Ns3.Internet.TcpTxBuffer.Sizes

/-!
# The counters stay exact

In debug builds a call whose assertions hold returns, and one whose assertions
do not hold stops. Every call that returns keeps the counters exact, for any
arguments, except that `ResetLastSegmentSent` hands an item with flags back to
the list of the application without taking it out of two of the counters.
-/

namespace Ns3.TcpTxBuffer

open List Option

/-- The law of the scoreboard, as `ConsistencyCheck` states it. -/
structure Exact (b : TcpTxBuffer) : Prop where
  sackedOut : b.sackedOut = flagged TcpTxItem.sacked b.sentList
  lostOut : b.lostOut = flagged TcpTxItem.lost b.sentList
  retrans : b.retrans = flagged TcpTxItem.retrans b.sentList
  clear : ∀ item ∈ b.appList, Clear item

section Reshape

variable {list list' : PacketList} {retrans retrans' : Nat} {item : TcpTxItem}

/-- Debug builds cut an item only inside it. -/
theorem split_inside {size node : Nat} {parts : TcpTxItem × TcpTxItem}
    (run : item.split .debug size node = some parts) (small : size < 2 ^ 32 ∨ size < item.size)
    (fits : item.size < 2 ^ 32) :
    size ≤ item.size ∧
      parts = ({ item with packet := item.packet.take size, node },
        { item with packet := item.packet.drop size, startSeq := item.startSeq.add size }) := by
  have inside : size ≤ item.size := by
    simp only [TcpTxItem.split, Packet.createFragment, bind_returns] at run
    obtain ⟨_, ⟨_, assertion, -⟩, -⟩ := run
    have le := of_decide_eq_true (nsAssert_debug_eq_some.mp assertion)
    unfold UInt32.add at le
    rw [Nat.mod_eq_of_lt (by omega), Nat.zero_add] at le
    exact le
  refine ⟨inside, ?_⟩
  rw [split_eq inside fits] at run
  exact (some.inj run).symm

theorem flagged_pair (flag : TcpTxItem → Bool) {firstPart secondPart : TcpTxItem}
    (front rest : PacketList) (sizes : firstPart.size + secondPart.size = item.size)
    (first : flag firstPart = flag item) (second : flag secondPart = flag item) :
    flagged flag (front ++ firstPart :: secondPart :: rest) =
      flagged flag (front ++ item :: rest) := by
  simp only [flagged_append, flagged_cons, share, first, second]
  split <;> omega

/-- When two items are joined, a mark that only one of them has is taken back,
also in the count. -/
theorem tracks_merge {second merged : TcpTxItem} (front rest : PacketList)
    (sizes : item.size + second.size = merged.size)
    (mark : merged.retrans = (item.retrans && second.retrans)) :
    Tracks TcpTxItem.retrans retrans (front ++ item :: second :: rest)
      (if item.retrans = second.retrans then retrans
        else if item.retrans then UInt32.sub retrans item.size
        else UInt32.sub retrans second.size) (front ++ merged :: rest) := by
  cases first : item.retrans with
  | true =>
    cases other : second.retrans with
    | true =>
      refine Tracks.same (flagged_pair _ front rest sizes ?_ ?_).symm
      · rw [mark, first, other]
        rfl
      · rw [mark, first, other]
        rfl
    | false =>
      rw [if_neg (by decide), if_pos rfl]
      have cleared : Tracks TcpTxItem.retrans retrans (front ++ item :: second :: rest)
          (UInt32.sub retrans item.size)
          (front ++ { item with retrans := false } :: second :: rest) :=
        Tracks.lose front (second :: rest) (by simp [share, first])
      refine cleared.trans (Tracks.same (Eq.symm ?_))
      refine flagged_pair _ front rest sizes ?_ ?_
      · rw [mark, other, Bool.and_false]
      · rw [mark, other, Bool.and_false]
  | false =>
    cases other : second.retrans with
    | true =>
      rw [if_neg (by decide), if_neg (by decide)]
      have cleared : Tracks TcpTxItem.retrans retrans ((front ++ [item]) ++ second :: rest)
          (UInt32.sub retrans second.size)
          ((front ++ [item]) ++ { second with retrans := false } :: rest) :=
        Tracks.lose (front ++ [item]) rest (by simp [share, other])
      rw [append_assoc, append_assoc] at cleared
      refine cleared.trans (Tracks.same (Eq.symm ?_))
      refine flagged_pair _ front rest sizes ?_ ?_
      · rw [mark, first, Bool.false_and]
      · rw [mark, first, Bool.false_and]
    | false =>
      refine Tracks.same (flagged_pair _ front rest sizes ?_ ?_).symm
      · rw [mark, first, other]
        rfl
      · rw [mark, first, other]
        rfl

theorem total_eq_flagged (list : PacketList) : total list = flagged (fun _ => true) list := by
  have all : share (fun _ => true) = TcpTxItem.size := funext fun _ => if_pos rfl
  rw [total, flagged, all]

/-- Reshaping a list keeps what it counts, and the count of retransmitted bytes
follows the flags. -/
theorem Reshape.tracks (h : Reshape .debug list retrans list' retrans')
    (fits : total list < 2 ^ 32) :
    total list' = total list ∧ flagged TcpTxItem.sacked list' = flagged TcpTxItem.sacked list ∧
      flagged TcpTxItem.lost list' = flagged TcpTxItem.lost list ∧
      Tracks TcpTxItem.retrans retrans list retrans' list' := by
  induction h with
  | refl list retrans => exact ⟨rfl, rfl, rfl, Tracks.refl retrans list⟩
  | @split front rest list' item firstPart secondPart size node retrans retrans' small parts _ ih =>
    have itemFits : item.size < 2 ^ 32 := by
      rw [total_append, total_cons] at fits
      omega
    obtain ⟨-, eq⟩ := split_inside parts small itemFits
    cases eq
    have sizes : TcpTxItem.size { item with packet := item.packet.take size, node } +
        TcpTxItem.size { item with
          packet := item.packet.drop size, startSeq := item.startSeq.add size } =
        item.size := by
      simp only [TcpTxItem.size, ← length_append, take_append_drop]
    have totals := flagged_pair (fun _ => true) front rest sizes rfl rfl
    rw [← total_eq_flagged, ← total_eq_flagged] at totals
    obtain ⟨total_, sacked, lost, tracks⟩ := ih (totals ▸ fits)
    refine ⟨total_.trans totals, sacked.trans (flagged_pair _ front rest sizes rfl rfl),
      lost.trans (flagged_pair _ front rest sizes rfl rfl), ?_⟩
    exact (Tracks.same (flagged_pair _ front rest sizes rfl rfl)).trans tracks
  | @merge front rest list' item second merged retrans retrans₁ retrans' joined _ ih =>
    obtain ⟨flags, eq, rfl⟩ := merge_cases joined
    obtain ⟨sameSacked, sameLost⟩ := flags rfl
    have sizes : item.size + second.size = merged.size := by
      rw [eq]
      exact length_append.symm
    have sacked₁ : merged.sacked = item.sacked := by rw [eq]
    have lost₁ : merged.lost = item.lost := by rw [eq]
    have totals := flagged_pair (fun _ => true) front rest sizes rfl rfl
    rw [← total_eq_flagged, ← total_eq_flagged] at totals
    obtain ⟨total_, sacked, lost, tracks⟩ := ih (totals ▸ fits)
    refine ⟨total_.trans totals.symm, sacked.trans (Eq.symm ?_), lost.trans (Eq.symm ?_), ?_⟩
    · exact flagged_pair _ front rest sizes sacked₁.symm (sameSacked.symm.trans sacked₁.symm)
    · exact flagged_pair _ front rest sizes lost₁.symm (sameLost.symm.trans lost₁.symm)
    · exact (tracks_merge front rest sizes (by rw [eq])).trans tracks

/-- Without flags there is nothing to take back. -/
theorem Reshape.clear {profile : BuildProfile} (h : Reshape profile list retrans list' retrans')
    (clear : ∀ item ∈ list, Clear item) : (∀ item ∈ list', Clear item) ∧ retrans' = retrans := by
  induction h with
  | refl list retrans => exact ⟨clear, rfl⟩
  | @split front rest list' item firstPart secondPart size node retrans retrans' _ parts _ ih =>
    obtain ⟨packet, eq⟩ := split_cases parts
    cases eq
    refine ih ?_
    simp only [forall_mem_append, forall_mem_cons] at clear ⊢
    exact ⟨clear.1, clear.2.1, clear.2.1, clear.2.2⟩
  | @merge front rest list' item second merged retrans retrans₁ retrans' joined _ ih =>
    obtain ⟨-, rfl, rfl⟩ := merge_cases joined
    simp only [forall_mem_append, forall_mem_cons] at clear ih
    obtain ⟨front, ⟨sacked, lost, mark⟩, ⟨-, -, mark₂⟩, rest⟩ := clear
    obtain ⟨clear', count⟩ := ih ⟨front, ⟨sacked, lost, by simp [mark]⟩, rest⟩
    exact ⟨clear', count.trans (by rw [mark, mark₂, if_pos rfl])⟩

end Reshape

/-- What every call but one keeps. -/
structure Counted (b : TcpTxBuffer) : Prop where
  exact : Exact b
  sized : Sized b

section Calls

variable {b b' : TcpTxBuffer} {now : Int} {n : Nat} {seq : SequenceNumber32}

theorem Counted.add (h : Counted b) (p : Packet) : Counted (b.add p).2 := by
  refine ⟨?_, h.sized.add p⟩
  have exact_ := h.exact
  rw [TcpTxBuffer.add]
  split
  · split
    · refine { exact_ with clear := ?_ }
      rw [forall_mem_append]
      exact ⟨exact_.clear, by simp [Clear]⟩
    · exact exact_
  · exact exact_

/-- A segment that is sent again counts as retransmitted. -/
theorem Counted.getTransmittedSegment (h : Counted b) {out : Sent}
    (run : b.getTransmittedSegment .debug n seq = some out) :
    Counted { out.buffer with
      sentList := out.front ++ { out.item with lastSent := now } :: out.rest } := by
  refine ⟨?_, h.sized.getTransmittedSegment run⟩
  have exact_ := h.exact
  have fits := h.sized.fits
  simp only [TcpTxBuffer.getTransmittedSegment, bind_returns, pure_returns] at run
  obtain ⟨-, -, -, -, -, -, p, picks, rfl⟩ := run
  obtain ⟨totals, sacked, lost, tracks⟩ :=
    (getPacketFromList_reshape picks).1.tracks (by omega)
  have marked : Tracks TcpTxItem.retrans p.retrans (p.front ++ p.item :: p.rest)
      (if p.item.retrans then p.retrans else UInt32.add p.retrans p.item.size)
      (p.front ++ { p.item with retrans := true, lastSent := now } :: p.rest) := by
    cases mark : p.item.retrans with
    | true =>
      rw [if_pos rfl]
      exact Tracks.same (by simp [share, mark, TcpTxItem.size])
    | false => exact Tracks.gain p.front p.rest (by simp [share, mark, TcpTxItem.size])
  have sameTotal : total (p.front ++ { p.item with retrans := true, lastSent := now } :: p.rest) =
      total b.sentList := by
    rw [← totals]
    simp [TcpTxItem.size]
  exact
    { sackedOut := by
        refine exact_.sackedOut.trans (sacked.symm.trans ?_)
        simp [share, TcpTxItem.size]
      lostOut := by
        refine exact_.lostOut.trans (lost.symm.trans ?_)
        simp [share, TcpTxItem.size]
      retrans := (tracks.trans marked).exact exact_.retrans (by omega) (by omega)
      clear := exact_.clear }

/-- A new segment has no flags, and neither has what is left of the data. -/
theorem Exact.getNewSegment {profile : BuildProfile} (h : Exact b) {out : Sent} (now : Int)
    (run : b.getNewSegment profile n = some out) :
    Exact { out.buffer with
      sentList := out.front ++ { out.item with lastSent := now } :: out.rest } ∧
      Clear out.item := by
  simp only [TcpTxBuffer.getNewSegment, bind_returns, pure_returns] at run
  obtain ⟨p, picks, rfl⟩ := run
  obtain ⟨clear, count⟩ := (getPacketFromList_reshape picks).1.clear h.clear
  simp only [forall_mem_append, forall_mem_cons] at clear
  obtain ⟨front, ⟨sacked, lost, mark⟩, rest⟩ := clear
  refine ⟨?_, sacked, lost, mark⟩
  exact
    { sackedOut := by simpa [share, sacked] using h.sackedOut
      lostOut := by simpa [share, lost] using h.lostOut
      retrans := by simpa [share, mark, count] using h.retrans
      clear := forall_mem_append.mpr ⟨front, rest⟩ }

theorem Counted.getNewSegment (h : Counted b) {out : Sent}
    (run : b.getNewSegment .debug n = some out) :
    Counted { out.buffer with
      sentList := out.front ++ { out.item with lastSent := now } :: out.rest } :=
  ⟨(h.exact.getNewSegment now run).1, h.sized.getNewSegment run⟩

theorem Counted.copyFromSequence (h : Counted b) {r : Option TcpTxItem × TcpTxBuffer}
    (run : b.copyFromSequence .debug now n seq = some r) : Counted r.2 := by
  obtain ⟨item, b'⟩ := r
  rcases copyFromSequence_cases run with ⟨-, rfl⟩ | ⟨s, out, -, -, -, handed, -, rfl⟩
  · exact h
  · rcases handOut_cases handed with ⟨-, sent⟩ | ⟨-, new⟩
    · exact h.getTransmittedSegment sent
    · exact h.getNewSegment new

end Calls

section Flags

variable {b b' : TcpTxBuffer} {list list' : PacketList}

/-- A call that only touches flags, each counter following its flag. -/
theorem Counted.tracks (h : Counted b) (same : SameData b b')
    (sackedOut : Tracks TcpTxItem.sacked b.sackedOut b.sentList b'.sackedOut b'.sentList)
    (lostOut : Tracks TcpTxItem.lost b.lostOut b.sentList b'.lostOut b'.sentList)
    (retrans : Tracks TcpTxItem.retrans b.retrans b.sentList b'.retrans b'.sentList) :
    Counted b' := by
  obtain ⟨exact_, sized⟩ := h
  have fits := sized.fits
  have fits' := (sized.same same).fits
  refine ⟨?_, sized.same same⟩
  exact
    { sackedOut := sackedOut.exact exact_.sackedOut (by omega) (by omega)
      lostOut := lostOut.exact exact_.lostOut (by omega) (by omega)
      retrans := retrans.exact exact_.retrans (by omega) (by omega)
      clear := same.app ▸ exact_.clear }

theorem Counted.markHeadAsLost (h : Counted b) : Counted b.markHeadAsLost := by
  have same := markHeadAsLost_same b
  revert same
  rw [TcpTxBuffer.markHeadAsLost]
  cases sent : b.sentList with
  | nil => exact fun _ => h
  | cons head tail =>
    intro same
    refine h.tracks same ?_ ?_ ?_
    · rw [sent]
      exact Tracks.clear [] tail rfl rfl
    · rw [sent]
      exact Tracks.set [] tail rfl rfl
    · rw [sent]
      exact Tracks.clear [] tail rfl rfl

theorem sackFirst_tracks {k : Nat} {marked : TcpTxItem}
    (run : sackFirst list = (list', some marked)) :
    Tracks TcpTxItem.sacked k list (UInt32.add k marked.size) list' ∧
      flagged TcpTxItem.lost list' = flagged TcpTxItem.lost list ∧
      flagged TcpTxItem.retrans list' = flagged TcpTxItem.retrans list := by
  induction list generalizing list' with
  | nil => exact absurd run (by simp [sackFirst])
  | cons item rest ih =>
    rw [sackFirst] at run
    cases sacked : item.sacked with
    | true =>
      rw [sacked, if_pos rfl] at run
      obtain ⟨rfl, found⟩ := Prod.mk.inj run
      obtain ⟨tracks, lost, retrans⟩ := ih (Prod.ext rfl found)
      exact ⟨tracks.cons rfl, congrArg (_ + ·) lost, congrArg (_ + ·) retrans⟩
    | false =>
      rw [sacked, if_neg Bool.false_ne_true] at run
      obtain ⟨rfl, found⟩ := Prod.mk.inj run
      cases found
      refine ⟨?_, rfl, rfl⟩
      exact Tracks.gain [] rest (by simp [share, sacked, TcpTxItem.size])

theorem Counted.addRenoSack {profile : BuildProfile} (h : Counted b)
    (run : b.addRenoSack profile = some b') : Counted b' := by
  have same := addRenoSack_same run
  simp only [TcpTxBuffer.addRenoSack, bind_returns] at run
  obtain ⟨-, -, run⟩ := run
  cases sent : b.sentList with
  | nil =>
    rw [sent] at run
    cases run
  | cons head tail =>
    rw [sent] at run
    rcases found : sackFirst tail with ⟨tail', item | item⟩
    · simp only [found, Option.pure_def, some.injEq] at run
      exact run ▸ h
    · simp only [found, Option.pure_def, some.injEq] at run
      subst run
      obtain ⟨sacked, lost, retrans⟩ := sackFirst_tracks (k := b.sackedOut) found
      refine h.tracks same ?_ ?_ ?_
      · rw [sent]
        exact sacked.cons rfl
      · rw [sent]
        exact Tracks.same (congrArg (_ + ·) lost)
      · rw [sent]
        exact Tracks.same (congrArg (_ + ·) retrans)

theorem Counted.deleteRetransmittedFlagFromHead (h : Counted b)
    (run : b.deleteRetransmittedFlagFromHead = some b') : Counted b' := by
  have same := deleteRetransmittedFlagFromHead_same run
  rw [TcpTxBuffer.deleteRetransmittedFlagFromHead] at run
  split at run
  · exact some.inj run ▸ h
  · cases sent : b.sentList with
    | nil =>
      rw [sent] at run
      cases run
    | cons head tail =>
      simp only [sent, some.injEq] at run
      subst run
      cases mark : head.retrans with
      | false => exact h
      | true =>
        simp only [mark, if_true] at same ⊢
        refine h.tracks same ?_ ?_ ?_
        · rw [sent]
          exact Tracks.same (by simp [share, TcpTxItem.size])
        · rw [sent]
          exact Tracks.same (by simp [share, TcpTxItem.size])
        · rw [sent]
          exact Tracks.lose [] tail (by simp [share, mark])

theorem flagged_map_false {flag : TcpTxItem → Bool} {f : TcpTxItem → TcpTxItem}
    (cleared : ∀ item, flag (f item) = false) (list : PacketList) :
    0 = flagged flag (list.map f) :=
  (flagged_eq_zero (List.forall_mem_map.mpr fun item _ => cleared item)).symm

theorem Counted.resetRenoSack (h : Counted b) : Counted b.resetRenoSack := by
  obtain ⟨exact_, sized⟩ := h
  refine ⟨?_, sized.same (resetRenoSack_same b)⟩
  exact
    { sackedOut := flagged_map_false (fun _ => rfl) _
      lostOut := by
        refine exact_.lostOut.trans (Eq.symm ?_)
        exact flagged_map b.sentList (fun _ => rfl) (fun _ => rfl)
      retrans := by
        refine exact_.retrans.trans (Eq.symm ?_)
        exact flagged_map b.sentList (fun _ => rfl) (fun _ => rfl)
      clear := exact_.clear }

/-- The sum over the items that `SetSentListLost` leaves lost. -/
theorem foldl_lost (list : PacketList) (fits : total list < 2 ^ 32) :
    list.foldl (fun lostOut item =>
      if item.lost || !item.sacked then UInt32.add lostOut item.size else lostOut) 0 =
      flagged (fun item => item.lost || !item.sacked) list := by
  have general : ∀ list k, k + total list < 2 ^ 32 →
      List.foldl (fun lostOut (item : TcpTxItem) =>
        if item.lost || !item.sacked then UInt32.add lostOut item.size else lostOut) k list =
        k + flagged (fun item => item.lost || !item.sacked) list := by
    intro list
    induction list with
    | nil => exact fun k _ => rfl
    | cons item rest ih =>
      intro k fits
      rw [total_cons] at fits
      rw [foldl_cons, flagged_cons, share]
      split
      · rw [UInt32.add_of_lt (by omega), ih _ (by omega), Nat.add_assoc]
      · rw [ih _ (by omega), Nat.zero_add]
  rw [general list 0 (by omega), Nat.zero_add]

theorem Counted.setSentListLost {profile : BuildProfile} {resetSack : Bool} (h : Counted b)
    (run : b.setSentListLost profile resetSack = some b') : Counted b' := by
  have same := setSentListLost_same run
  obtain ⟨exact_, sized⟩ := h
  have fits := sized.fits
  refine ⟨?_, sized.same same⟩
  simp only [TcpTxBuffer.setSentListLost, bind_returns, pure_returns] at run
  obtain ⟨-, -, run⟩ := run
  subst run
  cases resetSack with
  | true =>
    exact
      { sackedOut := flagged_map_false (fun _ => rfl) _
        lostOut := by
          refine sized.sentSize.trans ((total_eq_flagged _).trans (Eq.symm ?_))
          exact flagged_map b.sentList (fun _ => rfl) (fun _ => rfl)
        retrans := flagged_map_false (fun _ => rfl) _
        clear := exact_.clear }
  | false =>
    exact
      { sackedOut := by
          refine exact_.sackedOut.trans (Eq.symm ?_)
          exact flagged_map b.sentList (fun _ => rfl) (fun _ => rfl)
        lostOut := by
          refine (foldl_lost b.sentList (by omega)).trans (Eq.symm ?_)
          exact flagged_map b.sentList (fun _ => rfl) (fun _ => rfl)
        retrans := flagged_map_false (fun _ => rfl) _
        clear := exact_.clear }

end Flags

end Ns3.TcpTxBuffer
