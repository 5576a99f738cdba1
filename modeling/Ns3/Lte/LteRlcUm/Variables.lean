import Ns3.Lte.LteRlcUm.Window

/-!
# What each call does to the state variables

The reassembly reads and writes neither the state variables nor the map. The loops of the receiver
are described by the numbers that they take out of the map.
-/

namespace Ns3.LteRlcUm

open SequenceNumber10 (at_ lt_at incr_at at_value)

variable {α : Type} {s t u : LteRlcUmRx α} {p q low high : Nat}

/-! ## Reassembly -/

/-- The state variables and the map are the same. -/
structure Untouched (s t : LteRlcUmRx α) : Prop extends SameVariables s t where
  rxBuffer : t.rxBuffer = s.rxBuffer

theorem Untouched.refl (s : LteRlcUmRx α) : Untouched s s := ⟨.refl s, rfl⟩

theorem Untouched.trans (h : Untouched s t) (h' : Untouched t u) : Untouched s u :=
  ⟨h.toSameVariables.trans h'.toSameVariables, h'.rxBuffer.trans h.rxBuffer⟩

theorem reassembleWithoutS0_untouched (framingInfo : Nat) (s : LteRlcUmRx α) :
    Untouched s (reassembleWithoutS0 framingInfo s) := by
  unfold reassembleWithoutS0
  split
  · exact ⟨⟨rfl, rfl, rfl, rfl⟩, rfl⟩
  · exact ⟨⟨rfl, rfl, rfl, rfl⟩, rfl⟩
  · exact ⟨⟨rfl, rfl, rfl, rfl⟩, rfl⟩
  · have discarded (state : ReassemblingState) :
        Untouched s (discardFront { s with reassemblingState := state }) :=
      ⟨⟨rfl, rfl, rfl, rfl⟩, rfl⟩
    generalize (if s.sdusBuffer.length = 1 then ReassemblingState.waitingS0Full
      else .waitingSiSf) = state
    by_cases single : (discardFront { s with reassemblingState := state }).sdusBuffer = []
    · rw [if_pos single]
      exact discarded state
    · rw [if_neg single]
      exact (discarded state).trans ⟨⟨rfl, rfl, rfl, rfl⟩, rfl⟩
  · exact .refl s

theorem deliverS0_untouched (returns : deliverS0 s = some t) : Untouched s t := by
  obtain ⟨s0, -, returns⟩ := bind_returns.mp returns
  obtain ⟨front, -, returns⟩ := bind_returns.mp returns
  cases returns
  exact ⟨⟨rfl, rfl, rfl, rfl⟩, rfl⟩

theorem reassembleWithS0_untouched {framingInfo : Nat}
    (returns : reassembleWithS0 framingInfo s = some t) : Untouched s t := by
  unfold reassembleWithS0 at returns
  split at returns
  · obtain ⟨u, delivered, rfl⟩ := Option.map_eq_some_iff.mp returns
    have same := deliverS0_untouched delivered
    exact ⟨⟨same.vrUr, same.vrUx, same.vrUh, same.timer⟩, same.rxBuffer⟩
  · split at returns
    · obtain ⟨s0, -, returns⟩ := bind_returns.mp returns
      obtain ⟨front, -, returns⟩ := bind_returns.mp returns
      cases returns
      exact ⟨⟨rfl, rfl, rfl, rfl⟩, rfl⟩
    · obtain ⟨u, delivered, rfl⟩ := Option.map_eq_some_iff.mp returns
      have same := deliverS0_untouched delivered
      exact ⟨⟨same.vrUr, same.vrUx, same.vrUh, same.timer⟩, same.rxBuffer⟩
  · cases returns
    exact .refl s

/-- `ReassembleAndDeliver`. -/
theorem reassembleAndDeliver_untouched {packet : RlcPdu α}
    (returns : reassembleAndDeliver packet s = some t) : Untouched s t := by
  obtain ⟨⟨rlcHeader, data⟩, -, returns⟩ := bind_returns.mp returns
  obtain ⟨sdus, -, returns⟩ := bind_returns.mp returns
  dsimp only at returns
  split at returns
  · cases returns
    exact ⟨⟨rfl, rfl, rfl, rfl⟩, rfl⟩
  · cases returns
    refine .trans ?_ (reassembleWithoutS0_untouched _ _)
    exact ⟨⟨rfl, rfl, rfl, rfl⟩, rfl⟩
  · split at returns
    · cases returns
      refine .trans ?_ (reassembleWithoutS0_untouched _ _)
      exact ⟨⟨rfl, rfl, rfl, rfl⟩, rfl⟩
    · refine .trans ?_ (reassembleWithS0_untouched returns)
      exact ⟨⟨rfl, rfl, rfl, rfl⟩, rfl⟩

/-! ## The loops -/

/-- Is there a PDU with this number in the map? -/
def has (sn : Nat) (rxBuffer : List (Nat × RlcPdu α)) : Prop := ∃ e ∈ rxBuffer, e.1 = sn

variable {rxBuffer : List (Nat × RlcPdu α)}

theorem not_has_of_find {sn : Nat}
    (found : find sn rxBuffer = none) : ¬ has sn rxBuffer := by
  rintro ⟨e, mem, rfl⟩
  have there := find_isSome mem
  rw [found] at there
  cases there

theorem reassembleSnLoop_variables {highSeqNumber : SequenceNumber10} (rounds : Nat) :
    ∀ (reassembleSn : SequenceNumber10) (s : LteRlcUmRx α),
    reassembleSnLoop rounds reassembleSn highSeqNumber s = some t → SameVariables s t := by
  induction rounds with
  | zero =>
    intro reassembleSn s returns
    cases returns
  | succ rounds ih =>
    intro reassembleSn s returns
    rw [reassembleSnLoop] at returns
    split at returns
    · split at returns
      · obtain ⟨u, delivers, rest⟩ := bind_returns.mp returns
        have later := ih _ _ rest
        refine (reassembleAndDeliver_untouched delivers).toSameVariables.trans ?_
        exact ⟨later.vrUr, later.vrUx, later.vrUh, later.timer⟩
      · exact ih _ s returns
    · cases returns
      exact .refl _

/-- What a loop that delivers PDUs leaves in the map. -/
theorem reassembleSnLoop_spec {base : Nat} (rounds : Nat) : ∀ (low : Nat) (s : LteRlcUmRx α),
    OrderedList.Ranked id s.rxBuffer → base ≤ low + 512 → low ≤ q → q < base + 512 →
    reassembleSnLoop rounds (at_ base low) (at_ base q) s = some t →
    OrderedList.Ranked id t.rxBuffer ∧ ∀ e, e ∈ t.rxBuffer ↔
      e ∈ s.rxBuffer ∧ ∀ k, low ≤ k → k < q → e.1 ≠ k % 1024 := by
  induction rounds with
  | zero =>
    intro low s _ _ _ _ returns
    cases returns
  | succ rounds ih =>
    intro low s ranked near le top returns
    rw [reassembleSnLoop, lt_at (by omega) (by omega) (by omega) top, incr_at, at_value]
      at returns
    by_cases before : low < q
    · rw [decide_eq_true before, if_pos rfl] at returns
      cases found : find (low % 1024) s.rxBuffer with
      | none =>
        rw [found] at returns
        obtain ⟨ranked', mem⟩ := ih (low + 1) s ranked (by omega) before top returns
        refine ⟨ranked', fun e => (mem e).trans (and_congr_right fun held => ?_)⟩
        constructor
        · intro apart k above below here
          rcases Nat.eq_or_lt_of_le above with rfl | beyond
          · have there := find_isSome held
            rw [here, found] at there
            cases there
          · exact apart k beyond below here
        · exact fun apart k above => apart k (by omega)
      | some packet =>
        rw [found] at returns
        obtain ⟨u, delivers, rest⟩ := bind_returns.mp returns
        have untouched := reassembleAndDeliver_untouched delivers
        rw [← untouched.rxBuffer] at ranked
        obtain ⟨ranked', mem⟩ := ih (low + 1)
          { u with rxBuffer := OrderedList.erase (low % 1024) u.rxBuffer } ranked.erase
          (by omega) before top rest
        refine ⟨ranked', fun e => ?_⟩
        rw [mem e, ranked.mem_erase, untouched.rxBuffer, and_assoc]
        refine and_congr_right fun _ => ⟨?_, fun apart => ⟨apart low (Nat.le_refl low) before,
          fun k above => apart k (by omega)⟩⟩
        rintro ⟨other, apart⟩ k above below
        rcases Nat.eq_or_lt_of_le above with rfl | beyond
        · exact other
        · exact apart k beyond below
    · rw [decide_eq_false before, if_neg Bool.false_ne_true] at returns
      cases returns
      refine ⟨ranked, fun e => ?_⟩
      rw [iff_self_and]
      intro _ k above below
      omega

/-- The number at which the search from another ends is not in the map, those before it are. -/
theorem nextMissing_spec {n : Nat} (rounds : Nat) : ∀ c,
    nextMissing rounds c rxBuffer = some n →
    c ≤ n ∧ ¬ has n rxBuffer ∧ ∀ k, c ≤ k → k < n → has k rxBuffer := by
  induction rounds with
  | zero => intro c returns; cases returns
  | succ rounds ih =>
    intro c returns
    rw [nextMissing] at returns
    cases found : find c rxBuffer with
    | none =>
      rw [found, Option.isSome_none, if_neg Bool.false_ne_true] at returns
      cases returns
      exact ⟨le_rfl, not_has_of_find found,
        fun k above below => absurd below (Nat.not_lt.mpr above)⟩
    | some packet =>
      rw [found, Option.isSome_some, if_pos rfl] at returns
      obtain ⟨le, absent, present⟩ := ih (c + 1) returns
      refine ⟨by omega, absent, fun k above below => ?_⟩
      rcases Nat.eq_or_lt_of_le above with rfl | beyond
      · exact ⟨_, find_mem found, rfl⟩
      · exact present k beyond below

theorem nextMissingFrom_spec {base : Nat}
    {sn : SequenceNumber10} (rounds : Nat) : ∀ p,
    nextMissingFrom rounds (at_ base p) rxBuffer = some sn →
    ∃ q, sn = at_ base q ∧ p ≤ q ∧ ¬ has (q % 1024) rxBuffer ∧
      ∀ k, p ≤ k → k < q → has (k % 1024) rxBuffer := by
  induction rounds with
  | zero => intro p returns; cases returns
  | succ rounds ih =>
    intro p returns
    rw [nextMissingFrom, at_value, incr_at] at returns
    cases found : find (p % 1024) rxBuffer with
    | none =>
      rw [found, Option.isSome_none, if_neg Bool.false_ne_true] at returns
      cases returns
      exact ⟨p, rfl, le_rfl, not_has_of_find found,
        fun k above below => absurd below (Nat.not_lt.mpr above)⟩
    | some packet =>
      rw [found, Option.isSome_some, if_pos rfl] at returns
      obtain ⟨q, number, le, absent, present⟩ := ih (p + 1) returns
      refine ⟨q, number, by omega, absent, fun k above below => ?_⟩
      rcases Nat.eq_or_lt_of_le above with rfl | beyond
      · exact ⟨_, find_mem found, rfl⟩
      · exact present k beyond below

theorem isInside_congr {a b : SequenceNumber10} (same : a.value = b.value)
    (sn : SequenceNumber10) : isInsideReorderingWindow a sn = isInsideReorderingWindow b sn := by
  have base : (a.sub windowSize).value = (b.sub windowSize).value := by
    simp only [SequenceNumber10.sub, same]
  have highest : a.setModulusBase (a.sub windowSize) = b.setModulusBase (b.sub windowSize) := by
    simp only [SequenceNumber10.setModulusBase, same, base]
  have number : sn.setModulusBase (a.sub windowSize) = sn.setModulusBase (b.sub windowSize) := by
    simp only [SequenceNumber10.setModulusBase, base]
  simp only [isInsideReorderingWindow, highest, number]

/-- The loop over what falls out of the window takes PDUs from the front of the map. -/
theorem reassembleOutsideLoop_spec (entries : List (Nat × RlcPdu α)) : ∀ s : LteRlcUmRx α,
    s.rxBuffer = entries → reassembleOutsideLoop entries s = some t →
    t.vrUr = s.vrUr ∧ t.vrUx = s.vrUx ∧ t.vrUh.value = s.vrUh.value ∧
      t.reorderingTimer = s.reorderingTimer ∧
      t.rxBuffer = entries.dropWhile fun e => !isInsideReorderingWindow s.vrUh (.ofNat e.1) := by
  induction entries with
  | nil =>
    intro s held returns
    cases returns
    exact ⟨rfl, rfl, rfl, rfl, held⟩
  | cons entry rest ih =>
    intro s held returns
    have rebased : isInsideReorderingWindow (rebaseVrUh s).vrUh (.ofNat entry.1) =
        isInsideReorderingWindow s.vrUh (.ofNat entry.1) := rfl
    rw [reassembleOutsideLoop] at returns
    simp only [rebased] at returns
    cases inside : isInsideReorderingWindow s.vrUh (.ofNat entry.1) with
    | true =>
      rw [inside, if_pos rfl] at returns
      cases returns
      refine ⟨rfl, rfl, rfl, rfl, ?_⟩
      rw [List.dropWhile_cons_of_neg (by rw [inside]; decide)]
      exact held
    | false =>
      rw [inside, if_neg Bool.false_ne_true] at returns
      obtain ⟨u, delivers, later⟩ := bind_returns.mp returns
      have same := reassembleAndDeliver_untouched delivers
      obtain ⟨vrUr, vrUx, vrUh, timer, left⟩ := ih { u with rxBuffer := rest } rfl later
      have number : u.vrUh.value = s.vrUh.value := by
        rw [same.vrUh]
        rfl
      refine ⟨vrUr.trans same.vrUr, vrUx.trans same.vrUx, vrUh.trans number,
        timer.trans same.timer, ?_⟩
      rw [List.dropWhile_cons_of_pos (by rw [inside]; decide), left]
      simp only [isInside_congr number]

/-- The t-Reordering timer runs exactly while numbers below VR(UH) are missing, up to VR(UX). -/
theorem updateTimer_spec (vrUr : s.vrUr.value = low % 1024) (vrUh : s.vrUh.value = high % 1024)
    (le : low ≤ high) (near : high ≤ low + 512) (timer : s.reorderingTimer = true →
      ∃ x, s.vrUx.value = x % 1024 ∧ x ≤ high ∧ high < x + 1024) :
    ∃ v, updateTimer s = { s with
        vrUr := at_ high low, vrUx := v, vrUh := at_ high high,
        reorderingTimer := decide (low < high) } ∧
      (low < high → ∃ x, v = at_ high x ∧ low < x ∧ x ≤ high) := by
  have base := SequenceNumber10.sub_value vrUh
  have r : s.vrUr.setModulusBase (s.vrUh.sub windowSize) = at_ high low :=
    SequenceNumber10.setModulusBase_at vrUr base
  have u : s.vrUh.setModulusBase (s.vrUh.sub windowSize) = at_ high high := rebase vrUh vrUh
  have above : (at_ high high).gt (at_ high low) = decide (low < high) :=
    SequenceNumber10.gt_at (by omega) (by omega) (by omega) (by omega)
  -- a timer that does not run is started while PDUs are missing
  have stopped (v : SequenceNumber10) : ∃ w, (if low < high then { s with
          vrUr := at_ high low, vrUx := at_ high high, vrUh := at_ high high, reorderingTimer :=
            true }
        else { s with
          vrUr := at_ high low, vrUx := v, vrUh := at_ high high, reorderingTimer := false }) =
      { s with vrUr := at_ high low, vrUx := w, vrUh := at_ high high,
               reorderingTimer := decide (low < high) } ∧
      (low < high → ∃ x, w = at_ high x ∧ low < x ∧ x ≤ high) := by
    split
    case isTrue before =>
      exact ⟨_, by rw [decide_eq_true before], fun _ => ⟨high, rfl, before, Nat.le_refl high⟩⟩
    case isFalse after =>
      exact ⟨v, by rw [decide_eq_false after], fun before => absurd before after⟩
  rw [updateTimer]
  simp only [r, u]
  by_cases stop :
    (s.reorderingTimer && ((s.vrUx.setModulusBase (s.vrUh.sub windowSize)).le (at_ high low) ||
      (!isInsideReorderingWindow (at_ high high) (s.vrUx.setModulusBase (s.vrUh.sub windowSize)) &&
        (s.vrUx.setModulusBase (s.vrUh.sub windowSize)).value ≠ (at_ high high).value))) = true
  · have result := stopped (s.vrUx.setModulusBase (s.vrUh.sub windowSize))
    simp only [stop, if_true, Bool.not_false, Bool.true_and, above, decide_eq_true_eq]
    exact result
  · cases running : s.reorderingTimer with
    | false =>
      have result := stopped (s.vrUx.setModulusBase (s.vrUh.sub windowSize))
      rw [running] at stop
      simp only [stop, Bool.false_eq_true, if_false, Bool.not_false, Bool.true_and, above,
        decide_eq_true_eq]
      exact result
    | true =>
      obtain ⟨x, vrUx, le_high, lowest⟩ := timer running
      rw [running, Bool.true_and, Bool.or_eq_true, not_or, Bool.and_eq_true, not_and] at stop
      obtain ⟨notPassed, reached⟩ := stop
      have inside : isInsideReorderingWindow (at_ high high)
          (s.vrUx.setModulusBase (s.vrUh.sub windowSize)) = decide (high ≤ x + 512 ∧ x < high) :=
        isInside_iff rfl vrUx (by omega) (by omega)
      have within : high ≤ x + 512 := by
        by_contra far
        have outside : (!isInsideReorderingWindow (at_ high high)
            (s.vrUx.setModulusBase (s.vrUh.sub windowSize))) = true := by
          rw [inside, decide_eq_false fun both => far both.1]
          rfl
        refine reached outside (decide_eq_true ?_)
        change s.vrUx.value ≠ high % 1024
        omega
      have e : s.vrUx.setModulusBase (s.vrUh.sub windowSize) = at_ high x :=
        SequenceNumber10.setModulusBase_at vrUx base
      have before : low < x := by
        rw [e, SequenceNumber10.le_at within (by omega) (by omega) (by omega), decide_eq_true_eq]
          at notPassed
        exact not_le.mp notPassed
      have keep : ¬ ((at_ high x).le (at_ high low) = true ∨
          (!isInsideReorderingWindow (at_ high high) (at_ high x)) = true ∧
            decide ((at_ high x).value ≠ (at_ high high).value) = true) := by
        rw [← e, not_or, not_and]
        exact ⟨notPassed, reached⟩
      rw [← Bool.and_eq_true, ← Bool.or_eq_true] at keep
      have missing : decide (low < high) = true := decide_eq_true (by omega)
      refine ⟨at_ high x, ?_, fun _ => ⟨x, rfl, before, le_high⟩⟩
      simp only [e, Bool.true_and, keep, Bool.false_eq_true, if_false, Bool.not_true,
        Bool.false_and, missing]

/-- `DoReceivePdu`, for a PDU within half the space of the highest. -/
theorem doReceivePdu_opened {packet : RlcPdu α} {header : LteRlcHeader}
    (peek : packet.peekHeader = some header) (vrUr : s.vrUr.value = low % 1024)
    (vrUh : s.vrUh.value = high % 1024) (number : header.sequenceNumber.value = q % 1024)
    (le : low ≤ high) (near : high ≤ low + 512) (lowest : high ≤ q + 512)
    (highest : q < high + 512) :
    doReceivePdu packet s =
      if (decide (low < q) && decide (q < high) && (find (q % 1024) s.rxBuffer).isSome) ||
          decide (q < low) then some { s with vrUr := at_ high low, vrUh := at_ high high }
      else
        ((if q < high then
            some { s with
              rxBuffer := store (q % 1024) packet s.rxBuffer
              vrUr := at_ high low, vrUh := at_ high high }
          else moveWindow (at_ high q) { s with
              rxBuffer := store (q % 1024) packet s.rxBuffer
              vrUr := at_ high low, vrUh := at_ high high }).bind deliverFromVrUr).map
                updateTimer := by
  have base := SequenceNumber10.sub_value vrUh
  have e (k : Nat) (x : SequenceNumber10) (value : x.value = k % 1024) :
      x.setModulusBase (s.vrUh.sub windowSize) = at_ high k :=
    SequenceNumber10.setModulusBase_at value base
  have u : (at_ high high).setModulusBase ((at_ high high).sub windowSize) = at_ high high :=
    rebase rfl rfl
  have least (x : SequenceNumber10) : ((at_ high high).sub windowSize).le x = true :=
    SequenceNumber10.le_of_base (SequenceNumber10.sub_value rfl)
  have afterLow : (at_ high low).lt (at_ high q) = decide (low < q) :=
    lt_at (by omega) (by omega) lowest highest
  have beforeHigh : (at_ high q).lt (at_ high high) = decide (q < high) :=
    lt_at lowest highest (by omega) (by omega)
  have beforeLow : (at_ high q).lt (at_ high low) = decide (q < low) :=
    lt_at lowest highest (by omega) (by omega)
  have inside : isInsideReorderingWindow (at_ high high) (at_ high q) = decide (q < high) :=
    isInside_spec high q rfl rfl lowest highest
  rw [doReceivePdu, peek]
  simp only [some_bind, e low _ vrUr, e high _ vrUh, e q _ number, afterLow, beforeHigh, beforeLow,
    least, Bool.true_and, at_value, rebaseVrUh, u, inside, decide_eq_true_eq, pure_some]
  refine ite_congr rfl (fun _ => rfl) fun _ => ?_
  by_cases within : q < high
  · rw [if_pos within, if_pos within]
    exact Option.map_eq_bind.symm
  · rw [if_neg within, if_neg within, Option.map_eq_bind, Option.bind_assoc]
    rfl

end Ns3.LteRlcUm
