import Ns3.Lte.LteRlcUm.InOrder

/-!
# The reordering window

What the receiver holds are PDUs of the positions from VR(UR) on. As long as what falls out of
the window comes before the PDU that moves it in the order of the map too, they are delivered in
the order of their positions.
-/

namespace Ns3

open Frames SequenceNumber10 List Option

namespace LteRlcUm

variable {α : Type} {S : Stream α} {s t : LteRlcUmRx α} {low mid high p q : Nat}

/-- The entry of the map for the PDU of a position. -/
def entry (S : Stream α) (p : Nat) : Nat × RlcPdu α := (p % 1024, pduOf p (S.frame p))

/-- The machine has been given the PDUs before `low`, or they are passed over, and the map holds
PDUs from `low` up to `mid`, and perhaps the one before `high`. The PDU before `mid` is among them,
unless it has been delivered. -/
structure Keeps (S : Stream α) (low mid high : Nat) (s : LteRlcUmRx α) : Prop where
  ranked : OrderedList.Ranked id s.rxBuffer
  held : ∀ e ∈ s.rxBuffer, ∃ p, low ≤ p ∧ (p < mid ∨ p + 1 = high) ∧ Fits (S.frame p) ∧
    e = entry S p
  low_le : low ≤ mid
  mid_le : mid ≤ high
  mid_near : mid ≤ low + 512
  high_near : high ≤ low + 1024
  carries : ∃ expected kept, Expects kept expected s ∧ S.Received expected kept s.received ∧
    expected ≤ low ∧ (expected = mid ∨ entry S (mid - 1) ∈ s.rxBuffer ∧
      ∃ q, low ≤ q ∧ q < mid ∧ entry S q ∈ s.rxBuffer ∧ q < expected + 512)

/-- `t` has the state variables and the timer of `s`. -/
structure SameVariables (s t : LteRlcUmRx α) : Prop where
  vrUr : t.vrUr = s.vrUr
  vrUx : t.vrUx = s.vrUx
  vrUh : t.vrUh = s.vrUh
  timer : t.reorderingTimer = s.reorderingTimer

theorem SameVariables.refl (s : LteRlcUmRx α) : SameVariables s s := ⟨rfl, rfl, rfl, rfl⟩

theorem SameVariables.trans {u : LteRlcUmRx α} (h : SameVariables s t) (h' : SameVariables t u) :
    SameVariables s u :=
  ⟨h'.vrUr.trans h.vrUr, h'.vrUx.trans h.vrUx, h'.vrUh.trans h.vrUh, h'.timer.trans h.timer⟩

/-! ## The map -/

theorem find_mem {rxBuffer : List (Nat × RlcPdu α)} {sn : Nat} {packet : RlcPdu α}
    (found : find sn rxBuffer = some packet) : (sn, packet) ∈ rxBuffer := by
  rw [find, map_eq_some_iff] at found
  obtain ⟨e, found, rfl⟩ := found
  have same := find?_some found
  rw [decide_eq_true_eq] at same
  exact same ▸ mem_of_find?_eq_some found

theorem find_isSome {rxBuffer : List (Nat × RlcPdu α)} {e : Nat × RlcPdu α} (mem : e ∈ rxBuffer) :
    (find e.1 rxBuffer).isSome = true := by
  rw [find, isSome_map, find?_isSome]
  exact ⟨e, mem, decide_eq_true rfl⟩

theorem Keeps.found (h : Keeps S low mid high s) {packet : RlcPdu α} (from_ : low ≤ q)
    (near : q < low + 1024) (found : find (q % 1024) s.rxBuffer = some packet) :
    q < high ∧ Fits (S.frame q) ∧ packet = pduOf q (S.frame q) ∧ entry S q ∈ s.rxBuffer := by
  have mem := find_mem found
  obtain ⟨p, low_le, lt_high, fits, same⟩ := h.held _ mem
  obtain ⟨number, rfl⟩ := Prod.mk.inj same
  have span := h.high_near
  have mid_le := h.mid_le
  obtain rfl : p = q := by omega
  exact ⟨by omega, fits, rfl, mem⟩

theorem Keeps.find_entry (mem : entry S q ∈ s.rxBuffer) :
    (find (q % 1024) s.rxBuffer).isSome = true :=
  find_isSome mem

/-! ## The invariant moves on -/

section

variable (h : Keeps S low mid high s)
include h

theorem Keeps.variables (vrUr vrUx vrUh : SequenceNumber10)
    (reorderingTimer : Bool) : Keeps S low mid high
    { s with vrUr, vrUx, vrUh, reorderingTimer } := by
  obtain ⟨expected, kept, expects, rest⟩ := h.carries
  exact ⟨h.ranked, h.held, h.low_le, h.mid_le, h.mid_near, h.high_near, expected, kept,
    ⟨expects.state, expects.s0, expects.empty, expects.number⟩, rest⟩

theorem Keeps.raise (le : low ≤ p) (le_mid : p ≤ mid)
    (above : ∀ q, low ≤ q → entry S q ∈ s.rxBuffer → p ≤ q) : Keeps S p mid high s := by
  obtain ⟨expected, kept, expects, received, expected_le, recent⟩ := h.carries
  refine ⟨h.ranked, fun e mem => ?_, le_mid, h.mid_le, h.mid_near.trans (by omega),
    h.high_near.trans (by omega), expected, kept, expects, received, expected_le.trans le,
    recent.imp id fun ⟨last, q, from_, before, mem, near⟩ =>
      ⟨last, q, above q from_ mem, before, mem, near⟩⟩
  obtain ⟨q, from_, before, fits, rfl⟩ := h.held e mem
  exact ⟨q, above q from_ mem, before, fits, rfl⟩

/-- The PDU at the front is delivered. -/
theorem Keeps.deliver (before : low < mid)
    (mem : entry S low ∈ s.rxBuffer) :
    ∃ t, reassembleAndDeliver (pduOf low (S.frame low)) s = some t ∧ SameVariables s t ∧
      t.rxBuffer = s.rxBuffer ∧
      Keeps S (low + 1) mid high { t with
        rxBuffer := OrderedList.erase (low % 1024) s.rxBuffer } := by
  obtain ⟨expected, kept, expects, received, expected_le, recent⟩ := h.carries
  obtain ⟨p, from_, below_high, fits, same⟩ := h.held _ mem
  have span := h.high_near
  have mid_le := h.mid_le
  obtain rfl : p = low := by
    have number : low % 1024 = p % 1024 := congrArg Prod.fst same
    omega
  obtain ⟨last, q, from_q, below, -, near⟩ :=
    recent.resolve_left fun all => absurd (all ▸ expected_le) (not_le.mpr before)
  have later : p = expected → ∀ message, kept = some message → (S.frame p).first = false := by
    rintro rfl message rfl
    exact S.first_of_keeps received.keeps
  obtain ⟨t, returns, expects', received', buffer, vrUr, vrUx, vrUh, timer⟩ :=
    reassembleAndDeliver_spec fits expects expected_le (by omega) later
  have accepted : S.Received p (if p = expected then kept else none) s.received := by
    by_cases same : p = expected
    · rw [if_pos same, same]
      exact received
    · rw [if_neg same]
      exact received.skip expected_le
  refine ⟨t, returns, ⟨vrUr, vrUx, vrUh, timer⟩, buffer, h.ranked.erase, fun e there => ?_,
    before, h.mid_le,
    h.mid_near.trans (by omega), h.high_near.trans (by omega), p + 1, _,
    ⟨expects'.state, expects'.s0, expects'.empty, expects'.number⟩, ?_, le_rfl, ?_⟩
  · obtain ⟨there, other⟩ := (OrderedList.Ranked.mem_erase h.ranked).mp there
    obtain ⟨q, from_q, below, fits, rfl⟩ := h.held e there
    have ne : q ≠ p := by
      rintro rfl
      exact other rfl
    exact ⟨q, by omega, below, fits, rfl⟩
  · change S.Received (p + 1) _ t.received
    rw [received']
    exact accepted.accept
  · by_cases all : p + 1 = mid
    · exact .inl all
    · -- the newest one is still there
      have mid_near := h.mid_near
      have stays : entry S (mid - 1) ∈ OrderedList.erase (p % 1024) s.rxBuffer :=
        (OrderedList.Ranked.mem_erase h.ranked).mpr ⟨last, by simp only [entry, ne_eq]; omega⟩
      exact .inr ⟨stays, mid - 1, by omega, by omega, stays, by omega⟩

/-- The interval of positions from `low` on is delivered. -/
theorem Keeps.interval {base rounds : Nat} (le : low ≤ q)
    (le_mid : q ≤ mid)
    (enough : q < low + rounds) (lowest : base ≤ low + 512) (highest : q < base + 512) :
    ∃ t, reassembleSnLoop rounds (at_ base low) (at_ base q) s = some t ∧ SameVariables s t ∧
      Keeps S q mid high t := by
  induction rounds generalizing low s with
  | zero => omega
  | succ rounds ih =>
    rw [reassembleSnLoop, lt_at (by omega) (by omega) (by omega) (by omega)]
    by_cases before : low < q
    · rw [decide_eq_true before, if_pos rfl, incr_at, at_value]
      cases found : find (low % 1024) s.rxBuffer with
      | none =>
        refine ih (h.raise (Nat.le_succ low) (by omega) fun p from_ mem => ?_) before
          (by omega) (by omega)
        refine Nat.lt_of_le_of_ne from_ ?_
        rintro rfl
        have held := Keeps.find_entry mem
        rw [found] at held
        exact Bool.false_ne_true held
      | some packet =>
        obtain ⟨-, -, rfl, mem⟩ := h.found (Nat.le_refl low) (by omega) found
        obtain ⟨t, returns, same, buffer, kept⟩ := h.deliver (by omega) mem
        obtain ⟨u, rest, same', kept'⟩ := ih kept before (by omega) (by omega)
        refine ⟨u, ?_, same.trans ⟨same'.vrUr, same'.vrUx, same'.vrUh, same'.timer⟩, kept'⟩
        simp only [returns, some_bind, buffer]
        exact rest
    · obtain rfl : low = q := by omega
      rw [decide_eq_false before]
      exact ⟨s, rfl, .refl s, h⟩

end

/-! ## The window moves -/

theorem isInside_iff {vrUh seqNumber : SequenceNumber10} (valueH : vrUh.value = high % 1024)
    (valueP : seqNumber.value = p % 1024) (lowest : high ≤ p + 1024) (near : p < high + 512) :
    isInsideReorderingWindow vrUh seqNumber = decide (high ≤ p + 512 ∧ p < high) := by
  by_cases within : high ≤ p + 512
  · rw [isInside_spec high p valueH valueP within near, decide_eq_decide]
    exact (and_iff_right within).symm
  · have valueP' : seqNumber.value = (p + 1024) % 1024 := by rw [valueP, Nat.add_mod_right]
    rw [isInside_spec high (p + 1024) valueH valueP' (by omega) (by omega), decide_eq_decide]
    omega

/-- What falls out of the window of the PDU at `x` is delivered, when all of that comes before `x`
in the map. -/
theorem Keeps.outside {x : Nat} {entries : List (Nat × RlcPdu α)} (h : Keeps S low mid (x + 1) s)
    (buffer : s.rxBuffer = entries) (vrUh : s.vrUh.value = (x + 1) % 1024)
    (newest : entry S x ∈ entries) (later : mid ≤ x) (near : x < mid + 512)
    (inOrder : ∀ p, low ≤ p → entry S p ∈ entries → p + 512 < x + 1 → p % 1024 < x % 1024) :
    ∃ t v low', reassembleOutsideLoop entries s = some t ∧ v.value = s.vrUh.value ∧
      SameVariables { s with vrUh := v } t ∧ low ≤ low' ∧ (low' = low ∨ low' + 512 ≤ x + 1) ∧
      Keeps S low' mid (x + 1) t ∧ entry S x ∈ t.rxBuffer ∧
      ∀ p, low' ≤ p → entry S p ∈ t.rxBuffer → x + 1 ≤ p + 512 := by
  induction entries generalizing low s with
  | nil => cases newest
  | cons e rest ih =>
    obtain ⟨p, from_, below, fits, rfl⟩ := h.held e (buffer ▸ mem_cons_self)
    have mid_near := h.mid_near
    have ranked := h.ranked
    rw [buffer] at ranked
    obtain ⟨above, -⟩ := pairwise_cons.mp ranked
    -- the map is in the order of the positions from those on that fall out
    have sorted {q : Nat} (mem : entry S q ∈ entry S p :: rest) (ne : q ≠ p) (from_q : low ≤ q)
        (lt : q < low + 1024) : p % 1024 < q % 1024 := by
      obtain same | mem := mem_cons.mp mem
      · have number : q % 1024 = p % 1024 := congrArg Prod.fst same
        omega
      · exact above _ mem
    have inside : isInsideReorderingWindow (rebaseVrUh s).vrUh (.ofNat (entry S p).1) =
        decide (x + 1 ≤ p + 512 ∧ p < x + 1) :=
      isInside_iff vrUh (Nat.mod_mod p 1024) (by omega) (by omega)
    rw [reassembleOutsideLoop]
    simp only [inside, decide_eq_true_eq]
    by_cases within : x + 1 ≤ p + 512
    · rw [if_pos ⟨within, by omega⟩]
      refine ⟨rebaseVrUh s, s.vrUh.setModulusBase (s.vrUh.sub windowSize), low, rfl, rfl, .refl _,
        Nat.le_refl low, .inl rfl, h.variables s.vrUr s.vrUx _ s.reorderingTimer, buffer ▸ newest,
          ?_⟩
      intro q from_q mem
      change entry S q ∈ s.rxBuffer at mem
      rw [buffer] at mem
      by_contra out
      have before := inOrder q from_q mem (by omega)
      have after := sorted mem (by omega) from_q (by omega)
      omega
    · rw [if_neg fun both => within both.1]
      -- it is the first one that is held
      have least : ∀ q, low ≤ q → entry S q ∈ s.rxBuffer → p ≤ q := by
        intro q from_q mem
        rw [buffer] at mem
        by_contra before
        have out' := inOrder q from_q mem (by omega)
        have after := sorted mem (by omega) from_q (by omega)
        omega
      have raised := h.raise from_ (by omega) least
      obtain ⟨t, returns, same, kept_, kept⟩ :=
        (raised.variables s.vrUr s.vrUx (s.vrUh.setModulusBase (s.vrUh.sub windowSize))
          s.reorderingTimer).deliver (by omega) (buffer ▸ mem_cons_self)
      have erased : OrderedList.erase (p % 1024) s.rxBuffer = rest := by
        rw [buffer]
        exact OrderedList.erase_cons_self (entry S p) rest
      simp only [erased] at kept
      have newest' : entry S x ∈ rest := by
        obtain same | mem := mem_cons.mp newest
        · have number : x % 1024 = p % 1024 := congrArg Prod.fst same
          omega
        · exact mem
      have number : t.vrUh.value = s.vrUh.value := by
        rw [same.vrUh]
        rfl
      obtain ⟨u, v, low', rest_, value, same', le, far, kept', there, after⟩ :=
        ih kept rfl (number.trans vrUh) newest'
          fun q from_q mem => inOrder q (by omega) (mem_cons_of_mem _ mem)
      refine ⟨u, v, low', ?_, value.trans number,
        ⟨same'.vrUr.trans same.vrUr, same'.vrUx.trans same.vrUx, same'.vrUh,
          same'.timer.trans same.timer⟩, by omega, by omega, kept', there, after⟩
      change (reassembleAndDeliver (entry S p).2 (rebaseVrUh s)).bind _ = _
      rw [show reassembleAndDeliver (entry S p).2 (rebaseVrUh s) = some t from returns,
        bind_some]
      exact rest_

/-- The PDU at `x` is the newest one. -/
theorem Keeps.renew {x : Nat} (h : Keeps S low mid (x + 1) s) (newest : entry S x ∈ s.rxBuffer)
    (later : mid ≤ x) (near : x < mid + 512) (within : x + 1 ≤ low + 512) :
    Keeps S low (x + 1) (x + 1) s := by
  obtain ⟨expected, kept, expects, received, expected_le, recent⟩ := h.carries
  have low_le := h.low_le
  refine ⟨h.ranked, fun e mem => ?_, by omega, le_rfl, within, h.high_near, expected, kept,
    expects, received, expected_le, .inr ⟨newest, ?_⟩⟩
  · obtain ⟨p, from_, below, rest⟩ := h.held e mem
    exact ⟨p, from_, .inl (by omega), rest⟩
  · obtain rfl | ⟨-, q, from_, before, mem, close⟩ := recent
    · exact ⟨x, by omega, Nat.lt_succ_self x, newest, near⟩
    · exact ⟨q, from_, by omega, mem, close⟩

/-- The window moves to the PDU at `x`. -/
theorem Keeps.move {x : Nat} (h : Keeps S low mid (x + 1) s) (vrUr : s.vrUr = at_ mid low)
    (newest : entry S x ∈ s.rxBuffer) (later : mid ≤ x) (near : x < mid + 512)
    (inOrder : ∀ p, low ≤ p → entry S p ∈ s.rxBuffer → p + 512 < x + 1 → p % 1024 < x % 1024) :
    ∃ t base low', moveWindow (at_ mid x) s = some t ∧ low ≤ low' ∧ Keeps S low' (x + 1) (x + 1) t ∧
      t.vrUr = at_ base low' ∧ base ≤ low' + 512 ∧
      (entry S low' ∈ t.rxBuffer → x + 1 < base + 512) ∧ t.vrUh = at_ (x + 1) (x + 1) ∧
      t.vrUx = s.vrUx ∧ t.reorderingTimer = s.reorderingTimer := by
  have low_le := h.low_le
  have mid_near := h.mid_near
  obtain ⟨t, v, low', loop, value, same, le, far, kept, there, after⟩ :=
    (h.variables s.vrUr s.vrUx ((at_ mid x).add 1) s.reorderingTimer).outside rfl
      (congrArg SequenceNumber10.value (at_add_one mid x)) newest later near inOrder
  have valueT : t.vrUh.value = (x + 1) % 1024 := by
    rw [same.vrUh]
    exact value.trans (congrArg SequenceNumber10.value (at_add_one mid x))
  have vrUrT : t.vrUr = at_ mid low := same.vrUr.trans vrUr
  have highest : t.vrUh.setModulusBase (t.vrUh.sub windowSize) = at_ (x + 1) (x + 1) :=
    rebase valueT valueT
  have inside : isInsideReorderingWindow (at_ (x + 1) (x + 1)) (at_ mid low) =
      decide (x + 1 ≤ low + 512 ∧ low < x + 1) := isInside_iff rfl rfl (by omega) (by omega)
  have called : moveWindow (at_ mid x) s =
      if x + 1 ≤ low + 512 then some { t with vrUh := at_ (x + 1) (x + 1) }
      else some { t with vrUh := at_ (x + 1) (x + 1), vrUr :=
        (at_ (x + 1) (x + 1)).sub windowSize } := by
    have returns : reassembleOutsideWindow { s with vrUh := (at_ mid x).add 1 } = some t := loop
    rw [moveWindow, returns]
    simp only [some_bind, rebaseVrUh, highest, vrUrT, inside, decide_eq_true_eq, pure_some]
    have below : low < x + 1 := by omega
    simp [below]
  by_cases within : x + 1 ≤ low + 512
  · obtain rfl : low' = low := by omega
    have renewed := kept.renew there later near within
    refine ⟨_, mid, low', by rw [called, if_pos within], le_rfl,
      renewed.variables t.vrUr t.vrUx (at_ (x + 1) (x + 1)) t.reorderingTimer, vrUrT, mid_near,
      fun mem => ?_, rfl, same.vrUx, same.timer⟩
    -- in a window that is just reached only the PDU at `x` is held
    obtain ⟨p, from_, below, -, same⟩ := kept.held _ mem
    have number : low' % 1024 = p % 1024 := congrArg Prod.fst same
    omega
  · have raised := kept.raise (show low' ≤ x + 1 - 512 by omega) (by omega) fun q from_ mem => by
      have out := after q from_ mem
      omega
    have renewed := raised.renew there later near (by omega)
    refine ⟨_, x + 1, x + 1 - 512, by rw [called, if_neg within], by omega,
      renewed.variables _ t.vrUx (at_ (x + 1) (x + 1)) t.reorderingTimer, ?_, by omega,
      fun _ => by omega, rfl, same.vrUx, same.timer⟩
    have value : ((at_ (x + 1) (x + 1)).sub windowSize).value = (x + 1 - 512) % 1024 := by
      rw [windowSize, sub_value rfl]
      omega
    ext
    · exact value
    · rfl

/-! ## VR(UR) -/

/-- The first number that is missing, up to the next multiple of 1024. -/
theorem Keeps.nextMissing (h : Keeps S low high high s) {rounds c : Nat} (from_ : low ≤ q)
    (le : q ≤ high) (number : c % 1024 = q % 1024) (short : c ≤ 1024) (enough : 1024 < c + rounds) :
    ∃ q' n, nextMissing rounds c s.rxBuffer = some n ∧ n % 1024 = q' % 1024 ∧ q ≤ q' ∧
      q' ≤ high := by
  have near := h.mid_near
  induction rounds generalizing c q with
  | zero => omega
  | succ rounds ih =>
    rw [LteRlcUm.nextMissing]
    cases found : find c s.rxBuffer with
    | none => exact ⟨q, c, rfl, number, Nat.le_refl q, le⟩
    | some packet =>
      have inSpace : c < 1024 := by
        obtain ⟨p, -, -, -, same⟩ := h.held _ (find_mem found)
        have key : c = p % 1024 := congrArg Prod.fst same
        omega
      have key : c = q % 1024 := by omega
      rw [key] at found
      obtain ⟨before, -⟩ := h.found from_ (by omega) found
      obtain ⟨q', n, returns, number', le', le_high⟩ :=
        @ih (q + 1) (c + 1) (by omega) before (by omega) (by omega) (by omega)
      exact ⟨q', n, returns, number', by omega, le_high⟩

/-- The first number from VR(UX) on that is missing. -/
theorem Keeps.nextMissingFrom (h : Keeps S low high high s) {base rounds : Nat} (from_ : low ≤ q)
    (le : q ≤ high) (enough : high < q + rounds) :
    ∃ q', nextMissingFrom rounds (at_ base q) s.rxBuffer = some (at_ base q') ∧ q ≤ q' ∧
      q' ≤ high := by
  have near := h.mid_near
  induction rounds generalizing q with
  | zero => omega
  | succ rounds ih =>
    rw [LteRlcUm.nextMissingFrom, at_value, incr_at]
    cases found : find (q % 1024) s.rxBuffer with
    | none => exact ⟨q, rfl, Nat.le_refl q, le⟩
    | some packet =>
      obtain ⟨before, -⟩ := h.found from_ (by omega) found
      obtain ⟨q', returns, le', le_high⟩ := ih (by omega) before (by omega)
      exact ⟨q', returns, by omega, le_high⟩

/-- What has been received from VR(UR) on is delivered. -/
theorem Keeps.deliverFrom (h : Keeps S low high high s) {base : Nat} (vrUr : s.vrUr = at_ base low)
    (lowest : base ≤ low + 512) (highest : entry S low ∈ s.rxBuffer → high < base + 512) :
    ∃ t low', deliverFromVrUr s = some t ∧ Keeps S low' high high t ∧ low ≤ low' ∧
      t.vrUr.value = low' % 1024 ∧ t.vrUx = s.vrUx ∧ t.vrUh = s.vrUh ∧
      t.reorderingTimer = s.reorderingTimer := by
  rw [deliverFromVrUr, vrUr, at_value]
  cases found : find (low % 1024) s.rxBuffer with
  | none =>
    exact ⟨s, low, rfl, h, Nat.le_refl low, congrArg SequenceNumber10.value vrUr, rfl, rfl, rfl⟩
  | some packet =>
    rw [isSome_some, if_pos rfl]
    obtain ⟨before, -, -, mem⟩ := h.found (Nat.le_refl low) (by omega) found
    obtain ⟨q, n, missing, number, le, le_high⟩ :=
      @Keeps.nextMissing α S s low high (low + 1) h 1024 (low % 1024 + 1) (by omega) before
        (by omega)
        (by omega) (by omega)
    have assigned : (at_ base low).assign n = at_ base q := by
      rw [assign_at]
      simp only [at_, number]
    have below := highest mem
    obtain ⟨t, returns, same, kept⟩ :=
      @Keeps.interval α S _ low high high q
        (h.variables (at_ base q) s.vrUx s.vrUh s.reorderingTimer)
        base 1025 (by omega) le_high (Nat.lt_of_le_of_lt le_high (by omega)) lowest (by omega)
    refine ⟨t, q, ?_, kept, by omega, congrArg SequenceNumber10.value same.vrUr,
      same.vrUx, same.vrUh,
      same.timer⟩
    simp only [missing, some_bind, assigned, reassembleSnInterval]
    exact returns

end LteRlcUm

end Ns3
