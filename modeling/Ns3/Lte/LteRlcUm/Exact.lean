import Ns3.Lte.LteRlcUm.Asserting
import Ns3.Lte.LteRlcUm.Reordering

/-!
# The state variables are exact

The map holds numbers strictly between VR(UR) and VR(UH), and the timer runs exactly while VR(UH)
is ahead. A PDU breaks this when it moves the window and the loop in the order of the map stops at a
number that stays before one that falls out, or when VR(UR) moves up to 1023 while 0 is held: the
counter there does not wrap around.
-/

namespace Ns3.LteRlcUm

open SequenceNumber10 (at_ at_value)

variable {α : Type} {s t : LteRlcUmRx α} {low high lo hi base q : Nat} {packet : RlcPdu α}

/-- How far a number lies ahead of another. -/
def offset (first sn : Nat) : Nat := (sn + 1024 - first) % 1024

/-- What the state variables say of the map and the timer. -/
structure ExactVariables (s : LteRlcUmRx α) : Prop where
  absent : find s.vrUr.value s.rxBuffer = none
  between : ∀ e ∈ s.rxBuffer, 0 < offset s.vrUr.value e.1 ∧
    offset s.vrUr.value e.1 < offset s.vrUr.value s.vrUh.value
  window : offset s.vrUr.value s.vrUh.value ≤ 512
  timer : s.reorderingTimer = true ↔ 0 < offset s.vrUr.value s.vrUh.value

/-- VR(UR) once the window has moved to a PDU. -/
def startOf (s : LteRlcUmRx α) (sn : SequenceNumber10) : Nat :=
  if isInsideReorderingWindow s.vrUh sn || isInsideReorderingWindow (sn.add 1) s.vrUr then
    s.vrUr.value
  else ((sn.add 1).sub windowSize).value

/-- Not all numbers from VR(UR) up to 1023, and 0, are held with the PDU. -/
def OpenAtWrap (s : LteRlcUmRx α) (sn : SequenceNumber10) : Prop :=
  ∃ k, (k = 0 ∨ startOf s sn ≤ k ∧ k < 1024) ∧ k ≠ sn.value ∧ find k s.rxBuffer = none

/-! ## Positions -/

/-- The map holds numbers of positions strictly between VR(UR) and VR(UH). -/
structure Slots (low high : Nat) (s : LteRlcUmRx α) : Prop where
  ranked : OrderedList.Ranked id s.rxBuffer
  held : ∀ e ∈ s.rxBuffer, ∃ p, low < p ∧ p < high ∧ e.1 = p % 1024
  le : low ≤ high
  near : high ≤ low + 512
  vrUr : s.vrUr.value = low % 1024
  vrUh : s.vrUh.value = high % 1024
  timer : s.reorderingTimer = decide (low < high)
  running : low < high → s.vrUr = at_ high low ∧ s.vrUh = at_ high high ∧
    ∃ x, s.vrUx = at_ high x ∧ low < x ∧ x ≤ high

theorem offset_mod (le : low ≤ q) (near : q < low + 1024) :
    offset (low % 1024) (q % 1024) = q - low := by
  unfold offset
  omega

theorem Slots.exact (h : Slots low high s) : ExactVariables s := by
  have le := h.le
  have near := h.near
  have ahead := offset_mod le (by omega : high < low + 1024)
  refine ⟨?_, ?_, ?_, ?_⟩
  · cases found : find s.vrUr.value s.rxBuffer with
    | none => rfl
    | some packet =>
      obtain ⟨p, above, below, same⟩ := h.held _ (find_mem found)
      have vrUr := h.vrUr
      omega
  · intro e mem
    obtain ⟨p, above, below, same⟩ := h.held e mem
    rw [h.vrUr, h.vrUh, same, ahead, offset_mod (by omega : low ≤ p) (by omega)]
    omega
  · rw [h.vrUr, h.vrUh, ahead]
    omega
  · rw [h.vrUr, h.vrUh, ahead, h.timer, decide_eq_true_eq]
    omega

/-! ## VR(UR) moves -/

/-- What is delivered from VR(UR) on, and the number at which this stops: it is not held, or the
counter has come to 1024. -/
theorem deliverFromVrUr_spec (ranked : OrderedList.Ranked id s.rxBuffer)
    (held : ∀ e ∈ s.rxBuffer, ∃ p, lo ≤ p ∧ p < hi ∧ e.1 = p % 1024) (span : hi < lo + 1024)
    (vrUr : s.vrUr = at_ base low) (le : low ≤ hi) (lowest : base ≤ low + 512)
    (highest : has (low % 1024) s.rxBuffer → hi < base + 512)
    (returns : deliverFromVrUr s = some t) :
    ∃ q, low ≤ q ∧ q ≤ hi ∧ q ≤ low + (1024 - low % 1024) ∧ t.vrUr.value = q % 1024 ∧
      t.vrUx = s.vrUx ∧ t.vrUh = s.vrUh ∧ t.reorderingTimer = s.reorderingTimer ∧
      OrderedList.Ranked id t.rxBuffer ∧
      (∀ e, e ∈ t.rxBuffer ↔ e ∈ s.rxBuffer ∧ ∀ k, low ≤ k → k < q → e.1 ≠ k % 1024) ∧
      (has (q % 1024) s.rxBuffer →
        q % 1024 = 0 ∧ low < q ∧ ∀ k, low ≤ k → k < q → has (k % 1024) s.rxBuffer) := by
  rw [deliverFromVrUr, vrUr, at_value] at returns
  cases found : find (low % 1024) s.rxBuffer with
  | none =>
    rw [found, Option.isSome_none, if_neg Bool.false_ne_true] at returns
    cases returns
    refine ⟨low, Nat.le_refl low, le, Nat.le_add_right _ _, by rw [vrUr, at_value], rfl, rfl, rfl,
      ranked, fun e => ?_, fun there => absurd there (not_has_of_find found)⟩
    rw [iff_self_and]
    intro _ k above below
    omega
  | some packet =>
    rw [found, Option.isSome_some, if_pos rfl] at returns
    obtain ⟨n, missing, rest⟩ := bind_returns.mp returns
    obtain ⟨after, absent, present⟩ := nextMissing_spec 1024 _ missing
    have first : has (low % 1024) s.rxBuffer := ⟨_, find_mem found, rfl⟩
    -- no entry has the number 1024
    have most : n ≤ 1024 := by
      by_contra beyond
      obtain ⟨e, mem, same⟩ := present 1024 (by omega) (by omega)
      obtain ⟨p, -, -, number⟩ := held e mem
      omega
    have all : ∀ k, low ≤ k → k < low + (n - low % 1024) → has (k % 1024) s.rxBuffer := by
      intro k above below
      rcases Nat.eq_or_lt_of_le above with rfl | beyond
      · exact first
      · have there := present (low % 1024 + (k - low)) (by omega) (by omega)
        have number : low % 1024 + (k - low) = k % 1024 := by omega
        exact number ▸ there
    have within : low + (n - low % 1024) ≤ hi := by
      by_contra beyond
      obtain ⟨e, mem, same⟩ := all hi le (by omega)
      obtain ⟨p, above, below, number⟩ := held e mem
      omega
    have assigned : (at_ base low).assign n = at_ base (low + (n - low % 1024)) := by
      have number : n % 1024 = (low + (n - low % 1024)) % 1024 := by omega
      rw [SequenceNumber10.assign_at]
      simp only [at_, number]
    rw [assigned] at rest
    have bound := highest first
    have same := reassembleSnLoop_variables 1025 _ _ rest
    obtain ⟨ranked', mem⟩ := reassembleSnLoop_spec 1025 low
      { s with vrUr := at_ base (low + (n - low % 1024)) } ranked lowest (Nat.le_add_right _ _)
      (by omega) rest
    refine ⟨low + (n - low % 1024), Nat.le_add_right _ _, within, by omega, ?_, same.vrUx,
      same.vrUh, same.timer, ranked', mem, fun there => ?_⟩
    · rw [same.vrUr, at_value]
    · have wraps : n = 1024 := by
        by_contra other
        have number : (low + (n - low % 1024)) % 1024 = n := by omega
        exact absent (number ▸ there)
      exact ⟨by omega, by omega, all⟩

/-! ## The window moves -/

/-- The entries that the loop over the map from its front leaves there, for the window below
`high`: it stops at the first number in the window. -/
def Stays (high : Nat) (rxBuffer : List (Nat × RlcPdu α)) (e : Nat × RlcPdu α) : Prop :=
  ∃ y ∈ rxBuffer, isInsideReorderingWindow (at_ high high) (.ofNat y.1) = true ∧ y.1 ≤ e.1

theorem moveWindow_spec (ranked : OrderedList.Ranked id s.rxBuffer) (vrUr : s.vrUr = at_ high low)
    (le : low ≤ high) (near : high ≤ low + 512) (later : high ≤ q) (highest : q < high + 512)
    (returns : moveWindow (at_ high q) s = some t) :
    t.vrUr = (if q + 1 ≤ low + 512 then at_ high low else at_ (q + 1) (q + 1 - 512)) ∧
      t.vrUh = at_ (q + 1) (q + 1) ∧ t.vrUx = s.vrUx ∧ t.reorderingTimer = s.reorderingTimer ∧
      OrderedList.Ranked id t.rxBuffer ∧
      ∀ e, e ∈ t.rxBuffer ↔ e ∈ s.rxBuffer ∧ Stays (q + 1) s.rxBuffer e := by
  obtain ⟨u, outside, rest⟩ := bind_returns.mp returns
  obtain ⟨vrUrU, vrUxU, vrUhU, timerU, left⟩ := reassembleOutsideLoop_spec s.rxBuffer
    { s with vrUh := (at_ high q).add 1 } rfl outside
  have number : u.vrUh.value = (q + 1) % 1024 := by rw [vrUhU, at_add_one, at_value]
  have highestU : u.vrUh.setModulusBase (u.vrUh.sub windowSize) = at_ (q + 1) (q + 1) :=
    rebase number number
  have inside : isInsideReorderingWindow (at_ (q + 1) (q + 1)) (at_ high low) =
      decide (q + 1 ≤ low + 512 ∧ low < q + 1) := isInside_iff rfl rfl (by omega) (by omega)
  have start : (at_ (q + 1) (q + 1)).sub windowSize = at_ (q + 1) (q + 1 + 512) := by
    ext
    · exact SequenceNumber10.sub_value rfl
    · rfl
  have ranked' : OrderedList.Ranked id u.rxBuffer := by
    rw [left]
    exact ranked.sublist (List.dropWhile_sublist _)
  have mem : ∀ e, e ∈ u.rxBuffer ↔ e ∈ s.rxBuffer ∧ Stays (q + 1) s.rxBuffer e := by
    intro e
    have value : ((at_ high q).add 1).value = (at_ (q + 1) (q + 1)).value := by
      rw [at_add_one, at_value, at_value]
    have same := isInside_congr value
    rw [left, OrderedList.Ranked.mem_dropWhile ranked]
    simp only [same, Bool.not_eq_false', id, Stays]
  simp only [rebaseVrUh, highestU, vrUrU, vrUr, inside, decide_eq_true_eq] at rest
  by_cases within : q + 1 ≤ low + 512
  · rw [if_pos ⟨within, by omega⟩] at rest
    cases rest
    exact ⟨(if_pos within).symm, rfl, vrUxU, timerU, ranked', mem⟩
  · rw [if_neg fun both => within both.1, start] at rest
    cases rest
    refine ⟨?_, rfl, vrUxU, timerU, ranked', mem⟩
    have wraps : (q + 1 + 512) % 1024 = (q + 1 - 512) % 1024 := by omega
    rw [if_neg within]
    simp only [at_, wraps]

theorem Slots.mem_store (h : Slots low high s) {e : Nat × RlcPdu α} :
    e ∈ store (q % 1024) packet s.rxBuffer ↔
      e = (q % 1024, packet) ∨ e ∈ s.rxBuffer ∧ e.1 ≠ q % 1024 :=
  h.ranked.mem_set (fun _ _ => decide_eq_true_iff) fun _ _ => id

/-- All its entries are within one round of the numbers. -/
theorem Slots.stored (h : Slots low high s) (packet : RlcPdu α) (from_ : low ≤ q)
    (highest : q < high + 512) : ∃ lo, low ≤ lo ∧ lo ≤ low + 1 ∧ max high (q + 1) < lo + 1024 ∧
      ∀ e ∈ store (q % 1024) packet s.rxBuffer,
        ∃ p, lo ≤ p ∧ p < max high (q + 1) ∧ e.1 = p % 1024 := by
  have near := h.near
  rcases Nat.eq_or_lt_of_le from_ with rfl | beyond
  · refine ⟨low, Nat.le_refl low, Nat.le_succ low, by omega, fun e mem => ?_⟩
    obtain rfl | ⟨held, -⟩ := h.mem_store.mp mem
    · exact ⟨low, Nat.le_refl low, by omega, rfl⟩
    · obtain ⟨p, above, below, number⟩ := h.held e held
      exact ⟨p, above.le, by omega, number⟩
  · refine ⟨low + 1, Nat.le_succ low, le_rfl, by omega, fun e mem => ?_⟩
    obtain rfl | ⟨held, -⟩ := h.mem_store.mp mem
    · exact ⟨q, beyond, by omega, rfl⟩
    · obtain ⟨p, above, below, number⟩ := h.held e held
      exact ⟨p, above, by omega, number⟩

theorem isInside_entry {p : Nat} (round : hi ≤ p + 1024) (below : p < hi) :
    isInsideReorderingWindow (at_ hi hi) (.ofNat (p % 1024)) = decide (hi ≤ p + 512) := by
  rw [isInside_iff rfl (Nat.mod_mod p 1024) round (by omega), decide_eq_decide]
  exact and_iff_left below

/-- The map with the PDU, and the state in which the delivery from VR(UR) on begins. -/
theorem Slots.place (h : Slots low high s) (packet : RlcPdu α) (from_ : low ≤ q)
    (highest : q < high + 512)
    (returns : (if q < high then
        some { s with
          rxBuffer := store (q % 1024) packet s.rxBuffer
          vrUr := at_ high low, vrUh := at_ high high }
      else moveWindow (at_ high q) { s with
          rxBuffer := store (q % 1024) packet s.rxBuffer
          vrUr := at_ high low, vrUh := at_ high high }) = some t) :
    ∃ base, t.vrUr = at_ base (max low (max high (q + 1) - 512)) ∧
      base ≤ max low (max high (q + 1) - 512) + 512 ∧
      (has (max low (max high (q + 1) - 512) % 1024) t.rxBuffer → max high (q + 1) < base + 512) ∧
      t.vrUh = at_ (max high (q + 1)) (max high (q + 1)) ∧ t.vrUx = s.vrUx ∧
      t.reorderingTimer = s.reorderingTimer ∧ OrderedList.Ranked id t.rxBuffer ∧
      ∀ e, e ∈ t.rxBuffer ↔ e ∈ store (q % 1024) packet s.rxBuffer ∧
        Stays (max high (q + 1)) (store (q % 1024) packet s.rxBuffer) e := by
  have le := h.le
  have near := h.near
  have ranked : OrderedList.Ranked id (store (q % 1024) packet s.rxBuffer) :=
    h.ranked.set (fun _ _ => decide_eq_true_iff) fun _ _ => id
  by_cases within : q < high
  · rw [if_pos within] at returns
    cases returns
    rw [max_eq_left (by omega : q + 1 ≤ high), max_eq_left (by omega : high - 512 ≤ low)]
    refine ⟨high, rfl, near, fun _ => by omega, rfl, rfl, rfl, ranked, fun e => ?_⟩
    rw [iff_self_and]
    intro mem
    obtain ⟨lo, above, -, span, held⟩ := h.stored packet from_ highest
    obtain ⟨p, low_le, below, number⟩ := held e mem
    rw [max_eq_left (by omega : q + 1 ≤ high)] at below
    refine ⟨e, mem, ?_, le_rfl⟩
    rw [number, isInside_entry (by omega) below]
    exact decide_eq_true (by omega)
  · rw [if_neg within] at returns
    have later : high ≤ q := Nat.le_of_not_lt within
    obtain ⟨vrUr, vrUh, vrUx, timer, ranked', mem⟩ :=
      moveWindow_spec ranked rfl le near later highest returns
    rw [max_eq_right (by omega : high ≤ q + 1)]
    by_cases stays : q + 1 ≤ low + 512
    · rw [if_pos stays] at vrUr
      rw [max_eq_left (by omega : q + 1 - 512 ≤ low)]
      refine ⟨high, vrUr, near, ?_, vrUh, vrUx, timer, ranked', mem⟩
      -- in a window that is just reached only the PDU itself is held
      rintro ⟨e, there, number⟩
      obtain rfl | ⟨held, -⟩ := h.mem_store.mp ((mem e).mp there).1
      · dsimp only at number
        omega
      · obtain ⟨p, above, below, same⟩ := h.held e held
        omega
    · rw [if_neg stays] at vrUr
      rw [max_eq_right (by omega : low ≤ q + 1 - 512)]
      exact ⟨q + 1, vrUr, by omega, fun _ => by omega, vrUh, vrUx, timer, ranked', mem⟩

/-! ## A PDU is received -/

/-- What a PDU at `q` that is not discarded leaves: VR(UR) at `next`, and of the map what stays and
is not delivered. Where VR(UR) ends at a number that is held, the counter has come to 1024. -/
structure Leaves (low high q : Nat) (packet : RlcPdu α) (s t : LteRlcUmRx α) (next : Nat) :
    Prop where
  start_le : max low (max high (q + 1) - 512) ≤ next
  next_le : next ≤ max high (q + 1)
  round : next ≤ max low (max high (q + 1) - 512) +
    (1024 - max low (max high (q + 1) - 512) % 1024)
  vrUr : t.vrUr = at_ (max high (q + 1)) next
  vrUh : t.vrUh = at_ (max high (q + 1)) (max high (q + 1))
  timer : t.reorderingTimer = decide (next < max high (q + 1))
  vrUx : next < max high (q + 1) →
    ∃ x, t.vrUx = at_ (max high (q + 1)) x ∧ next < x ∧ x ≤ max high (q + 1)
  ranked : OrderedList.Ranked id t.rxBuffer
  left : ∀ e, e ∈ t.rxBuffer ↔ (e ∈ store (q % 1024) packet s.rxBuffer ∧
      Stays (max high (q + 1)) (store (q % 1024) packet s.rxBuffer) e) ∧
    ∀ k, max low (max high (q + 1) - 512) ≤ k → k < next → e.1 ≠ k % 1024
  ends : ∀ e ∈ store (q % 1024) packet s.rxBuffer,
    Stays (max high (q + 1)) (store (q % 1024) packet s.rxBuffer) e → e.1 = next % 1024 →
    next % 1024 = 0 ∧ max low (max high (q + 1) - 512) < next ∧
      ∀ k, max low (max high (q + 1) - 512) ≤ k → k < next →
        has (k % 1024) (store (q % 1024) packet s.rxBuffer)

/-- A PDU of the last round is discarded, or it is put into the map. -/
theorem Slots.receive (h : Slots low high s) {header : LteRlcHeader}
    (peek : packet.peekHeader = some header)
    (number : header.sequenceNumber.value = q % 1024) (lowest : high ≤ q + 512)
    (highest : q < high + 512) (returns : doReceivePdu packet s = some t) :
    (q ≠ low ∧ q < high ∧ t = { s with vrUr := at_ high low, vrUh := at_ high high }) ∨
      low ≤ q ∧ ∃ next, Leaves low high q packet s t next := by
  rw [doReceivePdu_opened peek h.vrUr h.vrUh number h.le h.near lowest highest] at returns
  split at returns
  case isTrue discarded =>
    cases returns
    rw [Bool.or_eq_true, Bool.and_eq_true, Bool.and_eq_true, decide_eq_true_eq, decide_eq_true_eq,
      decide_eq_true_eq] at discarded
    have le := h.le
    exact .inl ⟨by omega, by omega, rfl⟩
  case isFalse placed =>
    rw [Bool.or_eq_true, decide_eq_true_eq, not_or] at placed
    have from_ : low ≤ q := Nat.le_of_not_lt placed.2
    refine .inr ⟨from_, ?_⟩
    obtain ⟨u, calls, rfl⟩ := Option.map_eq_some_iff.mp returns
    obtain ⟨m, moved, delivered⟩ := bind_returns.mp calls
    obtain ⟨base, vrUr, lowBase, highBase, vrUh, vrUx, timer, ranked, mem⟩ :=
      h.place packet from_ highest moved
    obtain ⟨lo, -, -, span, held⟩ := h.stored packet from_ highest
    have near := h.near
    obtain ⟨next, start, most, round, vrUr', vrUx', vrUh', timer', ranked', left, ends⟩ :=
      deliverFromVrUr_spec ranked (fun e there => held e ((mem e).mp there).1) span vrUr (by omega)
        lowBase highBase delivered
    have running : u.reorderingTimer = true → ∃ x, u.vrUx.value = x % 1024 ∧
        x ≤ max high (q + 1) ∧ max high (q + 1) < x + 1024 := by
      intro runs
      have missing : low < high := by
        rw [timer', timer, h.timer] at runs
        exact of_decide_eq_true runs
      obtain ⟨-, -, x, at_x, after, most⟩ := h.running missing
      exact ⟨x, by rw [vrUx', vrUx, at_x, at_value], by omega, by omega⟩
    obtain ⟨v, updated, ahead⟩ := updateTimer_spec vrUr' (by rw [vrUh', vrUh, at_value]) most
      (by omega) running
    rw [updated]
    refine ⟨next, start, most, round, rfl, rfl, rfl, ahead, ranked', fun e => ?_, ?_⟩
    · rw [← mem e]
      exact left e
    · intro e stored stays same
      obtain ⟨wraps, later, all⟩ := ends ⟨e, (mem e).mpr ⟨stored, stays⟩, same⟩
      refine ⟨wraps, later, fun k above below => ?_⟩
      obtain ⟨y, there, same⟩ := all k above below
      exact ⟨y, ((mem y).mp there).1, same⟩

/-! ## When the state variables stay exact -/

section Exactly

variable {sn : SequenceNumber10} {next : Nat}

theorem Slots.inside_eq (h : Slots low high s) (number : sn.value = q % 1024)
    (lowest : high ≤ q + 512) (highest : q < high + 512) :
    isInsideReorderingWindow s.vrUh sn = decide (q < high) :=
  isInside_spec high q h.vrUh number lowest highest

theorem Slots.startOf_eq (h : Slots low high s) (number : sn.value = q % 1024)
    (lowest : high ≤ q + 512) (highest : q < high + 512) :
    startOf s sn = max low (max high (q + 1) - 512) % 1024 := by
  have le := h.le
  have near := h.near
  have next : (sn.add 1).value = (q + 1) % 1024 := by simp [SequenceNumber10.add, number]
  rw [startOf, h.inside_eq number lowest highest]
  by_cases within : q < high
  · rw [decide_eq_true within, Bool.true_or, if_pos rfl, h.vrUr]
    omega
  · rw [decide_eq_false within, Bool.false_or, isInside_iff next h.vrUr (by omega) (by omega)]
    by_cases stays : q + 1 ≤ low + 512
    · rw [if_pos (decide_eq_true ⟨stays, by omega⟩), h.vrUr]
      omega
    · rw [if_neg (by simp [stays]), windowSize, SequenceNumber10.sub_value next]
      omega

/-- What stays of the map is in the window, when the PDU moves it in the order of the map. -/
theorem Slots.stays_inside (h : Slots low high s) (number : sn.value = q % 1024)
    (from_ : low ≤ q) (lowest : high ≤ q + 512) (highest : q < high + 512)
    (inOrder : MovesInOrder s sn)
    {e : Nat × RlcPdu α} (mem : e ∈ store (q % 1024) packet s.rxBuffer)
    (stays : Stays (max high (q + 1)) (store (q % 1024) packet s.rxBuffer) e) :
    ∃ p, max low (max high (q + 1) - 512) ≤ p ∧ p < max high (q + 1) ∧ e.1 = p % 1024 := by
  have near := h.near
  obtain ⟨lo, low_le, -, span, held⟩ := h.stored packet from_ highest
  obtain ⟨p, above, below, key⟩ := held e mem
  refine ⟨p, ?_, below, key⟩
  by_contra out
  -- the first number in the window comes behind what falls out
  obtain ⟨y, there, inside, before⟩ := stays
  obtain ⟨r, aboveY, belowY, keyY⟩ := held y there
  rw [keyY, isInside_entry (by omega) belowY, decide_eq_true_eq] at inside
  have first : e.1 < sn.value := by
    obtain rfl | ⟨old, -⟩ := h.mem_store.mp mem
    · dsimp only at key
      omega
    · refine inOrder ?_ e old ?_
      · rw [h.inside_eq number lowest highest]
        exact decide_eq_false (by omega)
      · have value : (sn.add 1).value = (q + 1) % 1024 := by simp [SequenceNumber10.add, number]
        rw [key, isInside_iff value (Nat.mod_mod p 1024) (by omega) (by omega)]
        exact decide_eq_false (by omega)
  omega

section

variable (leaves : Leaves low high q packet s t next) (h : Slots low high s)
include leaves h

/-- A PDU that moves the window in the order of the map and leaves it open at the wrap keeps the
state variables exact. -/
theorem Leaves.slots (number : sn.value = q % 1024) (from_ : low ≤ q) (lowest : high ≤ q + 512)
    (highest : q < high + 512) (inOrder : MovesInOrder s sn) (open_ : OpenAtWrap s sn) :
    Slots next (max high (q + 1)) t := by
  have start := leaves.start_le
  have most := leaves.next_le
  -- the number at which the delivery stops is not held
  have free : ∀ e ∈ store (q % 1024) packet s.rxBuffer,
      Stays (max high (q + 1)) (store (q % 1024) packet s.rxBuffer) e → e.1 ≠ next % 1024 := by
    intro e mem stays same
    obtain ⟨wraps, later, all⟩ := leaves.ends e mem stays same
    obtain ⟨k, range, other, missing⟩ := open_
    rw [h.startOf_eq number lowest highest] at range
    refine not_has_of_find missing ?_
    have there : has k (store (q % 1024) packet s.rxBuffer) := by
      rcases range with rfl | ⟨above, below⟩
      · exact ⟨e, mem, same.trans wraps⟩
      · have round := leaves.round
        have held := all (max low (max high (q + 1) - 512) +
          (k - max low (max high (q + 1) - 512) % 1024)) (by omega) (by omega)
        have key : (max low (max high (q + 1) - 512) +
            (k - max low (max high (q + 1) - 512) % 1024)) % 1024 = k := by omega
        exact key ▸ held
    obtain ⟨y, mem, rfl⟩ := there
    obtain rfl | ⟨old, -⟩ := h.mem_store.mp mem
    · exact absurd number.symm other
    · exact ⟨y, old, rfl⟩
  refine ⟨leaves.ranked, fun e mem => ?_, most, by omega, by rw [leaves.vrUr, at_value],
    by rw [leaves.vrUh, at_value], leaves.timer,
    fun missing => ⟨leaves.vrUr, leaves.vrUh, leaves.vrUx missing⟩⟩
  obtain ⟨⟨stored, stays⟩, apart⟩ := (leaves.left e).mp mem
  obtain ⟨p, above, below, key⟩ :=
    h.stays_inside number from_ lowest highest inOrder stored stays
  refine ⟨p, ?_, below, key⟩
  by_contra before
  rcases Nat.eq_or_lt_of_le (Nat.le_of_not_lt before) with rfl | earlier
  · exact free e stored stays key
  · exact apart p above earlier key

/-- What falls out of the window and stays in the map is not between VR(UR) and VR(UH). -/
theorem Leaves.inOrder (number : sn.value = q % 1024) (from_ : low ≤ q) (lowest : high ≤ q + 512)
    (highest : q < high + 512) (exact_ : ExactVariables t) : MovesInOrder s sn := by
  have near := h.near
  have start := leaves.start_le
  have most := leaves.next_le
  intro moves e mem out
  rw [h.inside_eq number lowest highest, decide_eq_false_iff_not] at moves
  obtain ⟨p, above, below, key⟩ := h.held e mem
  have value : (sn.add 1).value = (q + 1) % 1024 := by simp [SequenceNumber10.add, number]
  rw [key, isInside_iff value (Nat.mod_mod p 1024) (by omega) (by omega),
    decide_eq_false_iff_not] at out
  by_contra behind
  have other : e.1 ≠ q % 1024 := by omega
  have stored : e ∈ store (q % 1024) packet s.rxBuffer := h.mem_store.mpr (.inr ⟨mem, other⟩)
  have stays : Stays (max high (q + 1)) (store (q % 1024) packet s.rxBuffer) e := by
    refine ⟨(q % 1024, packet), h.mem_store.mpr (.inl rfl), ?_, by dsimp only; omega⟩
    rw [isInside_entry (by omega) (by omega)]
    exact decide_eq_true (by omega)
  obtain ⟨-, between⟩ := exact_.between e
    ((leaves.left e).mpr ⟨⟨stored, stays⟩, fun k above' below' => by omega⟩)
  rw [leaves.vrUr, leaves.vrUh, at_value, at_value, key, offset_mod most (by omega)] at between
  unfold offset at between
  clear value other
  omega

/-- Where the counter comes to 1024 while 0 is held, VR(UR) is held. -/
theorem Leaves.openAtWrap (number : sn.value = q % 1024) (from_ : low ≤ q) (lowest : high ≤ q + 512)
    (highest : q < high + 512) (exact_ : ExactVariables t) : OpenAtWrap s sn := by
  have start := leaves.start_le
  have round := leaves.round
  obtain ⟨lo, low_le, le_low, span, held⟩ := h.stored packet from_ highest
  by_contra closed
  have all : ∀ k, k = 0 ∨ max low (max high (q + 1) - 512) % 1024 ≤ k ∧ k < 1024 →
      has k (store (q % 1024) packet s.rxBuffer) := by
    intro k range
    by_contra missing
    refine closed ⟨k, ?_, ?_, ?_⟩
    · rwa [h.startOf_eq number lowest highest]
    · rintro rfl
      exact missing ⟨_, h.mem_store.mpr (.inl rfl), number.symm⟩
    · cases found : find k s.rxBuffer with
      | none => rfl
      | some other =>
        refine absurd ?_ missing
        by_cases same : k = q % 1024
        · exact ⟨_, h.mem_store.mpr (.inl rfl), same.symm⟩
        · exact ⟨_, h.mem_store.mpr (.inr ⟨find_mem found, same⟩), rfl⟩
  obtain ⟨first, start_eq⟩ : ∃ first, first = max low (max high (q + 1) - 512) := ⟨_, rfl⟩
  obtain ⟨last, last_eq⟩ : ∃ last, last = first + (1024 - first % 1024) := ⟨_, rfl⟩
  rw [← start_eq] at all round start
  have within : last < max high (q + 1) := by
    by_contra beyond
    obtain ⟨e, mem, key⟩ := all (max high (q + 1) % 1024) (by omega)
    obtain ⟨p, above, below, same⟩ := held e mem
    omega
  have stays : ∀ y, first ≤ y → y ≤ last → ∃ e ∈ store (q % 1024) packet s.rxBuffer,
      Stays (max high (q + 1)) (store (q % 1024) packet s.rxBuffer) e ∧ e.1 = y % 1024 := by
    intro y after before
    obtain ⟨e, mem, key⟩ := all (y % 1024) (by omega)
    obtain ⟨p, above, below, same⟩ := held e mem
    obtain rfl : p = y := by omega
    refine ⟨e, mem, ⟨e, mem, ?_, le_rfl⟩, key⟩
    rw [key, isInside_entry (by omega) below]
    exact decide_eq_true (by omega)
  have reached : next = last := by
    by_contra before
    obtain ⟨e, mem, staysE, key⟩ := stays next start (by omega)
    obtain ⟨wraps, later, -⟩ := leaves.ends e mem staysE key
    omega
  obtain ⟨e, mem, staysE, key⟩ := stays last (by omega) (Nat.le_refl last)
  have left : e ∈ t.rxBuffer := (leaves.left e).mpr ⟨⟨mem, staysE⟩, fun k above below => by omega⟩
  refine not_has_of_find exact_.absent ⟨e, left, ?_⟩
  rw [leaves.vrUr, at_value, reached, key]

end

end Exactly

/-! ## The calls -/

/-- `DoReceivePdu`: the state variables stay exact if and only if the PDU moves the window in the
order of the map and leaves it open at the wrap. -/
theorem Slots.receive_iff (h : Slots low high s) (started : 1024 ≤ high) {header : LteRlcHeader}
    (peek : packet.peekHeader = some header) (small : header.sequenceNumber.value < 1024)
    (returns : doReceivePdu packet s = some t) :
    (ExactVariables t → MovesInOrder s header.sequenceNumber ∧
      OpenAtWrap s header.sequenceNumber) ∧
    (MovesInOrder s header.sequenceNumber → OpenAtWrap s header.sequenceNumber →
      ∃ low' high', 1024 ≤ high' ∧ Slots low' high' t) := by
  have le := h.le
  have near := h.near
  obtain ⟨q, number, lowest, highest⟩ : ∃ q, header.sequenceNumber.value = q % 1024 ∧
      high ≤ q + 512 ∧ q < high + 512 :=
    ⟨high - 512 + (header.sequenceNumber.value + 1024 - (high - 512) % 1024) % 1024, by omega,
      by omega, by omega⟩
  rcases h.receive peek number lowest highest returns with ⟨ne, below, rfl⟩ | ⟨from_, next, leaves⟩
  · refine ⟨fun _ => ⟨fun outside => ?_, ?_⟩, fun _ _ => ⟨low, high, started, ?_⟩⟩
    · rw [h.inside_eq number lowest highest, decide_eq_true below] at outside
      cases outside
    · refine ⟨low % 1024, .inr ⟨?_, by omega⟩, by omega, ?_⟩
      · rw [h.startOf_eq number lowest highest]
        omega
      · exact h.vrUr ▸ h.exact.absent
    · exact ⟨h.ranked, h.held, le, near, rfl, rfl, h.timer,
        fun missing => ⟨rfl, rfl, (h.running missing).2.2⟩⟩
  · refine ⟨fun exact_ => ⟨?_, ?_⟩, fun inOrder open_ => ⟨next, max high (q + 1), by omega, ?_⟩⟩
    · exact leaves.inOrder h number from_ lowest highest exact_
    · exact leaves.openAtWrap h number from_ lowest highest exact_
    · exact leaves.slots h number from_ lowest highest inOrder open_

/-- `ExpireReorderingTimer` keeps the state variables exact. -/
theorem Slots.expire (h : Slots low high s) (running : s.reorderingTimer = true)
    (returns : expireReorderingTimer s = some t) : ∃ low', Slots low' high t := by
  have near := h.near
  have missing : low < high := by
    rw [h.timer] at running
    exact of_decide_eq_true running
  obtain ⟨vrUr, vrUh, x, vrUx, after, most⟩ := h.running missing
  obtain ⟨sn, skips, returns⟩ := bind_returns.mp returns
  rw [vrUx] at skips
  obtain ⟨q, rfl, later, free, present⟩ := nextMissingFrom_spec 1025 x skips
  -- the number VR(UH) is not held
  have top : q ≤ high := by
    by_contra beyond
    obtain ⟨e, mem, key⟩ := present high most (by omega)
    obtain ⟨p, above, below, same⟩ := h.held e mem
    omega
  obtain ⟨u, delivered, returns⟩ := bind_returns.mp returns
  rw [reassembleSnInterval, vrUr] at delivered
  have same := reassembleSnLoop_variables 1025 _ _ delivered
  obtain ⟨ranked, left⟩ := reassembleSnLoop_spec 1025 low { s with vrUr := at_ high q }
    h.ranked near (by omega) (by omega) delivered
  have above : (at_ high high).gt (at_ high q) = decide (q < high) :=
    SequenceNumber10.gt_at (by omega) (by omega) (by omega) (by omega)
  have held : ∀ e ∈ u.rxBuffer, ∃ p, q < p ∧ p < high ∧ e.1 = p % 1024 := by
    intro e mem
    obtain ⟨there, apart⟩ := (left e).mp mem
    obtain ⟨p, afterP, below, key⟩ := h.held e there
    refine ⟨p, ?_, below, key⟩
    by_contra before
    rcases Nat.eq_or_lt_of_le (Nat.le_of_not_lt before) with rfl | earlier
    · exact free ⟨e, there, key⟩
    · exact apart p afterP.le earlier key
  have vrUrU : u.vrUr = at_ high q := same.vrUr
  have vrUhU : u.vrUh = at_ high high := same.vrUh.trans vrUh
  rw [vrUhU, vrUrU, above] at returns
  refine ⟨q, ?_⟩
  by_cases more : q < high
  · rw [decide_eq_true more, if_pos rfl] at returns
    cases returns
    exact ⟨ranked, held, top, by omega, rfl, rfl, (decide_eq_true more).symm,
      fun _ => ⟨rfl, rfl, high, rfl, more, Nat.le_refl high⟩⟩
  · rw [decide_eq_false more, if_neg Bool.false_ne_true] at returns
    cases returns
    exact ⟨ranked, held, top, by omega, rfl, rfl, (decide_eq_false more).symm,
      fun before => absurd before more⟩

/-! ## Runs -/

section Runs

open Asserting (RxEvent rxStep Based)

/-- A PDU that moves the window does so in the order of the map, and not all numbers up to 1023, and
0, are held with it. -/
def Regular (s : LteRlcUmRx α) : RxEvent α → Prop
  | .receivePdu p => ∀ header, p.peekHeader = some header →
      MovesInOrder s header.sequenceNumber ∧ OpenAtWrap s header.sequenceNumber
  | .expireReorderingTimer => True

/-- The state between events that are regular. -/
def Inv (s : LteRlcUmRx α) : Prop := Based s ∧ ∃ low high, 1024 ≤ high ∧ Slots low high s

theorem inv_init : Inv ({} : LteRlcUmRx α) := by
  refine ⟨(fun running => nomatch running), 1024, 1024, le_rfl, List.Pairwise.nil,
    List.forall_mem_nil _, le_rfl, by omega, rfl, rfl, rfl, fun before => ?_⟩
  exact absurd before (Nat.lt_irrefl _)

theorem peekHeader_small {header : LteRlcHeader} (peek : packet.peekHeader = some header) :
    header.sequenceNumber.value < 1024 := by
  obtain ⟨⟨h, rest⟩, read, rfl⟩ := Option.map_eq_some_iff.mp peek
  exact LteRlcHeader.deserialize_sequenceNumber_lt read

/-- An event leaves the state variables exact if and only if it is regular. -/
theorem Inv.step {profile : BuildProfile} {e : RxEvent α} (inv : Inv s)
    (returns : rxStep profile s e = some t) :
    (ExactVariables t → Regular s e) ∧ (Regular s e → Inv t) := by
  obtain ⟨based, low, high, started, slots⟩ := inv
  have based' := based.step returns
  cases e with
  | receivePdu p =>
    have returns' : doReceivePdu p s = some t := (Asserting.doReceivePdu_eq p).symm.trans returns
    refine ⟨fun exact_ header peek => ?_, fun regular => ⟨based', ?_⟩⟩
    · exact (slots.receive_iff started peek (peekHeader_small peek) returns').1 exact_
    · obtain ⟨header, peek, -⟩ := bind_returns.mp returns'
      obtain ⟨inOrder, open_⟩ := regular header peek
      exact (slots.receive_iff started peek (peekHeader_small peek) returns').2 inOrder open_
  | expireReorderingTimer =>
    refine ⟨fun _ => trivial, fun _ => ⟨based', ?_⟩⟩
    rw [rxStep] at returns
    split at returns
    case isTrue running =>
      obtain ⟨low', slots'⟩ := slots.expire running ((based.expire_eq running).symm.trans returns)
      exact ⟨low', high, started, slots'⟩
    case isFalse =>
      cases returns
      exact ⟨low, high, started, slots⟩

/-- No comparison finds two bases that differ, and a run keeps the state variables exact if and only
if all its events are regular. -/
theorem exactVariables_iff (events : List (RxEvent α)) :
    Run.exec (rxStep .debug) {} events = Run.exec (rxStep .optimized) {} events ∧
      ((Run.exec (rxStep .debug) {} events).isSome = true →
        (Run.Always (rxStep .debug) ExactVariables {} events ↔
          Run.Meets (rxStep .debug) Regular {} events)) := by
  refine ⟨Asserting.exec_eq .debug events, fun ends => ?_⟩
  obtain ⟨s, run⟩ := Option.isSome_iff_exists.mp ends
  have each : Run.Meets (rxStep .debug) (fun s e => ∃ t, rxStep .debug s e = some t) {} events :=
    Run.meets_of_exec (I := fun _ => True) trivial
      (Run.Meets.of_forall (fun _ _ => trivial) _ events)
      (fun _ _ _ _ _ _ => trivial) (fun _ _ t _ _ returns => ⟨t, returns⟩) run
  refine Run.always_iff_meets_within inv_init each ?_ ?_ ?_
  · rintro s ⟨-, low, high, -, slots⟩
    exact slots.exact
  · intro s e t inv _ regular returns
    exact (inv.step returns).2 regular
  · intro s e inv each exact_
    obtain ⟨t, returns⟩ := each
    exact (inv.step returns).1 (exact_ t returns)

/-- The numbers up to 1023 and 0 of the next round, without a gap. -/
def acrossWrap : List (RxEvent Nat) :=
  [.receivePdu (pduOf 510 (single 510)), .expireReorderingTimer,
    .receivePdu (pduOf 1021 (single 1021)), .expireReorderingTimer,
    .receivePdu (pduOf 1024 (single 1024)), .receivePdu (pduOf 1022 (single 1022)),
    .receivePdu (pduOf 1023 (single 1023))]

theorem exactVariables_iff_acrossWrap : Run.Always (rxStep .debug) ExactVariables {} acrossWrap ↔
      Run.Meets (rxStep .debug) Regular {} acrossWrap :=
  (exactVariables_iff acrossWrap).2 (by decide +kernel)

/-- The PDU is less than 512 numbers away from the newest one. -/
def NearNewest (s : LteRlcUmRx α) : RxEvent α → Prop
  | .receivePdu p => (p.peekHeader.all fun header =>
    header.sequenceNumber.value ≠ (s.vrUh.value + 511) % 1024) = true
  | .expireReorderingTimer => True

instance (s : LteRlcUmRx α) : (e : RxEvent α) → Decidable (NearNewest s e)
  | .receivePdu _ => inferInstanceAs (Decidable (_ = true))
  | .expireReorderingTimer => instDecidableTrue

/-- VR(UR) comes to 0, which is held. -/
theorem not_exactVariables : ¬ ∀ events : List (RxEvent Nat),
    Run.Meets (rxStep .debug) NearNewest {} events →
    Run.Always (rxStep .debug) ExactVariables {} events := by
  intro claim
  have held : (Run.exec (rxStep .debug) {} acrossWrap).map
      (fun s => (find s.vrUr.value s.rxBuffer).isSome) = some true := by decide +kernel
  obtain ⟨s, run, there⟩ := Option.map_eq_some_iff.mp held
  have exact_ := (claim acrossWrap (by decide +kernel)).last run
  rw [exact_.absent] at there
  cases there

end Runs

end Ns3.LteRlcUm
