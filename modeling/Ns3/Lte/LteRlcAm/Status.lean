import Ns3.Lte.LteRlcAmHeader.StatusPdu
import Ns3.Lte.LteRlcAm.Window

/-!
# STATUS PDUs are truthful

The loop over the NACKs goes over the numbers from VR(R) up to VR(MS), and stops early when the
next NACK would not fit. The acknowledged number is then the next one that is not received, so
that nothing below it is both missing and left out.
-/

namespace Ns3.LteRlcAm

open SequenceNumber10 (from_ less_from lessEq_from incr_from from_value)
open LteRlcAmHeader (nackBytes)

variable {α : Type} {profile : BuildProfile} {s : LteRlcAmRx α} {R Ms H p q bytes : Nat}

/-! ## Sequence numbers between two others -/

/-- How far a number lies ahead of another. -/
def offset (first sn : Nat) : Nat := (sn + 1024 - first) % 1024

/-- The sequence numbers from one up to another. -/
def numbers (first last : Nat) : List Nat := (List.range' first (offset first last)).map (· % 1024)

/-- Those of them that are not completely received. -/
def missing (s : LteRlcAmRx α) (first last : Nat) : List Nat :=
  (numbers first last).filter fun sn => !complete s sn

theorem offset_mod (low : p ≤ q) (near : q < p + 1024) : offset (p % 1024) (q % 1024) = q - p := by
  unfold offset
  omega

theorem mem_numbers (low : p ≤ q) (near : q < p + 1024) {x : Nat} :
    x ∈ numbers (p % 1024) (q % 1024) ↔ ∃ y, p ≤ y ∧ y < q ∧ x = y % 1024 := by
  simp only [numbers, offset_mod low near, List.mem_map, List.mem_range'_1]
  constructor
  · rintro ⟨z, ⟨above, below⟩, rfl⟩
    exact ⟨z + (p - p % 1024), by omega, by omega, by omega⟩
  · rintro ⟨y, above, below, rfl⟩
    exact ⟨y - (p - p % 1024), ⟨by omega, by omega⟩, by omega⟩

theorem mem_missing {first last x : Nat} :
    x ∈ missing s first last ↔ x ∈ numbers first last ∧ complete s x = false := by
  rw [missing, List.mem_filter, Bool.not_eq_true']

theorem numbers_self (p : Nat) : numbers (p % 1024) (p % 1024) = [] := by
  rw [numbers, offset_mod (Nat.le_refl p) (by omega), Nat.sub_self]
  rfl

theorem numbers_succ (low : p ≤ q) (near : q + 1 < p + 1024) :
    numbers (p % 1024) ((q + 1) % 1024) = numbers (p % 1024) (q % 1024) ++ [q % 1024] := by
  have further : q + 1 - p = q - p + 1 := by omega
  have last : (p % 1024 + (q - p)) % 1024 = q % 1024 := by omega
  simp [numbers, offset_mod low (by omega), offset_mod (by omega : p ≤ q + 1) near, further,
    List.range'_1_concat, last]

theorem missing_succ (low : p ≤ q) (near : q + 1 < p + 1024) :
    missing s (p % 1024) ((q + 1) % 1024) = missing s (p % 1024) (q % 1024) ++
      if complete s (q % 1024) then [] else [q % 1024] := by
  rw [missing, numbers_succ low near, List.filter_append, missing]
  cases found : complete s (q % 1024) <;> simp [found]

theorem missing_self (p : Nat) : missing s (p % 1024) (p % 1024) = [] := by
  rw [missing, numbers_self, List.filter_nil]

theorem missing_length_le (low : p ≤ q) (near : q < p + 1024) :
    (missing s (p % 1024) (q % 1024)).length ≤ q - p := by
  have length : (numbers (p % 1024) (q % 1024)).length = q - p := by
    rw [numbers, List.length_map, List.length_range', offset_mod low near]
  exact (List.length_filter_le _ _).trans_eq length

/-! ## The loops -/

/-- The header with some NACKs. -/
def statusWith (nacks : List Nat) : LteRlcAmHeader :=
  { ({} : LteRlcAmHeader).setControlPdu LteRlcAmHeader.statusPdu with
    nackSnList := nacks
    headerLength := (2 + nackBytes nacks.length) % 65536 }

/-- How many NACKs are pushed at most. -/
def nackRoom (bytes : Nat) : Nat := 2 * (bytes % 65536 / 3) - 1

theorem nackBytes_succ (n : Nat) :
    nackBytes (n + 1) = nackBytes n + if (n + 1) % 2 = 0 then 1 else 2 := by
  unfold nackBytes
  split <;> omega

theorem pushNack_statusWith (nack : Nat) (nacks : List Nat) :
    (statusWith nacks).pushNack profile nack = some (statusWith (nacks ++ [nack])) := by
  have status : (statusWith nacks).isStatusPdu = true := rfl
  rw [LteRlcAmHeader.pushNack, status, nsAssert_true]
  simp only [statusWith, LteRlcAmHeader.setControlPdu, some_bind, pure_some, List.length_append,
    List.length_singleton, nackBytes_succ, Nat.mod_add_mod, Option.some.injEq,
    LteRlcAmHeader.mk.injEq, and_true]
  split <;> rfl

theorem oneMore_statusWith {nacks : List Nat} (few : nacks.length ≤ 1024) :
    (statusWith nacks).oneMoreNackWouldFitIn profile bytes =
      some (decide (nacks.length < nackRoom bytes)) := by
  have status : (statusWith nacks).isStatusPdu = true := rfl
  have length : (statusWith nacks).headerLength = 2 + (3 * nacks.length + 1) / 2 := by
    show (2 + (3 * nacks.length + 1) / 2) % 65536 = _
    omega
  have list : (statusWith nacks).nackSnList = nacks := rfl
  rw [LteRlcAmHeader.oneMoreNackWouldFitIn, status, nsAssert_true]
  simp only [some_bind, pure_some, Option.some.injEq, length, list]
  unfold nackRoom
  split
  · rw [decide_eq_decide]
    omega
  · rw [decide_eq_decide]
    omega

/-- The loop over the NACKs, from a position `p` that it has reached: it reaches VR(MS), or the
NACKs that fit are pushed. -/
theorem Tracks.nackLoop (tracks : Tracks s R R Ms H) (profile : BuildProfile) (bytes : Nat)
    (rounds : Nat) : ∀ p, R ≤ p → p ≤ Ms → Ms < p + rounds →
    (missing s (R % 1024) (p % 1024)).length ≤ nackRoom bytes →
    ∃ q, LteRlcAm.nackLoop profile bytes s rounds (from_ R p)
        (statusWith (missing s (R % 1024) (p % 1024))) =
          some (from_ R q, statusWith (missing s (R % 1024) (q % 1024))) ∧ R ≤ q ∧ q ≤ Ms ∧
      (missing s (R % 1024) (q % 1024)).length ≤ nackRoom bytes ∧
      (q = Ms ∨ nackRoom bytes ≤ (missing s (R % 1024) (q % 1024)).length) := by
  have window := tracks.window
  have high := tracks.high
  induction rounds with
  | zero =>
    intro p _ most enough
    omega
  | succ rounds ih =>
    intro p low most enough fits
    have few : (missing s (R % 1024) (p % 1024)).length ≤ 1024 :=
      (missing_length_le low (by omega)).trans (by omega)
    rw [LteRlcAm.nackLoop, tracks.vrMs,
      less_from low (by omega) (low.trans most) (by omega : Ms < R + 1024)]
    by_cases below : p < Ms
    · by_cases room : (missing s (R % 1024) (p % 1024)).length < nackRoom bytes
      · have next := missing_succ (s := s) low (by omega : p + 1 < R + 1024)
        have fits' : (missing s (R % 1024) ((p + 1) % 1024)).length ≤ nackRoom bytes := by
          rw [next, List.length_append]
          split
          · exact fits
          · exact room
        obtain ⟨q, returns, rest⟩ := ih (p + 1) (by omega) below (by omega) fits'
        refine ⟨q, ?_, rest⟩
        rw [next] at returns
        simp only [below, decide_true, oneMore_statusWith few, room, Bool.not_true, if_false,
          some_bind, from_value, Bool.false_eq_true, incr_from]
        cases found : complete s (p % 1024) with
        | true =>
          rw [found, if_pos rfl, List.append_nil] at returns
          exact returns
        | false =>
          rw [found, if_neg Bool.false_ne_true] at returns
          simp only [if_false, pushNack_statusWith, Bool.false_eq_true]
          exact returns
      · refine ⟨p, ?_, low, most, fits, .inr (Nat.le_of_not_lt room)⟩
        simp [below, oneMore_statusWith few, room]
    · refine ⟨p, ?_, low, most, fits, .inl (by omega)⟩
      simp [below]

/-- The search for the acknowledged number goes over complete PDUs, to VR(MS) at the latest. -/
theorem Tracks.ackLoop (tracks : Tracks s R R Ms H) (profile : BuildProfile) (rounds : Nat) :
    ∀ q, R ≤ q → q ≤ Ms → Ms < q + rounds →
    ∃ a, LteRlcAm.ackLoop profile s rounds (from_ R q) = some (from_ R a) ∧ q ≤ a ∧ a ≤ Ms ∧
      ∀ y, q ≤ y → y < a → complete s (y % 1024) = true := by
  have window := tracks.window
  have high := tracks.high
  induction rounds with
  | zero =>
    intro q _ most enough
    omega
  | succ rounds ih =>
    intro q low most enough
    rw [LteRlcAm.ackLoop, tracks.vrMs,
      less_from low (by omega) (low.trans most) (by omega : Ms < R + 1024)]
    cases found : complete s (q % 1024) with
    | false =>
      refine ⟨q, ?_, Nat.le_refl q, most, fun y above below => by omega⟩
      simp [found]
    | true =>
      by_cases below : q < Ms
      · obtain ⟨a, returns, later, most', done⟩ := ih (q + 1) (by omega) below (by omega)
        refine ⟨a, ?_, by omega, most', ?_⟩
        · simp only [some_bind, from_value, found, below, decide_true, Bool.and_true, if_true,
            incr_from]
          exact returns
        · intro y above lt
          rcases Nat.eq_or_lt_of_le above with rfl | beyond
          · exact found
          · exact done y beyond lt
      · refine ⟨q, ?_, Nat.le_refl q, most, fun y above lt => by omega⟩
        simp [below]

/-- The header of the STATUS PDU: the NACKs are the missing numbers up to a position `q`, and
everything from there up to the acknowledged number is complete. -/
theorem Tracks.statusHeader (tracks : Tracks s R R Ms H) (profile : BuildProfile) (bytes : Nat) :
    ∃ q a, LteRlcAm.statusHeader profile bytes s =
        some ((statusWith (missing s (R % 1024) (q % 1024))).setAckSn (from_ R a)) ∧
      R ≤ q ∧ q ≤ a ∧ a ≤ Ms ∧ (∀ y, q ≤ y → y < a → complete s (y % 1024) = true) ∧
      (missing s (R % 1024) (q % 1024)).length ≤ nackRoom bytes ∧
      (q = Ms ∨ nackRoom bytes ≤ (missing s (R % 1024) (q % 1024)).length) := by
  have window := tracks.window
  have high := tracks.high
  have low := tracks.low
  obtain ⟨q, nacks, lowQ, mostQ, fits, stop⟩ := tracks.nackLoop profile bytes 1024 R (Nat.le_refl R)
    low (by omega) (by rw [missing_self]; exact Nat.zero_le _)
  obtain ⟨a, acks, later, mostA, done⟩ := tracks.ackLoop profile 1024 q lowQ mostQ (by omega)
  refine ⟨q, a, ?_, lowQ, later, mostA, done, fits, stop⟩
  have initial : ({} : LteRlcAmHeader).setControlPdu LteRlcAmHeader.statusPdu = statusWith [] := rfl
  rw [missing_self] at nacks
  rw [LteRlcAm.statusHeader, tracks.vrR, initial, nacks]
  simp [acks, tracks.vrMs, lessEq_from (lowQ.trans later) (by omega) low (by omega : Ms < R + 1024),
    mostA]

/-! ## On the wire -/

end Ns3.LteRlcAm
