import Ns3.Lte.LteRlcAm.Status

/-!
# When a STATUS PDU fits its opportunity

A NACK at an odd place adds two bytes and one at an even place one byte. The test before a push
allows for one byte where two are added, and for two where one is added, in a number of sixteen
bits: how many NACKs are pushed follows from it, and so when that is the number that fits.
-/

namespace Ns3.LteRlcAm

open SequenceNumber10 (from_ from_value)
open LteRlcAmHeader (nackBytes)

variable {α : Type} {profile : BuildProfile} {s : LteRlcAmRx α} {R Ms H p q r bytes : Nat}

/-- The numbers from VR(R) up to VR(MS) that are not completely received. -/
def awaited (s : LteRlcAmRx α) : List Nat := missing s s.vrR.value s.vrMs.value

/-- The STATUS PDU is no larger than the opportunity, and a missing number is left out only where
one NACK more would be too large. -/
def StatusFits (profile : BuildProfile) (bytes : Nat) (s : LteRlcAmRx α) : Prop :=
  ∃ h, statusHeader profile bytes s = some h ∧ h.getSerializedSize ≤ bytes ∧
    ∀ sn ∈ awaited s, sn ∉ h.nackSnList →
      ∀ g, h.pushNack profile sn = some g → bytes < g.getSerializedSize

/-- Either the test pushes as many NACKs as fit, or no more are missing than it allows. -/
def FitTestRight (bytes count : Nat) : Prop :=
  if bytes < 65536 ∧ bytes % 3 = 1 then True
  else if bytes < 65536 ∧ bytes % 3 = 0 then count < nackRoom bytes
  else count ≤ nackRoom bytes

theorem missing_append (low : p ≤ q) (later : q ≤ r) (near : r < p + 1024) :
    missing s (p % 1024) (r % 1024) =
      missing s (p % 1024) (q % 1024) ++ missing s (q % 1024) (r % 1024) := by
  induction r, later using Nat.le_induction with
  | base => rw [missing_self, List.append_nil]
  | succ r later ih =>
    rw [missing_succ (low.trans later) near, missing_succ later (by omega), ih (by omega),
      List.append_assoc]

/-- A missing number is left out when fewer are reported than are missing. -/
theorem left_out_iff (low : p ≤ q) (later : q ≤ r) (near : r < p + 1024) :
    (∃ sn ∈ missing s (p % 1024) (r % 1024), sn ∉ missing s (p % 1024) (q % 1024)) ↔
      (missing s (p % 1024) (q % 1024)).length < (missing s (p % 1024) (r % 1024)).length := by
  rw [missing_append low later near, List.length_append, Nat.lt_add_right_iff_pos,
    List.length_pos_iff_exists_mem]
  constructor
  · rintro ⟨sn, mem, out⟩
    rcases List.mem_append.mp mem with reported | further
    · exact absurd reported out
    · exact ⟨sn, further⟩
  · rintro ⟨sn, further⟩
    refine ⟨sn, List.mem_append_right _ further, fun reported => ?_⟩
    obtain ⟨y, lowY, highY, rfl⟩ := (mem_numbers later (by omega)).mp (mem_missing.mp further).1
    obtain ⟨z, lowZ, highZ, same⟩ := (mem_numbers low (by omega)).mp (mem_missing.mp reported).1
    omega

theorem pushNack_setAckSn (h : LteRlcAmHeader) (ackSn : SequenceNumber10) (nack : Nat) :
    (h.setAckSn ackSn).pushNack profile nack =
      (h.pushNack profile nack).map (LteRlcAmHeader.setAckSn ackSn) := by
  simp only [LteRlcAmHeader.pushNack, LteRlcAmHeader.setAckSn, LteRlcAmHeader.isStatusPdu]
  cases nsAssert profile _ <;> rfl

/-- The sizes, in the number of NACKs that the test lets through. -/
theorem sizes_iff {m n : Nat} (enough : 4 ≤ bytes) (few : m ≤ 512) (most : m ≤ n)
    (allowed : m ≤ nackRoom bytes) (stop : m = n ∨ nackRoom bytes ≤ m) :
    (2 + nackBytes m ≤ bytes ∧ (m < n → bytes < 2 + nackBytes (m + 1))) ↔ FitTestRight bytes n := by
  have bytesOf : ∀ k, nackBytes (2 * k) = 3 * k ∧ nackBytes (2 * k + 1) = 3 * k + 2 := by
    intro k
    unfold nackBytes
    omega
  unfold FitTestRight
  unfold nackRoom at *
  by_cases small : bytes < 65536
  · rw [Nat.mod_eq_of_lt small] at *
    obtain ⟨k, rfl | rfl⟩ := m.even_or_odd'
    · rw [(bytesOf k).1, (bytesOf k).2]
      split
      · rw [iff_true]
        omega
      · split <;> omega
    · rw [(bytesOf k).2, show 2 * k + 1 + 1 = 2 * (k + 1) by omega, (bytesOf (k + 1)).1]
      split
      · rw [iff_true]
        omega
      · split <;> omega
  · -- the size counts modulo 65536 in the test, and the PDU is smaller anyway
    unfold nackBytes
    simp only [small, false_and, if_false]
    omega

/-- The STATUS PDU fits, with no NACK left out that fits, exactly when the test is right for the
size and for the number of missing PDUs. -/
theorem statusFits_iff {events : List (RxEvent α)} (enough : 4 ≤ bytes)
    (run : Run.exec (rxStep profile) {} events = some s) :
    StatusFits profile bytes s ↔ FitTestRight bytes (awaited s).length := by
  obtain ⟨R, Ms, H, tracks, -⟩ := run_inv run
  have window := tracks.window
  have high := tracks.high
  obtain ⟨q, a, built, lowQ, later, mostA, -, fits, stop⟩ := tracks.statusHeader profile bytes
  have whole : awaited s = missing s (R % 1024) (Ms % 1024) := by
    rw [awaited, tracks.vrR, tracks.vrMs, from_value, from_value]
  have few := (missing_length_le (s := s) lowQ (by omega : q < R + 1024)).trans
    (by omega : q - R ≤ 512)
  have out := left_out_iff (s := s) lowQ (later.trans mostA) (by omega : Ms < R + 1024)
  have most : (missing s (R % 1024) (q % 1024)).length ≤ (awaited s).length := by
    rw [whole, missing_append lowQ (later.trans mostA) (by omega), List.length_append]
    exact Nat.le_add_right _ _
  have stop' : (missing s (R % 1024) (q % 1024)).length = (awaited s).length ∨
      nackRoom bytes ≤ (missing s (R % 1024) (q % 1024)).length := by
    refine stop.imp_left fun reached => ?_
    rw [whole, reached]
  rw [← whole] at out
  rw [← sizes_iff enough few most fits stop']
  have size : ((statusWith (missing s (R % 1024) (q % 1024))).setAckSn
    (from_ R a)).getSerializedSize
      = 2 + nackBytes (missing s (R % 1024) (q % 1024)).length := by
    refine Nat.mod_eq_of_lt ?_
    unfold nackBytes
    omega
  have larger : ∀ sn g, ((statusWith (missing s (R % 1024) (q % 1024))).setAckSn
      (from_ R a)).pushNack profile sn = some g ↔
      g = (statusWith (missing s (R % 1024) (q % 1024) ++ [sn])).setAckSn (from_ R a) := by
    intro sn g
    rw [pushNack_setAckSn, pushNack_statusWith, Option.map_some, Option.some.injEq, eq_comm]
  have size' : ∀ sn, ((statusWith (missing s (R % 1024) (q % 1024) ++ [sn])).setAckSn
      (from_ R a)).getSerializedSize =
        2 + nackBytes ((missing s (R % 1024) (q % 1024)).length + 1) := by
    intro sn
    have length : (missing s (R % 1024) (q % 1024) ++ [sn]).length =
        (missing s (R % 1024) (q % 1024)).length + 1 := List.length_append
    rw [← length]
    refine Nat.mod_eq_of_lt ?_
    unfold nackBytes
    omega
  constructor
  · rintro ⟨h, builds, small, needed⟩
    cases built.symm.trans builds
    refine ⟨size ▸ small, fun fewer => ?_⟩
    obtain ⟨sn, mem, leftOut⟩ := out.mpr fewer
    exact size' sn ▸ needed sn mem leftOut _ ((larger sn _).mpr rfl)
  · rintro ⟨small, needed⟩
    refine ⟨_, built, size.symm ▸ small, fun sn mem leftOut g pushes => ?_⟩
    rw [(larger sn g).mp pushes, size']
    exact needed (out.mp ⟨sn, mem, leftOut⟩)

/-- Five missing PDUs and an opportunity of ten bytes. -/
theorem statusFits_ten : ∃ s : LteRlcAmRx Nat,
    Run.exec (rxStep .debug) {} [.receivePdu 0 0 5 7, .expireReorderingTimer] = some s ∧
      (StatusFits .debug 10 s ↔ FitTestRight 10 (awaited s).length) := by
  obtain ⟨s, run⟩ : ∃ s : LteRlcAmRx Nat, Run.exec (rxStep .debug) {}
    [.receivePdu 0 0 5 7, .expireReorderingTimer] = some s := ⟨_, rfl⟩
  exact ⟨s, run, statusFits_iff (by decide : 4 ≤ 10) run⟩

/-- Three missing PDUs and an opportunity of six bytes: the STATUS PDU has seven. -/
theorem status_of_seven_bytes : ∃ (s : LteRlcAmRx Nat) (h : LteRlcAmHeader),
    Run.exec (rxStep .debug) {} [.receivePdu 0 0 3 7, .expireReorderingTimer] = some s ∧
      statusHeader .debug 6 s = some h ∧ h.getSerializedSize = 7 ∧ ¬ StatusFits .debug 6 s := by
  obtain ⟨s, run, h, built, size⟩ : ∃ s : LteRlcAmRx Nat, Run.exec (rxStep .debug) {}
      [.receivePdu 0 0 3 7, .expireReorderingTimer] = some s ∧
      ∃ h, statusHeader .debug 6 s = some h ∧ h.getSerializedSize = 7 := ⟨_, rfl, _, rfl, rfl⟩
  refine ⟨s, h, run, built, size, ?_⟩
  rintro ⟨h', built', small, -⟩
  cases built.symm.trans built'
  omega

end Ns3.LteRlcAm
