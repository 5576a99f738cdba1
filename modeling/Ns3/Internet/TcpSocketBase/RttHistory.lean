import Ns3.Internet.TcpSocketBase.Acceptance

/-!
# Karn's rule

`UpdateRttHistory` logs every segment that is sent for the first time. Of the entries that a
retransmission overlaps it marks only the first one, the one that holds its begin, and lets that
entry end where the retransmission ends. `EstimateRtt` measures the front entry alone, so the
other entries are safe as long as one in front of them ends no earlier: it cannot leave before
them.

The run keeps with each entry the bytes that it was logged for and the ranges that were sent
again since, as positions in the stream of sequence numbers.
-/

namespace Ns3.TcpSocketBase

open SequenceNumber List

/-- The loop of `UpdateRttHistory` over the entries, for a retransmission. -/
def markRetransmitted (seq : SequenceNumber32) (sz : Nat) : List RttHistory → List RttHistory
  | [] => []
  | i :: rest =>
    if seq.ge i.seq && seq.lt i.stop then
      { i with retx := true, count := ((seq.add sz).sub i.seq).toNat } :: rest
    else i :: markRetransmitted seq sz rest

/-- `UpdateRttHistory`. -/
def updateRttHistory (now : Int) (seq : SequenceNumber32) (sz : Nat) (isRetransmission : Bool)
    (history : List RttHistory) : List RttHistory :=
  if !isRetransmission then history ++ [{ seq, count := sz, time := now }]
  else markRetransmitted seq sz history

/-- Two ranges of positions, each a begin and a length, have a byte in common. -/
def ShareByte (a n b m : Nat) : Prop := ∃ x, a ≤ x ∧ x < a + n ∧ b ≤ x ∧ x < b + m

/-- An entry, the bytes it was logged for, and the ranges that were sent again since then. -/
structure Logged where
  entry : RttHistory
  start : Nat
  length : Nat
  resent : List (Nat × Nat) := []
  deriving DecidableEq

namespace Logged

/-- The entry covers a byte that was sent again since it was logged. -/
def Resent (l : Logged) : Prop := ∃ r ∈ l.resent, ShareByte l.start l.length r.1 r.2

/-- The position behind the entry. -/
def stop (l : Logged) : Nat := l.start + l.entry.count

/-- The entry holds a position. -/
def Holds (l : Logged) (p : Nat) : Prop := l.start ≤ p ∧ p < l.stop
  deriving Decidable

/-- The `sz` bytes at `p` are sent again. -/
def resend (p sz : Nat) (l : Logged) : Logged := { l with resent := (p, sz) :: l.resent }

end Logged

/-- The marking of the source, with the ranges that are kept beside it. -/
def resendAll (seq : SequenceNumber32) (p sz : Nat) : List Logged → List Logged
  | [] => []
  | l :: rest =>
    if seq.ge l.entry.seq && seq.lt l.entry.stop then
      { l.resend p sz with
        entry := { l.entry with
          retx := true, count := ((seq.add sz).sub l.entry.seq).toNat } } ::
        rest.map (Logged.resend p sz)
    else l.resend p sz :: resendAll seq p sz rest

/-- The history of a connection. Position `p` has the sequence number `initial.at p`, and `next`
is the position behind everything sent. -/
structure RttLog where
  initial : SequenceNumber32
  next : Nat := 0
  log : List Logged := []
  deriving DecidableEq

/-- A segment of new bytes, which may leave out some numbers as SYN does; bytes that are sent
again; and a cumulative ACK. -/
inductive RttEvent where
  | transmit (now : Int) (gap sz : Nat)
  | retransmit (now : Int) (p sz : Nat)
  | ack (now : Int) (p : Nat)
  deriving DecidableEq

namespace RttLog

/-- `m_history`. -/
def history (s : RttLog) : List RttHistory := s.log.map Logged.entry

def step (s : RttLog) : RttEvent → Option RttLog
  | .transmit now gap sz => some { s with
      next := s.next + gap + sz
      log := s.log ++ [{
        entry := { seq := s.initial.at (s.next + gap : Nat), count := sz, time := now }
        start := s.next + gap
        length := sz }] }
  | .retransmit _ p sz => some { s with log := resendAll (s.initial.at p) p sz s.log }
  | .ack _ p => some { s with
      log := s.log.drop (s.log.length -
        (Socket.prune (s.initial.at p) s.history).length) }

/-- `EstimateRtt` on an ACK takes a measurement of the front entry. -/
def Measures (s : RttLog) (now : Int) (p : Nat) : Prop :=
  Socket.sample now false { ackNumber := s.initial.at p } s.history ≠ 0

/-- What a connection does whose window is less than half the sequence space. -/
def Allowed (s : RttLog) : RttEvent → Prop
  | .transmit _ gap sz =>
    sz ≤ halfMaxValue 32 ∧ ∀ l ∈ s.log, s.next + gap + sz ≤ l.start + halfMaxValue 32
  | .retransmit _ p sz => p + sz ≤ s.next ∧ s.next ≤ p + halfMaxValue 32
  | .ack _ p => p ≤ s.next ∧ s.next ≤ p + halfMaxValue 32

instance (s : RttLog) : (c : RttEvent) → Decidable (s.Allowed c)
  | .transmit _ _ _ => instDecidableAnd
  | .retransmit _ _ _ | .ack _ _ => instDecidableAnd

/-- A measurement is not of an entry that covers a byte sent again. -/
def Karn (s : RttLog) : RttEvent → Prop
  | .ack now p => s.Measures now p → ∀ l ∈ s.log.head?, ¬ l.Resent
  | _ => True

/-- The rule holds for all ACKs that may follow. -/
def RespectsKarn (s : RttLog) : Prop :=
  ∀ acks : List (Int × Nat),
    Run.Meets step Allowed s (acks.map fun a => .ack a.1 a.2) →
      Run.Meets step Karn s (acks.map fun a => .ack a.1 a.2)

/-- Of the entries behind `reach`, the end of those in front, only the one that is marked covers
bytes sent again. -/
def Covered (p sz : Nat) : Bool → Nat → List Logged → Prop
  | _, _, [] => True
  | marked, reach, l :: rest =>
    if !marked && decide (l.Holds p) then Covered p sz true (max reach (p + sz)) rest
    else
      (l.entry.retx = false → l.Resent ∨ ShareByte l.start l.length p sz → l.stop ≤ reach) ∧
        Covered p sz marked (max reach l.stop) rest

/-- A retransmission leaves no entry unmarked that covers a byte sent again, except behind an
entry that ends no earlier. The entry that it marks counts as ending with it. -/
def KeepsKarn (s : RttLog) : RttEvent → Prop
  | .retransmit _ p sz => Covered p sz false 0 s.log
  | _ => True

end RttLog

section Decide

theorem shareByte_iff {a n b m : Nat} : ShareByte a n b m ↔ max a b < min (a + n) (b + m) := by
  constructor
  · rintro ⟨x, _, _, _, _⟩
    omega
  · intro less
    exact ⟨max a b, by omega, by omega, by omega, by omega⟩

instance (a n b m : Nat) : Decidable (ShareByte a n b m) := decidable_of_iff' _ shareByte_iff

instance (l : Logged) : Decidable l.Resent :=
  inferInstanceAs (Decidable (∃ r ∈ l.resent, ShareByte l.start l.length r.1 r.2))

instance decidableCovered (p sz : Nat) :
    (marked : Bool) → (reach : Nat) → (log : List Logged) →
      Decidable (RttLog.Covered p sz marked reach log)
  | _, _, [] => instDecidableTrue
  | marked, reach, l :: rest =>
    have := decidableCovered p sz true (max reach (p + sz)) rest
    have := decidableCovered p sz marked (max reach l.stop) rest
    inferInstanceAs (Decidable (if !marked && decide (l.Holds p) then
        RttLog.Covered p sz true (max reach (p + sz)) rest
      else (l.entry.retx = false → l.Resent ∨ ShareByte l.start l.length p sz →
        l.stop ≤ reach) ∧ RttLog.Covered p sz marked (max reach l.stop) rest))

instance (s : RttLog) : (c : RttEvent) → Decidable (s.KeepsKarn c)
  | .retransmit _ p sz => decidableCovered p sz false 0 s.log
  | .transmit _ _ _ | .ack _ _ => instDecidableTrue

end Decide

namespace RttLog

section Code

variable {s t : RttLog} {seq : SequenceNumber32} {p sz : Nat} {log : List Logged}

theorem resendAll_entry : (resendAll seq p sz log).map Logged.entry =
    markRetransmitted seq sz (log.map Logged.entry) := by
  induction log with
  | nil => rfl
  | cons l rest ih =>
    rw [resendAll, map_cons, markRetransmitted]
    split
    · rw [map_cons, List.map_map]
      rfl
    · rw [map_cons, ih]
      rfl

theorem prune_eq_drop (ack : SequenceNumber32) (history : List RttHistory) :
    Socket.prune ack history =
      history.drop (history.length - (Socket.prune ack history).length) := by
  induction history with
  | nil => rfl
  | cons first rest ih =>
    have shorter := Socket.prune_length_le ack rest
    rw [Socket.prune]
    split
    · rw [Nat.sub_self, drop_zero]
    · rw [length_cons, Nat.succ_sub shorter, drop_succ_cons]
      exact ih

/-- What the source makes of the history. -/
def sourceHistory (s : RttLog) : RttEvent → List RttHistory
  | .transmit now gap sz =>
    updateRttHistory now (s.initial.at (s.next + gap : Nat)) sz false s.history
  | .retransmit now p sz => updateRttHistory now (s.initial.at p) sz true s.history
  | .ack _ p => Socket.prune (s.initial.at p) s.history

theorem step_history {c : RttEvent} (run : s.step c = some t) :
    t.history = s.sourceHistory c := by
  cases c with
  | transmit now gap sz =>
    cases run
    show List.map _ (_ ++ [_]) = _
    rw [map_append]
    rfl
  | retransmit now p sz =>
    cases run
    exact resendAll_entry
  | ack now p =>
    cases run
    show List.map _ (List.drop _ _) = Socket.prune _ s.history
    have left := prune_eq_drop (s.initial.at p) s.history
    rw [history, length_map] at left
    rw [map_drop]
    exact left.symm

end Code

section Positions

/-- An entry whose numbers are those of its positions, within half the space of the last one. -/
structure Placed (initial : SequenceNumber32) (next : Nat) (l : Logged) : Prop where
  seq : l.entry.seq = initial.at l.start
  stop : l.stop ≤ next
  near : next ≤ l.start + halfMaxValue 32
  logged : l.entry.retx = false → l.entry.count = l.length

variable {initial : SequenceNumber32} {next p sz : Nat} {l : Logged}

section

variable (placed : Placed initial next l)
include placed

theorem Placed.stop_eq : l.entry.stop = initial.at l.stop := by
  rw [RttHistory.stop, placed.seq, at_add]
  rfl

theorem Placed.found (le : p ≤ next)
    (near : next ≤ p + halfMaxValue 32) :
    ((initial.at p).ge l.entry.seq && (initial.at p).lt l.entry.stop) = decide (l.Holds p) := by
  have stop := placed.stop
  have near_ := placed.near
  have start : l.start ≤ l.stop := Nat.le_add_right _ _
  rw [placed.stop_eq, placed.seq, ge_at_nat (by omega) (by omega), lt_at_nat (by omega) (by omega)]
  exact (Bool.decide_and _ _).symm

theorem Placed.above (le : p ≤ next)
    (near : next ≤ p + halfMaxValue 32) :
    l.entry.stop.gt (initial.at p) = decide (p < l.stop) := by
  have stop := placed.stop
  have near_ := placed.near
  have start : l.start ≤ l.stop := Nat.le_add_right _ _
  rw [placed.stop_eq, gt_at_nat (by omega) (by omega)]

/-- The entry that is marked ends where the range ends. -/
theorem Placed.mark (holds : l.Holds p) (inside : p + sz ≤ next) :
    let marked := { l.resend p sz with
      entry := { l.entry with
        retx := true, count := (((initial.at p).add sz).sub l.entry.seq).toNat } }
    Placed initial next marked ∧ marked.stop = p + sz := by
  intro marked
  have half := halfMaxValue_32
  obtain ⟨seq, stop, near, -⟩ := placed
  have low := holds.1
  have count : (((initial.at (p + sz : Nat)).sub (initial.at l.start)).toNat : Int) =
      (p + sz : Nat) - l.start := sub_at_toNat (by omega) (by omega)
  have ends : (initial.at p).add sz = initial.at (p + sz : Nat) := at_add _ _ _
  have marked_ : marked.stop = p + sz := by
    show l.start + (((initial.at p).add sz).sub l.entry.seq).toNat = p + sz
    rw [ends, seq]
    omega
  have logged : marked.entry.retx = false → marked.entry.count = marked.length :=
    fun unmarked => absurd (show true = false from unmarked) (by decide)
  exact ⟨⟨seq, marked_.trans_le inside, near, logged⟩, marked_⟩

end

end Positions

section Shadow

/-- Behind `reach`, the end of the entries in front, no unmarked entry covers bytes sent again
and ends later than one in front of it. -/
def Shadowed : Nat → List Logged → Prop
  | _, [] => True
  | reach, l :: rest =>
    (l.entry.retx = false → l.Resent → l.stop ≤ reach) ∧ Shadowed (max reach l.stop) rest

variable {initial : SequenceNumber32} {next p sz reach : Nat} {log : List Logged} {l : Logged}

theorem shadowed_append {front : List Logged} {reach : Nat} :
    Shadowed reach (front ++ log) ↔
      Shadowed reach front ∧ Shadowed (front.foldl (fun r l => max r l.stop) reach) log := by
  induction front generalizing reach with
  | nil => exact ⟨fun h => ⟨trivial, h⟩, fun h => h.2⟩
  | cons l front ih =>
    rw [cons_append, Shadowed, Shadowed, ih, and_assoc]
    rfl

theorem resent_resend : (l.resend p sz).Resent ↔
    l.Resent ∨ ShareByte l.start l.length p sz := by
  simp [Logged.Resent, Logged.resend, or_comm]

theorem covered_true : Covered p sz true reach log ↔
    Shadowed reach (log.map (Logged.resend p sz)) := by
  induction log generalizing reach with
  | nil => exact Iff.rfl
  | cons l rest ih =>
    rw [Covered, Bool.not_true, Bool.false_and, if_neg Bool.false_ne_true, map_cons,
      Shadowed, ih, resent_resend]
    rfl

section

variable (placed : ∀ l ∈ log, Placed initial next l)
include placed

/-- The condition on a retransmission is that it leaves the log shadowed. -/
theorem covered_iff (inside : p + sz ≤ next)
    (near : next ≤ p + halfMaxValue 32) :
    Covered p sz false reach log ↔ Shadowed reach (resendAll (initial.at p) p sz log) := by
  induction log generalizing reach with
  | nil => exact Iff.rfl
  | cons l rest ih =>
    obtain ⟨here, others⟩ := forall_mem_cons.mp placed
    have found := here.found (by omega) near
    rw [Covered, resendAll, found, Bool.not_false, Bool.true_and]
    by_cases holds : l.Holds p
    · obtain ⟨-, stop⟩ := here.mark holds inside
      rw [if_pos (decide_eq_true holds), if_pos (decide_eq_true holds), Shadowed, covered_true,
        stop]
      refine ⟨fun h => ⟨fun unmarked => ?_, h⟩, fun h => h.2⟩
      exact absurd (show true = false from unmarked) (by decide)
    · rw [if_neg (by rwa [decide_eq_true_eq]), if_neg (by rwa [decide_eq_true_eq]), Shadowed,
        ih others, resent_resend]
      rfl

theorem placed_resendAll (inside : p + sz ≤ next)
    (near : next ≤ p + halfMaxValue 32) :
    ∀ l ∈ resendAll (initial.at p) p sz log, Placed initial next l := by
  have ranges : ∀ l, Placed initial next l → Placed initial next (l.resend p sz) :=
    fun l placed => ⟨placed.seq, placed.stop, placed.near, placed.logged⟩
  induction log with
  | nil => exact nofun
  | cons l rest ih =>
    obtain ⟨here, others⟩ := forall_mem_cons.mp placed
    rw [resendAll, here.found (by omega) near]
    by_cases holds : l.Holds p
    · rw [if_pos (decide_eq_true holds), forall_mem_cons, List.forall_mem_map]
      exact ⟨(here.mark holds inside).1, fun l member => ranges l (others l member)⟩
    · rw [if_neg (by rwa [decide_eq_true_eq]), forall_mem_cons]
      exact ⟨ranges l here, ih others⟩

/-- The entries that an ACK leaves. -/
def afterAck (p : Nat) (log : List Logged) : List Logged :=
  log.dropWhile fun l => l.stop ≤ p

/-- An ACK removes the front entries that end at or before it. -/
theorem ack_log (le : p ≤ next)
    (near : next ≤ p + halfMaxValue 32) :
    log.drop (log.length - (Socket.prune (initial.at p) (log.map Logged.entry)).length) =
      afterAck p log := by
  induction log with
  | nil => rfl
  | cons l rest ih =>
    obtain ⟨here, others⟩ := forall_mem_cons.mp placed
    have shorter := Socket.prune_length_le (initial.at p) (rest.map Logged.entry)
    rw [length_map] at shorter
    rw [map_cons, Socket.prune, here.above le near, afterAck, dropWhile_cons]
    by_cases above : p < l.stop
    · rw [if_pos (decide_eq_true above), if_neg (by simpa using above), length_cons,
        length_cons, length_map, Nat.sub_self, drop_zero]
    · rw [if_neg (by simpa using above), if_pos (by simpa using above), length_cons,
        Nat.succ_sub shorter, drop_succ_cons]
      exact ih others

end

/-- What is behind an ACK stays shadowed: an entry that it removes is not behind one that stays
and ends no earlier. -/
theorem shadowed_afterAck (le : reach ≤ p) (shadowed : Shadowed reach log) :
    Shadowed 0 (afterAck p log) := by
  induction log generalizing reach with
  | nil => trivial
  | cons l rest ih =>
    obtain ⟨here, others⟩ := shadowed
    rw [afterAck, dropWhile_cons]
    by_cases above : p < l.stop
    · rw [if_neg (by simpa using above)]
      refine ⟨fun unmarked resent => ?_, ?_⟩
      · have := here unmarked resent
        omega
      · rwa [Nat.zero_max, ← Nat.max_eq_right (show reach ≤ l.stop by omega)]
    · rw [if_pos (by simpa using above)]
      exact ih (by omega) others

/-- An entry that nothing in front of it shadows. -/
theorem exists_exposed (not : ¬ Shadowed reach log) : ∃ front l rest,
    log = front ++ l :: rest ∧ l.entry.retx = false ∧ l.Resent ∧ reach < l.stop ∧
      ∀ e ∈ front, e.stop < l.stop := by
  induction log generalizing reach with
  | nil => exact absurd trivial not
  | cons first others ih =>
    by_cases here : first.entry.retx = false ∧ first.Resent ∧ reach < first.stop
    · exact ⟨[], first, others, rfl, here.1, here.2.1, here.2.2, nofun⟩
    · have later : ¬ Shadowed (max reach first.stop) others := by
        intro shadowed
        refine not ⟨fun unmarked resent => ?_, shadowed⟩
        by_contra beyond
        exact here ⟨unmarked, resent, by omega⟩
      obtain ⟨front, l, rest, rfl, unmarked, resent, above, earlier⟩ := ih later
      refine ⟨first :: front, l, rest, rfl, unmarked, resent, by omega, ?_⟩
      exact forall_mem_cons.mpr ⟨by omega, earlier⟩

end Shadow

section Runs

variable {s t : RttLog} {c : RttEvent} {now : Int} {p : Nat}

/-- Every entry is in its place. -/
def Inv (s : RttLog) : Prop := ∀ l ∈ s.log, Placed s.initial s.next l

theorem Inv.step (inv : s.Inv) (allowed : s.Allowed c) (run : s.step c = some t) : t.Inv := by
  cases c with
  | transmit now gap sz =>
    cases run
    obtain ⟨short, room⟩ := allowed
    refine forall_mem_append.mpr ⟨fun l member => ?_, ?_⟩
    · obtain ⟨seq, stop, -, logged⟩ := inv l member
      exact ⟨seq, stop.trans (show s.next ≤ s.next + gap + sz by omega), room l member, logged⟩
    · rw [forall_mem_singleton]
      exact ⟨rfl, le_rfl, show s.next + gap + sz ≤ s.next + gap + _ by omega, fun _ => rfl⟩
  | retransmit now p sz =>
    cases run
    exact placed_resendAll inv allowed.1 allowed.2
  | ack now p =>
    cases run
    exact fun l member => inv l (mem_of_mem_drop member)

theorem step_ack (inv : s.Inv) (allowed : s.Allowed (.ack now p)) :
    s.step (.ack now p) = some { s with log := afterAck p s.log } := by
  rw [step, history, ack_log inv allowed.1 allowed.2]

theorem shadowed_step (inv : s.Inv) (shadowed : Shadowed 0 s.log) (allowed : s.Allowed c)
    (keeps : s.KeepsKarn c) (run : s.step c = some t) : Shadowed 0 t.log := by
  cases c with
  | transmit now gap sz =>
    cases run
    refine shadowed_append.mpr ⟨shadowed, fun _ resent => ?_, trivial⟩
    obtain ⟨_, member, -⟩ := resent
    cases member
  | retransmit now p sz =>
    cases run
    exact (covered_iff inv allowed.1 allowed.2).mp keeps
  | ack now p =>
    rw [step_ack inv allowed] at run
    cases run
    exact shadowed_afterAck (Nat.zero_le p) shadowed

theorem sample_cons (h : TcpHeader) (first : RttHistory) (rest : List RttHistory) :
    Socket.sample now false h (first :: rest) =
      if !first.retx && h.ackNumber.ge first.stop then now - first.time else 0 := by
  unfold Socket.sample
  dsimp only

/-- The measurement is the age of the front entry, which is not marked and ends at or before the
ACK. -/
theorem measures_iff {l : Logged} {rest : List Logged} (inv : s.Inv)
    (allowed : s.Allowed (.ack now p)) (log : s.log = l :: rest) :
    s.Measures now p ↔ l.entry.retx = false ∧ l.stop ≤ p ∧ now ≠ l.entry.time := by
  have placed : Placed s.initial s.next l := inv l (log ▸ mem_cons_self)
  have ge : (s.initial.at p).ge l.entry.stop = decide (l.stop ≤ p) := by
    have near := placed.near
    have stop := placed.stop
    have start : l.start ≤ l.stop := Nat.le_add_right _ _
    obtain ⟨low, high⟩ := allowed
    rw [placed.stop_eq, ge_at_nat (by omega) (by omega)]
  rw [Measures, history, log, map_cons, sample_cons, ge]
  cases l.entry.retx with
  | true => simp
  | false =>
    by_cases ends : l.stop ≤ p
    · simp [ends, sub_eq_zero]
    · simp [ends]

/-- Where the log is shadowed, the front entry covers nothing that was sent again. -/
theorem karn_of_shadowed (inv : s.Inv) (shadowed : Shadowed 0 s.log) (allowed : s.Allowed c) :
    s.Karn c := by
  cases c with
  | ack now p =>
    intro measures l front
    cases log : s.log with
    | nil =>
      rw [log] at front
      cases front
    | cons first rest =>
      obtain rfl : first = l := by simpa [log] using front
      obtain ⟨unmarked, -, -⟩ := (measures_iff inv allowed log).mp measures
      rw [log] at shadowed
      intro resent
      have none := shadowed.1 unmarked resent
      obtain ⟨_, -, x, low, high, -, -⟩ := resent
      have logged := (inv first (log ▸ mem_cons_self)).logged unmarked
      unfold Logged.stop at none
      omega
  | transmit now gap sz => trivial
  | retransmit now p sz => trivial

theorem respectsKarn_of_shadowed (inv : s.Inv) (shadowed : Shadowed 0 s.log) :
    s.RespectsKarn := by
  intro acks allowed
  have events : ∀ c ∈ acks.map fun a => RttEvent.ack a.1 a.2, ∃ now p, c = .ack now p := by
    intro c member
    obtain ⟨a, -, rfl⟩ := List.mem_map.mp member
    exact ⟨a.1, a.2, rfl⟩
  refine Run.Meets.of_invariant (I := fun s => s.Inv ∧ Shadowed 0 s.log) ⟨inv, shadowed⟩
    (allowed.and_forall events) ?_ ?_
  · rintro s c t ⟨inv, shadowed⟩ ⟨allowed, now, p, rfl⟩ run
    exact ⟨inv.step allowed run, shadowed_step inv shadowed allowed trivial run⟩
  · rintro s c ⟨inv, shadowed⟩ ⟨allowed, -⟩
    exact karn_of_shadowed inv shadowed allowed

/-- An entry that nothing shadows is measured after two ACKs, one just in front of its end and
one at its end. -/
theorem shadowed_of_respectsKarn (inv : s.Inv) (respects : s.RespectsKarn) :
    Shadowed 0 s.log := by
  by_contra not
  obtain ⟨front, l, rest, log, unmarked, resent, above, earlier⟩ := exists_exposed not
  have placed : Placed s.initial s.next l := inv l (by rw [log]; simp)
  obtain ⟨seq, stop, near, logged⟩ := placed
  have some_ : l.start < l.stop := by
    obtain ⟨_, -, x, low, high, -, -⟩ := resent
    have := logged unmarked
    unfold Logged.stop
    omega
  have first : s.Allowed (.ack 0 (l.stop - 1)) := ⟨by omega, by omega⟩
  have left : afterAck (l.stop - 1) s.log = l :: rest := by
    rw [afterAck, log, dropWhile_append_of_pos]
    · rw [dropWhile_cons, if_neg (by simp; omega)]
    · intro e member
      have := earlier e member
      exact decide_eq_true (by omega)
  have inv' : Inv { s with log := l :: rest } := by
    intro e member
    exact inv e (by rw [log]; exact mem_append_right front member)
  have second : Allowed { s with log := l :: rest } (.ack (l.entry.time + 1) l.stop) :=
    ⟨stop, by show s.next ≤ _; omega⟩
  have run : s.step (.ack 0 (l.stop - 1)) = some { s with log := l :: rest } := by
    rw [step_ack inv first, left]
  have allowed : Run.Meets step Allowed s
      (List.map (fun a : Int × Nat => .ack a.1 a.2)
        [(0, l.stop - 1), (l.entry.time + 1, l.stop)]) :=
    .cons first run ⟨second, fun _ _ => trivial⟩
  obtain ⟨-, later⟩ := respects _ allowed
  have measures : Measures { s with log := l :: rest } (l.entry.time + 1) l.stop :=
    (measures_iff inv' second rfl).mpr ⟨unmarked, le_rfl, by omega⟩
  exact (later _ run).1 measures l rfl resent

/-- Karn's rule holds in every state of a run, for all ACKs that may follow it, if and only if
every retransmission of the run meets the condition. -/
theorem respectsKarn_iff (initial : SequenceNumber32) (events : List RttEvent)
    (allowed : Run.Meets step Allowed { initial } events) :
    Run.Always step RespectsKarn { initial } events ↔
      Run.Meets step KeepsKarn { initial } events := by
  have start : Inv { initial } ∧ Shadowed 0 [] :=
    ⟨fun _ member => absurd member List.not_mem_nil, trivial⟩
  refine Run.always_iff_meets_within (I := fun s => s.Inv ∧ Shadowed 0 s.log) start allowed
    ?_ ?_ ?_
  · rintro s ⟨inv, shadowed⟩
    exact respectsKarn_of_shadowed inv shadowed
  · rintro s c t ⟨inv, shadowed⟩ allowed keeps run
    exact ⟨inv.step allowed run, shadowed_step inv shadowed allowed keeps run⟩
  · rintro s c ⟨inv, -⟩ allowed respects
    cases c with
    | retransmit now p sz =>
      have run : s.step (.retransmit now p sz) = some _ := rfl
      have shadowed := shadowed_of_respectsKarn (inv.step allowed run) (respects _ run)
      exact (covered_iff inv allowed.1 allowed.2).mpr shadowed
    | transmit now gap sz => trivial
    | ack now p => trivial

/-- Two segments of ten bytes are sent again as one, so the second entry is not marked. The first
one ends with it and leaves together with it. -/
theorem respectsKarn_merged : Run.Always step RespectsKarn { initial := .ofNat 100 }
      [.transmit 1 0 10, .transmit 2 0 10, .retransmit 5 0 20, .ack 8 10, .ack 9 20,
        .transmit 9 0 10] :=
  (respectsKarn_iff (.ofNat 100)
    [.transmit 1 0 10, .transmit 2 0 10, .retransmit 5 0 20, .ack 8 10, .ack 9 20,
      .transmit 9 0 10] (by decide)).mpr (by decide)

/-- Fifteen bytes from the begin of two segments of ten are sent again. The second entry is not
marked, and outlives the first one when the fifteen bytes are acknowledged. -/
theorem resent_entry_measured : ∃ s, Run.exec step { initial := .ofNat 100 }
        [.transmit 1 0 10, .transmit 2 0 10, .retransmit 5 0 15, .ack 8 15] = some s ∧
      s.Measures 9 20 ∧ ∃ l ∈ s.log.head?, l.Resent := by
  refine ⟨_, rfl, ?_⟩
  unfold Measures
  decide

end Runs

end RttLog

end Ns3.TcpSocketBase
