import Ns3.Internet.TcpRxBuffer.Window
import Ns3.Internet.TcpRxBuffer.Fin

/-!
# Data beyond the FIN

Once the FIN is known it is the lowest number that `MaxRxSequence` does not accept. `Add` does not
look there: it stores what is behind the FIN, and `m_nextRxSeq` goes past it. As long as every
segment ends at the FIN, what is stored stays in front of it.
-/

namespace Ns3.TcpRxBuffer

open SequenceNumber Span List Option

/-- A call with any arguments, also of `SetFinSequence`. -/
inductive FinAccess where
  | add (p : Packet) (seq : SequenceNumber32)
  | extract (maxSize : Nat)
  | setFinSequence (s : SequenceNumber32)

def finAccess (profile : BuildProfile) (b : TcpRxBuffer) : FinAccess → Option TcpRxBuffer
  | .add p seq => (b.add profile p seq).map Prod.snd
  | .extract maxSize => (b.extract profile maxSize).map Prod.fst
  | .setFinSequence s => some (b.setFinSequence s)

section Conditions

/-- Nothing of the segment is left at or beyond the FIN when it is trimmed: the segment or the
limit of the window ends in front of that, or the segment is empty, old or behind the limit. -/
def EndsAtFin (b : TcpRxBuffer) (p : Packet) (seq : SequenceNumber32) : Prop :=
  (seq.add p.length).le b.finSeq = true ∨
    (∃ e ∈ b.data.head?, (e.1.add b.maxBuffer).le b.finSeq = true) ∨
    p.length = 0 ∨ b.BeginsBehind seq ∨ (seq.add p.length).le b.nextRxSeq = true
  deriving Decidable

/-- All data that was received is in front of the number `s`, which half the sequence space
covers. -/
def AllBefore (b : TcpRxBuffer) (s : SequenceNumber32) : Prop :=
  (s.sub b.firstUnread).toNat < halfMaxValue 32 ∧
    b.availBytes ≤ (s.sub b.firstUnread).toNat ∧
    ∀ e ∈ b.data, (e.1.sub b.firstUnread).toNat + e.2.length ≤ (s.sub b.firstUnread).toNat
  deriving Decidable

/-- The call keeps all data in front of the FIN. The numbers that `Add` compares are covered by
half the sequence space, and the FIN does not move. -/
def KeepsFin (b : TcpRxBuffer) : FinAccess → Prop
  | .add p seq => b.withoutFin.OneWindow (.add p seq) ∧ (b.gotFin = true → b.EndsAtFin p seq) ∧
      (b.finished = true → (b.nextRxSeq.sub seq).toNat ≤ halfMaxValue 32 ∨
        (seq.sub b.nextRxSeq).toNat ≤ halfMaxValue 32)
  | .extract _ => True
  | .setFinSequence s => (b.gotFin = true → s = b.finSeq) ∧ (b.gotFin = false → b.AllBefore s)

instance (b : TcpRxBuffer) : (c : FinAccess) → Decidable (b.KeepsFin c)
  | .add _ _ => inferInstanceAs (Decidable (_ ∧ (_ → _) ∧ (_ → _)))
  | .extract _ => instDecidableTrue
  | .setFinSequence _ => inferInstanceAs (Decidable ((_ → _) ∧ (_ → _)))

/-- Nothing is stored at or beyond the FIN, and the next expected byte is at most the one behind
it. -/
def FinRespected (b : TcpRxBuffer) : Prop :=
  b.gotFin = true → (∀ e ∈ b.data, ∀ j < e.2.length, (e.1.add j).lt b.finSeq = true) ∧
    b.nextRxSeq.le (b.finSeq.add 1) = true

/-- When everything has been received up to the FIN, the call leaves it so. -/
def StaysFinished (profile : BuildProfile) (b : TcpRxBuffer) (c : FinAccess) : Prop :=
  b.finished = true → b.nextRxSeq = b.finSeq.add 1 → ∀ b', b.finAccess profile c = some b' →
    b'.finished = true ∧ b'.finSeq = b.finSeq ∧ b'.nextRxSeq = b.nextRxSeq

end Conditions

section Walled

variable {profile : BuildProfile} {isn : SequenceNumber32} {base nxt nxt' F i : Nat}
variable {B A B' A' : List Span} {b b' e : TcpRxBuffer} {p : Packet} {s : SequenceNumber32}

/-- The buffer holds the spans `B` in sequence and the spans `A` out of order, all of them in
front of the FIN at the position `F`. -/
structure Walled (isn : SequenceNumber32) (base nxt F : Nat) (B A : List Span) (b : TcpRxBuffer) :
    Prop where
  held : Arranged isn base nxt B A b.withoutFin
  got : b.gotFin = true
  fin : b.finSeq = isn.at F
  above : nxt ≤ F
  near : F < base + halfMaxValue 32
  below : ∀ t ∈ B ++ A, t.stop ≤ F
  next : b.nextRxSeq = isn.at (if nxt = F then F + 1 else nxt : Nat)

theorem Walled.base_le (w : Walled isn base nxt F B A b) : base ≤ nxt := w.held.tiles.le

theorem Walled.finished (w : Walled isn base nxt F B A b) :
    b.finished = decide (nxt = F) := by
  have above := w.above
  have near := w.near
  have base_le := w.base_le
  rw [TcpRxBuffer.finished, w.got, w.fin, w.next, Bool.true_and]
  by_cases counted : nxt = F
  · rw [if_pos counted, lt_at_nat (by omega) (by omega)]
    simp [counted]
  · rw [if_neg counted, lt_at_nat (by omega) (by omega)]
    simp only [counted, decide_false, decide_eq_false_iff_not]
    omega

theorem Walled.counted (w : Walled isn base nxt F B A b) : FinCounted b := by
  have above := w.above
  have near := w.near
  have base_le := w.base_le
  intro _ same
  rw [w.next, w.fin] at same
  have half := halfMaxValue_32
  split at same
  · have := (at_inj (by omega) (by omega)).mp same
    omega
  · next other =>
    have := (at_inj (by omega) (by omega)).mp same
    omega

/-- A buffer that has got no FIN gets one behind all its data. -/
theorem Walled.of_count (a : Arranged isn base nxt B A e) (fin : e.finSeq = isn.at F)
    (above : nxt ≤ F) (near : F < base + halfMaxValue 32) (below : ∀ t ∈ B ++ A, t.stop ≤ F) :
    Walled isn base nxt F B A e.countFin := by
  have half := halfMaxValue_32
  have base_le := a.tiles.le
  have noFin : e.gotFin = false := by
    obtain ⟨_, st⟩ := a
    exact st.noFin
  have reached : e.nextRxSeq = e.finSeq ↔ nxt = F := by
    rw [a.next, fin]
    constructor
    · intro same
      have := (at_inj (by omega) (by omega)).mp same
      omega
    · rintro rfl
      rfl
  have next : e.countFin.nextRxSeq = isn.at (if nxt = F then F + 1 else nxt : Nat) := by
    show (if e.nextRxSeq = e.finSeq then e.nextRxSeq.add 1 else e.nextRxSeq) = _
    by_cases counted : nxt = F
    · have one : (isn.at nxt).add 1 = isn.at (nxt + 1 : Nat) := at_add isn nxt 1
      rw [if_pos (reached.mpr counted), if_pos counted, a.next, one, counted]
    · rw [if_neg (fun same => counted (reached.mp same)), if_neg counted, a.next]
  have same : e.countFin.withoutFin = e := by
    have finished : e.countFin.finished = decide (nxt = F) := by
      show (true && e.finSeq.lt e.countFin.nextRxSeq) = _
      rw [next, fin, Bool.true_and]
      by_cases counted : nxt = F
      · rw [if_pos counted, lt_at_nat (by omega) (by omega)]
        simp [counted]
      · rw [if_neg counted, lt_at_nat (by omega) (by omega)]
        simp only [counted, decide_false, decide_eq_false_iff_not]
        omega
    have back : (if e.countFin.finished then e.countFin.finSeq else e.countFin.nextRxSeq) =
        e.nextRxSeq := by
      rw [finished]
      by_cases counted : nxt = F
      · rw [if_pos (decide_eq_true counted)]
        exact (reached.mpr counted).symm
      · rw [if_neg (by simpa using counted), next, if_neg counted, a.next]
    rw [withoutFin, back]
    show e.retarget false e.nextRxSeq = e
    rw [retarget, ← noFin]
  exact ⟨same.symm ▸ a, rfl, fin, above, near, below, next⟩

theorem Walled.respected (w : Walled isn base nxt F B A b) : b.FinRespected := by
  have above := w.above
  have near := w.near
  have base_le := w.base_le
  intro _
  constructor
  · rw [w.fin]
    have stored := w.held.bytes_below (show F ≤ base + halfMaxValue 32 by omega) w.below
    exact stored
  · have one : (isn.at F).add 1 = isn.at (F + 1 : Nat) := at_add isn F 1
    rw [w.fin, w.next, one]
    split
    · rw [le_at_nat (by omega) (by omega)]
      exact decide_eq_true le_rfl
    · rw [le_at_nat (by omega) (by omega)]
      exact decide_eq_true (by omega)

theorem Walled.stays (w : Walled isn base nxt F B A b) (counted : nxt = F)
    (w' : Walled isn base nxt F B' A' b') :
    b'.finished = true ∧ b'.finSeq = b.finSeq ∧ b'.nextRxSeq = b.nextRxSeq := by
  refine ⟨?_, ?_, ?_⟩
  · rw [w'.finished]
    exact decide_eq_true counted
  · rw [w.fin, w'.fin]
  · rw [w.next, w'.next]

end Walled

section Steps

variable {profile : BuildProfile} {isn : SequenceNumber32} {lo base nxt F i h t : Nat}
variable {B A : List Span} {b b' : TcpRxBuffer} {p : Packet} {seq : SequenceNumber32}
variable {c : FinAccess}

section

variable (w : Walled isn base nxt F B A b)
include w

/-- The end of the segment after trimming, when it ends at the FIN: at the FIN, or where nothing
is left of the segment. -/
theorem EndsAtFin.position (near : Comparable lo base nxt b.maxBuffer i p.length (B ++ A))
    (ends : b.EndsAtFin p (isn.at i)) :
    trimmedTail (B ++ A) b.maxBuffer i p.length ≤ F ∨
      trimmedTail (B ++ A) b.maxBuffer i p.length ≤ i ∨
      trimmedTail (B ++ A) b.maxBuffer i p.length ≤ F + 1 ∧ nxt = F := by
  have above := w.above
  have base_le := w.base_le
  have low := near.low
  have segment := near.segment
  have tailBelow := trimmedTail_le (B ++ A) b.maxBuffer i p.length
  have stop : (isn.at i).add p.length = isn.at (i + p.length : Nat) := at_add isn i p.length
  have ordered : ∀ {m q : Nat}, m ≤ q + halfMaxValue 32 → (isn.at m).le (isn.at q) = true →
      m ≤ q := by
    intro m q span le
    by_contra behind
    rw [le_at_nat span (by omega), decide_eq_true_eq] at le
    exact behind le
  rw [EndsAtFin, stop, w.fin, w.next] at ends
  rcases ends with front | ⟨e, first, limit⟩ | empty | behind | old
  · have := ordered (by omega) front
    omega
  · obtain ⟨s, head, key⟩ := w.held.first_data first
    have limit_ := near.limit s head
    have bound : (isn.at s.start).add b.maxBuffer = isn.at (s.start + b.maxBuffer : Nat) :=
      at_add isn s.start b.maxBuffer
    rw [key, bound] at limit
    have := ordered (by omega) limit
    have := trimmedTail_le_limit head b.maxBuffer i p.length
    omega
  · omega
  · obtain ⟨s, head, far⟩ := BeginsBehind.position w.held
      (fun s hs => by
        have held := w.held.inside s hs
        have reach := near.spans s hs
        have startStop : s.start ≤ s.stop := Nat.le_add_right _ _
        omega) behind
    have limit := trimmedTail_le_limit head b.maxBuffer i p.length
    have far : s.start + b.maxBuffer ≤ i := far
    omega
  · by_cases counted : nxt = F
    · rw [if_pos counted] at old
      have := ordered (by omega) old
      omega
    · rw [if_neg counted] at old
      have := ordered (by omega) old
      omega

/-- Before the FIN is counted `Add` stores what ends in front of it. -/
theorem Walled.add_open (open_ : nxt ≠ F)
    (near : Comparable lo base nxt b.maxBuffer i p.length (B ++ A))
    (ends : b.EndsAtFin p (isn.at i)) {added : Bool}
    (run : b.add profile p (isn.at i) = some (added, b')) :
    ∃ nxt' B' A', Walled isn base nxt' F B' A' b' := by
  obtain ⟨e, forgot, rfl⟩ := forgetFin_add w.got w.counted run
  have held : Arranged isn base nxt B A b.forgetFin := by
    have finished := w.finished
    rw [decide_eq_false open_] at finished
    have same : b.withoutFin = b.forgetFin := by
      rw [withoutFin, finished, if_neg Bool.false_ne_true, forgetFin]
    exact same ▸ w.held
  obtain ⟨nxt', B', A', a', change⟩ := held.add_within near forgot
  have fin : e.finSeq = isn.at F := by
    have counted : FinCounted b.forgetFin := fun got => absurd got Bool.false_ne_true
    exact (add_fin counted forgot).1.finSeq.trans w.fin
  have position := ends.position w near
  have above := w.above
  have below : ∀ s ∈ B' ++ A', s.stop ≤ F := by
    rcases change with ⟨-, nothing⟩ | ⟨h, t, some_⟩
    · exact fun s hs => w.below s (nothing.mem s hs)
    · obtain ⟨kept, left, stores⟩ := some_.uncovered
      have limit : b.forgetFin.blank.maxBuffer = b.maxBuffer := rfl
      have first := left.head.1
      have last := left.tail.1
      rw [limit] at first last
      have head := le_trimmedHead (B ++ A) b.maxBuffer nxt i p.length
      have part := some_.part
      intro s hs
      rcases stores.mem s hs with rfl | old
      · rw [stop_mk]
        omega
      · exact w.below s (left.sublist.subset old)
  have next : nxt' ≤ F := by
    refine a'.tiles.le_of_forall (w.base_le.trans above) fun s hs => ?_
    exact below s (mem_append_left A' hs)
  exact ⟨nxt', B', A', Walled.of_count a' fin next w.near below⟩

theorem Walled.of_blank (same : b'.blank = b.blank) :
    Walled isn base nxt F B A b' := by
  obtain ⟨⟨size, st⟩, got, fin, above, near, below, next⟩ := w
  have gotFin := congrArg TcpRxBuffer.gotFin same
  have finSeq := congrArg TcpRxBuffer.finSeq same
  have nextRxSeq := congrArg TcpRxBuffer.nextRxSeq same
  have held : b'.withoutFin.blank = b.withoutFin.blank := congrArg withoutFin same
  exact ⟨⟨size, held.symm ▸ st⟩, gotFin.trans got, finSeq.trans fin, above, near, below,
    nextRxSeq.trans next⟩

/-- Once the FIN is counted `Add` stores nothing. -/
theorem Walled.add_counted (counted : nxt = F)
    (near : Comparable lo base nxt b.maxBuffer i p.length (B ++ A))
    (reach : F + 1 ≤ lo + halfMaxValue 32) (ends : b.EndsAtFin p (isn.at i)) {added : Bool}
    (run : b.add profile p (isn.at i) = some (added, b')) : Walled isn base nxt F B A b' := by
  have low := near.low
  have position := ends.position w near
  have le : trimmedTail (B ++ A) b.maxBuffer i p.length ≤ max i (F + 1) := by omega
  have base_le := w.base_le
  have next : b.blank.nextRxSeq = isn.at (F + 1 : Nat) := by
    have same : b.blank.nextRxSeq = b.nextRxSeq := rfl
    rw [same, w.next, if_pos counted]
  refine w.of_blank ?_
  obtain ⟨size, st⟩ := w.held
  have data : b.blank.data = (B ++ A).map (entry isn (List.replicate size 0)) := st.data
  have near' : Comparable lo base (F + 1) b.blank.maxBuffer i p.length (B ++ A) :=
    ⟨near.low, near.segment, near.spans, reach, near.limit⟩
  have forgot : b.blank.add profile p.blank (isn.at i) = some (added, b'.blank) := by
    rw [blank_add, run]
    rfl
  have tail : (isn.at i).add p.length = isn.at (i + p.length : Nat) := at_add isn i p.length
  rw [add, Packet.length_blank, tail,
    trimToWindow_at next data st.ordered_append (by omega) near'] at forgot
  simp only at forgot
  generalize o_ : Overlap.mk (isn.at (trimmedHead (B ++ A) b.blank.maxBuffer (F + 1) i p.length))
    (isn.at (trimmedTail (B ++ A) b.blank.maxBuffer i p.length)) b.blank.size = o at forgot
  have limit : b.blank.maxBuffer = b.maxBuffer := rfl
  rw [limit] at o_
  -- Either nothing is stored, or the segment is trimmed to nothing.
  obtain ⟨kept, nothing⟩ : (removeOverlap b.blank.data o).1 = b.blank.data ∧
      (removeOverlap b.blank.data o).2.headSeq.ge (removeOverlap b.blank.data o).2.tailSeq =
        true := by
    cases held : B ++ A with
    | nil =>
      rw [held] at data le o_
      rw [data, map_nil, removeOverlap, ← o_]
      simp only [trimmedHead, trimmedTail] at le ⊢
      refine ⟨trivial, ?_⟩
      rw [ge_at_nat (by omega) (by omega)]
      exact decide_eq_true le
    | cons s rest =>
      have empty : o.headSeq = o.tailSeq := by
        rw [held] at o_ le
        rw [← o_]
        simp only [trimmedHead, Nat.min_eq_right le]
      rw [data]
      exact removeOverlap_empty st.inWindow st.ordered_append o empty
  have before : o.size = 0 + occupancy b.blank.data := by
    rw [← o_, data, occupancy_map fun s hs => (st.inWindow s hs).2.2]
    exact st.size.trans (Nat.zero_add _).symm
  have after := removeOverlap_size b.blank.data o before (o_ ▸ st.size_lt)
  rw [kept, ← before, ← o_] at after
  rw [if_pos nothing, kept] at forgot
  obtain ⟨-, same⟩ := Prod.mk.inj (some.inj forgot)
  rw [← same, ← o_, after]

/-- The FIN that was counted is covered from the lowest number on. -/
theorem Walled.reach (counted : nxt = F)
    (lowest : lo = base ∨ lo = i)
    (near : (b.nextRxSeq.sub (isn.at i)).toNat ≤ halfMaxValue 32 ∨
      ((isn.at i).sub b.nextRxSeq).toNat ≤ halfMaxValue 32) (span : F ≤ lo + halfMaxValue 32) :
    F + 1 ≤ lo + halfMaxValue 32 := by
  have half := halfMaxValue_32
  have farther := w.near
  rcases lowest with rfl | rfl
  · omega
  · rcases Nat.lt_or_ge F lo with behind | ahead
    · omega
    · have forth : (((isn.at (F + 1 : Nat)).sub (isn.at lo)).toNat : Int) = (F + 1 : Nat) - lo :=
        sub_at_toNat (by omega) (by omega)
      rw [w.next, if_pos counted, sub_at_toNat_behind (Nat.lt_succ_of_le ahead) (by omega)] at near
      omega

/-- `Extract` looks at the assertions only. -/
theorem Walled.extract {maxSize : Nat} {packet : Option Packet}
    (run : b.extract profile maxSize = some (b', packet)) :
    ∃ B', Walled isn (base + min maxSize b.availBytes) nxt F B' A b' := by
  have same := extract_same run
  have next : (if b'.finished then b'.finSeq else b'.nextRxSeq) =
      if b.finished then b.finSeq else b.nextRxSeq := by
    rw [TcpRxBuffer.finished, TcpRxBuffer.finished, same.gotFin, same.finSeq, same.nextRxSeq]
  have taken : b.withoutFin.extract .optimized maxSize = some (b'.withoutFin, packet) := by
    rw [withoutFin, withoutFin, next]
    exact retarget_extract run
  obtain ⟨B', a'⟩ := w.held.extract taken
  have near := w.near
  refine ⟨B', a', same.gotFin.trans w.got, same.finSeq.trans w.fin, w.above, by omega, ?_,
    same.nextRxSeq.trans w.next⟩
  intro s hs
  rcases mem_append.mp hs with inSequence | outOfOrder
  · exact (a'.tiles.mem inSequence).2.2.trans w.above
  · exact w.below s (mem_append_right B outOfOrder)

end

/-- The FIN comes behind all data. -/
theorem Walled.setFinSequence (a : Arranged isn base nxt B A b) (before : b.AllBefore seq) :
    ∃ F, Walled isn base nxt F B A (b.setFinSequence seq) := by
  have half := halfMaxValue_32
  obtain ⟨near, inSequence, stored⟩ := before
  rw [a.firstUnread] at near inSequence stored
  obtain ⟨d, distance⟩ : ∃ d, (seq.sub (isn.at base)).toNat = d := ⟨_, rfl⟩
  obtain rfl := eq_at_of_ahead distance
  have avail := a.avail
  have a' : Arranged isn base nxt B A { b with finSeq := isn.at (base + d : Nat) } := by
    obtain ⟨size, st⟩ := a
    exact ⟨size, { st with }⟩
  refine ⟨base + d, Walled.of_count a' rfl (by omega) (by omega) fun t ht => ?_⟩
  have entries := a.entries
  have member : (isn.at t.start, t.length) ∈ b.data.map fun e => (e.1, e.2.length) := by
    rw [entries]
    exact List.mem_map_of_mem ht
  obtain ⟨e, he, same⟩ := List.mem_map.mp member
  have within := stored e he
  rw [(Prod.mk.inj same).1, (Prod.mk.inj same).2, distance] at within
  obtain ⟨low, high⟩ := a.inside t ht
  have startStop : t.start + t.length = t.stop := rfl
  have forth : (((isn.at t.start).sub (isn.at base)).toNat : Int) = t.start - base :=
    sub_at_toNat (by omega) (by omega)
  omega

theorem Walled.setFinSequence_again (w : Walled isn base nxt F B A b) :
    b.setFinSequence b.finSeq = b := by
  have counted := w.counted w.got
  have got := w.got
  rw [TcpRxBuffer.setFinSequence, if_neg counted, ← got]

/-- All data is in front of the FIN, if there is one. -/
def FinTracked (isn : SequenceNumber32) (b : TcpRxBuffer) : Prop :=
  ∃ base nxt B A, halfMaxValue 32 ≤ base ∧
    ((b.gotFin = false ∧ Arranged isn base nxt B A b) ∨ ∃ F, Walled isn base nxt F B A b)

section

variable (tracked : FinTracked isn b)
include tracked

theorem FinTracked.respected : b.FinRespected := by
  obtain ⟨base, nxt, B, A, -, ⟨noFin, -⟩ | ⟨F, w⟩⟩ := tracked
  · exact fun got => absurd (noFin.symm.trans got) Bool.false_ne_true
  · exact w.respected

/-- `Add`, before there is a FIN, before it is counted, and behind that. -/
theorem FinTracked.add (keeps : b.KeepsFin (.add p seq))
    {added : Bool} (run : b.add profile p seq = some (added, b')) :
    FinTracked isn b' ∧ (b.finished = true → b'.finished = true ∧ b'.finSeq = b.finSeq ∧
      b'.nextRxSeq = b.nextRxSeq) := by
  obtain ⟨base, nxt, B, A, lead, ⟨noFin, a⟩ | ⟨F, w⟩⟩ := tracked
  · obtain ⟨window, -, -⟩ := keeps
    have finished : b.finished = false := by rw [TcpRxBuffer.finished, noFin, Bool.false_and]
    have same : b.withoutFin = b := by
      rw [withoutFin, finished, if_neg Bool.false_ne_true, retarget, ← noFin]
    rw [same] at window
    obtain ⟨lo, i, rfl, near⟩ := window.comparable a lead
    obtain ⟨nxt', B', A', a', -⟩ := a.add_within near run
    have counted : FinCounted b := fun got => absurd (noFin.symm.trans got) Bool.false_ne_true
    have noFin' := (add_fin counted run).1.gotFin.trans noFin
    exact ⟨⟨base, nxt', B', A', lead, .inl ⟨noFin', a'⟩⟩,
      fun done => absurd (finished.symm.trans done) Bool.false_ne_true⟩
  · obtain ⟨window, ends, near⟩ := keeps
    obtain ⟨lo, i, rfl, comparable, lowest⟩ := window.lowest w.held lead
    have ends := ends w.got
    by_cases counted : nxt = F
    · have finished : b.finished = true := by
        rw [w.finished]
        exact decide_eq_true counted
      have reach := w.reach counted lowest (near finished) (counted ▸ comparable.next)
      have w' := w.add_counted counted comparable reach ends run
      exact ⟨⟨base, nxt, B, A, lead, .inr ⟨F, w'⟩⟩, fun _ => w.stays counted w'⟩
    · obtain ⟨nxt', B', A', w'⟩ := w.add_open counted comparable ends run
      refine ⟨⟨base, nxt', B', A', lead, .inr ⟨F, w'⟩⟩, fun done => ?_⟩
      rw [w.finished] at done
      exact absurd (of_decide_eq_true done) counted

theorem FinTracked.extract {maxSize : Nat} {packet : Option Packet}
    (run : b.extract profile maxSize = some (b', packet)) : FinTracked isn b' := by
  obtain ⟨base, nxt, B, A, lead, ⟨noFin, a⟩ | ⟨F, w⟩⟩ := tracked
  · obtain ⟨B', a'⟩ := a.extract run
    exact ⟨_, nxt, B', A, by omega, .inl ⟨(extract_same run).gotFin.trans noFin, a'⟩⟩
  · obtain ⟨B', w'⟩ := w.extract run
    exact ⟨_, nxt, B', A, by omega, .inr ⟨F, w'⟩⟩

theorem FinTracked.setFinSequence
    (keeps : b.KeepsFin (.setFinSequence seq)) : FinTracked isn (b.setFinSequence seq) ∧
      (b.finished = true → b.setFinSequence seq = b) := by
  obtain ⟨base, nxt, B, A, lead, ⟨noFin, a⟩ | ⟨F, w⟩⟩ := tracked
  · obtain ⟨F, w⟩ := Walled.setFinSequence a (keeps.2 noFin)
    refine ⟨⟨base, nxt, B, A, lead, .inr ⟨F, w⟩⟩, fun done => ?_⟩
    rw [TcpRxBuffer.finished, noFin, Bool.false_and] at done
    cases done
  · obtain rfl := keeps.1 w.got
    have same := w.setFinSequence_again
    exact ⟨same.symm ▸ ⟨base, nxt, B, A, lead, .inr ⟨F, w⟩⟩, fun _ => same⟩

theorem FinTracked.access (keeps : b.KeepsFin c)
    (run : b.finAccess profile c = some b') :
    FinTracked isn b' ∧ (b.finished = true → b'.finished = true ∧ b'.finSeq = b.finSeq ∧
      b'.nextRxSeq = b.nextRxSeq) := by
  cases c with
  | add p seq =>
    obtain ⟨⟨added, b''⟩, call, rfl⟩ := map_eq_some_iff.mp run
    exact tracked.add keeps call
  | extract maxSize =>
    obtain ⟨⟨b'', packet⟩, call, rfl⟩ := map_eq_some_iff.mp run
    have same := extract_same call
    refine ⟨tracked.extract call, fun done => ⟨?_, same.finSeq, same.nextRxSeq⟩⟩
    rw [← done, TcpRxBuffer.finished, TcpRxBuffer.finished, same.gotFin, same.finSeq,
      same.nextRxSeq]
  | setFinSequence seq =>
    cases run
    obtain ⟨tracked', same⟩ := tracked.setFinSequence keeps
    refine ⟨tracked', fun done => ?_⟩
    rw [same done]
    exact ⟨done, rfl, rfl⟩

end

theorem FinTracked.start (isn : SequenceNumber32) (maxBuffer : Nat) :
    FinTracked (isn.at (-(halfMaxValue 32 : Nat) : Int)) (empty isn maxBuffer) :=
  ⟨_, _, [], [], le_rfl, .inl ⟨rfl, Arranged.start isn maxBuffer _⟩⟩

end Steps

end Ns3.TcpRxBuffer
