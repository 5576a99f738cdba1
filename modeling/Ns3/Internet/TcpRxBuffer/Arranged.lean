import Ns3.Internet.TcpRxBuffer.Within
import Ns3.Library.Run

/-!
# Any segments

`Arranged` says where the buffer holds bytes, whatever the bytes are. Any calls of `Add` and
`Extract` keep it, as long as every segment lies within half the sequence space of the first
byte that was not extracted yet.
-/

namespace Ns3.TcpRxBuffer

open SequenceNumber Span List Option

/-- A call with any arguments. -/
inductive Access where
  | add (p : Packet) (seq : SequenceNumber32)
  | extract (maxSize : Nat)

def access (profile : BuildProfile) (b : TcpRxBuffer) : Access → Option TcpRxBuffer
  | .add p seq => (b.add profile p seq).map Prod.snd
  | .extract maxSize => (b.extract profile maxSize).map Prod.fst

/-- An empty buffer. -/
def empty (isn : SequenceNumber32) (maxBuffer : Nat) : TcpRxBuffer :=
    { nextRxSeq := isn, maxBuffer }

/-- The first byte that was not extracted yet. -/
def firstUnread (b : TcpRxBuffer) : SequenceNumber32 := b.nextRxSeq.subNat b.availBytes

/-- The buffer holds the spans `B` in sequence and the spans `A` out of order. -/
def Arranged (isn : SequenceNumber32) (base nxt : Nat) (B A : List Span) (b : TcpRxBuffer) :
    Prop :=
  ∃ size, Stored isn (List.replicate size 0) base nxt B A b.blank

theorem slice_zeros {size : Nat} {s : Span} (h : s.stop ≤ size) :
    slice (List.replicate size (0 : Byte)) s = List.replicate s.length 0 := by
  rw [slice, drop_replicate, take_replicate, Nat.min_eq_left]
  simp only [Span.stop] at h
  omega

theorem blank_eq_slice {size i : Nat} (p : Packet) (h : i + p.length ≤ size) :
    p.blank = slice (List.replicate size (0 : Byte)) ⟨i, p.length⟩ := by
  rw [slice_zeros (show (Span.mk i p.length).stop ≤ size from h)]
  rfl

section Stream

variable {isn : SequenceNumber32} {base nxt size more : Nat} {B A : List Span} {b : TcpRxBuffer}

/-- A longer stream of zeros holds the same spans. -/
theorem Stored.grow (st : Stored isn (List.replicate size 0) base nxt B A b) (le : size ≤ more) :
    Stored isn (List.replicate more 0) base nxt B A b := by
  have inside := st.inWindow
  have received := st.received
  simp only [InWindow, length_replicate] at inside received
  have same : (B ++ A).map (entry isn (List.replicate size 0)) =
      (B ++ A).map (entry isn (List.replicate more 0)) := by
    refine map_congr_left fun s hs => ?_
    have stop := (inside s hs).2.2
    rw [entry, entry, slice_zeros stop, slice_zeros (stop.trans le)]
  exact
    { st with
      data := st.data.trans same
      inside := fun s hs => by
        have high := (st.inside s hs).1
        have stop := (inside s (mem_append_right B hs)).2.2
        rw [length_replicate]
        exact ⟨high, stop.trans le⟩
      received := by
        rw [length_replicate]
        exact received.trans le }

end Stream

namespace Arranged

variable {isn : SequenceNumber32} {base nxt : Nat} {B A : List Span} {b b' : TcpRxBuffer}
variable {profile : BuildProfile} {i : Nat} {p : Packet}

theorem start (isn : SequenceNumber32) (maxBuffer lead : Nat) :
    Arranged (isn.at (-lead : Int)) lead lead [] [] (empty isn maxBuffer) := by
  refine ⟨lead, ?_⟩
  exact
    { data := rfl
      tiles := rfl
      ordered := trivial
      empty := fun s hs => absurd hs not_mem_nil
      inside := fun s hs => absurd hs not_mem_nil
      near := Nat.le_add_right _ _
      received := by rw [length_replicate]
      next := by
        rw [at_at]
        simp [blank, TcpRxBuffer.empty]
      size := rfl
      avail := rfl
      noFin := rfl }

section

variable (a : Arranged isn base nxt B A b)
include a

theorem next : b.nextRxSeq = isn.at nxt := by
  obtain ⟨_, st⟩ := a
  exact st.next

theorem avail : base + b.availBytes = nxt := by
  obtain ⟨_, st⟩ := a
  exact st.avail

theorem near : nxt ≤ base + halfMaxValue 32 := by
  obtain ⟨_, st⟩ := a
  exact st.near

theorem tiles : Tiles base B nxt := by
  obtain ⟨_, st⟩ := a
  exact st.tiles

theorem ordered : Ordered base (B ++ A) := by
  obtain ⟨_, st⟩ := a
  exact st.ordered_append

theorem size : b.size = total (B ++ A) := by
  obtain ⟨_, st⟩ := a
  exact st.size

theorem inside : ∀ s ∈ B ++ A, base ≤ s.start ∧ s.stop ≤ base + halfMaxValue 32 := by
  obtain ⟨_, st⟩ := a
  intro s hs
  obtain ⟨low, high, -⟩ := st.inWindow s hs
  exact ⟨low, high⟩

theorem behind : ∀ s ∈ A, nxt ≤ s.start ∧ (s.start = nxt ↔ s.length = 0) := by
  obtain ⟨_, st⟩ := a
  exact fun s hs => ⟨st.ordered.mem hs, st.empty s hs⟩

/-- The entries of the map, in terms of spans. -/
theorem entries :
    b.data.map (fun e => (e.1, e.2.length)) = (B ++ A).map fun s => (isn.at s.start, s.length) := by
  obtain ⟨size, st⟩ := a
  have data : b.data.map blankEntry = (B ++ A).map (entry isn (List.replicate size 0)) := st.data
  have lengths := congrArg (List.map fun e => (e.1, e.2.length)) data
  rw [List.map_map, List.map_map] at lengths
  have left : (fun e : SequenceNumber32 × Packet => (e.1, e.2.length)) ∘ blankEntry =
      fun e => (e.1, e.2.length) := by
    funext e
    exact Prod.ext rfl (Packet.length_blank e.2)
  rw [left] at lengths
  rw [lengths]
  refine map_congr_left fun s hs => ?_
  exact Prod.ext rfl (entry_length (st.inWindow s hs).2.2)

/-- The first packet is that of the first span. -/
theorem first_data {e : SequenceNumber32 × Packet}
    (first : e ∈ b.data.head?) : ∃ s ∈ (B ++ A).head?, e.1 = isn.at s.start := by
  have heads := congrArg head? a.entries
  rw [head?_map, head?_map, Option.mem_def.mp first] at heads
  obtain ⟨s, head, same⟩ := Option.map_eq_some_iff.mp heads.symm
  exact ⟨s, head, (Prod.mk.inj same).1.symm⟩

theorem first_span {s : Span} (head : s ∈ (B ++ A).head?) :
    ∃ e ∈ b.data.head?, e.1 = isn.at s.start := by
  have heads := congrArg head? a.entries
  rw [head?_map, head?_map, Option.mem_def.mp head] at heads
  obtain ⟨e, first, same⟩ := Option.map_eq_some_iff.mp heads
  exact ⟨e, first, (Prod.mk.inj same).1⟩

theorem firstUnread : b.firstUnread = isn.at base := by
  have avail := a.avail
  rw [TcpRxBuffer.firstUnread, a.next]
  ext1
  simp only [SequenceNumber.subNat, «at», ← avail]
  rw [Nat.cast_add, BitVec.ofInt_add, BitVec.ofInt_natCast, BitVec.ofInt_natCast]
  ring

/-- The right edge of the window is always as far from the first unread byte. -/
theorem maxRxSequence : b.maxRxSequence = isn.at (base + b.maxBuffer : Nat) := by
  obtain ⟨size, st⟩ := a
  have behind := st.ordered
  have tiles := st.tiles
  have near := st.near
  have bound : ∀ n : Nat, (isn.at n).add b.maxBuffer = isn.at (n + b.maxBuffer : Nat) :=
    fun n => at_add isn n b.maxBuffer
  have noFin : b.blank.gotFin = false := st.noFin
  have limit : b.blank.maxBuffer = b.maxBuffer := rfl
  rw [← blank_maxRxSequence, TcpRxBuffer.maxRxSequence, noFin, if_neg Bool.false_ne_true, st.data,
    st.next, limit]
  cases held : B with
  | cons s rest =>
    rw [held] at tiles
    obtain ⟨start, pos, others⟩ := tiles
    have le := others.le
    have stop : s.start + s.length = s.stop := rfl
    have gt : (isn.at nxt).gt (isn.at s.start) = decide (s.start < nxt) :=
      gt_at_nat (by omega) (by omega)
    simp only [cons_append, map_cons, entry]
    rw [gt, if_pos (decide_eq_true (by omega)), bound, start]
  | nil =>
    rw [held] at tiles
    obtain rfl : base = nxt := tiles
    rw [nil_append]
    cases outOfOrder : A with
    | nil => exact bound base
    | cons s rest =>
      have start := behind.mem (by rw [outOfOrder]; exact mem_cons_self)
      have high := (st.inside s (by rw [outOfOrder]; exact mem_cons_self)).1
      have stop : s.start ≤ s.stop := Nat.le_add_right _ _
      have gt : (isn.at base).gt (isn.at s.start) = decide (s.start < base) :=
        gt_at_nat (by omega) (by omega)
      simp only [map_cons, entry]
      rw [gt, if_neg (by simpa using start), bound]

/-- A segment within half the space of the first unread byte. -/
theorem add {added : Bool}
    (newest : i + p.length ≤ base + halfMaxValue 32) (oldest : nxt ≤ i + halfMaxValue 32)
    (run : b.add profile p (isn.at i) = some (added, b')) :
    ∃ (nxt' : Nat) (B' A' : List Span), Arranged isn base nxt' B' A' b' := by
  obtain ⟨size, st⟩ := a
  have st := st.grow (Nat.le_max_left size (i + p.length))
  have forgot : b.blank.add profile p.blank (isn.at i) = some (added, b'.blank) := by
    rw [blank_add, run]
    rfl
  rw [blank_eq_slice p (Nat.le_max_right size (i + p.length))] at forgot
  obtain ⟨nxt', B', A', st'⟩ := st.add
    (by rw [length_replicate]; exact Nat.le_max_right _ _) newest oldest forgot
  exact ⟨nxt', B', A', _, st'⟩

/-- A segment inside the window. -/
theorem add_within {added : Bool} {lo : Nat}
    (near : Comparable lo base nxt b.maxBuffer i p.length (B ++ A))
    (run : b.add profile p (isn.at i) = some (added, b')) :
    ∃ (nxt' : Nat) (B' A' : List Span), Arranged isn base nxt' B' A' b' ∧
      ((nxt' = nxt ∧ AddedNothing b.blank b'.blank (B ++ A) (B' ++ A')) ∨
        ∃ h t, AddedPart profile isn b.blank b'.blank lo base nxt nxt' i p.length (B ++ A)
          (B' ++ A') h t) := by
  obtain ⟨size, st⟩ := a
  have st := st.grow (Nat.le_max_left size (i + p.length))
  have forgot : b.blank.add profile p.blank (isn.at i) = some (added, b'.blank) := by
    rw [blank_add, run]
    rfl
  rw [blank_eq_slice p (Nat.le_max_right size (i + p.length))] at forgot
  obtain ⟨nxt', B', A', st', change⟩ := st.add_within near
    (by rw [length_replicate]; exact Nat.le_max_right _ _) forgot
  exact ⟨nxt', B', A', ⟨_, st'⟩, change⟩

end

end Arranged

/-- `Extract` touches the map and the two counts only. -/
structure SameReport (b b' : TcpRxBuffer) : Prop where
  sackList : b'.sackList = b.sackList
  nextRxSeq : b'.nextRxSeq = b.nextRxSeq
  maxBuffer : b'.maxBuffer = b.maxBuffer
  gotFin : b'.gotFin = b.gotFin
  finSeq : b'.finSeq = b.finSeq

section Extract

variable {profile : BuildProfile} {b b' : TcpRxBuffer}

theorem SameReport.refl (b : TcpRxBuffer) : SameReport b b := ⟨rfl, rfl, rfl, rfl, rfl⟩

theorem extractLoop_same {data : List (SequenceNumber32 × Packet)} {size : Nat}
    {outPkt packet : Packet}
    (run : extractLoop profile data b size outPkt = some (b', packet)) : SameReport b b' := by
  induction data generalizing b size outPkt with
  | nil =>
    cases size with
    | zero =>
      cases run
      exact ⟨rfl, rfl, rfl, rfl, rfl⟩
    | succ size => cases run
  | cons e rest ih =>
    cases size with
    | zero =>
      cases run
      exact ⟨rfl, rfl, rfl, rfl, rfl⟩
    | succ size =>
      obtain ⟨first, p⟩ := e
      obtain ⟨_, -, run⟩ := bind_returns.mp run
      by_cases whole : p.length ≤ size + 1
      · rw [if_pos whole] at run
        have same := ih run
        exact ⟨same.sackList, same.nextRxSeq, same.maxBuffer, same.gotFin, same.finSeq⟩
      · rw [if_neg whole] at run
        obtain ⟨head, -, run⟩ := bind_returns.mp run
        obtain ⟨tail, -, run⟩ := bind_returns.mp run
        cases run
        exact ⟨rfl, rfl, rfl, rfl, rfl⟩

theorem extract_same {maxSize : Nat} {packet : Option Packet}
    (run : b.extract profile maxSize = some (b', packet)) : SameReport b b' := by
  rw [extract] at run
  by_cases nothing : min maxSize b.availBytes = 0
  · simp only [nothing, if_true] at run
    cases run
    exact SameReport.refl b
  · simp only [nothing, if_false] at run
    obtain ⟨_, -, run⟩ := bind_returns.mp run
    obtain ⟨⟨c, outPkt⟩, loop, run⟩ := bind_returns.mp run
    cases run
    exact extractLoop_same loop

variable {isn : SequenceNumber32} {base nxt : Nat} {B A : List Span}

theorem Arranged.extract (a : Arranged isn base nxt B A b) {maxSize : Nat}
    {packet : Option Packet} (run : b.extract profile maxSize = some (b', packet)) :
    ∃ B', Arranged isn (base + min maxSize b.availBytes) nxt B' A b' := by
  obtain ⟨size, st⟩ := a
  have forgot : b.blank.extract profile maxSize = some (b'.blank, packet.map Packet.blank) := by
    rw [blank_extract, run]
    rfl
  obtain ⟨B', b₁, st', taken⟩ := st.extract profile maxSize
  rw [forgot] at taken
  obtain ⟨rfl, -⟩ := Prod.mk.inj (some.inj taken)
  exact ⟨B', size, st'⟩

end Extract

end Ns3.TcpRxBuffer
