import Ns3.Internet.TcpRxBuffer.Arranged

/-!
# The receive window

`MaxRxSequence` is `m_maxBuffer` bytes behind the first byte that was not extracted yet, so the
window never shrinks. `Add` trims a segment to that window only when there is data in sequence:
an empty buffer takes any segment as a whole, and out-of-order data moves the limit.
-/

namespace Ns3.TcpRxBuffer

open SequenceNumber Span List Option

section Frame

variable {profile : BuildProfile} {b b' : TcpRxBuffer}

theorem advance_maxBuffer {data : List (SequenceNumber32 × Packet)}
    (run : advance profile data b = some b') : b'.maxBuffer = b.maxBuffer := by
  induction data generalizing b with
  | nil => exact congrArg maxBuffer (some.inj run).symm
  | cons e rest ih =>
    rw [advance] at run
    split at run
    · exact ih run
    · split at run
      · exact congrArg maxBuffer (some.inj run).symm
      · obtain ⟨sackList, -, run⟩ := bind_returns.mp run
        have same := ih run
        exact same

theorem add_maxBuffer {p : Packet} {seq : SequenceNumber32} {added : Bool}
    (run : b.add profile p seq = some (added, b')) : b'.maxBuffer = b.maxBuffer := by
  rw [add] at run
  simp only at run
  split at run
  · cases run
    rfl
  · obtain ⟨c, stored, run⟩ := bind_returns.mp run
    cases run
    obtain ⟨piece, -, stored⟩ := bind_returns.mp stored
    obtain ⟨_, -, stored⟩ := bind_returns.mp stored
    obtain ⟨_, -, stored⟩ := bind_returns.mp stored
    obtain ⟨d, sacked, stored⟩ := bind_returns.mp stored
    obtain ⟨e, advanced, stored⟩ := bind_returns.mp stored
    cases stored
    obtain ⟨-, frame⟩ := reported_of_sacked sacked
    have moved := advance_maxBuffer advanced
    have kept := congrArg maxBuffer frame
    exact moved.trans kept

end Frame

section Positions

variable {isn : SequenceNumber32} {base nxt : Nat} {B A : List Span} {b : TcpRxBuffer}
variable {p : Packet} {seq : SequenceNumber32}

/-- A segment lies within half the sequence space of the first byte that was not extracted, and
so does the next expected byte. -/
def NearFirstUnread (b : TcpRxBuffer) : Access → Prop
  | .add p seq =>
    (seq.sub b.firstUnread).toNat + p.length ≤ halfMaxValue 32 ∨
      ((b.firstUnread.sub seq).toNat + b.availBytes ≤ halfMaxValue 32 ∧
        p.length ≤ halfMaxValue 32 + (b.firstUnread.sub seq).toNat)
  | .extract _ => True

/-- Half the sequence space from `lo` on covers the segment, what is held, the next expected
byte and the limit of the window. -/
def Reaches (lo : SequenceNumber32) (b : TcpRxBuffer) (p : Packet) (seq : SequenceNumber32) :
    Prop :=
  (seq.sub lo).toNat + p.length ≤ halfMaxValue 32 ∧
    (b.firstUnread.sub lo).toNat + b.availBytes ≤ halfMaxValue 32 ∧
    (∀ e ∈ b.data, (e.1.sub lo).toNat + e.2.length ≤ halfMaxValue 32) ∧
    ∀ e ∈ b.data.head?, (e.1.sub lo).toNat + b.maxBuffer ≤ halfMaxValue 32
  deriving Decidable

/-- Half the sequence space covers all numbers that the call compares. The lowest of them is the
first unread byte or the begin of the segment. -/
def OneWindow (b : TcpRxBuffer) : Access → Prop
  | .add p seq => Reaches b.firstUnread b p seq ∨ Reaches seq b p seq
  | .extract _ => True

instance (b : TcpRxBuffer) : (c : Access) → Decidable (b.NearFirstUnread c)
  | .add _ _ => instDecidableOr
  | .extract _ => instDecidableTrue

instance (b : TcpRxBuffer) : (c : Access) → Decidable (b.OneWindow c)
  | .add _ _ => instDecidableOr
  | .extract _ => instDecidableTrue

theorem eq_at_of_behind {d : Nat} (le : d ≤ base) (distance : ((isn.at base).sub seq).toNat = d) :
    seq = isn.at (base - d : Nat) := by
  have back : seq.at d = isn.at base := by
    rw [← distance]
    exact at_sub _ _
  have forth : (seq.at d).at (-d : Int) = seq := by
    rw [at_at]
    simp
  rw [← forth, back, at_at]
  congr 1
  omega

theorem eq_at_of_ahead {d : Nat} (distance : (seq.sub (isn.at base)).toNat = d) :
    seq = isn.at (base + d : Nat) := by
  have forth := at_sub seq (isn.at base)
  rw [distance, at_at] at forth
  rw [← forth]
  congr 1

section

variable (a : Arranged isn base nxt B A b)
include a

theorem NearFirstUnread.position
    (lead : halfMaxValue 32 ≤ base) (near : b.NearFirstUnread (.add p seq)) :
    ∃ i : Nat, seq = isn.at i ∧ i + p.length ≤ base + halfMaxValue 32 ∧
      nxt ≤ i + halfMaxValue 32 := by
  have avail := a.avail
  have nextNear := a.near
  obtain ⟨d, forth⟩ : ∃ d, (seq.sub (isn.at base)).toNat = d := ⟨_, rfl⟩
  obtain ⟨d', back⟩ : ∃ d', ((isn.at base).sub seq).toNat = d' := ⟨_, rfl⟩
  rw [NearFirstUnread, a.firstUnread, forth, back] at near
  rcases near with ahead | ⟨behind, short⟩
  · exact ⟨base + d, eq_at_of_ahead forth, by omega, by omega⟩
  · exact ⟨base - d', eq_at_of_behind (by omega) back, by omega, by omega⟩

/-- The numbers that are covered from `lo` on, as positions. -/
theorem Reaches.comparable {lo i : Nat} (low : lo ≤ i ∧ lo ≤ base)
    (span : base ≤ lo + halfMaxValue 32 ∧ i ≤ lo + halfMaxValue 32)
    (reaches : Reaches (isn.at lo) b p (isn.at i)) :
    Comparable lo base nxt b.maxBuffer i p.length (B ++ A) := by
  have half := halfMaxValue_32
  have avail := a.avail
  have entries := a.entries
  obtain ⟨segment, unread, spans, limit⟩ := reaches
  have distance : ∀ q : Nat, lo ≤ q → q < lo + 2 ^ 32 →
      ((isn.at q).sub (isn.at lo)).toNat = q - lo := by
    intro q above near
    have : (((isn.at q).sub (isn.at lo)).toNat : Int) = q - lo := sub_at_toNat (by omega) (by omega)
    omega
  rw [distance i low.1 (by omega)] at segment
  rw [a.firstUnread, distance base low.2 (by omega)] at unread
  have held : ∀ s ∈ B ++ A, ∃ e ∈ b.data, e.1 = isn.at s.start ∧ e.2.length = s.length := by
    intro s hs
    have member : (isn.at s.start, s.length) ∈ b.data.map fun e => (e.1, e.2.length) := by
      rw [entries]
      exact List.mem_map_of_mem hs
    obtain ⟨e, he, same⟩ := List.mem_map.mp member
    exact ⟨e, he, (Prod.mk.inj same).1, (Prod.mk.inj same).2⟩
  refine ⟨low, by omega, ?_, by omega, ?_⟩
  · intro s hs
    obtain ⟨e, he, first, length⟩ := held s hs
    obtain ⟨start, stop⟩ := a.inside s hs
    have startStop : s.start + s.length = s.stop := rfl
    have reach := spans e he
    rw [first, length, distance s.start (by omega) (by omega)] at reach
    omega
  · intro s hs
    obtain ⟨e, here, first⟩ := a.first_span hs
    obtain ⟨start, stop⟩ := a.inside s (mem_of_head? hs)
    have startStop : s.start ≤ s.stop := Nat.le_add_right _ _
    have reach := limit e here
    rw [first, distance s.start (by omega) (by omega)] at reach
    omega

/-- The positions that are compared, from the lowest one on. -/
theorem OneWindow.lowest (lead : halfMaxValue 32 ≤ base)
    (window : b.OneWindow (.add p seq)) :
    ∃ lo i : Nat, seq = isn.at i ∧ Comparable lo base nxt b.maxBuffer i p.length (B ++ A) ∧
      (lo = base ∨ lo = i) := by
  obtain ⟨d, forth⟩ : ∃ d, (seq.sub (isn.at base)).toNat = d := ⟨_, rfl⟩
  obtain ⟨d', back⟩ : ∃ d', ((isn.at base).sub seq).toNat = d' := ⟨_, rfl⟩
  rcases window with unread | segment
  · rw [a.firstUnread] at unread
    have short := unread.1
    have ahead : seq = isn.at (base + d : Nat) := eq_at_of_ahead forth
    rw [ahead] at unread
    exact ⟨base, base + d, ahead,
      unread.comparable a ⟨Nat.le_add_right _ _, le_rfl⟩ ⟨by omega, by omega⟩, .inl rfl⟩
  · have near := segment.2.1
    rw [a.firstUnread, back] at near
    have behind : seq = isn.at (base - d' : Nat) := eq_at_of_behind (by omega) back
    rw [behind] at segment
    exact ⟨base - d', base - d', behind,
      segment.comparable a ⟨le_rfl, by omega⟩ ⟨by omega, by omega⟩, .inr rfl⟩

theorem OneWindow.comparable (lead : halfMaxValue 32 ≤ base)
    (window : b.OneWindow (.add p seq)) :
    ∃ lo i : Nat, seq = isn.at i ∧ Comparable lo base nxt b.maxBuffer i p.length (B ++ A) := by
  obtain ⟨lo, i, eq, near, -⟩ := window.lowest a lead
  exact ⟨lo, i, eq, near⟩

end

end Positions

section Shrinking

variable {profile : BuildProfile} {isn : SequenceNumber32} {b b' : TcpRxBuffer} {c : Access}

/-- The buffer is a store of some positions, with half the space in front of the first unread
one. -/
def Tracked (isn : SequenceNumber32) (b : TcpRxBuffer) : Prop :=
  ∃ base nxt B A, halfMaxValue 32 ≤ base ∧ Arranged isn base nxt B A b

/-- The call does not move the right edge of the window back. -/
def NeverShrinks (profile : BuildProfile) (b : TcpRxBuffer) (c : Access) : Prop :=
  ∀ b', b.access profile c = some b' → b.maxRxSequence.le b'.maxRxSequence = true

theorem Tracked.access (tracked : Tracked isn b) (near : b.NearFirstUnread c)
    (run : b.access profile c = some b') :
    Tracked isn b' ∧ b.maxRxSequence.le b'.maxRxSequence = true := by
  obtain ⟨base, nxt, B, A, lead, a⟩ := tracked
  have nextNear := a.near
  have avail := a.avail
  cases c with
  | add p seq =>
    obtain ⟨⟨added, b''⟩, call, rfl⟩ := map_eq_some_iff.mp run
    obtain ⟨i, rfl, newest, oldest⟩ := near.position a lead
    obtain ⟨nxt', B', A', a'⟩ := a.add newest oldest call
    refine ⟨⟨base, nxt', B', A', lead, a'⟩, ?_⟩
    rw [a.maxRxSequence, a'.maxRxSequence, add_maxBuffer call, le_at_nat (by omega) (by omega)]
    exact decide_eq_true le_rfl
  | extract maxSize =>
    obtain ⟨⟨b'', packet⟩, call, rfl⟩ := map_eq_some_iff.mp run
    obtain ⟨B', a'⟩ := a.extract call
    refine ⟨⟨_, nxt, B', A, by omega, a'⟩, ?_⟩
    rw [a.maxRxSequence, a'.maxRxSequence, (extract_same call).maxBuffer,
      le_at_nat (by omega) (by omega)]
    exact decide_eq_true (by omega)

theorem Tracked.start (isn : SequenceNumber32) (maxBuffer : Nat) :
    Tracked (isn.at (-(halfMaxValue 32 : Nat) : Int)) (empty isn maxBuffer) :=
  ⟨_, _, [], [], le_rfl, Arranged.start isn maxBuffer _⟩

/-- In every run whose segments lie near the first unread byte the right edge of the window never
moves back. -/
theorem maxRxSequence_never_shrinks (profile : BuildProfile) (isn : SequenceNumber32)
    (maxBuffer : Nat) (calls : List Access)
    (near : Run.Meets (access profile) NearFirstUnread (empty isn maxBuffer) calls) :
    Run.Meets (access profile) (NeverShrinks profile) (empty isn maxBuffer) calls :=
  Run.Meets.of_invariant (Tracked.start isn maxBuffer) near
    (fun _ _ _ tracked near run => (tracked.access near run).1)
    fun _ _ tracked near _ run => (tracked.access near run).2

/-- Two segments out of order, and what they make available. -/
theorem maxRxSequence_never_shrinks_reordered :
    Run.Meets (access .debug) (NeverShrinks .debug) (empty (.ofNat 4294967294) 8)
      [.add [3, 4] (.ofNat 0), .add [1, 2, 3] (.ofNat 4294967294), .extract 3,
        .add [0, 1] (.ofNat 4294967293), .extract 9] :=
  maxRxSequence_never_shrinks .debug (.ofNat 4294967294) 8
    [.add [3, 4] (.ofNat 0), .add [1, 2, 3] (.ofNat 4294967294), .extract 3,
      .add [0, 1] (.ofNat 4294967293), .extract 9] (by decide)

/-- A segment half the sequence space ahead is ordered in front of the first stored byte. It is
extracted first, and moves the edge back. -/
theorem maxRxSequence_shrinks : ∃ b b', Run.exec (access .optimized) (empty (.ofNat 0) 4)
        [.add [1, 2, 3, 4] (.ofNat 0), .add [5, 6] (.ofNat 2147483651)] = some b ∧
      b.access .optimized (.extract 2) = some b' ∧
      b.maxRxSequence = .ofNat 8 ∧ b'.maxRxSequence = .ofNat 4 ∧
      ¬ NeverShrinks .optimized b (.extract 2) := by
  have ran : (Run.exec (access .optimized) (empty (.ofNat 0) 4)
      [.add [1, 2, 3, 4] (.ofNat 0), .add [5, 6] (.ofNat 2147483651)]).any (fun b =>
        (b.access .optimized (.extract 2)).any fun b' =>
          b.maxRxSequence = .ofNat 8 ∧ b'.maxRxSequence = .ofNat 4) = true := by
    decide
  obtain ⟨b, run, holds⟩ := (Option.any_eq_true _ _).mp ran
  obtain ⟨b', extracted, edges⟩ := (Option.any_eq_true _ _).mp holds
  obtain ⟨before, after⟩ := of_decide_eq_true edges
  refine ⟨b, b', run, extracted, before, after, fun never => ?_⟩
  have le := never b' extracted
  rw [before, after] at le
  exact absurd le (by decide)

end Shrinking

section Respecting

variable {profile : BuildProfile} {isn : SequenceNumber32} {b b' : TcpRxBuffer} {c : Access}
variable {base nxt i : Nat} {B A : List Span} {p : Packet} {seq : SequenceNumber32}

/-- The segment ends at or below the right edge of the window. -/
def EndsBelow (b : TcpRxBuffer) (p : Packet) (seq : SequenceNumber32) : Prop :=
  (seq.sub b.firstUnread).toNat + p.length ≤ b.maxBuffer ∨
    ((b.firstUnread.sub seq).toNat ≤ halfMaxValue 32 ∧
      p.length ≤ (b.firstUnread.sub seq).toNat + b.maxBuffer)
  deriving Decidable

/-- It begins at or behind the limit that `Add` takes from the first stored packet. -/
def BeginsBehind (b : TcpRxBuffer) (seq : SequenceNumber32) : Prop :=
  ∃ e ∈ b.data.head?, b.maxBuffer ≤ (seq.sub e.1).toNat ∧ (seq.sub e.1).toNat ≤ halfMaxValue 32
  deriving Decidable

/-- `Add` trims the segment to the window: there is data in sequence, or there is nothing that
must be cut off. -/
def TrimsRight (b : TcpRxBuffer) : Access → Prop
  | .add p seq => b.OneWindow (.add p seq) ∧
      (0 < b.availBytes ∨ p.length = 0 ∨ b.EndsBelow p seq ∨ b.BeginsBehind seq)
  | .extract _ => True

instance (b : TcpRxBuffer) : (c : Access) → Decidable (b.TrimsRight c)
  | .add _ _ => instDecidableAnd
  | .extract _ => instDecidableTrue

/-- The occupancy and the next expected byte stay inside the window. -/
def FitsWindow (b : TcpRxBuffer) : Prop :=
  b.size ≤ b.maxBuffer ∧ b.maxRxSequence.ge b.nextRxSeq = true

/-- After `Add` no byte is stored at or beyond the right edge that held before. -/
def StoresBelow (profile : BuildProfile) (b : TcpRxBuffer) (c : Access) : Prop :=
  ∀ p seq, c = .add p seq → ∀ added b', b.add profile p seq = some (added, b') →
    ∀ e ∈ b'.data, ∀ j < e.2.length, (e.1.add j).lt b.maxRxSequence = true

/-- All positions held lie in the window of `m_maxBuffer` bytes. -/
def InsideWindow (isn : SequenceNumber32) (b : TcpRxBuffer) : Prop :=
  b.maxBuffer ≤ halfMaxValue 32 ∧ ∃ base nxt B A, halfMaxValue 32 ≤ base ∧
    Arranged isn base nxt B A b ∧ ∀ s ∈ B ++ A, s.stop ≤ base + b.maxBuffer

theorem next_le_limit (a : Arranged isn base nxt B A b)
    (below : ∀ s ∈ B ++ A, s.stop ≤ base + b.maxBuffer) : nxt ≤ base + b.maxBuffer :=
  a.tiles.le_of_forall (Nat.le_add_right _ _) fun s hs => below s (mem_append_left A hs)

theorem InsideWindow.fits (inside : InsideWindow isn b) : FitsWindow b := by
  obtain ⟨small, base, nxt, B, A, -, a, below⟩ := inside
  have le := next_le_limit a below
  have base_le := a.tiles.le
  refine ⟨?_, ?_⟩
  · have bound := a.ordered.total_le below (Nat.le_add_right _ _)
    rw [a.size]
    omega
  · rw [a.maxRxSequence, a.next, ge_at_nat (by omega) (by omega)]
    exact decide_eq_true le

theorem sub_at_toNat_behind {p q : Nat} (h : q < p) (near : p < q + 2 ^ 32) :
    ((isn.at q).sub (isn.at p)).toNat = 2 ^ 32 - (p - q) := by
  have forth : (((isn.at p).sub (isn.at q)).toNat : Int) = p - q :=
    sub_at_toNat (by omega) (by omega)
  rw [sub_eq] at forth ⊢
  rw [BitVec.toNat_sub] at forth ⊢
  omega

section

variable (a : Arranged isn base nxt B A b)
include a

theorem EndsBelow.position (span : i ≤ base + halfMaxValue 32)
    (span' : base ≤ i + halfMaxValue 32) (ends : b.EndsBelow p (isn.at i)) :
    i + p.length ≤ base + b.maxBuffer := by
  have half := halfMaxValue_32
  rw [EndsBelow, a.firstUnread] at ends
  rcases Nat.lt_or_ge i base with behind | ahead
  · have back : (((isn.at base).sub (isn.at i)).toNat : Int) = base - i :=
      sub_at_toNat (by omega) (by omega)
    omega
  · have forth : (((isn.at i).sub (isn.at base)).toNat : Int) = i - base :=
      sub_at_toNat (by omega) (by omega)
    rcases Nat.eq_or_lt_of_le ahead with rfl | ahead
    · omega
    · rw [sub_at_toNat_behind ahead (by omega)] at ends
      omega

/-- The limit that `Add` takes from the first stored packet, in terms of positions. -/
theorem BeginsBehind.position
    (near : ∀ s ∈ B ++ A, s.start ≤ i + halfMaxValue 32 ∧ i ≤ s.start + halfMaxValue 32)
    (begins : b.BeginsBehind (isn.at i)) :
    ∃ s ∈ (B ++ A).head?, s.start + b.maxBuffer ≤ i := by
  have half := halfMaxValue_32
  obtain ⟨e, first, far, close⟩ := begins
  obtain ⟨s, head, key⟩ := a.first_data first
  obtain ⟨notAfter, notBefore⟩ := near s (mem_of_head? head)
  rw [key] at far close
  refine ⟨s, head, ?_⟩
  rcases Nat.lt_or_ge i s.start with behind | ahead
  · rw [sub_at_toNat_behind behind (by omega)] at close
    omega
  · have distance : (((isn.at i).sub (isn.at s.start)).toNat : Int) = i - s.start :=
      sub_at_toNat (by omega) (by omega)
    omega

/-- What is left of a segment after trimming ends below the limit, when the segment is trimmed to
the window at all. -/
theorem TrimsRight.stop_le {lo h t : Nat}
    (near : Comparable lo base nxt b.maxBuffer i p.length (B ++ A))
    (trims : 0 < b.availBytes ∨ p.length = 0 ∨ b.EndsBelow p (isn.at i) ∨ b.BeginsBehind (isn.at i))
    (first : trimmedHead (B ++ A) b.maxBuffer nxt i p.length ≤ h) (part : h < t)
    (last : t ≤ trimmedTail (B ++ A) b.maxBuffer i p.length) : t ≤ base + b.maxBuffer := by
  have avail := a.avail
  have low := near.low
  have segment := near.segment
  have next := near.next
  have tailBelow := trimmedTail_le (B ++ A) b.maxBuffer i p.length
  have headAbove := le_trimmedHead (B ++ A) b.maxBuffer nxt i p.length
  rcases trims with inSequence | nothing | ends | begins
  · have tiles := a.tiles
    cases held : B with
    | nil =>
      rw [held] at tiles
      have none : base = nxt := tiles
      omega
    | cons s rest =>
      rw [held] at tiles last
      have start : s.start = base := tiles.1
      rw [cons_append, trimmedTail] at last
      omega
  · omega
  · have below := ends.position a (by omega) (by omega)
    omega
  · obtain ⟨s, head, behind⟩ := begins.position a fun s hs => by
      have held := a.inside s hs
      have stop := near.spans s hs
      have startStop : s.start ≤ s.stop := Nat.le_add_right _ _
      omega
    have limit := trimmedTail_le_limit head b.maxBuffer i p.length
    omega

theorem Arranged.byte {e : SequenceNumber32 × Packet}
    (he : e ∈ b.data) :
    ∃ s ∈ B ++ A, e.1 = isn.at s.start ∧ e.2.length = s.length := by
  have member : (e.1, e.2.length) ∈ b.data.map fun e => (e.1, e.2.length) := List.mem_map_of_mem he
  rw [a.entries] at member
  obtain ⟨s, hs, same⟩ := List.mem_map.mp member
  exact ⟨s, hs, (Prod.mk.inj same).1.symm, (Prod.mk.inj same).2.symm⟩

theorem Arranged.bytes_below {limit : Nat}
    (near : limit ≤ base + halfMaxValue 32) (below : ∀ s ∈ B ++ A, s.stop ≤ limit) :
    ∀ e ∈ b.data, ∀ j < e.2.length, (e.1.add j).lt (isn.at limit) = true := by
  intro e he j short
  obtain ⟨s, hs, first, length⟩ := a.byte he
  have low := (a.inside s hs).1
  have stop := below s hs
  have startStop : s.start + s.length = s.stop := rfl
  have byte : (isn.at s.start).add j = isn.at (s.start + j : Nat) := at_add isn s.start j
  rw [first, byte, lt_at_nat (by omega) (by omega)]
  exact decide_eq_true (by omega)

end

/-- Segments that are trimmed as they should be stay inside the window. -/
theorem InsideWindow.add (inside : InsideWindow isn b) (trims : b.TrimsRight (.add p seq))
    {added : Bool} (run : b.add profile p seq = some (added, b')) :
    InsideWindow isn b' ∧ ∀ e ∈ b'.data, ∀ j < e.2.length,
      (e.1.add j).lt b.maxRxSequence = true := by
  obtain ⟨small, base, nxt, B, A, lead, a, below⟩ := inside
  obtain ⟨window, trims⟩ := trims
  obtain ⟨lo, i, rfl, near⟩ := window.comparable a lead
  obtain ⟨nxt', B', A', a', change⟩ := a.add_within near run
  have limit := add_maxBuffer run
  have stays : ∀ s ∈ B' ++ A', s.stop ≤ base + b.maxBuffer := by
    rcases change with ⟨-, nothing⟩ | ⟨h, t, some⟩
    · exact fun s hs => below s (nothing.mem s hs)
    · obtain ⟨kept, left, stores⟩ := some.uncovered
      have stop : t ≤ base + b.maxBuffer :=
        TrimsRight.stop_le a near trims left.head.1 some.part left.tail.1
      have part := some.part
      intro s hs
      rcases stores.mem s hs with rfl | old
      · rw [stop_mk]
        omega
      · exact below s (left.sublist.subset old)
  refine ⟨⟨by rw [limit]; exact small, base, nxt', B', A', lead, a', ?_⟩, ?_⟩
  · rw [limit]
    exact stays
  · rw [a.maxRxSequence]
    exact a'.bytes_below (by omega) stays

theorem InsideWindow.access (inside : InsideWindow isn b) (trims : b.TrimsRight c)
    (run : b.access profile c = some b') : InsideWindow isn b' := by
  cases c with
  | add p seq =>
    obtain ⟨⟨added, b''⟩, call, rfl⟩ := map_eq_some_iff.mp run
    exact (inside.add trims call).1
  | extract maxSize =>
    obtain ⟨⟨b'', packet⟩, call, rfl⟩ := map_eq_some_iff.mp run
    obtain ⟨small, base, nxt, B, A, lead, a, below⟩ := inside
    have limit := (extract_same call).maxBuffer
    obtain ⟨B', a'⟩ := a.extract call
    refine ⟨by rw [limit]; exact small, _, nxt, B', A, by omega, a', fun s hs => ?_⟩
    rw [limit]
    rcases mem_append.mp hs with inSequence | outOfOrder
    · have stop := (a'.tiles.mem inSequence).2.2
      have le := next_le_limit a below
      omega
    · have stop := below s (mem_append_right B outOfOrder)
      omega

theorem InsideWindow.start (isn : SequenceNumber32) {maxBuffer : Nat}
    (small : maxBuffer ≤ halfMaxValue 32) :
    InsideWindow (isn.at (-(halfMaxValue 32 : Nat) : Int)) (empty isn maxBuffer) := by
  refine ⟨small, _, _, [], [], le_rfl, Arranged.start isn maxBuffer _, fun s hs => ?_⟩
  cases hs

/-- In every run whose segments are trimmed to the window nothing is stored beyond its right
edge, and neither the occupancy nor the next expected byte leaves it. -/
theorem receive_window_respected (profile : BuildProfile) (isn : SequenceNumber32)
    {maxBuffer : Nat} (small : maxBuffer ≤ halfMaxValue 32) (calls : List Access)
    (trims : Run.Meets (access profile) TrimsRight (empty isn maxBuffer) calls) :
    Run.Always (access profile) FitsWindow (empty isn maxBuffer) calls ∧
      Run.Meets (access profile) (StoresBelow profile) (empty isn maxBuffer) calls := by
  have start := InsideWindow.start isn small
  constructor
  · exact Run.Always.of_invariant start trims (fun _ => InsideWindow.fits)
      fun _ _ _ inside condition run => inside.access condition run
  · refine Run.Meets.of_invariant start trims
      (fun _ _ _ inside condition run => inside.access condition run) ?_
    rintro b c inside condition p seq rfl added b' run
    exact (inside.add condition run).2

/-- A window of four bytes with a gap, and a segment across its right edge. -/
theorem receive_window_respected_full :
    Run.Always (access .debug) FitsWindow (empty (.ofNat 4294967294) 4)
        [.add [1, 2] (.ofNat 4294967294), .add [4] (.ofNat 1), .add [3, 4, 5, 6] (.ofNat 0),
          .extract 3, .add [5, 6, 7] (.ofNat 2)] ∧
      Run.Meets (access .debug) (StoresBelow .debug) (empty (.ofNat 4294967294) 4)
        [.add [1, 2] (.ofNat 4294967294), .add [4] (.ofNat 1), .add [3, 4, 5, 6] (.ofNat 0),
          .extract 3, .add [5, 6, 7] (.ofNat 2)] :=
  receive_window_respected .debug (.ofNat 4294967294) (by decide)
    [.add [1, 2] (.ofNat 4294967294), .add [4] (.ofNat 1), .add [3, 4, 5, 6] (.ofNat 0),
      .extract 3, .add [5, 6, 7] (.ofNat 2)] (by decide)

/-- An empty buffer takes a segment four times as long as its window. -/
theorem receive_window_overrun :
    ∃ b, (empty (.ofNat 0) 4).add .debug (List.replicate 16 7) (.ofNat 0) = some (true, b) ∧
      b.size = 16 ∧ b.maxBuffer = 4 ∧ ¬ b.FitsWindow ∧
      ¬ (empty (.ofNat 0) 4).StoresBelow .debug (.add (List.replicate 16 7) (.ofNat 0)) := by
  have ran : ((empty (.ofNat 0) 4).add .debug (List.replicate 16 7) (.ofNat 0)).any (fun r =>
      r.1 = true ∧ r.2.size = 16 ∧ r.2.maxBuffer = 4 ∧
        ((.ofNat 0, List.replicate 16 7) ∈ r.2.data)) = true := by
    decide
  obtain ⟨⟨added, b⟩, run, holds⟩ := (Option.any_eq_true _ _).mp ran
  obtain ⟨rfl, size, limit, stored⟩ := of_decide_eq_true holds
  refine ⟨b, run, size, limit, fun fits => ?_, fun below => ?_⟩
  · have le := fits.1
    rw [size, limit] at le
    exact absurd le (by decide)
  · have last := below _ _ rfl true b run _ stored 4 (by decide)
    exact absurd last (by decide)

end Respecting

end Ns3.TcpRxBuffer
