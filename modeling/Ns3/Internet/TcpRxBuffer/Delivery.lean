import Ns3.Internet.TcpRxBuffer.Reassembly
import Ns3.Library.Run

/-!
# In-order delivery

A receiver adds slices of one stream to the buffer and extracts what is
available, in any interleaving. What it extracts is a prefix of the stream, as
long as every segment lies within half the sequence space of the next expected
byte and of the first byte that was not extracted yet.
-/

namespace Ns3.TcpRxBuffer

open SequenceNumber Span List Option

/-- The receive buffer together with all bytes extracted so far. -/
structure Delivery where
  buffer : TcpRxBuffer
  out : List Byte
  deriving DecidableEq

/-- A call on the buffer: `Add` of a slice of the stream, or `Extract`. -/
inductive Call where
  | add (s : Span)
  | extract (maxSize : Nat)

namespace Delivery

/-- A buffer set up with an initial sequence number and a size. -/
def start (isn : SequenceNumber32) (maxBuffer : Nat) : Delivery :=
  { buffer := { nextRxSeq := isn, maxBuffer }, out := [] }

def call (profile : BuildProfile) (isn : SequenceNumber32) (stream : List Byte) (d : Delivery) :
    Call → Option Delivery
  | .add s => do
      let (_, buffer) ← d.buffer.add profile (slice stream s) (isn.add s.start)
      return { d with buffer }
  | .extract maxSize => do
      let (buffer, packet) ← d.buffer.extract profile maxSize
      return { buffer, out := d.out ++ packet.getD [] }

/-- The position in the stream of the next expected byte. -/
def next (d : Delivery) : Nat := d.out.length + d.buffer.availBytes

/-- A segment is a slice of the stream within half the sequence space of
`NextRxSequence`. -/
def NearNext (stream : List Byte) (d : Delivery) : Call → Prop
  | .add s => s.stop ≤ stream.length ∧ s.stop ≤ d.next + halfMaxValue 32 ∧
      d.next ≤ s.start + halfMaxValue 32
  | .extract _ => True

/-- It lies within half the sequence space of the first byte not extracted, too. -/
def NearUnread (stream : List Byte) (d : Delivery) : Call → Prop
  | .add s => NearNext stream d (.add s) ∧ s.stop ≤ d.out.length + halfMaxValue 32
  | .extract _ => True

instance (stream : List Byte) (d : Delivery) : (c : Call) → Decidable (NearNext stream d c)
  | .add _ => instDecidableAnd
  | .extract _ => instDecidableTrue

instance (stream : List Byte) (d : Delivery) : (c : Call) → Decidable (NearUnread stream d c)
  | .add _ => instDecidableAnd
  | .extract _ => instDecidableTrue

/-- The stream has been delivered exactly once and in order, and the fields of
the buffer account for the rest. -/
structure InOrder (isn : SequenceNumber32) (stream : List Byte) (d : Delivery) : Prop where
  delivered : d.out <+: stream
  fragments : ∃ spans : List Span, d.buffer.data = spans.map (entry isn stream) ∧
    (∀ s ∈ spans, s.stop ≤ stream.length) ∧ spans.Pairwise Span.Disjoint
  size : d.buffer.size = occupancy d.buffer.data
  available : d.buffer.availBytes =
    occupancy (d.buffer.data.filter fun e => e.1.lt d.buffer.nextRxSeq)
  nextRxSeq : d.buffer.nextRxSeq = isn.add (d.out.length + d.buffer.availBytes)

/-- The invariant: the output is the prefix of the stream that ends where the
buffer begins. -/
def Holds (isn : SequenceNumber32) (stream : List Byte) (d : Delivery) : Prop :=
  d.out = stream.take d.out.length ∧
    ∃ (nxt : Nat) (B A : List Span), Stored isn stream d.out.length nxt B A d.buffer

variable {isn : SequenceNumber32} {stream : List Byte} {d d' : Delivery}

theorem Holds.inOrder (h : Holds isn stream d) : InOrder isn stream d := by
  obtain ⟨out, nxt, B, A, st⟩ := h
  have inside := st.inWindow
  have avail := st.avail
  have near := st.near
  have below : ∀ e ∈ B.map (entry isn stream), e.1.lt d.buffer.nextRxSeq = true := by
    intro e he
    obtain ⟨s, hs, rfl⟩ := List.mem_map.mp he
    obtain ⟨low, pos, stop⟩ := st.tiles.mem hs
    have stopEq : s.start + s.length = s.stop := rfl
    have : (entry isn stream s).1.lt (isn.at nxt) = decide (s.start < nxt) :=
      lt_at_nat (by omega) (by omega)
    rw [st.next, this, decide_eq_true_eq]
    omega
  have above : ∀ e ∈ A.map (entry isn stream), ¬ e.1.lt d.buffer.nextRxSeq = true := by
    intro e he
    obtain ⟨s, hs, rfl⟩ := List.mem_map.mp he
    have low := st.ordered.mem hs
    have high := (st.inside s hs).1
    have stopEq : s.start + s.length = s.stop := rfl
    have : (entry isn stream s).1.lt (isn.at nxt) = decide (s.start < nxt) :=
      lt_at_nat (by omega) (by omega)
    rw [st.next, this, decide_eq_true_eq]
    omega
  exact
    { delivered := prefix_iff_eq_take.mpr out
      fragments := ⟨B ++ A, st.data, fun s hs => (inside s hs).2.2, st.ordered_append.pairwise⟩
      size := by rw [st.data, occupancy_map fun s hs => (inside s hs).2.2, st.size]
      available := by
        have tiles := st.tiles.total
        rw [st.data, map_append, filter_append, filter_eq_self.mpr below,
          filter_eq_nil_iff.mpr above, append_nil,
          occupancy_map fun s hs => (inside s (mem_append_left A hs)).2.2]
        omega
      nextRxSeq := by rw [st.next, ← avail, add_eq_at] }

theorem Holds.start (isn : SequenceNumber32) (stream : List Byte) (maxBuffer : Nat) :
    Holds isn stream (start isn maxBuffer) :=
  ⟨rfl, 0, [], [], Stored.start isn stream maxBuffer⟩

/-- One call keeps the invariant. -/
theorem Holds.call {profile : BuildProfile} {c : Call} (h : Holds isn stream d)
    (near : NearUnread stream d c) (run : d.call profile isn stream c = some d') :
    Holds isn stream d' := by
  obtain ⟨out, nxt, B, A, st⟩ := h
  have avail := st.avail
  cases c with
  | add s =>
    obtain ⟨⟨exists_, newest, oldest⟩, unread⟩ := near
    simp only [Delivery.call, add_eq_at, bind_returns, pure_returns] at run
    obtain ⟨⟨added, buffer⟩, added_, rfl⟩ := run
    have oldest' : nxt ≤ s.start + halfMaxValue 32 := by
      rw [Delivery.next] at oldest
      omega
    obtain ⟨nxt', B', A', st'⟩ := st.add exists_ unread oldest' added_
    exact ⟨out, nxt', B', A', st'⟩
  | extract maxSize =>
    obtain ⟨B', b', st', eq⟩ := st.extract profile maxSize
    have received := st.received
    simp only [Delivery.call, eq, some_bind, pure_some, some.injEq] at run
    subst run
    have bytes : (if min maxSize d.buffer.availBytes = 0 then none else
        some (slice stream ⟨d.out.length, min maxSize d.buffer.availBytes⟩)).getD [] =
        slice stream ⟨d.out.length, min maxSize d.buffer.availBytes⟩ := by
      split
      · next nothing => simp [nothing, slice]
      · rfl
    have length : (slice stream ⟨d.out.length, min maxSize d.buffer.availBytes⟩).length =
        min maxSize d.buffer.availBytes := length_slice (by simp only [stop_mk]; omega)
    rw [Holds, bytes, length_append, length]
    refine ⟨?_, nxt, B', A, st'⟩
    have more : stream.take d.out.length ++
        slice stream ⟨d.out.length, min maxSize d.buffer.availBytes⟩ =
        stream.take (d.out.length + min maxSize d.buffer.availBytes) := take_append_slice rfl
    rwa [← out] at more

section Optimized

/-! Without assertions `Add` always returns. -/

theorem findMerge_optimized (first : SackBlock) (blocks : SackList) :
    ∃ found, findMerge .optimized first blocks = some found := by
  induction blocks with
  | nil => exact ⟨none, rfl⟩
  | cons block rest ih =>
    obtain ⟨found, eq⟩ := ih
    rw [findMerge, eq]
    split
    · exact ⟨_, rfl⟩
    · split
      · exact ⟨_, rfl⟩
      · exact ⟨_, rfl⟩

theorem mergeBlocks_optimized (scans : Nat) (first : SackBlock) (blocks : SackList) :
    ∃ merged, mergeBlocks .optimized scans first blocks = some merged := by
  induction scans generalizing first blocks with
  | zero => exact ⟨_, rfl⟩
  | succ scans ih =>
    obtain ⟨found, eq⟩ := findMerge_optimized first blocks
    rw [mergeBlocks, eq]
    cases found with
    | none => exact ⟨_, rfl⟩
    | some pair => exact ih pair.1 pair.2

theorem clearSackList_optimized (seq : SequenceNumber32) (blocks : SackList) :
    ∃ left, clearSackList .optimized seq blocks = some left := by
  induction blocks with
  | nil => exact ⟨_, rfl⟩
  | cons block rest ih =>
    obtain ⟨left, eq⟩ := ih
    rw [clearSackList, eq]
    exact ⟨_, rfl⟩

theorem advance_optimized (data : List (SequenceNumber32 × Packet)) (b : TcpRxBuffer) :
    ∃ b', advance .optimized data b = some b' := by
  induction data generalizing b with
  | nil => exact ⟨b, rfl⟩
  | cons e rest ih =>
    rw [advance]
    split
    · exact ih b
    · split
      · exact ⟨b, rfl⟩
      · obtain ⟨left, eq⟩ := clearSackList_optimized (e.1.add e.2.length) b.sackList
        simp only [eq]
        exact ih _

theorem store_optimized (b : TcpRxBuffer) (p : Packet)
    (seq headSeq tailSeq : SequenceNumber32) :
    ∃ b', b.store .optimized p seq headSeq tailSeq = some b' := by
  have sacked : ∀ b : TcpRxBuffer, ∃ b', (if headSeq.gt b.nextRxSeq then
      b.updateSackList .optimized headSeq tailSeq else some b) = some b' := by
    intro b
    split
    · obtain ⟨merged, eq⟩ := mergeBlocks_optimized b.sackList.length (headSeq, tailSeq) b.sackList
      simp only [updateSackList, nsAssert_optimized, eq]
      exact ⟨_, rfl⟩
    · exact ⟨b, rfl⟩
  simp only [TcpRxBuffer.store, Packet.createFragment, nsAssert_optimized, bind_eq_bind,
    bind_some, Option.pure_def]
  generalize Packet.fragmentBytes p (headSeq.sub seq).toNat (tailSeq.sub headSeq).toNat = piece
  obtain ⟨b₁, eq₁⟩ := sacked { b with
    data := OrderedList.set SequenceNumber.lt headSeq piece b.data }
  rw [eq₁]
  obtain ⟨b₂, eq₂⟩ := advance_optimized b₁.data
    { b₁ with size := UInt32.add b₁.size piece.length }
  rw [bind_some, eq₂]
  exact ⟨_, rfl⟩

theorem add_optimized (b : TcpRxBuffer) (p : Packet) (seq : SequenceNumber32) :
    ∃ r, b.add .optimized p seq = some r := by
  simp only [TcpRxBuffer.add]
  split
  · exact ⟨_, rfl⟩
  · obtain ⟨b', eq⟩ := store_optimized _ p seq _ _
    rw [eq]
    exact ⟨_, rfl⟩

theorem Holds.returns {c : Call} (h : Holds isn stream d) :
    ∃ d', d.call .optimized isn stream c = some d' := by
  obtain ⟨-, nxt, B, A, st⟩ := h
  cases c with
  | add s =>
    obtain ⟨r, eq⟩ := add_optimized d.buffer (slice stream s) (isn.add s.start)
    simp only [Delivery.call, eq]
    exact ⟨_, rfl⟩
  | extract maxSize =>
    obtain ⟨B', b', -, eq⟩ := st.extract .optimized maxSize
    simp only [Delivery.call, eq]
    exact ⟨_, rfl⟩

end Optimized

/-- Every run whose segments lie near the next expected byte and near the first
byte not extracted delivers a prefix of the stream, and optimized builds carry
every such run out. -/
theorem delivers_in_order (profile : BuildProfile) (isn : SequenceNumber32) (stream : List Byte)
    (maxBuffer : Nat) (calls : List Call)
    (near : Run.Meets (call profile isn stream) (NearUnread stream) (start isn maxBuffer) calls) :
    (∀ d, Run.exec (call profile isn stream) (start isn maxBuffer) calls = some d →
      InOrder isn stream d) ∧
    (profile = .optimized →
      ∃ d, Run.exec (call profile isn stream) (start isn maxBuffer) calls = some d) := by
  have initial := Holds.start isn stream maxBuffer
  constructor
  · intro d run
    exact (Run.invariant initial near (fun _ _ _ h near run => h.call near run) run).inOrder
  · rintro rfl
    obtain ⟨d, run, -⟩ := Run.total initial near fun d c h near => by
      obtain ⟨d', run⟩ := h.returns
      exact ⟨d', run, h.call near run⟩
    exact ⟨d, run⟩

/-- A run across the wrap of the sequence space: two segments out of order, an
overlap, a duplicate and two extractions. -/
theorem delivers_in_order_reordered :
    ∃ d, Run.exec (call .debug (.ofNat 4294967294) [1, 2, 3, 4]) (start (.ofNat 4294967294) 4)
        [.add ⟨2, 2⟩, .add ⟨0, 3⟩, .extract 3, .add ⟨1, 2⟩, .extract 9] = some d ∧
      d.out = [1, 2, 3, 4] ∧ InOrder (.ofNat 4294967294) [1, 2, 3, 4] d := by
  have extracted : (Run.exec (call .debug (.ofNat 4294967294) [1, 2, 3, 4])
      (start (.ofNat 4294967294) 4)
      [.add ⟨2, 2⟩, .add ⟨0, 3⟩, .extract 3, .add ⟨1, 2⟩, .extract 9]).map out =
      some [1, 2, 3, 4] := by decide
  obtain ⟨d, run, out⟩ := Option.map_eq_some_iff.mp extracted
  refine ⟨d, run, out, ?_⟩
  exact (delivers_in_order .debug (.ofNat 4294967294) [1, 2, 3, 4] 4
    [.add ⟨2, 2⟩, .add ⟨0, 3⟩, .extract 3, .add ⟨1, 2⟩, .extract 9] (by decide)).1 d run

/-- A buffer that holds sixteen bytes in sequence, more than its size. -/
def farFirst : Delivery where
  buffer := { nextRxSeq := .ofNat 16, size := 16, maxBuffer := 4, availBytes := 16,
              data := [(.ofNat 0, List.replicate 16 0)] }
  out := []

/-- The same buffer after a segment half the sequence space behind them. -/
def farBoth : Delivery where
  buffer := { sackList := [(.ofNat 2147483656, .ofNat 2147483658)], nextRxSeq := .ofNat 16,
              size := 18, maxBuffer := 4, availBytes := 16,
              data := [(.ofNat 2147483656, [1, 1]), (.ofNat 0, List.replicate 16 0)] }
  out := []

def farExtracted : Delivery where
  buffer := { farBoth.buffer with size := 16, availBytes := 14,
                                  data := [(.ofNat 0, List.replicate 16 0)] }
  out := [1, 1]

theorem exists_far_stream {k : Nat} (large : 16 ≤ k) :
    ∃ stream : List Byte, stream.length = k + 2 ∧
      slice stream ⟨0, 16⟩ = List.replicate 16 0 ∧ slice stream ⟨k, 2⟩ = [1, 1] := by
  refine ⟨List.replicate k 0 ++ [1, 1], ?_, ?_, ?_⟩
  · simp
  · rw [slice, drop_zero, take_append_of_le_length (by simpa using large),
      take_replicate, Nat.min_eq_left large]
  · rw [slice, drop_left' length_replicate]
    rfl

/-- Half the sequence space around `NextRxSequence` alone is too wide. The first
segment is not limited by the window, since the buffer is empty. The second one
lies within half the space of the next expected byte, but more than half the
space behind the first stored byte, so the map orders it in front of that byte
and `Extract` delivers it first. -/
theorem far_segment_delivered_first :
    ∃ (isn : SequenceNumber32) (stream : List Byte) (maxBuffer : Nat) (calls : List Call)
      (d : Delivery),
      Run.Meets (call .optimized isn stream) (NearNext stream) (start isn maxBuffer) calls ∧
      Run.exec (call .optimized isn stream) (start isn maxBuffer) calls = some d ∧
      ¬ d.out <+: stream := by
  obtain ⟨stream, length, first, second⟩ :=
    exists_far_stream (show 16 ≤ 2147483656 by norm_num)
  have run₁ : call .optimized (.ofNat 0) stream (start (.ofNat 0) 4) (.add ⟨0, 16⟩) =
      some farFirst := by
    simp only [call, first]
    decide
  have run₂ : call .optimized (.ofNat 0) stream farFirst (.add ⟨2147483656, 2⟩) =
      some farBoth := by
    simp only [call, second]
    decide
  have run₃ : call .optimized (.ofNat 0) stream farBoth (.extract 2) = some farExtracted := by
    simp only [call]
    decide
  refine ⟨.ofNat 0, stream, 4, [.add ⟨0, 16⟩, .add ⟨2147483656, 2⟩, .extract 2], farExtracted,
    .cons ?_ run₁ (.cons ?_ run₂ (.cons trivial run₃ trivial)), ?_, ?_⟩
  · simp [NearNext, length, start, next, halfMaxValue_32]
  · simp [NearNext, length, farFirst, next, halfMaxValue_32]
  · exact Run.exec_cons_eq_some.mpr ⟨_, run₁, Run.exec_cons_eq_some.mpr ⟨_, run₂,
      Run.exec_cons_eq_some.mpr ⟨_, run₃, rfl⟩⟩⟩
  · intro delivered
    have heads : stream.take 2 = [1, 1] := (List.prefix_iff_eq_take.mp delivered).symm
    have zeros : (slice stream ⟨0, 16⟩).take 2 = [1, 1] := by
      rw [slice_take (by decide), slice, List.drop_zero]
      exact heads
    rw [first] at zeros
    exact absurd zeros (by decide)

end Delivery

end Ns3.TcpRxBuffer
