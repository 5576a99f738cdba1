import Ns3.Internet.TcpRxBuffer.Fragments

/-!
# Reassembly

`Stored` says what the receive buffer holds of a stream: spans that tile the
positions from the first unread byte to `m_nextRxSeq`, and behind them the
out-of-order spans. `add` and `extract` keep it.
-/

namespace Ns3.TcpRxBuffer

open SequenceNumber Span List

section Loops

variable {isn : SequenceNumber32} {stream : List Byte} {base lo nxt : Nat} {spans : List Span}
variable {profile : BuildProfile} {b b' : TcpRxBuffer}

/-- Storing a piece that overlaps nothing keeps the entries in order. It may
take the place of an empty entry at its own position. -/
theorem set_entry (isn : SequenceNumber32) (inside : ∀ s ∈ spans, InWindow stream base s)
    (ordered : Ordered lo spans)
    {new : Span} (newInside : InWindow stream base new) (low : lo ≤ new.start)
    (apart : ∀ s ∈ spans, s.stop ≤ new.start ∨ new.stop ≤ s.start)
    (replaced : ∀ s ∈ spans, s.start = new.start → s.length = 0) :
    ∃ spans' : List Span,
      OrderedList.set SequenceNumber.lt (isn.at new.start) (new.slice stream)
        (spans.map (entry isn stream)) = spans'.map (entry isn stream) ∧
      Ordered lo spans' ∧ (∀ s ∈ spans', s = new ∨ s ∈ spans ∧ s.start ≠ new.start) ∧
      new ∈ spans' ∧ (∀ s ∈ spans, s ∈ spans' ∨ s.length = 0) ∧
      total spans' = total spans + new.length := by
  induction spans generalizing lo with
  | nil => exact ⟨[new], rfl, ⟨low, trivial⟩, by simp, by simp, by simp, by simp⟩
  | cons s rest ih =>
    obtain ⟨sLow, sHigh, -⟩ := inside s (by simp)
    obtain ⟨newLow, newHigh, -⟩ := newInside
    have sStop : s.start + s.length = s.stop := rfl
    have newStop : new.start + new.length = new.stop := rfl
    have above : (isn.at new.start).lt (entry isn stream s).1 =
        decide (new.start < s.start) := lt_at_nat (by omega) (by omega)
    have below : (entry isn stream s).1.lt (isn.at new.start) =
        decide (s.start < new.start) := lt_at_nat (by omega) (by omega)
    rw [map_cons, OrderedList.set, above, below]
    rcases Nat.lt_trichotomy new.start s.start with before | same | behind
    · have gap := apart s (by simp)
      refine ⟨new :: s :: rest, by simp [before, entry], ⟨low, by omega, ordered.2⟩, ?_,
        mem_cons_self, fun r hr => .inl (mem_cons_of_mem new hr), ?_⟩
      · intro r hr
        rcases mem_cons.mp hr with rfl | hr
        · exact .inl rfl
        · refine .inr ⟨hr, ?_⟩
          rcases mem_cons.mp hr with rfl | hr
          · omega
          · have := (ordered.tail_mem hr).2
            omega
      · simp only [total_cons]
        omega
    · have empty := replaced s (by simp) same.symm
      refine ⟨new :: rest, by simp [same, entry], ⟨low, ?_⟩, ?_, mem_cons_self, ?_, ?_⟩
      · cases rest with
        | nil => trivial
        | cons t others =>
          have later := (ordered.tail_mem (mem_cons_self : t ∈ t :: others)).2
          have gap := apart t (by simp)
          have stop : t.start ≤ t.stop := Nat.le_add_right _ _
          exact ⟨by omega, ordered.2.2⟩
      · intro r hr
        rcases mem_cons.mp hr with rfl | hr
        · exact .inl rfl
        · have := (ordered.tail_mem hr).2
          exact .inr ⟨by simp [hr], by omega⟩
      · intro r hr
        rcases mem_cons.mp hr with rfl | hr
        · exact .inr empty
        · exact .inl (mem_cons_of_mem new hr)
      · simp only [total_cons]
        omega
    · obtain ⟨spans', eq, ord, mem, present, kept, tot⟩ :=
        ih (fun t ht => inside t (by simp [ht]))
        ordered.2 (by have := apart s (by simp); omega) (fun t ht => apart t (by simp [ht]))
        (fun t ht => replaced t (by simp [ht]))
      refine ⟨s :: spans', ?_, ⟨ordered.1, ord⟩, ?_, mem_cons_of_mem s present, ?_, ?_⟩
      · simp [behind, Nat.lt_asymm behind, eq]
      · intro r hr
        rcases mem_cons.mp hr with rfl | hr
        · exact .inr ⟨by simp, by omega⟩
        · rcases mem r hr with rfl | ⟨old, ne⟩
          · exact .inl rfl
          · exact .inr ⟨by simp [old], ne⟩
      · intro r hr
        rcases mem_cons.mp hr with rfl | hr
        · exact .inl mem_cons_self
        · rcases kept r hr with here | empty
          · exact .inl (mem_cons_of_mem s here)
          · exact .inr empty
      · simp only [total_cons]
        omega

theorem advance_front {front rest : List (SequenceNumber32 × Packet)}
    (below : ∀ e ∈ front, e.1.lt b.nextRxSeq = true) :
    advance profile (front ++ rest) b = advance profile rest b := by
  induction front with
  | nil => rfl
  | cons e front ih =>
    rw [cons_append, advance, below e (by simp), if_pos rfl]
    exact ih fun e' he => below e' (by simp [he])

/-- Clearing the report takes the blocks out that end at or below the number. -/
theorem clearSackList_eq {profile : BuildProfile} {seq : SequenceNumber32}
    {blocks others : SackList} (run : clearSackList profile seq blocks = some others) :
    others = blocks.filter fun block => !block.2.le seq := by
  induction blocks generalizing others with
  | nil => exact (Option.some.inj run).symm
  | cons block rest ih =>
    obtain ⟨-, -, run⟩ := bind_returns.mp run
    obtain ⟨others', cleared, run⟩ := bind_returns.mp run
    rw [← Option.some.inj run, ih cleared, filter_cons]
    cases block.2.le seq with
    | true => rfl
    | false => rfl

/-- The blocks that end above all of some positions. -/
def clearedAt (isn : SequenceNumber32) (stops : List Nat) (blocks : SackList) : SackList :=
  blocks.filter fun block => stops.all fun x => !block.2.le (isn.at x)

/-- The next expected number moves over the spans that continue the stream
without a gap, and their bytes become available. The report is cleared at the end of each. -/
theorem advance_spec (inside : ∀ s ∈ spans, InWindow stream base s)
    (ordered : Ordered nxt spans) (empties : ∀ s ∈ spans, s.length = 0 → s.start = nxt)
    (next : b.nextRxSeq = isn.at nxt) (low : base ≤ nxt) (high : nxt ≤ base + halfMaxValue 32)
    (fits : b.availBytes + total spans < 2 ^ 32)
    (run : advance profile (spans.map (entry isn stream)) b = some b') :
    ∃ (C D : List Span) (nxt' : Nat) (stops : List Nat),
      spans = C ++ D ∧ Tiles nxt C nxt' ∧ Ordered nxt' D ∧
      (∀ s ∈ D, s.start = nxt' ↔ s.length = 0) ∧
      (∀ x ∈ stops, nxt ≤ x ∧ x ≤ nxt') ∧ (nxt < nxt' → nxt' ∈ stops) ∧
      b' = { b with nextRxSeq := isn.at nxt', availBytes := b.availBytes + (nxt' - nxt),
                    sackList := clearedAt isn stops b.sackList } := by
  induction spans generalizing nxt b with
  | nil =>
    rw [map_nil, advance, Option.some.injEq] at run
    exact ⟨[], [], nxt, [], rfl, rfl, trivial, by simp, by simp, by simp,
      by simp [clearedAt, ← next, ← run]⟩
  | cons s rest ih =>
    obtain ⟨sLow, sHigh, sExists⟩ := inside s (by simp)
    have sStop : s.start + s.length = s.stop := rfl
    have notLt : (entry isn stream s).1.lt b.nextRxSeq = decide (s.start < nxt) := by
      rw [next]
      exact lt_at_nat (by omega) (by omega)
    have isGt : (entry isn stream s).1.gt b.nextRxSeq = decide (nxt < s.start) := by
      rw [next]
      exact gt_at_nat (by omega) (by omega)
    have start := ordered.1
    rw [map_cons, advance, notLt, if_neg (by simpa using start), isGt] at run
    rcases Nat.lt_or_eq_of_le start with gap | here
    · rw [if_pos (by simpa using gap), Option.some.injEq] at run
      refine ⟨[], s :: rest, nxt, [], rfl, rfl, ordered, ?_, by simp, by simp,
        by simp [clearedAt, ← next, ← run]⟩
      intro r hr
      have later : nxt < r.start := by
        rcases mem_cons.mp hr with rfl | hr
        · exact gap
        · have := (ordered.tail_mem hr).2
          omega
      constructor
      · intro same
        omega
      · intro empty
        have := empties r hr empty
        omega
    · rw [if_neg (by simp [here])] at run
      simp only [bind_returns] at run
      obtain ⟨sackList, cleared, run⟩ := run
      have cleared := clearSackList_eq cleared
      rw [entry_last sExists] at cleared
      rw [entry_last sExists, entry_length sExists] at run
      have room : UInt32.add b.availBytes s.length = b.availBytes + s.length := by
        rw [total_cons] at fits
        exact UInt32.add_of_lt (by omega)
      rw [room] at run
      have later : ∀ r ∈ rest, nxt < r.start := fun r hr => by
        have := (ordered.tail_mem hr).2
        omega
      have stop : s.stop ≤ max s.stop (s.start + 1) := Nat.le_max_left _ _
      obtain ⟨C, D, nxt', stops, split, tiles, behind, empties', between, reached, eq⟩ :=
        ih (fun r hr => inside r (by simp [hr])) (ordered.2.mono stop)
          (fun r hr empty => by
            have := empties r (by simp [hr]) empty
            have := later r hr
            omega)
          rfl (by omega) sHigh (by rw [total_cons] at fits; simp only; omega) run
      have le := tiles.le
      have both : clearedAt isn stops sackList = clearedAt isn (s.stop :: stops) b.sackList := by
        rw [cleared, clearedAt, clearedAt, List.filter_filter]
        simp [Bool.and_comm]
      have between' : ∀ x ∈ s.stop :: stops, nxt ≤ x ∧ x ≤ nxt' := by
        intro x hx
        rcases mem_cons.mp hx with rfl | hx
        · exact ⟨by omega, le⟩
        · have := between x hx
          exact ⟨by omega, this.2⟩
      by_cases empty : s.length = 0
      · -- An empty entry at the next expected number stays behind it.
        cases C with
        | cons c C =>
          have := later c (by simp [split])
          have := tiles.1
          omega
        | nil =>
          obtain rfl : s.stop = nxt' := tiles
          obtain rfl : rest = D := split
          have same : s.stop = nxt := by omega
          refine ⟨[], s :: rest, nxt, s.stop :: stops, rfl, rfl, ordered, ?_,
            same ▸ between', fun more => absurd more (lt_irrefl nxt), ?_⟩
          · intro r hr
            rcases mem_cons.mp hr with rfl | hr
            · exact ⟨fun _ => empty, fun _ => here.symm⟩
            · rw [← empties' r hr]
              omega
          · rw [eq, both, same]
            simp [empty]
      · have last : nxt' ∈ s.stop :: stops := by
          rcases Nat.lt_or_eq_of_le le with more | same
          · exact mem_cons_of_mem _ (reached more)
          · exact mem_cons.mpr (.inl same.symm)
        refine ⟨s :: C, D, nxt', s.stop :: stops, by rw [split]; rfl,
          ⟨here.symm, by omega, tiles⟩, behind, empties', between', fun _ => last, ?_⟩
        rw [eq, both]
        simp only [TcpRxBuffer.mk.injEq, true_and, and_true]
        omega

variable {B A : List Span}

theorem inWindow_append (tiles : Tiles base B nxt) (ordered : Ordered nxt A)
    (high : nxt ≤ base + halfMaxValue 32) (exists_ : nxt ≤ stream.length)
    (inside : ∀ s ∈ A, s.stop ≤ base + halfMaxValue 32 ∧ s.stop ≤ stream.length) :
    ∀ s ∈ B ++ A, InWindow stream base s := by
  intro s hs
  rcases mem_append.mp hs with hs | hs
  · obtain ⟨low, -, stop⟩ := tiles.mem hs
    exact ⟨low, by omega, by omega⟩
  · have start := ordered.mem hs
    have le := tiles.le
    exact ⟨by omega, inside s hs⟩

/-- The loop of `Extract` takes the next bytes of the stream. -/
theorem extractLoop_spec (profile : BuildProfile) (tiles : Tiles base B nxt)
    (ordered : Ordered nxt A)
    (high : nxt ≤ base + halfMaxValue 32) (exists_ : nxt ≤ stream.length)
    (inside : ∀ s ∈ A, s.stop ≤ base + halfMaxValue 32 ∧ s.stop ≤ stream.length)
    (next : b.nextRxSeq = isn.at nxt) {k : Nat} (enough : base + k ≤ nxt)
    (size : k ≤ b.size) (sizeFits : b.size < 2 ^ 32)
    (avail : k ≤ b.availBytes) (availFits : b.availBytes < 2 ^ 32) (outPkt : Packet) :
    ∃ B' : List Span, Tiles (base + k) B' nxt ∧
      extractLoop profile ((B ++ A).map (entry isn stream)) b k outPkt =
        some ({ b with data := (B' ++ A).map (entry isn stream), size := b.size - k,
                       availBytes := b.availBytes - k },
          outPkt ++ slice stream ⟨base, k⟩) := by
  induction B generalizing base b k outPkt with
  | nil =>
    obtain rfl : base = nxt := tiles
    obtain rfl : k = 0 := by omega
    exact ⟨[], rfl, by cases A <;> simp [extractLoop, slice]⟩
  | cons s rest ih =>
    obtain ⟨start, pos, others⟩ := tiles
    cases k with
    | zero => exact ⟨s :: rest, ⟨start, pos, others⟩, by simp [extractLoop, slice]⟩
    | succ k =>
      have stop : s.start + s.length = s.stop := rfl
      have stopLe := others.le
      have first : (entry isn stream s).1.le b.nextRxSeq = true := by
        have : (entry isn stream s).1.le b.nextRxSeq = decide (s.start ≤ nxt) := by
          rw [next]
          exact le_at_nat (by omega) (by omega)
        simp [this]
        omega
      have length : (entry isn stream s).2.length = s.length := entry_length (by omega)
      rw [cons_append, map_cons, extractLoop, first, nsAssert_true, length]
      simp only [Option.bind_eq_bind, Option.bind_some]
      by_cases whole : s.length ≤ k + 1
      · rw [if_pos whole, UInt32.sub_of_le (by omega) sizeFits,
          UInt32.sub_of_le (by omega) availFits]
        obtain ⟨B', tiles', eq⟩ := ih
          (b := { b with size := b.size - s.length, availBytes := b.availBytes - s.length })
          others (by omega) (fun t ht => by have := inside t ht; omega) next
          (k := k + 1 - s.length) (by omega) (by simp only; omega) (by simp only; omega)
          (by simp only; omega) (by simp only; omega) (outPkt.addAtEnd (entry isn stream s).2)
        have position : s.stop + (k + 1 - s.length) = base + (k + 1) := by omega
        refine ⟨B', position ▸ tiles', ?_⟩
        have bytes : slice stream s ++ slice stream ⟨s.stop, k + 1 - s.length⟩ =
            slice stream ⟨base, k + 1⟩ := by
          have split : k + 1 = s.length + (k + 1 - s.length) := by omega
          rw [split, ← slice_append, ← start, ← split]
          rfl
        have amount : ∀ n, n - s.length - (k + 1 - s.length) = n - (k + 1) := by omega
        rw [eq, ← bytes]
        simp only [Packet.addAtEnd, amount, append_assoc]
        rfl
      · rw [if_neg whole]
        have fits : (entry isn stream s).2.length < 2 ^ 32 := by
          rw [length, halfMaxValue_32] at *
          omega
        rw [Packet.createFragment_of_le (by omega) fits,
          Packet.createFragment_of_le (by omega) fits]
        have cut : (entry isn stream s).1.add (k + 1) = isn.at (base + (k + 1) : Nat) := by
          rw [entry, at_add, start]
          norm_cast
        have above : (isn.at (base + (k + 1) : Nat)).lt (entry isn stream s).1 = false := by
          have : (isn.at (base + (k + 1) : Nat)).lt (entry isn stream s).1 =
              decide (base + (k + 1) < s.start) := lt_at_nat (by omega) (by omega)
          simp only [this, decide_eq_false_iff_not]
          omega
        have below : (entry isn stream s).1.lt (isn.at (base + (k + 1) : Nat)) = true := by
          have : (entry isn stream s).1.lt (isn.at (base + (k + 1) : Nat)) =
              decide (s.start < base + (k + 1)) := lt_at_nat (by omega) (by omega)
          simp only [this, decide_eq_true_eq]
          omega
        have later : ∀ e ∈ (rest ++ A).map (entry isn stream),
            (isn.at (base + (k + 1) : Nat)).lt e.1 = true := by
          intro e he
          obtain ⟨t, ht, rfl⟩ := List.mem_map.mp he
          obtain ⟨-, tHigh, -⟩ := inWindow_append (show Tiles base (s :: rest) nxt from
            ⟨start, pos, others⟩) ordered high exists_ inside t (mem_cons_of_mem s ht)
          have tLow := (Ordered.tiles_append others ordered).mem ht
          have tStop : t.start ≤ t.stop := Nat.le_add_right _ _
          have : (isn.at (base + (k + 1) : Nat)).lt (entry isn stream t).1 =
              decide (base + (k + 1) < t.start) := lt_at_nat (by omega) (by omega)
          simp only [this, decide_eq_true_eq]
          omega
        simp only [Option.bind_some, cut]
        rw [OrderedList.set, if_neg (by rw [above]; exact Bool.false_ne_true), if_pos below,
          OrderedList.set_front later, OrderedList.erase_cons_self,
          UInt32.sub_of_le (by omega) sizeFits, UInt32.sub_of_le (by omega) availFits]
        refine ⟨⟨base + (k + 1), s.length - (k + 1)⟩ :: rest, ⟨rfl, ?_, ?_⟩, ?_⟩
        · simp only
          omega
        · have : base + (k + 1) + (s.length - (k + 1)) = s.stop := by omega
          rw [stop_mk, this]
          exact others
        · -- The first entry now holds the bytes that stay.
          have taken : (entry isn stream s).2.take (k + 1) = slice stream ⟨base, k + 1⟩ := by
            rw [entry, slice_take (by omega), start]
          have left : ((entry isn stream s).2.drop (k + 1)).take (s.length - (k + 1)) =
              slice stream ⟨base + (k + 1), s.length - (k + 1)⟩ := by
            rw [entry, slice_drop, slice_take (by simp), start]
          simp only [drop_zero, taken, left, Packet.addAtEnd]
          rfl

end Loops

/-- The buffer holds the spans `B` in sequence, from the first unread position
`base` to `nxt`, and the spans `A` out of order. Only an empty span may sit at
`nxt` itself. -/
structure Stored (isn : SequenceNumber32) (stream : List Byte) (base nxt : Nat)
    (B A : List Span) (b : TcpRxBuffer) : Prop where
  data : b.data = (B ++ A).map (entry isn stream)
  tiles : Tiles base B nxt
  ordered : Ordered nxt A
  empty : ∀ s ∈ A, s.start = nxt ↔ s.length = 0
  inside : ∀ s ∈ A, s.stop ≤ base + halfMaxValue 32 ∧ s.stop ≤ stream.length
  near : nxt ≤ base + halfMaxValue 32
  received : nxt ≤ stream.length
  next : b.nextRxSeq = isn.at nxt
  size : b.size = total (B ++ A)
  avail : base + b.availBytes = nxt
  noFin : b.gotFin = false

namespace Stored

variable {isn : SequenceNumber32} {stream : List Byte} {base nxt : Nat} {B A : List Span}
variable {b b' : TcpRxBuffer} {profile : BuildProfile}

section

variable (st : Stored isn stream base nxt B A b)
include st

theorem inWindow : ∀ s ∈ B ++ A, InWindow stream base s :=
  inWindow_append st.tiles st.ordered st.near st.received st.inside

theorem ordered_append : Ordered base (B ++ A) :=
  Ordered.tiles_append st.tiles st.ordered

theorem total_le : total (B ++ A) ≤ halfMaxValue 32 := by
  have := st.ordered_append.total_le (fun s hs => (st.inWindow s hs).2.1) (by omega)
  omega

theorem size_lt : b.size < 2 ^ 32 := by
  have := st.total_le
  rw [st.size]
  rw [halfMaxValue_32] at this
  omega

end

theorem start (isn : SequenceNumber32) (stream : List Byte) (maxBuffer : Nat) :
    Stored isn stream 0 0 [] [] { nextRxSeq := isn, maxBuffer } where
  data := rfl
  tiles := rfl
  ordered := trivial
  empty := by simp
  inside := by simp
  near := by omega
  received := by omega
  next := (at_zero isn).symm
  size := rfl
  avail := rfl
  noFin := rfl

/-- `Extract` returns the next bytes of the stream, as many as it can. -/
theorem extract (st : Stored isn stream base nxt B A b) (profile : BuildProfile) (maxSize : Nat) :
    ∃ (B' : List Span) (b' : TcpRxBuffer),
      Stored isn stream (base + min maxSize b.availBytes) nxt B' A b' ∧
      b.extract profile maxSize = some (b', if min maxSize b.availBytes = 0 then none
        else some (slice stream ⟨base, min maxSize b.availBytes⟩)) := by
  have avail := st.avail
  have availLe : b.availBytes ≤ b.size := by
    have := st.tiles.total
    rw [st.size, total_append]
    omega
  have sizeFits := st.size_lt
  obtain ⟨B', tiles, eq⟩ := extractLoop_spec profile st.tiles st.ordered st.near
    st.received st.inside st.next (k := min maxSize b.availBytes) (by omega) (by omega) sizeFits
    (by omega) (by omega) []
  by_cases nothing : min maxSize b.availBytes = 0
  · rw [nothing]
    exact ⟨B, b, st, by simp [TcpRxBuffer.extract, nothing]⟩
  · refine ⟨B', { b with
      data := (B' ++ A).map (entry isn stream)
      size := b.size - min maxSize b.availBytes
      availBytes := b.availBytes - min maxSize b.availBytes }, ?_, ?_⟩
    · exact
        { data := rfl
          tiles := tiles
          ordered := st.ordered
          empty := st.empty
          inside := fun s hs => by have := st.inside s hs; omega
          near := by have := st.near; omega
          received := st.received
          next := st.next
          size := by
            have before := st.tiles.total
            have after := tiles.total
            have size := st.size
            simp only [total_append] at size ⊢
            omega
          avail := by simp only; omega
          noFin := st.noFin }
    · have present : ((B ++ A).map (entry isn stream)).isEmpty = false := by
        rw [isEmpty_eq_false_iff]
        intro none
        have := st.tiles.total
        simp only [map_eq_nil_iff, append_eq_nil_iff] at none
        simp [none.1] at this
        omega
      have bytes : (slice stream ⟨base, min maxSize b.availBytes⟩).length =
          min maxSize b.availBytes := length_slice (by have := st.received; simp; omega)
      have some_ : ¬ (slice stream ⟨base, min maxSize b.availBytes⟩).length = 0 := by omega
      simp only [TcpRxBuffer.extract, nothing, if_false, present, Bool.not_false, nsAssert_true,
        some_bind, st.data, eq, nil_append, some_]
      rfl

end Stored

section Trim

variable {isn : SequenceNumber32} {b : TcpRxBuffer} {i n nxt : Nat}

/-- The head that trimming leaves, where the segment begins close to the next expected byte. -/
theorem newHead_eq (next : b.nextRxSeq = isn.at nxt) (newest : i ≤ nxt + halfMaxValue 32)
    (oldest : nxt ≤ i + halfMaxValue 32) :
    (if (isn.at i).lt b.nextRxSeq then b.nextRxSeq else isn.at i) = isn.at (max i nxt : Nat) := by
  have less : (isn.at i).lt b.nextRxSeq = decide (i < nxt) := by
    rw [next]
    exact lt_at_nat (by omega) (by omega)
  rw [less, next]
  by_cases old : i < nxt
  · simp [old, Nat.max_eq_right old.le]
  · simp [old, Nat.max_eq_left (Nat.not_lt.mp old)]

/-- What is left of a segment after trimming to the window. Either nothing is
left; or the segment ends at or before the next expected byte and its head moved
there; or the tail is at most the segment's own. -/
theorem trimToWindow_cases (next : b.nextRxSeq = isn.at nxt)
    (newest : i + n ≤ nxt + halfMaxValue 32) (oldest : nxt ≤ i + halfMaxValue 32) :
    (b.trimToWindow (isn.at i) (isn.at (i + n : Nat))).1 =
        (b.trimToWindow (isn.at i) (isn.at (i + n : Nat))).2 ∨
      (i + n ≤ nxt ∧ (b.trimToWindow (isn.at i) (isn.at (i + n : Nat))).1 = isn.at nxt) ∨
      (nxt < i + n ∧ ∃ m : Nat, max i nxt ≤ m ∧ m ≤ i + n ∧
        b.trimToWindow (isn.at i) (isn.at (i + n : Nat)) =
          (isn.at (max i nxt : Nat), isn.at m)) := by
  unfold trimToWindow
  rw [newHead_eq next (by omega) (by omega)]
  cases b.data with
  | nil =>
    rcases Nat.lt_or_ge nxt (i + n) with fresh | old
    · exact .inr (.inr ⟨fresh, i + n, by omega, le_rfl, rfl⟩)
    · exact .inr (.inl ⟨old, by rw [Nat.max_eq_right (by omega)]⟩)
  | cons first rest =>
    simp only
    -- The tail that the window leaves: the segment's own, or one just behind it.
    generalize tail : (if (first.1.add b.maxBuffer).lt (isn.at (i + n : Nat)) then
      first.1.add b.maxBuffer else isn.at (i + n : Nat)) = tailSeq
    have behind : ∃ d : Nat, d ≤ halfMaxValue 32 + 1 ∧ tailSeq = isn.at (i + n - d : Int) ∧
        (d = 0 ∨ tailSeq.lt (isn.at (i + n : Nat)) = true) := by
      by_cases cut : (first.1.add b.maxBuffer).lt (isn.at (i + n : Nat)) = true
      · obtain ⟨d, -, dLe, eq⟩ := exists_of_lt cut
        rw [if_pos cut, eq, at_at] at tail
        exact ⟨d, dLe, tail ▸ by congr 1, .inr (tail ▸ at_at isn _ _ ▸ eq ▸ cut)⟩
      · rw [if_neg cut] at tail
        exact ⟨0, by omega, tail ▸ by simp, .inl rfl⟩
    cases dropped : tailSeq.lt (isn.at (max i nxt : Nat)) with
    | true => exact .inl (by simp)
    | false =>
      rcases Nat.lt_or_ge nxt (i + n) with fresh | old
      · obtain ⟨d, dLe, eq, below⟩ := behind
        by_cases kept : max i nxt + d ≤ i + n
        · refine .inr (.inr ⟨fresh, i + n - d, by omega, by omega, ?_⟩)
          have : ((i + n - d : Nat) : Int) = i + n - d := by omega
          simp [eq, this]
        · -- A tail below the head is found to be so.
          refine absurd dropped ?_
          rw [Bool.not_eq_false]
          by_cases same : max i nxt = i + n
          · rcases below with zero | below
            · omega
            · rwa [same]
          · have : tailSeq.lt (isn.at (max i nxt : Nat)) =
                decide ((i + n - d : Int) < (max i nxt : Nat)) := by
              rw [eq]
              exact lt_at (by omega) (by omega)
            rw [this, decide_eq_true_eq]
            omega
      · exact .inr (.inl ⟨old, by simp [Nat.max_eq_right (show i ≤ nxt by omega)]⟩)

end Trim

/-- What `Add` is about to store of the segment at `[i, i + n)`: a span behind
the data in sequence that overlaps none of the spans kept. -/
structure Piece (stream : List Byte) (base nxt i n : Nat) (A : List Span)
    (isn headSeq tailSeq : SequenceNumber32) (profile : BuildProfile) (new : Span) : Prop where
  inWindow : InWindow stream base new
  low : nxt ≤ new.start
  empty : new.length = 0 → new.start = nxt
  apart : ∀ s ∈ A, s.stop ≤ new.start ∨ new.stop ≤ s.start
  head : headSeq = isn.at new.start
  bytes : ∀ piece, Packet.createFragment profile (slice stream ⟨i, n⟩)
    (headSeq.sub (isn.at i)).toNat (tailSeq.sub headSeq).toNat = some piece →
    piece = slice stream new

section Piece

variable {isn : SequenceNumber32} {stream : List Byte} {base nxt i n : Nat} {A : List Span}
variable {profile : BuildProfile}

/-- A part of a segment, cut out of its packet. -/
theorem createFragment_part {h t : Nat} (fits : n < 2 ^ 32) (exists_ : i + n ≤ stream.length)
    (low : i ≤ h) (le : h ≤ t) (high : t ≤ i + n) {piece : Packet}
    (cut : Packet.createFragment profile (slice stream ⟨i, n⟩) ((isn.at h).sub (isn.at i)).toNat
      ((isn.at t).sub (isn.at h)).toNat = some piece) : piece = slice stream ⟨h, t - h⟩ := by
  have first : (((isn.at h).sub (isn.at i)).toNat : Int) = h - i :=
    sub_at_toNat (by omega) (by omega)
  have length : (((isn.at t).sub (isn.at h)).toNat : Int) = t - h :=
    sub_at_toNat (by omega) (by omega)
  have bytes : (slice stream ⟨i, n⟩).length = n := length_slice exists_
  have first : ((isn.at h).sub (isn.at i)).toNat = h - i := by omega
  have length : ((isn.at t).sub (isn.at h)).toNat = t - h := by omega
  rw [first, length, Packet.createFragment_of_le (by omega) (by omega), Option.some.injEq] at cut
  rw [← cut, slice_drop, slice_take (by simp only; omega)]
  congr 2
  simp only
  omega

theorem Piece.of_part {h t : Nat} (fits : n < 2 ^ 32) (exists_ : i + n ≤ stream.length)
    (base_le : base ≤ nxt) (low : max i nxt ≤ h) (part : h < t) (high : t ≤ i + n)
    (near : t ≤ base + halfMaxValue 32) (apart : ∀ s ∈ A, s.stop ≤ h ∨ t ≤ s.start) :
    Piece stream base nxt i n A isn (isn.at h) (isn.at t) profile ⟨h, t - h⟩ := by
  have stop : h + (t - h) = t := by omega
  exact
    { inWindow := ⟨by simp only; omega, by rw [stop_mk]; omega, by rw [stop_mk]; omega⟩
      low := by simp only; omega
      empty := by simp only; omega
      apart := fun s hs => by simpa only [stop_mk, stop] using apart s hs
      head := rfl
      bytes := fun piece cut => createFragment_part fits exists_ (by omega) part.le high cut }

end Piece

namespace Stored

variable {isn : SequenceNumber32} {stream : List Byte} {base nxt i n : Nat} {B A : List Span}
variable {b b' : TcpRxBuffer} {profile : BuildProfile}

section

variable (st : Stored isn stream base nxt B A b)
include st

/-- Leaving out-of-order spans out of the buffer. -/
theorem sublist {A' : List Span} (sub : A'.Sublist A)
    (data : b'.data = (B ++ A').map (entry isn stream)) (size : b'.size = total (B ++ A'))
    (next : b'.nextRxSeq = b.nextRxSeq) (avail : b'.availBytes = b.availBytes)
    (noFin : b'.gotFin = b.gotFin) : Stored isn stream base nxt B A' b' where
  data := data
  tiles := st.tiles
  ordered := st.ordered.sublist sub
  empty s hs := st.empty s (sub.subset hs)
  inside s hs := st.inside s (sub.subset hs)
  near := st.near
  received := st.received
  next := next.trans st.next
  size := size
  avail := avail ▸ st.avail
  noFin := noFin.trans st.noFin

/-- After the overlap loop. -/
theorem overlapped {A' : List Span} {o : Overlap}
    (sub : A'.Sublist A) (data : (removeOverlap b.data o).1 = (B ++ A').map (entry isn stream))
    (size : o.size = b.size) : Stored isn stream base nxt B A'
      { b with data := (removeOverlap b.data o).1, size := (removeOverlap b.data o).2.size } := by
  have before : o.size = 0 + occupancy b.data := by
    rw [size, st.data, occupancy_map fun s hs => (st.inWindow s hs).2.2]
    exact st.size.trans (Nat.zero_add _).symm
  have after := removeOverlap_size b.data o before (size ▸ st.size_lt)
  have insideKept : ∀ s ∈ B ++ A', s.stop ≤ stream.length := fun s hs =>
    (st.inWindow s ((List.Sublist.append_left sub B).subset hs)).2.2
  rw [data, occupancy_map insideKept, Nat.zero_add] at after
  exact st.sublist sub data after rfl rfl rfl

theorem front_below {h : Nat} (low : nxt ≤ h)
    (high : h ≤ base + halfMaxValue 32) :
    ∀ e ∈ B.map (entry isn stream), (e.1.add e.2.length).gt (isn.at h) = false := by
  intro e he
  obtain ⟨s, hs, rfl⟩ := List.mem_map.mp he
  obtain ⟨sLow, -, sStop⟩ := st.tiles.mem hs
  have received := st.received
  have start : s.start ≤ s.stop := Nat.le_add_right _ _
  rw [entry_last (by omega)]
  have : (isn.at s.stop).gt (isn.at h) = decide (h < s.stop) := gt_at_nat (by omega) (by omega)
  simp only [this, decide_eq_false_iff_not]
  omega

/-- The overlap loop on a segment that ends at or below `nxt`. -/
theorem overlap_old (o : Overlap)
    (head : o.headSeq = isn.at nxt) :
    ∃ A' : List Span, A'.Sublist A ∧
      (removeOverlap b.data o).1 = (B ++ A').map (entry isn stream) ∧
      (removeOverlap b.data o).2.headSeq = isn.at nxt := by
  have below := st.front_below (le_refl nxt) st.near
  rw [← head] at below
  rw [st.data, map_append]
  rcases removeOverlap_front below (A.map (entry isn stream)) with ⟨-, stop⟩ | past
  · exact ⟨A, List.Sublist.refl A, by rw [stop, map_append], by rw [stop, head]⟩
  · obtain ⟨A', sub, eq⟩ :=
      sublist_map_iff.mp (removeOverlap_sublist (A.map (entry isn stream)) o)
    refine ⟨A', sub, by rw [past, map_append, eq], ?_⟩
    rw [past, ← head]
    refine removeOverlap_headSeq ?_
    intro e he last
    obtain ⟨s, hs, rfl⟩ := List.mem_map.mp he
    have start := st.ordered.mem hs
    have inside := st.inside s hs
    have atNext := st.empty s hs
    have stop : s.start + s.length = s.stop := rfl
    have low := st.tiles.le
    rw [head, entry_last inside.2] at last
    have isLast : (isn.at s.stop).gt (isn.at nxt) = decide (nxt < s.stop) :=
      gt_at_nat (by omega) (by omega)
    have isFirst : (entry isn stream s).1.gt (isn.at nxt) = decide (nxt < s.start) :=
      gt_at_nat (by omega) (by omega)
    rw [isLast, decide_eq_true_eq] at last
    rw [head, isFirst, decide_eq_true_eq]
    omega

/-- The overlap loop on a segment whose tail lies behind `nxt`. -/
theorem overlap_window {h t : Nat} (o : Overlap)
    (head : o.headSeq = isn.at h) (tail : o.tailSeq = isn.at t) (low : nxt ≤ h) (le : h ≤ t)
    (high : t ≤ base + halfMaxValue 32) :
    ∃ (A' : List Span) (h' t' : Nat), A'.Sublist A ∧
      (removeOverlap b.data o).1 = (B ++ A').map (entry isn stream) ∧
      (removeOverlap b.data o).2.headSeq = isn.at h' ∧
      (removeOverlap b.data o).2.tailSeq = isn.at t' ∧
      h ≤ h' ∧ h' ≤ base + halfMaxValue 32 ∧ t' ≤ t ∧ base ≤ t' ∧
      ∀ s ∈ A', s.stop ≤ h' ∨ t' ≤ s.start := by
  have base_le := st.tiles.le
  have below := st.front_below low (by omega)
  rw [← head] at below
  rw [st.data, map_append]
  rcases removeOverlap_front below (A.map (entry isn stream)) with ⟨⟨e, he, gt⟩, -⟩ | past
  · obtain ⟨s, hs, rfl⟩ := List.mem_map.mp he
    obtain ⟨sLow, pos, sStop⟩ := st.tiles.mem hs
    have stop : s.start + s.length = s.stop := rfl
    have : (entry isn stream s).1.le (isn.at t) = decide (s.start ≤ t) :=
      le_at_nat (by omega) (by omega)
    rw [tail, this, decide_eq_false_iff_not] at gt
    omega
  · obtain ⟨h', t', A', eh, et, ek, left⟩ := removeOverlap_window
      (fun s hs => st.inWindow s (mem_append_right B hs)) st.ordered o head tail
      (by omega) (by omega) (by omega) high
    exact ⟨A', h', t', left.sublist, by rw [past, map_append, ek], by rw [past, eh],
      by rw [past, et], left.head.1, left.head.2, left.tail.1, left.tail.2, left.apart⟩

end

end Stored

/-- The report after the block `[head, tail)` was stored, before it is cleared. -/
def reported (profile : BuildProfile) (b : TcpRxBuffer) (head tail : SequenceNumber32) :
    Option SackList :=
  if head.gt b.nextRxSeq then (b.updateSackList profile head tail).map sackList
  else some b.sackList

/-- Updating the report of out-of-order blocks changes no other field. -/
theorem reported_of_sacked {profile : BuildProfile} {b b' : TcpRxBuffer}
    {head tail : SequenceNumber32} {data : List (SequenceNumber32 × Packet)}
    (run : (if head.gt b.nextRxSeq then updateSackList profile { b with data } head tail
      else some { b with data }) = some b') :
    b.reported profile head tail = some b'.sackList ∧
      b' = { b with data, sackList := b'.sackList } := by
  rw [reported]
  split at run
  · next above =>
      rw [if_pos above]
      simp only [updateSackList, bind_returns] at run ⊢
      obtain ⟨_, asserted, blocks, merged, eq⟩ := run
      cases eq
      exact ⟨by simp [asserted, merged], rfl⟩
  · next notAbove =>
      rw [if_neg notAbove]
      cases run
      exact ⟨rfl, rfl⟩

/-- What storing a piece changes: the bytes of the piece are held, too, and the report names it
when it is out of order. -/
structure Stores (profile : BuildProfile) (isn : SequenceNumber32) (b b' : TcpRxBuffer)
    (nxt nxt' : Nat) (held held' : List Span) (new : Span)
    (headSeq tailSeq : SequenceNumber32) : Prop where
  le : nxt ≤ nxt'
  covers : ∀ x, Covers held' x ↔ Covers held x ∨ (new.start ≤ x ∧ x < new.stop)
  mem : ∀ s ∈ held', s = new ∨ s ∈ held
  report : ∃ (blocks : SackList) (stops : List Nat),
    b.reported profile headSeq tailSeq = some blocks ∧
    (∀ x ∈ stops, nxt ≤ x ∧ x ≤ nxt') ∧ (nxt < nxt' → nxt' ∈ stops) ∧
    b'.sackList = clearedAt isn stops blocks
  maxBuffer : b'.maxBuffer = b.maxBuffer

namespace Stored

variable {isn : SequenceNumber32} {stream : List Byte} {base nxt i n : Nat} {B A : List Span}
variable {b b' : TcpRxBuffer}

section

variable (st : Stored isn stream base nxt B A b)
include st

/-- After trimming and the overlap loop the buffer still holds spans of the
stream, and what is left of the segment, if anything, is a piece to store. -/
theorem overlap (profile : BuildProfile)
    (exists_ : i + n ≤ stream.length) (newest : i + n ≤ base + halfMaxValue 32)
    (oldest : nxt ≤ i + halfMaxValue 32) (o : Overlap)
    (trim : b.trimToWindow (isn.at i) (isn.at (i + n : Nat)) = (o.headSeq, o.tailSeq)) :
    ∃ A' : List Span, A'.Sublist A ∧
      (removeOverlap b.data o).1 = (B ++ A').map (entry isn stream) ∧
      ((removeOverlap b.data o).2.headSeq.ge (removeOverlap b.data o).2.tailSeq = true ∨
        ∃ new, Piece stream base nxt i n A' isn (removeOverlap b.data o).2.headSeq
          (removeOverlap b.data o).2.tailSeq profile new) := by
  have base_le := st.tiles.le
  have near := st.near
  have received := st.received
  have cases_ := trimToWindow_cases (n := n) st.next (by omega) oldest
  rw [trim] at cases_
  obtain same | ⟨old, head⟩ | ⟨fresh, m, low, high, both⟩ := cases_
  · obtain ⟨kept, nothing⟩ := removeOverlap_empty st.inWindow st.ordered_append o same
    rw [← st.data] at kept nothing
    exact ⟨A, List.Sublist.refl A, kept.trans st.data, .inl nothing⟩
  · obtain ⟨A', sub, data, head'⟩ := st.overlap_old o head
    refine ⟨A', sub, data, .inr ⟨⟨nxt, 0⟩, ?_⟩⟩
    exact
      { inWindow := ⟨base_le, by simpa using near, by simpa using received⟩
        low := le_refl nxt
        empty := fun _ => rfl
        apart := fun s hs => .inr (st.ordered.mem (sub.subset hs))
        head := head'
        bytes := by
          -- The segment has no byte at `nxt` or behind it, so the fragment is empty.
          intro piece cut
          have distance : ((isn.at nxt).sub (isn.at i)).toNat = nxt - i := by
            have : (((isn.at nxt).sub (isn.at i)).toNat : Int) = nxt - i :=
              sub_at_toNat (by omega) (by rw [halfMaxValue_32] at oldest; omega)
            omega
          have bytes : (slice stream ⟨i, n⟩).length = n := length_slice exists_
          rw [head', distance] at cut
          simp only [Packet.createFragment, bind_returns] at cut
          obtain ⟨-, -, eq⟩ := cut
          rw [← Option.some.inj eq, Packet.fragmentBytes_of_length_le (by omega)]
          simp [slice] }
  · obtain ⟨head, tail⟩ := Prod.mk.inj both
    obtain ⟨A', h, t, sub, data, head', tail', hLow, hHigh, tHigh, tLow, apart⟩ :=
      st.overlap_window o head tail (by omega) low (by omega)
    refine ⟨A', sub, data, ?_⟩
    rcases Nat.lt_or_ge h t with some_ | nothing
    · exact .inr ⟨⟨h, t - h⟩, head' ▸ tail' ▸ .of_part (by rw [halfMaxValue_32] at *; omega) exists_
        base_le (by omega) some_ (by omega) (by omega) apart⟩
    · left
      have : (isn.at h).ge (isn.at t) = decide (t ≤ h) := ge_at_nat (by omega) (by omega)
      simp [head', tail', this, nothing]

/-- Storing a piece and advancing over what is now in sequence. -/
theorem store {profile : BuildProfile} {new : Span}
    {headSeq tailSeq : SequenceNumber32}
    (piece : Piece stream base nxt i n A isn headSeq tailSeq profile new)
    (run : b.store profile (slice stream ⟨i, n⟩) (isn.at i) headSeq tailSeq = some b') :
    ∃ (nxt' : Nat) (B' A' : List Span), Stored isn stream base nxt' B' A' b' ∧
      Stores profile isn b b' nxt nxt' (B ++ A) (B' ++ A') new headSeq tailSeq := by
  simp only [TcpRxBuffer.store, bind_returns] at run
  obtain ⟨bytes, cut, -, -, -, -, b₁, sacked, b₂, advanced, eq⟩ := run
  obtain rfl := piece.bytes bytes cut
  obtain ⟨_, newHigh, newExists⟩ := piece.inWindow
  have low := piece.low
  have newStop : new.start + new.length = new.stop := rfl
  obtain ⟨report, frame⟩ := reported_of_sacked sacked
  generalize b₁.sackList = sackList at report frame
  obtain rfl := frame
  have near := st.near
  have avail := st.avail
  -- The new span lies behind the data in sequence.
  have front : ∀ e ∈ B.map (entry isn stream), e.1.lt (isn.at new.start) = true ∧
      (isn.at new.start).lt e.1 = false ∧ e.1.lt (isn.at nxt) = true := by
    intro e he
    obtain ⟨s, hs, rfl⟩ := List.mem_map.mp he
    obtain ⟨sLow, pos, sStop⟩ := st.tiles.mem hs
    have stop : s.start + s.length = s.stop := rfl
    have below : (entry isn stream s).1.lt (isn.at new.start) = decide (s.start < new.start) :=
      lt_at_nat (by omega) (by omega)
    have above : (isn.at new.start).lt (entry isn stream s).1 = decide (new.start < s.start) :=
      lt_at_nat (by omega) (by omega)
    have next : (entry isn stream s).1.lt (isn.at nxt) = decide (s.start < nxt) :=
      lt_at_nat (by omega) (by omega)
    simp only [below, above, next, decide_eq_true_eq, decide_eq_false_iff_not]
    omega
  have replaced : ∀ s ∈ A, s.start = new.start → s.length = 0 := by
    intro s hs same
    have stop : s.start + s.length = s.stop := rfl
    have atNext := st.empty s hs
    have empty := piece.empty
    rcases piece.apart s hs with before | behind
    · omega
    · exact atNext.mp (same.trans (empty (by omega)))
  obtain ⟨A₁, set, ordered, mem, present, kept, total⟩ := set_entry isn
    (fun s hs => st.inWindow s (mem_append_right B hs)) st.ordered piece.inWindow low
    piece.apart replaced
  have data : OrderedList.set SequenceNumber.lt headSeq (slice stream new) b.data =
      (B ++ A₁).map (entry isn stream) := by
    rw [st.data, map_append, piece.head, OrderedList.set_append (fun e he => (front e he).1)
      (fun e he => (front e he).2.1), set, map_append]
  have inside : ∀ s ∈ A₁, InWindow stream base s := by
    intro s hs
    rcases mem s hs with rfl | ⟨old, -⟩
    · exact piece.inWindow
    · exact st.inWindow s (mem_append_right B old)
  have empties : ∀ s ∈ A₁, s.length = 0 → s.start = nxt := by
    intro s hs empty
    rcases mem s hs with rfl | ⟨old, -⟩
    · exact piece.empty empty
    · exact (st.empty s old).mpr empty
  have totalLe := ordered.total_le (fun s hs => (inside s hs).2.1) near
  simp only [data, length_slice newExists] at advanced
  rw [map_append, advance_front (fun e he => by rw [st.next]; exact (front e he).2.2)]
    at advanced
  obtain ⟨C, D, nxt', stops, split, tiles, behind, empty', between, reached, eq'⟩ :=
    advance_spec (b := { b with
        data := (B ++ A₁).map (entry isn stream), size := UInt32.add b.size new.length, sackList })
      inside ordered empties st.next st.tiles.le near
      (by rw [halfMaxValue_32] at *; simp only; omega) (by simpa using advanced)
  have bound := tiles.le_of_forall near fun s hs => (inside s (by simp [split, hs])).2.1
  have received := tiles.le_of_forall st.received
    fun s hs => (inside s (by simp [split, hs])).2.2
  have le := tiles.le
  have sizes := st.total_le
  have covers : ∀ x, Covers (B ++ C ++ D) x ↔
      Covers (B ++ A) x ∨ (new.start ≤ x ∧ x < new.stop) := by
    intro x
    rw [append_assoc, ← split, covers_append, covers_append, or_assoc]
    refine or_congr_right ⟨?_, ?_⟩
    · rintro ⟨s, hs, here⟩
      rcases mem s hs with rfl | ⟨old, -⟩
      · exact .inr here
      · exact .inl ⟨s, old, here⟩
    · rintro (⟨s, hs, here⟩ | here)
      · rcases kept s hs with still | empty
        · exact ⟨s, still, here⟩
        · have stop : s.start + s.length = s.stop := rfl
          omega
      · exact ⟨new, present, here⟩
  rw [eq', Option.pure_def, Option.some.injEq] at eq
  refine ⟨nxt', B ++ C, D, ?_,
    { le := le
      covers := covers
      mem := by
        intro s hs
        rw [append_assoc, ← split] at hs
        rcases mem_append.mp hs with hs | hs
        · exact .inr (mem_append_left A hs)
        · rcases mem s hs with rfl | ⟨old, -⟩
          · exact .inl rfl
          · exact .inr (mem_append_right B old)
      report := ⟨sackList, stops, report, between, reached, by rw [← eq]⟩
      maxBuffer := by rw [← eq] }⟩
  exact
    { data := by rw [← eq, split, append_assoc]
      tiles := st.tiles.append tiles
      ordered := behind
      empty := empty'
      inside := fun s hs => (inside s (by simp [split, hs])).2
      near := bound
      received := received
      next := by simp [← eq, st.noFin]
      size := by
        rw [← eq, append_assoc, ← split, total_append, total]
        simp only [st.size]
        rw [total_append] at *
        rw [UInt32.add_of_lt (by rw [halfMaxValue_32] at *; omega)]
        omega
      avail := by rw [← eq]; simp only; omega
      noFin := by rw [← eq]; exact st.noFin }

/-- `Add` of a slice of the stream keeps the buffer a store of the stream. -/
theorem add {profile : BuildProfile} {added : Bool}
    (exists_ : i + n ≤ stream.length) (newest : i + n ≤ base + halfMaxValue 32)
    (oldest : nxt ≤ i + halfMaxValue 32)
    (run : b.add profile (slice stream ⟨i, n⟩) (isn.at i) = some (added, b')) :
    ∃ (nxt' : Nat) (B' A' : List Span), Stored isn stream base nxt' B' A' b' := by
  have bytes : (slice stream ⟨i, n⟩).length = n := length_slice exists_
  have tail : (isn.at i).add n = isn.at (i + n : Nat) := at_add isn i n
  rw [TcpRxBuffer.add, bytes, tail] at run
  generalize overlap : Overlap.mk (b.trimToWindow (isn.at i) (isn.at (i + n : Nat))).1
    (b.trimToWindow (isn.at i) (isn.at (i + n : Nat))).2 b.size = o at run
  have trim : b.trimToWindow (isn.at i) (isn.at (i + n : Nat)) = (o.headSeq, o.tailSeq) := by
    rw [← overlap]
  simp only at run
  obtain ⟨A', sub, data, rest⟩ := st.overlap profile exists_ newest oldest o trim
  have kept := st.overlapped sub data (overlap ▸ rfl)
  split at run
  · simp only [Option.some.injEq, Prod.mk.injEq] at run
    exact ⟨nxt, B, A', run.2 ▸ kept⟩
  · rcases rest with nothing | ⟨new, piece⟩
    · contradiction
    · simp only [bind_returns, pure_returns, Prod.mk.injEq] at run
      obtain ⟨b₁, stored, -, rfl⟩ := run
      obtain ⟨nxt', B', A'', st', -⟩ := kept.store piece stored
      exact ⟨nxt', B', A'', st'⟩

end

end Stored

end Ns3.TcpRxBuffer
