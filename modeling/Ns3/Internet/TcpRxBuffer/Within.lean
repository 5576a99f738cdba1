import Ns3.Internet.TcpRxBuffer.Blank

/-!
# `Add` inside a window

When half the sequence space covers all numbers that `Add` compares, its comparisons are those
of the positions: the segment is trimmed to the window as it should be, exactly the bytes that
are new are stored, and no byte is lost.
-/

namespace Ns3.TcpRxBuffer

open SequenceNumber Span

/-- The end of the segment `[i, i + n)` after trimming. Only what is held limits it. -/
def trimmedTail (held : List Span) (maxBuffer i n : Nat) : Nat :=
  match held with
  | [] => i + n
  | s :: _ => min (i + n) (s.start + maxBuffer)

/-- Its begin after trimming. -/
def trimmedHead (held : List Span) (maxBuffer nxt i n : Nat) : Nat :=
  match held with
  | [] => max i nxt
  | _ :: _ => min (max i nxt) (trimmedTail held maxBuffer i n)

theorem trimmedTail_le (held : List Span) (maxBuffer i n : Nat) :
    trimmedTail held maxBuffer i n ≤ i + n := by
  cases held with
  | nil => exact le_rfl
  | cons s rest => exact Nat.min_le_left _ _

theorem trimmedTail_le_limit {held : List Span} {s : Span} (head : s ∈ held.head?)
    (maxBuffer i n : Nat) : trimmedTail held maxBuffer i n ≤ s.start + maxBuffer := by
  cases held with
  | nil => cases head
  | cons r rest =>
    obtain rfl : r = s := Option.some.inj head
    exact Nat.min_le_right _ _

theorem le_trimmedHead (held : List Span) (maxBuffer nxt i n : Nat) :
    min i (trimmedTail held maxBuffer i n) ≤ trimmedHead held maxBuffer nxt i n := by
  cases held with
  | nil =>
    simp only [trimmedHead]
    omega
  | cons s rest =>
    simp only [trimmedHead]
    omega

/-- From `lo` on, half the sequence space covers the segment, what is held, the next expected
byte and the limit of the window. -/
structure Comparable (lo base nxt maxBuffer i n : Nat) (held : List Span) : Prop where
  low : lo ≤ i ∧ lo ≤ base
  segment : i + n ≤ lo + halfMaxValue 32
  spans : ∀ s ∈ held, s.stop ≤ lo + halfMaxValue 32
  next : nxt ≤ lo + halfMaxValue 32
  limit : ∀ s ∈ held.head?, s.start + maxBuffer ≤ lo + halfMaxValue 32

section Add

variable {isn : SequenceNumber32} {stream : List Byte} {lo base nxt i n : Nat} {B A : List Span}
variable {b b' : TcpRxBuffer} {profile : BuildProfile}

/-- Trimming inside a window, whatever the next expected number is. -/
theorem trimToWindow_at (next_ : b.nextRxSeq = isn.at nxt)
    (data : b.data = (B ++ A).map (entry isn stream)) (ordered : Ordered base (B ++ A))
    (base_le : base ≤ nxt) (near : Comparable lo base nxt b.maxBuffer i n (B ++ A)) :
    b.trimToWindow (isn.at i) (isn.at (i + n : Nat)) =
      (isn.at (trimmedHead (B ++ A) b.maxBuffer nxt i n),
        isn.at (trimmedTail (B ++ A) b.maxBuffer i n)) := by
  have low := near.low
  have segment := near.segment
  have next := near.next
  have limit := near.limit
  unfold trimToWindow
  rw [newHead_eq next_ (by omega) (by omega), data]
  cases held : B ++ A with
  | nil => rfl
  | cons s rest =>
    rw [held] at ordered limit
    have start := ordered.1
    have limit := limit s rfl
    have window : (entry isn stream s).1.add b.maxBuffer = isn.at (s.start + b.maxBuffer : Nat) :=
      at_add isn s.start b.maxBuffer
    have cut : (isn.at (s.start + b.maxBuffer : Nat)).lt (isn.at (i + n : Nat)) =
        decide (s.start + b.maxBuffer < i + n) := lt_at_nat (by omega) (by omega)
    have tail : (if (isn.at (s.start + b.maxBuffer : Nat)).lt (isn.at (i + n : Nat)) then
        isn.at (s.start + b.maxBuffer : Nat) else isn.at (i + n : Nat)) =
        isn.at (min (i + n) (s.start + b.maxBuffer) : Nat) := by
      rw [cut]
      by_cases cuts : s.start + b.maxBuffer < i + n
      · simp [cuts, Nat.min_eq_right cuts.le]
      · simp [cuts, Nat.min_eq_left (Nat.not_lt.mp cuts)]
    simp only [List.map_cons, window, tail, trimmedHead, trimmedTail]
    have dropped : (isn.at (min (i + n) (s.start + b.maxBuffer) : Nat)).lt
        (isn.at (max i nxt : Nat)) =
        decide (min (i + n) (s.start + b.maxBuffer) < max i nxt) :=
      lt_at_nat (by omega) (by omega)
    rw [dropped]
    by_cases under : min (i + n) (s.start + b.maxBuffer) < max i nxt
    · simp [under, Nat.min_eq_right under.le]
    · simp [under, Nat.min_eq_left (Nat.not_lt.mp under)]

theorem trimToWindow_within (st : Stored isn stream base nxt B A b)
    (near : Comparable lo base nxt b.maxBuffer i n (B ++ A)) :
    b.trimToWindow (isn.at i) (isn.at (i + n : Nat)) =
      (isn.at (trimmedHead (B ++ A) b.maxBuffer nxt i n),
        isn.at (trimmedTail (B ++ A) b.maxBuffer i n)) :=
  trimToWindow_at st.next st.data st.ordered_append st.tiles.le near

theorem tiles_nodup (tiles : Tiles base B nxt) : B.Nodup := by
  induction B generalizing base with
  | nil => exact List.nodup_nil
  | cons s rest ih =>
    obtain ⟨-, pos, others⟩ := tiles
    refine List.nodup_cons.mpr ⟨fun member => ?_, ih others⟩
    have later := (others.mem member).1
    have stop : s.start + s.length = s.stop := rfl
    omega

/-- Leaving out spans, but no tile, leaves out spans behind the tiles. -/
theorem keeps_tiles {kept : List Span} (tiles : Tiles base B nxt)
    (ordered : Ordered nxt A) (sub : kept.Sublist (B ++ A))
    (stays : ∀ s ∈ B, s ∈ kept) :
    ∃ A', A'.Sublist A ∧ kept = B ++ A' := by
  obtain ⟨B', A', rfl, subB, subA⟩ := List.sublist_append_iff.mp sub
  refine ⟨A', subA, ?_⟩
  have inside : B ⊆ B' := by
    intro s hs
    rcases List.mem_append.mp (stays s hs) with here | behind
    · exact here
    · have low := ordered.mem (subA.subset behind)
      obtain ⟨-, pos, high⟩ := tiles.mem hs
      have stop : s.start + s.length = s.stop := rfl
      omega
  have length : B.length ≤ B'.length :=
    (List.subperm_of_subset (tiles_nodup tiles) inside).length_le
  rw [subB.eq_of_length_le length]

theorem reported_with (data : List (SequenceNumber32 × Packet)) (size : Nat)
    (head tail : SequenceNumber32) :
    reported profile { b with data, size } head tail = reported profile b head tail := by
  rw [reported, reported, updateSackList, updateSackList]
  split
  · simp only [Option.bind_eq_bind]
    cases nsAssert profile (head.gt b.nextRxSeq) with
    | none => rfl
    | some _ =>
      cases mergeBlocks profile b.sackList.length (head, tail) b.sackList with
      | none => rfl
      | some blocks => rfl
  · rfl

/-- `Add` found nothing to store. -/
structure AddedNothing (b b' : TcpRxBuffer) (held held' : List Span) : Prop where
  covers : ∀ x, Covers held' x ↔ Covers held x
  mem : ∀ s ∈ held', s ∈ held
  nextRxSeq : b'.nextRxSeq = b.nextRxSeq
  sackList : b'.sackList = b.sackList
  maxBuffer : b'.maxBuffer = b.maxBuffer

/-- `Add` has stored the part `[h, t)` of the segment, which was not held, in place of the spans
inside it. -/
structure AddedPart (profile : BuildProfile) (isn : SequenceNumber32) (b b' : TcpRxBuffer)
    (lo base nxt nxt' i n : Nat) (held held' : List Span) (h t : Nat) : Prop where
  low : nxt ≤ h
  part : h < t
  uncovered : ∃ kept, Uncovered lo base (trimmedHead held b.maxBuffer nxt i n)
      (trimmedTail held b.maxBuffer i n) held kept h t ∧
    Stores profile isn b b' nxt nxt' kept held' ⟨h, t - h⟩ (isn.at h) (isn.at t)

theorem Uncovered.stays {h t h' t' : Nat} {spans kept : List Span} {s : Span}
    (left : Uncovered lo base h t spans kept h' t') (hs : s ∈ spans)
    (low : s.start ≤ h' ∨ t' < s.stop) : s ∈ kept := by
  rcases left.erased s hs with kept | ⟨above, below, -⟩
  · exact kept
  · omega

/-- `Add` of a slice of the stream inside the window. -/
theorem Stored.add_within (st : Stored isn stream base nxt B A b) {added : Bool}
    (near : Comparable lo base nxt b.maxBuffer i n (B ++ A)) (exists_ : i + n ≤ stream.length)
    (run : b.add profile (slice stream ⟨i, n⟩) (isn.at i) = some (added, b')) :
    ∃ (nxt' : Nat) (B' A' : List Span), Stored isn stream base nxt' B' A' b' ∧
      ((nxt' = nxt ∧ AddedNothing b b' (B ++ A) (B' ++ A')) ∨
        ∃ h t, AddedPart profile isn b b' lo base nxt nxt' i n (B ++ A) (B' ++ A') h t) := by
  have half := halfMaxValue_32
  have low := near.low
  have segment := near.segment
  have ordered := st.ordered_append
  have base_le := st.tiles.le
  have bytes : (slice stream ⟨i, n⟩).length = n := length_slice exists_
  have tail : (isn.at i).add n = isn.at (i + n : Nat) := at_add isn i n
  have inside : ∀ s ∈ B ++ A, InWindow stream lo s := by
    intro s hs
    obtain ⟨sLow, -, sExists⟩ := st.inWindow s hs
    exact ⟨by omega, near.spans s hs, sExists⟩
  rw [TcpRxBuffer.add, bytes, tail, trimToWindow_within st near] at run
  simp only at run
  generalize o_ : Overlap.mk (isn.at (trimmedHead (B ++ A) b.maxBuffer nxt i n : Nat))
    (isn.at (trimmedTail (B ++ A) b.maxBuffer i n : Nat)) b.size = o at run
  have bounds : lo ≤ trimmedHead (B ++ A) b.maxBuffer nxt i n ∧
      trimmedHead (B ++ A) b.maxBuffer nxt i n ≤ lo + halfMaxValue 32 ∧
      lo ≤ trimmedTail (B ++ A) b.maxBuffer i n ∧
      trimmedTail (B ++ A) b.maxBuffer i n ≤ i + n ∧
      (trimmedHead (B ++ A) b.maxBuffer nxt i n < trimmedTail (B ++ A) b.maxBuffer i n →
        trimmedHead (B ++ A) b.maxBuffer nxt i n = max i nxt) := by
    have next := near.next
    cases held : B ++ A with
    | nil =>
      simp only [trimmedHead, trimmedTail]
      exact ⟨by omega, by omega, by omega, le_rfl, fun _ => trivial⟩
    | cons s rest =>
      rw [held] at ordered
      have start := ordered.1
      simp only [trimmedHead, trimmedTail]
      exact ⟨by omega, by omega, by omega, Nat.min_le_left _ _, fun less => by omega⟩
  obtain ⟨headLow, headHigh, tailLow, tailHigh, headExact⟩ := bounds
  obtain ⟨h', t', kept, head', tail', data', left⟩ := removeOverlap_window inside ordered o
    (by rw [← o_]) (by rw [← o_]) headLow headHigh tailLow (by omega)
  rw [← st.data] at head' tail' data'
  have noEarlier := left.head.1
  have noLater := left.tail.1
  -- A tile goes only when the segment begins in front of it, which the trimming excludes.
  have stays : ∀ s ∈ B, s ∈ kept := by
    intro s hs
    obtain ⟨-, pos, high⟩ := st.tiles.mem hs
    have stop : s.start + s.length = s.stop := rfl
    rcases left.erased s (List.mem_append_left A hs) with kept | ⟨above, below, -⟩
    · exact kept
    · omega
  obtain ⟨A', sub, rfl⟩ := keeps_tiles st.tiles st.ordered left.sublist stays
  have keptStored := st.overlapped sub data' (o_ ▸ rfl)
  have ge : (isn.at h').ge (isn.at t') = decide (t' ≤ h') := by
    have := left.head.2
    have := left.tail.2
    exact ge_at_nat (by omega) (by omega)
  rw [head', tail', ge] at run
  by_cases nothing : t' ≤ h'
  · rw [if_pos (decide_eq_true nothing), Option.some.injEq, Prod.mk.injEq] at run
    refine ⟨nxt, B, A', run.2 ▸ keptStored, .inl ⟨rfl, ?_⟩⟩
    obtain ⟨-, rfl⟩ := run
    exact
      { covers := by
          intro x
          constructor
          · rintro ⟨s, hs, here⟩
            exact ⟨s, left.sublist.subset hs, here⟩
          · rintro ⟨s, hs, here⟩
            refine ⟨s, left.stays hs ?_, here⟩
            omega
        mem := fun s hs => left.sublist.subset hs
        nextRxSeq := rfl
        sackList := rfl
        maxBuffer := rfl }
  · rw [if_neg (by simpa using nothing)] at run
    simp only [bind_returns, pure_returns, Prod.mk.injEq] at run
    obtain ⟨b₁, stored, -, rfl⟩ := run
    have piece : Piece stream base nxt i n A' isn (isn.at h') (isn.at t') profile ⟨h', t' - h'⟩ :=
      .of_part (by omega) exists_ base_le (by omega) (by omega) (by omega) (by omega)
        fun s hs => left.apart s (List.mem_append_right B hs)
    obtain ⟨nxt', B', A'', st', stores⟩ := keptStored.store piece stored
    refine ⟨nxt', B', A'', st', .inr ⟨h', t', ?_⟩⟩
    exact
      { low := by omega
        part := by omega
        uncovered := ⟨B ++ A', left,
          { le := stores.le
            covers := stores.covers
            mem := stores.mem
            report := by
              have report := stores.report
              rwa [reported_with] at report
            maxBuffer := stores.maxBuffer }⟩ }

end Add

end Ns3.TcpRxBuffer
