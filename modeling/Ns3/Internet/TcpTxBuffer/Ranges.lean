import Ns3.Internet.TcpTxBuffer.Wrap

/-!
# Ranges that can be copied

`NextSeg` names a range, and `CopyFromSequence` is asked for at most as many bytes. The range
is empty when the sent data fills the receiver window, so that nothing can be copied, and a
range that leads from sent data to new data across the end of the sequence space is not
recognized.
-/

namespace Ns3

namespace TcpTxBuffer

open SequenceNumber List Option

/-- The place of the first item that is lost and was not sent again, as a number of bytes. -/
def lostAt : PacketList → Option Nat
  | [] => none
  | item :: rest =>
    if !item.retrans && !item.sacked && item.lost then some 0
    else (lostAt rest).map (item.size + ·)

/-- The places of the items that are neither sacked nor sent again. -/
def openAt : PacketList → List Nat
  | [] => []
  | item :: rest =>
    (if !item.retrans && !item.sacked then [0] else []) ++ (openAt rest).map (item.size + ·)

/-- The place that rule (3) saves, of the open ones: the first one, but a place with the sequence
number 0 counts as none, and the next one replaces it. -/
def savedAt (head : SequenceNumber32) : List Nat → Option Nat
  | [] => none
  | k :: places => if head.at k = .ofNat 0 then (savedAt head places).or (some k) else some k

/-- What the walk has saved after it has seen open items at some places. -/
def keep (head : SequenceNumber32) :
    SequenceNumber32 × Bool → List Nat → SequenceNumber32 × Bool
  | saved, [] => saved
  | saved, k :: places =>
    keep head (if saved.1 == .ofNat 0 then (head.at k, true) else saved) places

section Walk

variable {head : SequenceNumber32} {isRecovery : Bool} {list : PacketList} {k start : Nat}

theorem lostAt_eq_some (lost : lostAt list = some k) : ∃ front item rest,
    list = front ++ item :: rest ∧ k = total front ∧ item.sacked = false := by
  induction list generalizing k with
  | nil => cases lost
  | cons item rest ih =>
    rw [lostAt] at lost
    split at lost
    · next flags =>
        simp only [Bool.and_eq_true, Bool.not_eq_true'] at flags
        exact ⟨[], item, rest, rfl, (some.inj lost).symm, flags.1.2⟩
    · obtain ⟨k, later, rfl⟩ := map_eq_some_iff.mp lost
      obtain ⟨front, found, rest', rfl, rfl, unsacked⟩ := ih later
      exact ⟨item :: front, found, rest', rfl, rfl, unsacked⟩

theorem mem_openAt (member : k ∈ openAt list) : ∃ front item rest,
    list = front ++ item :: rest ∧ k = total front ∧ item.sacked = false := by
  induction list generalizing k with
  | nil => cases member
  | cons item rest ih =>
    rw [openAt, mem_append, List.mem_map] at member
    obtain here | ⟨k, later, rfl⟩ := member
    · split at here
      · next flags =>
          simp only [Bool.and_eq_true, Bool.not_eq_true'] at flags
          exact ⟨[], item, rest, rfl, mem_singleton.mp here, flags.2⟩
      · cases here
    · obtain ⟨front, found, rest', rfl, rfl, unsacked⟩ := ih later
      exact ⟨item :: front, found, rest', rfl, rfl, unsacked⟩

theorem savedAt_mem {places : List Nat} (saved : savedAt head places = some k) : k ∈ places := by
  induction places with
  | nil => cases saved
  | cons place places ih =>
    rw [savedAt] at saved
    split at saved
    · cases later : savedAt head places with
      | none =>
        rw [later] at saved
        exact mem_cons.mpr (.inl (some.inj saved).symm)
      | some k' =>
        rw [later] at saved
        obtain rfl : k' = k := some.inj saved
        exact mem_cons_of_mem _ (ih later)
    · exact mem_cons.mpr (.inl (some.inj saved).symm)

theorem keep_of_ne {saved : SequenceNumber32 × Bool} (apart : saved.1 ≠ .ofNat 0)
    (places : List Nat) : keep head saved places = saved := by
  induction places with
  | nil => rfl
  | cons place places ih =>
    rw [keep, if_neg (by simpa using apart)]
    exact ih

theorem keep_zero (valid : Bool) (places : List Nat) :
    keep head (.ofNat 0, valid) places =
      match savedAt head places with
      | some k => (head.at k, true)
      | none => (.ofNat 0, valid) := by
  induction places generalizing valid with
  | nil => rfl
  | cons place places ih =>
    have first : keep head (.ofNat 0, valid) (place :: places) =
        keep head (head.at place, true) places := by
      rw [keep, if_pos (by simp)]
    rw [first, savedAt]
    by_cases zero : head.at place = .ofNat 0
    · rw [if_pos zero, zero, ih]
      cases savedAt head places with
      | none => exact Prod.ext zero.symm rfl
      | some k => rfl
    · rw [if_neg zero, keep_of_ne zero]

/-- The walk of `NextSeg` finds the lost item, or has gone by all open ones. -/
theorem nextSegWalk_eq (saved : SequenceNumber32 × Bool) :
    nextSegWalk isRecovery list (head.at start) saved =
      match lostAt list with
      | some k => .inl (head.at (start + k : Nat))
      | none => .inr (if isRecovery then keep head saved ((openAt list).map (start + ·))
          else saved) := by
  induction list generalizing start saved with
  | nil => cases isRecovery <;> rfl
  | cons item rest ih =>
    have next : (head.at start).add item.size = head.at (start + item.size : Nat) :=
      at_add head start item.size
    have shift : (openAt rest).map ((start + ·) ∘ (item.size + ·)) =
        (openAt rest).map (start + item.size + ·) :=
      map_congr_left fun k _ => (Nat.add_assoc start item.size k).symm
    have further : ∀ saved : SequenceNumber32 × Bool,
        nextSegWalk isRecovery rest ((head.at start).add item.size) saved =
          match (lostAt rest).map (item.size + ·) with
          | some k => .inl (head.at (start + k : Nat))
          | none => .inr (if isRecovery then
              keep head saved ((openAt rest).map (start + item.size + ·)) else saved) := by
      intro saved
      rw [next, ih]
      cases lostAt rest with
      | none => rfl
      | some k => simp [Nat.add_assoc]
    rw [nextSegWalk, lostAt, openAt]
    by_cases isOpen : (!item.retrans && !item.sacked) = true
    · rw [if_pos isOpen, if_pos isOpen, map_append, List.map_map, shift]
      cases lost : item.lost with
      | true => simp [isOpen]
      | false =>
        rw [isOpen, Bool.and_false, further]
        cases (lostAt rest).map (item.size + ·) with
        | some k => rfl
        | none =>
          cases isRecovery with
          | false => simp
          | true => simp [keep]
    · have notLost : ¬ (!item.retrans && !item.sacked && item.lost) = true := by simp [isOpen]
      rw [if_neg isOpen, if_neg isOpen, if_neg notLost, nil_append, List.map_map, shift,
        further]

end Walk

section Property

variable (b : TcpTxBuffer) (rWnd : Nat) (isRecovery : Bool)

/-- `NextSeg` in terms of places: where the range begins, and how many bytes it spans. -/
def planned : Option (Nat × Nat) :=
  match lostAt b.sentList with
  | some k => some (k, b.segmentSize)
  | none =>
    if b.sentSize < b.size then
      if b.sentSize ≤ rWnd then
        some (b.sentSize, min b.segmentSize (UInt32.sub rWnd b.sentSize))
      else none
    else if isRecovery then
      (savedAt b.firstByteSeq (openAt b.sentList)).map fun k => (k, b.segmentSize)
    else none

/-- The sequence number begins a sent item that is not sacked, or the unsent data. -/
def StartsUnsacked (seq : SequenceNumber32) : Prop :=
  (∃ front item rest, b.sentList = front ++ item :: rest ∧
    seq = b.firstByteSeq.at (total front) ∧ item.sacked = false) ∨
  seq = b.firstByteSeq.add b.sentSize

/-- `CopyFromSequence` returns an item. In a debug build an assertion on the flags of the items
may stop it; it does not return the null pointer. -/
structure Copies (now : Int) (n : Nat) (seq : SequenceNumber32) : Prop where
  optimized : ∃ item b', b.copyFromSequence .optimized now n seq = some (some item, b')
  debug : ∀ r, b.copyFromSequence .debug now n seq = some r → r.1 ≠ none

/-- What `NextSeg` names can be copied. -/
def FitsTogether (now : Int) : Prop :=
  ∀ seq seqHigh, b.nextSeg rWnd isRecovery = some (seq, seqHigh) →
    seq.lt seqHigh = true ∧ b.StartsUnsacked seq ∧
      ∀ n, 0 < n → b.Copies now (min n (seqHigh.sub seq).toNat) seq

/-- The range of each rule is neither empty nor longer than the order of sequence numbers
reaches, and no lost item is resent with new data behind it across the end of the space. -/
structure RangesFit : Prop where
  lost : ∀ k ∈ lostAt b.sentList,
    Ahead (b.firstByteSeq.at k) b.segmentSize ∧ ¬ Crosses b k b.segmentSize
  unsent : lostAt b.sentList = none → b.sentSize < b.size → b.sentSize ≤ rWnd →
    Ahead (b.firstByteSeq.at b.sentSize) (min b.segmentSize (rWnd - b.sentSize))
  rescue : lostAt b.sentList = none → b.size ≤ b.sentSize → isRecovery = true →
    ∀ k ∈ savedAt b.firstByteSeq (openAt b.sentList), Ahead (b.firstByteSeq.at k) b.segmentSize

end Property

section Ranges

variable {initial : SequenceNumber32} {stream : List Byte} {consumed k m n rWnd : Nat}
variable {b : TcpTxBuffer} {isRecovery : Bool} {now : Int}

theorem nextSeg_eq (h : Holds initial stream consumed b) (near : b.size ≤ halfMaxValue 32)
    (rWnd : Nat) (isRecovery : Bool) :
    b.nextSeg rWnd isRecovery = (b.planned rWnd isRecovery).map fun p =>
      (b.firstByteSeq.at p.1, (b.firstByteSeq.at p.1).add p.2) := by
  have sentEnd : b.firstByteSeq.add b.sentSize = b.firstByteSeq.at b.sentSize := add_eq_at _ _
  have unsent : b.sizeFromSequence (b.firstByteSeq.add b.sentSize) = b.size - b.sentSize := by
    rw [sentEnd, sizeFromSequence_of_room (Room.of_le (by omega)) h.size_lt h.sentSize_le]
  have walk : nextSegWalk isRecovery b.sentList (b.firstByteSeq.at (0 : Nat)) (.ofNat 0, false) =
      _ := nextSegWalk_eq _
  have origin : b.firstByteSeq.at (0 : Nat) = b.firstByteSeq := at_zero _
  simp only [origin, Nat.zero_add, List.map_id'] at walk
  rw [nextSeg, walk, planned]
  cases lostAt b.sentList with
  | some k => rfl
  | none =>
    simp only [unsent]
    by_cases more : b.sentSize < b.size
    · rw [if_pos (by omega), if_pos more]
      by_cases room : b.sentSize ≤ rWnd
      · rw [if_pos room, if_pos room, sentEnd]
        rfl
      · rw [if_neg room, if_neg room]
        rfl
    · rw [if_neg (by omega), if_neg more]
      cases isRecovery with
      | false => rfl
      | true =>
        rw [if_pos rfl, if_pos rfl, keep_zero]
        cases savedAt b.firstByteSeq (openAt b.sentList) with
        | none => rfl
        | some k => rfl

/-- A place in the sent list, or at its end when there is more. -/
theorem planned_place (h : Holds initial stream consumed b)
    (plan : b.planned rWnd isRecovery = some (k, m)) :
    b.StartsUnsacked (b.firstByteSeq.at k) ∧ k ≤ b.sentSize ∧ k < b.size := by
  have sentLe := h.sentSize_le
  have inside : ∀ {front item rest}, b.sentList = front ++ item :: rest → k = total front →
      item.sacked = false →
      b.StartsUnsacked (b.firstByteSeq.at k) ∧ k ≤ b.sentSize ∧ k < b.size := by
    rintro front item rest sent rfl unsacked
    have pos : 0 < item.size := h.positive item (by simp [sent])
    have size := h.sentSize
    rw [sent, total_append, total_cons] at size
    exact ⟨.inl ⟨front, item, rest, sent, rfl, unsacked⟩, by omega, by omega⟩
  rw [planned] at plan
  cases lost : lostAt b.sentList with
  | some place =>
    rw [lost] at plan
    cases plan
    obtain ⟨front, item, rest, sent, place, unsacked⟩ := lostAt_eq_some lost
    exact inside sent place unsacked
  | none =>
    rw [lost] at plan
    simp only at plan
    split at plan
    · next more =>
        split at plan
        · cases plan
          exact ⟨.inr (add_eq_at _ _).symm, le_rfl, more⟩
        · cases plan
    · split at plan
      · obtain ⟨place, saved, same⟩ := map_eq_some_iff.mp plan
        cases same
        obtain ⟨front, item, rest, sent, place, unsacked⟩ := mem_openAt (savedAt_mem saved)
        exact inside sent place unsacked
      · cases plan

/-- A block that is not recognized is no item. -/
theorem copyFromSequence_crosses (profile : BuildProfile) (h : Holds initial stream consumed b)
    (near : b.size ≤ halfMaxValue 32) (le : k ≤ b.sentSize) (inside : k < b.size)
    (crosses : Crosses b k n) :
    b.copyFromSequence profile now n (b.firstByteSeq.at k) = none := by
  obtain ⟨wanted_, sent, new, part⟩ :=
    tests_at (n := n) le h.sentSize_le inside h.size_lt (by omega)
  obtain ⟨low, high, -⟩ := id crosses
  have size : min n (b.sizeFromSequence (b.firstByteSeq.at k)) = min n (b.size - k) := wanted_
  rw [alreadySent, wanted_, decide_eq_false (by omega)] at sent
  rw [isNewBlock, decide_eq_false (by omega)] at new
  have noPart : ¬ ((b.firstByteSeq.at k).value.toNat <
        UInt32.add b.firstByteSeq.value.toNat b.sentSize ∧
      UInt32.add b.firstByteSeq.value.toNat b.sentSize <
        UInt32.add (b.firstByteSeq.at k).value.toNat (min n (b.size - k))) := by
    rintro ⟨above, below⟩
    rw [partlySent, wanted_, decide_eq_true above, decide_eq_true below,
      decide_eq_false fun ok => ok.2.2 crosses] at part
    exact absurd part (by decide)
  have handed : b.handOut profile (min n (b.size - k)) (b.firstByteSeq.at k) = some none := by
    rw [handOut, sent, new]
    rfl
  rw [copyFromSequence, copyFromSequenceWithin, head_not_gt (by omega), size]
  rw [if_neg (by omega), handed]
  exact if_neg noPart

/-- What can be copied from a place in the sent data or at its end. -/
theorem copies_iff (h : Holds initial stream consumed b) (near : b.size ≤ halfMaxValue 32)
    (le : k ≤ b.sentSize) (inside : k < b.size) :
    b.Copies now n (b.firstByteSeq.at k) ↔ 0 < n ∧ ¬ Crosses b k n := by
  have notBehind : b.firstByteSeq.gt (b.firstByteSeq.at k) = false := head_not_gt (by omega)
  constructor
  · rintro ⟨⟨item, b', copied⟩, -⟩
    refine ⟨Nat.pos_of_ne_zero ?_, fun crosses => ?_⟩
    · rintro rfl
      rw [copyFromSequence, copyFromSequenceWithin, notBehind, Nat.zero_min] at copied
      exact absurd (Prod.mk.inj (some.inj copied)).1.symm (some_ne_none item)
    · rw [copyFromSequence_crosses .optimized h near le inside crosses] at copied
      cases copied
  · rintro ⟨pos, fits⟩
    have contract : ∀ profile, Contract (profile = .debug ∨ Crosses b k n)
        (b.copyFromSequence profile now n (b.firstByteSeq.at k))
        (CopiedAt initial stream consumed b k n) := fun profile =>
      copyFromSequenceWithin_contract h now 0 pos le inside (by omega) (Room.of_le (by omega))
    have some_ : ∀ {profile r}, b.copyFromSequence profile now n (b.firstByteSeq.at k) = some r →
        r.1 ≠ none := by
      rintro profile ⟨out, b'⟩ copied rfl
      have nothing := copyFromSequenceWithin_null copied
      rw [(tests_at le h.sentSize_le inside h.size_lt (by omega)).1] at nothing
      omega
    refine ⟨?_, fun r copied => some_ copied⟩
    obtain ⟨⟨out, b'⟩, copied, -⟩ :=
      (contract .optimized).returns fun stops => stops.elim (by decide) fits
    obtain ⟨item, rfl⟩ := ne_none_iff_exists'.mp (some_ copied)
    exact ⟨item, b', copied⟩

theorem Crosses.mono (crosses : Crosses b k n) (le : n ≤ m) : Crosses b k m := by
  obtain ⟨low, high, wrap⟩ := crosses
  exact ⟨low, by omega, by omega⟩

/-- A range fits if it leads ahead and its item is recognized. -/
theorem planned_fits (h : Holds initial stream consumed b) (near : b.size ≤ halfMaxValue 32)
    (le : k ≤ b.sentSize) (inside : k < b.size) (fits : m < 2 ^ 32) :
    ((b.firstByteSeq.at k).lt ((b.firstByteSeq.at k).add m) = true ∧
      ∀ n, 0 < n → b.Copies now
        (min n (((b.firstByteSeq.at k).add m).sub (b.firstByteSeq.at k)).toNat)
        (b.firstByteSeq.at k)) ↔ Ahead (b.firstByteSeq.at k) m ∧ ¬ Crosses b k m := by
  have span : (((b.firstByteSeq.at k).add m).sub (b.firstByteSeq.at k)).toNat = m := by
    rw [sub_eq, SequenceNumber.add, add_sub_cancel_left, BitVec.toNat_ofNat, Nat.mod_eq_of_lt fits]
  rw [span, lt_add_iff fits]
  refine and_congr_right fun ahead => ?_
  constructor
  · intro copies
    have whole := copies m ahead.1
    rw [Nat.min_self, copies_iff h near le inside] at whole
    exact whole.2
  · intro recognized n pos
    rw [copies_iff h near le inside]
    exact ⟨by have := ahead.1; omega, fun crosses =>
      recognized (crosses.mono (Nat.min_le_right _ _))⟩

theorem planned_bound (segment : b.segmentSize < 2 ^ 32)
    (plan : b.planned rWnd isRecovery = some (k, m)) : m < 2 ^ 32 := by
  rw [planned] at plan
  cases lost : lostAt b.sentList with
  | some place =>
    rw [lost] at plan
    cases plan
    exact segment
  | none =>
    rw [lost] at plan
    simp only at plan
    split at plan
    · split at plan
      · cases plan
        exact lt_of_le_of_lt (Nat.min_le_left _ _) segment
      · cases plan
    · split at plan
      · obtain ⟨place, -, same⟩ := map_eq_some_iff.mp plan
        cases same
        exact segment
      · cases plan

theorem fitsTogether_planned (h : Holds initial stream consumed b)
    (near : b.size ≤ halfMaxValue 32) (segment : b.segmentSize < 2 ^ 32) :
    b.FitsTogether rWnd isRecovery now ↔ ∀ k m, b.planned rWnd isRecovery = some (k, m) →
      Ahead (b.firstByteSeq.at k) m ∧ ¬ Crosses b k m := by
  constructor
  · intro together k m plan
    obtain ⟨-, le, inside⟩ := planned_place h plan
    have named : b.nextSeg rWnd isRecovery =
        some (b.firstByteSeq.at k, (b.firstByteSeq.at k).add m) := by
      rw [nextSeg_eq h near, plan]
      rfl
    obtain ⟨less, -, copies⟩ := together _ _ named
    exact (planned_fits h near le inside (planned_bound segment plan)).mp ⟨less, copies⟩
  · intro fit seq seqHigh named
    rw [nextSeg_eq h near] at named
    obtain ⟨⟨k, m⟩, plan, same⟩ := map_eq_some_iff.mp named
    cases same
    obtain ⟨starts, le, inside⟩ := planned_place h plan
    obtain ⟨less, copies⟩ :=
      (planned_fits h near le inside (planned_bound segment plan)).mpr (fit k m plan)
    exact ⟨less, starts, copies⟩

/-- The plans that fit, rule by rule. New data alone never crosses the end of the space in the
way that is not recognized, and neither does sent data alone. -/
theorem planned_rangesFit (h : Holds initial stream consumed b) (window : rWnd < 2 ^ 32) :
    (∀ k m, b.planned rWnd isRecovery = some (k, m) →
      Ahead (b.firstByteSeq.at k) m ∧ ¬ Crosses b k m) ↔ b.RangesFit rWnd isRecovery := by
  have newData : ∀ m, ¬ Crosses b b.sentSize m := fun m crosses => lt_irrefl _ crosses.1
  have sentData : ∀ {k m}, b.size ≤ b.sentSize → ¬ Crosses b k m := by
    rintro k m full ⟨low, high, -⟩
    omega
  rw [planned]
  cases lost : lostAt b.sentList with
  | some place =>
    constructor
    · intro fit
      refine ⟨?_, fun none => ?_, fun none => ?_⟩
      · intro k named
        rw [lost] at named
        obtain rfl := mem_some.mp named
        exact fit _ _ rfl
      · exact absurd (lost.symm.trans none) (some_ne_none _)
      · exact absurd (lost.symm.trans none) (some_ne_none _)
    · intro fit k m plan
      cases plan
      exact fit.lost _ (by rw [lost]; exact mem_some.mpr rfl)
  | none =>
    by_cases more : b.sentSize < b.size
    · rw [if_pos more]
      constructor
      · intro fit
        refine ⟨fun k named => ?_, fun _ _ room => ?_, fun _ full => ?_⟩
        · rw [lost] at named
          exact absurd named (not_mem_none k)
        · rw [if_pos room, UInt32.sub_of_le room window] at fit
          exact (fit _ _ rfl).1
        · exact absurd more (Nat.not_lt.mpr full)
      · intro fit k m plan
        simp only at plan
        split at plan
        · next room =>
            rw [UInt32.sub_of_le room window] at plan
            cases plan
            exact ⟨fit.unsent lost more room, newData _⟩
        · cases plan
    · rw [if_neg more]
      constructor
      · intro fit
        refine ⟨fun k named => ?_, fun _ more' => absurd more' more, ?_⟩
        · rw [lost] at named
          exact absurd named (not_mem_none k)
        · intro _ _ isRecovery k saved
          rw [if_pos isRecovery, mem_def.mp saved] at fit
          exact (fit _ _ rfl).1
      · intro fit k m plan
        simp only at plan
        split at plan
        · next isRecovery =>
            obtain ⟨place, saved, same⟩ := map_eq_some_iff.mp plan
            cases same
            exact ⟨fit.rescue lost (Nat.not_lt.mp more) isRecovery _ saved,
              sentData (Nat.not_lt.mp more)⟩
        · cases plan

end Ranges

/-- Whatever the receiver window is, in a recovery or not: what `NextSeg` names can be copied if
and only if the ranges fit. -/
theorem nextSeg_fitsTogether_iff {profile : BuildProfile} {seq : SequenceNumber32}
    {maxBuffer : Nat} (dupAckThresh segmentSize : Nat) (sackEnabled : Bool) {calls : List Call}
    {b : TcpTxBuffer} (rWnd : BitVec 32) (isRecovery : Bool) (now : Int)
    (maxFits : maxBuffer < 2 ^ 32) (segment : b.segmentSize < 2 ^ 32)
    (fits : Run.Meets (call profile) Fits
      (start seq maxBuffer dupAckThresh segmentSize sackEnabled) calls)
    (run : Run.exec (call profile) (start seq maxBuffer dupAckThresh segmentSize sackEnabled)
      calls = some b) :
    b.FitsTogether rWnd.toNat isRecovery now ↔ b.RangesFit rWnd.toNat isRecovery := by
  have start_ := Reached.start seq maxFits dupAckThresh segmentSize sackEnabled
  obtain ⟨⟨initial, stream, consumed, h⟩, near⟩ := start_.run fits run
  exact (fitsTogether_planned h near segment).trans (planned_rangesFit h rWnd.isLt)

/-- Two segments in flight, the second one sacked, and one byte left. -/
def twoInFlight : List Call :=
  [.add [1, 2, 3, 4, 5], .copyFromSequence 0 2 (.ofNat 1), .copyFromSequence 0 2 (.ofNat 3),
    .update [(.ofNat 3, .ofNat 5)]]

theorem nextSeg_fitsTogether_unsent :
    ∃ b, Run.exec (call .debug) (start (.ofNat 1) 20 3 2 true) twoInFlight = some b ∧
      b.FitsTogether 6 true 0 := by
  have ran : (Run.exec (call .debug) (start (.ofNat 1) 20 3 2 true) twoInFlight).any (fun b =>
      b.segmentSize < 2 ^ 32 ∧ lostAt b.sentList = none ∧ b.sentSize < b.size ∧
        Ahead (b.firstByteSeq.at b.sentSize) (min b.segmentSize (6 - b.sentSize))) = true := by
    decide
  obtain ⟨b, run, holds⟩ := (Option.any_eq_true _ _).mp ran
  obtain ⟨segment, lost, more, ahead⟩ := of_decide_eq_true holds
  refine ⟨b, run, (nextSeg_fitsTogether_iff 3 2 true 6 true 0 (by decide) segment
    (by decide) run).mpr ⟨fun k named => ?_, fun _ _ _ => ahead, fun _ full => ?_⟩⟩
  · rw [lost] at named
    exact absurd named (Option.not_mem_none k)
  · exact absurd more (Nat.not_lt.mpr full)

/-- When the sent data fills the receiver window, the range is empty, and there is no item. -/
theorem nextSeg_names_empty_range :
    ∃ b, Run.exec (call .debug) (start (.ofNat 1) 20 3 2 true) twoInFlight = some b ∧
      b.nextSeg 4 true = some (.ofNat 5, .ofNat 5) ∧
      b.copyFromSequence .debug 0 0
        (.ofNat 5) = some (none, b) ∧
      ¬ b.FitsTogether 4 true 0 := by
  have ran : (Run.exec (call .debug) (start (.ofNat 1) 20 3 2 true) twoInFlight).any (fun b =>
      b.nextSeg 4 true = some (.ofNat 5, .ofNat 5) ∧
        b.copyFromSequence .debug 0 0
          (.ofNat 5) = some (none, b)) = true := by
    decide
  obtain ⟨b, run, holds⟩ := (Option.any_eq_true _ _).mp ran
  obtain ⟨named, copied⟩ := of_decide_eq_true holds
  refine ⟨b, run, named, copied, fun together => ?_⟩
  exact absurd (together _ _ named).1 (by decide)

end TcpTxBuffer

end Ns3
