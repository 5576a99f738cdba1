import Ns3.Network.Buffer.FullCopy
import Ns3.Library.Run

/-!
# Appending one buffer to another

`AddAtEnd` of a buffer asserts that it does not write into the storage that it reads. Two buffers
that share their storage meet this assertion when the first one stays in it, which it does when
it has no zero area, ends where the dirty area does and finds enough room behind it. Where two
zero areas are put together, the bytes behind them are written at their virtual offset, which may
be outside of the storage.
-/

namespace Ns3.Buffer

open List Option

variable {profile : BuildProfile} {s t u : Storage} {a b o : Buffer} {live rest : List Buffer}

section Write

variable {i : BufferIterator}

theorem read_length {d offset n : Nat} {bytes : List Byte}
    (read : s.read d offset n = some bytes) : bytes.length = n := by
  obtain ⟨-, rfl⟩ := Storage.read_eq_some_iff.mp read
  rw [length_map, length_range]

theorem write_part (d offset : Nat) (bytes : List Byte) (s : Storage)
    (fits : bytes.length = 0 ∨ offset + bytes.length ≤ (s.data d).size) :
    ∃ t, s.write d offset bytes = some t ∧ Storage.Written d s t := by
  obtain ⟨t, run⟩ := Storage.write_isSome_iff.mpr fits
  exact ⟨t, run, Storage.write_spec run⟩

/-- An iterator that reads a buffer from some place on. -/
structure Reads (o : Buffer) (s : Storage) (first : BufferIterator) : Prop where
  data : first.data = o.data
  zeroStart : first.zeroStart = o.zeroAreaStart
  zeroEnd : first.zeroEnd = o.zeroAreaEnd
  dataEnd : first.dataEnd = o.end_
  sound : Sound (s.data o.data) o
  high : first.current ≤ o.end_

/-- `Write` of the bytes of a buffer from some place on returns if they fit into the storage of
the destination. -/
theorem writeRange_returns_iff {first : BufferIterator} (reads : Reads o s first)
    (apart : i.data ≠ o.data)
    (check : i.checkNoZero i.current (i.current + (o.end_ - first.current)) = true) :
    (∃ t, i.writeRange profile first o.endIterator s = some t) ↔
      o.end_ - first.current = 0 ∨
        i.current + (o.end_ - first.current) ≤ (s.data i.data).size := by
  obtain ⟨data, zeroStart, zeroEnd, dataEnd, sound, high⟩ := reads
  have after := sound.end_
  have inside := sound.inside
  unfold internalEnd zeroSize at inside
  have same : (first.data == o.endIterator.data) = true := beq_iff_eq.mpr data
  have sameStart : (first.zeroStart == o.endIterator.zeroStart) = true := beq_iff_eq.mpr zeroStart
  have sameEnd : (first.zeroEnd == o.endIterator.zeroEnd) = true := beq_iff_eq.mpr zeroEnd
  have last : o.endIterator.current = first.dataEnd := dataEnd.symm
  rw [← zeroStart, ← zeroEnd, ← dataEnd, ← data] at inside
  rw [← dataEnd] at high check ⊢
  rw [← data] at apart
  have ordered : (decide (first.current ≤ first.dataEnd)) = true := decide_eq_true high
  have other : (i.data != first.data) = true := bne_iff_ne.mpr apart
  simp only [BufferIterator.writeRange, same, ordered, sameStart, sameEnd, other, last, check,
    nsAssert_true, bind_eq_bind, bind_some]
  generalize before_ : (if first.current ≤ first.zeroStart then
    min (first.dataEnd - first.current) (first.zeroStart - first.current) else 0) = before
  generalize zeros_ : (if first.current + before ≤ first.zeroEnd then
    min (first.dataEnd - first.current - before) (first.zeroEnd - (first.current + before))
      else 0) = zeros
  have parts : before + zeros + min (first.dataEnd - first.current - before - zeros)
      (first.dataEnd - (first.current + before + zeros)) = first.dataEnd - first.current := by
    split at before_ <;> split at zeros_ <;> omega
  generalize min (first.dataEnd - first.current - before - zeros)
    (first.dataEnd - (first.current + before + zeros)) = behind at parts
  have front : before = 0 ∨ first.current + before ≤ (s.data first.data).size := by
    split at before_ <;> omega
  have back : behind = 0 ∨
      first.current + before + zeros - (first.zeroEnd - first.zeroStart) + behind ≤
        (s.data first.data).size := by
    split at before_ <;> split at zeros_ <;> omega
  -- The source is not written, and the destination keeps its size.
  have source {t : Storage} (written : Storage.Written i.data s t) :
      t.data first.data = s.data first.data :=
    written.others _ (Ne.symm apart)
  have room {t : Storage} (written : Storage.Written i.data s t) :
      (t.data i.data).size = (s.data i.data).size :=
    written.congr BufferData.size (fun _ _ => rfl) i.data
  have zeroLength : (List.replicate zeros (0 : Byte)).length = zeros := length_replicate
  constructor
  · rintro ⟨t, run⟩
    simp only [bind_eq_some_iff] at run
    obtain ⟨bytes, read, s₁, write₁, s₂, write₂, bytes', read', write₃⟩ := run
    have written₁ := Storage.write_spec write₁
    have written₂ := written₁.trans (Storage.write_spec write₂)
    have fits₁ := Storage.write_isSome_iff.mp ⟨_, write₁⟩
    have fits₂ := Storage.write_isSome_iff.mp ⟨_, write₂⟩
    have fits₃ := Storage.write_isSome_iff.mp ⟨_, write₃⟩
    rw [read_length read] at fits₁
    rw [zeroLength, room written₁] at fits₂
    rw [read_length read', room written₂] at fits₃
    omega
  · intro fits
    obtain ⟨bytes, read⟩ : ∃ bytes, s.read first.data first.current before = some bytes :=
      ⟨_, Storage.read_eq_some_iff.mpr ⟨front, rfl⟩⟩
    obtain ⟨s₁, write₁, written₁⟩ := write_part i.data i.current bytes s (by
      rw [read_length read]
      omega)
    obtain ⟨s₂, write₂, step⟩ := write_part i.data (i.current + before) (List.replicate zeros 0) s₁
      (by
        rw [zeroLength, room written₁]
        omega)
    have written₂ := written₁.trans step
    obtain ⟨bytes', read'⟩ : ∃ bytes, s₂.read first.data
        (first.current + before + zeros - (first.zeroEnd - first.zeroStart)) behind = some bytes :=
      ⟨_, Storage.read_eq_some_iff.mpr ⟨by rwa [source written₂], rfl⟩⟩
    obtain ⟨s₃, write₃, -⟩ := write_part i.data (i.current + before + zeros) bytes' s₂ (by
      rw [read_length read', room written₂]
      omega)
    refine ⟨s₃, ?_⟩
    simp only [read, write₁, write₂, read', write₃, bind_some]

theorem writeRange_written {first last : BufferIterator}
    (run : i.writeRange profile first last s = some t) : Storage.Written i.data s t := by
  simp only [BufferIterator.writeRange, bind_returns] at run
  obtain ⟨-, -, -, -, -, -, -, -, -, -, -, -, bytes, -, s₁, write₁, s₂, write₂, bytes', -,
    write₃⟩ := run
  exact ((Storage.write_spec write₁).trans (Storage.write_spec write₂)).trans
    (Storage.write_spec write₃)

theorem writeRange_apart {first last : BufferIterator}
    (run : i.writeRange .debug first last s = some t) : i.data ≠ first.data := by
  simp only [BufferIterator.writeRange, bind_returns, nsAssert_debug_eq_some] at run
  obtain ⟨-, -, -, -, -, -, -, -, -, apart, -⟩ := run
  exact bne_iff_ne.mp apart

end Write

section Tail

variable {n : Nat}

/-- A range behind the zero area does not meet it. -/
theorem checkNoZero_behind {i : BufferIterator} {start stop : Nat} (low : i.dataStart ≤ start)
    (high : stop ≤ i.dataEnd) (behind : i.zeroEnd ≤ start) : i.checkNoZero start stop = true := by
  have clear : decide (start < i.zeroEnd) = false := decide_eq_false (by omega)
  unfold BufferIterator.checkNoZero
  rw [clear, Bool.and_false, Bool.false_and, Bool.false_and, Bool.or_false, Bool.not_eq_true',
    Bool.or_eq_false_iff, decide_eq_false_iff_not, decide_eq_false_iff_not]
  omega

/-- The last bytes of `o` are written over those of `b`, in a debug build: the storage must be
another one, and they must fit at their virtual offset. -/
theorem writeTail_returns_iff (sound : Sound (s.data o.data) o) (size : n ≤ o.size)
    (order : b.start ≤ b.zeroAreaStart) (area : b.zeroAreaStart ≤ b.zeroAreaEnd)
    (behind : b.zeroAreaEnd + n ≤ b.end_) :
    (∃ r, b.writeTail .debug n o s = some r) ↔
      b.data ≠ o.data ∧ (n = 0 ∨ b.end_ ≤ (s.data b.data).size) := by
  unfold Buffer.size at size
  have prev : b.endIterator.prev .debug n =
      some { b.endIterator with current := b.end_ - n } := by
    have enough : (decide (n ≤ b.endIterator.current)) = true :=
      decide_eq_true (show n ≤ b.end_ by omega)
    rw [BufferIterator.prev, enough, nsAssert_true]
    rfl
  have prev' : o.endIterator.prev .debug n =
      some { o.endIterator with current := o.end_ - n } := by
    have enough : (decide (n ≤ o.endIterator.current)) = true :=
      decide_eq_true (show n ≤ o.end_ by omega)
    rw [BufferIterator.prev, enough, nsAssert_true]
    rfl
  have unfolded : (∃ r, b.writeTail .debug n o s = some r) ↔
      ∃ t, ({ b.endIterator with current := b.end_ - n } : BufferIterator).writeRange .debug
        { o.endIterator with current := o.end_ - n } o.endIterator s = some t := by
    simp only [writeTail, prev, prev', bind_eq_bind, bind_some,
      bind_eq_some_iff, Option.pure_def, some.injEq]
    constructor
    · rintro ⟨r, t, run, -⟩
      exact ⟨t, run⟩
    · rintro ⟨t, run⟩
      exact ⟨_, t, run, rfl⟩
  have reads : Reads o s { o.endIterator with current := o.end_ - n } :=
    ⟨rfl, rfl, rfl, rfl, sound, Nat.sub_le _ _⟩
  have all : o.end_ - (o.end_ - n) = n := by omega
  have check : ({ b.endIterator with current := b.end_ - n } : BufferIterator).checkNoZero
      (b.end_ - n) (b.end_ - n + (o.end_ - (o.end_ - n))) = true := by
    refine checkNoZero_behind ?_ ?_ ?_
    · show b.start ≤ b.end_ - n
      omega
    · show b.end_ - n + (o.end_ - (o.end_ - n)) ≤ b.end_
      omega
    · show b.zeroAreaEnd ≤ b.end_ - n
      omega
  rw [unfolded]
  constructor
  · rintro ⟨t, run⟩
    have apart : b.data ≠ o.data := writeRange_apart run
    have fits := (writeRange_returns_iff reads apart check).mp ⟨t, run⟩
    refine ⟨apart, ?_⟩
    rw [all] at fits
    exact fits.imp_right fun fits => Nat.le_trans (show b.end_ ≤ b.end_ - n + n by omega) fits
  · rintro ⟨apart, fits⟩
    refine (writeRange_returns_iff reads apart check).mpr ?_
    rw [all]
    exact fits.imp_right fun fits => Nat.le_trans (show b.end_ - n + n ≤ b.end_ by omega) fits

theorem writeTail_keeps {r : Buffer × Storage} (run : b.writeTail profile n o s = some r)
    (apart : o.data ≠ b.data) : r.2.data o.data = s.data o.data := by
  simp only [writeTail, BufferIterator.prev, bind_returns, pure_returns] at run
  obtain ⟨dst, ⟨-, -, rfl⟩, src, ⟨-, -, rfl⟩, t, written, rfl⟩ := run
  exact (writeRange_written written).others _ apart

end Tail

section Room

/-- The size of a block that is taken from a free list: the first one that is large enough, or else
a new one. -/
def roomIn (n : Nat) (s : Storage) (l : List Nat) : Nat :=
  ((l.find? fun d => n ≤ (s.data d).size).map fun d => (s.data d).size).getD (max n 1 + 100)

/-- The size of the block that `Create` returns. -/
def room (n : Nat) (s : Storage) : Nat := roomIn n s s.freeList

theorem createFrom_size (n : Nat) (s : Storage) (l : List Nat) :
    ((s.createFrom n l).2.data (s.createFrom n l).1).size = roomIn n s l := by
  induction l with
  | nil => exact congrArg BufferData.size (Storage.data_set_self _ _ _)
  | cons d l ih =>
    unfold Storage.createFrom roomIn
    by_cases fits : n ≤ (s.data d).size
    · simp [fits]
    · simp only [fits, if_false, find?_cons, decide_false]
      exact ih

theorem create_size (n : Nat) (s : Storage) :
    ((s.create n).2.data (s.create n).1).size = room n s :=
  createFrom_size n s s.freeList

/-- The dirty area does not matter for the size of a block. -/
theorem room_setDirty (n d dirtyStart dirtyEnd : Nat) (s : Storage) :
    room n (s.setDirty d dirtyStart dirtyEnd) = room n s := by
  have sizes : ∀ e, ((s.setDirty d dirtyStart dirtyEnd).data e).size = (s.data e).size := by
    intro e
    by_cases same : e = d
    · rw [same, setDirty_data]
    · rw [setDirty_data_of_ne same]
  have free : (s.setDirty d dirtyStart dirtyEnd).freeList = s.freeList := rfl
  unfold room roomIn
  simp only [sizes, free]

end Room

/-! ## The buffer before its end is written -/

section Prepared

/-- A buffer with room for `n` bytes of `o`, which are still to be written. -/
structure Prepared (n : Nat) (o : Buffer) (rest : List Buffer) (s : Storage) (b₂ : Buffer)
    (s₂ : Storage) : Prop where
  holds : Holds s₂ (b₂ :: rest)
  keeps : KeepsBytes rest s s₂
  enough : n ≤ o.size
  behind : b₂.zeroAreaEnd + n ≤ b₂.end_

/-- The bytes behind two zero areas that are put together fit into the storage, at the offset that
does not leave the zeros out. -/
def TailFits (b o : Buffer) (s : Storage) : Prop :=
  let behind := o.end_ - o.zeroAreaEnd
  if b.internalEnd + behind ≤ (s.data b.data).size then
    b.end_ + o.size ≤ (s.data b.data).size
  else b.size + o.size ≤ room (b.internalSize + behind) s
  deriving Decidable

theorem aggregates_iff : b.aggregates o s = true ↔
    (s.data b.data).count = 1 ∧ (b.end_ = b.zeroAreaEnd ∨ b.zeroAreaStart = b.zeroAreaEnd) ∧
      b.end_ = (s.data b.data).dirtyEnd ∧ o.start = o.zeroAreaStart ∧ 0 < o.zeroSize := by
  unfold aggregates
  simp [and_assoc]

/-- Two zero areas are put together. -/
theorem prepared_of_aggregates (profile : BuildProfile) (h : Holds s (b :: rest)) (mem : o ∈ rest)
    (adjacent : b.aggregates o s = true) :
    ∃ b₂ s₂, b.addBufferAtEnd profile o s =
        b₂.writeTail profile (o.end_ - o.zeroAreaEnd) o s₂ ∧
      Prepared (o.end_ - o.zeroAreaEnd) o rest s b₂ s₂ ∧ b₂.data ≠ o.data ∧
      (b₂.end_ ≤ (s₂.data b₂.data).size ↔ b.TailFits o s) := by
  obtain ⟨one, touches, dirty, starts, zeros⟩ := aggregates_iff.mp adjacent
  have sound := h.head
  have source := h.sound o (mem_cons_of_mem b mem)
  have other := h.count_eq_one_iff.mp one o mem
  have order := sound.zeroStart
  have area := sound.zeroEnd
  have after := sound.end_
  have inside := sound.inside
  have area' := source.zeroEnd
  have after' := source.end_
  have tail : o.zeroSize + (o.end_ - o.zeroAreaEnd) = o.size := by
    unfold zeroSize size
    omega
  have start : (b.extendZeroArea o.zeroSize).start = b.start := rfl
  have ends : (b.extendZeroArea o.zeroSize).end_ = b.end_ + o.zeroSize := rfl
  have zeroEnds : (b.extendZeroArea o.zeroSize).zeroAreaEnd = b.end_ + o.zeroSize := rfl
  have zeroStarts : (b.extendZeroArea o.zeroSize).zeroAreaStart =
      if b.zeroAreaStart = b.zeroAreaEnd then b.end_ else b.zeroAreaStart := rfl
  have internalEnd_ : (b.extendZeroArea o.zeroSize).internalEnd = b.internalEnd := by
    unfold internalEnd zeroSize at *
    rw [ends, zeroEnds, zeroStarts]
    split <;> omega
  have internalSize_ : (b.extendZeroArea o.zeroSize).internalSize = b.internalSize := by
    unfold internalSize
    rw [start, ends, zeroEnds, zeroStarts]
    split <;> omega
  have extended : Sound
      { s.data b.data with
        dirtyStart := (s.data b.data).dirtyStart, dirtyEnd := b.end_ + o.zeroSize }
      (b.extendZeroArea o.zeroSize) := by
    refine ⟨?_, ?_, Nat.le_refl _, ?_, sound.dirtyStart, Nat.le_refl _⟩
    · rw [zeroStarts, start]
      split <;> omega
    · rw [zeroStarts, zeroEnds]
      split <;> omega
    · rw [internalEnd_]
      exact inside
  obtain ⟨holds₁, keeps₁⟩ := stay_spec h (b.extendZeroArea o.zeroSize) rfl (.inl one) extended
  have prepare : b.addBufferAtEnd profile o s =
      ((b.extendZeroArea o.zeroSize).addAtEnd profile (o.end_ - o.zeroAreaEnd)
        (s.setDirty b.data (s.data b.data).dirtyStart (b.end_ + o.zeroSize))).bind
        fun r => r.1.writeTail profile (o.end_ - o.zeroAreaEnd) o r.2 := by
    unfold addBufferAtEnd
    rw [if_pos adjacent]
    rfl
  have same : (b.extendZeroArea o.zeroSize).data = b.data := rfl
  generalize b.extendZeroArea o.zeroSize = b₁ at *
  have sizes : ∀ n, room n (s.setDirty b.data (s.data b.data).dirtyStart (b.end_ + o.zeroSize)) =
      room n s := fun n => room_setDirty _ _ _ _ _
  have block := setDirty_data b.data (s.data b.data).dirtyStart (b.end_ + o.zeroSize) s
  generalize s.setDirty b.data (s.data b.data).dirtyStart (b.end_ + o.zeroSize) = s₁ at *
  have size_ : (s₁.data b₁.data).size = (s.data b.data).size := by rw [same, block]
  by_cases stays : b₁.StaysAtEnd (o.end_ - o.zeroAreaEnd) s₁
  · obtain ⟨s₂, run, holds₂, keeps₂, kept⟩ := addAtEnd_stays profile holds₁ stays
    refine ⟨b₁.longer (o.end_ - o.zeroAreaEnd), s₂, ?_, ⟨holds₂, ?_, ?_, ?_⟩, ?_, ?_⟩
    · rw [prepare, run]
      rfl
    · exact keeps₁.tail.trans keeps₂.tail
    · omega
    · show b₁.zeroAreaEnd + (o.end_ - o.zeroAreaEnd) ≤ b₁.end_ + (o.end_ - o.zeroAreaEnd)
      omega
    · exact fun shared => other (shared.symm.trans same)
    · have fits := stays.1
      rw [size_, internalEnd_] at fits
      have position : (b₁.longer (o.end_ - o.zeroAreaEnd)).end_ = b.end_ + o.size := by
        show b₁.end_ + (o.end_ - o.zeroAreaEnd) = b.end_ + o.size
        omega
      unfold TailFits
      rw [position]
      simp only [fits, if_true]
      rw [show (b₁.longer (o.end_ - o.zeroAreaEnd)).data = b₁.data from rfl, kept, size_]
  · obtain ⟨s₂, run, holds₂, apart, keeps₂, large⟩ := addAtEnd_moves profile holds₁ stays
    have full : ¬ b.internalEnd + (o.end_ - o.zeroAreaEnd) ≤ (s.data b.data).size := by
      intro fits
      refine stays ⟨?_, .inl ?_⟩
      · rwa [internalEnd_, size_]
      · rw [same, block]
        exact one
    refine ⟨_, s₂, ?_, ⟨holds₂, ?_, ?_, ?_⟩, ?_, ?_⟩
    · rw [prepare, run]
      rfl
    · exact keeps₁.tail.trans keeps₂.tail
    · omega
    · show b₁.zeroAreaEnd - b₁.start + (o.end_ - o.zeroAreaEnd) ≤
        b₁.end_ - b₁.start + (o.end_ - o.zeroAreaEnd)
      omega
    · exact Ne.symm (apart o (mem_cons_of_mem b₁ mem))
    · have position : (b₁.movedLonger (o.end_ - o.zeroAreaEnd)
          (s₁.create (b₁.internalSize + (o.end_ - o.zeroAreaEnd))).1).end_ = b.size + o.size := by
        show b₁.end_ - b₁.start + (o.end_ - o.zeroAreaEnd) = b.size + o.size
        unfold size at tail ⊢
        omega
      unfold TailFits
      rw [position]
      simp only [full, if_false]
      rw [show (b₁.movedLonger (o.end_ - o.zeroAreaEnd)
          (s₁.create (b₁.internalSize + (o.end_ - o.zeroAreaEnd))).1).data =
            (s₁.create (b₁.internalSize + (o.end_ - o.zeroAreaEnd))).1 from rfl,
        large, create_size, sizes, internalSize_]

theorem addBufferAtEnd_of_apart (profile : BuildProfile) (o : Buffer)
    (apart : ¬ b.aggregates o s = true) :
    b.addBufferAtEnd profile o s = (b.becomeReal profile s).bind fun r₁ =>
      (r₁.1.addAtEnd profile o.size r₁.2).bind fun r₂ => r₂.1.writeTail profile o.size o r₂.2 := by
  unfold addBufferAtEnd
  rw [if_neg apart]
  rfl

/-- A buffer with a zero area gets storage of its own. -/
theorem prepared_of_zeros (profile : BuildProfile) (h : Holds s (b :: rest)) (mem : o ∈ rest)
    (apart : ¬ b.aggregates o s = true) (zeros : b.zeroSize ≠ 0) :
    ∃ b₂ s₂, b.addBufferAtEnd profile o s = b₂.writeTail profile o.size o s₂ ∧
      Prepared o.size o rest s b₂ s₂ ∧ b₂.data ≠ o.data ∧
      b₂.end_ ≤ (s₂.data b₂.data).size := by
  obtain ⟨b₁, s₁, real, holds₁, alone₁, keeps₁, -⟩ := becomeReal_of_zeros profile h zeros
  obtain ⟨b₂, s₂, run, grown⟩ := alone₁.addAtEnd profile holds₁ o.size
  have back := grown.back
  refine ⟨b₂, s₂, ?_, ⟨grown.holds, keeps₁.trans grown.keeps, Nat.le_refl _, by omega⟩,
    Ne.symm (grown.alone.apart o mem), grown.alone.end_le grown.holds⟩
  rw [addBufferAtEnd_of_apart profile o apart, real, bind_some, run, bind_some]

/-- A buffer without zero area may go on sharing its storage. -/
theorem prepared_of_flat (profile : BuildProfile) (h : Holds s (b :: rest)) (mem : o ∈ rest)
    (apart : ¬ b.aggregates o s = true) (flat : b.zeroSize = 0) :
    ∃ b₂ s₂, b.addBufferAtEnd profile o s = b₂.writeTail profile o.size o s₂ ∧
      Prepared o.size o rest s b₂ s₂ ∧
      (b₂.data = o.data ↔ b.StaysAtEnd o.size s ∧ b.data = o.data) ∧
      b₂.end_ ≤ (s₂.data b₂.data).size := by
  obtain ⟨s₁, real, holds₁, block, keeps₁⟩ := becomeReal_of_none profile h flat
  have sound := h.head
  have area := sound.zeroEnd
  have after := sound.end_
  have empty : b.zeroAreaStart = b.zeroAreaEnd := by
    unfold zeroSize at flat
    omega
  have run := addBufferAtEnd_of_apart profile o apart
  rw [real, bind_some] at run
  have same : (b.copy s).1.StaysAtEnd o.size s₁ ↔ b.StaysAtEnd o.size s := by
    show b.internalEnd + o.size ≤ (s₁.data b.data).size ∧
      ((s₁.data b.data).count = 1 ∨ b.end_ = (s₁.data b.data).dirtyEnd) ↔ b.StaysAtEnd o.size s
    rw [block]
    exact Iff.rfl
  by_cases stays : b.StaysAtEnd o.size s
  · obtain ⟨s₂, added, holds₂, keeps₂, size_⟩ := addAtEnd_stays profile holds₁ (same.mpr stays)
    rw [added, bind_some] at run
    refine ⟨_, s₂, run, ⟨holds₂, keeps₁.trans keeps₂.tail, Nat.le_refl _, ?_⟩, ?_, ?_⟩
    · show b.zeroAreaEnd + o.size ≤ b.end_ + o.size
      omega
    · exact (and_iff_right stays).symm
    · have fits := stays.1
      unfold internalEnd at fits
      show b.end_ + o.size ≤ (s₂.data (b.copy s).1.data).size
      rw [size_]
      show b.end_ + o.size ≤ (s₁.data b.data).size
      rw [block]
      omega
  · obtain ⟨s₂, added, holds₂, others, keeps₂, -⟩ :=
      addAtEnd_moves profile holds₁ (mt same.mp stays)
    rw [added, bind_some] at run
    refine ⟨_, s₂, run, ⟨holds₂, keeps₁.trans keeps₂.tail, Nat.le_refl _, ?_⟩, ?_, ?_⟩
    · show b.zeroAreaEnd - b.start + o.size ≤ b.end_ - b.start + o.size
      omega
    · constructor
      · intro shared
        exact absurd shared.symm (others o (mem_cons_of_mem _ mem))
      · intro both
        exact absurd both.1 stays
    · have inside := holds₂.head.inside
      refine Nat.le_trans ?_ inside
      show b.end_ - b.start + o.size ≤ b.end_ - b.start + o.size -
        (b.zeroAreaEnd - b.start - (b.zeroAreaStart - b.start))
      omega

theorem prepared (profile : BuildProfile) (h : Holds s (b :: rest)) (mem : o ∈ rest) :
    ∃ n b₂ s₂, b.addBufferAtEnd profile o s = b₂.writeTail profile n o s₂ ∧
      Prepared n o rest s b₂ s₂ := by
  by_cases adjacent : b.aggregates o s = true
  · obtain ⟨b₂, s₂, run, made, -⟩ := prepared_of_aggregates profile h mem adjacent
    exact ⟨_, b₂, s₂, run, made⟩
  · by_cases flat : b.zeroSize = 0
    · obtain ⟨b₂, s₂, run, made, -⟩ := prepared_of_flat profile h mem adjacent flat
      exact ⟨_, b₂, s₂, run, made⟩
    · obtain ⟨b₂, s₂, run, made, -⟩ := prepared_of_zeros profile h mem adjacent flat
      exact ⟨_, b₂, s₂, run, made⟩

end Prepared

/-! ## The result -/

section Result

variable {n : Nat} {s₂ : Storage} {b₂ : Buffer}

theorem contents_eq_of_bytes (same : (t.data o.data).bytes = (s.data o.data).bytes) :
    o.contents t = o.contents s := by
  unfold contents
  rw [same]

section

variable (made : Prepared n o rest s b₂ s₂)
include made

theorem Prepared.holds_of_run {r : Buffer × Storage}
    (run : b₂.writeTail profile n o s₂ = some r) : Holds r.2 (r.1 :: rest) := by
  simp only [writeTail, BufferIterator.prev, bind_returns, pure_returns] at run
  obtain ⟨dst, ⟨-, -, rfl⟩, src, ⟨-, -, rfl⟩, t, written, rfl⟩ := run
  exact made.holds.written (writeRange_written written)

theorem Prepared.contents (mem : o ∈ rest)
    {r : Buffer × Storage} (run : b₂.writeTail profile n o s₂ = some r)
    (apart : b₂.data ≠ o.data) : o.contents r.2 = o.contents s := by
  refine contents_eq_of_bytes ?_
  rw [writeTail_keeps run (Ne.symm apart)]
  exact made.keeps o mem

/-- The append satisfies every assertion that it reaches, stays within the storage, and leaves
the other buffer unchanged. -/
def AppendsWell (b o : Buffer) (s : Storage) : Prop :=
  ∃ r, b.addBufferAtEnd .debug o s = some r ∧ o.contents r.2 = o.contents s

/-- Either two zero areas are put together and the bytes behind the second one fit, or the storage
is not shared any more when it is written. -/
def Appendable (b o : Buffer) (s : Storage) : Prop :=
  if b.aggregates o s then o.end_ = o.zeroAreaEnd ∨ b.TailFits o s
  else b.zeroSize = 0 → b.data = o.data → ¬ b.StaysAtEnd o.size s
  deriving Decidable

theorem Prepared.appendsWell_iff (mem : o ∈ rest)
    (run : b.addBufferAtEnd .debug o s = b₂.writeTail .debug n o s₂) :
    b.AppendsWell o s ↔ b₂.data ≠ o.data ∧ (n = 0 ∨ b₂.end_ ≤ (s₂.data b₂.data).size) := by
  have source := made.holds.sound o (mem_cons_of_mem b₂ mem)
  have sound := made.holds.head
  have returns := writeTail_returns_iff source made.enough sound.zeroStart sound.zeroEnd made.behind
  unfold AppendsWell
  rw [run]
  constructor
  · rintro ⟨r, written, -⟩
    exact returns.mp ⟨r, written⟩
  · intro fits
    obtain ⟨r, written⟩ := returns.mpr fits
    exact ⟨r, written, made.contents mem written fits.1⟩

end

theorem appendsWell_iff_appendable (h : Holds s (b :: rest)) (mem : o ∈ rest) :
    b.AppendsWell o s ↔ b.Appendable o s := by
  unfold Appendable
  by_cases adjacent : b.aggregates o s = true
  · obtain ⟨b₂, s₂, run, made, other, fits⟩ := prepared_of_aggregates .debug h mem adjacent
    have after := (h.sound o (mem_cons_of_mem b mem)).end_
    rw [if_pos adjacent, made.appendsWell_iff mem run, and_iff_right other, fits]
    exact or_congr_left (by omega)
  · rw [if_neg adjacent]
    by_cases flat : b.zeroSize = 0
    · obtain ⟨b₂, s₂, run, made, shared, fits⟩ := prepared_of_flat .debug h mem adjacent flat
      rw [made.appendsWell_iff mem run, and_iff_left (.inr fits), Ne, shared, not_and]
      constructor
      · intro apart _ same stays
        exact apart stays same
      · intro apart stays same
        exact apart flat same stays
    · obtain ⟨b₂, s₂, run, made, other, fits⟩ := prepared_of_zeros .debug h mem adjacent flat
      rw [made.appendsWell_iff mem run]
      constructor
      · intro _ zeros
        exact absurd zeros flat
      · intro _
        exact ⟨other, .inr fits⟩

end Result

end Ns3.Buffer
