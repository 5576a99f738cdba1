import Ns3.Network.Buffer.Adding

/-!
# Full copies

`CreateFullCopy` gives a buffer with a zero area storage of its own, in which the zeros are
written out. It always returns. A buffer without zero area is merely copied, and goes on sharing
its storage.
-/

namespace Ns3.Buffer

variable {profile : BuildProfile} {s t u : Storage} {a b o : Buffer} {live rest : List Buffer}

/-- A buffer without zero area that has its storage to itself. -/
structure Alone (b : Buffer) (live : List Buffer) : Prop where
  apart : ∀ o ∈ live, o.data ≠ b.data
  flat : b.zeroAreaStart = b.zeroAreaEnd

theorem KeepsBytes.trans (first : KeepsBytes live s t) (second : KeepsBytes live t u) :
    KeepsBytes live s u :=
  fun o mem => (second o mem).trans (first o mem)

theorem KeepsBytes.tail (h : KeepsBytes (b :: rest) s t) : KeepsBytes rest s t :=
  fun o mem => h o (List.mem_cons_of_mem b mem)

/-- A buffer that is alone, after bytes were added to it. -/
structure Grown (before after : Nat) (b : Buffer) (live : List Buffer) (s : Storage)
    (b' : Buffer) (t : Storage) : Prop where
  holds : Holds t (b' :: live)
  alone : Alone b' live
  keeps : KeepsBytes live s t
  front : b'.zeroAreaStart = b'.start + (b.zeroAreaStart - b.start + before)
  back : b'.end_ = b'.zeroAreaEnd + (b.end_ - b.zeroAreaEnd + after)

theorem Alone.addAtStart (profile : BuildProfile) (alone : Alone b live)
    (h : Holds s (b :: live)) (n : Nat) :
    ∃ b' t, b.addAtStart profile n s = some (b', t) ∧ Grown n 0 b live s b' t := by
  have sound := h.head
  have order := sound.zeroStart
  have after := sound.end_
  have flat := alone.flat
  by_cases stays : b.StaysAtStart n s
  · obtain ⟨t, run, holds, keeps⟩ := addAtStart_stays profile h stays
    have room := stays.1
    refine ⟨_, t, run, holds, ⟨alone.apart, flat⟩, keeps.tail, ?_, ?_⟩
    · simp only [earlier, noteZeroArea]
      omega
    · simp only [earlier, noteZeroArea]
      omega
  · obtain ⟨t, run, holds, apart, keeps⟩ := addAtStart_moves profile h stays
    refine ⟨_, t, run, holds, ⟨fun o mem => apart o (List.mem_cons_of_mem b mem), ?_⟩, keeps.tail,
      ?_, ?_⟩
    · simp only [movedEarlier, noteZeroArea, flat]
    · simp only [movedEarlier, noteZeroArea]
      omega
    · simp only [movedEarlier, noteZeroArea]
      omega

theorem Alone.addAtEnd (profile : BuildProfile) (alone : Alone b live)
    (h : Holds s (b :: live)) (n : Nat) :
    ∃ b' t, b.addAtEnd profile n s = some (b', t) ∧ Grown 0 n b live s b' t := by
  have sound := h.head
  have order := sound.zeroStart
  have after := sound.end_
  have flat := alone.flat
  by_cases stays : b.StaysAtEnd n s
  · obtain ⟨t, run, holds, keeps, -⟩ := addAtEnd_stays profile h stays
    refine ⟨_, t, run, holds, ⟨alone.apart, flat⟩, keeps.tail, ?_, ?_⟩
    · simp only [longer, noteZeroArea]
      omega
    · simp only [longer, noteZeroArea]
      omega
  · obtain ⟨t, run, holds, apart, keeps, -⟩ := addAtEnd_moves profile h stays
    refine ⟨_, t, run, holds, ⟨fun o mem => apart o (List.mem_cons_of_mem b mem), ?_⟩, keeps.tail,
      ?_, ?_⟩
    · simp only [movedLonger, noteZeroArea, flat]
    · simp only [movedLonger, noteZeroArea]
      omega
    · simp only [movedLonger, noteZeroArea]
      omega

theorem write_apart (h : Holds s (b :: live)) (apart : ∀ o ∈ live, o.data ≠ b.data)
    {offset : Nat} {bytes : List Byte} (run : s.write b.data offset bytes = some t) :
    Holds t (b :: live) ∧ KeepsBytes live s t := by
  have written := Storage.write_spec run
  exact ⟨h.written written, fun o mem => by rw [written.others _ (apart o mem)]⟩

theorem Alone.end_le (alone : Alone b live) (h : Holds s (b :: live)) :
    b.end_ ≤ (s.data b.data).size := by
  have inside := h.head.inside
  have flat := alone.flat
  unfold internalEnd zeroSize at inside
  omega

/-- No range within such a buffer meets a zero area. -/
theorem Alone.checkNoZero (alone : Alone b live) {i : BufferIterator} {start stop : Nat}
    (zeroStart : i.zeroStart = b.zeroAreaStart) (zeroEnd : i.zeroEnd = b.zeroAreaEnd)
    (low : i.dataStart ≤ start) (high : stop ≤ i.dataEnd) : i.checkNoZero start stop = true := by
  have flat := alone.flat
  have empty : (i.zeroEnd != i.zeroStart) = false := by
    rw [zeroStart, zeroEnd, flat]
    exact bne_self_eq_false _
  unfold BufferIterator.checkNoZero
  rw [empty, Bool.and_false, Bool.false_and, Bool.or_false, Bool.not_eq_true',
    Bool.or_eq_false_iff, decide_eq_false_iff_not, decide_eq_false_iff_not]
  omega

/-- The bytes at the front of a buffer are written. -/
theorem Alone.write_front (alone : Alone b live) (h : Holds s (b :: live)) (bytes : List Byte)
    (fits : bytes.length ≤ b.zeroAreaStart - b.start) :
    ∃ t, s.write b.data b.begin.offset bytes = some t ∧ Holds t (b :: live) ∧
      KeepsBytes live s t := by
  have order := h.head.zeroStart
  have ends := h.head.end_
  have flat := alone.flat
  have inside := alone.end_le h
  have offset : b.begin.offset = b.start := by
    unfold BufferIterator.offset begin
    rw [if_pos order]
  rw [offset]
  obtain ⟨t, run⟩ := Storage.write_isSome_iff.mpr
    (.inr (show b.start + bytes.length ≤ (s.data b.data).size by omega))
  exact ⟨t, run, write_apart h alone.apart run⟩

/-- The bytes behind the place of the zero area are written. -/
theorem Alone.write_back (alone : Alone b live) (h : Holds s (b :: live)) (bytes : List Byte)
    {i : BufferIterator} (data : i.data = b.data) (zeroStart : i.zeroStart = b.zeroAreaStart)
    (current : i.current = b.zeroAreaStart) (fits : b.zeroAreaStart + bytes.length ≤ b.end_) :
    ∃ t, s.write i.data i.offset bytes = some t ∧ Holds t (b :: live) ∧ KeepsBytes live s t := by
  have inside := alone.end_le h
  have offset : i.offset = b.zeroAreaStart := by
    unfold BufferIterator.offset
    rw [current, zeroStart, if_pos (Nat.le_refl _)]
  rw [offset, data]
  obtain ⟨t, run⟩ := Storage.write_isSome_iff.mpr
    (.inr (show b.zeroAreaStart + bytes.length ≤ (s.data b.data).size by omega))
  exact ⟨t, run, write_apart h alone.apart run⟩

/-- The constructor takes a block that nobody refers to. -/
theorem alone_construct (h : Holds s live) :
    Alone (construct 0 s).1 live ∧ KeepsBytes live s (construct 0 s).2 := by
  have created := h.counted.create 0
  have apart : ∀ o ∈ live, o.data ≠ (s.create 0).1 := fun o mem same =>
    created.unused (List.mem_map.mpr ⟨o, mem, same⟩)
  refine ⟨⟨apart, rfl⟩, fun o mem => ?_⟩
  have block : (construct 0 s).2.data o.data = s.data o.data :=
    (setDirty_data_of_ne (apart o mem) _ _ _).trans (created.same _ (apart o mem))
  rw [block]

/-- The bytes in front of the zero area and behind it are there to be read. -/
theorem read_parts (h : Holds s live) (mem : b ∈ live) :
    (∃ bytes, s.read b.data b.start (b.zeroAreaStart - b.start) = some bytes ∧
        bytes.length = b.zeroAreaStart - b.start) ∧
      ∃ bytes, s.read b.data b.zeroAreaStart (b.end_ - b.zeroAreaEnd) = some bytes ∧
        bytes.length = b.end_ - b.zeroAreaEnd := by
  have sound := h.sound b mem
  have order := sound.zeroStart
  have area := sound.zeroEnd
  have after := sound.end_
  have inside := sound.inside
  unfold internalEnd zeroSize at inside
  exact ⟨Storage.read_of_le (by omega), Storage.read_of_le (by omega)⟩

/-- A full copy has the size of the original, and storage that nobody else refers to. -/
structure FullCopy (b : Buffer) (live : List Buffer) (s : Storage) (tmp : Buffer) (t : Storage) :
    Prop where
  holds : Holds t (tmp :: live)
  alone : Alone tmp live
  keeps : KeepsBytes live s t
  size : tmp.end_ = tmp.start + b.size

theorem realCopy_spec (profile : BuildProfile) (h : Holds s live) (mem : b ∈ live) :
    ∃ tmp t, b.realCopy profile s = some (tmp, t) ∧ FullCopy b live s tmp t := by
  obtain ⟨alone₀, keeps₀⟩ := alone_construct h
  have holds₀ : Holds (construct 0 s).2 ((construct 0 s).1 :: live) := holds_construct h 0
  have empty : (construct 0 s).1.zeroAreaStart = (construct 0 s).1.start ∧
      (construct 0 s).1.end_ = (construct 0 s).1.zeroAreaEnd := ⟨rfl, rfl⟩
  -- The zeros.
  obtain ⟨b₁, s₁, run₁, grown₁⟩ := alone₀.addAtStart profile holds₀ b.zeroSize
  have flat₁ := grown₁.alone.flat
  have front₁ := grown₁.front
  have back₁ := grown₁.back
  have check₁ : b₁.begin.checkNoZero b₁.begin.current (b₁.begin.current + b.zeroSize) = true :=
    grown₁.alone.checkNoZero rfl rfl (Nat.le_refl _)
      (show b₁.start + b.zeroSize ≤ b₁.end_ by omega)
  obtain ⟨s₂, zeros, holds₂, keeps₂⟩ := grown₁.alone.write_front grown₁.holds
    (List.replicate b.zeroSize 0) (by rw [List.length_replicate]; omega)
  -- The bytes in front of them.
  obtain ⟨b₃, s₃, run₃, grown₃⟩ := grown₁.alone.addAtStart profile holds₂
    (b.zeroAreaStart - b.start)
  have flat₃ := grown₃.alone.flat
  have front₃ := grown₃.front
  have back₃ := grown₃.back
  obtain ⟨⟨bytes₃, read₃, length₃⟩, -⟩ := read_parts grown₃.holds (List.mem_cons_of_mem b₃ mem)
  have check₃ : b₃.begin.checkNoZero b₃.begin.current bytes₃.length = true :=
    grown₃.alone.checkNoZero rfl rfl (Nat.le_refl _) (show bytes₃.length ≤ b₃.end_ by omega)
  obtain ⟨s₄, before, holds₄, keeps₄⟩ := grown₃.alone.write_front grown₃.holds bytes₃ (by omega)
  -- The bytes behind them.
  obtain ⟨b₅, s₅, run₅, grown₅⟩ := grown₃.alone.addAtEnd profile holds₄ (b.end_ - b.zeroAreaEnd)
  have flat₅ := grown₅.alone.flat
  have front₅ := grown₅.front
  have back₅ := grown₅.back
  obtain ⟨-, bytes₅, read₅, length₅⟩ := read_parts grown₅.holds (List.mem_cons_of_mem b₅ mem)
  have start₅ : b₅.end_ - (b.end_ - b.zeroAreaEnd) = b₅.zeroAreaStart := by omega
  have prev₅ : b₅.endIterator.prev profile (b.end_ - b.zeroAreaEnd) =
      some { b₅.endIterator with current := b₅.zeroAreaStart } := by
    have enough : (decide (b.end_ - b.zeroAreaEnd ≤ b₅.endIterator.current)) = true :=
      decide_eq_true (show b.end_ - b.zeroAreaEnd ≤ b₅.end_ by omega)
    rw [BufferIterator.prev, enough, nsAssert_true, ← start₅]
    rfl
  have check₅ : ({ b₅.endIterator with current := b₅.zeroAreaStart } :
      BufferIterator).checkNoZero b₅.zeroAreaStart bytes₅.length = true :=
    grown₅.alone.checkNoZero rfl rfl (show b₅.start ≤ b₅.zeroAreaStart by omega)
      (show bytes₅.length ≤ b₅.end_ by omega)
  obtain ⟨s₆, behind, holds₆, keeps₆⟩ := grown₅.alone.write_back grown₅.holds bytes₅
    (i := { b₅.endIterator with current := b₅.zeroAreaStart }) rfl rfl rfl (by omega)
  have keeps := ((((keeps₀.trans grown₁.keeps).trans keeps₂).trans grown₃.keeps).trans
    keeps₄).trans (grown₅.keeps.trans keeps₆)
  refine ⟨b₅, s₆, ?_, holds₆, grown₅.alone, keeps, ?_⟩
  · have zeros' : b₁.begin.writeU8 profile 0 b.zeroSize s₁ = some s₂ := by
      rw [BufferIterator.writeU8, check₁, nsAssert_true]
      exact zeros
    have before' : b₃.begin.writeBytes profile bytes₃ s₃ = some s₄ := by
      rw [BufferIterator.writeBytes, check₃, nsAssert_true]
      exact before
    have behind' : ({ b₅.endIterator with current := b₅.zeroAreaStart } :
        BufferIterator).writeBytes profile bytes₅ s₅ = some s₆ := by
      rw [BufferIterator.writeBytes, check₅, nsAssert_true]
      exact behind
    simp only [realCopy, run₁, zeros', run₃, read₃, before', run₅, prev₅, read₅, behind', some_bind,
      pure_some]
  · have sound := h.sound b mem
    have order := sound.zeroStart
    have area := sound.zeroEnd
    have after := sound.end_
    unfold size zeroSize at *
    omega

/-! ## Assignment of the copy -/

theorem SameBlock.trans {x y z : BufferData} (first : SameBlock x y) (second : SameBlock y z) :
    SameBlock x z := by
  rw [SameBlock, second, first]

theorem sameBlock_assign (b o : Buffer) (d : Nat) (s : Storage) :
    SameBlock (s.data d) ((b.assign o s).2.data d) := by
  unfold assign recommend
  split
  · rfl
  · exact (sameBlock_release b.data d s).trans (sameBlock_refer o.data d _)

theorem sameBlock_destroy (b : Buffer) (d : Nat) (s : Storage) :
    SameBlock (s.data d) ((b.destroy s).data d) :=
  sameBlock_release b.data d (recommend b.maxZeroAreaStart s)

/-- The temporary is assigned and destroyed. -/
theorem assign_destroy (h : Holds s (o :: b :: rest)) :
    Holds (o.destroy (b.assign o s).2) (o :: rest) ∧
      ∀ d, SameBlock (s.data d) ((o.destroy (b.assign o s).2).data d) := by
  have swapped : Holds s (b :: o :: rest) := h.perm (List.Perm.swap ..)
  have assigned : Holds (b.assign o s).2 (o :: o :: rest) :=
    holds_assign swapped (List.mem_cons_self ..)
  exact ⟨holds_destroy assigned, fun d =>
    (sameBlock_assign b o d s).trans (sameBlock_destroy o d _)⟩

/-- A zero area is written out into storage of its own. -/
theorem becomeReal_of_zeros (profile : BuildProfile) (h : Holds s (b :: rest))
    (zeros : b.zeroSize ≠ 0) :
    ∃ b' t, b.becomeReal profile s = some (b', t) ∧ Holds t (b' :: rest) ∧ Alone b' rest ∧
      KeepsBytes rest s t ∧ b'.end_ = b'.start + b.size := by
  obtain ⟨tmp, t, run, made⟩ := realCopy_spec profile h (List.mem_cons_self ..)
  obtain ⟨holds, same⟩ := assign_destroy made.holds
  refine ⟨tmp, _, ?_, holds, ⟨fun o mem => made.alone.apart o (List.mem_cons_of_mem b mem),
    made.alone.flat⟩, made.keeps.tail.trans fun o _ => (same o.data).bytes, made.size⟩
  simp only [becomeReal, createFullCopy, if_pos zeros, run, some_bind, pure_some]
  rfl

/-- Without zero area nothing changes. -/
theorem becomeReal_of_none (profile : BuildProfile) (h : Holds s (b :: rest))
    (none_ : b.zeroSize = 0) :
    ∃ t, b.becomeReal profile s = some ((b.copy s).1, t) ∧ Holds t ((b.copy s).1 :: rest) ∧
      t.data b.data = s.data b.data ∧ KeepsBytes rest s t := by
  have copied : Holds (b.copy s).2 ((b.copy s).1 :: b :: rest) :=
    holds_copy h (List.mem_cons_self ..)
  obtain ⟨holds, same⟩ := assign_destroy copied
  have blocks : ∀ d, SameBlock (s.data d)
      (((b.copy s).1.destroy (b.assign (b.copy s).1 (b.copy s).2).2).data d) := fun d =>
    (sameBlock_refer b.data d s).trans (same d)
  refine ⟨_, ?_, holds, ?_, fun o _ => (blocks o.data).bytes⟩
  · simp only [becomeReal, createFullCopy, if_neg (not_not_intro none_), some_bind, pure_some]
    rfl
  · have count : (((b.copy s).1.destroy (b.assign (b.copy s).1 (b.copy s).2).2).data
        b.data).count = (s.data b.data).count := by
      rw [holds.counted.count, h.counted.count]
      rfl
    rw [blocks b.data, count]

end Ns3.Buffer
