import Ns3.Network.Buffer.Sharing

/-!
# Adding bytes to a buffer

`AddAtStart` and `AddAtEnd` stay in the block of the buffer when it has room outside of its dirty
area, and move to a block of their own otherwise. They always return, and change nothing that
another buffer reads.
-/

namespace Ns3.Buffer

variable {s t : Storage} {a b o : Buffer} {live rest : List Buffer}

/-- Nothing that another buffer reads has changed. -/
def KeepsBytes (live : List Buffer) (s t : Storage) : Prop :=
  ∀ o ∈ live, (t.data o.data).bytes = (s.data o.data).bytes

theorem SameBlock.bytes {x y : BufferData} (same : SameBlock x y) : y.bytes = x.bytes := by
  rw [same]

/-- Within its block a buffer may be moved, if the dirty area still covers all that share it. -/
theorem stay_spec (h : Holds s (b :: rest)) {dirtyStart dirtyEnd : Nat} (b' : Buffer)
    (data : b'.data = b.data)
    (covers : (s.data b.data).count = 1 ∨
      dirtyStart ≤ (s.data b.data).dirtyStart ∧ (s.data b.data).dirtyEnd ≤ dirtyEnd)
    (sound : Sound { s.data b.data with dirtyStart, dirtyEnd } b') :
    Holds (s.setDirty b.data dirtyStart dirtyEnd) (b' :: rest) ∧
      KeepsBytes (b :: rest) s (s.setDirty b.data dirtyStart dirtyEnd) := by
  refine ⟨⟨?_, fun o mem => ?_⟩, fun o _ => ?_⟩
  · rw [List.map_cons, data]
    exact counted_setDirty h.counted _ _ _
  · rcases List.mem_cons.mp mem with rfl | mem
    · rw [data, setDirty_data]
      exact sound
    · have kept := h.sound o (List.mem_cons_of_mem b mem)
      by_cases same : o.data = b.data
      · rw [same] at kept
        rw [same, setDirty_data]
        rcases covers with alone | ⟨low, high⟩
        · exact absurd same (h.count_eq_one_iff.mp alone o mem)
        · exact kept.mono (Nat.le_refl _) low high
      · rwa [setDirty_data_of_ne same]
  · by_cases same : o.data = b.data
    · rw [same, setDirty_data]
    · rw [setDirty_data_of_ne same]

/-- A block of at least `n` bytes was created, and the bytes of a buffer were copied into it. The
buffer that is `Placed` in it takes the place of the old one. -/
theorem move_spec (h : Holds s (b :: rest)) (n offset : Nat)
    (fits : offset + b.internalSize ≤ n) :
    ∃ bytes t, (s.create n).2.read b.data b.start b.internalSize = some bytes ∧
      (s.create n).2.write (s.create n).1 offset bytes = some t ∧
      (t.data (s.create n).1).size = ((s.create n).2.data (s.create n).1).size ∧
      ∀ b' : Buffer, b'.data = (s.create n).1 → Placed n b' →
        Holds ((t.release b.data).setDirty b'.data b'.start b'.end_) (b' :: rest) ∧
          (∀ o ∈ b :: rest, o.data ≠ b'.data) ∧
          KeepsBytes (b :: rest) s ((t.release b.data).setDirty b'.data b'.start b'.end_) := by
  have created := h.counted.create n
  have sound := h.head
  have span : b.start + b.internalSize = b.internalEnd := by
    have := sound.zeroStart
    have := sound.zeroEnd
    have := sound.end_
    unfold internalSize internalEnd zeroSize
    omega
  have apart : ∀ o ∈ b :: rest, o.data ≠ (s.create n).1 := fun o mem same =>
    created.unused (List.mem_map.mpr ⟨o, mem, same⟩)
  have inside : b.start + b.internalSize ≤ ((s.create n).2.data b.data).size := by
    rw [created.same _ (apart b (List.mem_cons_self ..)), span]
    exact sound.inside
  obtain ⟨bytes, read, length⟩ := Storage.read_of_le inside
  have room : offset + bytes.length ≤ ((s.create n).2.data (s.create n).1).size := by
    rw [length]
    exact Nat.le_trans fits created.large
  obtain ⟨t, write⟩ := Storage.write_isSome_iff.mpr (.inr room)
  have written := Storage.write_spec write
  have size := written.congr BufferData.size (fun _ _ => rfl) (s.create n).1
  refine ⟨bytes, t, read, write, size, fun b' same placed => ?_⟩
  rw [same]
  have counted : Storage.Counted t (b.data :: (s.create n).1 :: rest.map (·.data)) :=
    (written.counted created.counted).perm (List.Perm.swap ..)
  have kept : ∀ o ∈ b :: rest,
      SameBlock (s.data o.data)
        (((t.release b.data).setDirty (s.create n).1 b'.start b'.end_).data o.data) := by
    intro o mem
    have block := (written.others _ (apart o mem)).trans (created.same _ (apart o mem))
    have released := sameBlock_release b.data o.data t
    rw [setDirty_data_of_ne (apart o mem)]
    rwa [block] at released
  refine ⟨⟨?_, ?_⟩, apart, fun o mem => (kept o mem).bytes⟩
  · rw [List.map_cons, same]
    exact counted_setDirty counted.release _ _ _
  · intro o mem
    rcases List.mem_cons.mp mem with rfl | mem
    · have large : n ≤ ((t.release b.data).data o.data).size := by
        have block := sameBlock_release b.data o.data t
        rw [block, same]
        exact Nat.le_trans created.large (Nat.le_of_eq size.symm)
      rw [← same]
      exact Placed.sound ⟨placed.1, placed.2, placed.3, Nat.le_trans placed.4 large⟩
    · exact (kept o (List.mem_cons_of_mem b mem)).sound (h.sound o (List.mem_cons_of_mem b mem))

/-- The condition of `AddAtEnd` to stay in the block. -/
def StaysAtEnd (n : Nat) (b : Buffer) (s : Storage) : Prop :=
  b.internalEnd + n ≤ (s.data b.data).size ∧
    ((s.data b.data).count = 1 ∨ b.end_ = (s.data b.data).dirtyEnd)
  deriving Decidable

theorem staysAtEnd_iff (h : Holds s (b :: rest)) (n : Nat) :
    (b.internalEnd + n ≤ (s.data b.data).size &&
        !(1 < (s.data b.data).count && b.end_ < (s.data b.data).dirtyEnd)) = true ↔
      b.StaysAtEnd n s := by
  have pos := h.count_pos
  have dirty := h.head.dirtyEnd
  unfold StaysAtEnd
  simp only [Bool.and_eq_true, Bool.not_eq_true', Bool.and_eq_false_iff, decide_eq_true_eq,
    decide_eq_false_iff_not]
  omega

/-- The buffer after `AddAtEnd` in its block. -/
def longer (n : Nat) (b : Buffer) : Buffer := noteZeroArea { b with end_ := b.end_ + n }

/-- The buffer after `AddAtEnd` in another block. -/
def movedLonger (n data : Nat) (b : Buffer) : Buffer :=
  noteZeroArea { b with
    data, start := 0
    zeroAreaStart := b.zeroAreaStart - b.start
    zeroAreaEnd := b.zeroAreaEnd - b.start
    end_ := b.end_ - b.start + n }

theorem addAtEnd_stays (profile : BuildProfile) (h : Holds s (b :: rest)) {n : Nat}
    (stays : b.StaysAtEnd n s) :
    ∃ t, b.addAtEnd profile n s = some (b.longer n, t) ∧ Holds t (b.longer n :: rest) ∧
      KeepsBytes (b :: rest) s t ∧ (t.data b.data).size = (s.data b.data).size := by
  have sound := h.head
  have clean : ((s.data b.data).count == 1 || b.end_ == (s.data b.data).dirtyEnd) = true := by
    simpa only [Bool.or_eq_true, beq_iff_eq] using stays.2
  have room := stays.1
  have order := sound.3
  have longer : Sound { s.data b.data with dirtyEnd := b.end_ + n } (b.longer n) := by
    refine ⟨sound.1, sound.2, Nat.le_add_right_of_le sound.3, ?_, sound.5, Nat.le_refl _⟩
    simp only [internalEnd, zeroSize, Buffer.longer, noteZeroArea] at room ⊢
    omega
  have covers : (s.data b.data).count = 1 ∨
      (s.data b.data).dirtyStart ≤ (s.data b.data).dirtyStart ∧
        (s.data b.data).dirtyEnd ≤ b.end_ + n :=
    stays.2.imp_right fun ends => ⟨Nat.le_refl _, by omega⟩
  obtain ⟨holds, keeps⟩ := stay_spec h (b.longer n) rfl covers longer
  refine ⟨_, ?_, holds, keeps, ?_⟩
  · simp only [addAtEnd]
    rw [if_pos ((staysAtEnd_iff h n).mpr stays), clean, nsAssert_true]
    rfl
  · rw [setDirty_data]

theorem addAtEnd_moves (profile : BuildProfile) (h : Holds s (b :: rest)) {n : Nat}
    (moves : ¬ b.StaysAtEnd n s) :
    ∃ t, b.addAtEnd profile n s =
        some (b.movedLonger n (s.create (b.internalSize + n)).1, t) ∧
      Holds t (b.movedLonger n (s.create (b.internalSize + n)).1 :: rest) ∧
      (∀ o ∈ b :: rest, o.data ≠ (s.create (b.internalSize + n)).1) ∧
      KeepsBytes (b :: rest) s t ∧
      (t.data (s.create (b.internalSize + n)).1).size =
        ((s.create (b.internalSize + n)).2.data (s.create (b.internalSize + n)).1).size := by
  have sound := h.head
  obtain ⟨bytes, t, read, write, size, placed⟩ := move_spec h (b.internalSize + n) 0
    (by omega)
  have area := sound.zeroEnd
  have after := sound.end_
  obtain ⟨holds, apart, keeps⟩ := placed (b.movedLonger n (s.create (b.internalSize + n)).1) rfl
    ⟨Nat.zero_le _, by simp only [movedLonger, noteZeroArea]; omega,
      by simp only [movedLonger, noteZeroArea]; omega, by
        simp only [movedLonger, noteZeroArea, internalEnd, internalSize, zeroSize]
        omega⟩
  refine ⟨_, ?_, holds, apart, keeps, ?_⟩
  · simp only [addAtEnd]
    rw [if_neg (fun stays => moves ((staysAtEnd_iff h n).mp stays))]
    simp only [read, write, some_bind]
    rfl
  · have same : (b.movedLonger n (s.create (b.internalSize + n)).1).data =
        (s.create (b.internalSize + n)).1 := rfl
    rw [same, setDirty_data, ← size]
    have released := sameBlock_release b.data (s.create (b.internalSize + n)).1 t
    rw [released]

/-- The condition of `AddAtStart` to stay in the block. -/
def StaysAtStart (n : Nat) (b : Buffer) (s : Storage) : Prop :=
  n ≤ b.start ∧ ((s.data b.data).count = 1 ∨ b.start = (s.data b.data).dirtyStart)
  deriving Decidable

theorem staysAtStart_iff (h : Holds s (b :: rest)) (n : Nat) :
    (n ≤ b.start &&
        !(1 < (s.data b.data).count && (s.data b.data).dirtyStart < b.start)) = true ↔
      b.StaysAtStart n s := by
  have pos := h.count_pos
  have dirty := h.head.dirtyStart
  unfold StaysAtStart
  simp only [Bool.and_eq_true, Bool.not_eq_true', Bool.and_eq_false_iff, decide_eq_true_eq,
    decide_eq_false_iff_not]
  omega

/-- The buffer after `AddAtStart` in its block. -/
def earlier (n : Nat) (b : Buffer) : Buffer := noteZeroArea { b with start := b.start - n }

/-- The buffer after `AddAtStart` in another block. -/
def movedEarlier (n data : Nat) (b : Buffer) : Buffer :=
  noteZeroArea { b with
    data, start := 0
    zeroAreaStart := b.zeroAreaStart + n - b.start
    zeroAreaEnd := b.zeroAreaEnd + n - b.start
    end_ := b.end_ + n - b.start }

theorem addAtStart_stays (profile : BuildProfile) (h : Holds s (b :: rest)) {n : Nat}
    (stays : b.StaysAtStart n s) :
    ∃ t, b.addAtStart profile n s = some (b.earlier n, t) ∧ Holds t (b.earlier n :: rest) ∧
      KeepsBytes (b :: rest) s t := by
  have sound := h.head
  have clean : ((s.data b.data).count == 1 || b.start == (s.data b.data).dirtyStart) = true := by
    simpa only [Bool.or_eq_true, beq_iff_eq] using stays.2
  have earlier : Sound { s.data b.data with dirtyStart := b.start - n } (b.earlier n) :=
    ⟨Nat.le_trans (Nat.sub_le _ _) sound.1, sound.2, sound.3, sound.4, Nat.le_refl _, sound.6⟩
  have covers : (s.data b.data).count = 1 ∨
      b.start - n ≤ (s.data b.data).dirtyStart ∧
        (s.data b.data).dirtyEnd ≤ (s.data b.data).dirtyEnd :=
    stays.2.imp_right fun starts => ⟨by omega, Nat.le_refl _⟩
  obtain ⟨holds, keeps⟩ := stay_spec h (b.earlier n) rfl covers earlier
  refine ⟨_, ?_, holds, keeps⟩
  simp only [addAtStart]
  rw [if_pos ((staysAtStart_iff h n).mpr stays), clean, nsAssert_true]
  rfl

theorem addAtStart_moves (profile : BuildProfile) (h : Holds s (b :: rest)) {n : Nat}
    (moves : ¬ b.StaysAtStart n s) :
    ∃ t, b.addAtStart profile n s =
        some (b.movedEarlier n (s.create (b.internalSize + n)).1, t) ∧
      Holds t (b.movedEarlier n (s.create (b.internalSize + n)).1 :: rest) ∧
      (∀ o ∈ b :: rest, o.data ≠ (s.create (b.internalSize + n)).1) ∧
      KeepsBytes (b :: rest) s t := by
  have sound := h.head
  obtain ⟨bytes, t, read, write, -, placed⟩ := move_spec h (b.internalSize + n) n (by omega)
  have area := sound.zeroEnd
  have after := sound.end_
  obtain ⟨holds, apart, keeps⟩ := placed (b.movedEarlier n (s.create (b.internalSize + n)).1) rfl
    ⟨Nat.zero_le _, by simp only [movedEarlier, noteZeroArea]; omega,
      by simp only [movedEarlier, noteZeroArea]; omega, by
        simp only [movedEarlier, noteZeroArea, internalEnd, internalSize, zeroSize]
        omega⟩
  refine ⟨_, ?_, holds, apart, keeps⟩
  simp only [addAtStart]
  rw [if_neg (fun stays => moves ((staysAtStart_iff h n).mp stays))]
  simp only [read, write, some_bind]
  rfl

end Ns3.Buffer
