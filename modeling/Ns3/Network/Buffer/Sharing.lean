import Ns3.Network.Buffer.Basic
import Mathlib.Data.List.Perm.Basic
import Mathlib.Data.List.Count

/-!
# Storage that buffers share

The reference counts are exact, every buffer lies within its block, and the dirty area of a block
covers all buffers that share it. The functions of `Buffer` keep this, and none of them fails
where only one buffer is involved.
-/

namespace Ns3

open List Option

namespace Storage

variable {s t : Storage} {d e n : Nat} {refs : List Nat}

@[simp] theorem data_set_self (d : Nat) (block : BufferData) (s : Storage) :
    (s.set d block).data d = block := Function.update_self _ _ _

theorem data_set_of_ne (ne : e ≠ d) (block : BufferData) : (s.set d block).data e = s.data e :=
  Function.update_of_ne ne _ _

/-- The references to each block are counted, and free blocks have none. -/
structure Counted (s : Storage) (refs : List Nat) : Prop where
  count : ∀ d, (s.data d).count = refs.count d
  allocated : ∀ d ∈ refs, d < s.next
  free : ∀ d ∈ s.freeList, d < s.next ∧ d ∉ refs
  distinct : s.freeList.Nodup

/-- What `Create` returns: a block that nobody refers to, of at least the size asked for. -/
structure Created (n : Nat) (s : Storage) (refs : List Nat) (r : Nat × Storage) : Prop where
  unused : r.1 ∉ refs
  large : n ≤ (r.2.data r.1).size
  same : ∀ d, d ≠ r.1 → r.2.data d = s.data d
  counted : Counted r.2 (r.1 :: refs)

theorem Counted.perm {refs' : List Nat} (h : Counted s refs) (perm : refs.Perm refs') :
    Counted s refs' where
  count d := (h.count d).trans (perm.count_eq d)
  allocated d mem := h.allocated d (perm.mem_iff.mpr mem)
  free d mem := ⟨(h.free d mem).1, fun used => (h.free d mem).2 (perm.mem_iff.mpr used)⟩
  distinct := h.distinct

theorem Counted.congr (h : Counted s refs) (count : ∀ d, (t.data d).count = (s.data d).count)
    (next : t.next = s.next) (freeList : t.freeList = s.freeList) : Counted t refs where
  count d := (count d).trans (h.count d)
  allocated := by
    rw [next]
    exact h.allocated
  free := by
    rw [next, freeList]
    exact h.free
  distinct := by
    rw [freeList]
    exact h.distinct

theorem count_cons_of_set {block : BufferData} (count : ∀ e, (s.data e).count = refs.count e)
    (one : block.count = refs.count d + 1) (e : Nat) :
    ((s.set d block).data e).count = (d :: refs).count e := by
  by_cases same : e = d
  · rw [same, data_set_self, one, count_cons_self]
  · rw [data_set_of_ne same, count, count_cons_of_ne (Ne.symm same)]

theorem createFrom_spec (count : ∀ d, (s.data d).count = refs.count d)
    (allocated : ∀ d ∈ refs, d < s.next) (l : List Nat)
    (free : ∀ d ∈ l, d < s.next ∧ d ∉ refs) (distinct : l.Nodup) :
    Created n s refs (createFrom n s l) := by
  induction l with
  | nil =>
    have unused : s.next ∉ refs := fun used => Nat.lt_irrefl _ (allocated _ used)
    refine ⟨unused, ?_, fun d ne => data_set_of_ne ne _, ?_, ?_, ?_, nodup_nil⟩
    · have size : ((createFrom n s []).2.data (createFrom n s []).1).size = max n 1 + 100 := by
        exact congrArg BufferData.size (data_set_self s.next _ _)
      omega
    · exact count_cons_of_set count (by rw [count_eq_zero_of_not_mem unused])
    · intro d mem
      rcases mem_cons.mp mem with rfl | used
      · exact Nat.lt_succ_self _
      · exact Nat.lt_succ_of_lt (allocated d used)
    · intro d mem
      cases mem
  | cons d l ih =>
    obtain ⟨fresh, distinct⟩ := nodup_cons.mp distinct
    obtain ⟨below, unused⟩ := free d (mem_cons_self ..)
    unfold createFrom
    split
    case isTrue fits =>
      refine ⟨unused, ?_, fun e ne => data_set_of_ne ne _, ?_, ?_, ?_, distinct⟩
      · have size : ((s.set d { s.data d with count := 1 }).data d).size = (s.data d).size := by
          rw [data_set_self]
        exact Nat.le_trans fits (Nat.le_of_eq size.symm)
      · exact count_cons_of_set count (by rw [count_eq_zero_of_not_mem unused])
      · intro e mem
        rcases mem_cons.mp mem with rfl | used
        · exact below
        · exact allocated e used
      · intro e mem
        obtain ⟨low, notUsed⟩ := free e (mem_cons_of_mem d mem)
        refine ⟨low, fun used => ?_⟩
        rcases mem_cons.mp used with rfl | used
        · exact fresh mem
        · exact notUsed used
    case isFalse => exact ih (fun e mem => free e (mem_cons_of_mem d mem)) distinct

theorem Counted.create (h : Counted s refs) (n : Nat) : Created n s refs (s.create n) :=
  createFrom_spec h.count h.allocated s.freeList h.free h.distinct

@[simp] theorem data_recycle (d : Nat) (s : Storage) : (s.recycle d).data = s.data := by
  unfold recycle
  simp only
  split <;> rfl

@[simp] theorem next_recycle (d : Nat) (s : Storage) : (s.recycle d).next = s.next := by
  unfold recycle
  simp only
  split <;> rfl

theorem recycle_freeList (d : Nat) (s : Storage) :
    (s.recycle d).freeList = s.freeList ∨ (s.recycle d).freeList = d :: s.freeList := by
  unfold recycle
  simp only
  split
  · exact .inl rfl
  · exact .inr rfl

theorem data_release (d : Nat) (s : Storage) :
    (s.release d).data = (s.set d { s.data d with count := (s.data d).count - 1 }).data := by
  unfold release
  simp only
  split
  · rw [data_recycle]
  · rfl

theorem Counted.release (h : Counted s (d :: refs)) : Counted (s.release d) refs := by
  have one : (s.data d).count = refs.count d + 1 := by rw [h.count, count_cons_self]
  have next : (s.release d).next = s.next := by
    unfold Storage.release
    simp only
    split
    · rw [next_recycle]
      rfl
    · rfl
  have others : ∀ e ∈ s.freeList, e < s.next ∧ e ∉ refs := fun e mem =>
    ⟨(h.free e mem).1, fun used => (h.free e mem).2 (mem_cons_of_mem d used)⟩
  have count : ∀ e, ((s.release d).data e).count = refs.count e := by
    intro e
    rw [data_release]
    by_cases same : e = d
    · subst same
      rw [data_set_self, one, Nat.add_sub_cancel]
    · rw [data_set_of_ne same, h.count, count_cons_of_ne (Ne.symm same)]
  have allocated : ∀ e ∈ refs, e < s.next := fun e used => h.allocated e (mem_cons_of_mem d used)
  by_cases last : (s.data d).count - 1 = 0
  · have unused : d ∉ refs := by
      rw [← count_eq_zero]
      omega
    have kept : (s.release d).freeList = s.freeList ∨
        (s.release d).freeList = d :: s.freeList := by
      unfold Storage.release
      simp only [last, if_true]
      exact recycle_freeList d _
    have fresh : d ∉ s.freeList := fun mem => (h.free d mem).2 (mem_cons_self ..)
    refine ⟨count, by rwa [next], ?_, ?_⟩
    · rw [next]
      intro e mem
      rcases kept with same | pushed
      · exact others e (same ▸ mem)
      · rw [pushed] at mem
        rcases mem_cons.mp mem with rfl | mem
        · exact ⟨h.allocated e (mem_cons_self ..), unused⟩
        · exact others e mem
    · rcases kept with same | pushed
      · rw [same]
        exact h.distinct
      · rw [pushed]
        exact nodup_cons.mpr ⟨fresh, h.distinct⟩
  · have freeList : (s.release d).freeList = s.freeList := by
      unfold Storage.release
      simp only [last, if_false]
      rfl
    refine ⟨count, by rwa [next], ?_, ?_⟩
    · rw [next, freeList]
      exact others
    · rw [freeList]
      exact h.distinct

theorem Counted.refer (h : Counted s refs) (mem : d ∈ refs) : Counted (s.refer d) (d :: refs) where
  count e := count_cons_of_set h.count (by rw [h.count]) e
  allocated e used := by
    rcases mem_cons.mp used with rfl | used
    · exact h.allocated e mem
    · exact h.allocated e used
  free e free := ⟨(h.free e free).1, fun used => by
    rcases mem_cons.mp used with rfl | used
    · exact (h.free e free).2 mem
    · exact (h.free e free).2 used⟩
  distinct := h.distinct

/-! ## Reading and writing -/

theorem read_eq_some_iff {offset size : Nat} {bytes : List Byte} :
    s.read d offset size = some bytes ↔ (size = 0 ∨ offset + size ≤ (s.data d).size) ∧
      (List.range size).map (fun i => (s.data d).bytes (offset + i)) = bytes := by
  unfold read
  split
  · next inside => rw [some.injEq, and_iff_right inside]
  · next outside =>
    constructor
    · intro run
      cases run
    · intro both
      exact absurd both.1 outside

theorem read_of_le {offset size : Nat} (inside : offset + size ≤ (s.data d).size) :
    ∃ bytes, s.read d offset size = some bytes ∧ bytes.length = size :=
  ⟨_, read_eq_some_iff.mpr ⟨.inr inside, rfl⟩, by rw [length_map, length_range]⟩

/-- A write changes bytes of one block. -/
structure Written (d : Nat) (s t : Storage) : Prop where
  others : ∀ e, e ≠ d → t.data e = s.data e
  block : ∃ bytes, t.data d = { s.data d with bytes }
  next : t.next = s.next
  freeList : t.freeList = s.freeList

theorem write_spec {offset : Nat} {bytes : List Byte} (run : s.write d offset bytes = some t) :
    Written d s t := by
  unfold write at run
  split at run
  · cases run
    exact ⟨fun e ne => data_set_of_ne ne _, ⟨_, data_set_self _ _ _⟩, rfl, rfl⟩
  · cases run

theorem write_isSome_iff {offset : Nat} {bytes : List Byte} :
    (∃ t, s.write d offset bytes = some t) ↔
      bytes.length = 0 ∨ offset + bytes.length ≤ (s.data d).size := by
  unfold write
  split
  · next inside => exact ⟨fun _ => inside, fun _ => ⟨_, rfl⟩⟩
  · next outside =>
    constructor
    · rintro ⟨t, run⟩
      cases run
    · intro inside
      exact absurd inside outside

namespace Written

theorem trans {u : Storage} (first : Written d s t) (second : Written d t u) : Written d s u where
  others e ne := (second.others e ne).trans (first.others e ne)
  block := by
    obtain ⟨x, first⟩ := first.block
    obtain ⟨y, second⟩ := second.block
    exact ⟨y, by rw [second, first]⟩
  next := second.next.trans first.next
  freeList := second.freeList.trans first.freeList

theorem congr {α : Type} (h : Written d s t) (f : BufferData → α)
    (blind : ∀ block bytes, f { block with bytes } = f block) (e : Nat) :
    f (t.data e) = f (s.data e) := by
  by_cases same : e = d
  · obtain ⟨bytes, block⟩ := h.block
    rw [same, block, blind]
  · rw [h.others e same]

theorem counted (h : Written d s t) (counts : Counted s refs) : Counted t refs :=
  counts.congr (h.congr BufferData.count fun _ _ => rfl) h.next h.freeList

end Written

end Storage

namespace Buffer

/-- The offsets of a buffer are in order, its bytes are in the block, and it is within the dirty
area: `CheckInternalState`. -/
structure Sound (block : BufferData) (b : Buffer) : Prop where
  zeroStart : b.start ≤ b.zeroAreaStart
  zeroEnd : b.zeroAreaStart ≤ b.zeroAreaEnd
  end_ : b.zeroAreaEnd ≤ b.end_
  inside : b.internalEnd ≤ block.size
  dirtyStart : block.dirtyStart ≤ b.start
  dirtyEnd : b.end_ ≤ block.dirtyEnd

theorem Sound.mono {block block' : BufferData} {b : Buffer} (h : Sound block b)
    (size : block.size ≤ block'.size) (dirtyStart : block'.dirtyStart ≤ block.dirtyStart)
    (dirtyEnd : block.dirtyEnd ≤ block'.dirtyEnd) : Sound block' b :=
  ⟨h.zeroStart, h.zeroEnd, h.end_, Nat.le_trans h.inside size, Nat.le_trans dirtyStart h.dirtyStart,
    Nat.le_trans h.dirtyEnd dirtyEnd⟩

theorem sound_noteZeroArea {block : BufferData} {b : Buffer} :
    Sound block b.noteZeroArea ↔ Sound block b :=
  ⟨fun h => ⟨h.1, h.2, h.3, h.4, h.5, h.6⟩, fun h => ⟨h.1, h.2, h.3, h.4, h.5, h.6⟩⟩

/-- All live buffers are sound, and exactly they are counted. -/
structure Holds (s : Storage) (live : List Buffer) : Prop where
  counted : Storage.Counted s (live.map (·.data))
  sound : ∀ b ∈ live, Sound (s.data b.data) b

variable {profile : BuildProfile} {s t : Storage} {a b o : Buffer} {live rest : List Buffer}

theorem Holds.perm {live' : List Buffer} (h : Holds s live) (perm : live.Perm live') :
    Holds s live' where
  counted := h.counted.perm (perm.map _)
  sound b mem := h.sound b (perm.mem_iff.mpr mem)

theorem Holds.head (h : Holds s (b :: rest)) : Sound (s.data b.data) b :=
  h.sound b (mem_cons_self ..)

theorem Holds.written {d : Nat} (h : Holds s live) (written : Storage.Written d s t) :
    Holds t live where
  counted := written.counted h.counted
  sound b mem := (h.sound b mem).mono
    (Nat.le_of_eq (written.congr BufferData.size (fun _ _ => rfl) b.data).symm)
    (Nat.le_of_eq (written.congr BufferData.dirtyStart (fun _ _ => rfl) b.data))
    (Nat.le_of_eq (written.congr BufferData.dirtyEnd (fun _ _ => rfl) b.data).symm)

theorem Holds.count_pos (h : Holds s (b :: rest)) : 0 < (s.data b.data).count := by
  rw [h.counted.count, map_cons, count_cons_self]
  exact Nat.succ_pos _

theorem Holds.count_eq_one_iff (h : Holds s (b :: rest)) :
    (s.data b.data).count = 1 ↔ ∀ o ∈ rest, o.data ≠ b.data := by
  rw [h.counted.count, map_cons, count_cons_self, Nat.succ_inj, count_eq_zero]
  constructor
  · intro unused o mem same
    exact unused (List.mem_map.mpr ⟨o, mem, same⟩)
  · intro apart used
    obtain ⟨o, mem, same⟩ := List.mem_map.mp used
    exact apart o mem same

/-! ## Construction, copies and destruction -/

section Objects

/-- Blocks that are the same but for their counts. -/
def SameBlock (x y : BufferData) : Prop := y = { x with count := y.count }

theorem SameBlock.sound {x y : BufferData} (same : SameBlock x y) (h : Sound x b) : Sound y b := by
  rw [same]
  exact ⟨h.1, h.2, h.3, h.4, h.5, h.6⟩

theorem sameBlock_release (d e : Nat) (s : Storage) :
    SameBlock (s.data e) ((s.release d).data e) := by
  rw [Storage.data_release, SameBlock]
  by_cases same : e = d
  · rw [same, Storage.data_set_self]
  · rw [Storage.data_set_of_ne same]

theorem sameBlock_refer (d e : Nat) (s : Storage) : SameBlock (s.data e) ((s.refer d).data e) := by
  rw [Storage.refer, SameBlock]
  by_cases same : e = d
  · rw [same, Storage.data_set_self]
  · rw [Storage.data_set_of_ne same]

theorem setDirty_data (d dirtyStart dirtyEnd : Nat) (s : Storage) :
    (s.setDirty d dirtyStart dirtyEnd).data d = { s.data d with dirtyStart, dirtyEnd } :=
  Storage.data_set_self _ _ _

theorem setDirty_data_of_ne {d e : Nat} (ne : e ≠ d) (dirtyStart dirtyEnd : Nat) (s : Storage) :
    (s.setDirty d dirtyStart dirtyEnd).data e = s.data e :=
  Storage.data_set_of_ne ne _

theorem counted_setDirty {refs : List Nat} (h : Storage.Counted s refs)
    (d dirtyStart dirtyEnd : Nat) : Storage.Counted (s.setDirty d dirtyStart dirtyEnd) refs := by
  refine h.congr (fun e => ?_) rfl rfl
  by_cases same : e = d
  · rw [same, setDirty_data]
  · rw [setDirty_data_of_ne same]

/-- A buffer whose offsets fit into a block, with a dirty area of just its size. -/
structure Placed (size : Nat) (b : Buffer) : Prop where
  zeroStart : b.start ≤ b.zeroAreaStart
  zeroEnd : b.zeroAreaStart ≤ b.zeroAreaEnd
  end_ : b.zeroAreaEnd ≤ b.end_
  inside : b.internalEnd ≤ size

theorem Placed.sound (h : Placed (s.data b.data).size b) :
    Sound ((s.setDirty b.data b.start b.end_).data b.data) b := by
  rw [setDirty_data]
  exact ⟨h.1, h.2, h.3, h.4, Nat.le_refl _, Nat.le_refl _⟩

theorem holds_construct (h : Holds s live) (n : Nat) :
    Holds (construct n s).2 ((construct n s).1 :: live) := by
  have created := h.counted.create 0
  have placed : Placed ((s.create 0).2.data (construct n s).1.data).size (construct n s).1 := by
    refine ⟨Nat.le_refl _, Nat.le_add_right _ _, Nat.le_refl _, ?_⟩
    rw [internalEnd, zeroSize, construct]
    simp only
    omega
  constructor
  · exact counted_setDirty created.counted _ _ _
  · intro b mem
    rcases mem_cons.mp mem with rfl | mem
    · exact placed.sound
    · have other : b.data ≠ (construct n s).1.data := fun same =>
        created.unused (List.mem_map.mpr ⟨b, mem, same⟩)
      have block : (construct n s).2.data b.data = s.data b.data :=
        (setDirty_data_of_ne other _ _ _).trans (created.same _ other)
      rw [block]
      exact h.sound b mem

theorem holds_recommend (h : Holds s live) (start : Nat) : Holds (recommend start s) live :=
  ⟨h.counted.congr (fun _ => rfl) rfl rfl, h.sound⟩

theorem holds_copy (h : Holds s live) (mem : o ∈ live) :
    Holds (o.copy s).2 ((o.copy s).1 :: live) where
  counted := h.counted.refer (List.mem_map_of_mem mem)
  sound b used := by
    have sound : Sound (s.data b.data) b := by
      rcases mem_cons.mp used with rfl | used
      · have original := h.sound o mem
        exact ⟨original.1, original.2, original.3, original.4, original.5, original.6⟩
      · exact h.sound b used
    exact (sameBlock_refer o.data b.data s).sound sound

theorem holds_release (h : Holds s (b :: rest)) : Holds (s.release b.data) rest where
  counted := h.counted.release
  sound o mem :=
    (sameBlock_release b.data o.data s).sound (h.sound o (mem_cons_of_mem b mem))

theorem holds_destroy (h : Holds s (b :: rest)) : Holds (b.destroy s) rest :=
  holds_release (holds_recommend h _)

theorem holds_assign (h : Holds s (b :: rest)) (mem : o ∈ rest) :
    Holds (b.assign o s).2 ((b.assign o s).1 :: rest) := by
  have kept : Holds (s.release b.data) rest := holds_release h
  refine holds_recommend ?_ _
  split
  case isTrue same =>
    constructor
    · have counted := h.counted
      rwa [map_cons, same] at counted
    · intro c used
      rcases mem_cons.mp used with rfl | used
      · exact h.sound c (mem_cons_of_mem b mem)
      · exact h.sound c (mem_cons_of_mem b used)
  case isFalse =>
    have copied := holds_copy kept mem
    exact ⟨copied.counted, fun c used => (sameBlock_refer o.data c.data _).sound
      (kept.sound c (by
        rcases mem_cons.mp used with rfl | used
        · exact mem
        · exact used))⟩

end Objects

end Buffer

end Ns3
