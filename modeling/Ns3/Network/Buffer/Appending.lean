import Ns3.Network.Buffer.Append

/-!
# Runs over buffers

Whatever is done with the objects, their storage is shared as it should be. So it is exact when
one object can be appended to another.
-/

namespace Ns3.Buffer

variable {profile : BuildProfile} {s t : Storage} {b o : Buffer} {live rest : List Buffer}

/-! ## Removing -/

/-- Bytes are removed without a look at the storage. -/
theorem sound_removeAtStart {block : BufferData} (sound : Sound block b) (n : Nat) :
    Sound block (b.removeAtStart n) := by
  obtain ⟨order, area, after, inside, low, high⟩ := sound
  unfold internalEnd zeroSize at inside
  refine sound_noteZeroArea.mpr ?_
  split
  case isTrue front => exact ⟨front, area, after, inside, Nat.le_add_right_of_le low, high⟩
  case isFalse =>
    split
    case isTrue =>
      refine ⟨Nat.le_refl _, ?_, ?_, ?_, ?_, ?_⟩ <;> simp only [internalEnd, zeroSize] <;> omega
    case isFalse =>
      split
      case isTrue =>
        refine ⟨Nat.le_refl _, Nat.le_refl _, ?_, ?_, ?_, ?_⟩ <;>
          simp only [internalEnd, zeroSize] <;> omega
      case isFalse =>
        refine ⟨Nat.le_refl _, Nat.le_refl _, Nat.le_refl _, ?_, ?_, ?_⟩ <;>
          simp only [internalEnd, zeroSize] <;> omega

theorem sound_removeAtEnd {block : BufferData} (sound : Sound block b) (n : Nat) :
    Sound block (b.removeAtEnd n) := by
  obtain ⟨order, area, after, inside, low, high⟩ := sound
  unfold internalEnd zeroSize at inside
  refine sound_noteZeroArea.mpr ?_
  generalize newEnd_ : b.end_ - min n (b.end_ - b.start) = newEnd
  have bounds : newEnd ≤ b.end_ := by omega
  split
  case isTrue back =>
    refine ⟨order, area, Nat.le_of_lt back, ?_, low, Nat.le_trans bounds high⟩
    simp only [internalEnd, zeroSize]
    omega
  case isFalse =>
    split
    case isTrue =>
      refine ⟨order, ?_, Nat.le_refl _, ?_, low, Nat.le_trans bounds high⟩ <;>
        simp only [internalEnd, zeroSize] <;> omega
    case isFalse =>
      split
      case isTrue =>
        refine ⟨?_, Nat.le_refl _, Nat.le_refl _, ?_, low, Nat.le_trans bounds high⟩ <;>
          simp only [internalEnd, zeroSize] <;> omega
      case isFalse =>
        refine ⟨Nat.le_refl _, Nat.le_refl _, Nat.le_refl _, ?_, low, ?_⟩ <;>
          simp only [internalEnd, zeroSize] <;> omega

theorem Holds.replace (h : Holds s (b :: rest)) (data : o.data = b.data)
    (sound : Sound (s.data b.data) o) : Holds s (o :: rest) where
  counted := by
    have counted := h.counted
    rwa [List.map_cons, ← data] at counted
  sound c mem := by
    rcases List.mem_cons.mp mem with rfl | mem
    · rwa [data]
    · exact h.sound c (List.mem_cons_of_mem b mem)

theorem data_removeAtStart (n : Nat) (b : Buffer) : (b.removeAtStart n).data = b.data := by
  unfold removeAtStart noteZeroArea
  simp only
  repeat' split
  all_goals rfl

theorem data_removeAtEnd (n : Nat) (b : Buffer) : (b.removeAtEnd n).data = b.data := by
  unfold removeAtEnd noteZeroArea
  simp only
  repeat' split
  all_goals rfl

theorem holds_removeAtStart (h : Holds s (b :: rest)) (n : Nat) :
    Holds s (b.removeAtStart n :: rest) :=
  h.replace (data_removeAtStart n b) (sound_removeAtStart h.head n)

theorem holds_removeAtEnd (h : Holds s (b :: rest)) (n : Nat) :
    Holds s (b.removeAtEnd n :: rest) :=
  h.replace (data_removeAtEnd n b) (sound_removeAtEnd h.head n)

theorem holds_createFragment (h : Holds s live) (mem : b ∈ live) (start length : Nat) :
    Holds (b.createFragment start length s).2 ((b.createFragment start length s).1 :: live) :=
  holds_removeAtEnd (holds_removeAtStart (holds_copy h mem) start) _

theorem holds_assign_self (h : Holds s (b :: rest)) :
    Holds (b.assign b s).2 ((b.assign b s).1 :: rest) := by
  have kept : (b.assign b s).2 = recommend b.maxZeroAreaStart s := by
    unfold assign
    simp
  rw [kept]
  exact holds_recommend h _

/-! ## Adding -/

variable {r : Buffer × Storage}

theorem holds_addAtStart (h : Holds s (b :: rest)) {n : Nat}
    (run : b.addAtStart profile n s = some r) : Holds r.2 (r.1 :: rest) := by
  by_cases stays : b.StaysAtStart n s
  · obtain ⟨t, added, holds, -⟩ := addAtStart_stays profile h stays
    obtain rfl := Option.some.inj (added.symm.trans run)
    exact holds
  · obtain ⟨t, added, holds, -⟩ := addAtStart_moves profile h stays
    obtain rfl := Option.some.inj (added.symm.trans run)
    exact holds

theorem holds_addAtEnd (h : Holds s (b :: rest)) {n : Nat}
    (run : b.addAtEnd profile n s = some r) : Holds r.2 (r.1 :: rest) := by
  by_cases stays : b.StaysAtEnd n s
  · obtain ⟨t, added, holds, -⟩ := addAtEnd_stays profile h stays
    obtain rfl := Option.some.inj (added.symm.trans run)
    exact holds
  · obtain ⟨t, added, holds, -⟩ := addAtEnd_moves profile h stays
    obtain rfl := Option.some.inj (added.symm.trans run)
    exact holds

theorem holds_writeBytes (h : Holds s live) {i : BufferIterator} {bytes : List Byte}
    (run : i.writeBytes profile bytes s = some t) : Holds t live := by
  simp only [BufferIterator.writeBytes, bind_returns] at run
  obtain ⟨-, -, written⟩ := run
  exact h.written (Storage.write_spec written)

theorem holds_addBufferAtEnd (h : Holds s (b :: rest)) (mem : o ∈ rest)
    (run : b.addBufferAtEnd profile o s = some r) : Holds r.2 (r.1 :: rest) := by
  obtain ⟨n, b₂, s₂, split, made⟩ := prepared profile h mem
  exact made.holds_of_run (split.symm.trans run)

theorem holds_becomeReal (h : Holds s (b :: rest))
    (run : b.becomeReal profile s = some r) : Holds r.2 (r.1 :: rest) := by
  by_cases flat : b.zeroSize = 0
  · obtain ⟨t, real, holds, -⟩ := becomeReal_of_none profile h flat
    obtain rfl := Option.some.inj (real.symm.trans run)
    exact holds
  · obtain ⟨b', t, real, holds, -⟩ := becomeReal_of_zeros profile h flat
    obtain rfl := Option.some.inj (real.symm.trans run)
    exact holds

end Ns3.Buffer

namespace Ns3.Buffers

variable {profile : BuildProfile} {f g : Buffers} {b o : Buffer} {i j : Nat}

/-- The storage is shared as the objects say. -/
def Holds (f : Buffers) : Prop := Buffer.Holds f.storage f.objects

theorem Holds.split (h : f.Holds) (here : f.objects[i]? = some b) :
    Buffer.Holds f.storage (b :: f.objects.eraseIdx i) := by
  obtain ⟨inside, rfl⟩ := List.getElem?_eq_some_iff.mp here
  exact h.perm (List.getElem_cons_eraseIdx_perm inside).symm

theorem holds_put (here : f.objects[i]? = some b) {r : Buffer × Storage}
    (h : Buffer.Holds r.2 (r.1 :: f.objects.eraseIdx i)) : (f.put i r).Holds := by
  obtain ⟨inside, -⟩ := List.getElem?_eq_some_iff.mp here
  exact h.perm (List.set_perm_cons_eraseIdx inside r.1).symm

theorem holds_push {r : Buffer × Storage} (h : Buffer.Holds r.2 (r.1 :: f.objects)) :
    (f.push r).Holds :=
  h.perm (List.perm_append_singleton r.1 f.objects).symm

theorem mem_others (ne : i ≠ j) (there : f.objects[j]? = some o) :
    o ∈ f.objects.eraseIdx i :=
  List.mem_eraseIdx_iff_getElem?.mpr ⟨j, Ne.symm ne, there⟩

theorem step_holds (op : BufferOp) (h : f.Holds) (run : f.step profile op = some g) :
    g.Holds := by
  cases op with
  | construct dataSize =>
    cases run
    exact holds_push (Buffer.holds_construct h dataSize)
  | copy i =>
    obtain ⟨b, here, done⟩ := bind_returns.mp run
    cases done
    exact holds_push (Buffer.holds_copy h (List.mem_of_getElem? here))
  | assign i j =>
    obtain ⟨b, here, run⟩ := bind_returns.mp run
    obtain ⟨o, there, done⟩ := bind_returns.mp run
    cases done
    refine holds_put here ?_
    by_cases same : i = j
    · subst same
      obtain rfl := Option.some.inj (here.symm.trans there)
      exact Buffer.holds_assign_self (h.split here)
    · exact Buffer.holds_assign (h.split here) (mem_others same there)
  | destroy i =>
    obtain ⟨b, here, done⟩ := bind_returns.mp run
    cases done
    exact Buffer.holds_destroy (h.split here)
  | addAtStart i bytes =>
    simp only [step, bind_returns, pure_returns] at run
    obtain ⟨b, here, ⟨b', s'⟩, added, t, written, rfl⟩ := run
    have moved : Buffer.Holds s' (b' :: f.objects.eraseIdx i) :=
      Buffer.holds_addAtStart (h.split here) added
    exact holds_put here (Buffer.holds_writeBytes moved written)
  | addAtEnd i bytes =>
    simp only [step, bind_returns, pure_returns] at run
    obtain ⟨b, here, ⟨b', s'⟩, added, _, -, t, written, rfl⟩ := run
    have moved : Buffer.Holds s' (b' :: f.objects.eraseIdx i) :=
      Buffer.holds_addAtEnd (h.split here) added
    exact holds_put here (Buffer.holds_writeBytes moved written)
  | addBufferAtEnd i j =>
    obtain ⟨b, here, run⟩ := bind_returns.mp run
    obtain ⟨o, there, run⟩ := bind_returns.mp run
    by_cases same : i = j
    · rw [if_pos same] at run
      cases run
    · rw [if_neg same] at run
      obtain ⟨r, added, done⟩ := bind_returns.mp run
      cases done
      exact holds_put here
        (Buffer.holds_addBufferAtEnd (h.split here) (mem_others same there) added)
  | removeAtStart i start =>
    obtain ⟨b, here, done⟩ := bind_returns.mp run
    cases done
    exact holds_put here (Buffer.holds_removeAtStart (h.split here) start)
  | removeAtEnd i end_ =>
    obtain ⟨b, here, done⟩ := bind_returns.mp run
    cases done
    exact holds_put here (Buffer.holds_removeAtEnd (h.split here) end_)
  | createFragment i start length =>
    obtain ⟨b, here, done⟩ := bind_returns.mp run
    cases done
    exact holds_push (Buffer.holds_createFragment h (List.mem_of_getElem? here) start length)
  | peekData i =>
    simp only [step, bind_returns, pure_returns] at run
    obtain ⟨b, here, r, real, rfl⟩ := run
    exact holds_put here (Buffer.holds_becomeReal (h.split here) real)

theorem holds_empty : ({} : Buffers).Holds where
  counted :=
    { count := fun _ => rfl
      allocated := nofun
      free := nofun
      distinct := List.nodup_nil }
  sound := nofun

theorem run_holds {ops : List BufferOp} (run : Run.exec (step profile) {} ops = some f) :
    f.Holds :=
  Run.invariant holds_empty (Run.Meets.of_forall (fun _ _ => trivial) _ ops)
    (fun _ op _ h _ returns => step_holds op h returns) run

/-! ## Appending one object to another -/

/-- The second object cannot be appended to the first one. -/
def AppendFails (ops : List BufferOp) : Prop :=
  ∃ f b o, Run.exec (step .debug) {} ops = some f ∧ f.objects[0]? = some b ∧
    f.objects[1]? = some o ∧ ¬ b.AppendsWell o f.storage

theorem appendFails_of_none {ops : List BufferOp}
    (none_ : ((Run.exec (step .debug) {} ops).bind fun f => f.objects[0]?.bind fun b =>
      f.objects[1]?.map fun o => (b.addBufferAtEnd .debug o f.storage).isNone) = some true) :
    AppendFails ops := by
  simp only [Option.bind_eq_some_iff, Option.map_eq_some_iff, Option.isNone_iff_eq_none] at none_
  obtain ⟨f, run, b, here, o, there, fails⟩ := none_
  refine ⟨f, b, o, run, here, there, ?_⟩
  rintro ⟨r, returns, -⟩
  rw [fails] at returns
  cases returns

end Ns3.Buffers
