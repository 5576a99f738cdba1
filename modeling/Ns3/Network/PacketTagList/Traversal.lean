import Ns3.Network.PacketTagList.Sharing

/-!
# The traversal that copies on write

The search walks through the owned part. Behind the first shared node the nodes are copied
one by one, each of which leaves all lists as they are and moves the end of the owned part
by one node; then the writer works behind the owned part.
-/

namespace Ns3.PacketTagLists

open Option

variable {V : Type} {T : TagClass V} {w w' : PacketTagLists} {i : Nat} {front rest as : List Nat}
  {tid cur : Nat} {tail : List Nat} {p : Option Nat} {d : TagData} {m : Nat → Option V}
  {es xs ys : List (Nat × List Byte)} {data data' : List Byte}

/-! ## Maps and entries -/

theorem holds_nil : Holds T [] fun _ => none where
  distinct := List.nodup_nil
  value tid v := by simp

/-- The value of a tag, as the list is searched. -/
theorem Holds.find (h : Holds T es m) (tid : Nat) :
    ((es.find? fun e => e.1 = tid).map fun e => T.deserialize tid e.2) = m tid := by
  cases found : es.find? fun e => e.1 = tid with
  | none =>
    cases value : m tid with
    | none => rfl
    | some v =>
      obtain ⟨data, mem, -⟩ := (h.value tid v).mp value
      have := List.find?_eq_none.mp found _ mem
      simp at this
  | some e =>
    have same : e.1 = tid := by simpa using List.find?_some found
    have mem : (tid, e.2) ∈ es := by
      rw [← same]
      exact List.mem_of_find?_eq_some found
    rw [map_some, (h.value tid _).mpr ⟨e.2, mem, rfl⟩]

theorem Holds.absent (h : Holds T es m) (absent : tid ∉ es.map Prod.fst) : m tid = none := by
  rw [← h.find tid, map_eq_none_iff, List.find?_eq_none]
  intro e mem same
  rw [decide_eq_true_eq] at same
  exact absent (List.mem_map.mpr ⟨e, mem, same⟩)

theorem Holds.present (h : Holds T (xs ++ (tid, data) :: ys) m) :
    m tid = some (T.deserialize tid data) :=
  (h.value tid _).mpr ⟨data, by simp, rfl⟩

theorem Holds.cons (h : Holds T es m) (absent : tid ∉ es.map Prod.fst) (data : List Byte) :
    Holds T ((tid, data) :: es) (Function.update m tid (some (T.deserialize tid data))) where
  distinct := by
    rw [List.map_cons, List.nodup_cons]
    exact ⟨absent, h.distinct⟩
  value other v := by
    by_cases same : other = tid
    · subst same
      rw [Function.update_self]
      constructor
      · intro value
        exact ⟨data, List.mem_cons_self, some.inj value⟩
      · rintro ⟨data', mem, value⟩
        obtain first | later := List.mem_cons.mp mem
        · obtain rfl := (Prod.mk.inj first).2
          rw [value]
        · exact absurd (List.mem_map.mpr ⟨_, later, rfl⟩) absent
    · rw [Function.update_of_ne same, h.value]
      simp [same]

/-- The tags apart from one of them. -/
theorem Holds.erase (h : Holds T (xs ++ (tid, data) :: ys) m) :
    Holds T (xs ++ ys) (Function.update m tid none) where
  distinct := by
    have distinct := h.distinct
    rw [List.map_append, List.map_cons] at distinct
    rw [List.map_append]
    exact distinct.sublist (List.Sublist.append_left (List.sublist_cons_self _ _) _)
  value other v := by
    have distinct := h.distinct
    rw [List.map_append, List.map_cons, List.nodup_middle, List.nodup_cons,
      ← List.map_append] at distinct
    by_cases same : other = tid
    · subst same
      rw [Function.update_self]
      constructor
      · exact nofun
      · rintro ⟨data', mem, -⟩
        exact absurd (List.mem_map.mpr ⟨_, mem, rfl⟩) distinct.1
    · rw [Function.update_of_ne same, h.value]
      simp [same]

/-- One value replaced. -/
theorem Holds.change (h : Holds T (xs ++ (tid, data) :: ys) m) (data' : List Byte) :
    Holds T (xs ++ (tid, data') :: ys)
      (Function.update m tid (some (T.deserialize tid data'))) where
  distinct := by
    have distinct := h.distinct
    rw [List.map_append, List.map_cons] at distinct ⊢
    exact distinct
  value other v := by
    have distinct := h.distinct
    rw [List.map_append, List.map_cons, List.nodup_middle, List.nodup_cons,
      ← List.map_append] at distinct
    by_cases same : other = tid
    · subst same
      rw [Function.update_self]
      constructor
      · intro value
        exact ⟨data', by simp, some.inj value⟩
      · rintro ⟨found, mem, value⟩
        rw [List.mem_append, List.mem_cons] at mem
        have apart : (other, found) ∉ xs ++ ys := fun mem =>
          distinct.1 (List.mem_map.mpr ⟨_, mem, rfl⟩)
        rw [List.mem_append] at apart
        obtain first | here | last := mem
        · exact absurd (.inl first) apart
        · obtain rfl := (Prod.mk.inj here).2
          rw [value]
        · exact absurd (.inr last) apart
    · rw [Function.update_of_ne same, h.value]
      simp [same]

/-! ## Walking along a list -/

/-- The first node of a chain. -/
theorem chain_cons (chain : Chain w.next p (cur :: tail)) :
    p = some cur ∧ ∃ d, w.read cur = some d ∧ d.next = tail.head? ∧ Chain w.next d.next tail ∧
      w.entries (cur :: tail) = (d.tid, d.data) :: w.entries tail := by
  obtain ⟨rfl, r, here, later⟩ := Segment.cons_iff.mp chain
  obtain ⟨d, read, rfl⟩ := map_eq_some_iff.mp here
  have head : d.next = tail.head? := by
    cases tail with
    | nil => exact Segment.nil_iff.mp later
    | cons x tail => exact (Segment.cons_iff.mp later).1
  exact ⟨rfl, d, read, head, later, by simp [entries, read]⟩

theorem present_eq (tid : Nat) {rounds : Nat} (chain : Chain w.next p as)
    (enough : as.length ≤ rounds) :
    w.present tid rounds p = some ((w.entries as).any fun e => e.1 = tid) := by
  induction as generalizing p rounds with
  | nil =>
    obtain rfl := Segment.nil_iff.mp chain
    cases rounds <;> rfl
  | cons cur tail ih =>
    obtain ⟨rfl, d, read, -, later, entries⟩ := chain_cons chain
    obtain ⟨rounds, rfl⟩ : ∃ k, rounds = k + 1 := ⟨rounds - 1, by simp at enough; omega⟩
    simp only [present, read, some_bind, entries, List.any_cons]
    by_cases same : d.tid = tid
    · simp [same]
    · rw [if_neg same, ih later (by simpa using enough)]
      simp [same]

theorem peekFrom_eq {rounds : Nat} (chain : Chain w.next p as) (enough : as.length ≤ rounds) :
    w.peekFrom T tid rounds p =
      some (((w.entries as).find? fun e => e.1 = tid).map fun e => T.deserialize tid e.2) := by
  induction as generalizing p rounds with
  | nil =>
    obtain rfl := Segment.nil_iff.mp chain
    cases rounds <;> rfl
  | cons cur tail ih =>
    obtain ⟨rfl, d, read, -, later, entries⟩ := chain_cons chain
    obtain ⟨rounds, rfl⟩ : ∃ k, rounds = k + 1 := ⟨rounds - 1, by simp at enough; omega⟩
    simp only [peekFrom, read, some_bind, entries]
    by_cases same : d.tid = tid
    · simp [same]
    · rw [if_neg same, ih later (by simpa using enough), List.find?_cons_of_neg
        (by simpa using same)]

theorem chain_length (chain : Chain w.next p as) : as.length ≤ w.nodes.length := by
  apply chain.length_le
  intro a mem
  obtain ⟨d, read⟩ := chain_read chain mem
  exact read_lt read

theorem Owned.here (owned : Owned w i front (cur :: tail)) :
    ∃ d, w.read cur = some d ∧ d.next = tail.head? ∧ Chain w.next d.next tail ∧
      w.entries (cur :: tail) = (d.tid, d.data) :: w.entries tail := by
  obtain ⟨h, -, chain⟩ := owned.chain
  obtain ⟨r, -, second⟩ := Segment.append_iff.mp chain
  exact (chain_cons second).2

/-- The search stops behind the owned part: at the end, at the tag, or at a shared node. -/
theorem search_spec (sound : Sound T w) (owned : Owned w i front rest) (tid rounds : Nat)
    (enough : rest.length ≤ rounds) :
    (w.search tid rounds (linkOf i front) rest.head? = some .nothing ∧
      tid ∉ (w.entries rest).map Prod.fst) ∨
    (∃ mid cur tail d, rest = mid ++ cur :: tail ∧ Owned w i (front ++ mid) (cur :: tail) ∧
      w.read cur = some d ∧ w.links cur = 1 ∧ d.tid = tid ∧
      w.search tid rounds (linkOf i front) rest.head? = some (.tag cur (linkOf i (front ++ mid)))) ∨
    (∃ mid cur tail d, rest = mid ++ cur :: tail ∧ Owned w i (front ++ mid) (cur :: tail) ∧
      w.read cur = some d ∧ 1 < d.count ∧ tid ∉ (w.entries mid).map Prod.fst ∧
      w.search tid rounds (linkOf i front) rest.head? =
        some (.merge cur (linkOf i (front ++ mid)))) := by
  induction rest generalizing front rounds with
  | nil => refine .inl ⟨by cases rounds <;> rfl, by simp [entries]⟩
  | cons cur tail ih =>
    obtain ⟨d, read, next, -, entries⟩ := owned.here
    obtain ⟨rounds, rfl⟩ : ∃ k, rounds = k + 1 := ⟨rounds - 1, by simp at enough; omega⟩
    have counted := sound.counted cur d read
    have held := sound.held cur d read
    simp only [search, List.head?_cons, read, some_bind]
    by_cases shared : 1 < d.count
    · refine .inr (.inr ⟨[], cur, tail, d, rfl, ?_, read, shared, ?_, ?_⟩)
      · rw [List.append_nil]
        exact owned
      · simp [PacketTagLists.entries]
      · rw [if_pos shared, List.append_nil]
    · rw [if_neg shared]
      have sole : w.links cur = 1 := by omega
      by_cases same : d.tid = tid
      · refine .inr (.inl ⟨[], cur, tail, d, rfl, ?_, read, sole, same, ?_⟩)
        · rw [List.append_nil]
          exact owned
        · rw [if_pos same, List.append_nil]
      · have onward : linkOf i (front ++ [cur]) = .next cur := by
          rw [linkOf_eq_next, List.getLast?_concat]
        have first : (w.entries [cur]).map Prod.fst = [d.tid] := by
          simp [PacketTagLists.entries, read]
        have split (mid : List Nat) : front ++ [cur] ++ mid = front ++ cur :: mid := by simp
        rw [if_neg same, next, ← onward]
        obtain ⟨result, absent⟩ | ⟨mid, cur', tail', d', rfl, owned', rest'⟩ |
            ⟨mid, cur', tail', d', rfl, owned', read', shared', absent, result⟩ :=
          ih (owned.extend sole) rounds (by simpa using enough)
        · refine .inl ⟨result, ?_⟩
          rw [entries, List.map_cons, List.mem_cons]
          rintro (rfl | later)
          · exact same rfl
          · exact absent later
        · rw [split] at owned' rest'
          exact .inr (.inl ⟨cur :: mid, cur', tail', d', rfl, owned', rest'⟩)
        · rw [split] at owned' result
          refine .inr
            (.inr ⟨cur :: mid, cur', tail', d', rfl, owned', read', shared', ?_, result⟩)
          have cons : w.entries (cur :: mid) = w.entries [cur] ++ w.entries mid :=
            entries_append [cur] mid
          rw [cons, List.map_append, first, List.singleton_append, List.mem_cons]
          rintro (rfl | later)
          · exact same rfl
          · exact absent later

/-! ## A copy of a shared node -/

/-- A shared node behind the owned part makes room for a copy with other data: its count
goes down, the count of the next node goes up, and the place points to the copy. -/
def cow (profile : BuildProfile) (w : PacketTagLists) (l : Link) (cur : Nat) (p : Option Nat)
    (tid : Nat) (data : List Byte) : Option (Nat × PacketTagLists) := do
  let w ← w.decrement cur
  let (copy, w) ← w.create profile ⟨p, 1, tid, data⟩
  let w ← w.incrementIf p
  let w ← w.setLink l (some copy)
  return (copy, w)

/-- No count is at its limit. -/
def Roomy (w : PacketTagLists) (as : List Nat) : Prop :=
  ∀ a ∈ as, ∀ d, w.read a = some d → d.count + 1 < 2 ^ 32

theorem decrement_eq {a : Nat} (here : w.read a = some d) : w.decrement a =
    some (w.put a (some { d with count := UInt32.sub d.count 1 })) := by
  simp [decrement, here]

theorem increment_eq {a : Nat} (here : w.read a = some d) : w.increment a =
    some (w.put a (some { d with count := UInt32.add d.count 1 })) := by
  simp [increment, here]

/-- What a count may do to a node: nothing but its count changes. -/
structure Counts (w w' : PacketTagLists) (f : Nat → Nat → Nat) : Prop where
  node : ∀ a d, w.read a = some d → w'.read a = some { d with count := f a d.count }
  dead : ∀ a, w.read a = none → w'.read a = none
  lists : w'.lists = w.lists
  length : w'.nodes.length = w.nodes.length
  links : ∀ x, w'.links x = w.links x

theorem put_counts {a : Nat} (here : w.read a = some d) (n : Nat) :
    Counts w (w.put a (some { d with count := n })) fun b k => if b = a then n else k where
  node b e there := by
    by_cases same : b = a
    · subst same
      obtain rfl := some.inj (here.symm.trans there)
      rw [read_put_self (read_lt here), if_pos rfl]
    · rw [read_put_of_ne same, there, if_neg same]
  dead b dead := by
    have ne : b ≠ a := by
      rintro rfl
      exact absurd (here.symm.trans dead) nofun
    rw [read_put_of_ne ne, dead]
  lists := rfl
  length := length_put _
  links x := by
    have same := links_put here (some { d with count := n }) x
    exact Nat.add_right_cancel same

/-- `count++` behind a pointer that may be null. -/
theorem incrementIf_counts (alive : ∀ a, p = some a → ∃ d, w.read a = some d) :
    ∃ w', w.incrementIf p = some w' ∧
      Counts w w' fun a k => if p = some a then UInt32.add k 1 else k := by
  cases p with
  | none => exact ⟨w, rfl,
    fun a d here => by simpa using here, fun _ dead => dead, rfl, rfl, fun _ => rfl⟩
  | some a =>
    obtain ⟨d, here⟩ := alive a rfl
    have counts := put_counts here (UInt32.add d.count 1)
    refine ⟨_, increment_eq here, ⟨fun b e there => ?_, counts.dead, counts.lists, counts.length,
      counts.links⟩⟩
    rw [counts.node b e there]
    by_cases same : a = b
    · subst same
      obtain rfl := some.inj (here.symm.trans there)
      simp
    · have other : ¬ b = a := Ne.symm same
      simp [same, other]

/-- The place behind the owned part now has the pointer `q`, the count of the shared node
there has gone down, and the count of the node behind it up. -/
structure Moved (w w' : PacketTagLists) (i : Nat) (front : List Nat) (cur : Nat)
    (p q fresh : Option Nat) : Prop where
  node : ∀ a d, w.read a = some d → w'.read a = some {
    next := if front.getLast? = some a then q else d.next
    count := if a = cur then UInt32.sub d.count 1 else if p =
      some a then UInt32.add d.count 1 else d.count
    tid := d.tid
    data := d.data }
  dead : ∀ a, fresh ≠ some a → w.read a = none → w'.read a = none
  lists : w'.lists = if front = [] then w.lists.set i q else w.lists
  links : ∀ x, w'.links x + one (some cur) x = w.links x + one p x + one fresh x

/-- What `cow` leaves behind. -/
structure Copied (w w' : PacketTagLists) (i : Nat) (front : List Nat) (cur : Nat) (p : Option Nat)
    (tid : Nat) (data : List Byte) : Prop
    extends Moved w w' i front cur p (some w.nodes.length) (some w.nodes.length) where
  copy : w'.read w.nodes.length = some ⟨p, 1, tid, data⟩

theorem Owned.behind (owned : Owned w i front (cur :: tail)) (here : w.read cur = some d) :
    ∀ a, d.next = some a → a ∈ tail := by
  obtain ⟨e, read, next, -, -⟩ := owned.here
  obtain rfl := some.inj (here.symm.trans read)
  intro a same
  exact List.mem_of_head? (next.symm.trans same)

theorem Owned.next_ne (owned : Owned w i front (cur :: tail)) (here : w.read cur = some d) :
    d.next ≠ some cur := by
  have nodup := (List.nodup_append.mp owned.nodup).2.1
  exact fun same => (List.nodup_cons.mp nodup).1 (owned.behind here cur same)

theorem cow_copied (profile : BuildProfile) (tid : Nat) (sound : Sound T w)
    (owned : Owned w i front (cur :: tail)) (here : w.read cur = some d)
    (small : data.length < 2 ^ 32 - 1) :
    ∃ w', w.cow profile (linkOf i front) cur d.next tid data = some (w.nodes.length, w') ∧
      Copied w w' i front cur d.next tid data := by
  have counts₁ := put_counts here (UInt32.sub d.count 1)
  have down := decrement_eq here
  generalize w.put cur (some { d with count := UInt32.sub d.count 1 }) = w₁ at counts₁ down
  let w₂ : PacketTagLists := { w₁ with nodes := w₁.nodes ++ [some ⟨d.next, 1, tid, data⟩] }
  have created : w₁.create profile ⟨d.next, 1, tid, data⟩ = some (w.nodes.length, w₂) := by
    have fits : decide (data.length < 2 ^ 32 - 1) = true := decide_eq_true small
    simp only [create, fits, nsAssert_true, some_bind, pure_some, counts₁.length, w₂]
  have read₂ (a : Nat) (e : TagData) (there : w.read a = some e) :=
    read_append (counts₁.node a e there)
    (some ⟨d.next, 1, tid, data⟩)
  have alive (a : Nat) (points : d.next = some a) : ∃ e, w₂.read a = some e := by
    obtain ⟨e, there⟩ := sound.alive (l := .next cur) (by rw [linkAt, next_eq here, points])
    exact ⟨_, read₂ a e there⟩
  obtain ⟨w₃, up, counts₃⟩ := incrementIf_counts alive
  have place : w₃.linkAt (linkOf i front) = some (some cur) := by
    have before := owned.linkAt
    rw [List.head?_cons] at before
    cases link : linkOf i front with
    | head j =>
      rw [link] at before
      rw [linkAt, counts₃.lists]
      exact (congrArg (·[j]?) counts₁.lists).trans before
    | next b =>
      rw [link, linkAt] at before
      obtain ⟨e, there, points⟩ := map_eq_some_iff.mp before
      rw [linkAt, next_eq (counts₃.node b _ (read₂ b e there)), points]
  obtain ⟨w', set, setTo⟩ := setLink_spec place (some w.nodes.length)
  refine ⟨w', ?_, ⟨fun a e there => ?_, fun a ne dead => ?_, ?_, fun x => ?_⟩, ?_⟩
  · simp only [cow, down, created, up, set, some_bind, pure_some]
  · rw [setTo.node _ _ (counts₃.node _ _ (read₂ a e there))]
    have count : (if d.next = some a then
        UInt32.add (if a = cur then UInt32.sub d.count 1 else e.count) 1
        else if a = cur then UInt32.sub d.count 1 else e.count) =
        if a = cur then UInt32.sub e.count 1
        else if d.next = some a then UInt32.add e.count 1 else e.count := by
      by_cases same : a = cur
      · subst same
        obtain rfl := some.inj (here.symm.trans there)
        simp [owned.next_ne here]
      · simp [same]
    simp only [count, linkOf_eq_next]
    split <;> rfl
  · apply setTo.dead
    apply counts₃.dead
    have missing := counts₁.dead a dead
    rw [read, List.getElem?_append]
    split
    · exact missing
    · next out =>
        have apart : a ≠ w.nodes.length := fun same => ne (congrArg some same.symm)
        rw [← counts₁.length] at apart
        have beyond : a - w₁.nodes.length ≠ 0 := by omega
        rw [List.getElem?_singleton, if_neg beyond]
        rfl
  · cases link : linkOf i front with
    | head j =>
      obtain ⟨none_, rfl⟩ := linkOf_eq_head.mp link
      rw [setTo.head i link, counts₃.lists, if_pos none_]
      exact congrArg (·.set i (some w.nodes.length)) counts₁.lists
    | next b =>
      have some_ : front ≠ [] := by
        rintro rfl
        cases link
      rw [setTo.other b link, counts₃.lists, if_neg some_]
      exact counts₁.lists
  · have moved := setTo.links _ place x
    have grown : w₂.links x = w₁.links x + one d.next x := links_append_node _ x
    rw [counts₃.links, grown, counts₁.links] at moved
    exact moved
  · have new : w₂.read w.nodes.length = some ⟨d.next, 1, tid, data⟩ := by
      rw [← counts₁.length]
      exact read_append_new _
    have fresh (a : Nat) (e : TagData) (there : w.read a = some e) : a ≠ w.nodes.length :=
      Nat.ne_of_lt (read_lt there)
    have notNext : d.next ≠ some w.nodes.length := by
      intro points
      obtain ⟨e, there⟩ := sound.alive (l := .next cur) (by rw [linkAt, next_eq here, points])
      exact fresh _ e there rfl
    have notLink : linkOf i front ≠ .next w.nodes.length := by
      intro link
      have before := owned.linkAt
      rw [link, linkAt] at before
      obtain ⟨e, there, -⟩ := map_eq_some_iff.mp before
      exact fresh _ e there rfl
    rw [setTo.node _ _ (counts₃.node _ _ new), if_neg notLink, if_neg notNext]

theorem Moved.relinked {p q fresh : Option Nat} (h : Moved w w' i front cur p q fresh) :
    Relinked w w' i front q none where
  lists := h.lists
  kept a d here _ := ⟨_, h.node a d here, rfl, rfl, rfl⟩

/-- The counts of the nodes that were there before. -/
theorem Moved.counts {q fresh : Option Nat} (h : Moved w w' i front cur p q fresh)
    (sound : Sound T w) (owned : Owned w i front (cur :: tail)) (here : w.read cur = some d)
    (shared : 1 < d.count) (behind : ∀ a, p = some a → a ∈ tail)
    (room : ∀ a e, p = some a → w.read a = some e → e.count + 1 < 2 ^ 32) {a : Nat}
    {e e' : TagData} (there : w.read a = some e) (old : fresh ≠ some a)
    (there' : w'.read a = some e') :
    e'.count = w'.links a ∧ 0 < e'.count ∧ e'.count < 2 ^ 32 := by
  have nodup := (List.nodup_append.mp owned.nodup).2.1
  have moved := h.links a
  obtain rfl := some.inj (there'.symm.trans (h.node a e there))
  have counted := sound.counted a e there
  have held := sound.held a e there
  have range := sound.range a e there
  simp only [one, some.injEq, old, if_false] at moved
  by_cases same : a = cur
  · subst same
    obtain rfl := some.inj (here.symm.trans there)
    have apart : p ≠ some a := fun points => (List.nodup_cons.mp nodup).1 (behind a points)
    simp only [apart, if_true, if_false] at moved ⊢
    rw [UInt32.sub_of_le held range]
    omega
  · have other : ¬ cur = a := Ne.symm same
    simp only [same, other, if_false] at moved ⊢
    by_cases following : p = some a
    · have small := room a e following there
      rw [if_pos following] at moved ⊢
      rw [UInt32.add_of_lt small]
      omega
    · rw [if_neg following] at moved ⊢
      omega

/-- The state is sound again, if no node is new. -/
theorem Moved.sound {q : Option Nat} {ys : List Nat} (h : Moved w w' i front cur p q none)
    (sound : Sound T w) (owned : Owned w i front (cur :: tail)) (here : w.read cur = some d)
    (shared : 1 < d.count) (behind : ∀ a, p = some a → a ∈ tail)
    (room : ∀ a e, p = some a → w.read a = some e → e.count + 1 < 2 ^ 32)
    (onward : Chain w'.next q ys) : Sound T w' := by
  have origin (a : Nat) (d' : TagData) (there : w'.read a = some d') : ∃ e, w.read a = some e := by
    cases old : w.read a with
    | none => cases there.symm.trans (h.dead a nofun old)
    | some e => exact ⟨e, rfl⟩
  apply h.relinked.sound sound owned loses_none onward
  · exact fun a d' there => .inl ⟨nofun, origin a d' there⟩
  · intro a d' there
    obtain ⟨e, old⟩ := origin a d' there
    exact h.counts sound owned here shared behind room old nofun there

section

variable (h : Copied w w' i front cur d.next tid data)
include h

theorem Copied.chain (owned : Owned w i front (cur :: tail)) (here : w.read cur = some d) :
    Chain w'.next (some w.nodes.length) (w.nodes.length :: tail) ∧
      w'.entries (w.nodes.length :: tail) = (tid, data) :: w.entries tail := by
  obtain ⟨chain, entries⟩ := h.relinked.behind owned loses_none here
  refine ⟨.cons (next_eq h.copy) chain, ?_⟩
  rw [← entries]
  simp [PacketTagLists.entries, h.copy]

theorem Copied.sound (sound : Sound T w)
    (owned : Owned w i front (cur :: tail)) (here : w.read cur = some d) (shared : 1 < d.count)
    (room : Roomy w tail) (value : Valued T tid data) : Sound T w' := by
  obtain ⟨chain, -⟩ := h.chain owned here
  have fresh (a : Nat) (e : TagData) (there : w.read a = some e) : w.nodes.length ≠ a :=
    (Nat.ne_of_lt (read_lt there)).symm
  -- a node of the new state is the copy or was there before
  have origin (a : Nat) (d' : TagData) (there : w'.read a = some d') :
      (∃ e, w.read a = some e) ∨ a = w.nodes.length ∧ d' = ⟨d.next, 1, tid, data⟩ := by
    cases old : w.read a with
    | some e => exact .inl ⟨e, rfl⟩
    | none =>
      by_cases new : a = w.nodes.length
      · subst new
        exact .inr ⟨rfl, some.inj (there.symm.trans h.copy)⟩
      · exact absurd (there.symm.trans (h.dead a (by simpa using Ne.symm new) old)) nofun
  apply h.relinked.sound sound owned loses_none chain
  · intro a d' there
    obtain old | ⟨rfl, rfl⟩ := origin a d' there
    · exact .inl ⟨nofun, old⟩
    · exact .inr ⟨⟨tail, (h.relinked.behind owned loses_none here).1⟩, value⟩
  · intro a d' there
    obtain ⟨e, old⟩ | ⟨rfl, rfl⟩ := origin a d' there
    · exact h.counts sound owned here shared (owned.behind here)
        (fun a e points => room a (owned.behind here a points) e) old
        (by simpa using fresh a e old) there
    · have moved := h.links w.nodes.length
      have zero := sound.links_dead (show w.read w.nodes.length = none by simp [read])
      have other : ¬ cur = w.nodes.length := (fresh cur d here).symm
      have notNext : d.next ≠ some w.nodes.length := by
        intro points
        obtain ⟨e, there⟩ := sound.alive (l := .next cur) (by rw [linkAt, next_eq here, points])
        exact fresh _ e there rfl
      simp only [one, some.injEq, other, notNext, if_false, if_true] at moved
      exact ⟨by simp only; omega, Nat.one_pos, by simp only; omega⟩

/-- The copy belongs to the list. -/
theorem Copied.owned (sound : Sound T w)
    (owned : Owned w i front (cur :: tail)) (here : w.read cur = some d) :
    Owned w' i (front ++ [w.nodes.length]) tail where
  chain := by
    obtain ⟨chain, -⟩ := h.chain owned here
    obtain ⟨p, head, whole, -⟩ := h.relinked.own owned loses_none chain
    refine ⟨p, head, ?_⟩
    rwa [List.append_assoc, List.singleton_append]
  sole a mem := by
    have moved := h.links a
    have nodup := List.nodup_append.mp owned.nodup
    obtain early | last := List.mem_append.mp mem
    · obtain ⟨p, -, chain⟩ := owned.chain
      obtain ⟨e, there⟩ := chain_read chain (List.mem_append_left _ early)
      have notNew : ¬ w.nodes.length = a := (Nat.ne_of_lt (read_lt there)).symm
      have notCur : ¬ cur = a := fun same => nodup.2.2 a early cur List.mem_cons_self same.symm
      have notNext : ¬ d.next = some a := fun points =>
        nodup.2.2 a early a (List.mem_cons_of_mem _ (owned.behind here a points)) rfl
      have sole := owned.sole a early
      simp only [one, some.injEq, notNew, notCur, notNext, if_false] at moved
      omega
    · obtain rfl := List.mem_singleton.mp last
      have notCur : ¬ cur = w.nodes.length := Nat.ne_of_lt (read_lt here)
      have zero := sound.links_dead (show w.read w.nodes.length = none by simp [read])
      have notNext : ¬ d.next = some w.nodes.length := by
        intro points
        obtain ⟨e, there⟩ := sound.alive (l := .next cur) (by rw [linkAt, next_eq here, points])
        exact Nat.ne_of_lt (read_lt there) rfl
      simp only [one, some.injEq, notCur, notNext, if_false, if_true] at moved
      omega

end

variable {maps : List (Nat → Option V)}

theorem Models.map (models : Models T w maps) (owned : Owned w i front rest) :
    ∃ m, maps[i]? = some m ∧ Holds T (w.entries front ++ w.entries rest) m := by
  obtain ⟨p, head, chain⟩ := owned.chain
  have bound : i < maps.length := by
    rw [models.length]
    exact (List.getElem?_eq_some_iff.mp head).1
  refine ⟨maps[i], List.getElem?_eq_getElem bound, ?_⟩
  rw [← entries_append]
  exact models.holds i p _ _ head (List.getElem?_eq_getElem bound) chain

theorem Models.here (models : Models T w maps) (owned : Owned w i front (cur :: tail))
    (here : w.read cur = some d) (map : maps[i]? = some m) :
    Holds T (w.entries front ++ (d.tid, d.data) :: w.entries tail) m := by
  obtain ⟨m', map', holds⟩ := models.map owned
  obtain rfl := some.inj (map.symm.trans map')
  obtain ⟨e, read, -, -, split⟩ := owned.here
  obtain rfl := some.inj (here.symm.trans read)
  rwa [split] at holds

theorem copyNode_eq (profile : BuildProfile) {l : Link} {x : Nat} (here : w.read cur = some d)
    (shared : 1 < d.count) (next : d.next = some x) : w.copyNode profile l cur =
      (w.cow profile l cur d.next d.tid d.data).map fun r => (r.1, x, r.2) := by
  have check : decide (d.count > 1) = true := decide_eq_true shared
  simp [copyNode, cow, here, check, next, incrementIf]

/-- The loop moves the end of the owned part to the tag, and leaves all lists as they are. -/
theorem copyBefore_spec (profile : BuildProfile) (sound : Sound T w) (models : Models T w maps)
    (owned : Owned w i front (cur :: tail)) (here : w.read cur = some d) (shared : 1 < d.count)
    (exists_ : tid ∈ (w.entries (cur :: tail)).map Prod.fst) (room : Roomy w tail) (rounds : Nat)
    (enough : tail.length ≤ rounds) :
    ∃ w' front' cur' tail' d', copyBefore profile tid rounds w (linkOf i front) cur =
        some (w', linkOf i front', cur') ∧ Sound T w' ∧ Models T w' maps ∧
      Owned w' i front' (cur' :: tail') ∧ w'.read cur' = some d' ∧ d'.tid = tid ∧ 1 < d'.count ∧
      Roomy w' tail' := by
  induction tail generalizing w front cur d rounds with
  | nil =>
    have same : d.tid = tid := by
      have only : tid = d.tid := by simpa [PacketTagLists.entries, here] using exists_
      exact only.symm
    refine ⟨w, front, cur, [], d, ?_, sound, models, owned, here, same, shared, room⟩
    unfold copyBefore
    simp [here, same]
  | cons x tail ih =>
    by_cases same : d.tid = tid
    · refine ⟨w, front, cur, x :: tail, d, ?_, sound, models, owned, here, same, shared, room⟩
      unfold copyBefore
      simp [here, same]
    · obtain ⟨e, read, next, later, entries⟩ := owned.here
      obtain rfl := some.inj (here.symm.trans read)
      rw [List.head?_cons] at next
      obtain ⟨rounds, rfl⟩ : ∃ k, rounds = k + 1 := ⟨rounds - 1, by simp at enough; omega⟩
      have value := sound.values cur d here
      obtain ⟨w', run, copied⟩ := cow_copied profile d.tid sound owned here value.2
      have sound' := copied.sound sound owned here shared room value
      have owned' := copied.owned sound owned here
      obtain ⟨chain, entries'⟩ := copied.chain owned here
      have models' : Models T w' maps := by
        obtain ⟨m, map, holds⟩ := models.map owned
        rw [entries] at holds
        rw [← entries'] at holds
        have same := copied.relinked.models models sound owned loses_none chain holds
        have kept : maps.set i m = maps := by
          obtain ⟨bound, value⟩ := List.getElem?_eq_some_iff.mp map
          rw [← value, List.set_getElem_self]
        rwa [kept] at same
      have nodup := (List.nodup_append.mp owned.nodup).2.1
      obtain ⟨notTail, distinct⟩ := List.nodup_cons.mp nodup
      have apart (a : Nat) (mem : a ∈ x :: tail) : ¬ a = cur := by
        rintro rfl
        exact notTail mem
      have counts (a : Nat) (e : TagData) (mem : a ∈ x :: tail) (there : w.read a = some e) :
          ∃ e', w'.read a = some e' ∧ e'.count = if x = a then e.count + 1 else e.count := by
        refine ⟨_, copied.node a e there, ?_⟩
        simp only [apart a mem, if_false, next, some.injEq]
        rw [UInt32.add_of_lt (room a mem e there)]
      obtain ⟨f, readX, -, -, -⟩ := owned'.here
      have nextShared : 1 < f.count := by
        obtain ⟨p, -, whole⟩ := owned.chain
        obtain ⟨e, there⟩ := chain_read whole (a := x) (by simp)
        obtain ⟨e', there', count⟩ := counts x e List.mem_cons_self there
        obtain rfl := some.inj (readX.symm.trans there')
        have held := sound.held x e there
        rw [if_pos rfl] at count
        omega
      have room' : Roomy w' tail := by
        intro a mem e' there'
        obtain ⟨p, -, whole⟩ := owned.chain
        obtain ⟨e, there⟩ := chain_read whole (a := a) (by simp [mem])
        obtain ⟨e'', there'', count⟩ := counts a e (List.mem_cons_of_mem x mem) there
        obtain rfl := some.inj (there'.symm.trans there'')
        have other : ¬ x = a := by
          rintro rfl
          exact (List.nodup_cons.mp distinct).1 mem
        rw [count, if_neg other]
        exact room a (List.mem_cons_of_mem x mem) e there
      have exists' : tid ∈ (w'.entries (x :: tail)).map Prod.fst := by
        obtain ⟨-, kept⟩ := copied.relinked.behind owned loses_none here
        rw [kept]
        rw [entries, List.map_cons, List.mem_cons] at exists_
        exact exists_.resolve_left (Ne.symm same)
      obtain ⟨w'', front', cur', tail', d', loop, rest⟩ :=
        ih sound' models' owned' readX nextShared
        exists' room' rounds (by simpa using enough)
      refine ⟨w'', front', cur', tail', d', ?_, rest⟩
      have link : linkOf i (front ++ [w.nodes.length]) = .next w.nodes.length := by
        rw [linkOf_eq_next, List.getLast?_concat]
      rw [link] at loop
      unfold copyBefore
      simp [here, if_neg same, copyNode_eq profile here shared next, run, loop]

end Ns3.PacketTagLists
