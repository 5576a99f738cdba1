import Ns3.Network.PacketTagList.Traversal

/-!
# The methods

Each method is a change of one map: the state stays sound, and all other lists keep what
they hold.
-/

namespace Ns3.PacketTagLists

open Option

variable {V : Type} {T : TagClass V} {w w' : PacketTagLists} {i : Nat} {front rest as : List Nat}
  {tid cur : Nat} {tail : List Nat} {p : Option Nat} {d : TagData} {m : Nat → Option V}
  {maps : List (Nat → Option V)} {profile : BuildProfile}

theorem Owned.linkOf_ne (owned : Owned w i front (cur :: tail)) : linkOf i front ≠ .next cur := by
  intro same
  have mem := List.mem_of_getLast? (linkOf_eq_next.mp same)
  exact (List.nodup_append.mp owned.nodup).2.2 cur mem cur List.mem_cons_self rfl

theorem SetTo.lists {q : Option Nat} (h : SetTo w w' (linkOf i front) q) :
    w'.lists = if front = [] then w.lists.set i q else w.lists := by
  cases link : linkOf i front with
  | head j =>
    obtain ⟨none_, rfl⟩ := linkOf_eq_head.mp link
    rw [h.head i link, if_pos none_]
  | next b =>
    have some_ : front ≠ [] := by
      rintro rfl
      cases link
    rw [h.other b link, if_neg some_]

/-! ## `Remove` -/

/-- A shared node behind the owned part is linked around. -/
theorem removeWriter_shared (sound : Sound T w) (owned : Owned w i front (cur :: tail))
    (here : w.read cur = some d) :
    ∃ w', removeWriter T w false cur (linkOf i front) = some (T.deserialize d.tid d.data, w') ∧
      Moved w w' i front cur d.next d.next none := by
  obtain ⟨w₁, set, setTo⟩ := setLink_spec owned.linkAt d.next
  have here₁ : w₁.read cur = some d := by rw [setTo.node cur d here, if_neg owned.linkOf_ne]
  have counts₂ := put_counts here₁ (UInt32.sub d.count 1)
  have down := decrement_eq here₁
  generalize w₁.put cur (some { d with count := UInt32.sub d.count 1 }) = w₂ at counts₂ down
  have alive (a : Nat) (points : d.next = some a) : ∃ e, w₂.read a = some e := by
    obtain ⟨e, there⟩ := sound.alive (l := .next cur) (by rw [linkAt, next_eq here, points])
    exact ⟨_, counts₂.node a _ (setTo.node a e there)⟩
  obtain ⟨w', up, counts₃⟩ := incrementIf_counts alive
  refine ⟨w', ?_, fun a e there => ?_, fun a _ dead => ?_, ?_, fun x => ?_⟩
  · simp [removeWriter, here, set, down, up]
  · rw [counts₃.node a _ (counts₂.node a _ (setTo.node a e there))]
    have apart := owned.next_ne here
    by_cases last : front.getLast? = some a
    · simp only [linkOf_eq_next, last, if_true]
      by_cases same : a = cur
      · subst same
        exact absurd (linkOf_eq_next.mpr last) owned.linkOf_ne
      · simp [same]
    · simp only [linkOf_eq_next, last, if_false]
      by_cases same : a = cur
      · subst same
        obtain rfl := some.inj (here.symm.trans there)
        simp [apart]
      · simp [same]
  · exact counts₃.dead a (counts₂.dead a (setTo.dead a dead))
  · rw [counts₃.lists, counts₂.lists, setTo.lists]
  · have moved := setTo.links _ owned.linkAt x
    rw [List.head?_cons, ← counts₂.links, ← counts₃.links] at moved
    rw [moved]
    simp [one]

/-- What `RemoveWriter` returns and leaves behind. -/
theorem remove_shared (sound : Sound T w) (models : Models T w maps)
    (owned : Owned w i front (cur :: tail)) (here : w.read cur = some d) (shared : 1 < d.count)
    (room : Roomy w tail) (map : maps[i]? = some m)
    (moved : Moved w w' i front cur d.next d.next none) :
    Sound T w' ∧ Models T w' (maps.set i (Function.update m d.tid none)) ∧
      m d.tid = some (T.deserialize d.tid d.data) := by
  obtain ⟨chain, entries⟩ := moved.relinked.behind owned loses_none here
  have holds := models.here owned here map
  refine ⟨?_, ?_, holds.present⟩
  · exact moved.sound sound owned here shared (owned.behind here)
      (fun a e points => room a (owned.behind here a points) e) chain
  · apply moved.relinked.models models sound owned loses_none chain
    rw [entries]
    exact holds.erase

/-- A node that only this list points to is linked around and freed. -/
structure Dropped (w w' : PacketTagLists) (i : Nat) (front : List Nat) (cur : Nat)
    (q : Option Nat) :
    Prop where
  node : ∀ a d, a ≠ cur → w.read a = some d →
    w'.read a = some (if front.getLast? = some a then { d with next := q } else d)
  dead : ∀ a, w.read a = none → w'.read a = none
  gone : w'.read cur = none
  lists : w'.lists = if front = [] then w.lists.set i q else w.lists
  links : ∀ x, w'.links x + one (some cur) x = w.links x

theorem removeWriter_sole (owned : Owned w i front (cur :: tail)) (here : w.read cur = some d) :
    ∃ w', removeWriter T w true cur (linkOf i front) = some (T.deserialize d.tid d.data, w') ∧
      Dropped w w' i front cur d.next := by
  obtain ⟨w₁, set, setTo⟩ := setLink_spec owned.linkAt d.next
  have here₁ : w₁.read cur = some d := by rw [setTo.node cur d here, if_neg owned.linkOf_ne]
  refine ⟨w₁.free cur, by simp [removeWriter, here, set], fun a e ne there => ?_, fun a dead => ?_,
    read_put_self (read_lt here₁) none, setTo.lists, fun x => ?_⟩
  · rw [free, read_put_of_ne ne, setTo.node a e there]
    simp only [linkOf_eq_next]
  · have ne : a ≠ cur := by
      rintro rfl
      exact absurd (here.symm.trans dead) nofun
    rw [free, read_put_of_ne ne, setTo.dead a dead]
  · have moved := setTo.links _ owned.linkAt x
    have freed := links_put here₁ none x
    rw [List.head?_cons] at moved
    simp only [bind_none, one, reduceCtorEq, if_false] at freed moved ⊢
    rw [free]
    omega

theorem Dropped.relinked {q : Option Nat} (h : Dropped w w' i front cur q) :
    Relinked w w' i front q (some cur) where
  lists := h.lists
  kept a d here alive := by
    have ne : a ≠ cur := fun same => alive (congrArg some same.symm)
    refine ⟨_, h.node a d ne here, ?_⟩
    split <;> exact ⟨rfl, rfl, rfl⟩

theorem remove_sole (sound : Sound T w) (models : Models T w maps)
    (owned : Owned w i front (cur :: tail)) (here : w.read cur = some d) (sole : w.links cur = 1)
    (map : maps[i]? = some m) (dropped : Dropped w w' i front cur d.next) :
    Sound T w' ∧ Models T w' (maps.set i (Function.update m d.tid none)) ∧
      m d.tid = some (T.deserialize d.tid d.data) := by
  have loses : Loses w (some cur) (cur :: tail) := loses_head sole
  obtain ⟨chain, entries⟩ := dropped.relinked.behind owned loses here
  have holds := models.here owned here map
  have origin (a : Nat) (d' : TagData) (there : w'.read a = some d') :
      a ≠ cur ∧ ∃ e, w.read a = some e := by
    constructor
    · rintro rfl
      exact absurd (there.symm.trans dropped.gone) nofun
    · cases old : w.read a with
      | none => exact absurd (there.symm.trans (dropped.dead a old)) nofun
      | some e => exact ⟨e, rfl⟩
  refine ⟨?_, ?_, holds.present⟩
  · apply dropped.relinked.sound sound owned loses chain
    · intro a d' there
      obtain ⟨ne, old⟩ := origin a d' there
      exact .inl ⟨by simpa using Ne.symm ne, old⟩
    · intro a d' there
      obtain ⟨ne, e, old⟩ := origin a d' there
      have moved := dropped.links a
      have other : ¬ cur = a := Ne.symm ne
      have counted := sound.counted a e old
      have held := sound.held a e old
      have range := sound.range a e old
      obtain rfl := some.inj (there.symm.trans (dropped.node a e ne old))
      simp only [one, some.injEq, other, if_false] at moved
      have count : (if front.getLast? = some a then { e with next := d.next } else e).count =
          e.count := by split <;> rfl
      omega
  · apply dropped.relinked.models models sound owned loses chain
    rw [entries]
    exact holds.erase

/-- The head of a list, and what it visits. -/
theorem Sound.owned (sound : Sound T w) (head : w.lists[i]? = some p) :
    ∃ as, Chain w.next p as ∧ Owned w i [] as ∧ as.length ≤ w.nodes.length + 1 ∧ p = as.head? := by
  obtain ⟨as, chain⟩ := sound.heads i p head
  have owned : Owned w i [] as := ⟨⟨p, head, chain⟩, nofun⟩
  have length := chain_length chain
  have start := owned.linkAt
  have found : some p = some as.head? := head.symm.trans start
  exact ⟨as, chain, owned, by omega, some.inj found⟩

/-- No count is at its limit. -/
def Room (w : PacketTagLists) : Prop := ∀ a d, w.read a = some d → d.count + 1 < 2 ^ 32

/-- Behind the owned part the writer finds the tag: in a node of the list alone, or, after
the nodes before it were copied, in a shared one. -/
theorem cowTraverse_spec {ρ : Type} (profile : BuildProfile) (sound : Sound T w)
    (models : Models T w maps) (map : maps[i]? = some m) (room : Room w) (tid : Nat)
    (writer : CowWriter ρ) :
    (w.cowTraverse profile i tid writer = some (none, w) ∧ m tid = none) ∨
    (∃ front cur tail d, Owned w i front (cur :: tail) ∧ w.read cur = some d ∧ w.links cur = 1 ∧
      d.tid = tid ∧ w.search tid (w.nodes.length + 1) (.head i) w.lists[i]?.join =
        some (.tag cur (linkOf i front)) ∧
      w.cowTraverse profile i tid writer =
        (writer w true cur (linkOf i front)).map fun r => (some r.1, r.2)) ∨
    (∃ w₁ front cur tail d, Sound T w₁ ∧ Models T w₁ maps ∧ Owned w₁ i front (cur :: tail) ∧
      w₁.read cur = some d ∧ d.tid = tid ∧ 1 < d.count ∧ Roomy w₁ tail ∧
      w.cowTraverse profile i tid writer =
        (writer w₁ false cur (linkOf i front)).map fun r => (some r.1, r.2)) := by
  have bound : i < w.lists.length := by
    rw [← models.length]
    exact (List.getElem?_eq_some_iff.mp map).1
  obtain ⟨as, chain, owned, enough, start⟩ := sound.owned (List.getElem?_eq_getElem bound)
  obtain ⟨m', map', holds⟩ := models.map owned
  obtain rfl := some.inj (map.symm.trans map')
  have link : linkOf i [] = .head i := rfl
  rw [cowTraverse, List.getElem?_eq_getElem bound, start]
  simp only [bind_eq_bind, bind_some, join_some]
  obtain ⟨found, absent⟩ | ⟨front, cur, tail, d, rfl, owned', here, sole, same, found⟩ |
      ⟨front, cur, tail, d, rfl, owned', here, shared, before, found⟩ :=
    search_spec sound owned tid (w.nodes.length + 1) enough
  · rw [link] at found
    refine .inl ⟨?_, holds.absent absent⟩
    simp [found]
  · rw [link, List.nil_append] at found
    refine .inr (.inl ⟨front, cur, tail, d, owned', here, sole, same, found, ?_⟩)
    simp only [found, bind_some, map_eq_bind]
    rfl
  · rw [link, List.nil_append] at found
    rw [List.nil_append] at owned'
    have behind : Chain w.next (some cur) (cur :: tail) := by
      obtain ⟨p, -, whole⟩ := owned'.chain
      obtain ⟨r, -, second⟩ := Segment.append_iff.mp whole
      obtain ⟨rfl, -⟩ := Segment.cons_iff.mp second
      exact second
    have short : (cur :: tail).length ≤ w.nodes.length + 1 :=
      Nat.le_succ_of_le (chain_length behind)
    have check := present_eq tid behind short
    by_cases exists_ : tid ∈ (w.entries (cur :: tail)).map Prod.fst
    · have yes : ((w.entries (cur :: tail)).any fun e => decide (e.1 = tid)) = true := by
        obtain ⟨e, mem, same⟩ := List.mem_map.mp exists_
        exact List.any_eq_true.mpr ⟨e, mem, decide_eq_true same⟩
      obtain ⟨w₁, front', cur', tail', d', loop, sound', models', owned'', here', same, shared',
        room'⟩ := copyBefore_spec profile sound models owned' here shared exists_
          (fun a _ => room a) (w.nodes.length + 1) (by simp at short; omega)
      refine .inr (.inr ⟨w₁, front', cur', tail', d', sound', models', owned'', here', same,
        shared', room', ?_⟩)
      have merge : decide (d'.count > 1) = true := decide_eq_true shared'
      simp only [found, check, yes, loop, here', merge, nsAssert_true, bind_some,
        Bool.not_true, Bool.false_eq_true, if_false, map_eq_bind]
      rfl
    · have no : ((w.entries (cur :: tail)).any fun e => decide (e.1 = tid)) = false := by
        apply List.any_eq_false.mpr
        intro e mem same
        exact exists_ (List.mem_map.mpr ⟨e, mem, of_decide_eq_true same⟩)
      refine .inl ⟨?_, holds.absent ?_⟩
      · simp only [found, check, no, bind_some, Bool.not_false, if_true]
      · change tid ∉ (w.entries (front ++ cur :: tail)).map Prod.fst
        rw [entries_append, List.map_append, List.mem_append]
        rintro (early | late)
        · exact before early
        · exact exists_ late

theorem set_same (map : maps[i]? = some m) : maps.set i m = maps := by
  obtain ⟨bound, value⟩ := List.getElem?_eq_some_iff.mp map
  rw [← value, List.set_getElem_self]

/-- `Remove` takes the tag out of one map. -/
theorem remove_spec (profile : BuildProfile) (sound : Sound T w) (models : Models T w maps)
    (map : maps[i]? = some m) (room : Room w) (tid : Nat) :
    ∃ w', w.remove T profile i tid = some (m tid, w') ∧ Sound T w' ∧
      Models T w' (maps.set i (Function.update m tid none)) := by
  obtain ⟨run, absent⟩ | ⟨front, cur, tail, d, owned, here, sole, rfl, -, run⟩ |
      ⟨w₁, front, cur, tail, d, sound₁, models₁, owned, here, rfl, shared, room₁, run⟩ :=
    cowTraverse_spec profile sound models map room tid (removeWriter T)
  · refine ⟨w, by rw [remove, run, absent], sound, ?_⟩
    rw [← absent, Function.update_eq_self, set_same map]
    exact models
  · obtain ⟨w', write, dropped⟩ := removeWriter_sole (T := T) owned here
    obtain ⟨sound', models', value⟩ := remove_sole sound models owned here sole map dropped
    exact ⟨w', by rw [remove, run, write, value]; rfl, sound', models'⟩
  · obtain ⟨w', write, moved⟩ := removeWriter_shared (T := T) sound₁ owned here
    obtain ⟨sound', models', value⟩ :=
      remove_shared sound₁ models₁ owned here shared room₁ map moved
    exact ⟨w', by rw [remove, run, write, value]; rfl, sound', models'⟩

/-! ## `Add` and `Replace` -/

/-- A new node in front of a list. -/
structure Added (w w' : PacketTagLists) (i : Nat) (p : Option Nat) (tid : Nat) (data : List Byte) :
    Prop where
  node : ∀ a d, w.read a = some d → w'.read a = some d
  new : w'.read w.nodes.length = some ⟨p, 1, tid, data⟩
  dead : ∀ a, a ≠ w.nodes.length → w.read a = none → w'.read a = none
  lists : w'.lists = w.lists.set i (some w.nodes.length)
  links : ∀ x, w'.links x = w.links x + one (some w.nodes.length) x

theorem add_added (profile : BuildProfile) (head : w.lists[i]? = some p) {v : V}
    (absent : profile = .debug → w.present tid (w.nodes.length + 1) p = some false) :
    ∃ w', w.add T profile i tid v = some w' ∧ Added w w' i p tid (T.serialize tid v) := by
  have bound := (List.getElem?_eq_some_iff.mp head).1
  have fits : decide ((T.serialize tid v).length < 2 ^ 32 - 1) = true :=
    decide_eq_true (T.fits tid v)
  have run : w.add T profile i tid v = some {
      nodes := w.nodes ++ [some ⟨p, 1, tid, T.serialize tid v⟩]
      lists := w.lists.set i (some w.nodes.length) } := by
    simp only [add, head, create, fits, nsAssert_true, setLink, if_pos bound, some_bind, pure_some]
    by_cases debug : profile = .debug
    · simp [debug, absent debug]
    · simp only [if_neg debug]
  refine ⟨_, run, fun a d here => read_append here _, read_append_new _, fun a ne dead => ?_, rfl,
    fun x => ?_⟩
  · simp only [read, List.getElem?_append]
    split
    · exact dead
    · next out =>
        have beyond : a - w.nodes.length ≠ 0 := by omega
        simp [beyond]
  · have grown := links_append_node (w := w) ⟨p, 1, tid, T.serialize tid v⟩ x
    have moved := links_set_head (w := { w with
      nodes := w.nodes ++ [some ⟨p, 1, tid, T.serialize tid v⟩] }) head (some w.nodes.length) x
    simp only at moved grown
    omega

/-- `Add` puts the tag into one map. -/
theorem Added.spec {v : V} (h : Added w w' i p tid (T.serialize tid v)) (sound : Sound T w)
    (models : Models T w maps) (head : w.lists[i]? = some p) (map : maps[i]? = some m)
    (absent : m tid = none) :
    Sound T w' ∧ Models T w' (maps.set i (Function.update m tid (some v))) := by
  obtain ⟨as, chain⟩ := sound.heads i p head
  have relinked : Relinked w w' i [] (some w.nodes.length) none :=
    ⟨h.lists, fun a d here _ => ⟨d, h.node a d here, rfl, rfl, rfl⟩⟩
  obtain ⟨chain', entries⟩ := relinked.segment chain nofun nofun
  have owned : Owned w i [] as := ⟨⟨p, head, chain⟩, nofun⟩
  have onward : Chain w'.next (some w.nodes.length) (w.nodes.length :: as) :=
    .cons (next_eq h.new) chain'
  -- a node of the new state is the new one or was there before
  have origin (a : Nat) (d' : TagData) (there : w'.read a = some d') :
      w.read a = some d' ∨ a = w.nodes.length ∧ d' = ⟨p, 1, tid, T.serialize tid v⟩ := by
    cases old : w.read a with
    | some e => exact .inl ((h.node a e old).symm.trans there)
    | none =>
      by_cases new : a = w.nodes.length
      · subst new
        exact .inr ⟨rfl, some.inj (there.symm.trans h.new)⟩
      · cases there.symm.trans (h.dead a new old)
  constructor
  · apply relinked.sound sound owned loses_none onward
    · intro a d' there
      obtain old | ⟨-, rfl⟩ := origin a d' there
      · exact .inl ⟨nofun, d', old⟩
      · exact .inr ⟨⟨as, chain'⟩, ⟨v, [], (List.append_nil _).symm⟩, T.fits tid v⟩
    · intro a d' there
      have moved := h.links a
      obtain old | ⟨rfl, rfl⟩ := origin a d' there
      · have other : ¬ w.nodes.length = a := (Nat.ne_of_lt (read_lt old)).symm
        simp only [one, some.injEq, other, if_false] at moved
        rw [moved]
        exact ⟨sound.counted a d' old, sound.held a d' old, sound.range a d' old⟩
      · have zero := sound.links_dead (show w.read w.nodes.length = none by simp [read])
        simp only [one, if_true] at moved
        exact ⟨by simp only; omega, Nat.one_pos, by simp only; omega⟩
  · apply relinked.models models sound owned loses_none onward
    have before := models.holds i p m as head map chain
    have fresh : tid ∉ (w.entries as).map Prod.fst := by
      intro mem
      obtain ⟨e, held, rfl⟩ := List.mem_map.mp mem
      have present := (before.value e.1 _).mpr ⟨e.2, held, rfl⟩
      cases absent.symm.trans present
    have after := before.cons fresh (T.serialize tid v)
    have value : T.deserialize tid (T.serialize tid v) = v := by
      have := T.reads tid v []
      rwa [List.append_nil] at this
    have split : w'.entries (w.nodes.length :: as) = (tid, T.serialize tid v) :: w.entries as := by
      rw [← entries]
      simp [PacketTagLists.entries, h.new]
    rw [value, ← split] at after
    exact after

theorem Holds.present_iff {es : List (Nat × List Byte)} (h : Holds T es m) (tid : Nat) :
    (es.any fun e => decide (e.1 = tid)) = (m tid).isSome := by
  rw [← h.find tid, isSome_map, Bool.eq_iff_iff, List.find?_isSome, List.any_eq_true]

/-- The method, on a list without a tag of this type. -/
theorem add_spec (profile : BuildProfile) (sound : Sound T w) (models : Models T w maps)
    (map : maps[i]? = some m) (absent : m tid = none) (v : V) :
    ∃ w', w.add T profile i tid v = some w' ∧ Sound T w' ∧
      Models T w' (maps.set i (Function.update m tid (some v))) := by
  have bound : i < w.lists.length := by
    rw [← models.length]
    exact (List.getElem?_eq_some_iff.mp map).1
  have head := List.getElem?_eq_getElem bound
  obtain ⟨as, chain, owned, enough, start⟩ := sound.owned head
  have holds := models.holds i _ m as head map chain
  have check : w.present tid (w.nodes.length + 1) w.lists[i] = some false := by
    rw [present_eq tid chain enough, holds.present_iff, absent]
    rfl
  obtain ⟨w', run, added⟩ := add_added (T := T) profile head (v := v) fun _ => check
  exact ⟨w', run, added.spec sound models head map absent⟩

/-- Other data in a node that only one list visits. -/
theorem overwrite_spec (sound : Sound T w) (models : Models T w maps)
    (owned : Owned w i front (cur :: tail)) (here : w.read cur = some d) (sole : w.links cur = 1)
    (map : maps[i]? = some m) {data : List Byte} (value : Valued T d.tid data) :
    Sound T (w.put cur (some { d with data })) ∧ Models T (w.put cur (some { d with data }))
      (maps.set i (Function.update m d.tid (some (T.deserialize d.tid data)))) := by
  generalize new : w.put cur (some { d with data }) = w'
  have self : w'.read cur = some { d with data } := by rw [← new, read_put_self (read_lt here)]
  have others (a : Nat) (ne : a ≠ cur) : w'.read a = w.read a := by rw [← new, read_put_of_ne ne]
  have lists : w'.lists = w.lists := by rw [← new, lists_put]
  have links (x : Nat) : w'.links x = w.links x := by
    have same := links_put here (some { d with data }) x
    rw [new] at same
    exact Nat.add_right_cancel same
  have loses : Loses w (some cur) (cur :: tail) := loses_head sole
  have place := owned.linkAt
  rw [List.head?_cons] at place
  have relinked : Relinked w w' i front (some cur) (some cur) := by
    refine ⟨?_, fun a e there alive => ⟨e, ?_, rfl, rfl, ?_⟩⟩
    · rw [lists]
      split
      · next none_ =>
        subst none_
        obtain ⟨bound, value⟩ := List.getElem?_eq_some_iff.mp place
        rw [← value, List.set_getElem_self]
      · rfl
    · rw [others a fun same => alive (congrArg some same.symm), there]
    · split
      · next last =>
        rw [linkOf_eq_next.mpr last, linkAt, next_eq there, some.injEq] at place
        exact place
      · rfl
  obtain ⟨later, entries⟩ := relinked.behind owned loses here
  have onward : Chain w'.next (some cur) (cur :: tail) := .cons (next_eq self) later
  constructor
  · apply relinked.sound sound owned loses onward
    · intro a d' there
      by_cases ne : a = cur
      · subst ne
        obtain rfl := some.inj (there.symm.trans self)
        exact .inr ⟨⟨tail, later⟩, value⟩
      · rw [others a ne] at there
        exact .inl ⟨fun same => ne (some.inj same).symm, d', there⟩
    · intro a d' there
      rw [links]
      by_cases ne : a = cur
      · subst ne
        obtain rfl := some.inj (there.symm.trans self)
        exact ⟨sound.counted a d here, sound.held a d here, sound.range a d here⟩
      · rw [others a ne] at there
        exact ⟨sound.counted a d' there, sound.held a d' there, sound.range a d' there⟩
  · apply relinked.models models sound owned loses onward
    have holds := models.here owned here map
    have cons : w'.entries (cur :: tail) = (d.tid, data) :: w'.entries tail := by
      simp [PacketTagLists.entries, self]
    rw [cons, entries]
    exact holds.change data

/-- The size of the node that `Replace` writes to, if it writes in place. -/
def inPlace (w : PacketTagLists) (list tid : Nat) : Option Nat :=
  match w.search tid (w.nodes.length + 1) (.head list) w.lists[list]?.join with
  | some (.tag cur _) => (w.read cur).map (·.data.length)
  | _ => none

/-- Where `Replace` writes in place, the node is large enough. -/
def Fits (T : TagClass V) (w : PacketTagLists) (list tid : Nat) (v : V) : Prop :=
  ∀ size, w.inPlace list tid = some size → (T.serialize tid v).length ≤ size

theorem replaceWriter_shared (here : w.read cur = some d) (l : Link) (v : V) :
    replaceWriter T profile tid v w false cur l =
      (w.cow profile l cur d.next tid (T.serialize tid v)).map fun r => ((), r.2) := by
  simp [replaceWriter, cow, here]

/-- `Replace` changes one map. -/
theorem replace_spec (profile : BuildProfile) (sound : Sound T w) (models : Models T w maps)
    (map : maps[i]? = some m) (room : Room w) {v : V} (fits : Fits T w i tid v) :
    ∃ w', w.replace T profile i tid v = some ((m tid).isSome, w') ∧ Sound T w' ∧
      Models T w' (maps.set i (Function.update m tid (some v))) := by
  obtain ⟨run, absent⟩ | ⟨front, cur, tail, d, owned, here, sole, same, found, run⟩ |
      ⟨w₁, front, cur, tail, d, sound₁, models₁, owned, here, same, shared, room₁, run⟩ :=
    cowTraverse_spec profile sound models map room tid (replaceWriter T profile tid v)
  · obtain ⟨w', added, sound', models'⟩ := add_spec profile sound models map absent v
    refine ⟨w', ?_, sound', models'⟩
    simp [replace, run, added, absent]
  · subst same
    have enough : (T.serialize d.tid v).length ≤ d.data.length := by
      apply fits
      simp [inPlace, found, here]
    have value : Valued T d.tid
      (T.serialize d.tid v ++ d.data.drop (T.serialize d.tid v).length) := by
      refine ⟨⟨v, _, rfl⟩, ?_⟩
      have small := (sound.values cur d here).2
      rw [List.length_append, List.length_drop]
      omega
    obtain ⟨sound', models'⟩ := overwrite_spec sound models owned here sole map value
    have present : (m d.tid).isSome = true := by
      have holds := models.here owned here map
      rw [holds.present]
      rfl
    rw [T.reads] at models'
    refine ⟨_, ?_, sound', models'⟩
    simp [replace, run, replaceWriter, here, serializeInto, enough, present]
  · subst same
    have value : Valued T d.tid (T.serialize d.tid v) :=
      ⟨⟨v, [], (List.append_nil _).symm⟩, T.fits d.tid v⟩
    obtain ⟨w', write, copied⟩ := cow_copied profile d.tid sound₁ owned here value.2
    have sound' := copied.sound sound₁ owned here shared room₁ value
    obtain ⟨chain, entries⟩ := copied.chain owned here
    have holds := models₁.here owned here map
    have changed := holds.change (T.serialize d.tid v)
    have read : T.deserialize d.tid (T.serialize d.tid v) = v := by
      have := T.reads d.tid v []
      rwa [List.append_nil] at this
    rw [← entries, read] at changed
    refine ⟨w', ?_, sound', copied.relinked.models models₁ sound₁ owned loses_none chain changed⟩
    simp [replace, run, replaceWriter_shared here, write, holds.present]

/-- `Peek` reads one map. -/
theorem peek_spec (sound : Sound T w) (models : Models T w maps) (map : maps[i]? = some m)
    (tid : Nat) : w.peek T i tid = some (m tid) := by
  have bound : i < w.lists.length := by
    rw [← models.length]
    exact (List.getElem?_eq_some_iff.mp map).1
  have head := List.getElem?_eq_getElem bound
  obtain ⟨as, chain, -, enough, -⟩ := sound.owned head
  have holds := models.holds i _ m as head map chain
  rw [peek, head]
  simp only [some_bind]
  rw [peekFrom_eq chain enough, holds.find]

/-! ## `RemoveAll` -/

/-- The list ends before a shared node, which loses one pointer. -/
theorem cut_spec (sound : Sound T w) (models : Models T w maps) (owned : Owned w i [] (cur :: tail))
    (here : w.read cur = some d) (shared : 1 < d.count) :
    let w' := { w.put cur (some { d with count := UInt32.sub d.count 1 }) with
      lists := w.lists.set i none }
    Sound T w' ∧ Models T w' (maps.set i fun _ => none) := by
  intro w'
  have counts := put_counts here (UInt32.sub d.count 1)
  have head := owned.linkAt
  have moved : Moved w w' i [] cur none none none := by
    refine ⟨fun a e there => ?_, fun a _ dead => counts.dead a dead, rfl, fun x => ?_⟩
    · have same : w'.read a = _ := counts.node a e there
      by_cases eq : a = cur
      · subst eq
        obtain rfl := some.inj (here.symm.trans there)
        simpa using same
      · simpa [eq] using same
    · have set :=
        links_set_head (w := w.put cur (some { d with count := UInt32.sub d.count 1 })) head
        none x
      rw [counts.links] at set
      simpa [one] using set
  have rest : Chain w'.next none [] := .nil none
  constructor
  · exact moved.sound sound owned here shared (by simp) (by simp) rest
  · apply moved.relinked.models models sound owned loses_none rest
    exact holds_nil

/-- The list goes on behind a node that only it points to, which is freed. -/
theorem drop_dropped (owned : Owned w i [] (cur :: tail)) (here : w.read cur = some d) :
    Dropped w { w.free cur with lists := w.lists.set i d.next } i [] cur d.next := by
  refine ⟨fun a e ne there => (read_put_of_ne ne none).trans there, fun a dead => ?_,
    read_put_self (read_lt here) none, rfl, fun x => ?_⟩
  · have ne : a ≠ cur := by
      rintro rfl
      exact absurd (here.symm.trans dead) nofun
    exact (read_put_of_ne ne none).trans dead
  · have head : (w.free cur).lists[i]? = some (some cur) := owned.linkAt
    have set : { w.free cur with lists := w.lists.set i d.next }.links x + one (some cur) x =
        (w.free cur).links x + one d.next x := links_set_head head d.next x
    have freed : (w.free cur).links x + one d.next x = w.links x + 0 := links_put here none x
    omega

/-- The state of the loop of `RemoveAll`: what it is when the node in `prev` is freed as
well, and the list starts at the node that is looked at next. -/
structure Removing (w : PacketTagLists) (prev : Option Nat) (i : Nat) (p : Option Nat)
    (ghost : PacketTagLists) : Prop where
  nodes : (w.freeIf prev).nodes = ghost.nodes
  lists : ghost.lists = w.lists.set i p
  apart : ∀ a d, ghost.read a = some d → prev ≠ some a

theorem freeIf_put {prev : Option Nat} {a : Nat} (apart : prev ≠ some a) (n : Option TagData) :
    (w.put a n).freeIf prev = (w.freeIf prev).put a n := by
  cases prev with
  | none => rfl
  | some b =>
    have ne : a ≠ b := fun same => apart (congrArg some same.symm)
    simp only [freeIf, free, put, List.set_comm _ _ ne]

theorem read_congr {v : PacketTagLists} (same : v.nodes = w.nodes) (a : Nat) :
    v.read a = w.read a := by
  rw [read, read, same]

theorem Dropped.shorten (dropped : Dropped w w' i [] cur d.next) (sole : w.links cur = 1)
    (owned : Owned w i [] (cur :: tail)) (here : w.read cur = some d) : Owned w' i [] tail := by
  have loses : Loses w (some cur) (cur :: tail) := loses_head sole
  obtain ⟨chain, -⟩ := dropped.relinked.behind owned loses here
  obtain ⟨p, head, chain, -⟩ := dropped.relinked.own owned loses chain
  exact ⟨⟨p, head, chain⟩, nofun⟩

/-- No count is above the count before. -/
def Below (w w' : PacketTagLists) : Prop :=
  ∀ a d', w'.read a = some d' → ∃ d, w.read a = some d ∧ d'.count ≤ d.count

theorem Below.refl (w : PacketTagLists) : Below w w := fun _ d here => ⟨d, here, Nat.le_refl _⟩

theorem Below.trans {w'' : PacketTagLists} (first : Below w w') (second : Below w' w'') :
    Below w w'' := by
  intro a d there
  obtain ⟨d', between, less⟩ := second a d there
  obtain ⟨d'', here, less'⟩ := first a d' between
  exact ⟨d'', here, Nat.le_trans less less'⟩

theorem Dropped.below {q : Option Nat} (dropped : Dropped w w' i front cur q) : Below w w' := by
  intro a d' there
  have ne : a ≠ cur := by
    rintro rfl
    exact absurd (there.symm.trans dropped.gone) nofun
  cases old : w.read a with
  | none => exact absurd (there.symm.trans (dropped.dead a old)) nofun
  | some e =>
    obtain rfl := some.inj (there.symm.trans (dropped.node a e ne old))
    refine ⟨e, rfl, Nat.le_of_eq ?_⟩
    split <;> rfl

theorem put_below (here : w.read cur = some d) {n : Nat} (less : n ≤ d.count) :
    Below w (w.put cur (some { d with count := n })) := by
  have counts := put_counts here n
  intro a d' there
  cases old : w.read a with
  | none => exact absurd ((counts.dead a old).symm.trans there) nofun
  | some e =>
    obtain rfl := some.inj (there.symm.trans (counts.node a e old))
    refine ⟨e, rfl, ?_⟩
    by_cases same : a = cur
    · subst same
      obtain rfl := some.inj (here.symm.trans old)
      rw [if_pos rfl]
      exact less
    · exact Nat.le_of_eq (if_neg same)

variable {ghost : PacketTagLists}

theorem Removing.real {prev : Option Nat}
    (removing : Removing w prev i p ghost) (here : ghost.read cur = some d) :
    w.read cur = some d := by
  have freed : (w.freeIf prev).read cur = some d := (read_congr removing.nodes cur).trans here
  cases prev with
  | none => exact freed
  | some b =>
    have ne : cur ≠ b := fun same => removing.apart cur d here (congrArg some same.symm)
    exact (read_put_of_ne ne none).symm.trans freed

theorem Removing.put {prev : Option Nat}
    (removing : Removing w prev i p ghost) (here : ghost.read cur = some d) (n : Option TagData) :
    ((w.put cur n).freeIf prev).nodes = (ghost.put cur n).nodes := by
  rw [freeIf_put (removing.apart cur d here), PacketTagLists.put, PacketTagLists.put,
    removing.nodes]

theorem lists_freeIf (prev : Option Nat) : (w.freeIf prev).lists = w.lists := by
  cases prev <;> rfl

/-- One round of the loop: the node in `prev` is freed, and the first node takes its place. -/
theorem Removing.advance {prev : Option Nat}
    (removing : Removing w prev i (some cur) ghost) (here : ghost.read cur = some d)
    (n : Option TagData) :
    Removing ((w.put cur n).freeIf prev) (some cur) i d.next
      { ghost.free cur with lists := ghost.lists.set i d.next } where
  nodes := by
    change ((w.put cur n).freeIf prev).nodes.set cur none = ghost.nodes.set cur none
    rw [removing.put here n, PacketTagLists.put, List.set_set]
  lists := by
    rw [lists_freeIf, lists_put, removing.lists, List.set_set]
  apart a e there same := by
    cases same
    have gone : (ghost.free cur).read cur = none := read_put_self (read_lt here) none
    cases ((read_congr rfl cur).symm.trans there).symm.trans gone

theorem removeAllFrom_cons {prev : Option Nat} (rounds : Nat) (here : w.read cur = some d) :
    removeAllFrom (rounds + 1) w prev (some cur) =
      if UInt32.sub d.count 1 > 0 then
        some ((w.put cur (some { d with count := UInt32.sub d.count 1 })).freeIf prev)
      else removeAllFrom rounds
        ((w.put cur (some { d with count := UInt32.sub d.count 1 })).freeIf prev)
        (some cur) d.next := by
  have down := decrement_eq here
  obtain ⟨lower, known⟩ : ∃ k, UInt32.sub d.count 1 = k := ⟨_, rfl⟩
  rw [known] at down ⊢
  have again := read_put_self (read_lt here) (some { d with count := lower })
  rw [removeAllFrom, down, bind_eq_bind, bind_some, again]
  rfl

/-- The loop of `RemoveAll` empties one map, once the head is set, and no count goes up. -/
theorem removeAllFrom_spec {prev : Option Nat} (rounds : Nat)
    (sound : Sound T ghost) (models : Models T ghost maps) (owned : Owned ghost i [] as)
    (removing : Removing w prev i as.head? ghost) (enough : as.length ≤ rounds) :
    ∃ w' final, removeAllFrom rounds w prev as.head? = some w' ∧ w'.lists = w.lists ∧
      w'.nodes = final.nodes ∧ final.lists = w.lists.set i none ∧ Sound T final ∧
      Models T final (maps.set i fun _ => none) ∧ Below ghost final := by
  induction as generalizing w prev ghost rounds maps with
  | nil =>
    refine ⟨w.freeIf prev, ghost, by cases rounds <;> rfl, lists_freeIf prev, removing.nodes,
      removing.lists, sound, ?_, Below.refl ghost⟩
    obtain ⟨m, map, holds⟩ := models.map owned
    have empty : m = fun _ => none := by
      funext tid
      exact holds.absent (by simp [entries])
    rw [← empty, set_same map]
    exact models
  | cons cur tail ih =>
    obtain ⟨d, here, next, -, -⟩ := owned.here
    obtain ⟨rounds, rfl⟩ : ∃ k, rounds = k + 1 := ⟨rounds - 1, by simp at enough; omega⟩
    have real := removing.real here
    have held := sound.held cur d here
    have less : UInt32.sub d.count 1 = d.count - 1 := UInt32.sub_of_le held (sound.range cur d here)
    have cut := cut_spec sound models owned here
    rw [← next] at ih
    rw [List.head?_cons, removeAllFrom_cons rounds real]
    generalize UInt32.sub d.count 1 = lower at *
    by_cases shared : 1 < d.count
    · have positive : lower > 0 := by omega
      have lowered : lower ≤ d.count := by omega
      obtain ⟨sound', models'⟩ := cut shared
      have resets : ghost.lists.set i none = w.lists.set i none := by
        rw [removing.lists, List.set_set]
      refine ⟨_, ⟨(ghost.put cur (some { d with count := lower })).nodes, ghost.lists.set i none⟩,
        if_pos positive, lists_freeIf prev, removing.put here _, resets, sound', models', ?_⟩
      intro a d' there
      exact put_below here lowered a d' ((read_congr rfl a).trans there)
    · have zero : ¬ lower > 0 := by omega
      have sole : ghost.links cur = 1 := by
        have counted := sound.counted cur d here
        omega
      obtain ⟨m, map, -⟩ := models.map owned
      have dropped := drop_dropped owned here
      obtain ⟨sound', models', -⟩ := remove_sole sound models owned here sole map dropped
      have owned' := dropped.shorten sole owned here
      have removing' := removing.advance here (some { d with count := lower })
      have emptied : (maps.set i (Function.update m d.tid none)).set i (fun _ => none) =
          maps.set i fun _ => none := List.set_set _
      obtain ⟨w', final, run, lists, nodes, head, sound'', models'', below⟩ :=
        ih rounds sound' models' owned' removing' (by simpa using enough)
      rw [lists_freeIf, lists_put] at lists head
      rw [emptied] at models''
      rw [if_neg zero]
      exact ⟨w', final, run, lists, nodes, head, sound'', models'', dropped.below.trans below⟩

theorem Models.head (models : Models T w maps) (map : maps[i]? = some m) :
    ∃ p, w.lists[i]? = some p := by
  have bound : i < w.lists.length := by
    rw [← models.length]
    exact (List.getElem?_eq_some_iff.mp map).1
  exact ⟨_, List.getElem?_eq_getElem bound⟩

/-- `RemoveAll` empties one map. -/
theorem removeAll_spec (sound : Sound T w) (models : Models T w maps) (map : maps[i]? = some m) :
    ∃ w', w.removeAll i = some w' ∧ Sound T w' ∧ Models T w' (maps.set i fun _ => none) ∧
      w'.lists = w.lists.set i none ∧ Below w w' := by
  obtain ⟨p, head⟩ := models.head map
  obtain ⟨as, -, owned, enough, rfl⟩ := sound.owned head
  have start : Removing w none i as.head? w := by
    refine ⟨rfl, ?_, fun _ _ _ => nofun⟩
    obtain ⟨bound, value⟩ := List.getElem?_eq_some_iff.mp head
    rw [← value, List.set_getElem_self]
  obtain ⟨w₁, final, run, lists, nodes, last, sound', models', below⟩ :=
    removeAllFrom_spec _ sound models owned start enough
  have bound : i < w₁.lists.length := by
    rw [lists]
    exact (List.getElem?_eq_some_iff.mp head).1
  have set : w₁.setLink (.head i) none = some final := by
    rw [setLink, if_pos bound, lists, nodes, ← last]
  refine ⟨final, ?_, sound', models', last, below⟩
  rw [removeAll, head]
  simp [run, set]

end Ns3.PacketTagLists
