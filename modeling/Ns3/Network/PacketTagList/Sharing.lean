import Ns3.Network.PacketTagList.Basic
import Ns3.Library.Chain
import Mathlib.Data.List.Induction

/-!
# Shared tails

Every count is the number of pointers to its node. A list owns its nodes up to the first
one with another pointer to it: no other list comes through them, so changing the pointer
at the end of that part changes one list only.
-/

namespace Ns3.PacketTagLists

open List Option

variable {w w' : PacketTagLists} {a b : Nat} {d : TagData} {p q : Option Nat}

/-- The pointer stored in a node. -/
def next (w : PacketTagLists) (a : Nat) : Option (Option Nat) := (w.read a).map (·.next)

/-- The pointer at a place. -/
def linkAt (w : PacketTagLists) : Link → Option (Option Nat)
  | .head list => w.lists[list]?
  | .next a => w.next a

/-- The number of list heads and `next` pointers that point to a node. -/
def links (w : PacketTagLists) (a : Nat) : Nat :=
  w.lists.countP (· == some a) + w.nodes.countP fun n => n.any fun d => d.next == some a

/-- One, if the pointer is to this address. -/
def one (p : Option Nat) (a : Nat) : Nat := if p = some a then 1 else 0

/-! ## Reading after writing -/

theorem read_lt (h : w.read a = some d) : a < w.nodes.length := by
  rw [read, join_eq_some_iff] at h
  exact (List.getElem?_eq_some_iff.mp h).1

theorem read_getElem (h : w.read a = some d) : w.nodes[a]? = some (some d) :=
  join_eq_some_iff.mp h

theorem read_put_self (h : a < w.nodes.length) (n : Option TagData) : (w.put a n).read a = n := by
  simp [read, put, h]

theorem read_put_of_ne (h : b ≠ a) (n : Option TagData) : (w.put a n).read b = w.read b := by
  simp [read, put, getElem?_set_ne (Ne.symm h)]

@[simp] theorem lists_put (n : Option TagData) : (w.put a n).lists = w.lists := rfl

@[simp] theorem length_put (n : Option TagData) : (w.put a n).nodes.length = w.nodes.length :=
  length_set

/-- A count after one element has changed. -/
theorem countP_replaced {α : Type} {l : List α} {i : Nat} {v : α} (h : l[i]? = some v) (x : α)
    (P : α → Bool) : (l.set i x).countP P + (if P v then 1 else 0) =
      l.countP P + (if P x then 1 else 0) := by
  obtain ⟨bound, value⟩ := List.getElem?_eq_some_iff.mp h
  have counted : P v = true → 1 ≤ l.countP P := fun holds =>
    countP_pos_iff.mpr ⟨v, mem_of_getElem? h, holds⟩
  rw [countP_set bound, value]
  cases holds : P v with
  | true =>
    have := counted holds
    simp only [if_true]
    omega
  | false =>
    simp only [Bool.false_eq_true, if_false]
    omega

/-- The pointers after a node has changed. -/
theorem links_put (h : w.read a = some d) (n : Option TagData) (x : Nat) :
    (w.put a n).links x + one d.next x = w.links x + one (n.bind (·.next)) x := by
  have changed := countP_replaced (read_getElem h) n fun n => n.any fun d => d.next == some x
  have after : (n.any fun d => d.next == some x) = true ↔ n.bind (·.next) = some x := by
    cases n <;> simp
  simp only [any_some, beq_iff_eq, after] at changed
  simp only [links, put, one]
  omega

theorem links_set_head {i : Nat} (h : w.lists[i]? = some p) (q : Option Nat) (x : Nat) :
    { w with lists := w.lists.set i q }.links x + one p x = w.links x + one q x := by
  have changed := countP_replaced h q (· == some x)
  simp only [beq_iff_eq] at changed
  simp only [links, one]
  omega

theorem links_append_head (q : Option Nat) (x : Nat) :
    { w with lists := w.lists ++ [q] }.links x = w.links x + one q x := by
  simp only [links, one, countP_append, countP_singleton, beq_iff_eq]
  omega

theorem links_append_node (d : TagData) (x : Nat) :
    { w with nodes := w.nodes ++ [some d] }.links x = w.links x + one d.next x := by
  simp only [links, one, countP_append, countP_singleton, any_some, beq_iff_eq]
  omega

theorem read_append (h : w.read a = some d) (n : Option TagData) :
    { w with nodes := w.nodes ++ [n] }.read a = some d := by
  simp only [read, getElem?_append_left (read_lt h)]
  exact h

theorem read_append_new (n : Option TagData) :
    { w with nodes := w.nodes ++ [n] }.read w.nodes.length = n := by
  simp [read]

/-! ## Two places with one pointer -/

theorem two_countP {α : Type} {l : List α} {P : α → Bool} {i j : Nat} {u v : α} (ne : i ≠ j)
    (hi : l[i]? = some u) (hj : l[j]? = some v) (hu : P u = true) (hv : P v = true) (x : α)
    (hx : P x = false) : 2 ≤ l.countP P := by
  have first := countP_replaced hi x P
  have second : (l.set i x)[j]? = some v := by rw [getElem?_set_ne ne, hj]
  have left : 1 ≤ (l.set i x).countP P := countP_pos_iff.mpr ⟨v, mem_of_getElem? second, hv⟩
  rw [hu, hx, if_pos rfl, if_neg Bool.false_ne_true] at first
  omega

theorem linkAt_head_pos {i : Nat} (h : w.lists[i]? = some (some a)) :
    1 ≤ w.lists.countP (· == some a) :=
  countP_pos_iff.mpr ⟨some a, mem_of_getElem? h, beq_self_eq_true _⟩

theorem linkAt_next_pos (h : w.next b = some (some a)) :
    1 ≤ w.nodes.countP fun n => n.any fun d => d.next == some a := by
  obtain ⟨d, here, points⟩ := map_eq_some_iff.mp h
  exact countP_pos_iff.mpr
    ⟨some d, mem_of_getElem? (read_getElem here), by simp [points]⟩

/-- Two places with a pointer to one node count twice. -/
theorem two_links {l l' : Link} (ne : l ≠ l') (first : w.linkAt l = some (some a))
    (second : w.linkAt l' = some (some a)) : 2 ≤ w.links a := by
  unfold links
  cases l with
  | head i =>
    have one_ := linkAt_head_pos first
    cases l' with
    | head j =>
      have := two_countP (P := (· == some a)) (fun same => ne (congrArg Link.head same)) first
        second (beq_self_eq_true _) (beq_self_eq_true _) none rfl
      omega
    | next b =>
      have := linkAt_next_pos second
      omega
  | next b =>
    have one_ := linkAt_next_pos first
    cases l' with
    | head j =>
      have := linkAt_head_pos second
      omega
    | next c =>
      obtain ⟨d, here, points⟩ := map_eq_some_iff.mp first
      obtain ⟨d', there, points'⟩ := map_eq_some_iff.mp second
      have := two_countP (P := fun n => n.any fun d => d.next == some a)
        (fun same => ne (congrArg Link.next same)) (read_getElem here) (read_getElem there)
        (by simp [points]) (by simp [points']) none rfl
      omega

theorem sole_link (l l' : Link) (sole : w.links a = 1) (first : w.linkAt l = some (some a))
    (second : w.linkAt l' = some (some a)) : l = l' := by
  by_contra ne
  have := two_links ne first second
  omega

/-! ## The invariant -/

variable {V : Type} {T : TagClass V}

/-- A serialized tag, and possibly bytes behind it that are left from a longer one. -/
def Valued (T : TagClass V) (tid : Nat) (data : List Byte) : Prop :=
  (∃ v rest, data = T.serialize tid v ++ rest) ∧ data.length < 2 ^ 32 - 1

/-- Every count is the number of pointers to its node, and never zero; every pointer starts
a chain of nodes in use, and every node holds a serialized tag. -/
structure Sound (T : TagClass V) (w : PacketTagLists) : Prop where
  counted : ∀ a d, w.read a = some d → d.count = w.links a
  held : ∀ a d, w.read a = some d → 0 < d.count
  range : ∀ a d, w.read a = some d → d.count < 2 ^ 32
  ends : ∀ a d, w.read a = some d → ∃ as, Chain w.next d.next as
  heads : ∀ (i : Nat) (h : Option Nat), w.lists[i]? = some h → ∃ as, Chain w.next h as
  values : ∀ a d, w.read a = some d → Valued T d.tid d.data

theorem next_eq (h : w.read a = some d) : w.next a = some d.next := by
  simp [next, h]

theorem Sound.alive (sound : Sound T w) {l : Link} (points : w.linkAt l = some (some a)) :
    ∃ d, w.read a = some d := by
  have chain : ∃ as, Chain w.next (some a) as := by
    cases l with
    | head i => exact sound.heads i (some a) points
    | next b =>
      obtain ⟨d, here, same⟩ := map_eq_some_iff.mp points
      obtain ⟨as, chain⟩ := sound.ends b d here
      exact ⟨as, same ▸ chain⟩
  obtain ⟨as, chain⟩ := chain
  cases as with
  | nil => exact absurd (Segment.nil_iff.mp chain) nofun
  | cons x as =>
    obtain ⟨start, r, here, -⟩ := Segment.cons_iff.mp chain
    cases start
    obtain ⟨d, here, -⟩ := map_eq_some_iff.mp here
    exact ⟨d, here⟩

/-- Nothing points to memory that is not in use. -/
theorem Sound.links_dead (sound : Sound T w) (dead : w.read a = none) : w.links a = 0 := by
  have none_ (l : Link) : w.linkAt l ≠ some (some a) := by
    intro points
    obtain ⟨d, here⟩ := sound.alive points
    exact absurd (dead.symm.trans here) nofun
  have heads : w.lists.countP (· == some a) = 0 := by
    apply countP_eq_zero.mpr
    intro h mem points
    obtain ⟨i, bound, here⟩ := mem_iff_getElem.mp mem
    apply none_ (.head i)
    rw [linkAt, getElem?_eq_getElem bound, here, beq_iff_eq.mp points]
  have nodes : (w.nodes.countP fun n => n.any fun d => d.next == some a) = 0 := by
    apply countP_eq_zero.mpr
    intro n mem points
    obtain ⟨b, bound, here⟩ := mem_iff_getElem.mp mem
    cases n with
    | none => cases points
    | some d =>
      have read : w.read b = some d := by rw [read, getElem?_eq_getElem bound, here]; rfl
      apply none_ (.next b)
      rw [linkAt, next_eq read, beq_iff_eq.mp points]
  rw [links, heads, nodes]

theorem chain_read {as : List Nat} (chain : Chain w.next p as) (mem : a ∈ as) :
    ∃ d, w.read a = some d := by
  obtain ⟨r, here⟩ := Segment.mem_next chain mem
  obtain ⟨d, here, -⟩ := map_eq_some_iff.mp here
  exact ⟨d, here⟩

/-! ## The part that a list owns -/

/-- The place behind a front part of a list. -/
def linkOf (i : Nat) (front : List Nat) : Link :=
  match front.getLast? with
  | none => .head i
  | some b => .next b

/-- The list visits `front` and then `rest`, and is the only one that points to the nodes
in `front`. -/
structure Owned (w : PacketTagLists) (i : Nat) (front rest : List Nat) : Prop where
  chain : ∃ h, w.lists[i]? = some h ∧ Chain w.next h (front ++ rest)
  sole : ∀ a ∈ front, w.links a = 1

variable {i j : Nat} {front rest as : List Nat}

/-- The pointer behind the front part. -/
theorem Owned.linkAt (owned : Owned w i front rest) :
    w.linkAt (linkOf i front) = some rest.head? := by
  obtain ⟨h, head, chain⟩ := owned.chain
  obtain ⟨r, first, second⟩ := Segment.append_iff.mp chain
  have start : r = rest.head? := by
    cases rest with
    | nil => exact Segment.nil_iff.mp second
    | cons x rest => exact (Segment.cons_iff.mp second).1
  subst start
  cases front using List.reverseRecOn with
  | nil =>
    rw [Segment.nil_iff] at first
    rw [linkOf, getLast?_nil, PacketTagLists.linkAt, head, first]
  | append_singleton xs b =>
    rw [linkOf, getLast?_concat, PacketTagLists.linkAt]
    exact (Segment.concat_iff.mp first).2

theorem Owned.shorten {x : Nat} (owned : Owned w i (front ++ [x]) rest) :
    Owned w i front (x :: rest) where
  chain := by
    obtain ⟨h, head, chain⟩ := owned.chain
    exact ⟨h, head, by rwa [append_assoc, singleton_append] at chain⟩
  sole a mem := owned.sole a (mem_append_left _ mem)

theorem Owned.extend {x : Nat} (owned : Owned w i front (x :: rest)) (sole : w.links x = 1) :
    Owned w i (front ++ [x]) rest where
  chain := by
    obtain ⟨h, head, chain⟩ := owned.chain
    exact ⟨h, head, by rwa [append_assoc, singleton_append]⟩
  sole a mem := by
    obtain early | last := mem_append.mp mem
    · exact owned.sole a early
    · rw [mem_singleton.mp last]
      exact sole

/-- The other lists do not visit the nodes that a list owns. -/
theorem Owned.separate (owned : Owned w i front rest) (other : j ≠ i)
    (head : w.lists[j]? = some p) (chain : Chain w.next p as) : ∀ a ∈ front, a ∉ as := by
  induction front using List.reverseRecOn generalizing rest with
  | nil => exact nofun
  | append_singleton xs x ih =>
    have before := ih owned.shorten
    intro a mem
    obtain early | last := mem_append.mp mem
    · exact before a early
    · rw [mem_singleton.mp last]
      intro visited
      have sole := owned.sole x (mem_append_right _ (mem_singleton_self x))
      have own := owned.shorten.linkAt
      obtain rfl | ⟨b, among, points⟩ := chain.pointed visited
      · have same := sole_link _ (.head j) sole own head
        rw [linkOf] at same
        split at same
        · exact other (Link.head.inj same).symm
        · cases same
      · have same := sole_link _ (.next b) sole own points
        rw [linkOf] at same
        split at same
        · cases same
        · next found =>
            obtain rfl := Link.next.inj same
            exact before _ (mem_of_getLast? found) among

/-! ## A changed pointer behind the owned part -/

/-- The pointer at a place is set to `q`, and nothing else changes. -/
structure SetTo (w w' : PacketTagLists) (l : Link) (q : Option Nat) : Prop where
  node : ∀ a d, w.read a = some d →
    w'.read a = some (if l = .next a then { d with next := q } else d)
  dead : ∀ a, w.read a = none → w'.read a = none
  head : ∀ i, l = .head i → w'.lists = w.lists.set i q
  other : ∀ b, l = .next b → w'.lists = w.lists
  links : ∀ p, w.linkAt l = some p → ∀ x, w'.links x + one p x = w.links x + one q x

theorem setLink_spec {l : Link} (points : w.linkAt l = some p) (q : Option Nat) :
    ∃ w', w.setLink l q = some w' ∧ SetTo w w' l q := by
  cases l with
  | head i =>
    have bound := (List.getElem?_eq_some_iff.mp points).1
    refine ⟨{ w with lists := w.lists.set i q }, by rw [setLink, if_pos bound], ?_⟩
    refine ⟨fun a d here => ?_, fun _ dead => dead, ?_, nofun, ?_⟩
    · rw [if_neg nofun]
      exact here
    · intro i same
      obtain rfl := Link.head.inj same
      rfl
    · intro p points
      exact links_set_head points q
  | next b =>
    obtain ⟨d, here, -⟩ := map_eq_some_iff.mp points
    refine ⟨w.put b (some { d with next := q }), ?_, ?_, ?_, nofun, fun _ _ => rfl, ?_⟩
    · simp [setLink, here]
    · intro a d' there
      by_cases same : b = a
      · subst same
        obtain rfl := some.inj (here.symm.trans there)
        rw [read_put_self (read_lt here), if_pos rfl]
      · rw [read_put_of_ne (Ne.symm same), if_neg (by simpa using same), there]
    · intro a dead
      have ne : a ≠ b := by
        rintro rfl
        exact absurd (here.symm.trans dead) nofun
      rw [read_put_of_ne ne, dead]
    · intro p points x
      rw [linkAt, next_eq here, some.injEq] at points
      subst points
      exact links_put here (some { d with next := q }) x

/-- The tags along a list. -/
def entries (w : PacketTagLists) (as : List Nat) : List (Nat × List Byte) :=
  as.filterMap fun a => (w.read a).map fun d => (d.tid, d.data)

/-- The pointer behind the owned part is now `q`, and the node in `gone` is not used any
more; the nodes keep their tags. -/
structure Relinked (w w' : PacketTagLists) (i : Nat) (front : List Nat) (q gone : Option Nat) :
    Prop where
  lists : w'.lists = if front = [] then w.lists.set i q else w.lists
  kept : ∀ a d, w.read a = some d → gone ≠ some a → ∃ d', w'.read a = some d' ∧ d'.tid = d.tid ∧
    d'.data = d.data ∧ d'.next = if front.getLast? = some a then q else d.next

variable {q gone : Option Nat} {cur : Nat} {tail ys : List Nat}

/-- Away from the place and the lost node a segment stays, with its tags. -/
theorem Relinked.segment (h : Relinked w w' i front q gone) {r : Option Nat}
    (segment : Segment w.next p as r) (apart : ∀ b, front.getLast? = some b → b ∉ as)
    (alive : ∀ b, gone = some b → b ∉ as) :
    Segment w'.next p as r ∧ w'.entries as = w.entries as := by
  have same (a : Nat) (mem : a ∈ as) : ∃ d d', w.read a = some d ∧ w'.read a = some d' ∧
      d'.tid = d.tid ∧ d'.data = d.data ∧ d'.next = d.next := by
    obtain ⟨r, here⟩ := Segment.mem_next segment mem
    obtain ⟨d, here, -⟩ := map_eq_some_iff.mp here
    obtain ⟨d', there, tid, data, next⟩ := h.kept a d here fun lost => alive a lost mem
    rw [if_neg fun last => apart a last mem] at next
    exact ⟨d, d', here, there, tid, data, next⟩
  constructor
  · apply segment.frame
    intro a mem
    obtain ⟨d, d', here, there, -, -, next⟩ := same a mem
    rw [next_eq here, next_eq there, next]
  · apply filterMap_congr
    intro a mem
    obtain ⟨d, d', here, there, tid, data, -⟩ := same a mem
    simp [here, there, tid, data]

/-- What may be lost is the node behind the owned part, if nothing else points to it. -/
def Loses (w : PacketTagLists) (gone : Option Nat) (rest : List Nat) : Prop :=
  ∀ b, gone = some b → (∃ tail, rest = b :: tail) ∧ w.links b = 1

theorem loses_none : Loses w none rest := nofun

theorem loses_head (sole : w.links cur = 1) : Loses w (some cur) (cur :: tail) := by
  rintro b ⟨⟩
  exact ⟨⟨tail, rfl⟩, sole⟩

theorem Relinked.others (h : Relinked w w' i front q gone) (owned : Owned w i front rest)
    (loses : Loses w gone rest) (other : j ≠ i) (head : w.lists[j]? = some p)
    (chain : Chain w.next p as) :
    w'.lists[j]? = some p ∧ Chain w'.next p as ∧ w'.entries as = w.entries as := by
  have apart := owned.separate other head chain
  refine ⟨?_, h.segment chain (fun b last => apart b (mem_of_getLast? last)) ?_⟩
  · rw [h.lists]
    split
    · rw [getElem?_set_ne (Ne.symm other), head]
    · exact head
  · intro b lost
    obtain ⟨⟨tail, rfl⟩, sole⟩ := loses b lost
    exact (owned.extend sole).separate other head chain b
      (mem_append_right _ (mem_singleton_self b))

theorem Owned.nodup (owned : Owned w i front rest) : (front ++ rest).Nodup := by
  obtain ⟨h, -, chain⟩ := owned.chain
  exact chain.nodup

/-- The rest behind the node stays. -/
theorem Relinked.behind (h : Relinked w w' i front q gone) (owned : Owned w i front (cur :: tail))
    (loses : Loses w gone (cur :: tail)) {d : TagData} (here : w.read cur = some d) :
    Chain w'.next d.next tail ∧ w'.entries tail = w.entries tail := by
  obtain ⟨p, head, chain⟩ := owned.chain
  obtain ⟨r, -, second⟩ := Segment.append_iff.mp chain
  obtain ⟨-, r, next, later⟩ := Segment.cons_iff.mp second
  rw [next_eq here, some.injEq] at next
  subst next
  have nodup := owned.nodup
  rw [nodup_append] at nodup
  refine h.segment later (fun b last mem => ?_) fun b lost mem => ?_
  · exact nodup.2.2 b (mem_of_getLast? last) b (mem_cons_of_mem _ mem) rfl
  · obtain ⟨⟨_, same⟩, -⟩ := loses b lost
    cases same
    exact (nodup_cons.mp nodup.2.1).1 mem

/-- The list itself goes on from `q`. -/
theorem Relinked.own (h : Relinked w w' i front q gone) (owned : Owned w i front rest)
    (loses : Loses w gone rest) (onward : Chain w'.next q ys) :
    ∃ p, w'.lists[i]? = some p ∧ Chain w'.next p (front ++ ys) ∧
      w'.entries front = w.entries front := by
  obtain ⟨p, head, chain⟩ := owned.chain
  have nodup := owned.nodup
  obtain ⟨r, first, -⟩ := Segment.append_iff.mp chain
  have bound := (List.getElem?_eq_some_iff.mp head).1
  have lists := h.lists
  cases front using List.reverseRecOn with
  | nil =>
    refine ⟨q, ?_, onward, rfl⟩
    rw [lists, if_pos rfl, getElem?_set_self bound]
  | append_singleton xs b =>
    rw [if_neg (by simp)] at lists
    have lost (c : Nat) (same : gone = some c) : c ∉ xs ++ [b] := by
      obtain ⟨⟨tail, rfl⟩, -⟩ := loses c same
      exact fun mem => (nodup_append.mp nodup).2.2 c mem c mem_cons_self rfl
    have last : b ∉ xs := by
      have inner := (nodup_append.mp nodup).1
      exact fun mem => (nodup_append.mp inner).2.2 b mem b (mem_singleton_self b) rfl
    obtain ⟨before, -⟩ := Segment.concat_iff.mp first
    obtain ⟨segment, entries⟩ := h.segment before
      (fun c known => by
        rw [getLast?_concat, some.injEq] at known
        exact known ▸ last)
      (fun c same mem => lost c same (mem_append_left _ mem))
    obtain ⟨d, here⟩ := chain_read chain (a := b) (by simp)
    obtain ⟨d', there, tid, data, next⟩ := h.kept b d here fun same => lost b same (by simp)
    rw [getLast?_concat, if_pos rfl] at next
    refine ⟨p, by rw [lists, head], ?_, ?_⟩
    · apply Segment.append_iff.mpr
      refine ⟨q, Segment.concat_iff.mpr ⟨segment, ?_⟩, onward⟩
      rw [next_eq there, next]
    · have one_ : w'.entries [b] = w.entries [b] := by
        simp [PacketTagLists.entries, here, there, tid, data]
      have split (v : PacketTagLists) : v.entries (xs ++ [b]) = v.entries xs ++ v.entries [b] :=
        filterMap_append
      rw [split, split, entries, one_]

/-- Every node that is left is on a chain. -/
theorem Relinked.ends (h : Relinked w w' i front q gone) (sound : Sound T w)
    (owned : Owned w i front rest) (loses : Loses w gone rest) (onward : Chain w'.next q ys)
    {d : TagData} (here : w.read a = some d) :
    ∃ bs, Chain w'.next (if front.getLast? = some a then q else d.next) bs := by
  by_cases last : front.getLast? = some a
  · rw [if_pos last]
    exact ⟨ys, onward⟩
  · rw [if_neg last]
    obtain ⟨as, chain⟩ := sound.ends a d here
    -- the pointers that are kept lead to nodes that are kept
    have leads (b : Nat) (e : TagData) (there : w.read b = some e)
      (notLast : front.getLast? ≠ some b)
        (c : Nat) (points : e.next = some c) : (∃ e, w.read c = some e) ∧ gone ≠ some c := by
      have link : w.linkAt (.next b) = some (some c) := by rw [linkAt, next_eq there, points]
      refine ⟨sound.alive link, fun lost => ?_⟩
      obtain ⟨⟨tail, rfl⟩, sole⟩ := loses c lost
      have own := owned.linkAt
      have same := sole_link _ _ sole own link
      rw [linkOf] at same
      split at same
      · cases same
      · next found => exact notLast (found.trans (congrArg some (Link.next.inj same)))
    apply Chain.relink (K := fun b => (∃ e, w.read b = some e) ∧ gone ≠ some b) onward ?_ chain
    · exact fun c points => leads a d here last c points
    · rintro b r ⟨⟨e, there⟩, kept⟩ known
      rw [next_eq there, some.injEq] at known
      subst known
      obtain ⟨e', found, -, -, next⟩ := h.kept b e there kept
      by_cases lastB : front.getLast? = some b
      · rw [if_pos lastB] at next
        exact .inl (by rw [next_eq found, next])
      · rw [if_neg lastB] at next
        exact .inr ⟨by rw [next_eq found, next], fun c points => leads b e there lastB c points⟩

theorem linkOf_eq_next {front : List Nat} {a : Nat} :
    linkOf i front = .next a ↔ front.getLast? = some a := by
  rw [linkOf]
  split
  · next none_ => simp [none_]
  · next b some_ => simp [some_]

theorem linkOf_eq_head {front : List Nat} {j : Nat} : linkOf i front = .head j ↔ front = [] ∧
    i = j := by
  rw [linkOf]
  split
  · next none_ => simp [getLast?_eq_none_iff.mp none_]
  · next b some_ =>
      have some_ : front ≠ [] := by
        rintro rfl
        cases some_
      simp [some_]

/-- A sound state again, once the counts are right. -/
theorem Relinked.sound (h : Relinked w w' i front q gone) (sound : Sound T w)
    (owned : Owned w i front rest) (loses : Loses w gone rest) (onward : Chain w'.next q ys)
    (nodes : ∀ a d', w'.read a = some d' → (gone ≠ some a ∧ ∃ d, w.read a = some d) ∨
      (∃ bs, Chain w'.next d'.next bs) ∧ Valued T d'.tid d'.data)
    (counts : ∀ a d', w'.read a = some d' →
      d'.count = w'.links a ∧ 0 < d'.count ∧ d'.count < 2 ^ 32) : Sound T w' where
  counted a d' there := (counts a d' there).1
  held a d' there := (counts a d' there).2.1
  range a d' there := (counts a d' there).2.2
  ends a d' there := by
    obtain ⟨alive, d, here⟩ | new := nodes a d' there
    · obtain ⟨e, found, -, -, next⟩ := h.kept a d here alive
      obtain rfl := some.inj (there.symm.trans found)
      rw [next]
      exact h.ends sound owned loses onward here
    · exact new.1
  heads j p head := by
    by_cases own : j = i
    · subst own
      obtain ⟨r, head', chain, -⟩ := h.own owned loses onward
      obtain rfl := some.inj (head.symm.trans head')
      exact ⟨front ++ ys, chain⟩
    · have before : w.lists[j]? = some p := by
        rw [h.lists] at head
        split at head
        · rwa [getElem?_set_ne (Ne.symm own)] at head
        · exact head
      obtain ⟨as, chain⟩ := sound.heads j p before
      exact ⟨as, (h.others owned loses own before chain).2.1⟩
  values a d' there := by
    obtain ⟨alive, d, here⟩ | new := nodes a d' there
    · obtain ⟨e, found, tid, data, -⟩ := h.kept a d here alive
      obtain rfl := some.inj (there.symm.trans found)
      rw [tid, data]
      exact sound.values a d here
    · exact new.2

/-! ## What the lists hold -/

/-- The tags of one list are those of a map. -/
structure Holds (T : TagClass V) (es : List (Nat × List Byte)) (m : Nat → Option V) : Prop where
  distinct : (es.map Prod.fst).Nodup
  value : ∀ tid v, m tid = some v ↔ ∃ data, (tid, data) ∈ es ∧ T.deserialize tid data = v

/-- Each list holds the tags of its own map. -/
structure Models (T : TagClass V) (w : PacketTagLists) (maps : List (Nat → Option V)) : Prop where
  length : maps.length = w.lists.length
  holds : ∀ (i : Nat) (p : Option Nat) (m : Nat → Option V) (as : List Nat), w.lists[i]? = some p →
    maps[i]? = some m → Chain w.next p as → Holds T (w.entries as) m

theorem entries_append (xs ys : List Nat) : w.entries (xs ++ ys) = w.entries xs ++ w.entries ys :=
  filterMap_append

variable {maps : List (Nat → Option V)} {m : Nat → Option V}

/-- A change behind the owned part changes one map. -/
theorem Relinked.models (h : Relinked w w' i front q gone) (models : Models T w maps)
    (sound : Sound T w) (owned : Owned w i front rest) (loses : Loses w gone rest)
    (onward : Chain w'.next q ys) (holds : Holds T (w.entries front ++ w'.entries ys) m) :
    Models T w' (maps.set i m) where
  length := by
    rw [length_set, models.length, h.lists]
    split <;> simp
  holds j p m' as head map chain := by
    by_cases own : j = i
    · subst own
      obtain ⟨r, head', chain', entries⟩ := h.own owned loses onward
      obtain rfl := some.inj (head.symm.trans head')
      obtain rfl := chain.unique chain'
      have bound := (List.getElem?_eq_some_iff.mp map).1
      rw [length_set] at bound
      rw [getElem?_set_self bound, some.injEq] at map
      rw [entries_append, entries, ← map]
      exact holds
    · rw [getElem?_set_ne (Ne.symm own)] at map
      have before : w.lists[j]? = some p := by
        rw [h.lists] at head
        split at head
        · rwa [getElem?_set_ne (Ne.symm own)] at head
        · exact head
      obtain ⟨bs, chain'⟩ := sound.heads j p before
      obtain ⟨-, chain'', entries⟩ := h.others owned loses own before chain'
      obtain rfl := chain.unique chain''
      rw [entries]
      exact models.holds j p m' as before map chain'

end Ns3.PacketTagLists
