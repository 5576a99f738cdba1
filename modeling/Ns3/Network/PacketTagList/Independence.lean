import Ns3.Network.PacketTagList.Operations

/-!
# Lists that do not see each other

A run of the program on lists that share nodes returns what it returns on maps of their own,
as long as a value that is written in place fits. Every count stays the number of pointers,
and the nodes in use are those of the lists.
-/

namespace Ns3.PacketTagLists

open Option

variable {V : Type} {T : TagClass V} {w w' : PacketTagLists} {i : Nat} {as : List Nat} {tid : Nat}
  {p : Option Nat} {m : Nat → Option V} {maps : List (Nat → Option V)} {profile : BuildProfile}

/-! ## Constructors and assignment -/

/-- An empty list starts at the first node of another one. -/
theorem share_spec (sound : Sound T w) (models : Models T w maps) (empty : w.lists[i]? = some none)
    {o : Nat} (head : w.lists[o]? = some p) (map : maps[o]? = some m) (room : Room w) :
    ∃ w', { w with lists := w.lists.set i p }.incrementIf p = some w' ∧ Sound T w' ∧
      Models T w' (maps.set i m) := by
  generalize shared : { w with lists := w.lists.set i p } = w₁
  have read_ (a : Nat) : w₁.read a = w.read a := by
    rw [← shared]
    rfl
  have links (x : Nat) : w₁.links x = w.links x + one p x := by
    have set := links_set_head empty p x
    rw [shared] at set
    exact set
  have alive (a : Nat) (points : p = some a) : ∃ d, w₁.read a = some d := by
    rw [read_]
    exact sound.alive (l := .head o) (head.trans (congrArg some points))
  obtain ⟨w', run, counts⟩ := incrementIf_counts alive
  have lists : w'.lists = w.lists.set i p := by rw [counts.lists, ← shared]
  have origin (a : Nat) (d' : TagData) (there : w'.read a = some d') : ∃ d, w.read a = some d ∧
      d' = { d with count := if p = some a then UInt32.add d.count 1 else d.count } := by
    cases old : w₁.read a with
    | none => exact absurd ((counts.dead a old).symm.trans there) nofun
    | some d =>
      obtain rfl := some.inj ((counts.node a d old).symm.trans there)
      exact ⟨d, (read_ a).symm.trans old, rfl⟩
  have relinked : Relinked w w' i [] p none :=
    ⟨lists, fun a d here _ => ⟨_, counts.node a d ((read_ a).trans here), rfl, rfl, rfl⟩⟩
  have owned : Owned w i [] [] := ⟨⟨none, empty, .nil none⟩, nofun⟩
  obtain ⟨as, chain⟩ := sound.heads o p head
  obtain ⟨onward, entries⟩ := relinked.segment chain nofun nofun
  have holds := models.holds o p m as head map chain
  rw [← entries] at holds
  refine ⟨w', run, relinked.sound sound owned loses_none onward ?_ ?_,
    relinked.models models sound owned loses_none onward holds⟩
  · intro a d' there
    obtain ⟨d, here, -⟩ := origin a d' there
    exact .inl ⟨nofun, d, here⟩
  · intro a d' there
    obtain ⟨d, here, rfl⟩ := origin a d' there
    have counted := sound.counted a d here
    have held := sound.held a d here
    have limit := room a d here
    rw [counts.links, links, ← counted, one]
    by_cases points : p = some a
    · simp only [if_pos points, UInt32.add_of_lt limit, true_and]
      omega
    · simp only [if_neg points]
      omega

/-- A new list is empty. -/
theorem construct_spec (sound : Sound T w) (models : Models T w maps) :
    Sound T w.construct ∧ Models T w.construct (maps ++ [fun _ => none]) := by
  have links (x : Nat) : w.construct.links x = w.links x := links_append_head none x
  have former {j : Nat} {q : Option Nat} (there : w.construct.lists[j]? = some q) :
      w.lists[j]? = some q ∨ (j = w.lists.length ∧ q = none) := by
    rw [construct, List.getElem?_append] at there
    split at there
    · exact .inl there
    · obtain ⟨bound, value⟩ := List.getElem?_eq_some_iff.mp there
      rw [List.length_singleton] at bound
      exact .inr ⟨by omega, by simpa using value.symm⟩
  constructor
  · refine ⟨fun a d here => ?_, sound.held, sound.range, sound.ends,
      fun j q there => ?_, sound.values⟩
    · rw [links]
      exact sound.counted a d here
    · obtain old | ⟨-, rfl⟩ := former there
      · exact sound.heads j q old
      · exact ⟨[], .nil none⟩
  · refine ⟨by simp [construct, models.length], fun j q m' as there map chain => ?_⟩
    obtain old | ⟨rfl, rfl⟩ := former there
    · rw [List.getElem?_append_left (models.length ▸ (List.getElem?_eq_some_iff.mp old).1)] at map
      exact models.holds j q m' as old map chain
    · rw [← models.length, List.getElem?_concat_length, some.injEq] at map
      obtain rfl := chain.unique (.nil none)
      rw [← map]
      exact holds_nil

/-- A copy of a list holds the same tags. -/
theorem copy_spec {o : Nat} (sound : Sound T w) (models : Models T w maps)
    (map : maps[o]? = some m) (room : Room w) :
    ∃ w', w.copy o = some w' ∧ Sound T w' ∧ Models T w' (maps ++ [m]) := by
  obtain ⟨p, head⟩ := models.head map
  obtain ⟨sound₁, models₁⟩ := construct_spec sound models
  have bound := (List.getElem?_eq_some_iff.mp head).1
  have last : w.construct.lists[w.lists.length]? = some none := List.getElem?_concat_length
  have head₁ : w.construct.lists[o]? = some p := (List.getElem?_append_left bound).trans head
  have map₁ : (maps ++ [fun _ => none])[o]? = some m :=
    (List.getElem?_append_left (models.length ▸ bound)).trans map
  obtain ⟨w', run, sound', models'⟩ := share_spec sound₁ models₁ last head₁ map₁ room
  have whole : (w.lists ++ [none]).set w.lists.length p = w.lists ++ [p] := by simp
  have maps' : (maps ++ [fun _ => none]).set w.lists.length m = maps ++ [m] := by
    simp [← models.length]
  refine ⟨w', ?_, sound', maps' ▸ models'⟩
  rw [copy, head]
  simp only [some_bind]
  rw [← whole]
  exact run

theorem Holds.unique {es : List (Nat × List Byte)} {m' : Nat → Option V} (h : Holds T es m)
    (h' : Holds T es m') : m = m' := by
  funext tid
  rw [← h.find tid, h'.find tid]

/-- Assignment makes the maps equal. -/
theorem assign_spec {o : Nat} {m' : Nat → Option V} (sound : Sound T w) (models : Models T w maps)
    (map : maps[i]? = some m) (map' : maps[o]? = some m') (room : Room w) :
    ∃ w', w.assign i o = some w' ∧ Sound T w' ∧ Models T w' (maps.set i m') := by
  obtain ⟨p, head⟩ := models.head map
  obtain ⟨q, head'⟩ := models.head map'
  rw [assign, head, head']
  simp only [bind_eq_bind, bind_some]
  by_cases same : p = q
  · subst same
    obtain ⟨as, chain⟩ := sound.heads i p head
    obtain rfl := (models.holds i p m as head map chain).unique
      (models.holds o p m' as head' map' chain)
    refine ⟨w, if_pos rfl, sound, ?_⟩
    rw [set_same map]
    exact models
  · have other : i ≠ o := by
      rintro rfl
      exact same (some.inj (head.symm.trans head'))
    obtain ⟨w₁, run, sound₁, models₁, lists, below⟩ := removeAll_spec sound models map
    have bound := (List.getElem?_eq_some_iff.mp head).1
    have empty : w₁.lists[i]? = some none := by rw [lists, List.getElem?_set_self bound]
    have head₁ : w₁.lists[o]? = some q := by rw [lists, List.getElem?_set_ne other, head']
    have map₁ : (maps.set i fun _ => none)[o]? = some m' := by rw [List.getElem?_set_ne other, map']
    have room₁ : Room w₁ := by
      intro a d' there
      obtain ⟨d, here, less⟩ := below a d' there
      exact Nat.lt_of_le_of_lt (Nat.succ_le_succ less) (room a d here)
    obtain ⟨w', share, sound', models'⟩ := share_spec sound₁ models₁ empty head₁ map₁ room₁
    have bound₁ := (List.getElem?_eq_some_iff.mp empty).1
    rw [List.set_set] at models'
    refine ⟨w', ?_, sound', models'⟩
    simp only [if_neg same, run, bind_some, head₁, setLink, if_pos bound₁]
    exact share

/-! ## Nodes in use -/

/-- A list visits the node. -/
def Reachable (w : PacketTagLists) (a : Nat) : Prop :=
  ∃ (i : Nat) (h : Option Nat) (as : List Nat), w.lists[i]? = some h ∧ Chain w.next h as ∧ a ∈ as

/-- A node in use has a pointer to it. -/
theorem Sound.pointed {a : Nat} {d : TagData} (sound : Sound T w) (here : w.read a = some d) :
    ∃ l, w.linkAt l = some (some a) := by
  have held := sound.held a d here
  rw [sound.counted a d here, links] at held
  by_cases heads : 0 < w.lists.countP (· == some a)
  · obtain ⟨h, mem, same⟩ := List.countP_pos_iff.mp heads
    obtain ⟨i, bound, value⟩ := List.mem_iff_getElem.mp mem
    refine ⟨.head i, ?_⟩
    rw [linkAt, List.getElem?_eq_getElem bound, value, beq_iff_eq.mp same]
  · have nodes : 0 < w.nodes.countP fun n => n.any fun d => d.next == some a := by omega
    obtain ⟨n, mem, points⟩ := List.countP_pos_iff.mp nodes
    obtain ⟨b, bound, value⟩ := List.mem_iff_getElem.mp mem
    cases n with
    | none => cases points
    | some e =>
      have read : w.read b = some e := by
        rw [read, List.getElem?_eq_getElem bound, value]
        rfl
      refine ⟨.next b, ?_⟩
      rw [linkAt, next_eq read, beq_iff_eq.mp points]

/-- A node in use is visited by a list. -/
theorem Sound.reachable {a : Nat} {d : TagData} (sound : Sound T w) (here : w.read a = some d) :
    w.Reachable a := by
  obtain ⟨as, chain⟩ := sound.ends a d here
  have whole : Chain w.next (some a) (a :: as) := .cons (next_eq here) chain
  -- the chain gets longer on the way back to a head, and no chain is longer than the memory
  generalize left : w.nodes.length - (a :: as).length = n
  induction n using Nat.strongRecOn generalizing a d as with
  | _ n ih =>
    obtain ⟨l, points⟩ := sound.pointed here
    cases l with
    | head i => exact ⟨i, some a, a :: as, points, whole, List.mem_cons_self⟩
    | next b =>
      obtain ⟨e, there, next⟩ := map_eq_some_iff.mp points
      have longer : Chain w.next (some b) (b :: a :: as) := .cons points whole
      have fits := chain_length longer
      have less : w.nodes.length - (b :: a :: as).length < n := by
        rw [← left]
        simp only [List.length_cons] at fits ⊢
        omega
      obtain ⟨i, h, bs, head, visits, mem⟩ :=
        ih _ less there _ (next ▸ whole) longer rfl
      refine ⟨i, h, bs, head, visits, ?_⟩
      obtain within | out := visits.follow mem points
      · exact within
      · cases out

/-- Every count is the number of pointers to its node, and the nodes in use are those that
some list visits. -/
structure Intact (w : PacketTagLists) : Prop where
  counted : ∀ a d, w.read a = some d → d.count = w.links a ∧ 0 < d.count
  live : ∀ a, (∃ d, w.read a = some d) ↔ w.Reachable a

theorem Sound.intact (sound : Sound T w) : w.Intact where
  counted a d here := ⟨sound.counted a d here, sound.held a d here⟩
  live a := by
    constructor
    · rintro ⟨d, here⟩
      exact sound.reachable here
    · rintro ⟨i, h, as, -, chain, mem⟩
      exact chain_read chain mem

/-! ## Runs -/

/-- The map of a list. -/
def mapOf (maps : List (Nat → Option V)) (i : Nat) : Nat → Option V := maps[i]?.getD fun _ => none

/-- One call on a family of maps, each of which is changed by its own calls only. -/
def mapsStep (maps : List (Nat → Option V)) : Call V → Result V × List (Nat → Option V)
  | .construct => (.done, maps ++ [(fun _ => none : Nat → Option V)])
  | .copy o => (.done, maps ++ [mapOf maps o])
  | .assign list o => (.done, maps.set list (mapOf maps o))
  | .add list tid v => (.done, maps.set list (Function.update (mapOf maps list) tid (some v)))
  | .remove list tid =>
    (.tag (mapOf maps list tid), maps.set list (Function.update (mapOf maps list) tid none))
  | .replace list tid v =>
    (.found (mapOf maps list tid).isSome,
      maps.set list (Function.update (mapOf maps list) tid (some v)))
  | .peek list tid => (.tag (mapOf maps list tid), maps)
  | .removeAll list | .destroy list => (.done, maps.set list fun _ => none)

/-- The lists that a call names. -/
def Call.lists : Call V → List Nat
  | .construct => []
  | .copy o => [o]
  | .assign list o => [list, o]
  | .add list _ _ | .remove list _ | .replace list _ _ | .peek list _ | .removeAll list
  | .destroy list => [list]

/-- A program makes the call: its lists exist, and a type is added to a list without it. -/
def Made (T : TagClass V) (w : PacketTagLists) (call : Call V) : Prop :=
  (∀ i ∈ call.lists, i < w.lists.length) ∧ match call with
    | .add list tid _ => w.peek T list tid = some none
    | _ => True

/-- No count is at its limit, and a value that is written in place fits. -/
def Enough (T : TagClass V) (w : PacketTagLists) (call : Call V) : Prop :=
  Room w ∧ match call with
    | .replace list tid v => Fits T w list tid v
    | _ => True

theorem room_iff : Room w ↔ ∀ n ∈ w.nodes, ∀ d ∈ n, d.count + 1 < 2 ^ 32 := by
  constructor
  · intro room n mem d inside
    obtain ⟨a, bound, value⟩ := List.mem_iff_getElem.mp mem
    apply room a d
    rw [read, List.getElem?_eq_getElem bound, value]
    exact inside
  · intro each a d here
    exact each (some d) (List.mem_of_getElem? (read_getElem here)) d rfl

instance : Decidable (Room w) := decidable_of_iff _ room_iff.symm

instance {v : V} : Decidable (Fits T w i tid v) :=
  inferInstanceAs (Decidable (∀ size ∈ w.inPlace i tid, (T.serialize tid v).length ≤ size))

instance [DecidableEq V] (c : Call V) : Decidable (Made T w c) := by
  cases c <;> exact instDecidableAnd

instance (c : Call V) : Decidable (Enough T w c) := by
  cases c <;> exact instDecidableAnd

/-- The state after a call. -/
def call (T : TagClass V) (profile : BuildProfile) (w : PacketTagLists) (c : Call V) :
    Option PacketTagLists :=
  (w.step T profile c).map (·.2)

/-- What the calls of a run return, and the state after them. -/
def exec (T : TagClass V) (profile : BuildProfile) :
    PacketTagLists → List (Call V) → Option (List (Result V) × PacketTagLists)
  | w, [] => some ([], w)
  | w, c :: calls => do
      let (result, w) ← w.step T profile c
      let (results, w) ← exec T profile w calls
      return (result :: results, w)

/-- The same on a family of maps. -/
def mapsExec : List (Nat → Option V) → List (Call V) → List (Result V) × List (Nat → Option V)
  | maps, [] => ([], maps)
  | maps, c :: calls =>
    let (result, maps) := mapsStep maps c
    let (results, maps) := mapsExec maps calls
    (result :: results, maps)

/-- A call on lists that share nodes does what it does on maps. -/
theorem step_spec (profile : BuildProfile) (sound : Sound T w) (models : Models T w maps)
    {call : Call V} (made : Made T w call) (enough : Enough T w call) :
    ∃ w', w.step T profile call = some ((mapsStep maps call).1, w') ∧ Sound T w' ∧
      Models T w' (mapsStep maps call).2 := by
  obtain ⟨exist, absent⟩ := made
  obtain ⟨room, fits⟩ := enough
  have map (i : Nat) (named : i ∈ call.lists) : maps[i]? = some (mapOf maps i) := by
    have bound : i < maps.length := models.length ▸ exist i named
    rw [mapOf, List.getElem?_eq_getElem bound, getD_some]
  cases call with
  | construct => exact ⟨w.construct, rfl, construct_spec sound models⟩
  | copy o =>
    obtain ⟨w', run, next⟩ := copy_spec sound models (map o (by simp [Call.lists])) room
    exact ⟨w', by simp [step, run, mapsStep], next⟩
  | assign list o =>
    obtain ⟨w', run, next⟩ := assign_spec sound models (map list (by simp [Call.lists]))
      (map o (by simp [Call.lists])) room
    exact ⟨w', by simp [step, run, mapsStep], next⟩
  | add list tid v =>
    have here := map list (by simp [Call.lists])
    have free : mapOf maps list tid = none := by
      have seen : w.peek T list tid = some none := absent
      rw [peek_spec sound models here] at seen
      exact some.inj seen
    obtain ⟨w', run, next⟩ := add_spec profile sound models here free v
    exact ⟨w', by simp [step, run, mapsStep], next⟩
  | remove list tid =>
    obtain ⟨w', run, next⟩ :=
      remove_spec profile sound models (map list (by simp [Call.lists])) room tid
    exact ⟨w', by simp [step, run, mapsStep], next⟩
  | replace list tid v =>
    obtain ⟨w', run, next⟩ :=
      replace_spec profile sound models (map list (by simp [Call.lists])) room fits
    exact ⟨w', by simp [step, run, mapsStep], next⟩
  | peek list tid =>
    have run := peek_spec sound models (map list (by simp [Call.lists])) tid
    exact ⟨w, by simp [step, run, mapsStep], sound, models⟩
  | removeAll list | destroy list =>
    obtain ⟨w', run, sound', models', -⟩ :=
      removeAll_spec sound models (map list (by simp [Call.lists]))
    exact ⟨w', by simp [step, run, mapsStep], sound', models'⟩

theorem exec_spec (profile : BuildProfile) {calls : List (Call V)} (sound : Sound T w)
    (models : Models T w maps) (made : Run.Meets (call T profile) (Made T) w calls)
    (enough : Run.Meets (call T profile) (Enough T) w calls) :
    (∃ w', exec T profile w calls = some ((mapsExec maps calls).1, w') ∧ Sound T w' ∧
      Models T w' (mapsExec maps calls).2) ∧ Run.Always (call T profile) Intact w calls := by
  induction calls generalizing w maps with
  | nil => exact ⟨⟨w, rfl, sound, models⟩, sound.intact⟩
  | cons c calls ih =>
    obtain ⟨w₁, first, sound₁, models₁⟩ := step_spec profile sound models made.1 enough.1
    have here : call T profile w c = some w₁ := by rw [call, first, map_some]
    obtain ⟨⟨w', rest, final⟩, always⟩ :=
      ih sound₁ models₁ (made.2 w₁ here) (enough.2 w₁ here)
    refine ⟨⟨w', by simp [exec, first, rest, mapsExec], final⟩, sound.intact, ?_⟩
    intro t returns
    obtain rfl := some.inj (here.symm.trans returns)
    exact always

theorem start_sound : Sound T {} where
  counted := nofun
  held := nofun
  range := nofun
  ends := nofun
  heads := nofun
  values := nofun

theorem start_models : Models T {} [] where
  length := rfl
  holds := nofun

/-- Lists that are copied on write behave as maps of their own in every run where a value
that is written in place fits, and all counts are right in every state. -/
theorem copyOnWrite_independent (T : TagClass V) (profile : BuildProfile) (calls : List (Call V))
    (made : Run.Meets (call T profile) (Made T) {} calls)
    (enough : Run.Meets (call T profile) (Enough T) {} calls) :
    (∃ w', exec T profile {} calls = some ((mapsExec [] calls).1, w') ∧
      w'.lists.length = (mapsExec [] calls).2.length ∧
      ∀ i < w'.lists.length, ∀ tid, w'.peek T i tid = some (mapOf (mapsExec [] calls).2 i tid)) ∧
    Run.Always (call T profile) Intact {} calls := by
  obtain ⟨⟨w', run, sound, models⟩, always⟩ :=
    exec_spec profile start_sound start_models made enough
  refine ⟨⟨w', run, models.length.symm, fun i bound tid => ?_⟩, always⟩
  rw [← models.length] at bound
  rw [peek_spec sound models (List.getElem?_eq_getElem bound), mapOf,
    List.getElem?_eq_getElem bound,
    Option.getD_some]

/-! ## A tag of variable size -/

/-- A name of a device, short enough for its length to be written. -/
abbrev DeviceName : Type := { name : List Byte // name.length < 256 }

/-- `DeviceNameTag`: the length of the name, and the name. -/
def deviceNameTag : TagClass DeviceName where
  serialize _ name := BitVec.ofNat 8 name.val.length :: name.val
  deserialize _ data := ⟨(data.drop 1).take (data.headD 0).toNat, by
    have := (data.headD 0).isLt
    rw [List.length_take]
    omega⟩
  reads _ name rest := by
    apply Subtype.ext
    simp [Nat.mod_eq_of_lt name.property]
  fits _ name := by
    have := name.property
    rw [List.length_cons]
    omega

/-- Two lists share a node; one of them loses its tag, and the other one gets a shorter. -/
def sharedName : List (Call DeviceName) :=
  [.construct, .add 0 7 ⟨[1, 2], by decide⟩, .copy 0, .remove 1 7, .peek 0 7,
    .replace 0 7 ⟨[3], by decide⟩, .assign 1 0, .destroy 0, .peek 1 7]

theorem copyOnWrite_independent_sharedName :
    (∃ w', exec deviceNameTag .debug {} sharedName =
        some ((mapsExec [] sharedName).1, w') ∧
      w'.lists.length = (mapsExec [] sharedName).2.length ∧
      ∀ i < w'.lists.length, ∀ tid,
        w'.peek deviceNameTag i tid = some (mapOf (mapsExec [] sharedName).2 i tid)) ∧
    Run.Always (call deviceNameTag .debug) Intact {} sharedName :=
  copyOnWrite_independent deviceNameTag .debug sharedName (by decide) (by decide)

/-- A name replaced by a longer one. -/
def longerName : List (Call DeviceName) :=
  [.construct, .add 0 7 ⟨[1], by decide⟩, .replace 0 7 ⟨[1, 2], by decide⟩]

/-- The longer name is written over the end of the node, where a map would take it. -/
theorem replace_overruns :
    (∀ profile, Run.Meets (call deviceNameTag profile) (Made deviceNameTag) {} longerName ∧
      exec deviceNameTag profile {} longerName = none) ∧
    (mapsExec [] longerName).1 = [.done, .done, .found true] := by
  refine ⟨fun profile => ?_, by decide⟩
  cases profile <;> exact ⟨by decide, by decide⟩

end Ns3.PacketTagLists
