import Ns3.Internet.Ipv4L3Protocol.Reassembly
import Mathlib.Logic.ExistsUnique

/-!
# Datagrams over a path

The fragments of several datagrams arrive in any order, some more than once. Each datagram
is delivered by the arrival that completes it, and by no other.
-/

namespace Ns3

open List Option

/-- Source, destination, identification and protocol. -/
def Ipv4Header.ids (h : Ipv4Header) : BitVec 32 × BitVec 32 × BitVec 16 × BitVec 8 :=
  (h.source, h.destination, h.identification, h.protocol)

namespace Ipv4L3Protocol

variable {profile : BuildProfile} {sent : List Datagram} {d d' : Datagram} {x y : Fragment}
  {as rest : List Fragment} {w : MapFragments}

theorem join_inj {a b a' b' k : Nat} (low : b < 2 ^ k) (low' : b' < 2 ^ k)
    (same : a <<< k ||| b = a' <<< k ||| b') : a = a' ∧ b = b' := by
  rw [← Nat.shiftLeft_add_eq_or_of_lt low, ← Nat.shiftLeft_add_eq_or_of_lt low', Nat.shiftLeft_eq,
    Nat.shiftLeft_eq] at same
  have quotient := congrArg (· / 2 ^ k) same
  have remainder := congrArg (· % 2 ^ k) same
  have pos : 0 < 2 ^ k := Nat.two_pow_pos k
  simp only [Nat.mul_add_mod', Nat.mod_eq_of_lt low, Nat.mod_eq_of_lt low'] at remainder
  simp only [Nat.mul_comm _ (2 ^ k), Nat.mul_add_div pos, Nat.div_eq_of_lt low,
    Nat.div_eq_of_lt low',
    Nat.add_zero] at quotient
  exact ⟨quotient, remainder⟩

theorem key_inj {h h' : Ipv4Header} (same : h.key = h'.key) : h.ids = h'.ids := by
  obtain ⟨first, second⟩ := Prod.mk.inj same
  obtain ⟨source, destination⟩ := join_inj h.destination.isLt h'.destination.isLt first
  have low (h : Ipv4Header) : h.protocol.toNat < 2 ^ 16 := Nat.lt_trans h.protocol.isLt (by decide)
  obtain ⟨identification, protocol⟩ := join_inj (low h) (low h') second
  simp only [Ipv4Header.ids, BitVec.toNat_inj.mp source, BitVec.toNat_inj.mp destination,
    BitVec.toNat_inj.mp identification, BitVec.toNat_inj.mp protocol]

theorem fragments_ids (mem : x ∈ fragments profile d) :
    x.header.ids = d.header.ids ∧ x.header.key = d.header.key := by
  obtain ⟨-, cut⟩ := fragments_spec profile d
  rw [(cut.piece mem).header]
  exact ⟨rfl, rfl⟩

theorem datagram_unique (distinct : sent.Pairwise fun d d' => d.header.ids ≠ d'.header.ids)
    (mem : d ∈ sent) (mem' : d' ∈ sent) (same : d.header.ids = d'.header.ids) : d = d' := by
  induction distinct with
  | nil => cases mem
  | cons apart _ ih =>
    obtain rfl | later := mem_cons.mp mem
    · obtain rfl | later' := mem_cons.mp mem'
      · rfl
      · exact absurd same (apart d' later')
    · obtain rfl | later' := mem_cons.mp mem'
      · exact absurd same.symm (apart d later)
      · exact ih later later'

/-- All fragments of a datagram have arrived. -/
def Complete (profile : BuildProfile) (as : List Fragment) (d : Datagram) : Prop :=
  ∀ y ∈ fragments profile d, y ∈ as
  deriving Decidable

/-- Fragments arrive, after others: each belongs to a datagram that is not complete. -/
def Arrive (profile : BuildProfile) (sent : List Datagram) : List Fragment → List Fragment → Prop
  | _, [] => True
  | as, x :: rest =>
    (∃ d ∈ sent, x ∈ fragments profile d ∧ ¬ Complete profile as d) ∧
      Arrive profile sent (as ++ [x]) rest

instance decidableArrive (profile : BuildProfile) (sent : List Datagram) :
    ∀ as rest, Decidable (Arrive profile sent as rest)
  | _, [] => isTrue trivial
  | as, x :: rest =>
    have := decidableArrive profile sent (as ++ [x]) rest
    instDecidableAnd

/-- What `m_fragments` holds after some arrivals. -/
def Holds (profile : BuildProfile) (sent : List Datagram) (as : List Fragment) (w : MapFragments) :
    Prop :=
  ∀ d ∈ sent, ¬ Complete profile as d →
    Collected as (fragments profile d) ((w d.header.key).getD {})

theorem start_holds : Holds profile sent [] fun _ => none := by
  intro d _ _
  have empty (xs : List Fragment) : stored [] xs = [] := by
    apply flatMap_eq_nil_iff.mpr
    intro y _
    rfl
  refine ⟨(empty _).symm, fun some_ => absurd rfl some_⟩

theorem Collected.other {xs : List Fragment} {f : Fragments} (h : Collected as xs f)
    (other : x ∉ xs) : Collected (as ++ [x]) xs f where
  fragments := by rw [stored_other other, h.fragments]
  more some_ := by
    rw [h.more some_]
    have same (y : Fragment) (mem : y ∈ xs) : y ∈ as ++ [x] ↔ y ∈ as := by
      have ne : y ≠ x := fun same => other (same ▸ mem)
      simp [ne]
    constructor
    · intro each y mem old
      exact each y mem ((same y mem).mp old)
    · intro each y mem old
      exact each y mem ((same y mem).mpr old)

/-- One arrival: it delivers its datagram if and only if it completes it. -/
theorem processFragment_spec (distinct : sent.Pairwise fun d d' => d.header.ids ≠ d'.header.ids)
    (holds : Holds profile sent as w) (mem : d ∈ sent) (piece : x ∈ fragments profile d)
    (early : ¬ Complete profile as d) :
    ∃ w', processFragment profile w x.packet x.header =
        some (if Complete profile (as ++ [x]) d then some d.payload else none, w') ∧
      Holds profile sent (as ++ [x]) w' := by
  obtain ⟨-, cut⟩ := fragments_spec profile d
  have collected := (holds d mem early).addFragment cut piece
  have key := (fragments_ids piece).2
  rw [← key] at collected
  generalize added : ((w x.header.key).getD {}).addFragment x.packet x.header.fragmentOffset
    (!x.header.isLastFragment) = f at collected
  have some_ : f.fragments ≠ [] := by
    rw [collected.fragments]
    exact ne_nil_of_mem (stored_mem piece (by simp))
  have entire := collected.isEntire_iff cut some_
  -- the lists of the other datagrams stay, and so do those of this one that are not complete
  have keeps (w' : MapFragments) (own : ¬ Complete profile (as ++ [x]) d → w' x.header.key = some f)
      (others : ∀ key ≠ x.header.key, w' key = w key) : Holds profile sent (as ++ [x]) w' := by
    intro d' mem' open_
    by_cases same : d'.header.ids = d.header.ids
    · obtain rfl := datagram_unique distinct mem' mem same
      rw [← key, own open_]
      exact collected
    · have apart : x ∉ fragments profile d' := by
        intro piece'
        exact same ((fragments_ids piece').1.symm.trans (fragments_ids piece).1)
      have open' : ¬ Complete profile as d' := fun all =>
        open_ fun y mem => mem_append_left _ (all y mem)
      have ne : d'.header.key ≠ x.header.key := by
        intro equal
        exact same (key_inj (equal.trans key))
      rw [others _ ne]
      exact (holds d' mem' open').other apart
  rw [processFragment, added]
  by_cases complete : Complete profile (as ++ [x]) d
  · refine ⟨Function.update w x.header.key none, ?_, keeps _ (absurd complete) ?_⟩
    · simp [entire.mpr complete, collected.getPacket profile cut complete, complete]
    · intro key ne
      exact Function.update_of_ne ne _ _
  · have no : ¬ f.isEntire = true := fun all => complete (entire.mp all)
    refine ⟨Function.update w x.header.key (some f), ?_, keeps _ ?_ ?_⟩
    · simp [no, complete]
    · intro _
      exact Function.update_self _ _ _
    · intro key ne
      exact Function.update_of_ne ne _ _

theorem processAll_spec (distinct : sent.Pairwise fun d d' => d.header.ids ≠ d'.header.ids)
    (holds : Holds profile sent as w) (arrive : Arrive profile sent as rest) :
    ∃ outs w', processAll profile w rest = some (outs, w') ∧ outs.length = rest.length ∧
      ∀ before x after, rest = before ++ x :: after → ∀ d ∈ sent, x ∈ fragments profile d →
        ¬ Complete profile (as ++ before) d ∧ outs[before.length]? =
          some (if Complete profile (as ++ before ++ [x]) d then some d.payload else none) := by
  induction rest generalizing as w with
  | nil =>
    refine ⟨[], w, rfl, rfl, fun before x after cut => ?_⟩
    exact absurd cut.symm (by simp)
  | cons x rest ih =>
    obtain ⟨⟨d, mem, piece, early⟩, later⟩ := arrive
    obtain ⟨w₁, first, holds₁⟩ := processFragment_spec distinct holds mem piece early
    obtain ⟨outs, w', others, length, each⟩ := ih holds₁ later
    refine ⟨_ :: outs, w', by simp [processAll, first, others]; rfl, by simp [length], ?_⟩
    intro before y after cut d' mem' piece'
    cases before with
    | nil =>
      obtain ⟨rfl, -⟩ := List.cons.inj cut
      have same : d' = d := datagram_unique distinct mem' mem
        ((fragments_ids piece').1.symm.trans (fragments_ids piece).1)
      subst same
      rw [append_nil]
      exact ⟨early, rfl⟩
    | cons z before =>
      obtain ⟨rfl, tail⟩ := List.cons.inj cut
      have result := each before y after tail d' mem' piece'
      rw [append_assoc as, singleton_append] at result
      exact result

theorem Complete.mono {more : List Fragment} (complete : Complete profile as d)
    (subset : ∀ y ∈ as, y ∈ more) : Complete profile more d :=
  fun y mem => subset y (complete y mem)

theorem not_complete_nil : ¬ Complete profile [] d := by
  intro all
  obtain ⟨y, mem, -⟩ := (fragments_spec profile d).2.cleared
  exact absurd (all y mem) not_mem_nil

/-- Some arrival completes a datagram that is complete in the end. -/
theorem exists_completing (early : ¬ Complete profile as d)
    (late : Complete profile (as ++ rest) d) :
    ∃ before x after, rest = before ++ x :: after ∧ x ∈ fragments profile d ∧
      Complete profile (as ++ before ++ [x]) d := by
  induction rest generalizing as with
  | nil => exact absurd (append_nil as ▸ late) early
  | cons x rest ih =>
    by_cases now : Complete profile (as ++ [x]) d
    · refine ⟨[], x, rest, rfl, ?_, by simpa using now⟩
      by_contra other
      refine early fun y mem => ?_
      obtain old | new := mem_append.mp (now y mem)
      · exact old
      · exact absurd (mem_singleton.mp new ▸ mem) other
    · rw [append_cons] at late
      obtain ⟨before, y, after, rfl, mem, complete⟩ := ih now late
      refine ⟨x :: before, y, after, rfl, mem, ?_⟩
      rw [append_cons as x before]
      exact complete

/-- A datagram that is complete after one arrival is complete before every later one. -/
theorem Complete.first {before after front later : List Fragment}
    (complete : Complete profile (before ++ [x]) d)
    (cut : before ++ x :: after = front ++ y :: later) (early : ¬ Complete profile front d) :
    front.length ≤ before.length := by
  obtain ⟨between, shape, tail⟩ | ⟨between, shape, -⟩ := append_eq_append_iff.mp cut
  · cases between with
    | nil => rw [shape, append_nil]
    | cons z between =>
      obtain ⟨rfl, -⟩ := List.cons.inj tail
      refine absurd (complete.mono fun y mem => ?_) early
      rw [shape, append_cons]
      exact mem_append_left _ mem
  · rw [shape, length_append]
    exact Nat.le_add_right _ _

/-- Over any path a datagram is delivered once, by the arrival that completes it, with
exactly its payload, whatever else arrives and in whatever order. -/
theorem fragments_reassembled (profile : BuildProfile) (sent : List Datagram)
    (distinct : sent.Pairwise fun d d' => d.header.ids ≠ d'.header.ids)
    (arrivals : List Fragment) (arrive : Arrive profile sent [] arrivals) :
    (∀ d ∈ sent, route profile d.mtus [⟨d.payload, d.header⟩] = some (fragments profile d)) ∧
    ∃ outs w, processAll profile (fun _ => none) arrivals = some (outs, w) ∧
      (∀ before x after, arrivals = before ++ x :: after → ∀ d ∈ sent, x ∈ fragments profile d →
        outs[before.length]? =
          some (if Complete profile (before ++ [x]) d then some d.payload else none)) ∧
      ∀ d ∈ sent, Complete profile arrivals d →
        ∃! n : Nat, (∃ x ∈ fragments profile d, arrivals[n]? = some x) ∧
          ∃ p, outs[n]? = some (some p) := by
  refine ⟨fun d _ => (fragments_spec profile d).1, ?_⟩
  obtain ⟨outs, w, run, -, each⟩ := processAll_spec distinct start_holds arrive
  simp only [List.nil_append] at each
  refine ⟨outs, w, run, fun before x after cut d mem piece =>
    (each before x after cut d mem piece).2,
    fun d mem complete => ?_⟩
  obtain ⟨before, x, after, cut, piece, completes⟩ := exists_completing not_complete_nil complete
  rw [List.nil_append] at completes
  refine ⟨before.length, ⟨⟨x, piece, by rw [cut]; simp⟩, d.payload, ?_⟩, ?_⟩
  · rw [(each before x after cut d mem piece).2, if_pos completes]
  · rintro n ⟨⟨y, piece', here⟩, p, out⟩
    obtain ⟨bound, value⟩ := List.getElem?_eq_some_iff.mp here
    have cut' : arrivals = arrivals.take n ++ y :: arrivals.drop (n + 1) := by
      rw [← value, ← List.drop_eq_getElem_cons bound, List.take_append_drop]
    have length : (arrivals.take n).length = n := by
      rw [List.length_take, Nat.min_eq_left (Nat.le_of_lt bound)]
    obtain ⟨early, result⟩ := each _ y _ cut' d mem piece'
    rw [length, out, Option.some.injEq] at result
    have completes' : Complete profile (arrivals.take n ++ [y]) d := by
      by_contra no
      rw [if_neg no] at result
      cases result
    have early' := (each before x after cut d mem piece).1
    have latest := completes.first (cut.symm.trans cut') early
    have earliest := completes'.first (cut'.symm.trans cut) early'
    rw [length] at latest earliest
    exact Nat.le_antisymm latest earliest

/-- A datagram that is fragmented twice. -/
def twiceFragmented : Datagram where
  header := ⟨0x0a010101, 0x0a020202, 7, 17, 200, false, false, 0⟩
  payload := (List.range 200).map (BitVec.ofNat 8)
  mtus := [100, 68]
  fits := by decide +kernel
  sized := by decide +kernel
  unfragmented := by decide
  large := by decide

/-- Another datagram of the same source. -/
def unfragmented : Datagram where
  header := ⟨0x0a010101, 0x0a020202, 8, 17, 3, false, false, 0⟩
  payload := [1, 2, 3]
  mtus := [100]
  fits := by decide
  sized := by decide
  unfragmented := by decide
  large := by decide

/-- The last fragments arrive first, and twice. -/
def mixedArrivals : List Fragment :=
  let late := (fragments .debug twiceFragmented).reverse.take 3
  late ++ fragments .debug unfragmented ++ late ++ (fragments .debug twiceFragmented).take 2

theorem fragments_reassembled_mixed :
    (fragments .debug twiceFragmented).length = 5 ∧
    ∃ outs w, processAll .debug (fun _ => none) mixedArrivals = some (outs, w) ∧
      ∃! n : Nat, (∃ x ∈ fragments .debug twiceFragmented, mixedArrivals[n]? = some x) ∧
        ∃ p, outs[n]? = some (some p) := by
  obtain ⟨-, outs, w, run, -, once⟩ := fragments_reassembled .debug [twiceFragmented, unfragmented]
    (by decide) mixedArrivals (by decide +kernel)
  exact ⟨by decide +kernel, outs, w, run, once twiceFragmented (by simp) (by decide +kernel)⟩

end Ipv4L3Protocol

end Ns3
