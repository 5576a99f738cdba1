import Ns3.Internet.Ipv4EndPointDemux.Basic
import Mathlib.Data.List.Basic

/-!
# Allocated addresses

`Ipv4AddressGenerator` remembers the addresses that are in use as ranges of addresses, in
ascending order. Two ranges may touch without being joined. An address is added at an end of a
range, or as a range of its own.

The abstract model of the list is the set of addresses that its ranges hold.
-/

namespace Ns3.Ipv4AddressGenerator

/-- `Entry`: a range of addresses. -/
structure Entry where
  addrLow : BitVec 32
  addrHigh : BitVec 32
  deriving DecidableEq

/-- `Ipv4AddressGeneratorImpl`: the list and the test mode, in which a collision is reported. -/
structure Impl where
  entries : List Entry := []
  test : Bool := false
  deriving DecidableEq

/-- The end of the program at a collision, or its report in test mode. -/
def collision (test : Bool) (entries : List Entry) : Option (Bool × List Entry) := do
  nsAbortIf !test
  return (false, entries)

/-- The loop of `AddAllocated`, from one entry on, with the entry inserted after it. -/
def addFrom (test : Bool) (addr : BitVec 32) : List Entry → Option (Bool × List Entry)
  | [] => some (true, [⟨addr, addr⟩])
  | i :: rest =>
    if i.addrLow ≤ addr ∧ addr ≤ i.addrHigh then collision test (i :: rest)
    else if addr < i.addrLow - 1 then some (true, ⟨addr, addr⟩ :: i :: rest)
    else if addr = i.addrHigh + 1 then
      if rest.head?.any fun j => addr == j.addrLow then collision test (i :: rest)
      else some (true, { i with addrHigh := addr } :: rest)
    else if addr = i.addrLow - 1 then some (true, { i with addrLow := addr } :: rest)
    else do
      let (added, rest) ← addFrom test addr rest
      return (added, i :: rest)

/-- `AddAllocated`. -/
def addAllocated (address : Ipv4Address) (s : Impl) : Option (Bool × Impl) := do
  nsAbortIf (address == 0)
  let (added, entries) ← addFrom s.test address s.entries
  return (added, { s with entries })

/-- `IsAddressAllocated`. -/
def isAddressAllocated (address : Ipv4Address) (s : Impl) : Option Bool := do
  nsAbortIf (address == 0)
  return s.entries.any fun i => i.addrLow ≤ address && address ≤ i.addrHigh

/-- `IsNetworkAllocated`. -/
def isNetworkAllocated (address : Ipv4Address) (mask : Ipv4Mask) (s : Impl) : Option Bool := do
  nsAbortIf (address != address.combineMask mask)
  return !s.entries.any fun i => address == Ipv4Address.combineMask i.addrLow mask ||
    address == Ipv4Address.combineMask i.addrHigh mask

/-- Addresses added one after the other. -/
def addAll : List Ipv4Address → Impl → Option Impl :=
  fun addresses s => Run.exec (fun s address => (addAllocated address s).map Prod.snd) s addresses

/-! ## The addresses held -/

/-- The address lies in the range. -/
def Entry.Holds (i : Entry) (addr : BitVec 32) : Prop := i.addrLow ≤ addr ∧ addr ≤ i.addrHigh

/-- The address lies in a range of the list. -/
def Held (entries : List Entry) (addr : BitVec 32) : Prop := ∃ i ∈ entries, i.Holds addr

/-- Ranges in ascending order from `lo` on, without a common address. -/
def Ascending : Nat → List Entry → Prop
  | _, [] => True
  | lo, i :: rest => lo ≤ i.addrLow.toNat ∧ i.addrLow.toNat ≤ i.addrHigh.toNat ∧
      Ascending (i.addrHigh.toNat + 1) rest

section Held

variable {i : Entry} {rest : List Entry} {addr x : BitVec 32}

theorem Entry.holds_iff :
    i.Holds x ↔ i.addrLow.toNat ≤ x.toNat ∧ x.toNat ≤ i.addrHigh.toNat := Iff.rfl

@[simp] theorem held_nil : ¬ Held [] x := by
  rintro ⟨i, mem, -⟩
  cases mem

@[simp] theorem held_cons : Held (i :: rest) x ↔ i.Holds x ∨ Held rest x := by
  simp only [Held, List.exists_mem_cons_iff]

theorem holds_single : Entry.Holds ⟨addr, addr⟩ x ↔ x = addr := by
  simp only [Entry.holds_iff, ← BitVec.toNat_inj]
  omega

theorem isAddressAllocated_iff {s : Impl} (proper : addr ≠ 0) :
    isAddressAllocated addr s = some true ↔ Held s.entries addr := by
  have passes : addr ≠ 0#32 := proper
  simp [isAddressAllocated, nsAbortIf, passes, Held, Entry.Holds]

end Held

section Ascending

variable {lo lo' : Nat} {entries : List Entry} {i j : Entry} {x : BitVec 32}

theorem Ascending.le_of_held (asc : Ascending lo entries) (held : Held entries x) :
    lo ≤ x.toNat := by
  induction entries generalizing lo with
  | nil => exact absurd held held_nil
  | cons i rest ih =>
    obtain ⟨above, proper, later⟩ := asc
    obtain here | there := held_cons.mp held
    · exact Nat.le_trans above (Entry.holds_iff.mp here).1
    · have := ih later there
      omega

/-- Only one range holds an address. -/
theorem Ascending.unique (asc : Ascending lo entries) (hi : i ∈ entries) (hj : j ∈ entries)
    (byI : i.Holds x) (byJ : j.Holds x) : i = j := by
  induction entries generalizing lo with
  | nil => cases hi
  | cons k rest ih =>
    obtain ⟨-, -, later⟩ := asc
    have apart {l : Entry} (mem : l ∈ rest) (byL : l.Holds x) : ¬ k.Holds x := by
      intro byK
      have below := (Entry.holds_iff.mp byK).2
      have := later.le_of_held ⟨l, mem, byL⟩
      omega
    rcases List.mem_cons.mp hi with rfl | restI
    · rcases List.mem_cons.mp hj with rfl | restJ
      · rfl
      · exact absurd byI (apart restJ byJ)
    · rcases List.mem_cons.mp hj with rfl | restJ
      · exact absurd byJ (apart restI byI)
      · exact ih later restI restJ

theorem Ascending.ends (asc : Ascending lo entries) (mem : i ∈ entries) :
    i.Holds i.addrLow ∧ i.Holds i.addrHigh := by
  induction entries generalizing lo with
  | nil => cases mem
  | cons k rest ih =>
    obtain ⟨-, proper, later⟩ := asc
    rcases List.mem_cons.mp mem with rfl | there
    · exact ⟨⟨Nat.le_refl _, proper⟩, ⟨proper, Nat.le_refl _⟩⟩
    · exact ih later there

end Ascending

end Ns3.Ipv4AddressGenerator

/-!
## What is allocated in a network

However the addresses come, the ranges hold those added and no others. `IsNetworkAllocated` looks
at the ends of the ranges only, and it says `false` where it finds one in the network.
-/

namespace Ns3.Ipv4AddressGenerator

section Adding

variable {test added : Bool} {addr x : BitVec 32} {lo : Nat} {entries entries' : List Entry}
  {s t : Impl}

theorem collision_eq_some {result : Bool × List Entry}
    (returns : collision test entries = some result) : result = (false, entries) := by
  obtain ⟨_, -, same⟩ := bind_returns.mp returns
  exact (Option.some.inj same).symm

/-- An address above the bound joins what is held, and the ranges stay in order. -/
structure Joins (lo : Nat) (entries : List Entry) (addr : BitVec 32) (entries' : List Entry) :
    Prop where
  ascending : Ascending lo entries'
  held : ∀ x, Held entries' x ↔ Held entries x ∨ x = addr

theorem Joins.same (asc : Ascending lo entries) (held : Held entries addr) :
    Joins lo entries addr entries where
  ascending := asc
  held x := by
    refine ⟨.inl, ?_⟩
    rintro (there | rfl)
    · exact there
    · exact held

theorem toNat_pred (a : BitVec 32) (pos : 0 < a.toNat) : (a - 1).toNat = a.toNat - 1 := by
  bv_omega

theorem toNat_next {a : BitVec 32} (next : x = a + 1) (pos : 0 < x.toNat) :
    x.toNat = a.toNat + 1 := by
  bv_omega

theorem holds_up {i : Entry} (proper : i.addrLow.toNat ≤ i.addrHigh.toNat)
    (next : addr.toNat = i.addrHigh.toNat + 1) :
    Entry.Holds { i with addrHigh := addr } x ↔ i.Holds x ∨ x = addr := by
  simp only [Entry.holds_iff, ← BitVec.toNat_inj]
  omega

theorem holds_down {i : Entry} (proper : i.addrLow.toNat ≤ i.addrHigh.toNat)
    (previous : addr.toNat + 1 = i.addrLow.toNat) :
    Entry.Holds { i with addrLow := addr } x ↔ i.Holds x ∨ x = addr := by
  simp only [Entry.holds_iff, ← BitVec.toNat_inj]
  omega

theorem addFrom_joins (asc : Ascending lo entries) (above : lo ≤ addr.toNat) (pos : 0 < lo)
    (returns : addFrom test addr entries = some (added, entries')) :
    Joins lo entries addr entries' := by
  induction entries generalizing lo entries' with
  | nil =>
    cases returns
    refine ⟨⟨above, Nat.le_refl _, trivial⟩, fun x => ?_⟩
    simp [holds_single]
  | cons i rest ih =>
    obtain ⟨low, proper, later⟩ := asc
    have below := toNat_pred i.addrLow (by omega)
    rw [addFrom] at returns
    split at returns
    case isTrue inside =>
      cases collision_eq_some returns
      exact .same ⟨low, proper, later⟩ (held_cons.mpr (.inl inside))
    case isFalse outside =>
    split at returns
    case isTrue before =>
      cases returns
      rw [BitVec.lt_def, below] at before
      refine ⟨⟨above, Nat.le_refl _, ?_, proper, later⟩, fun x => ?_⟩
      · dsimp only
        omega
      · simp only [held_cons, holds_single]
        exact or_comm
    case isFalse notBefore =>
    rw [BitVec.lt_def, below] at notBefore
    split at returns
    case isTrue next =>
      have value := toNat_next next (by omega)
      split at returns
      case isTrue taken =>
        cases collision_eq_some returns
        refine .same ⟨low, proper, later⟩ (held_cons.mpr (.inr ?_))
        obtain ⟨j, first, same⟩ := (Option.any_eq_true _ _).mp taken
        have mem : j ∈ rest := List.mem_of_mem_head? first
        rw [beq_iff_eq.mp same]
        exact ⟨j, mem, (later.ends mem).1⟩
      case isFalse free =>
        cases returns
        refine ⟨⟨low, by dsimp only; omega, ?_⟩, fun x => ?_⟩
        · cases rest with
          | nil => trivial
          | cons j rest =>
            obtain ⟨apart, more⟩ := later
            have ne : addr.toNat ≠ j.addrLow.toNat := by
              intro same
              refine free ?_
              simpa using BitVec.eq_of_toNat_eq same
            exact ⟨by dsimp only; omega, more⟩
        · rw [held_cons, held_cons, holds_up proper value, or_right_comm]
    case isFalse notNext =>
    split at returns
    case isTrue previous =>
      cases returns
      have value : addr.toNat = i.addrLow.toNat - 1 := by rw [previous, below]
      refine ⟨⟨above, by dsimp only; omega, later⟩, fun x => ?_⟩
      rw [held_cons, held_cons, holds_down proper (by omega), or_right_comm]
    case isFalse notPrevious =>
      obtain ⟨⟨was, rest'⟩, more, result⟩ := bind_returns.mp returns
      cases result
      have beyond : i.addrHigh.toNat + 1 ≤ addr.toNat := by
        by_contra within
        refine outside ⟨?_, ?_⟩
        · rw [BitVec.le_def]
          have : addr.toNat ≠ i.addrLow.toNat - 1 := by
            rw [← below]
            exact fun same => notPrevious (BitVec.eq_of_toNat_eq same)
          omega
        · rw [BitVec.le_def]
          omega
      have joins := ih later beyond (Nat.succ_pos _) more
      refine ⟨⟨low, proper, joins.ascending⟩, fun x => ?_⟩
      rw [held_cons, held_cons, joins.held, or_assoc]

theorem addAllocated_joins {address : Ipv4Address} (asc : Ascending 1 s.entries)
    (returns : addAllocated address s = some (added, t)) : Joins 1 s.entries address t.entries := by
  obtain ⟨_, proper, more⟩ := bind_returns.mp returns
  obtain ⟨⟨was, entries⟩, adds, result⟩ := bind_returns.mp more
  cases result
  have nonzero : address ≠ 0 := beq_eq_false_iff_ne.mp (nsAbortIf_eq_some.mp proper)
  have above : 1 ≤ address.toNat := by
    refine Nat.one_le_iff_ne_zero.mpr fun zero => nonzero ?_
    exact BitVec.eq_of_toNat_eq zero
  exact addFrom_joins asc above Nat.one_pos adds

/-- The ranges hold what they held and what was added, in whatever order it came. -/
theorem addAll_held {addresses : List Ipv4Address} (asc : Ascending 1 s.entries)
    (run : addAll addresses s = some t) :
    Ascending 1 t.entries ∧ ∀ x, Held t.entries x ↔ Held s.entries x ∨ x ∈ addresses := by
  induction addresses generalizing s with
  | nil =>
    cases run
    exact ⟨asc, fun x => by simp⟩
  | cons address addresses ih =>
    obtain ⟨m, adds, rest⟩ := Run.exec_cons_eq_some.mp run
    obtain ⟨⟨added, m'⟩, returns, rfl⟩ := Option.map_eq_some_iff.mp adds
    have joins := addAllocated_joins asc returns
    obtain ⟨ascending, held⟩ := ih joins.ascending rest
    refine ⟨ascending, fun x => ?_⟩
    rw [held, joins.held, List.mem_cons, or_assoc]

end Adding

/-! ## The addresses of a network -/

/-- A mask of leading ones. -/
def Contiguous (mask : Ipv4Mask) : Prop := ∃ k, k ≤ 32 ∧ mask = BitVec.allOnes 32 <<< k

section Network

variable {mask : Ipv4Mask} {network a b x : Ipv4Address} {k : Nat}

theorem combineMask_shift (k : Nat) :
    (a.combineMask (BitVec.allOnes 32 <<< k)).toNat = a.toNat / 2 ^ k * 2 ^ k := by
  have shifts : a.combineMask (BitVec.allOnes 32 <<< k) = (a >>> k) <<< k := by
    ext j inside
    simp only [Ipv4Address.combineMask, BitVec.getElem_and, BitVec.getElem_shiftLeft,
      BitVec.getElem_allOnes]
    by_cases low : j < k
    · simp [low]
    · have : k + (j - k) = j := by omega
      simp [low, this, inside]
  have bound : a.toNat / 2 ^ k * 2 ^ k ≤ a.toNat := Nat.div_mul_le_self _ _
  rw [shifts, BitVec.toNat_shiftLeft, BitVec.toNat_ushiftRight, Nat.shiftLeft_eq,
    Nat.shiftRight_eq_div_pow]
  exact Nat.mod_eq_of_lt (by omega)

/-- The addresses of a network have no others between them. -/
theorem combineMask_between (contiguous : Contiguous mask) (ha : a.combineMask mask = network)
    (hb : b.combineMask mask = network) (ax : a ≤ x) (xb : x ≤ b) :
    x.combineMask mask = network := by
  obtain ⟨k, -, rfl⟩ := contiguous
  have low : a.toNat / 2 ^ k ≤ x.toNat / 2 ^ k := Nat.div_le_div_right ax
  have high : x.toNat / 2 ^ k ≤ b.toNat / 2 ^ k := Nat.div_le_div_right xb
  have same : a.toNat / 2 ^ k = b.toNat / 2 ^ k := by
    have := congrArg BitVec.toNat (ha.trans hb.symm)
    simp only [combineMask_shift] at this
    exact Nat.eq_of_mul_eq_mul_right (Nat.two_pow_pos k) this
  have middle : x.toNat / 2 ^ k = a.toNat / 2 ^ k := by omega
  rw [← ha]
  apply BitVec.eq_of_toNat_eq
  simp only [combineMask_shift, middle]

end Network

/-- `IsNetworkAllocated` answers its question for these addresses. -/
def Answers (addresses : List Ipv4Address) (network : Ipv4Address) (mask : Ipv4Mask) (s : Impl) :
    Prop :=
  ∃ answer, isNetworkAllocated network mask s = some answer ∧
    (answer = true ↔ ∃ a ∈ addresses, a.combineMask mask = network)

/-- Some range begins before the network and ends after it. -/
def Inside (network : Ipv4Address) (mask : Ipv4Mask) (s : Impl) : Prop :=
  ∃ i ∈ s.entries, ∀ a : Ipv4Address, a.combineMask mask = network →
    i.addrLow < a ∧ a < i.addrHigh

/-- An end of some range lies in the network. -/
def EndWithin (network : Ipv4Address) (mask : Ipv4Mask) (s : Impl) : Prop :=
  ∃ i ∈ s.entries, network = Ipv4Address.combineMask i.addrLow mask ∨
    network = Ipv4Address.combineMask i.addrHigh mask

section Answer

variable {network : Ipv4Address} {mask : Ipv4Mask} {s : Impl} {lo : Nat}

theorem isNetworkAllocated_eq (agree : network.combineMask mask = network) :
    ∃ answer, isNetworkAllocated network mask s = some answer ∧
      (answer = true ↔ ¬ EndWithin network mask s) := by
  refine ⟨_, by rw [isNetworkAllocated, agree, bne_self_eq_false]; rfl, ?_⟩
  simp [EndWithin]

/-- A range around the network is the only one with addresses near it. -/
theorem Inside.not_endWithin (asc : Ascending lo s.entries) (inside : Inside network mask s) :
    ¬ EndWithin network mask s := by
  obtain ⟨i, mem, around⟩ := inside
  have strict {x : Ipv4Address} (within : network = x.combineMask mask) :
      i.addrLow.toNat < x.toNat ∧ x.toNat < i.addrHigh.toNat := around x within.symm
  rintro ⟨j, memJ, low | high⟩
  · have between := strict low
    have same : i = j := asc.unique mem memJ ⟨Nat.le_of_lt between.1, Nat.le_of_lt between.2⟩
      (asc.ends memJ).1
    rw [same] at between
    exact absurd between.1 (Nat.lt_irrefl _)
  · have between := strict high
    have same : i = j := asc.unique mem memJ ⟨Nat.le_of_lt between.1, Nat.le_of_lt between.2⟩
      (asc.ends memJ).2
    rw [same] at between
    exact absurd between.2 (Nat.lt_irrefl _)

/-- What is held in a network without an end of a range lies in a range around the network. -/
theorem inside_of_held (contiguous : Contiguous mask)
    {a : Ipv4Address} (held : Held s.entries a) (within : a.combineMask mask = network)
    (noEnd : ¬ EndWithin network mask s) : Inside network mask s := by
  obtain ⟨i, mem, low, high⟩ := held
  refine ⟨i, mem, fun x inNetwork => ⟨?_, ?_⟩⟩
  · by_contra above
    refine noEnd ⟨i, mem, .inl (Eq.symm ?_)⟩
    exact combineMask_between contiguous inNetwork within (BitVec.not_lt.mp above) low
  · by_contra below
    refine noEnd ⟨i, mem, .inr (Eq.symm ?_)⟩
    exact combineMask_between contiguous within inNetwork high (BitVec.not_lt.mp below)

end Answer

/-- The answer is right exactly for the networks that lie inside a range, away from its ends. -/
theorem isNetworkAllocated_right_iff {test : Bool} {addresses : List Ipv4Address} {s : Impl}
    (run : addAll addresses { test } = some s) {network : Ipv4Address} {mask : Ipv4Mask}
    (contiguous : Contiguous mask) (agree : network = network.combineMask mask) :
    Answers addresses network mask s ↔ Inside network mask s := by
  obtain ⟨asc, held⟩ := addAll_held (s := { test }) trivial run
  have allocated (x : Ipv4Address) : x ∈ addresses ↔ Held s.entries x := by simp [held]
  have ends {x : Ipv4Address} {i : Entry} (mem : i ∈ s.entries) (holds : i.Holds x) :
      x ∈ addresses := (allocated x).mpr ⟨i, mem, holds⟩
  obtain ⟨answer, returns, opposite⟩ := isNetworkAllocated_eq (s := s) agree.symm
  constructor
  · rintro ⟨_, same, right⟩
    cases returns.symm.trans same
    have noEnd : ¬ EndWithin network mask s := by
      intro found
      refine opposite.mp (right.mpr ?_) found
      obtain ⟨i, mem, low | high⟩ := found
      · exact ⟨i.addrLow, ends mem (asc.ends mem).1, low.symm⟩
      · exact ⟨i.addrHigh, ends mem (asc.ends mem).2, high.symm⟩
    obtain ⟨a, mem, within⟩ := right.mp (opposite.mpr noEnd)
    exact inside_of_held contiguous ((allocated a).mp mem) within noEnd
  · intro inside
    have noEnd := inside.not_endWithin asc
    obtain ⟨i, mem, around⟩ := inside
    have here := around network agree.symm
    refine ⟨answer, returns, iff_of_true (opposite.mpr noEnd) ?_⟩
    exact ⟨network, ends mem ⟨Nat.le_of_lt here.1, Nat.le_of_lt here.2⟩, agree.symm⟩

/-- 10.0.0.1 to 10.0.0.4, added in another order, and the network 10.0.0.2/31. -/
theorem isNetworkAllocated_right_inside :
    Answers [0x0a000003, 0x0a000002, 0x0a000004, 0x0a000001] 0x0a000002 0xfffffffe
      { entries := [⟨0x0a000001, 0x0a000004⟩] } := by
  refine (@isNetworkAllocated_right_iff false _ _ (by decide) _ _ ⟨1, by decide, by decide⟩
    (by decide)).mpr ⟨⟨0x0a000001, 0x0a000004⟩, by decide, ?_⟩
  intro a within
  have value := congrArg BitVec.toNat within
  rw [show (0xfffffffe : Ipv4Mask) = BitVec.allOnes 32 <<< 1 by decide, combineMask_shift] at value
  have low : a.toNat / 2 ^ 1 * 2 ^ 1 = 167772162 := value
  constructor
  · show 167772161 < a.toNat
    omega
  · show a.toNat < 167772164
    omega

/-- The address 10.0.0.1 is allocated. Of 10.0.0.0/24, which contains it, the answer is `false`, and
of 10.0.1.0/24, which does not, it is `true`. -/
theorem isNetworkAllocated_inverted :
    let s : Impl := { entries := [⟨0x0a000001, 0x0a000001⟩] }
    addAll [0x0a000001] {} = some s ∧
      isNetworkAllocated 0x0a000000 0xffffff00 s = some false ∧
      ¬ Answers [0x0a000001] 0x0a000000 0xffffff00 s ∧
      isNetworkAllocated 0x0a000100 0xffffff00 s = some true ∧
      ¬ Answers [0x0a000001] 0x0a000100 0xffffff00 s := by
  intro s
  have within : isNetworkAllocated 0x0a000000 0xffffff00 s = some false := by decide
  have beside : isNetworkAllocated 0x0a000100 0xffffff00 s = some true := by decide
  refine ⟨by decide, within, ?_, beside, ?_⟩
  · rintro ⟨answer, same, right⟩
    cases within.symm.trans same
    exact absurd (right.mpr ⟨0x0a000001, by decide, by decide⟩) (by decide)
  · rintro ⟨answer, same, right⟩
    cases beside.symm.trans same
    obtain ⟨a, mem, within⟩ := right.mp rfl
    obtain rfl := List.mem_singleton.mp mem
    exact absurd within (by decide)

end Ns3.Ipv4AddressGenerator
