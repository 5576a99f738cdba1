import Mathlib.Data.List.Basic
import Mathlib.Order.Defs.LinearOrder
import Mathlib.Order.Basic
import Mathlib.Order.Lattice

/-!
# Maps kept as lists in key order

The reading of an ordered map that iterates in key order: a list of entries,
with insertion by a strict comparison. Two keys are equivalent when neither is
less than the other; assigning to an equivalent key replaces its entry.
-/

namespace OrderedList

open List Option

variable {κ ν : Type*}

/-- Assign a value to a key, keeping the entries in key order. -/
def set (lt : κ → κ → Bool) (key : κ) (value : ν) : List (κ × ν) → List (κ × ν)
  | [] => [(key, value)]
  | entry :: rest =>
    if lt key entry.1 then (key, value) :: entry :: rest
    else if lt entry.1 key then entry :: set lt key value rest
    else (entry.1, value) :: rest

/-- Insert a key with its value, unless an equivalent key is present. -/
def insertNew (lt : κ → κ → Bool) (key : κ) (value : ν) : List (κ × ν) → List (κ × ν)
  | [] => [(key, value)]
  | entry :: rest =>
    if lt key entry.1 then (key, value) :: entry :: rest
    else if lt entry.1 key then entry :: insertNew lt key value rest
    else entry :: rest

/-- The value of a key. -/
def get [DecidableEq κ] (key : κ) : List (κ × ν) → Option ν
  | [] => none
  | entry :: rest => if entry.1 = key then some entry.2 else get key rest

/-- Is a key equivalent to this one present? -/
def contains (lt : κ → κ → Bool) (key : κ) (entries : List (κ × ν)) : Bool :=
  entries.any fun entry => !lt key entry.1 && !lt entry.1 key

/-- Remove the entry whose key is this one. -/
def erase [DecidableEq κ] (key : κ) : List (κ × ν) → List (κ × ν)
  | [] => []
  | entry :: rest => if entry.1 = key then rest else entry :: erase key rest

example : get 2 (erase 1 (set (· < ·) 2 7 [(1, 5)])) = some 7 := by
  simp [get, erase, set]

variable {lt : κ → κ → Bool} {key : κ} {value : ν}

theorem set_front {entries : List (κ × ν)} (above : ∀ entry ∈ entries, lt key entry.1 = true) :
    set lt key value entries = (key, value) :: entries := by
  cases entries with
  | nil => rfl
  | cons entry rest => rw [set, if_pos (above entry (by simp))]

theorem erase_cons_self [DecidableEq κ] (entry : κ × ν) (rest : List (κ × ν)) :
    erase entry.1 (entry :: rest) = rest := by
  rw [erase, if_pos rfl]

/-- A key above a whole block of entries is inserted behind the block. -/
theorem set_append {front : List (κ × ν)} (below : ∀ entry ∈ front, lt entry.1 key = true)
    (notAbove : ∀ entry ∈ front, lt key entry.1 = false) (rest : List (κ × ν)) :
    set lt key value (front ++ rest) = front ++ set lt key value rest := by
  induction front with
  | nil => rfl
  | cons entry front ih =>
    have hlt := below entry (by simp)
    have hnot := notAbove entry (by simp)
    rw [cons_append, set, hnot, hlt]
    simp only [Bool.false_eq_true, if_false, if_true, cons_append, List.cons.injEq,
      true_and]
    exact ih (fun e he => below e (by simp [he])) (fun e he => notAbove e (by simp [he]))

/-! ## Keys compared by a rank -/

section Ranked

variable {ι : Type*} [LinearOrder ι] {rank : κ → ι}

/-- The entries stand in the order of their ranks, which differ. -/
def Ranked (rank : κ → ι) (entries : List (κ × ν)) : Prop :=
  entries.Pairwise fun a b => rank a.1 < rank b.1

theorem mem_insertNew {lt : κ → κ → Bool} {entries : List (κ × ν)} {x : κ × ν}
    (mem : x ∈ insertNew lt key value entries) : x = (key, value) ∨ x ∈ entries := by
  induction entries with
  | nil => exact .inl (mem_singleton.mp mem)
  | cons entry rest ih =>
    rw [insertNew] at mem
    split at mem
    · exact mem_cons.mp mem
    · split at mem
      · obtain same | later := mem_cons.mp mem
        · exact .inr (mem_cons.mpr (.inl same))
        · exact (ih later).imp id (mem_cons_of_mem entry)
      · exact .inr mem

theorem Ranked.insertNew {entries : List (κ × ν)} (ranked : Ranked rank entries)
    (lt_iff : ∀ a b, lt a b = true ↔ rank a < rank b) :
    Ranked rank (insertNew lt key value entries) := by
  induction entries with
  | nil => exact pairwise_singleton _ _
  | cons entry rest ih =>
    obtain ⟨below, ordered⟩ := pairwise_cons.mp ranked
    rw [OrderedList.insertNew]
    split
    case isTrue first =>
      have least := (lt_iff key entry.1).mp first
      refine pairwise_cons.mpr ⟨fun x mem => ?_, ranked⟩
      obtain rfl | later := mem_cons.mp mem
      · exact least
      · exact least.trans (below x later)
    case isFalse =>
      split
      case isTrue after =>
        refine pairwise_cons.mpr ⟨fun x mem => ?_, ih ordered⟩
        obtain rfl | later := mem_insertNew mem
        · exact (lt_iff entry.1 key).mp after
        · exact below x later
      case isFalse => exact ranked

/-- A new key adds one entry. -/
theorem insertNew_perm {entries : List (κ × ν)}
    (lt_iff : ∀ a b, lt a b = true ↔ rank a < rank b)
    (absent : ∀ entry ∈ entries, rank entry.1 ≠ rank key) :
    (insertNew lt key value entries).Perm ((key, value) :: entries) := by
  induction entries with
  | nil => exact .rfl
  | cons entry rest ih =>
    rw [OrderedList.insertNew]
    split
    case isTrue => exact .rfl
    case isFalse notFirst =>
      split
      case isTrue =>
        have later := ih fun x mem => absent x (mem_cons_of_mem entry mem)
        exact (later.cons entry).trans (List.Perm.swap _ _ _)
      case isFalse notAfter =>
        rw [lt_iff] at notFirst notAfter
        have same : rank entry.1 = rank key := le_antisymm (not_lt.mp notFirst) (not_lt.mp notAfter)
        exact absurd same (absent entry mem_cons_self)

/-- A key that is present leaves the map as it was. -/
theorem insertNew_present {entries : List (κ × ν)} (ranked : Ranked rank entries)
    (lt_iff : ∀ a b, lt a b = true ↔ rank a < rank b)
    (present : ∃ entry ∈ entries, rank entry.1 = rank key) :
    insertNew lt key value entries = entries := by
  induction entries with
  | nil =>
    obtain ⟨entry, mem, -⟩ := present
    cases mem
  | cons entry rest ih =>
    obtain ⟨below, ordered⟩ := pairwise_cons.mp ranked
    obtain ⟨x, mem, same⟩ := present
    have notFirst : ¬ lt key entry.1 = true := by
      rw [lt_iff, ← same, not_lt]
      obtain rfl | later := mem_cons.mp mem
      · exact le_rfl
      · exact (below x later).le
    rw [OrderedList.insertNew, if_neg notFirst]
    split
    case isTrue after =>
      obtain rfl | later := mem_cons.mp mem
      · exact absurd ((lt_iff _ _).mp after) (by rw [same]; exact lt_irrefl _)
      · rw [ih ordered ⟨x, later, same⟩]
    case isFalse => rfl

theorem erase_sublist [DecidableEq κ] (entries : List (κ × ν)) :
    (erase key entries).Sublist entries := by
  induction entries with
  | nil => exact .refl _
  | cons entry rest ih =>
    rw [erase]
    split
    · exact sublist_cons_self _ _
    · exact ih.cons_cons entry

theorem Ranked.erase [DecidableEq κ] {entries : List (κ × ν)} (ranked : Ranked rank entries) :
    Ranked rank (erase key entries) :=
  ranked.sublist (erase_sublist entries)

theorem Ranked.mem_erase [DecidableEq κ] {entries : List (κ × ν)} (ranked : Ranked rank entries)
    {x : κ × ν} : x ∈ OrderedList.erase key entries ↔ x ∈ entries ∧ x.1 ≠ key := by
  induction entries with
  | nil => simp [OrderedList.erase]
  | cons entry rest ih =>
    obtain ⟨below, ordered⟩ := pairwise_cons.mp ranked
    rw [OrderedList.erase]
    split
    case isTrue same =>
      have other : x ∈ rest → x.1 ≠ key := by
        rintro later rfl
        exact lt_irrefl _ (same ▸ below x later)
      rw [mem_cons]
      constructor
      · exact fun mem => ⟨.inr mem, other mem⟩
      · rintro ⟨rfl | mem, ne⟩
        · exact absurd same ne
        · exact mem
    case isFalse ne =>
      rw [mem_cons, ih ordered, mem_cons]
      constructor
      · rintro (rfl | ⟨mem, other⟩)
        · exact ⟨.inl rfl, ne⟩
        · exact ⟨.inr mem, other⟩
      · rintro ⟨rfl | mem, other⟩
        · exact .inl rfl
        · exact .inr ⟨mem, other⟩

theorem erase_of_absent [DecidableEq κ] {entries : List (κ × ν)}
    (absent : ∀ x ∈ entries, x.1 ≠ key) : OrderedList.erase key entries = entries := by
  induction entries with
  | nil => rfl
  | cons entry rest ih =>
    obtain ⟨other, later⟩ := forall_mem_cons.mp absent
    rw [OrderedList.erase, if_neg other, ih later]

/-- The map after an assignment: the new entry, and the entries of the other keys. -/
theorem Ranked.set_perm [DecidableEq κ] {entries : List (κ × ν)} (ranked : Ranked rank entries)
    (lt_iff : ∀ a b, lt a b = true ↔ rank a < rank b) (injective : ∀ a b, rank a = rank b → a = b) :
    (OrderedList.set lt key value entries).Perm
      ((key, value) :: OrderedList.erase key entries) := by
  induction entries with
  | nil => exact .refl _
  | cons entry rest ih =>
    obtain ⟨below, ordered⟩ := pairwise_cons.mp ranked
    rw [OrderedList.set]
    split
    case isTrue first =>
      have least := (lt_iff key entry.1).mp first
      have absent : ∀ x ∈ entry :: rest, x.1 ≠ key := by
        rintro x mem rfl
        obtain rfl | later := mem_cons.mp mem
        · exact lt_irrefl _ least
        · exact lt_asymm least (below x later)
      rw [erase_of_absent absent]
    case isFalse notFirst =>
      split
      case isTrue after =>
        have other : entry.1 ≠ key := by
          rintro rfl
          exact lt_irrefl _ ((lt_iff _ _).mp after)
        rw [OrderedList.erase, if_neg other]
        exact ((ih ordered).cons entry).trans (.swap _ _ _)
      case isFalse notAfter =>
        rw [lt_iff] at notFirst notAfter
        have same : entry.1 = key :=
          injective _ _ (le_antisymm (not_lt.mp notFirst) (not_lt.mp notAfter))
        rw [OrderedList.erase, if_pos same, same]

theorem Ranked.mem_set {entries : List (κ × ν)} (ranked : Ranked rank entries)
    (lt_iff : ∀ a b, lt a b = true ↔ rank a < rank b) (injective : ∀ a b, rank a = rank b → a = b)
    {x : κ × ν} : x ∈ OrderedList.set lt key value entries ↔
      x = (key, value) ∨ x ∈ entries ∧ x.1 ≠ key := by
  classical
  rw [(ranked.set_perm lt_iff injective).mem_iff, mem_cons, ranked.mem_erase]

theorem Ranked.set {entries : List (κ × ν)} (ranked : Ranked rank entries)
    (lt_iff : ∀ a b, lt a b = true ↔ rank a < rank b) (injective : ∀ a b, rank a = rank b → a = b) :
    Ranked rank (set lt key value entries) := by
  induction entries with
  | nil => exact pairwise_singleton _ _
  | cons entry rest ih =>
    obtain ⟨below, ordered⟩ := pairwise_cons.mp ranked
    rw [OrderedList.set]
    split
    case isTrue first =>
      have least := (lt_iff key entry.1).mp first
      refine pairwise_cons.mpr ⟨fun x mem => ?_, ranked⟩
      obtain rfl | later := mem_cons.mp mem
      · exact least
      · exact least.trans (below x later)
    case isFalse =>
      split
      case isTrue after =>
        refine pairwise_cons.mpr ⟨fun x mem => ?_, ih ordered⟩
        obtain rfl | ⟨later, -⟩ := (Ranked.mem_set ordered lt_iff injective).mp mem
        · exact (lt_iff entry.1 key).mp after
        · exact below x later
      case isFalse => exact pairwise_cons.mpr ⟨below, ordered⟩

theorem get_eq_none [DecidableEq κ] {entries : List (κ × ν)} :
    get key entries = none ↔ ∀ x ∈ entries, x.1 ≠ key := by
  induction entries with
  | nil => exact ⟨fun _ => nofun, fun _ => rfl⟩
  | cons entry rest ih =>
    rw [get, forall_mem_cons]
    by_cases same : entry.1 = key
    · simp [same]
    · simp [same, ih]

theorem Ranked.get_eq_some [DecidableEq κ] {entries : List (κ × ν)}
    (ranked : Ranked rank entries) : get key entries = some value ↔ (key, value) ∈ entries := by
  induction entries with
  | nil => exact ⟨nofun, nofun⟩
  | cons entry rest ih =>
    obtain ⟨below, ordered⟩ := pairwise_cons.mp ranked
    rw [get, mem_cons]
    split
    case isTrue same =>
      have other : (key, value) ∉ rest := by
        intro later
        have lt := below _ later
        rw [same] at lt
        exact lt_irrefl _ lt
      rw [some.injEq, or_iff_left other]
      exact ⟨fun h => Prod.ext same.symm h.symm, fun h => congrArg Prod.snd h.symm⟩
    case isFalse other =>
      rw [ih ordered, or_iff_right]
      rintro rfl
      exact other rfl

theorem perm_cons_erase [DecidableEq κ] {entries : List (κ × ν)}
    (found : get key entries = some value) :
    entries.Perm ((key, value) :: OrderedList.erase key entries) := by
  induction entries with
  | nil => cases found
  | cons entry rest ih =>
    rw [get] at found
    rw [OrderedList.erase]
    split at found
    case isTrue same => rw [if_pos same, ← same, ← some.inj found]
    case isFalse other =>
      rw [if_neg other]
      exact ((ih found).cons entry).trans (.swap _ _ _)

/-- The last of two assignments counts. -/
theorem Ranked.set_set {entries : List (κ × ν)} (ranked : Ranked rank entries)
    (lt_iff : ∀ a b, lt a b = true ↔ rank a < rank b) (other : ν) :
    OrderedList.set lt key value (OrderedList.set lt key other entries) =
      OrderedList.set lt key value entries := by
  have irrefl (a : κ) : lt a a = false := by
    rw [Bool.eq_false_iff, ne_eq, lt_iff]
    exact lt_irrefl _
  induction entries with
  | nil => simp [OrderedList.set, irrefl]
  | cons entry rest ih =>
    have ordered := (pairwise_cons.mp ranked).2
    by_cases first : lt key entry.1 = true
    · simp [OrderedList.set, irrefl, first]
    · by_cases after : lt entry.1 key = true
      · simp [OrderedList.set, first, after, ih ordered]
      · simp [OrderedList.set, first, after]

/-- To assign the value that a key has changes nothing. -/
theorem Ranked.set_get [DecidableEq κ] {entries : List (κ × ν)} (ranked : Ranked rank entries)
    (lt_iff : ∀ a b, lt a b = true ↔ rank a < rank b) (found : get key entries = some value) :
    OrderedList.set lt key value entries = entries := by
  induction entries with
  | nil => cases found
  | cons entry rest ih =>
    obtain ⟨below, ordered⟩ := pairwise_cons.mp ranked
    rw [get] at found
    rw [OrderedList.set]
    split at found
    case isTrue same =>
      have irrefl : ¬ lt key entry.1 = true ∧ ¬ lt entry.1 key = true := by
        rw [lt_iff, lt_iff, same]
        exact ⟨lt_irrefl _, lt_irrefl _⟩
      rw [if_neg irrefl.1, if_neg irrefl.2, ← some.inj found]
    case isFalse =>
      have after := below _ ((Ranked.get_eq_some ordered).mp found)
      have notFirst : ¬ lt key entry.1 = true := by
        rw [lt_iff]
        exact lt_asymm after
      rw [if_neg notFirst, if_pos ((lt_iff _ _).mpr after), ih ordered found]

/-- What is left when entries are taken from the front as long as they pass a test. -/
theorem Ranked.mem_dropWhile {entries : List (κ × ν)} (ranked : Ranked rank entries)
    {test : κ × ν → Bool} {x : κ × ν} : x ∈ entries.dropWhile test ↔
      x ∈ entries ∧ ∃ y ∈ entries, test y = false ∧ rank y.1 ≤ rank x.1 := by
  induction entries with
  | nil => simp
  | cons entry rest ih =>
    obtain ⟨below, ordered⟩ := pairwise_cons.mp ranked
    cases passes : test entry with
    | false =>
      rw [dropWhile_cons_of_neg (by rw [passes]; decide), iff_self_and]
      intro mem
      refine ⟨entry, mem_cons_self, passes, ?_⟩
      obtain rfl | later := mem_cons.mp mem
      · exact le_rfl
      · exact (below x later).le
    | true =>
      rw [dropWhile_cons_of_pos passes, ih ordered]
      constructor
      · rintro ⟨mem, y, there, fails, le⟩
        exact ⟨mem_cons_of_mem _ mem, y, mem_cons_of_mem _ there, fails, le⟩
      · rintro ⟨mem, y, there, fails, le⟩
        have later : y ∈ rest := by
          obtain rfl | later := mem_cons.mp there
          · rw [passes] at fails
            cases fails
          · exact later
        refine ⟨?_, y, later, fails, le⟩
        obtain rfl | behind := mem_cons.mp mem
        · exact absurd (below y later) (not_lt.mpr le)
        · exact behind

end Ranked

end OrderedList
