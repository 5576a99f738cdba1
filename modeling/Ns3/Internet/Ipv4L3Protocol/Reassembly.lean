import Ns3.Internet.Ipv4L3Protocol.Fragmentation
import Mathlib.Data.List.Count
import Mathlib.Data.List.TakeWhile

/-!
# Pieces put back

The list of a datagram that is not complete holds each piece as often as it has arrived, in
the order of the pieces. It has no gap if and only if every piece is there, and then all of
the payload.
-/

namespace Ns3.Ipv4L3Protocol

open List

variable {profile : BuildProfile} {d d' : Datagram} {x y : Fragment} {xs as : List Fragment}
  {lo hi : Nat} {more : Bool} {f : Fragments}

/-! ## The order of the pieces -/

theorem Cut.le_start (cut : Cut d lo xs hi more) (mem : y ∈ xs) : lo ≤ y.start := by
  induction cut with
  | last _ =>
    obtain rfl := mem_singleton.mp mem
    exact le_rfl
  | cons _ _ _ ih =>
    obtain rfl | later := mem_cons.mp mem
    · exact le_rfl
    · exact Nat.le_trans (Nat.le_add_right _ _) (ih later)

theorem Piece.start_lt (piece : Piece d x) (flag : x.header.moreFragments = true) :
    x.start < x.stop :=
  Nat.lt_add_of_pos_right (piece.more flag).1

theorem Cut.tail_start {zs : List Fragment} (piece : Piece d x)
    (flag : x.header.moreFragments = true) (rest : Cut d x.stop zs hi more) (mem : y ∈ zs) :
    x.start < y.start :=
  Nat.lt_of_lt_of_le (piece.start_lt flag) (rest.le_start mem)

theorem Cut.start_inj (cut : Cut d lo xs hi more) (first : x ∈ xs) (second : y ∈ xs)
    (same : x.start = y.start) : x = y := by
  induction cut with
  | last _ => rw [mem_singleton.mp first, mem_singleton.mp second]
  | cons piece flag rest ih =>
    obtain rfl | later := mem_cons.mp first
    · obtain rfl | later' := mem_cons.mp second
      · rfl
      · exact absurd same (Nat.ne_of_lt (Cut.tail_start piece flag rest later'))
    · obtain rfl | later' := mem_cons.mp second
      · exact absurd same.symm (Nat.ne_of_lt (Cut.tail_start piece flag rest later))
      · exact ih later later'

/-- Behind the piece with the flag cleared there is none. -/
theorem Cut.start_le (cut : Cut d lo xs hi more) (mem : x ∈ xs) (last : y ∈ xs)
    (cleared : y.header.moreFragments = false) : x.start ≤ y.start := by
  induction cut with
  | last _ =>
    obtain rfl := mem_singleton.mp mem
    obtain rfl := mem_singleton.mp last
    exact le_rfl
  | cons piece flag rest ih =>
    obtain rfl | later' := mem_cons.mp last
    · exact absurd (flag.symm.trans cleared) nofun
    · obtain rfl | later := mem_cons.mp mem
      · exact Nat.le_of_lt (Cut.tail_start piece flag rest later')
      · exact ih later later'

theorem Cut.cleared (cut : Cut d lo xs hi false) : ∃ y ∈ xs, y.header.moreFragments = false := by
  generalize flag : false = m at cut
  induction cut with
  | @last z _ =>
    refine ⟨z, mem_singleton_self _, ?_⟩
    rw [← flag]
  | cons _ _ _ ih =>
    obtain ⟨y, mem, cleared⟩ := ih flag
    exact ⟨y, mem_cons_of_mem _ mem, cleared⟩

/-! ## What is stored -/

/-- What `Fragments` stores after these arrivals. -/
def stored (as xs : List Fragment) : List (Packet × Nat) :=
  xs.flatMap fun x => List.replicate (as.count x) (x.packet, x.start)

theorem stored_cons (as : List Fragment) (x : Fragment) (xs : List Fragment) :
    stored as (x :: xs) = List.replicate (as.count x) (x.packet, x.start) ++ stored as xs :=
  flatMap_cons

theorem mem_stored {it : Packet × Nat} (mem : it ∈ stored as xs) :
    ∃ y ∈ xs, y ∈ as ∧ it.2 = y.start := by
  obtain ⟨y, among, copy⟩ := mem_flatMap.mp mem
  obtain ⟨count, rfl⟩ := mem_replicate.mp copy
  exact ⟨y, among, count_pos_iff.mp (Nat.pos_of_ne_zero count), rfl⟩

theorem stored_mem (mem : y ∈ xs) (arrived : y ∈ as) : (y.packet, y.start) ∈ stored as xs :=
  mem_flatMap.mpr ⟨y, mem, mem_replicate.mpr
    ⟨Nat.ne_of_gt (count_pos_iff.mpr arrived), rfl⟩⟩

theorem stored_other (other : x ∉ xs) : stored (as ++ [x]) xs = stored as xs := by
  apply flatMap_congr
  intro y mem
  have ne : x ≠ y := fun same => other (same ▸ mem)
  rw [count_append, count_singleton, if_neg (by simpa using ne), Nat.add_zero]

theorem stored_self (as : List Fragment) (x : Fragment) :
    List.replicate ((as ++ [x]).count x) (x.packet, x.start) =
      List.replicate (as.count x) (x.packet, x.start) ++ [(x.packet, x.start)] := by
  rw [count_append, count_singleton_self, replicate_add, replicate_one]

/-- The stored pieces up to an arrival, and those behind it. -/
theorem split_replicate (n : Nat) (packet : Packet) {k start : Nat} (early : start ≤ k)
    (rest : List (Packet × Nat)) :
    (List.replicate n (packet, start) ++ rest).takeWhile (fun it => it.2 ≤ k) =
        List.replicate n (packet, start) ++ rest.takeWhile (fun it => it.2 ≤ k) ∧
      (List.replicate n (packet, start) ++ rest).dropWhile (fun it => it.2 ≤ k) =
        rest.dropWhile (fun it => it.2 ≤ k) := by
  have all (it : Packet × Nat) (mem : it ∈ List.replicate n (packet, start)) :
      decide (it.2 ≤ k) = true := by
    rw [(mem_replicate.mp mem).2]
    exact decide_eq_true early
  exact ⟨takeWhile_append_of_pos all, dropWhile_append_of_pos all⟩

theorem split_later {k : Nat} {its : List (Packet × Nat)} (later : ∀ it ∈ its, k < it.2) :
    its.takeWhile (fun it => it.2 ≤ k) = [] ∧ its.dropWhile (fun it => it.2 ≤ k) = its := by
  cases its with
  | nil => exact ⟨rfl, rfl⟩
  | cons it its =>
    have no : ¬ it.2 ≤ k := Nat.not_le.mpr (later it mem_cons_self)
    constructor
    · rw [takeWhile_cons_of_neg (by simpa using no)]
    · rw [dropWhile_cons_of_neg (by simpa using no)]

/-- Where an arrival goes. -/
theorem stored_insert (cut : Cut d lo xs hi more) (mem : x ∈ xs) :
    (stored as xs).takeWhile (fun it => it.2 ≤ x.start) ++ (x.packet, x.start) ::
      (stored as xs).dropWhile (fun it => it.2 ≤ x.start) = stored (as ++ [x]) xs := by
  induction cut with
  | @last z piece =>
    obtain rfl := mem_singleton.mp mem
    rw [stored_cons, stored_cons, stored_self]
    change List.takeWhile _ (_ ++ []) ++ _ :: List.dropWhile _ (_ ++ []) = _ ++ _ ++ []
    simp
  | @cons z zs hi more piece flag rest ih =>
    rw [stored_cons, stored_cons]
    obtain rfl | later := mem_cons.mp mem
    · obtain ⟨take, drop⟩ :=
        split_replicate (as.count x) x.packet (Nat.le_refl x.start) (stored as zs)
      have behind (it : Packet × Nat) (among : it ∈ stored as zs) : x.start < it.2 := by
        obtain ⟨y, mem, -, start⟩ := mem_stored among
        rw [start]
        exact Cut.tail_start piece flag rest mem
      obtain ⟨none_, all⟩ := split_later behind
      have apart : x ∉ zs := fun mem => Nat.lt_irrefl _ (Cut.tail_start piece flag rest mem)
      rw [take, drop, none_, all, stored_self, stored_other apart]
      simp
    · have early := Cut.tail_start piece flag rest later
      obtain ⟨take, drop⟩ :=
        split_replicate (as.count z) z.packet (Nat.le_of_lt early) (stored as zs)
      have other : z ≠ x := by
        rintro rfl
        exact Nat.lt_irrefl _ early
      rw [take, drop, append_assoc, ih later, count_append, count_singleton,
        if_neg (by simpa using other.symm), Nat.add_zero]

/-- The list of a datagram after some arrivals: whether more is to come is what the last
stored piece says. -/
structure Collected (as xs : List Fragment) (f : Fragments) : Prop where
  fragments : f.fragments = stored as xs
  more : f.fragments ≠ [] → (f.moreFragment = true ↔
    ∀ y ∈ xs, y ∈ as → y.header.moreFragments = true)

theorem Collected.addFragment (h : Collected as xs f) (cut : Cut d lo xs hi more) (mem : x ∈ xs) :
    Collected (as ++ [x]) xs
      (f.addFragment x.packet x.header.fragmentOffset (!x.header.isLastFragment)) where
  fragments := by
    rw [Fragments.addFragment, h.fragments]
    exact stored_insert cut mem
  more _ := by
    have arrived (y : Fragment) : y ∈ as ++ [x] ↔ y ∈ as ∨ y = x := by simp
    have flag : (!x.header.isLastFragment) = x.header.moreFragments := Bool.not_not _
    have behind : f.fragments.dropWhile (fun it => it.2 ≤ x.start) = [] ↔
        ∀ y ∈ xs, y ∈ as → y.start ≤ x.start := by
      rw [h.fragments, dropWhile_eq_nil_iff]
      constructor
      · intro early y mem' old
        simpa using early _ (stored_mem mem' old)
      · intro early it among
        obtain ⟨y, mem', old, start⟩ := mem_stored among
        rw [start]
        exact decide_eq_true (early y mem' old)
    change (if f.fragments.dropWhile (fun it => it.2 ≤ x.start) = [] then (!x.header.isLastFragment)
      else f.moreFragment) = true ↔ _
    rw [flag]
    by_cases last : f.fragments.dropWhile (fun it => it.2 ≤ x.start) = []
    · rw [if_pos last]
      have early := behind.mp last
      constructor
      · intro set y mem' old
        obtain old | rfl := (arrived y).mp old
        · by_contra cleared
          rw [Bool.not_eq_true] at cleared
          have same : y = x := cut.start_inj mem' mem
            (Nat.le_antisymm (early y mem' old) (cut.start_le mem mem' cleared))
          rw [← same, cleared] at set
          cases set
        · exact set
      · intro each
        exact each x mem ((arrived x).mpr (.inr rfl))
    · rw [if_neg last]
      have some_ : f.fragments ≠ [] := by
        intro empty
        rw [empty] at last
        exact last rfl
      have set : x.header.moreFragments = true := by
        by_contra cleared
        rw [Bool.not_eq_true] at cleared
        exact last (behind.mpr fun y mem' _ => cut.start_le mem' mem cleared)
      rw [h.more some_]
      constructor
      · intro each y mem' old
        obtain old | rfl := (arrived y).mp old
        · exact each y mem' old
        · exact set
      · intro each y mem' old
        exact each y mem' ((arrived y).mpr (.inl old))

/-! ## `IsEntire` -/

theorem entireFrom_replicate {last start : Nat} {packet : Packet} {n : Nat}
    {rest : List (Packet × Nat)} (inside : start ≤ last) :
    Fragments.entireFrom last (List.replicate (n + 1) (packet, start) ++ rest) =
      Fragments.entireFrom (max last (uint16 (packet.length + start))) rest := by
  induction n generalizing last with
  | zero => exact if_neg (Nat.not_lt.mpr inside)
  | succ n ih =>
    rw [replicate_succ, cons_append, Fragments.entireFrom,
      if_neg (Nat.not_lt.mpr inside),
      ih (Nat.le_trans inside (Nat.le_max_left _ _)), Nat.max_assoc, Nat.max_self]

theorem entireFrom_gap {last : Nat} {its : List (Packet × Nat)} (some_ : its ≠ [])
    (gap : ∀ it ∈ its, last < it.2) : Fragments.entireFrom last its = false := by
  cases its with
  | nil => exact absurd rfl some_
  | cons it its => exact if_pos (gap it mem_cons_self)

theorem Piece.stop_eq (piece : Piece d x) : uint16 (x.packet.length + x.start) = x.stop := by
  have fits := d.fits
  have stop := piece.stop
  simp only [Fragment.stop] at stop ⊢
  rw [uint16_of_lt (by omega), Nat.add_comm]

/-- Once the last piece is there, there is a gap until all are. -/
theorem entireFrom_stored (cut : Cut d lo xs hi more)
    (last : ∃ y ∈ xs, y ∈ as ∧ y.header.moreFragments = false) :
    Fragments.entireFrom lo (stored as xs) = true ↔ ∀ y ∈ xs, y ∈ as := by
  obtain ⟨y, mem, old, cleared⟩ := last
  induction cut with
  | @last z piece =>
    obtain rfl := mem_singleton.mp mem
    obtain ⟨n, count⟩ := Nat.exists_eq_add_one.mpr (count_pos_iff.mpr old)
    rw [stored_cons, count, entireFrom_replicate le_rfl]
    simp [stored, Fragments.entireFrom, old]
  | @cons z zs hi more piece flag rest ih =>
    have later : y ∈ zs := by
      obtain rfl | later := mem_cons.mp mem
      · exact absurd (flag.symm.trans cleared) nofun
      · exact later
    rw [stored_cons]
    by_cases here : z ∈ as
    · obtain ⟨n, count⟩ := Nat.exists_eq_add_one.mpr (count_pos_iff.mpr here)
      have onward : max z.start z.stop = z.stop :=
        Nat.max_eq_right (Nat.le_of_lt (piece.start_lt flag))
      rw [count, entireFrom_replicate le_rfl, piece.stop_eq, onward, ih later]
      simp [here]
    · have count : as.count z = 0 := count_eq_zero.mpr here
      have gap (it : Packet × Nat) (among : it ∈ stored as zs) : z.start < it.2 := by
        obtain ⟨x, mem, -, start⟩ := mem_stored among
        rw [start]
        exact Cut.tail_start piece flag rest mem
      rw [count, replicate_zero, nil_append,
        entireFrom_gap (ne_nil_of_mem (stored_mem later old)) gap]
      simp [here]

/-- The list of a datagram is entire when all of its pieces have arrived. -/
theorem Collected.isEntire_iff (h : Collected as xs f) (cut : Cut d 0 xs hi false)
    (some_ : f.fragments ≠ []) : f.isEntire = true ↔ ∀ y ∈ xs, y ∈ as := by
  have more := h.more some_
  by_cases last : ∃ y ∈ xs, y ∈ as ∧ y.header.moreFragments = false
  · have cleared : f.moreFragment = false := by
      rw [← Bool.not_eq_true, more]
      intro each
      obtain ⟨y, mem, old, cleared⟩ := last
      exact absurd ((each y mem old).symm.trans cleared) nofun
    rw [← entireFrom_stored cut last, Fragments.isEntire, cleared, h.fragments]
    simp [← h.fragments, some_]
  · have set : f.moreFragment = true := by
      rw [more]
      intro y mem old
      by_contra cleared
      exact last ⟨y, mem, old, Bool.not_eq_true _ ▸ cleared⟩
    have missing : ¬ ∀ y ∈ xs, y ∈ as := by
      intro each
      obtain ⟨y, mem, cleared⟩ := cut.cleared
      exact last ⟨y, mem, each y mem, cleared⟩
    simp [Fragments.isEntire, set, missing]

/-! ## `GetPacket` -/

/-- Copies of a piece behind the payload up to it add the piece once. -/
theorem appendFrom_replicate (piece : Piece d x) (n : Nat) (rest : List (Packet × Nat)) :
    Fragments.appendFrom profile (d.payload.take x.start)
        (List.replicate (n + 1) (x.packet, x.start) ++ rest) =
      Fragments.appendFrom profile (d.payload.take x.stop) rest := by
  have fits := d.fits
  have stop := piece.stop
  have length : (d.payload.take x.stop).length = x.stop := by rw [length_take, Nat.min_eq_left stop]
  have before : x.start ≤ x.stop := Nat.le_add_right _ _
  have added : Packet.addAtEnd (d.payload.take x.start) x.packet = d.payload.take x.stop := by
    rw [piece.bytes]
    exact Span.take_append_slice rfl
  have first : uint16 (d.payload.take x.start).length = x.start := by
    rw [length_take, uint16_of_lt (by omega)]
    omega
  have later : uint16 (d.payload.take x.stop).length = x.stop := by
    rw [length, uint16_of_lt (by omega)]
  have copies (n : Nat) : Fragments.appendFrom profile (d.payload.take x.stop)
      (List.replicate n (x.packet, x.start) ++ rest) =
        Fragments.appendFrom profile (d.payload.take x.stop) rest := by
    induction n with
    | zero => rfl
    | succ n ih =>
      rw [replicate_succ, cons_append, Fragments.appendFrom, later]
      by_cases overlap : x.stop > x.start
      · have covered : ¬ x.packet.length > x.stop - x.start := by
          simp only [Fragment.stop]
          omega
        simp [overlap, covered, ih]
      · have empty : x.packet = [] := by
          apply eq_nil_of_length_eq_zero
          simp only [Fragment.stop] at overlap
          omega
        simp only [overlap, if_false, empty, Packet.addAtEnd, append_nil]
        rw [empty] at ih
        exact ih
  rw [replicate_succ, cons_append, Fragments.appendFrom, first]
  simp only [gt_iff_lt, Nat.lt_irrefl, if_false, added]
  exact copies n

theorem appendFrom_stored (profile : BuildProfile) (cut : Cut d lo xs hi more)
    (each : ∀ y ∈ xs, y ∈ as) :
    Fragments.appendFrom profile (d.payload.take lo) (stored as xs) = some (d.payload.take hi) := by
  induction cut with
  | @last z piece =>
    obtain ⟨n, count⟩ := Nat.exists_eq_add_one.mpr
      (count_pos_iff.mpr (each z (mem_singleton_self z)))
    rw [stored_cons, count, appendFrom_replicate piece]
    rfl
  | @cons z zs hi more piece flag rest ih =>
    obtain ⟨n, count⟩ := Nat.exists_eq_add_one.mpr
      (count_pos_iff.mpr (each z mem_cons_self))
    rw [stored_cons, count, appendFrom_replicate piece]
    exact ih fun y mem => each y (mem_cons_of_mem _ mem)

/-- The packet of an entire list is the payload. -/
theorem Collected.getPacket (profile : BuildProfile) (h : Collected as xs f)
    (cut : Cut d 0 xs d.payload.length false)
    (each : ∀ y ∈ xs, y ∈ as) : f.getPacket profile = some d.payload := by
  have whole := appendFrom_stored profile cut each
  rw [take_length, take_zero] at whole
  have first (it : Packet × Nat) (rest : List (Packet × Nat))
    (fragments : f.fragments = it :: rest) :
      Fragments.appendFrom profile [] (it :: rest) = Fragments.appendFrom profile it.1 rest := by
    rw [Fragments.appendFrom]
    have none_ : ¬ uint16 ([] : Packet).length > it.2 := Nat.not_lt.mpr (Nat.zero_le _)
    simp only [none_, if_false, Packet.addAtEnd, nil_append]
  rw [← h.fragments] at whole
  rw [Fragments.getPacket]
  cases fragments : f.fragments with
  | nil =>
    obtain ⟨y, mem, -⟩ := cut.cleared
    have inside := stored_mem mem (each y mem)
    rw [← h.fragments, fragments] at inside
    cases inside
  | cons it rest =>
    rw [fragments, first it rest fragments] at whole
    exact whole

end Ns3.Ipv4L3Protocol
