import Mathlib.Algebra.Group.Nat.Defs
import Mathlib.Data.Nat.Digits.Defs

/-!
# Fields of bits in words

Values of given widths are packed into one number, the first one in its lowest bits. The number
is kept as a list of words, the lowest one first. A field that ends at some bit is cut out of one
word, or out of two, by shifts within a word.
-/

namespace BitField

theorem forall_lt_of_all {p : Nat → Prop} [DecidablePred p] {bound : Nat}
    (all : (List.range bound).all (fun n => decide (p n)) = true) : ∀ n < bound, p n := by
  intro n h
  exact of_decide_eq_true (List.all_eq_true.mp all n (List.mem_range.mpr h))

/-- The bits of a number from a place on, joined with those below it. -/
theorem high_or_low (n k : Nat) : ((n >>> k) <<< k) ||| (n % 2 ^ k) = n := by
  have below : n % 2 ^ k < 2 ^ k := Nat.mod_lt _ (Nat.two_pow_pos k)
  rw [Nat.shiftRight_eq_div_pow, ← Nat.shiftLeft_add_eq_or_of_lt below, Nat.shiftLeft_eq,
    Nat.div_add_mod']

/-- The lowest `w` bits of a number, moved to place `k`. -/
theorem shift_and_mask (n w k : Nat) : (n <<< k) &&& ((2 ^ w - 1) <<< k) = (n % 2 ^ w) <<< k := by
  rw [← Nat.shiftLeft_and_distrib, Nat.and_two_pow_sub_one_eq_mod]

theorem cut_shifted (n w k : Nat) : ((n <<< k) &&& ((2 ^ w - 1) <<< k)) >>> k = n % 2 ^ w := by
  rw [shift_and_mask, Nat.shiftLeft_shiftRight]

/-- A value and the number of its bits. -/
abbrev Field := Nat × Nat

/-- The number of bits of the fields. -/
def width (fields : List Field) : Nat := (fields.map Prod.snd).sum

/-- The number in which each field stands above the fields before it. -/
def pack : List Field → Nat
  | [] => 0
  | f :: rest => f.1 + 2 ^ f.2 * pack rest

/-- The `n` bits below bit `top`. -/
def below (x top n : Nat) : Nat := x % 2 ^ top / 2 ^ (top - n)

/-- The value has no more bits than it should have. -/
def Fits (f : Field) : Prop := f.1 < 2 ^ f.2

example : pack [(5, 3), (1, 2)] = 13 := by simp [pack]

variable {fields later : List Field} {f : Field} {x y n k r w : Nat}

@[simp] theorem width_nil : width [] = 0 := rfl

@[simp] theorem width_cons : width (f :: fields) = f.2 + width fields := List.sum_cons

@[simp] theorem width_append : width (fields ++ later) = width fields + width later := by
  rw [width, List.map_append, List.sum_append]
  rfl

theorem pack_append : pack (fields ++ later) = pack fields + 2 ^ width fields * pack later := by
  induction fields with
  | nil => rw [List.nil_append, width_nil, pack, Nat.zero_add, Nat.pow_zero, Nat.one_mul]
  | cons f rest ih =>
    rw [List.cons_append, pack, pack, ih, width_cons, Nat.pow_add]
    ring

theorem pack_concat : pack (fields ++ [f]) = pack fields + 2 ^ width fields * f.1 := by
  rw [pack_append, pack, pack, Nat.mul_zero, Nat.add_zero]

theorem pack_lt (fits : ∀ f ∈ fields, Fits f) : pack fields < 2 ^ width fields := by
  induction fields with
  | nil => exact Nat.one_pos
  | cons f rest ih =>
    have here : f.1 < 2 ^ f.2 := fits f List.mem_cons_self
    have others := ih fun g mem => fits g (List.mem_cons_of_mem f mem)
    rw [pack, width_cons, Nat.pow_add]
    calc f.1 + 2 ^ f.2 * pack rest
        < 2 ^ f.2 + 2 ^ f.2 * pack rest := Nat.add_lt_add_right here _
      _ = 2 ^ f.2 * (pack rest + 1) := by ring
      _ ≤ 2 ^ f.2 * 2 ^ width rest := Nat.mul_le_mul_left _ others

/-- Below the end of a field stands the field. -/
theorem below_pack (fits : ∀ f ∈ fields, Fits f) (here : Fits f) :
    below (pack (fields ++ f :: later)) (width (fields ++ [f])) f.2 = f.1 := by
  have bound : pack (fields ++ [f]) < 2 ^ width (fields ++ [f]) := by
    refine pack_lt fun g mem => ?_
    obtain mem | mem := List.mem_append.mp mem
    · exact fits g mem
    · exact List.mem_singleton.mp mem ▸ here
  have split : pack (fields ++ f :: later) =
      pack (fields ++ [f]) + 2 ^ width (fields ++ [f]) * pack later := by
    rw [← pack_append, List.append_assoc]
    rfl
  rw [below, split, Nat.add_mul_mod_self_left, Nat.mod_eq_of_lt bound, pack_concat]
  have bottom : width (fields ++ [f]) - f.2 = width fields := by simp
  rw [bottom, Nat.add_mul_div_left _ _ (Nat.two_pow_pos _), Nat.div_eq_of_lt (pack_lt fits),
    Nat.zero_add]

/-! ## Shifts within a word of `k` bits -/

theorem shift_top (le : r ≤ k) : x * 2 ^ (k - r) % 2 ^ k = x % 2 ^ r * 2 ^ (k - r) := by
  have split : 2 ^ k = 2 ^ r * 2 ^ (k - r) := by rw [← Nat.pow_add, Nat.add_sub_cancel' le]
  rw [split, Nat.mul_mod_mul_right]

theorem shift_below (low : w ≤ r) (le : r ≤ k) :
    x * 2 ^ (k - r) % 2 ^ k / 2 ^ (k - w) = below x r w := by
  have split : 2 ^ (k - w) = 2 ^ (k - r) * 2 ^ (r - w) := by
    rw [← Nat.pow_add]
    congr 1
    omega
  rw [shift_top le, below, split, Nat.mul_comm, Nat.mul_div_mul_left _ _ (Nat.two_pow_pos _)]

theorem shift_above (low : r ≤ w) (le : w ≤ k) :
    x * 2 ^ (k - r) % 2 ^ k / 2 ^ (k - w) = x % 2 ^ r * 2 ^ (w - r) := by
  have split : 2 ^ (k - r) = 2 ^ (w - r) * 2 ^ (k - w) := by
    rw [← Nat.pow_add]
    congr 1
    omega
  rw [shift_top (Nat.le_trans low le), split, ← Nat.mul_assoc,
    Nat.mul_div_cancel _ (Nat.two_pow_pos _)]

theorem or_low (low : y < 2 ^ r) : x * 2 ^ r ||| y = x * 2 ^ r + y := by
  rw [Nat.mul_comm, Nat.two_pow_add_eq_or_of_lt low]

theorem below_word (low : w ≤ r) (le : r ≤ k) :
    below x (k * n + r) w = below (x / 2 ^ (k * n) % 2 ^ k) r w := by
  have bits : x % 2 ^ (k * n + r) / 2 ^ (k * n) = x / 2 ^ (k * n) % 2 ^ k % 2 ^ r := by
    rw [Nat.pow_add, Nat.mod_mul_right_div_self, Nat.mod_mod_of_dvd _ (Nat.pow_dvd_pow 2 le)]
  rw [below, below, Nat.add_sub_assoc low, Nat.pow_add 2 (k * n) (r - w), ← Nat.div_div_eq_div_mul,
    bits]

/-- A field with its upper `r` bits in the word `n + 1` and the others in the word `n`. -/
theorem below_words (high : r ≤ w) (le : w ≤ k) (pos : r < k) :
    below x (k * (n + 1) + r) w =
      x / 2 ^ (k * (n + 1)) % 2 ^ r * 2 ^ (w - r) +
        x / 2 ^ (k * n) % 2 ^ k / 2 ^ (k - (w - r)) := by
  have bottom : k * (n + 1) + r - w = k * n + (k - (w - r)) := by
    rw [Nat.mul_succ]
    omega
  have top : 2 ^ (k * (n + 1)) = 2 ^ (k * n + (k - (w - r))) * 2 ^ (w - r) := by
    rw [← Nat.pow_add, Nat.mul_succ]
    congr 1
    omega
  have lower : x % 2 ^ (k * (n + 1)) / 2 ^ (k * n + (k - (w - r))) =
      x / 2 ^ (k * n) % 2 ^ k / 2 ^ (k - (w - r)) := by
    rw [Nat.mul_succ, Nat.pow_add 2 (k * n) k, Nat.pow_add 2 (k * n) (k - (w - r)),
      ← Nat.div_div_eq_div_mul, Nat.mod_mul_right_div_self]
  have upper : x % 2 ^ (k * (n + 1) + r) =
      x % 2 ^ (k * (n + 1)) + 2 ^ (k * (n + 1)) * (x / 2 ^ (k * (n + 1)) % 2 ^ r) := by
    rw [Nat.pow_add, Nat.mod_mul]
  rw [below, bottom, upper, ← lower]
  rw [top, Nat.mul_assoc, Nat.add_mul_div_left _ _ (Nat.two_pow_pos _), Nat.add_comm,
    Nat.mul_comm]

/-! ## Lists of words -/

section Words

variable {words front : List Nat} {last c i : Nat}

/-- The number of the words, the lowest one first. -/
def number (k : Nat) (words : List Nat) : Nat := Nat.ofDigits (2 ^ k) words

theorem number_append (k : Nat) (front words : List Nat) :
    number k (front ++ words) = number k front + 2 ^ (k * front.length) * number k words := by
  rw [number, Nat.ofDigits_append, ← Nat.pow_mul]
  rfl

theorem number_singleton : number k [x] = x := Nat.ofDigits_singleton

theorem number_cons (x : Nat) (words : List Nat) :
    number k (x :: words) = x + 2 ^ k * number k words := Nat.ofDigits_cons ..

theorem number_concat (k : Nat) (front : List Nat) (x : Nat) :
    number k (front ++ [x]) = number k front + 2 ^ (k * front.length) * x := by
  rw [number_append, number_singleton]

theorem word_eq (small : ∀ x ∈ words, x < 2 ^ k) (inside : i < words.length) :
    words[i]? = some (number k words / 2 ^ (k * i) % 2 ^ k) := by
  have above := Nat.ofDigits_div_pow_eq_ofDigits_drop i (Nat.two_pow_pos k) words small
  rw [← Nat.pow_mul, List.drop_eq_getElem_cons inside, Nat.ofDigits_cons] at above
  rw [number, above, List.getElem?_eq_getElem inside, Nat.add_mul_mod_self_left,
    Nat.mod_eq_of_lt (small _ (List.getElem_mem inside))]

theorem last_lt (bound : number k (front ++ [last]) < 2 ^ (k * front.length + c)) :
    last < 2 ^ c := by
  rw [number_concat, Nat.pow_add] at bound
  exact Nat.lt_of_mul_lt_mul_left (Nat.lt_of_le_of_lt (Nat.le_add_left _ _) bound)

theorem number_extend (low : last < 2 ^ c) (x : Nat) :
    number k (front ++ [x * 2 ^ c ||| last]) =
      number k (front ++ [last]) + 2 ^ (k * front.length + c) * x := by
  rw [number_concat, number_concat, or_low low, Nat.pow_add]
  ring

/-- A value written above bit `c` of the last word and into a new one. -/
theorem number_overflow (low : last < 2 ^ c) (le : c ≤ k) (x : Nat) :
    number k (front ++ [x * 2 ^ c % 2 ^ k ||| last, x / 2 ^ (k - c)]) =
      number k (front ++ [last]) + 2 ^ (k * front.length + c) * x := by
  have kept : x * 2 ^ c % 2 ^ k = x % 2 ^ (k - c) * 2 ^ c := by
    have top := shift_top (x := x) (Nat.sub_le k c)
    rwa [Nat.sub_sub_self le] at top
  have word : 2 ^ k = 2 ^ c * 2 ^ (k - c) := by rw [← Nat.pow_add, Nat.add_sub_cancel' le]
  have split := Nat.mod_add_div x (2 ^ (k - c))
  rw [kept, or_low low, number_append, number_concat, number_cons, number_singleton, Nat.pow_add]
  generalize x % 2 ^ (k - c) = lower at *
  generalize x / 2 ^ (k - c) = upper at *
  rw [← split, word]
  ring

end Words

end BitField
