import Mathlib.Data.List.Basic

/-!
# Joined pieces with padding between them

Pieces are joined so that each one begins at a multiple of `k`: a piece that another one follows
is filled up. What is filled up may be counted from the piece before or from everything before.
-/

namespace PaddedJoin

variable {α : Type*} {k n : Nat} {fill : α}

/-- What is missing to a multiple of `k`. -/
def padding (k n : Nat) : Nat := (k - n % k) % k

/-- The pieces, with padding after each but the last. -/
def joined (k : Nat) (fill : α) : List (List α) → List α
  | [] => []
  | [piece] => piece
  | piece :: next :: rest =>
    piece ++ List.replicate (padding k piece.length) fill ++ joined k fill (next :: rest)

@[simp] theorem joined_nil : joined k fill [] = [] := rfl

@[simp] theorem joined_singleton (piece : List α) : joined k fill [piece] = piece := rfl

theorem joined_cons_cons (piece next : List α) (rest : List (List α)) :
    joined k fill (piece :: next :: rest) =
      piece ++ List.replicate (padding k piece.length) fill ++ joined k fill (next :: rest) := rfl

/-- A padded length does not change what is missing after it. -/
theorem padding_add (pos : 0 < k) (n m : Nat) : padding k (n + padding k n + m) = padding k m := by
  have whole : (n + padding k n) % k = 0 := by
    rw [padding]
    have below := Nat.mod_lt n pos
    by_cases aligned : n % k = 0
    · rw [aligned, Nat.sub_zero, Nat.mod_self, Nat.add_zero, aligned]
    · rw [Nat.mod_eq_of_lt (Nat.sub_lt pos (Nat.pos_of_ne_zero aligned)), Nat.add_mod,
        Nat.mod_eq_of_lt (Nat.sub_lt pos (Nat.pos_of_ne_zero aligned)),
        Nat.add_sub_cancel' (Nat.le_of_lt below), Nat.mod_self]
  rw [padding, Nat.add_mod, whole, Nat.zero_add, Nat.mod_mod, ← padding]

/-- A piece is added after what is missing to all the pieces before it. -/
theorem joined_concat (pos : 0 < k) (pieces : List (List α)) (piece : List α) :
    joined k fill (pieces ++ [piece]) = joined k fill pieces ++
      List.replicate (padding k (joined k fill pieces).length) fill ++ piece := by
  induction pieces with
  | nil => simp [padding]
  | cons first rest ih =>
    cases rest with
    | nil => rfl
    | cons next rest =>
      have length : (joined k fill (first :: next :: rest)).length =
          first.length + padding k first.length + (joined k fill (next :: rest)).length := by
        rw [joined_cons_cons, List.length_append, List.length_append, List.length_replicate]
      rw [length, padding_add pos, List.cons_append, List.cons_append, joined_cons_cons,
        ← List.cons_append, ih, joined_cons_cons]
      simp

end PaddedJoin
