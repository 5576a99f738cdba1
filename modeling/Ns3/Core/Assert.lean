import Ns3.Library.Contract
import Mathlib.Algebra.Group.Nat.Defs
import Mathlib.Algebra.Group.Int.Defs

/-!
# Assertions, aborts and unsigned counters

`NS_ASSERT` is compiled only when `NS3_ASSERT_ENABLE` is defined, while
`NS_ABORT_IF` and `NS_FATAL_ERROR` are active in every build. Functions that
contain either return `Option`: `none` is a call that ends the program. The
build profile is a parameter, so a theorem can be about one build or about all.

Counters of type `uint32_t` and `uint64_t` are natural numbers with explicit wrap-around,
and those of type `int32_t` are integers.
-/

namespace Ns3

/-! ## Calls that return -/

section Returns

universe u

variable {α β : Type u} {a b : α}

theorem bind_returns {x : Option α} {f : α → Option β} {b : β} :
    x >>= f = some b ↔ ∃ a, x = some a ∧ f a = some b :=
  Option.bind_eq_some_iff

theorem pure_returns : (pure a : Option α) = some b ↔ a = b := Option.some_inj

theorem some_bind (a : α) (f : α → Option β) : some a >>= f = f a := rfl

theorem pure_some (a : α) : (pure a : Option α) = some a := rfl

end Returns

/-! ## Assertions and counters -/

/-- Whether the code was compiled with `NS3_ASSERT_ENABLE`. -/
inductive BuildProfile where
  | debug
  | optimized
  deriving DecidableEq

/-- `NS_ASSERT` and `NS_ASSERT_MSG`: checked in debug builds only. -/
def nsAssert (profile : BuildProfile) (condition : Bool) : Option Unit :=
  if profile = .debug ∧ condition = false then none else some ()

/-- `NS_ABORT_IF` and `NS_ABORT_MSG_IF`: checked in every build. -/
def nsAbortIf (condition : Bool) : Option Unit :=
  if condition then none else some ()

@[simp] theorem nsAssert_optimized (condition : Bool) :
    nsAssert .optimized condition = some () := by
  simp [nsAssert]

@[simp] theorem nsAssert_true (profile : BuildProfile) : nsAssert profile true = some () := by
  simp [nsAssert]

@[simp] theorem nsAssert_debug_eq_some {condition : Bool} {u : Unit} :
    nsAssert .debug condition = some u ↔ condition = true := by
  cases condition <;> simp [nsAssert]

theorem nsAssert_eq_some {profile : BuildProfile} {condition : Bool} {u : Unit} :
    nsAssert profile condition = some u ↔ (profile = .debug → condition = true) := by
  cases profile <;> cases condition <;> simp [nsAssert]

@[simp] theorem nsAbortIf_eq_some {condition : Bool} {u : Unit} :
    nsAbortIf condition = some u ↔ condition = false := by
  cases condition <;> simp [nsAbortIf]

theorem nsAssert_contract (profile : BuildProfile) (condition : Bool) :
    Contract (profile = .debug) (nsAssert profile condition)
      fun _ => profile = .debug → condition = true := by
  cases profile <;> cases condition <;> simp [nsAssert, Contract]

/-- A value converted to `int32_t`. -/
def int32 (n : Int) : Int := Int.bmod n (2 ^ 32)

theorem int32_of_bounds {n : Int} (low : -2 ^ 31 ≤ n) (high : n < 2 ^ 31) : int32 n = n := by
  unfold int32
  rw [Int.bmod_eq_of_le_mul_two] <;> omega

theorem int32_lt (n : Int) : int32 n < 2 ^ 31 := by
  have bound := Int.bmod_lt (x := n) (m := 2 ^ 32) (by decide)
  unfold int32
  omega

theorem int32_add (a b : Int) : int32 (int32 a + b) = int32 (a + b) := Int.bmod_add_bmod

theorem int32_sub (a b : Int) : int32 (int32 a - b) = int32 (a - b) := by
  rw [Int.sub_eq_add_neg, int32_add, ← Int.sub_eq_add_neg]

namespace UInt32

/-- Addition of two `uint32_t` values. -/
def add (a b : Nat) : Nat := (a + b) % 2 ^ 32

/-- Subtraction of two `uint32_t` values. -/
def sub (a b : Nat) : Nat := (a + 2 ^ 32 - b % 2 ^ 32) % 2 ^ 32

theorem add_of_lt {a b : Nat} (h : a + b < 2 ^ 32) : add a b = a + b := Nat.mod_eq_of_lt h

theorem sub_of_le {a b : Nat} (h : b ≤ a) (ha : a < 2 ^ 32) : sub a b = a - b := by
  unfold sub
  omega

theorem add_mod (a n : Nat) : add (a % 2 ^ 32) n = (a + n) % 2 ^ 32 := Nat.mod_add_mod _ _ _

theorem sub_mod (a n : Nat) : sub ((a + n) % 2 ^ 32) n = a % 2 ^ 32 := by
  unfold sub
  omega

theorem add_lt (a b : Nat) : add a b < 2 ^ 32 := Nat.mod_lt _ (by decide)

end UInt32

namespace UInt64

/-- Addition of two `uint64_t` values. -/
def add (a b : Nat) : Nat := (a + b) % 2 ^ 64

/-- Subtraction of two `uint64_t` values. -/
def sub (a b : Nat) : Nat := (a + 2 ^ 64 - b % 2 ^ 64) % 2 ^ 64

/-- Multiplication of two `uint64_t` values. -/
def mul (a b : Nat) : Nat := (a * b) % 2 ^ 64

theorem add_of_lt {a b : Nat} (h : a + b < 2 ^ 64) : add a b = a + b := Nat.mod_eq_of_lt h

theorem sub_of_le {a b : Nat} (le : b ≤ a) (h : a < 2 ^ 64) : sub a b = a - b := by
  unfold sub
  omega

theorem mul_of_lt {a b : Nat} (h : a * b < 2 ^ 64) : mul a b = a * b := Nat.mod_eq_of_lt h

end UInt64

end Ns3
