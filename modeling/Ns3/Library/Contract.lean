import Mathlib.Data.Option.Basic
import Mathlib.Tactic.TypeStar

/-!
# Contracts of partial calls

A call that may stop the program has type `Option`. Its contract says what a
value it returns satisfies, and names the only circumstance in which the call
stops. With `False` for the circumstance a contract is a total one, with `True`
a partial one; calls in sequence compose by `Contract.bind`.
-/

/-- The call returns a value with `post`, unless it stops, which takes `stop`. -/
def Contract {α : Type*} (stop : Prop) (call : Option α) (post : α → Prop) : Prop :=
  match call with
  | none => stop
  | some a => post a

namespace Contract

variable {α β : Type*} {stop stop' : Prop} {call : Option α} {post post' : α → Prop}

theorem pure {a : α} (h : post a) : Contract stop (some a) post := h

section

variable (h : Contract stop call post)
include h

theorem of_eq_some {a : α} (eq : call = some a) : post a := by
  subst eq
  exact h

theorem returns (goes : ¬ stop) : ∃ a, call = some a ∧ post a := by
  cases call with
  | none => exact absurd h goes
  | some a => exact ⟨a, rfl, h⟩

theorem mono (imp : ∀ a, post a → post' a) :
    Contract stop call post' := by
  cases call with
  | none => exact h
  | some a => exact imp a h

theorem mono_stop (imp : stop → stop') :
    Contract stop' call post := by
  cases call with
  | none => exact imp h
  | some a => exact h

theorem bind {next : α → Option β} {final : β → Prop}
    (rest : ∀ a, post a → Contract stop (next a) final) :
    Contract stop (call.bind next) final := by
  cases call with
  | none => exact h
  | some a => exact rest a h

end

theorem of_forall (h : ∀ a, call = some a → post a) : Contract True call post := by
  cases call with
  | none => trivial
  | some a => exact h a rfl

end Contract
