import Mathlib.Tactic

/-! # Outcomes of a call

A call returns a value, is aborted by a failed assertion, or never returns. -/

namespace MuduoCpp11.Lib

inductive Outcome (α : Type*) where
  | returned (a : α)
  | aborted
  | diverges
  deriving DecidableEq, Repr

namespace Outcome

variable {α β γ : Type*}

/-- What follows a call runs if the call returns. -/
def bind : Outcome α → (α → Outcome β) → Outcome β
  | .returned a, f => f a
  | .aborted, _ => .aborted
  | .diverges, _ => .diverges

def map (f : α → β) (o : Outcome α) : Outcome β := o.bind fun a => .returned (f a)

@[simp] theorem returned_bind (a : α) (f : α → Outcome β) : (returned a).bind f = f a := rfl
@[simp] theorem aborted_bind (f : α → Outcome β) : (aborted : Outcome α).bind f = .aborted := rfl
@[simp] theorem diverges_bind (f : α → Outcome β) : (diverges : Outcome α).bind f = .diverges := rfl

@[simp] theorem map_returned (f : α → β) (a : α) : (returned a).map f = .returned (f a) := rfl
@[simp] theorem map_aborted (f : α → β) : (aborted : Outcome α).map f = .aborted := rfl
@[simp] theorem map_diverges (f : α → β) : (diverges : Outcome α).map f = .diverges := rfl

theorem map_bind (o : Outcome α) (f : α → Outcome β) (g : β → γ) :
    (o.bind f).map g = o.bind fun a => (f a).map g := by
  cases o <;> rfl

theorem bind_map (o : Outcome α) (f : α → β) (g : β → Outcome γ) :
    (o.map f).bind g = o.bind fun a => g (f a) := by
  cases o <;> rfl

theorem map_eq_returned {o : Outcome α} {f : α → β} {b : β} :
    o.map f = .returned b ↔ ∃ a, o = .returned a ∧ f a = b := by
  cases o <;> simp

theorem bind_eq_returned {o : Outcome α} {f : α → Outcome β} {b : β} :
    o.bind f = .returned b ↔ ∃ a, o = .returned a ∧ f a = .returned b := by
  cases o <;> simp

end Outcome

end MuduoCpp11.Lib
