import Mathlib.Init

set_option autoImplicit true

/-- The result of a method that may fail with an error code or panic. -/
inductive Outcome (ε α : Type) where
  | ok (a : α)
  | err (e : ε)
  | panic
  deriving DecidableEq, Repr

namespace Outcome

/-- Taking the value out of an option panics when there is none. -/
def unwrap : Option α → Outcome ε α
  | some a => .ok a
  | none => .panic

def map (f : α → β) : Outcome ε α → Outcome ε β
  | .ok a => .ok (f a)
  | .err e => .err e
  | .panic => .panic

@[simp] theorem unwrap_some (a : α) : (unwrap (some a) : Outcome ε α) = .ok a := rfl

end Outcome
