/-!
# General facts about results

A result is a value or an error. What is done in several parts succeeds if each part does, and a
proof about it goes through the parts one after another: `exists_of_bind_eq_ok` takes the first one
off. Two results can also be compared without regard to what their errors say.
-/

namespace SchoolAlgebra

variable {ε α β : Type}

/-- What succeeds in two parts succeeds in the first one. -/
theorem exists_of_bind_eq_ok {x : Except ε α} {f : α → Except ε β} {b : β}
    (h : x >>= f = .ok b) : ∃ a, x = .ok a ∧ f a = .ok b := by
  cases x with
  | error error => cases h
  | ok a => exact ⟨a, rfl, h⟩

/-- Two results that are the same but for errors, after something is forgotten. -/
theorem cases_of_toOption_map_eq {x y : Except ε α} {f : α → β}
    (h : x.toOption.map f = y.toOption.map f) :
    (∃ a b, x = .ok a ∧ y = .ok b ∧ f a = f b) ∨ ∃ e e', x = .error e ∧ y = .error e' := by
  cases x with
  | ok a =>
    cases y with
    | ok b => exact .inl ⟨a, b, rfl, rfl, Option.some.inj h⟩
    | error e' => cases h
  | error e =>
    cases y with
    | ok b => cases h
    | error e' => exact .inr ⟨e, e', rfl, rfl⟩

end SchoolAlgebra
