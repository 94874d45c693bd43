/-!
# When steps succeed

What two steps in a row come to, and what a step comes to whose result is changed.

## Main results

* `bind_eq_ok_iff` — two steps in a row.
* `map_eq_ok_iff`, `map_eq_error_iff` — a step whose result is changed.
-/

namespace StarlarkLint

variable {ε α β : Type} {x : Except ε α}

theorem bind_eq_ok_iff {k : α → Except ε β} {b : β} :
    (x >>= k) = .ok b ↔ ∃ a, x = .ok a ∧ k a = .ok b := by
  cases x with
  | error e => simp [bind, Except.bind]
  | ok a => simp [bind, Except.bind]

theorem map_eq_ok_iff {f : α → β} {b : β} : x.map f = .ok b ↔ ∃ a, x = .ok a ∧ f a = b := by
  cases x <;> simp [Except.map]

theorem map_eq_error_iff {f : α → β} {e : ε} : x.map f = .error e ↔ x = .error e := by
  cases x <;> simp [Except.map]

end StarlarkLint
