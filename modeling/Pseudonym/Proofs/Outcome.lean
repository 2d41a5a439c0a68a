import Pseudonym.Traced

/-!
# Opening a computation step by step

A computation that may fail succeeds exactly if each of its steps does. The lemmas take one step off
at a time, so that what a `do` block does on success is read off without unfolding its steps.
-/

namespace Pseudonym

variable {ε ω α β : Type}

theorem bind_eq_ok_iff {x : Except ε α} {k : α → Except ε β} {b : β} :
    x >>= k = .ok b ↔ ∃ a, x = .ok a ∧ k a = .ok b := by
  cases x with
  | error e => simp [bind, Except.bind]
  | ok a => simp [bind, Except.bind]

theorem map_eq_ok_iff {x : Except ε α} {k : α → β} {b : β} :
    k <$> x = .ok b ↔ ∃ a, x = .ok a ∧ k a = b := by
  cases x with
  | error e => simp [Functor.map, Except.map]
  | ok a => simp [Functor.map, Except.map]

theorem pure_eq_ok_iff {a b : α} : (pure a : Except ε α) = .ok b ↔ a = b := by
  simp [pure, Except.pure]

theorem toOption_eq_some_iff {x : Except ε α} {a : α} : x.toOption = some a ↔ x = .ok a := by
  cases x with
  | error e => simp [Except.toOption]
  | ok b => simp [Except.toOption]

/-- What a computation fails with. -/
def error? : Except Error α → Option Error
  | .error e => some e
  | .ok _ => none

theorem error?_eq_some_iff {x : Except Error α} {e : Error} : error? x = some e ↔ x = .error e := by
  cases x with
  | error e' => simp [error?]
  | ok a => simp [error?]

namespace Traced

theorem outcome_bind_eq_ok_iff {x : Traced ω α} {k : α → Traced ω β} {b : β} :
    (x >>= k).outcome = .ok b ↔ ∃ a, x.outcome = .ok a ∧ (k a).outcome = .ok b := by
  rw [outcome_bind, bind_eq_ok_iff]

theorem outcome_map_eq_ok_iff {x : Traced ω α} {k : α → β} {b : β} :
    (k <$> x).outcome = .ok b ↔ ∃ a, x.outcome = .ok a ∧ k a = b := by
  rw [outcome_map, map_eq_ok_iff]

@[simp] theorem outcome_lift (outcome : Except Error α) :
    (lift outcome : Traced ω α).outcome = outcome := rfl

end Traced

end Pseudonym
