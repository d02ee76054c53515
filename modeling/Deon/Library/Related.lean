/-! Two computations that take the same course: they fail with the same error, or succeed with
related values. -/
namespace Deon.Library

variable {ε α β γ δ : Type} {r : α → β → Prop} {q : γ → δ → Prop}

inductive Related (r : α → β → Prop) : Except ε α → Except ε β → Prop
  | failed (failure : ε) : Related r (.error failure) (.error failure)
  | returned {value : α} {other : β} (related : r value other) : Related r (.ok value) (.ok other)

namespace Related

theorem bind {first : Except ε α} {other : Except ε β} {next : α → Except ε γ}
    {next' : β → Except ε δ} (related : Related r first other)
    (follows : ∀ value value', r value value' → Related q (next value) (next' value')) :
    Related q (first >>= next) (other >>= next') := by
  cases related with
  | failed failure => exact .failed failure
  | returned values => exact follows _ _ values

/-- Both begin with the same computation. -/
theorem behind (first : Except ε α) {next : α → Except ε γ} {next' : α → Except ε δ}
    (follows : ∀ value, Related q (next value) (next' value)) :
    Related q (first >>= next) (first >>= next') := by
  cases first with
  | error failure => exact .failed failure
  | ok value => exact follows value

theorem ite {p p' : Prop} [Decidable p] [Decidable p'] (same : p ↔ p') {first second : Except ε α}
    {first' second' : Except ε β} (yes : p → Related r first first')
    (no : ¬ p → Related r second second') :
    Related r (if p then first else second) (if p' then first' else second') := by
  by_cases here : p
  · rw [if_pos here,if_pos (same.mp here)]
    exact yes here
  · rw [if_neg here,if_neg (mt same.mpr here)]
    exact no here

theorem ok {first : Except ε α} {other : Except ε β} {value : α} (related : Related r first other)
    (returns : first = .ok value) : ∃ value', other = .ok value' ∧ r value value' := by
  cases related with
  | failed failure => cases returns
  | returned values =>
    cases returns
    exact ⟨_,rfl,values⟩

end Related

end Deon.Library
