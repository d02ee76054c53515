/-! What a computation that succeeded went through, over arbitrary errors. -/
namespace Deon.Library

variable {ε α β : Type}

theorem bind_success {first : Except ε α} {next : α → Except ε β} {result : β}
    (ok : (first >>= next) = .ok result) : ∃ value, first = .ok value ∧ next value = .ok result := by
  cases first with
  | error failure => cases ok
  | ok value => exact ⟨value,rfl,ok⟩

theorem ok_bind (value : α) (next : α → Except ε β) : (Except.ok value >>= next) = next value := rfl

theorem map_success {first : Except ε α} {f : α → β} {result : β}
    (ok : first.map f = .ok result) : ∃ value, first = .ok value ∧ f value = result := by
  cases first with
  | error failure => cases ok
  | ok value => exact ⟨value,rfl,Except.ok.inj ok⟩

theorem map_alike {first : Except ε α} {f g : α → β}
    (same : ∀ value, first = .ok value → f value = g value) : first.map f = first.map g := by
  cases first with
  | error => rfl
  | ok value => exact congrArg Except.ok (same value rfl)

theorem map_twice {γ : Type} (first : Except ε α) (f : α → β) (g : β → γ) :
    (first.map f).map g = first.map fun value => g (f value) := by
  cases first with
  | error => rfl
  | ok => rfl

theorem toOption_success {first : Except ε α} {value : α} :
    first.toOption = some value ↔ first = .ok value := by
  cases first <;> simp [Except.toOption]

/-- A run of partial steps goes through exactly when each step does where the ones in front of
it have led. -/
theorem foldlM_defined {step : β → α → Option β} {labels : List α} {s : β} :
    (∃ s', labels.foldlM step s = some s') ↔ ∀ before label after,
      labels = before ++ label :: after → ∀ s', before.foldlM step s = some s' →
        ∃ s'', step s' label = some s'' := by
  induction labels generalizing s with
  | nil => exact iff_of_true ⟨s,rfl⟩ fun before label after split => by cases before <;> cases split
  | cons first rest ih =>
    constructor
    · rintro ⟨last,run⟩ before label after split s' reached
      rw [split,List.foldlM_append,reached,Option.bind_eq_bind,Option.bind_some,
        List.foldlM_cons] at run
      obtain ⟨s'',stepped,_⟩ := Option.bind_eq_some_iff.mp run
      exact ⟨s'',stepped⟩
    · intro steps
      obtain ⟨middle,stepped⟩ := steps [] first rest rfl s rfl
      have later : ∃ s', rest.foldlM step middle = some s' := by
        apply ih.mpr
        intro before label after split s' reached
        apply steps (first :: before) label after (by rw [split,List.cons_append]) s'
        rw [List.foldlM_cons,stepped]
        exact reached
      obtain ⟨last,run⟩ := later
      exact ⟨last,by rw [List.foldlM_cons,stepped]; exact run⟩

end Deon.Library
