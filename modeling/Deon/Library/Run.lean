import Mathlib.Data.List.Basic
import Mathlib.Logic.Relation

/-! Finite runs of a labelled transition system over arbitrary states and labels,
with the rules that carry a step fact to whole runs: invariants, simulations, and
conditions that restrict the labels. -/
namespace Deon.Library

variable {σ α : Type*} {step : σ → α → σ → Prop}

/-- `Run step s labels s'`: the labels, taken in order from `s`, end in `s'`. -/
inductive Run (step : σ → α → σ → Prop) : σ → List α → σ → Prop
  | nil (s : σ) : Run step s [] s
  | cons {s middle s' : σ} {label : α} {labels : List α}
      (first : step s label middle) (rest : Run step middle labels s') :
      Run step s (label :: labels) s'

/-- The states that some run from `init` ends in. -/
def Reachable (step : σ → α → σ → Prop) (init s : σ) : Prop := ∃ labels, Run step init labels s

theorem Run.append {s middle s' : σ} {before after : List α} (first : Run step s before middle)
    (rest : Run step middle after s') : Run step s (before ++ after) s' := by
  induction first with
  | nil => exact rest
  | cons one _ ih => exact .cons one (ih rest)

theorem Run.split {s s' : σ} {before after : List α} (run : Run step s (before ++ after) s') :
    ∃ middle, Run step s before middle ∧ Run step middle after s' := by
  induction before generalizing s with
  | nil => exact ⟨s,.nil s,run⟩
  | cons label before ih =>
    obtain _ | ⟨one,rest⟩ := run
    obtain ⟨middle,first,last⟩ := ih rest
    exact ⟨middle,.cons one first,last⟩

/-- The invariant rule, for runs whose labels all satisfy `allowed`. -/
theorem Run.invariant_of (inv : σ → Prop) (allowed : α → Prop)
    (keeps : ∀ s label s', inv s → allowed label → step s label s' → inv s')
    {s s' : σ} {labels : List α} (run : Run step s labels s')
    (fine : ∀ label ∈ labels, allowed label) (start : inv s) : inv s' := by
  induction run with
  | nil => exact start
  | @cons s middle s' label labels one rest ih =>
    have next := keeps _ _ _ start (fine label (by simp)) one
    exact ih (fun other member => fine other (by simp [member])) next

theorem Run.invariant (inv : σ → Prop)
    (keeps : ∀ s label s', inv s → step s label s' → inv s')
    {s s' : σ} {labels : List α} (run : Run step s labels s') (start : inv s) : inv s' :=
  run.invariant_of inv (fun _ => True) (fun _ _ _ held _ one => keeps _ _ _ held one)
    (fun _ _ => trivial) start

theorem Reachable.invariant (inv : σ → Prop) {init : σ} (start : inv init)
    (keeps : ∀ s label s', inv s → step s label s' → inv s')
    {s : σ} (reached : Reachable step init s) : inv s := by
  obtain ⟨labels,run⟩ := reached
  exact run.invariant inv keeps start

/-- The simulation rule: a map to the states of another system that takes steps to steps
takes reachable states to reachable ones. -/
theorem Reachable.simulates {τ : Type*} {abstract : τ → τ → Prop} (view : σ → τ) (inv : σ → Prop)
    {init : σ} (start : inv init) (keeps : ∀ s label s', inv s → step s label s' → inv s')
    (follows : ∀ s label s', inv s → step s label s' → abstract (view s) (view s'))
    {s : σ} (reached : Reachable step init s) :
    Relation.ReflTransGen abstract (view init) (view s) := by
  obtain ⟨labels,run⟩ := reached
  induction run with
  | nil => exact .refl
  | @cons s middle s' label labels one rest ih =>
    exact .head (follows s label middle start one) (ih (keeps s label middle start one))

/-- A view of the states in which every step is a run of another system: so is every run. -/
theorem Run.projects {τ β : Type*} {other : τ → β → τ → Prop} (view : σ → τ)
    (follows : ∀ s label s', step s label s' → ∃ actions, Run other (view s) actions (view s'))
    {s s' : σ} {labels : List α} (run : Run step s labels s') :
    ∃ actions, Run other (view s) actions (view s') := by
  induction run with
  | nil => exact ⟨[],.nil _⟩
  | cons one rest ih =>
    obtain ⟨before,first⟩ := follows _ _ _ one
    obtain ⟨after,last⟩ := ih
    exact ⟨before ++ after,first.append last⟩

/-- The run of these labels, where the step is a partial function. -/
def perform (next : σ → α → Option σ) (s : σ) : List α → Option σ
  | [] => some s
  | label :: labels => (next s label).bind fun s' => perform next s' labels

theorem perform_run {next : σ → α → Option σ}
    (follows : ∀ s label s', next s label = some s' → step s label s') {s s' : σ} {labels : List α}
    (done : perform next s labels = some s') : Run step s labels s' := by
  induction labels generalizing s with
  | nil =>
    cases done
    exact .nil _
  | cons label labels ih =>
    obtain ⟨middle,one,rest⟩ := Option.bind_eq_some_iff.mp done
    exact .cons (follows s label middle one) (ih rest)

theorem perform_get {next : σ → α → Option σ}
    (follows : ∀ s label s', next s label = some s' → step s label s') {s : σ} {labels : List α}
    (done : (perform next s labels).isSome) : Run step s labels ((perform next s labels).get done) :=
  perform_run follows (Option.some_get done).symm

end Deon.Library
