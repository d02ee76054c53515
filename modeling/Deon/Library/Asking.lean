import Mathlib.Data.List.Basic

/-! Loops that ask their surroundings once in each turn, for the result of a system call, say.
The answers are a list; what the loop does with a part of it is what it has done so far. -/
namespace Deon.Library

variable {σ α ρ : Type*}

/-- Where a loop stands: it goes on with a state, or has returned. -/
inductive Turn (σ ρ : Type*)
  | goes (s : σ)
  | returns (result : ρ)

/-- A loop: the test in front of a turn, which may end it, and what the body does with the
answer that it asks for. -/
structure Asking (σ α ρ : Type*) where
  test : σ → Option ρ
  body : σ → α → Turn σ ρ

namespace Asking

variable (loop : Asking σ α ρ)

/-- The loop with these answers, and those that it has not asked for. -/
def run : List α → σ → Turn σ ρ × List α
  | [], s =>
    match loop.test s with
    | some result => (.returns result,[])
    | none => (.goes s,[])
  | answer :: later, s =>
    match loop.test s with
    | some result => (.returns result,answer :: later)
    | none =>
      match loop.body s answer with
      | .goes s' => run later s'
      | .returns result => (.returns result,later)

variable {loop}

theorem run_ended {s : σ} {result : ρ} (ended : loop.test s = some result) (answers : List α) :
    loop.run answers s = (.returns result,answers) := by
  cases answers with
  | nil => rw [run,ended]
  | cons answer later => rw [run,ended]

theorem run_nil {s : σ} (more : loop.test s = none) : loop.run [] s = (.goes s,[]) := by
  rw [run,more]

theorem run_goes {s s' : σ} {answer : α} (more : loop.test s = none)
    (turns : loop.body s answer = .goes s') (later : List α) :
    loop.run (answer :: later) s = loop.run later s' := by
  rw [run,more]
  dsimp only
  rw [turns]

theorem run_returns {s : σ} {answer : α} {result : ρ} (more : loop.test s = none)
    (turns : loop.body s answer = .returns result) (later : List α) :
    loop.run (answer :: later) s = (.returns result,later) := by
  rw [run,more]
  dsimp only
  rw [turns]

/-- A loop that goes on stands in front of a further turn, with no answer left. -/
theorem run_waits {answers left : List α} {s s' : σ}
    (waits : loop.run answers s = (.goes s',left)) : loop.test s' = none ∧ left = [] := by
  induction answers generalizing s with
  | nil =>
    cases ended : loop.test s with
    | some result =>
      rw [run_ended ended] at waits
      cases waits
    | none =>
      rw [run_nil ended] at waits
      cases waits
      exact ⟨ended,rfl⟩
  | cons answer later ih =>
    cases ended : loop.test s with
    | some result =>
      rw [run_ended ended] at waits
      cases waits
    | none =>
      cases turns : loop.body s answer with
      | goes next =>
        rw [run_goes ended turns] at waits
        exact ih waits
      | returns result =>
        rw [run_returns ended turns] at waits
        cases waits

/-- The answers that the loop has asked for decide where it stands. -/
theorem run_append (before later : List α) (s : σ) : loop.run (before ++ later) s =
    match loop.run before s with
    | (.goes s',_) => loop.run later s'
    | (.returns result,left) => (.returns result,left ++ later) := by
  induction before generalizing s with
  | nil =>
    cases ended : loop.test s with
    | some result => rw [List.nil_append,run_ended ended,run_ended ended]; rfl
    | none => rw [List.nil_append,run_nil ended]
  | cons answer before ih =>
    cases ended : loop.test s with
    | some result => rw [run_ended ended,run_ended ended]
    | none =>
      cases turns : loop.body s answer with
      | goes s' => rw [List.cons_append,run_goes ended turns,run_goes ended turns,ih]
      | returns result => rw [List.cons_append,run_returns ended turns,run_returns ended turns]

/-- What holds of where the loop stands, with the answers that it has asked for. -/
def Stands (inv : List α → σ → Prop) (post : List α → ρ → Prop) (asked answers : List α) :
    Turn σ ρ × List α → Prop
  | (.goes s,left) => left = [] ∧ inv (asked ++ answers) s
  | (.returns result,left) => ∃ used, answers = used ++ left ∧ post (asked ++ used) result

/-- The invariant rule: `inv` holds in front of every turn, and `post` when the loop returns. -/
theorem run_invariant (inv : List α → σ → Prop) (post : List α → ρ → Prop)
    (ends : ∀ asked s result, inv asked s → loop.test s = some result → post asked result)
    (goes : ∀ asked s answer s', inv asked s → loop.test s = none →
      loop.body s answer = .goes s' → inv (asked ++ [answer]) s')
    (returns : ∀ asked s answer result, inv asked s → loop.test s = none →
      loop.body s answer = .returns result → post (asked ++ [answer]) result)
    (answers : List α) : ∀ {asked : List α} {s : σ}, inv asked s →
      Stands inv post asked answers (loop.run answers s) := by
  induction answers with
  | nil =>
    intro asked s held
    cases ended : loop.test s with
    | some result =>
      rw [run_ended ended]
      exact ⟨[],rfl,(List.append_nil asked).symm ▸ ends asked s result held ended⟩
    | none =>
      rw [run_nil ended]
      exact ⟨rfl,(List.append_nil asked).symm ▸ held⟩
  | cons answer later ih =>
    intro asked s held
    cases ended : loop.test s with
    | some result =>
      rw [run_ended ended]
      exact ⟨[],rfl,(List.append_nil asked).symm ▸ ends asked s result held ended⟩
    | none =>
      cases turns : loop.body s answer with
      | goes s' =>
        rw [run_goes ended turns]
        have rest := ih (goes asked s answer s' held ended turns)
        generalize loop.run later s' = stands at rest
        obtain ⟨turn,left⟩ := stands
        cases turn with
        | goes s'' => exact ⟨rest.1,by simpa using rest.2⟩
        | returns result =>
          obtain ⟨used,same,holds⟩ := rest
          exact ⟨answer :: used,by rw [same]; rfl,by simpa using holds⟩
      | returns result =>
        rw [run_returns ended turns]
        exact ⟨[answer],rfl,returns asked s answer result held ended turns⟩

/-- The rule for termination: while `inv` holds, the answers in `counts` bring the loop nearer to
its end, and the others do not take it away from it. -/
theorem run_terminates_of (inv : σ → Prop) (measure : σ → Nat) (counts : α → Bool)
    (nearer : ∀ s answer s', inv s → loop.test s = none → loop.body s answer = .goes s' →
      inv s' ∧ measure s' + (if counts answer then 1 else 0) ≤ measure s)
    (answers : List α) : ∀ {s : σ}, inv s → measure s < answers.countP counts →
      ∃ result left, loop.run answers s = (.returns result,left) := by
  induction answers with
  | nil =>
    intro s _ short
    simp at short
  | cons answer later ih =>
    intro s held short
    cases ended : loop.test s with
    | some result => exact ⟨result,_,run_ended ended _⟩
    | none =>
      cases turns : loop.body s answer with
      | returns result => exact ⟨result,later,run_returns ended turns later⟩
      | goes s' =>
        rw [run_goes ended turns]
        obtain ⟨held',one⟩ := nearer s answer s' held ended turns
        apply ih held'
        rw [List.countP_cons] at short
        omega

theorem run_terminates (measure : σ → Nat) (counts : α → Bool)
    (nearer : ∀ s answer s', loop.test s = none → loop.body s answer = .goes s' →
      measure s' + (if counts answer then 1 else 0) ≤ measure s)
    (answers : List α) {s : σ} (short : measure s < answers.countP counts) :
    ∃ result left, loop.run answers s = (.returns result,left) :=
  run_terminates_of (fun _ => True) measure counts
    (fun s answer s' _ more turns => ⟨trivial,nearer s answer s' more turns⟩) answers trivial short

/-- A loop that returns does so by the answers that it has used. -/
theorem run_used {answers left : List α} {s : σ} {result : ρ}
    (returned : loop.run answers s = (.returns result,left)) :
    ∃ used, answers = used ++ left ∧ loop.run used s = (.returns result,[]) := by
  induction answers generalizing s with
  | nil =>
    cases ended : loop.test s with
    | some early =>
      rw [run_ended ended] at returned
      cases returned
      exact ⟨[],rfl,run_ended ended []⟩
    | none =>
      rw [run_nil ended] at returned
      cases returned
  | cons answer later ih =>
    cases ended : loop.test s with
    | some early =>
      rw [run_ended ended] at returned
      cases returned
      exact ⟨[],rfl,run_ended ended []⟩
    | none =>
      cases turns : loop.body s answer with
      | goes s' =>
        rw [run_goes ended turns] at returned
        obtain ⟨used,same,used_returned⟩ := ih returned
        refine ⟨answer :: used,by rw [same]; rfl,?_⟩
        rw [run_goes ended turns,used_returned]
      | returns early =>
        rw [run_returns ended turns] at returned
        cases returned
        exact ⟨[answer],rfl,run_returns ended turns []⟩

end Asking

end Deon.Library
