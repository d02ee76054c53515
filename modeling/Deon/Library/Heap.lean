import Mathlib.Data.List.MinMax
import Mathlib.Data.List.Perm.Basic
import Mathlib.Data.List.Permutation

/-! Priority queues as bags: `top` is an element that `precedes` puts behind no other. A loop
that pops the top as long as it satisfies a property that is closed towards the top takes out
just the elements that satisfy it. -/
namespace Deon.Library

variable {α β : Type*} {precedes : α → α → Bool}

/-- A choice of a top element of every bag that is not empty: `precedes x y` says that `y`
comes out before `x`. -/
structure Heap (precedes : α → α → Bool) where
  top : List α → Option α
  member : ∀ {queue x}, top queue = some x → x ∈ queue
  maximal : ∀ {queue x}, top queue = some x → ∀ y ∈ queue, precedes x y = false
  nonempty : ∀ {queue}, top queue = none → queue = []

namespace Heap

/-- An element with the least key comes out first. -/
def least {γ : Type*} [LinearOrder γ] (key : α → γ) : Heap fun x y => decide (key y < key x) where
  top := List.argmin key
  member := List.argmin_mem
  maximal := fun found _ member => decide_eq_false (List.not_lt_of_mem_argmin member found)
  nonempty := List.argmin_eq_none.mp

variable [DecidableEq α] (heap : Heap precedes) (p : α → Bool) (effect : β → α → β)

/-- While the queue is not empty and its top satisfies `p`: it is popped, and has its effect. -/
def popWhile (queue : List α) (state : β) : List α × β :=
  match _found : heap.top queue with
  | none => (queue,state)
  | some x =>
    if p x then popWhile (queue.erase x) (effect state x) else (queue,state)
termination_by queue.length
decreasing_by
  have some := List.length_pos_of_mem (heap.member _found)
  rw [List.length_erase_of_mem (heap.member _found)]
  omega

variable {heap p effect}

theorem popWhile_empty (state : β) : heap.popWhile p effect [] state = ([],state) := by
  rw [popWhile]
  split
  · rfl
  · rename_i found
    cases heap.member found

theorem popWhile_pop {queue : List α} {x : α} (found : heap.top queue = some x) (holds : p x = true)
    (state : β) : heap.popWhile p effect queue state =
      heap.popWhile p effect (queue.erase x) (effect state x) := by
  rw [popWhile]
  split
  · rename_i none_
    cases none_.symm.trans found
  · rename_i y other
    obtain rfl := Option.some.inj (other.symm.trans found)
    exact if_pos holds

theorem popWhile_stop {queue : List α} {x : α} (found : heap.top queue = some x) (fails : ¬ p x = true)
    (state : β) : heap.popWhile p effect queue state = (queue,state) := by
  rw [popWhile]
  split
  · rfl
  · rename_i y other
    obtain rfl := Option.some.inj (other.symm.trans found)
    exact if_neg fails

/-- What the loop pops: just what satisfies `p`, each element once and with its effect. -/
theorem popWhile_pops (closed : ∀ x y, precedes x y = false → p y = true → p x = true)
    (queue : List α) (state : β) : ∃ popped : List α, popped.Perm (queue.filter p) ∧
      (heap.popWhile p effect queue state).1.Perm (queue.filter fun x => !p x) ∧
      (heap.popWhile p effect queue state).2 = popped.foldl effect state := by
  cases found : heap.top queue with
  | none =>
    obtain rfl := heap.nonempty found
    rw [popWhile_empty]
    exact ⟨[],.refl _,.refl _,rfl⟩
  | some x =>
    by_cases holds : p x = true
    · have member := heap.member found
      have parts := List.perm_cons_erase member
      have shorter : (queue.erase x).length < queue.length := by
        rw [List.length_erase_of_mem member]
        have some := List.length_pos_of_mem member
        omega
      obtain ⟨popped,pops,leaves,done⟩ := popWhile_pops closed (queue.erase x) (effect state x)
      rw [popWhile_pop found holds]
      refine ⟨x :: popped,?_,?_,done⟩
      · have first : (x :: queue.erase x).filter p = x :: (queue.erase x).filter p :=
          List.filter_cons_of_pos holds
        exact (pops.cons x).trans (first ▸ (parts.filter p).symm)
      · have first : (x :: queue.erase x).filter (fun y => !p y) =
            (queue.erase x).filter fun y => !p y := List.filter_cons_of_neg (by simp [holds])
        exact leaves.trans (first ▸ (parts.filter _).symm)
    · have fails : ∀ y ∈ queue, p y = false := by
        intro y member
        by_contra other
        exact holds (closed x y (heap.maximal found y member) (by simpa using other))
      rw [popWhile_stop found holds]
      refine ⟨[],?_,?_,rfl⟩
      · rw [List.filter_eq_nil_iff.mpr (by simpa using fails)]
      · rw [List.filter_eq_self.mpr (by simpa using fails)]
termination_by queue.length

end Heap

end Deon.Library
