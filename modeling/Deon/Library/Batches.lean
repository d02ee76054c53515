import Mathlib.Data.List.Basic

/-! A queue that is emptied in batches: what is pushed while a batch is worked off waits for
a later one. Each item carries the number of batches that were taken before it was pushed,
and each item that is done also the number of its batch. -/
namespace Deon.Library

structure Batches (α : Type*) where
  pushed : List (α × Nat)
  pending : List (α × Nat)
  batch : List (α × Nat)
  done : List ((α × Nat) × Nat)
  taken : Nat

namespace Batches

variable {α : Type*}

def empty : Batches α := ⟨[],[],[],[],0⟩

def push (item : α) (b : Batches α) : Batches α :=
  {b with pushed := b.pushed ++ [(item,b.taken)],pending := b.pending ++ [(item,b.taken)]}

/-- The next batch is everything that is pending. -/
def take (b : Batches α) : Batches α := {b with batch := b.pending,pending := [],taken := b.taken + 1}

def next (item : α × Nat) (rest : List (α × Nat)) (b : Batches α) : Batches α :=
  {b with batch := rest,done := b.done ++ [(item,b.taken)]}

structure Ordered (b : Batches α) : Prop where
  conserved : b.done.map Prod.fst ++ b.batch ++ b.pending = b.pushed
  waiting : ∀ item ∈ b.pending, item.2 ≤ b.taken
  current : ∀ item ∈ b.batch, item.2 < b.taken
  later : ∀ one ∈ b.done, one.1.2 < one.2

theorem empty_ordered : Ordered (empty : Batches α) := by
  constructor <;> simp [empty]

theorem Ordered.push {b : Batches α} (ordered : Ordered b) (item : α) : Ordered (b.push item) where
  conserved := by
    simp only [Batches.push]
    rw [← List.append_assoc,ordered.conserved]
  waiting := by
    intro other member
    rcases List.mem_append.mp member with old | new
    · exact ordered.waiting other old
    · obtain rfl := List.mem_singleton.mp new
      exact Nat.le_refl _
  current := ordered.current
  later := ordered.later

theorem Ordered.take {b : Batches α} (ordered : Ordered b) (finished : b.batch = []) :
    Ordered b.take where
  conserved := by
    have same := ordered.conserved
    rw [finished,List.append_nil] at same
    simpa [Batches.take] using same
  waiting := by simp [Batches.take]
  current := fun item member => Nat.lt_succ_of_le (ordered.waiting item member)
  later := ordered.later

theorem Ordered.next {b : Batches α} (ordered : Ordered b) {item : α × Nat} {rest : List (α × Nat)}
    (held : b.batch = item :: rest) : Ordered (b.next item rest) where
  conserved := by
    have same := ordered.conserved
    rw [held] at same
    simpa [Batches.next] using same
  waiting := ordered.waiting
  current := fun other member => ordered.current other (held ▸ List.mem_cons_of_mem item member)
  later := by
    intro one member
    rcases List.mem_append.mp member with old | new
    · exact ordered.later one old
    · obtain rfl := List.mem_singleton.mp new
      exact ordered.current item (by simp [held])

end Batches

end Deon.Library
