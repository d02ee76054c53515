import Mathlib.Data.Set.Insert
import Mathlib.Logic.Relation

/-! Senders that leave an item and then ring, and one receiver that collects everything
that was left and sleeps while the bell is quiet. An item is answered for as long as its
sender is still to ring, the bell has rung, or the receiver is on its way. -/
namespace Deon.Library

structure Doorbell (Item : Type*) where
  left : Set Item
  /-- the items whose sender is still to ring -/
  silent : Set Item
  rung : Bool
  /-- the receiver collects before it sleeps -/
  coming : Bool

namespace Doorbell

variable {Item : Type*}

inductive Step (d : Doorbell Item) : Doorbell Item → Prop
  | idle : Step d d
  | leave (item : Item) :
      Step d {d with left := insert item d.left,silent := insert item d.silent}
  | ring (silent : Set Item) : Step d {d with silent := silent,rung := true}
  /-- Nobody has to ring for a receiver that is coming. -/
  | skip (silent : Set Item) (coming : d.coming = true) : Step d {d with silent := silent}
  /-- The receiver wakes up, whether the bell has rung or not. -/
  | come (rung : Bool) : Step d {d with rung := rung,coming := true}
  | collect : Step d {d with left := ∅,coming := false}

def Answered (d : Doorbell Item) : Prop :=
  ∀ item ∈ d.left, item ∈ d.silent ∨ d.rung = true ∨ d.coming = true

theorem Answered.step {d d' : Doorbell Item} (answered : Answered d) (step : Step d d') :
    Answered d' := by
  intro item held
  cases step with
  | idle => exact answered item held
  | leave fresh =>
    rcases held with rfl | held
    · exact .inl (Set.mem_insert _ _)
    · exact (answered item held).imp_left (Set.mem_insert_of_mem _)
  | ring silent => exact .inr (.inl rfl)
  | skip silent coming => exact .inr (.inr coming)
  | come rung => exact .inr (.inr rfl)
  | collect => exact held.elim

theorem Answered.steps {d d' : Doorbell Item} (answered : Answered d)
    (steps : Relation.ReflTransGen Step d d') : Answered d' := by
  induction steps with
  | refl => exact answered
  | tail _ last ih => exact ih.step last

/-- While the receiver sleeps and the bell is quiet, everything that was left is silent. -/
theorem Answered.asleep {d : Doorbell Item} (answered : Answered d) (quiet : d.rung = false)
    (asleep : d.coming = false) : d.left ⊆ d.silent := by
  intro item held
  have found := answered item held
  rw [quiet,asleep] at found
  simpa using found

end Doorbell

end Deon.Library
