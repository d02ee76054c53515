import Deon.Library.Batches
import Deon.Net.EventLoop
import Mathlib.Data.List.Nodup

/-! The functors of an `EventLoop` are run once each and in the order in which they were
pushed, and never in the batch that was taken before they were pushed. -/
namespace Deon.Net
open Library

variable {Functor : Type}

/-- The loop with its history: the calls whose functors were pushed and those whose functors
were run, both with the number of swaps so far. -/
structure Traced (Functor : Type) where
  loop : EventLoop Functor
  pushed : List (Call Functor × Nat)
  executed : List (Call Functor × Nat)
  swaps : Nat

def Traced.start (wakeupFd : Nat) : Traced Functor := ⟨construct wakeupFd,[],[],0⟩

inductive Effect (Functor : Type)
  | none
  | push (call : Call Functor)
  | swap
  | run (call : Call Functor)

def effect (s : EventLoop Functor) : Action Functor → Effect Functor
  | .push functor | .queue functor => .push ⟨s.fresh,functor⟩
  | .loop =>
    if s.own = Option.none then
      match s.pc, s.functors with
      | .swapping, _ => .swap
      | .running, call :: _ => .run call
      | _, _ => .none
    else .none
  | _ => .none

def Traced.record (t : Traced Functor) (loop : EventLoop Functor) : Effect Functor → Traced Functor
  | .none => {t with loop := loop}
  | .push call => {t with loop := loop,pushed := t.pushed ++ [(call,t.swaps)]}
  | .swap => {t with loop := loop,swaps := t.swaps + 1}
  | .run call => {t with loop := loop,executed := t.executed ++ [(call,t.swaps)]}

def Traced.step (t : Traced Functor) (action : Action Functor) : Option (Traced Functor) :=
  (Net.step t.loop action).map fun loop => t.record loop (effect t.loop action)

def Traced.Steps (t : Traced Functor) (action : Action Functor) (t' : Traced Functor) : Prop :=
  t.step action = some t'

/-- The two vectors of the loop hold what the queue of batches holds. -/
structure Holds (s : EventLoop Functor) (b : Batches (Call Functor)) : Prop where
  batch : s.functors = b.batch.map Prod.fst
  pending : s.pendingFunctors = b.pending.map Prod.fst
  working : s.functors ≠ [] → s.pc = .running ∨ s.pc = .functor
  tickets : b.pushed.map (fun one => one.1.ticket) = List.range s.fresh

/-- What a step does to the queue of batches. -/
def Effect.apply (b : Batches (Call Functor)) : Effect Functor → Batches (Call Functor)
  | .none => b
  | .push call => b.push call
  | .swap => b.take
  | .run _ =>
    match b.batch with
    | [] => b
    | item :: rest => b.next item rest

theorem Holds.advance {s s' : EventLoop Functor} {b : Batches (Call Functor)} (holds : Holds s b)
    (free : s.own = none) (stepped : s.advance = some s') :
    Holds s' ((effect s .loop).apply b) := by
  obtain ⟨batch,pending,working,tickets⟩ := holds
  have outside : s.pc ≠ .running ∧ s.pc ≠ .functor → s.functors = [] := by
    rintro ⟨notRunning,notFunctor⟩
    by_contra some
    rcases working some with here | here
    · exact notRunning here
    · exact notFunctor here
  unfold EventLoop.advance at stepped
  unfold effect
  rw [if_pos free]
  cases here : s.pc <;> simp only [here,reduceCtorEq] at stepped outside
  case swapping =>
    cases stepped
    exact ⟨pending,rfl,fun _ => .inl rfl,tickets⟩
  case running =>
    cases held : s.functors
    case nil =>
      rw [held] at stepped batch
      cases stepped
      exact ⟨batch,pending,fun some => absurd rfl some,tickets⟩
    case cons call rest =>
      rw [held] at stepped
      cases stepped
      cases queued : b.batch with
      | nil => simp [held,queued] at batch
      | cons item later =>
        rw [held,queued,List.map_cons,List.cons.injEq] at batch
        simp only [Effect.apply,queued]
        exact ⟨batch.2,pending,fun _ => .inr rfl,tickets⟩
  case functor =>
    cases stepped
    exact ⟨batch,pending,fun _ => .inl rfl,tickets⟩
  -- everywhere else the two vectors stay, and the local one is empty
  all_goals
    have none := outside ⟨by decide,by decide⟩
    try split at stepped
    all_goals
      cases stepped <;> exact ⟨batch,pending,fun some => absurd none some,tickets⟩

theorem Holds.push {s : EventLoop Functor} {b : Batches (Call Functor)} (holds : Holds s b)
    (functor : Functor) : Holds (s.pushBack functor) (b.push ⟨s.fresh,functor⟩) where
  batch := holds.batch
  pending := by simp [EventLoop.pushBack,Batches.push,holds.pending]
  working := holds.working
  tickets := by simp [EventLoop.pushBack,Batches.push,holds.tickets,List.range_succ]

theorem Holds.step {s s' : EventLoop Functor} {b : Batches (Call Functor)} (holds : Holds s b)
    {action : Action Functor} (stepped : Net.step s action = some s') :
    Holds s' ((effect s action).apply b) := by
  have ⟨batch,pending,working,tickets⟩ := holds
  unfold Net.step at stepped
  cases action with
  | push functor =>
    cases stepped
    obtain ⟨batch,pending,working,tickets⟩ := holds.push functor
    exact ⟨batch,pending,working,tickets⟩
  | queue functor =>
    obtain ⟨_,done⟩ := Option.ite_none_right_eq_some.mp stepped
    cases done
    obtain ⟨batch,pending,working,tickets⟩ := holds.push functor
    exact ⟨batch,pending,working,tickets⟩
  | loop =>
    by_cases free : s.own = none
    · rw [if_pos free] at stepped
      exact holds.advance free stepped
    · rw [if_neg free] at stepped
      cases stepped
      unfold EventLoop.finishQueueInLoop effect
      rw [if_neg free]
      split <;> exact ⟨batch,pending,working,tickets⟩
  | wakeup ticket =>
    obtain ⟨_,done⟩ := Option.ite_none_right_eq_some.mp stepped
    cases done
    exact ⟨batch,pending,working,tickets⟩
  | quit =>
    cases stepped
    exact ⟨batch,pending,working,tickets⟩
  | quitWakeup =>
    obtain ⟨_,done⟩ := Option.ite_none_right_eq_some.mp stepped
    cases done
    exact ⟨batch,pending,working,tickets⟩
  | poll events =>
    obtain ⟨⟨_,here,_⟩,done⟩ := Option.ite_none_right_eq_some.mp stepped
    obtain ⟨channels,_,done⟩ := Option.bind_eq_some_iff.mp done
    cases done
    refine ⟨batch,pending,fun some => ?_,tickets⟩
    rcases working some with other | other <;> simp [here] at other
  | quitInLoop =>
    obtain ⟨_,done⟩ := Option.ite_none_right_eq_some.mp stepped
    cases done
    exact ⟨batch,pending,working,tickets⟩
  | control operation id fd granted =>
    obtain ⟨poller,rfl,_⟩ := control_cases stepped
    exact ⟨batch,pending,working,tickets⟩

/-- A batch is taken when the one before it is finished, and its first functor is run. -/
theorem Holds.first {s : EventLoop Functor} {b : Batches (Call Functor)} (holds : Holds s b)
    (action : Action Functor) : (effect s action = .swap → b.batch = []) ∧
      ∀ call, effect s action = .run call → ∃ stamp rest, b.batch = (call,stamp) :: rest := by
  unfold effect
  cases action with
  | loop =>
    dsimp only
    split
    · split
      · rename_i here
        refine ⟨fun _ => ?_,by simp⟩
        by_contra some
        rcases holds.working (by simpa [holds.batch] using some) with other | other <;>
          simp [here] at other
      · rename_i call rest here held
        refine ⟨by simp,fun other same => ?_⟩
        obtain rfl := Effect.run.inj same
        have batch := holds.batch
        rw [held] at batch
        obtain ⟨item,later,queued,rfl,rfl⟩ := List.map_eq_cons_iff.mp batch.symm
        exact ⟨item.2,later,queued⟩
      · simp
    · simp
  | _ => simp

/-- The history is that of the queue of batches. -/
structure Records (t : Traced Functor) (b : Batches (Call Functor)) : Prop where
  holds : Holds t.loop b
  ordered : b.Ordered
  pushed : t.pushed = b.pushed
  executed : t.executed = b.done.map fun one => (one.1.1,one.2)
  swaps : t.swaps = b.taken

theorem Records.step {t t' : Traced Functor} {b : Batches (Call Functor)} (records : Records t b)
    {action : Action Functor} (stepped : t.Steps action t') :
    Records t' ((effect t.loop action).apply b) := by
  obtain ⟨loop,moved,rfl⟩ := Option.map_eq_some_iff.mp stepped
  obtain ⟨holds,ordered,pushed,executed,swaps⟩ := records
  have next := holds.step moved
  have ⟨taken,ran⟩ := holds.first action
  cases done : effect t.loop action with
  | none =>
    rw [done] at next
    exact ⟨next,ordered,pushed,executed,swaps⟩
  | push call =>
    rw [done] at next
    refine ⟨next,ordered.push call,?_,executed,swaps⟩
    simp only [Traced.record,Effect.apply,Batches.push,pushed,swaps]
  | swap =>
    rw [done] at next
    refine ⟨next,ordered.take (taken done),pushed,executed,?_⟩
    simp only [Traced.record,Effect.apply,Batches.take,swaps]
  | run call =>
    rw [done] at next
    obtain ⟨stamp,rest,held⟩ := ran call done
    simp only [Effect.apply,held] at next ⊢
    refine ⟨next,ordered.next held,pushed,?_,swaps⟩
    simp [Traced.record,Batches.next,executed,swaps]

theorem start_records (wakeupFd : Nat) :
    Records (Traced.start wakeupFd : Traced Functor) Batches.empty where
  holds := ⟨rfl,rfl,fun some => absurd rfl some,rfl⟩
  ordered := Batches.empty_ordered
  pushed := rfl
  executed := rfl
  swaps := rfl

/-- Every functor that was pushed was run, is left of the batch, or is pending, each once and
in the order of the pushes; and what was pushed with `n` batches taken, as by a functor of
batch `n`, is run in a later one. -/
theorem functors_in_order {wakeupFd : Nat} {t : Traced Functor}
    (reached : Reachable Traced.Steps (Traced.start wakeupFd) t) :
    t.executed.map Prod.fst ++ t.loop.functors ++ t.loop.pendingFunctors =
        t.pushed.map Prod.fst ∧
      (t.pushed.map fun one => one.1.ticket).Nodup ∧
      ∀ call n k, (call,n) ∈ t.pushed → (call,k) ∈ t.executed → n < k := by
  obtain ⟨b,holds,ordered,pushed,executed,swaps⟩ : ∃ b, Records t b :=
    reached.invariant (fun t => ∃ b, Records t b) ⟨_,start_records wakeupFd⟩
      (fun _ _ _ ⟨_,records⟩ stepped => ⟨_,records.step stepped⟩)
  have distinct : (t.pushed.map fun one => one.1.ticket).Nodup := by
    rw [pushed,holds.tickets]
    exact List.nodup_range
  refine ⟨?_,distinct,?_⟩
  · rw [executed,pushed,holds.batch,holds.pending,← ordered.conserved]
    simp
  · intro call n k inside ran
    rw [executed] at ran
    obtain ⟨one,member,same⟩ := List.mem_map.mp ran
    obtain ⟨rfl,rfl⟩ := Prod.mk.inj same
    have held : one.1 ∈ t.pushed := by
      rw [pushed,← ordered.conserved]
      simp only [List.mem_append,List.mem_map]
      exact .inl (.inl ⟨one,member,rfl⟩)
    have same : (one.1.1,n) = one.1 :=
      List.inj_on_of_nodup_map distinct inside held rfl
    have later := ordered.later one member
    rw [← same] at later
    exact later

/-- Another thread pushes a functor before the swap and one behind it, and the first one
queues a third while it runs. -/
def sampleActions : List (Action Nat) :=
  [.loop,.loop,.push 1,.wakeup 0,.poll [7]] ++ List.replicate 6 .loop ++ [.push 2,.loop,.queue 3]

theorem functors_in_order_sample : ∃ t : Traced Nat,
    perform Traced.step (Traced.start 7) sampleActions = some t ∧
      (t.executed.map Prod.fst ++ t.loop.functors ++ t.loop.pendingFunctors =
          t.pushed.map Prod.fst ∧
        (t.pushed.map fun one => one.1.ticket).Nodup ∧
        ∀ call n k, (call,n) ∈ t.pushed → (call,k) ∈ t.executed → n < k) :=
  ⟨_,rfl,@functors_in_order Nat 7 _ ⟨sampleActions,perform_run (fun _ _ _ done => done) rfl⟩⟩

end Deon.Net
