import Deon.Library.Run
import Deon.Net.EventLoop

/-! `EventLoopThread`: an owner that starts a thread with an event loop and destroys it
again. The loop is handed out when `startLoop` returns, and from then on any thread may
call `quit`. -/
namespace Deon.Net
open Library

variable {Functor : Type}

/-- Where the owner stands: in `startLoop` at the test of `loop_`, behind `startLoop`, in the
destructor behind its test of `loop_`, behind its second read of it, in `quit` behind
`quit_ = true`, in `thread_.join()`; `faulted` where it calls `quit` through a pointer that is null
or to a loop that is gone, `lapsed` where the loop is gone behind `quit_ = true`. -/
inductive OwnerPc
  | constructed
  | waiting
  | started
  | leaving
  | calling
  | faulted
  | quitting
  | lapsed
  | joining
  | destroyed
  deriving DecidableEq, Repr

/-- Where `threadFunc` stands: in front of the critical section that publishes the loop, or in
`loop.loop()`, also in front of its first statement. -/
inductive ThreadPc
  | absent
  | publishing
  | looping
  | finished
  deriving DecidableEq, Repr

/-- `published` when `loop_` is not null; `completed` counts the calls of `quit` that have
returned. -/
structure EventLoopThread (Functor : Type) where
  published : Bool
  exiting : Bool
  loop : EventLoop Functor
  owner : OwnerPc
  thread : ThreadPc
  completed : Nat

namespace EventLoopThread

def init (wakeupFd : Nat) : EventLoopThread Functor :=
  ⟨false,false,construct wakeupFd,.constructed,.absent,0⟩

/-- `thread_.start()` in `startLoop`; the critical section of `threadFunc`; `startLoop` finds the
loop and returns it; a step of the loop, of its own thread or of others that call into it;
`threadFunc` behind `loop()`, where its loop goes; the destructor up to its test of `loop_`; its
second read of `loop_`; the two halves of its call of `quit`; the end of its `join`. -/
inductive Action (Functor : Type)
  | start
  | publish
  | wake
  | loop (action : Net.Action Functor)
  | finish
  | destroy
  | read
  | quit
  | quitWakeup
  | join

/-- The steps that the loop's own thread takes. -/
def ownStep : Net.Action Functor → Bool
  | .loop | .poll _ | .queue _ | .quitInLoop | .control .. => true
  | .push _ | .wakeup _ | .quit | .quitWakeup => false

/-- The steps with which a call of `quit` returns. -/
def returns : Net.Action Functor → Nat
  | .quitInLoop | .quitWakeup => 1
  | _ => 0

def handedOut (s : EventLoopThread Functor) : Bool := s.owner ≠ .constructed && s.owner ≠ .waiting

def step (s : EventLoopThread Functor) : Action Functor → Option (EventLoopThread Functor)
  | .start =>
    if s.owner = .constructed then some {s with owner := .waiting,thread := .publishing} else none
  | .publish =>
    if s.thread = .publishing then some {s with published := true,thread := .looping} else none
  | .wake =>
    if s.owner = .waiting ∧ s.published = true then some {s with owner := .started} else none
  | .loop action =>
    if (if ownStep action then s.thread = .looping else s.handedOut = true) then do
      let loop ← Net.step s.loop action
      return {s with loop := loop,completed := s.completed + returns action}
    else none
  | .finish =>
    if s.thread = .looping ∧ s.loop.pc = .returned then
      some {s with published := false,thread := .finished}
    else none
  | .destroy =>
    if s.owner = .started then
      some {s with exiting := true,owner := if s.published then .leaving else .destroyed}
    else none
  -- `loop_` is read without the mutex, also the second time
  | .read =>
    if s.owner = .leaving then some {s with owner := if s.published then .calling else .faulted}
    else none
  | .quit =>
    if s.owner = .calling then
      if s.thread = .finished then some {s with owner := .faulted}
      else some {s with loop := {s.loop with quit := true},owner := .quitting}
    else none
  | .quitWakeup =>
    if s.owner = .quitting then
      if s.thread = .finished then some {s with owner := .lapsed}
      else some {s with loop := s.loop.wakeup,owner := .joining,completed := s.completed + 1}
    else none
  | .join =>
    if s.owner = .joining ∧ s.thread = .finished then some {s with owner := .destroyed} else none

def Steps (s : EventLoopThread Functor) (action : Action Functor) (s' : EventLoopThread Functor) :
    Prop := step s action = some s'

/-- The loop thread executes `quit_ = false`. -/
def enters (s : EventLoop Functor) : Net.Action Functor → Bool
  | .loop => s.own = none && s.pc = .created
  | _ => false

/-- What a step of the loop does to the requests: it keeps them, stores one, or enters `loop()`. -/
theorem loop_quit {s s' : EventLoop Functor} {action : Net.Action Functor}
    (stepped : Net.step s action = some s') :
    (s'.quit = s.quit ∧ s'.quitting + returns action = s.quitting) ∨
      (s'.quit = true ∧ 0 < s'.quitting + returns action ∧
        (ownStep action = true → s'.quitting = s.quitting)) ∨
      (enters s action = true ∧ s'.quit = false ∧ s'.quitting + returns action = s.quitting) := by
  unfold Net.step at stepped
  cases action with
  | push functor =>
    cases stepped
    exact .inl ⟨rfl,rfl⟩
  | wakeup ticket =>
    obtain ⟨_,done⟩ := Option.ite_none_right_eq_some.mp stepped
    cases done
    exact .inl ⟨rfl,rfl⟩
  | quit =>
    cases stepped
    exact .inr (.inl ⟨rfl,Nat.succ_pos _,nofun⟩)
  | quitWakeup =>
    obtain ⟨some,done⟩ := Option.ite_none_right_eq_some.mp stepped
    cases done
    exact .inl ⟨rfl,Nat.sub_add_cancel some⟩
  | loop =>
    by_cases free : s.own = none
    · rw [if_pos free] at stepped
      unfold EventLoop.advance at stepped
      cases here : s.pc <;> simp only [here,reduceCtorEq] at stepped
      case created =>
        obtain ⟨_,done⟩ := Option.ite_none_left_eq_some.mp stepped
        cases done
        exact .inr (.inr ⟨by simp [enters,free,here],rfl,rfl⟩)
      all_goals
        try split at stepped
        all_goals
          cases stepped
          exact .inl ⟨rfl,rfl⟩
    · rw [if_neg free] at stepped
      cases stepped
      unfold EventLoop.finishQueueInLoop
      split <;> exact .inl ⟨rfl,rfl⟩
  | poll events =>
    obtain ⟨_,done⟩ := Option.ite_none_right_eq_some.mp stepped
    obtain ⟨channels,_,done⟩ := Option.bind_eq_some_iff.mp done
    cases done
    exact .inl ⟨rfl,rfl⟩
  | queue functor =>
    obtain ⟨_,done⟩ := Option.ite_none_right_eq_some.mp stepped
    cases done
    exact .inl ⟨rfl,rfl⟩
  | quitInLoop =>
    obtain ⟨_,done⟩ := Option.ite_none_right_eq_some.mp stepped
    cases done
    exact .inr (.inl ⟨rfl,Nat.succ_pos _,fun _ => rfl⟩)
  | control operation id fd granted =>
    obtain ⟨poller,rfl,_⟩ := control_cases stepped
    exact .inl ⟨rfl,rfl⟩

/-- Some call of `quit` has stored its request, whether it has returned or not. -/
def Asked (s : EventLoopThread Functor) : Prop :=
  0 < s.completed + s.loop.quitting ∨ s.owner = .quitting ∨ s.owner = .lapsed

/-- `loop()` is entered with a request already stored. -/
def forgets (s : EventLoopThread Functor) : Action Functor → Bool
  | .loop action => enters s.loop action && s.loop.quit
  | _ => false

theorem forgets_cases {s : EventLoopThread Functor} {action : Action Functor}
    (late : forgets s action = true) : action = .loop .loop ∧ s.loop.own = none ∧
      s.loop.pc = .created ∧ s.loop.quit = true := by
  cases action with
  | loop inner =>
    cases inner with
    | loop => simpa [forgets,enters,and_assoc] using late
    | _ => simp [forgets,enters] at late
  | _ => simp [forgets] at late

theorem step_asked {s s' : EventLoopThread Functor} {action : Action Functor}
    (stepped : Steps s action s') :
    (s'.loop.quit = s.loop.quit ∧ (Asked s' ↔ Asked s)) ∨ (s'.loop.quit = true ∧ Asked s') ∨
      (∃ inner, action = .loop inner ∧ enters s.loop inner = true ∧ s'.loop.quit = false ∧
        (Asked s' ↔ Asked s)) := by
  unfold Steps step at stepped
  cases action with
  | loop inner =>
    obtain ⟨_,done⟩ := Option.ite_none_right_eq_some.mp stepped
    obtain ⟨loop,moved,done⟩ := Option.bind_eq_some_iff.mp done
    cases done
    have shift : ∀ {n m k : Nat}, n + k = m → (0 < s.completed + k + n ↔ 0 < s.completed + m) := by
      intro n m k same
      omega
    rcases loop_quit moved with ⟨same,count⟩ | ⟨stored,count,_⟩ | ⟨enters,cleared,count⟩
    · exact .inl ⟨same,or_congr_left (shift count)⟩
    · refine .inr (.inl ⟨stored,.inl ?_⟩)
      dsimp only
      omega
    · exact .inr (.inr ⟨inner,rfl,enters,cleared,or_congr_left (shift count)⟩)
  | read =>
    obtain ⟨here,done⟩ := Option.ite_none_right_eq_some.mp stepped
    cases done
    exact .inl ⟨rfl,by cases s.published <;> simp [Asked,here]⟩
  | quit =>
    obtain ⟨here,done⟩ := Option.ite_none_right_eq_some.mp stepped
    by_cases gone : s.thread = .finished
    · rw [if_pos gone] at done
      cases done
      exact .inl ⟨rfl,by simp [Asked,here]⟩
    · rw [if_neg gone] at done
      cases done
      exact .inr (.inl ⟨rfl,.inr (.inl rfl)⟩)
  | quitWakeup =>
    obtain ⟨here,done⟩ := Option.ite_none_right_eq_some.mp stepped
    by_cases gone : s.thread = .finished
    · rw [if_pos gone] at done
      cases done
      exact .inl ⟨rfl,fun _ => .inr (.inl here),fun _ => .inr (.inr rfl)⟩
    · rw [if_neg gone] at done
      cases done
      refine .inl ⟨rfl,fun _ => .inr (.inl here),fun _ => .inl ?_⟩
      dsimp only
      omega
  | start =>
    obtain ⟨here,done⟩ := Option.ite_none_right_eq_some.mp stepped
    cases done
    exact .inl ⟨rfl,by simp [Asked,here]⟩
  | publish =>
    obtain ⟨_,done⟩ := Option.ite_none_right_eq_some.mp stepped
    cases done
    exact .inl ⟨rfl,Iff.rfl⟩
  | wake =>
    obtain ⟨⟨here,_⟩,done⟩ := Option.ite_none_right_eq_some.mp stepped
    cases done
    exact .inl ⟨rfl,by simp [Asked,here]⟩
  | finish =>
    obtain ⟨_,done⟩ := Option.ite_none_right_eq_some.mp stepped
    cases done
    exact .inl ⟨rfl,Iff.rfl⟩
  | destroy =>
    obtain ⟨here,done⟩ := Option.ite_none_right_eq_some.mp stepped
    cases done
    exact .inl ⟨rfl,by cases s.published <;> simp [Asked,here]⟩
  | join =>
    obtain ⟨⟨here,_⟩,done⟩ := Option.ite_none_right_eq_some.mp stepped
    cases done
    exact .inl ⟨rfl,by simp [Asked,here]⟩

/-- The thread has left its function where `quit` lapses. -/
theorem step_lapsed {s s' : EventLoopThread Functor} {action : Action Functor}
    (kept : s.owner = .lapsed → s.thread = .finished) (stepped : Steps s action s') :
    s'.owner = .lapsed → s'.thread = .finished := by
  unfold Steps step at stepped
  cases action with
  | loop inner =>
    obtain ⟨_,done⟩ := Option.ite_none_right_eq_some.mp stepped
    obtain ⟨loop,_,done⟩ := Option.bind_eq_some_iff.mp done
    cases done
    exact kept
  | finish =>
    obtain ⟨_,done⟩ := Option.ite_none_right_eq_some.mp stepped
    cases done
    exact fun _ => rfl
  | publish =>
    obtain ⟨here,done⟩ := Option.ite_none_right_eq_some.mp stepped
    cases done
    intro lapsed
    cases here.symm.trans (kept lapsed)
  | quitWakeup =>
    obtain ⟨_,done⟩ := Option.ite_none_right_eq_some.mp stepped
    split at done
    · cases done
      exact fun _ => ‹_›
    · cases done
      nofun
  | quit =>
    obtain ⟨_,done⟩ := Option.ite_none_right_eq_some.mp stepped
    split at done <;> cases done <;> nofun
  | destroy | read =>
    obtain ⟨_,done⟩ := Option.ite_none_right_eq_some.mp stepped
    cases done
    dsimp only
    split <;> nofun
  | start | wake | join =>
    obtain ⟨_,done⟩ := Option.ite_none_right_eq_some.mp stepped
    cases done
    nofun

/-- A request is stored only by calls that are counted, the owner waits in `join` behind its
own call, and others call once the loop was handed out. -/
structure Sound (s : EventLoopThread Functor) : Prop where
  asked : s.loop.quit = true → Asked s
  lapsed : s.owner = .lapsed → s.thread = .finished
  joining : s.owner = .joining → 0 < s.completed
  calling : 0 < s.loop.quitting → s.handedOut = true

theorem init_sound (wakeupFd : Nat) : Sound (init wakeupFd : EventLoopThread Functor) where
  asked := by simp [init,construct]
  lapsed := nofun
  joining := by simp [init]
  calling := by simp [init,construct]

theorem Sound.step {s s' : EventLoopThread Functor} (sound : Sound s) {action : Action Functor}
    (stepped : Steps s action s') : Sound s' := by
  have asked : s'.loop.quit = true → Asked s' := by
    intro stored
    rcases step_asked stepped with ⟨same,count⟩ | ⟨_,asked⟩ | ⟨_,_,_,cleared,_⟩
    · exact count.mpr (sound.asked (same ▸ stored))
    · exact asked
    · rw [cleared] at stored
      cases stored
  have lapsed := step_lapsed sound.lapsed stepped
  obtain ⟨_,_,joining,calling⟩ := sound
  unfold Steps EventLoopThread.step at stepped
  cases action with
  | loop inner =>
    obtain ⟨allowed,done⟩ := Option.ite_none_right_eq_some.mp stepped
    obtain ⟨loop,moved,done⟩ := Option.bind_eq_some_iff.mp done
    cases done
    refine ⟨asked,lapsed,fun here => Nat.lt_of_lt_of_le (joining here) (Nat.le_add_right ..),fun some => ?_⟩
    dsimp only at some
    cases own : ownStep inner with
    | false =>
      have out : s.handedOut = true := by simpa [own] using allowed
      exact out
    | true =>
      apply calling
      rcases loop_quit moved with ⟨_,count⟩ | ⟨_,_,same⟩ | ⟨_,_,count⟩
      · omega
      · exact same own ▸ some
      · omega
  | quitWakeup =>
    obtain ⟨here,done⟩ := Option.ite_none_right_eq_some.mp stepped
    by_cases gone : s.thread = .finished
    · rw [if_pos gone] at done
      cases done
      exact ⟨asked,lapsed,nofun,fun _ => rfl⟩
    · rw [if_neg gone] at done
      cases done
      exact ⟨asked,lapsed,fun _ => Nat.succ_pos _,fun _ => rfl⟩
  | start =>
    obtain ⟨here,done⟩ := Option.ite_none_right_eq_some.mp stepped
    cases done
    refine ⟨asked,lapsed,nofun,fun some => ?_⟩
    have out := calling some
    simp [handedOut,here] at out
  | wake =>
    obtain ⟨_,done⟩ := Option.ite_none_right_eq_some.mp stepped
    cases done
    exact ⟨asked,lapsed,nofun,fun _ => rfl⟩
  | publish =>
    obtain ⟨_,done⟩ := Option.ite_none_right_eq_some.mp stepped
    cases done
    exact ⟨asked,lapsed,joining,calling⟩
  | finish =>
    obtain ⟨_,done⟩ := Option.ite_none_right_eq_some.mp stepped
    cases done
    exact ⟨asked,lapsed,joining,calling⟩
  | destroy =>
    obtain ⟨_,done⟩ := Option.ite_none_right_eq_some.mp stepped
    cases done
    refine ⟨asked,lapsed,?_,fun _ => ?_⟩
    · cases s.published <;> simp
    · cases here : s.published <;> simp [handedOut]
  | read =>
    obtain ⟨_,done⟩ := Option.ite_none_right_eq_some.mp stepped
    cases done
    refine ⟨asked,lapsed,?_,fun _ => ?_⟩
    · cases s.published <;> simp
    · cases here : s.published <;> simp [handedOut]
  | quit =>
    obtain ⟨_,done⟩ := Option.ite_none_right_eq_some.mp stepped
    by_cases gone : s.thread = .finished
    · rw [if_pos gone] at done
      cases done
      exact ⟨asked,lapsed,nofun,fun _ => rfl⟩
    · rw [if_neg gone] at done
      cases done
      exact ⟨asked,lapsed,nofun,fun _ => rfl⟩
  | join =>
    obtain ⟨_,done⟩ := Option.ite_none_right_eq_some.mp stepped
    cases done
    exact ⟨asked,lapsed,nofun,fun _ => rfl⟩

/-- The request is kept in a run that enters `loop()` only without one. -/
theorem asked_kept {s s' : EventLoopThread Functor} {action : Action Functor}
    (kept : Asked s → s.loop.quit = true) (fine : forgets s action = false) (stepped : Steps s action s') :
    Asked s' → s'.loop.quit = true := by
  intro asked
  rcases step_asked stepped with ⟨same,count⟩ | ⟨stored,_⟩ | ⟨inner,rfl,enters,_,count⟩
  · exact same.trans (kept (count.mp asked))
  · exact stored
  · simp [forgets,enters,kept (count.mp asked)] at fine

/-- A `quit` has returned and `quit_` is false. -/
def Lost (s : EventLoopThread Functor) : Prop := 0 < s.completed ∧ s.loop.quit = false

theorem forgets_lost {s s' : EventLoopThread Functor} {action : Action Functor} (sound : Sound s)
    (late : forgets s action = true) (stepped : Steps s action s') :
    Lost s' ∨ ∃ one s'', Steps s' one s'' ∧ Lost s'' := by
  obtain ⟨rfl,free,here,stored⟩ := forgets_cases late
  obtain ⟨allowed,done⟩ := Option.ite_none_right_eq_some.mp stepped
  have loops : s.thread = .looping := allowed
  have alive : s.thread ≠ .finished := by simp [loops]
  obtain ⟨loop,moved,done⟩ := Option.bind_eq_some_iff.mp done
  simp only [Net.step,if_pos free,EventLoop.advance,here] at moved
  obtain ⟨_,entered⟩ := Option.ite_none_left_eq_some.mp moved
  cases entered
  cases done
  by_cases returned : 0 < s.completed
  · exact .inl ⟨Nat.lt_of_lt_of_le returned (Nat.le_add_right ..),rfl⟩
  · right
    rcases sound.asked stored with some | own | lapsed
    · have calling : 0 < s.loop.quitting := by omega
      have out := sound.calling calling
      exact ⟨.loop .quitWakeup,_,by
        simp only [Steps,step,ownStep,Bool.false_eq_true,if_false,handedOut] at out ⊢
        rw [if_pos out]
        simp only [Net.step,if_pos calling]
        rfl,Nat.succ_pos _,rfl⟩
    · exact ⟨.quitWakeup,_,(if_pos own).trans (if_neg alive),Nat.succ_pos _,rfl⟩
    · exact absurd (sound.lapsed lapsed) alive

/-- In every run that enters `loop()` only before a request is stored, no request is lost: the
loop polls no more once it tests `quit_`, and the owner joins a loop that knows the request.
Entering with a request stored loses it at once, or as soon as the call returns. -/
theorem quit_kept_iff {wakeupFd : Nat} {s : EventLoopThread Functor} :
    (Reachable (fun s action s' => forgets s action = false ∧ Steps s action s') (init wakeupFd) s →
      ¬ Lost s ∧ (s.owner = .joining → s.loop.quit = true) ∧
        ∀ s', 0 < s.completed → s.loop.pc = .testing → Steps s (.loop .loop) s' →
          s'.loop.pc ≠ .polling) ∧
    (Reachable Steps (init wakeupFd) s → ∀ action s', forgets s action = true → Steps s action s' →
      Lost s' ∨ ∃ one s'', Steps s' one s'' ∧ Lost s'') := by
  constructor
  · intro reached
    have ⟨sound,kept⟩ := reached.invariant (fun s => Sound s ∧ (Asked s → s.loop.quit = true))
      ⟨init_sound wakeupFd,by simp [Asked,init,construct]⟩
      (fun _ _ _ ⟨sound,kept⟩ ⟨fine,stepped⟩ => ⟨sound.step stepped,asked_kept kept fine stepped⟩)
    have stays : 0 < s.completed → s.loop.quit = true :=
      fun returned => kept (.inl (Nat.lt_of_lt_of_le returned (Nat.le_add_right ..)))
    refine ⟨?_,fun here => stays (sound.joining here),?_⟩
    · rintro ⟨returned,cleared⟩
      rw [stays returned] at cleared
      cases cleared
    · intro s' returned here stepped
      obtain ⟨_,done⟩ := Option.ite_none_right_eq_some.mp stepped
      obtain ⟨loop,moved,done⟩ := Option.bind_eq_some_iff.mp done
      cases done
      by_cases free : s.loop.own = none
      · simp only [Net.step,if_pos free,EventLoop.advance,here,stays returned,if_true] at moved
        cases moved
        simp
      · simp only [Net.step,if_neg free] at moved
        cases moved
        unfold EventLoop.finishQueueInLoop EventLoop.wakeup
        split <;> simp [here]
  · intro reached action s' late stepped
    have sound := reached.invariant Sound (init_sound wakeupFd)
      (fun _ _ _ sound stepped => sound.step stepped)
    exact forgets_lost sound late stepped

/-- The loop is entered, then the owner calls `quit`, and the loop leaves. -/
def patientActions : List (Action Unit) :=
  [.start,.publish,.wake,.loop .loop,.destroy,.read,.quit,.quitWakeup,.loop .loop]

theorem quit_kept_sample : ∃ s : EventLoopThread Unit, 0 < s.completed ∧ s.owner = .joining ∧
    s.loop.pc = .returned ∧ ¬ Lost s ∧ (s.owner = .joining → s.loop.quit = true) := by
  have run : Run (fun s action s' => forgets s action = false ∧ Steps s action s')
      (init 7 : EventLoopThread Unit) patientActions _ :=
    @perform_run _ _ _ (fun s action => if forgets s action then none else step s action)
      (fun _ _ _ done => (Option.ite_none_left_eq_some.mp done).imp_left eq_false_of_ne_true) _ _ _ rfl
  have kept := quit_kept_iff.1 ⟨patientActions,run⟩
  exact ⟨_,by decide,rfl,rfl,kept.1,kept.2.1⟩

/-- `startLoop` returns and the destructor calls `quit` before the new thread has entered
`loop()`. -/
def hastyActions : List (Action Unit) :=
  [.start,.publish,.wake,.destroy,.read,.quit,.quitWakeup,.loop .loop,.loop .loop]

/-- The owner joins a loop that is about to poll and has forgotten the request. -/
theorem quit_lost : ∃ s : EventLoopThread Unit,
    Reachable Steps (init 7) s ∧ Lost s ∧ s.owner = .joining ∧ s.loop.pc = .polling :=
  ⟨_,⟨hastyActions,perform_run (fun _ _ _ done => done) rfl⟩,⟨by decide,rfl⟩,rfl,rfl⟩

end EventLoopThread

end Deon.Net
