import Deon.Library.Run
import Deon.Net.EpollPoller

/-! `EventLoop`. The loop thread runs `loop`, one step at a time; any number of other
threads call `queueInLoop` and `quit`. A call of `queueInLoop` pushes under the mutex and
then decides whether to write to the eventfd, so that the loop can run in between. The
functors and the callbacks of the other channels may call `queueInLoop` and the poller. -/
namespace Deon.Net
open Library

/-- The wakeup channel of the loop, and the channels of sockets. -/
inductive Channel
  | wakeup
  | socket (id : Nat)
  deriving DecidableEq, Repr

/-- A call of `queueInLoop`. -/
structure Call (Functor : Type) where
  ticket : Nat
  functor : Functor

/-- Where the loop thread stands. -/
inductive Pc
  /-- before `loop()` -/
  | created
  /-- at the test of `quit_` -/
  | testing
  /-- in `epoll_wait` -/
  | polling
  /-- at the next active channel -/
  | handling
  /-- in `handleRead`, and then in `handleRegister`, of the wakeup channel -/
  | reading
  | registering
  /-- in a callback of another channel -/
  | callback
  /-- in front of `callingPendingFunctors_ = true`, and then of the swap -/
  | entering
  | swapping
  /-- at the next functor of the batch, and in it -/
  | running
  | functor
  /-- in front of `callingPendingFunctors_ = false` -/
  | leaving
  /-- behind `loop()` -/
  | returned
  deriving DecidableEq, Repr

structure EventLoop (Functor : Type) where
  looping : Bool
  quit : Bool
  callingPendingFunctors : Bool
  pendingFunctors : List (Call Functor)
  poller : EpollPoller Channel
  wakeupFd : Nat
  activeChannels : List Channel
  /-- the functors of the batch that are still to run -/
  functors : List (Call Functor)
  pc : Pc
  /-- the counter of the eventfd, and whether `epoll_wait` has an event to report for it -/
  counter : Nat
  ready : Bool
  /-- the ticket of the next call -/
  fresh : Nat
  /-- the calls of other threads that have pushed and are still to write to the eventfd -/
  inFlight : List Nat
  /-- the call that the loop thread itself is in -/
  own : Option Nat
  /-- the threads in `quit` that are still to write to the eventfd -/
  quitting : Nat

variable {Functor : Type}

/-- `EventLoop::EventLoop`. -/
def construct (wakeupFd : Nat) : EventLoop Functor where
  looping := false
  quit := false
  callingPendingFunctors := false
  pendingFunctors := []
  poller := EpollPoller.empty.addChannel .wakeup wakeupFd true
  wakeupFd := wakeupFd
  activeChannels := []
  functors := []
  pc := .created
  counter := 0
  ready := false
  fresh := 0
  inFlight := []
  own := none
  quitting := 0

namespace EventLoop

/-- A write to the eventfd makes it ready, if it is registered. -/
def wakeup (s : EventLoop Functor) : EventLoop Functor :=
  {s with counter := s.counter + 1,ready := s.ready || s.poller.interest s.wakeupFd}

def handleRead (s : EventLoop Functor) : EventLoop Functor := {s with counter := 0,ready := false}

/-- `handleRegister`; a descriptor that comes into the interest list is ready if there is
something to read. -/
def handleRegister (s : EventLoop Functor) : EventLoop Functor :=
  {s with
    poller := s.poller.addChannel .wakeup s.wakeupFd true
    ready := s.ready || (!s.poller.interest s.wakeupFd && 0 < s.counter)}

/-- The locked part of `queueInLoop`. -/
def pushBack (functor : Functor) (s : EventLoop Functor) : EventLoop Functor :=
  {s with pendingFunctors := s.pendingFunctors ++ [⟨s.fresh,functor⟩],fresh := s.fresh + 1}

/-- The rest of a `queueInLoop` that the loop thread calls. -/
def finishQueueInLoop (s : EventLoop Functor) : EventLoop Functor :=
  if s.callingPendingFunctors then {s.wakeup with own := none} else {s with own := none}

/-- The next step of `loop`, where it does not depend on the kernel or on what a functor or
a callback does. -/
def advance (s : EventLoop Functor) : Option (EventLoop Functor) :=
  match s.pc with
  | .created =>
    if s.looping then none else some {s with looping := true,quit := false,pc := .testing}
  | .testing =>
    if s.quit then some {s with looping := false,pc := .returned}
    else some {s with activeChannels := [],pc := .polling}
  | .polling => none
  | .handling =>
    match s.activeChannels with
    | [] => some {s with pc := .entering}
    | .wakeup :: rest => some {s with activeChannels := rest,pc := .reading}
    | .socket _ :: rest => some {s with activeChannels := rest,pc := .callback}
  | .reading => some {s.handleRead with pc := .registering}
  | .registering => some {s.handleRegister with pc := .handling}
  | .callback => some {s with pc := .handling}
  | .entering => some {s with callingPendingFunctors := true,pc := .swapping}
  | .swapping => some {s with functors := s.pendingFunctors,pendingFunctors := [],pc := .running}
  | .running =>
    match s.functors with
    | [] => some {s with pc := .leaving}
    | _ :: rest => some {s with functors := rest,pc := .functor}
  | .functor => some {s with pc := .running}
  | .leaving => some {s with callingPendingFunctors := false,pc := .testing}
  | .returned => none

/-- The loop thread is in code of its users. -/
def Inside (s : EventLoop Functor) : Prop := s.own = none ∧ (s.pc = .callback ∨ s.pc = .functor)

instance (s : EventLoop Functor) : Decidable s.Inside := by unfold Inside; infer_instance

end EventLoop

inductive Action (Functor : Type)
  /-- another thread calls `queueInLoop`: the push, and the write to the eventfd -/
  | push (functor : Functor)
  | wakeup (ticket : Nat)
  /-- another thread calls `quit` -/
  | quit
  | quitWakeup
  /-- the loop thread goes on -/
  | loop
  /-- `epoll_wait` returns, with events or without -/
  | poll (events : List Nat)
  /-- a functor or a callback calls `queueInLoop`, `quit`, or the poller for its channel -/
  | queue (functor : Functor)
  | quitInLoop
  | control (operation : Operation) (id fd : Nat) (granted : Bool)

open EventLoop in
/-- One step; `none` when the action cannot be taken, or ends the program. -/
def step (s : EventLoop Functor) : Action Functor → Option (EventLoop Functor)
  | .push functor => some {s.pushBack functor with inFlight := s.inFlight ++ [s.fresh]}
  | .wakeup ticket =>
    if ticket ∈ s.inFlight then some {s.wakeup with inFlight := s.inFlight.erase ticket} else none
  | .quit => some {s with quit := true,quitting := s.quitting + 1}
  | .quitWakeup =>
    if 0 < s.quitting then some {s.wakeup with quitting := s.quitting - 1} else none
  | .loop => if s.own = none then s.advance else some s.finishQueueInLoop
  | .poll events =>
    if s.own = none ∧ s.pc = .polling ∧ events.Nodup ∧ (∀ fd ∈ events, s.poller.interest fd = true) ∧
        (s.wakeupFd ∈ events → s.ready = true) then do
      let channels ← s.poller.fillActiveChannels events
      return {s with
        activeChannels := s.activeChannels ++ channels
        ready := s.ready && !(s.wakeupFd ∈ events)
        pc := .handling}
    else none
  | .queue functor => if s.Inside then some {s.pushBack functor with own := some s.fresh} else none
  | .quitInLoop => if s.Inside then some {s with quit := true} else none
  | .control operation id fd granted =>
    if (s.Inside ∨ s.pc = .created) ∧ fd ≠ s.wakeupFd then
      match operation with
      | .add => some {s with poller := s.poller.addChannel (.socket id) fd granted}
      | .mod => some {s with poller := s.poller.updateChannel fd granted}
      | .del => do
        let poller ← s.poller.deleteChannel (.socket id) fd
        return {s with poller := poller}
    else none

def Steps (s : EventLoop Functor) (action : Action Functor) (s' : EventLoop Functor) : Prop :=
  step s action = some s'

/-- A call of the poller for a socket changes nothing but the poller. It leaves the wakeup
descriptor alone, and maps no descriptor to the wakeup channel. -/
theorem control_cases {s s' : EventLoop Functor} {operation : Operation} {id fd : Nat} {granted : Bool}
    (stepped : step s (.control operation id fd granted) = some s') :
    ∃ poller : EpollPoller Channel, s' = {s with poller := poller} ∧
      poller.interest s.wakeupFd = s.poller.interest s.wakeupFd ∧
      poller.channels s.wakeupFd = s.poller.channels s.wakeupFd ∧
      ∀ other, poller.channels other = some (some .wakeup) →
        s.poller.channels other = some (some .wakeup) := by
  obtain ⟨⟨_,apart⟩,done⟩ := Option.ite_none_right_eq_some.mp stepped
  cases operation with
  | add =>
    cases done
    exact ⟨_,rfl,EpollPoller.update_entered rfl apart.symm (by simp)⟩
  | mod =>
    cases done
    exact ⟨_,rfl,(EpollPoller.update_other apart.symm).1,(EpollPoller.update_other apart.symm).2,
      fun _ => EpollPoller.update_channels⟩
  | del =>
    obtain ⟨poller,removed,done⟩ := Option.bind_eq_some_iff.mp done
    cases done
    obtain ⟨_,removed⟩ := Option.ite_none_right_eq_some.mp removed
    cases removed
    exact ⟨_,rfl,EpollPoller.update_entered rfl apart.symm (by simp)⟩

end Deon.Net
