import Deon.Library.Doorbell
import Deon.Net.EventLoop

/-! No wakeup of an `EventLoop` is lost. The eventfd is a doorbell: a call of `queueInLoop`
leaves its functor and rings, unless it comes from a callback, behind which the loop takes
the functors before it polls again. -/
namespace Deon.Net
open Library

variable {Functor : Type}

/-- The loop thread takes the pending functors before it polls again. -/
def beforeSwap : Pc → Bool
  | .handling | .reading | .registering | .callback | .entering | .swapping => true
  | _ => false

/-- `callingPendingFunctors_` is set. -/
def calling : Pc → Bool
  | .swapping | .running | .functor | .leaving => true
  | _ => false

structure Wired (s : EventLoop Functor) : Prop where
  registered : s.poller.interest s.wakeupFd = true
  own : s.own ≠ none → s.pc = .callback ∨ s.pc = .functor
  flagged : calling s.pc = true → s.callingPendingFunctors = true

/-- The loop as a doorbell for the tickets of the calls. -/
def bell (s : EventLoop Functor) : Doorbell Nat where
  left := {ticket | ticket ∈ s.pendingFunctors.map Call.ticket}
  silent := {ticket | ticket ∈ s.inFlight ∨ s.own = some ticket}
  rung := s.ready
  coming := beforeSwap s.pc

theorem addChannel_interest (p : EpollPoller Channel) (channel : Channel) (fd : Nat) (granted : Bool) :
    (p.addChannel channel fd granted).interest fd = (p.interest fd || granted) := by
  unfold EpollPoller.addChannel EpollPoller.update epollCtl
  cases held : p.interest fd <;> cases granted <;> simp [held]

theorem construct_wired (wakeupFd : Nat) : Wired (construct wakeupFd : EventLoop Functor) where
  registered := by
    simp only [construct]
    rw [addChannel_interest,Bool.or_true]
  own := by simp [construct]
  flagged := by simp [construct,calling]

theorem wakeup_ready {s : EventLoop Functor} (registered : s.poller.interest s.wakeupFd = true) :
    s.wakeup = {s with counter := s.counter + 1,ready := true} := by
  unfold EventLoop.wakeup
  rw [registered,Bool.or_true]

theorem bell_idle {s s' : EventLoop Functor} (pending : s'.pendingFunctors = s.pendingFunctors)
    (inFlight : s'.inFlight = s.inFlight) (own : s'.own = s.own) (ready : s'.ready = s.ready)
    (coming : beforeSwap s'.pc = beforeSwap s.pc) : Doorbell.Step (bell s) (bell s') := by
  have same : bell s' = bell s := by
    simp only [bell,pending,inFlight,own,ready,coming]
  rw [same]
  exact .idle

theorem bell_come {s s' : EventLoop Functor} (pending : s'.pendingFunctors = s.pendingFunctors)
    (inFlight : s'.inFlight = s.inFlight) (own : s'.own = s.own) (coming : beforeSwap s'.pc = true) :
    Doorbell.Step (bell s) (bell s') := by
  have same : bell s' = {bell s with rung := s'.ready,coming := true} := by
    simp only [bell,pending,inFlight,own,coming]
  rw [same]
  exact .come s'.ready

theorem Wired.finish {s : EventLoop Functor} (wired : Wired s) {ticket : Nat}
    (held : s.own = some ticket) :
    Wired s.finishQueueInLoop ∧ Doorbell.Step (bell s) (bell s.finishQueueInLoop) := by
  obtain ⟨registered,own,flagged⟩ := wired
  have inside := own (by simp [held])
  unfold EventLoop.finishQueueInLoop
  rw [wakeup_ready registered]
  by_cases flag : s.callingPendingFunctors = true
  · rw [if_pos flag]
    exact ⟨⟨registered,fun other => absurd rfl other,fun _ => flag⟩,
      .ring {ticket | ticket ∈ s.inFlight ∨ none = some ticket}⟩
  · rw [if_neg flag]
    have here : s.pc = .callback := by
      apply inside.resolve_right
      intro functor
      exact flag (flagged (by simp [functor,calling]))
    refine ⟨⟨registered,fun other => absurd rfl other,flagged⟩,?_⟩
    exact .skip {ticket | ticket ∈ s.inFlight ∨ none = some ticket} (by simp [bell,here,beforeSwap])

theorem Wired.advance {s s' : EventLoop Functor} (wired : Wired s) (free : s.own = none)
    (stepped : s.advance = some s') : Wired s' ∧ Doorbell.Step (bell s) (bell s') := by
  obtain ⟨registered,_,flagged⟩ := wired
  have idle : ∀ pc, s.own ≠ none → pc = Pc.callback ∨ pc = Pc.functor :=
    fun _ other => absurd free other
  unfold EventLoop.advance at stepped
  cases here : s.pc <;> simp only [here,reduceCtorEq] at stepped
  case created =>
    obtain ⟨_,done⟩ := Option.ite_none_left_eq_some.mp stepped
    cases done
    exact ⟨⟨registered,idle _,by simp [calling]⟩,bell_idle rfl rfl rfl rfl (by rw [here]; rfl)⟩
  case testing =>
    split_ifs at stepped <;> cases stepped
    · exact ⟨⟨registered,idle _,by simp [calling]⟩,bell_idle rfl rfl rfl rfl (by rw [here]; rfl)⟩
    · exact ⟨⟨registered,idle _,by simp [calling]⟩,bell_idle rfl rfl rfl rfl (by rw [here]; rfl)⟩
  case handling =>
    split at stepped <;> cases stepped
    · exact ⟨⟨registered,idle _,by simp [calling]⟩,bell_come rfl rfl rfl rfl⟩
    · exact ⟨⟨registered,idle _,by simp [calling]⟩,bell_come rfl rfl rfl rfl⟩
    · exact ⟨⟨registered,idle _,by simp [calling]⟩,bell_come rfl rfl rfl rfl⟩
  case reading =>
    cases stepped
    exact ⟨⟨registered,idle _,by simp [calling]⟩,bell_come rfl rfl rfl rfl⟩
  case registering =>
    cases stepped
    refine ⟨⟨?_,idle _,by simp [calling]⟩,bell_come rfl rfl rfl rfl⟩
    simp only [EventLoop.handleRegister]
    rw [addChannel_interest,Bool.or_true]
  case callback =>
    cases stepped
    exact ⟨⟨registered,idle _,by simp [calling]⟩,bell_come rfl rfl rfl rfl⟩
  case entering =>
    cases stepped
    exact ⟨⟨registered,idle _,fun _ => rfl⟩,bell_come rfl rfl rfl rfl⟩
  case swapping =>
    cases stepped
    refine ⟨⟨registered,idle _,fun _ => flagged (by simp [here,calling])⟩,?_⟩
    have same : bell {s with functors := s.pendingFunctors,pendingFunctors := [],pc := .running} =
        {bell s with left := ∅,coming := false} := by
      simp [bell,beforeSwap]
    rw [same]
    exact .collect
  case running =>
    have flag := flagged (by simp [here,calling])
    split at stepped <;> cases stepped
    · exact ⟨⟨registered,idle _,fun _ => flag⟩,bell_idle rfl rfl rfl rfl (by rw [here]; rfl)⟩
    · exact ⟨⟨registered,idle _,fun _ => flag⟩,bell_idle rfl rfl rfl rfl (by rw [here]; rfl)⟩
  case functor =>
    cases stepped
    exact ⟨⟨registered,idle _,fun _ => flagged (by simp [here,calling])⟩,
      bell_idle rfl rfl rfl rfl (by rw [here]; rfl)⟩
  case leaving =>
    cases stepped
    exact ⟨⟨registered,idle _,by simp [calling]⟩,bell_idle rfl rfl rfl rfl (by rw [here]; rfl)⟩

theorem bell_push {s s' : EventLoop Functor} {functor : Functor}
    (pending : s'.pendingFunctors = s.pendingFunctors ++ [⟨s.fresh,functor⟩])
    (silent : ∀ ticket, ticket ∈ s'.inFlight ∨ s'.own = some ticket ↔
      ticket = s.fresh ∨ ticket ∈ s.inFlight ∨ s.own = some ticket)
    (ready : s'.ready = s.ready) (here : s'.pc = s.pc) : Doorbell.Step (bell s) (bell s') := by
  have same : bell s' = {bell s with
      left := insert s.fresh (bell s).left
      silent := insert s.fresh (bell s).silent} := by
    simp only [bell,pending,silent,ready,here,Doorbell.mk.injEq,and_true]
    constructor
    · ext ticket
      simp [or_comm]
    · rfl
  rw [same]
  exact .leave s.fresh

theorem Wired.step {s s' : EventLoop Functor} (wired : Wired s) {action : Action Functor}
    (stepped : Steps s action s') : Wired s' ∧ Doorbell.Step (bell s) (bell s') := by
  have ⟨registered,own,flagged⟩ := wired
  unfold Steps Net.step at stepped
  cases action with
  | push functor =>
    cases stepped
    refine ⟨⟨registered,own,flagged⟩,bell_push rfl (fun ticket => ?_) rfl rfl⟩
    simp only [EventLoop.pushBack,List.mem_append,List.mem_singleton]
    rw [or_comm (a := ticket ∈ s.inFlight),or_assoc]
  | wakeup ticket =>
    obtain ⟨_,done⟩ := Option.ite_none_right_eq_some.mp stepped
    rw [wakeup_ready registered] at done
    cases done
    exact ⟨⟨registered,own,flagged⟩,.ring _⟩
  | quit =>
    cases stepped
    exact ⟨⟨registered,own,flagged⟩,.idle⟩
  | quitWakeup =>
    obtain ⟨_,done⟩ := Option.ite_none_right_eq_some.mp stepped
    rw [wakeup_ready registered] at done
    cases done
    exact ⟨⟨registered,own,flagged⟩,.ring _⟩
  | loop =>
    by_cases free : s.own = none
    · rw [if_pos free] at stepped
      exact wired.advance free stepped
    · rw [if_neg free] at stepped
      cases stepped
      obtain ⟨ticket,held⟩ := Option.ne_none_iff_exists'.mp free
      exact wired.finish held
  | poll events =>
    obtain ⟨⟨free,_⟩,done⟩ := Option.ite_none_right_eq_some.mp stepped
    obtain ⟨channels,_,done⟩ := Option.bind_eq_some_iff.mp done
    cases done
    exact ⟨⟨registered,fun other => absurd free other,by simp [calling]⟩,bell_come rfl rfl rfl rfl⟩
  | queue functor =>
    obtain ⟨inside,done⟩ := Option.ite_none_right_eq_some.mp stepped
    cases done
    obtain ⟨free,here⟩ := inside
    refine ⟨⟨registered,fun _ => here,flagged⟩,bell_push rfl (fun ticket => ?_) rfl rfl⟩
    simp only [EventLoop.pushBack,free,reduceCtorEq,or_false,Option.some.injEq]
    rw [or_comm,eq_comm]
  | quitInLoop =>
    obtain ⟨_,done⟩ := Option.ite_none_right_eq_some.mp stepped
    cases done
    exact ⟨⟨registered,own,flagged⟩,.idle⟩
  | control operation id fd granted =>
    obtain ⟨poller,rfl,interest,_⟩ := control_cases stepped
    exact ⟨⟨interest.trans registered,own,flagged⟩,.idle⟩

/-- The `queueInLoop` has returned. -/
def Completed (s : EventLoop Functor) (call : Call Functor) : Prop :=
  call.ticket ∉ s.inFlight ∧ s.own ≠ some call.ticket

/-- The loop thread is not blocked in `epoll_wait` while a functor is pending whose
`queueInLoop` has completed, with the wakeup channel in `channels_` or without it. -/
theorem no_lost_wakeup {wakeupFd : Nat} {s : EventLoop Functor}
    (reached : Reachable Steps (construct wakeupFd) s) (blocked : s.pc = .polling)
    (quiet : s.ready = false) : ∀ call ∈ s.pendingFunctors, ¬ Completed s call := by
  have simulated := reached.simulates bell Wired (construct_wired wakeupFd)
    (fun _ _ _ wired stepped => (wired.step stepped).1)
    (fun _ _ _ wired stepped => (wired.step stepped).2)
  have start : Doorbell.Answered (bell (construct wakeupFd : EventLoop Functor)) := by
    intro ticket held
    simp [bell,construct] at held
  have asleep : (bell s).coming = false := by simp [bell,blocked,beforeSwap]
  intro call pending completed
  have silent := (start.steps simulated).asleep quiet asleep (List.mem_map_of_mem pending)
  rcases silent with waiting | waiting
  · exact completed.1 waiting
  · exact completed.2 waiting

/-- A functor was queued and run. The wakeup channel is no longer in `channels_`, and another
thread has pushed its functor but is still to write to the eventfd. -/
theorem no_lost_wakeup_sample : ∃ s : EventLoop Unit,
    perform step (construct 7) ([.loop,.loop,.push (),.wakeup 0,.poll [7]] ++
      List.replicate 11 .loop ++ [.push ()]) = some s ∧ s.poller.channels 7 = none ∧
        s.pendingFunctors.length = 1 ∧ ∀ call ∈ s.pendingFunctors, ¬ Completed s call :=
  ⟨_,rfl,rfl,rfl,@no_lost_wakeup Unit 7 _
    ⟨[.loop,.loop,.push (),.wakeup 0,.poll [7]] ++ List.replicate 11 .loop ++ [.push ()],
      perform_run (fun _ _ _ done => done) rfl⟩ rfl rfl⟩

end Deon.Net
