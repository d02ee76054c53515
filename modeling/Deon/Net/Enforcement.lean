import Deon.Net.Timeouts

/-! What an iteration of `EventLoop::loop` does to the timers. It polls, handles the events and
runs the functors, and sweeps nothing: a node leaves its connection only when an event of the
connection is handled, and leaves the queue never. -/
namespace Deon.Net
open Library

namespace IoLoop

/-- The actions of `EventLoop::loop`, and of what goes on around it; no sweep is among them. -/
def Looping : Action → Prop
  | .sweep | .expire _ | .swept => False
  | _ => True

/-- An action behind the poll of an iteration and before the next poll. -/
def BehindPoll (action : Action) : Prop := Looping action ∧ ∀ events, action ≠ .poll events

/-- What an event or a registration of one connection does to the nodes: those that hold other
connections stay as they are, none is popped, and a new one is not due yet. -/
structure Requeues (i : Nat) (s s' : IoLoop) : Prop where
  clock : s'.clock = s.clock
  armed : ∀ node ∈ s'.timerNodeQueue, ∀ j, node.http = some j →
    node ∈ s.timerNodeQueue ∧ j ≠ i ∨ s.clock.ms < node.deadline
  kept : ∀ node ∈ s.timerNodeQueue, ∀ j, node.http = some j → j ≠ i → node ∈ s'.timerNodeQueue
  old : ∀ node ∈ s'.timerNodeQueue,
    (∃ before ∈ s.timerNodeQueue, before.deadline = node.deadline) ∨ s.clock.ms < node.deadline
  stays : ∀ node ∈ s.timerNodeQueue, ∃ after ∈ s'.timerNodeQueue, after.deadline = node.deadline

theorem Requeues.same {i : Nat} {s s' : IoLoop} (clock : s'.clock = s.clock)
    (queue : s'.timerNodeQueue = s.timerNodeQueue) (unarmed : ¬ Armed i s) : Requeues i s s' where
  clock := clock
  armed := by
    intro node member j held
    rw [queue] at member
    refine .inl ⟨member,?_⟩
    rintro rfl
    exact unarmed ⟨node,member,held⟩
  kept := fun node member _ _ _ => queue ▸ member
  old := fun node member => .inl ⟨node,queue ▸ member,rfl⟩
  stays := fun node member => ⟨node,queue ▸ member,rfl⟩

theorem Requeues.queue {i : Nat} {s s' s'' : IoLoop} (requeues : Requeues i s s')
    (clock : s''.clock = s'.clock) (queue : s''.timerNodeQueue = s'.timerNodeQueue) :
    Requeues i s s'' := by
  obtain ⟨clock',armed,kept,old,stays⟩ := requeues
  rw [← queue] at armed kept old stays
  exact ⟨clock.trans clock',armed,kept,old,stays⟩

theorem Requeues.trans {i : Nat} {s s' s'' : IoLoop} (first : Requeues i s s')
    (second : Requeues i s' s'') : Requeues i s s'' where
  clock := second.clock.trans first.clock
  armed := by
    intro node member j held
    rcases second.armed node member j held with ⟨before,_⟩ | new
    · exact first.armed node before j held
    · exact .inr (first.clock ▸ new)
  kept := fun node member j held apart =>
    second.kept node (first.kept node member j held apart) j held apart
  old := by
    intro node member
    rcases second.old node member with ⟨before,inside,same⟩ | new
    · rw [← same]
      exact first.old before inside
    · exact .inr (first.clock ▸ new)
  stays := by
    intro node member
    obtain ⟨after,inside,same⟩ := first.stays node member
    obtain ⟨last,inside',same'⟩ := second.stays after inside
    exact ⟨last,inside',same'.trans same⟩

theorem addTimer_requeues {s : IoLoop} {i timeout : Nat} (unarmed : ¬ Armed i s)
    (positive : 0 < timeout) : Requeues i s (s.addTimer i timeout) := by
  cases found : s.objects i with
  | none =>
    have same : s.addTimer i timeout = s := by
      unfold addTimer
      rw [found]
    rw [same]
    exact .same rfl rfl unarmed
  | some h =>
    have later : s.clock.ms < (TimerNode.make s.nextNode i timeout s.clock).deadline :=
      Nat.lt_add_of_pos_right positive
    rw [addTimer_found found]
    refine ⟨rfl,?_,?_,?_,?_⟩
    · intro node member j held
      rcases List.mem_append.mp member with before | new
      · refine .inl ⟨before,?_⟩
        rintro rfl
        exact unarmed ⟨node,before,held⟩
      · obtain rfl := List.mem_singleton.mp new
        exact .inr later
    · exact fun node member _ _ _ => List.mem_append_left _ member
    · intro node member
      rcases List.mem_append.mp member with before | new
      · exact .inl ⟨node,before,rfl⟩
      · obtain rfl := List.mem_singleton.mp new
        exact .inr later
    · exact fun node member => ⟨node,List.mem_append_left _ member,rfl⟩

theorem Timers.disarm_requeues {s : IoLoop} (timers : Timers s) {i timer : Nat} {h : HttpObject}
    (found : s.objects i = some h) (pointed : h.timer = some timer) :
    Requeues i s (s.disarm timer) := by
  refine ⟨rfl,?_,?_,?_,?_⟩
  · intro node member j held
    obtain ⟨⟨before,_⟩,other⟩ := disarm_held.mp ⟨member,held⟩
    refine .inl ⟨before,?_⟩
    rintro rfl
    obtain ⟨h',found',pointed',_⟩ := timers.holder node before j held
    obtain rfl := Option.some.inj (found.symm.trans found')
    exact other (Option.some.inj (pointed'.symm.trans pointed))
  · intro node member j held apart
    refine (disarm_held.mpr ⟨⟨member,held⟩,?_⟩).1
    rintro rfl
    exact apart (timers.owner node member j held i h found pointed).symm
  · intro node member
    obtain ⟨before,inside,_,created,timeout⟩ := disarm_old member
    refine .inl ⟨before,inside,?_⟩
    rw [TimerNode.deadline,TimerNode.deadline,created,timeout]
  · intro node member
    refine ⟨_,List.mem_map.mpr ⟨node,member,rfl⟩,?_⟩
    split <;> rfl

theorem Timers.deleteTimer_requeues {s : IoLoop} (timers : Timers s) (i : Nat) :
    Requeues i s (s.deleteTimer i) := by
  rcases deleteTimer_cases i s with ⟨same,_⟩ | ⟨h,timer,found,pointed,same⟩
  · have unarmed := (timers.deleteTimer i).2
    rw [same] at unarmed ⊢
    exact .same rfl rfl unarmed
  · have released := release_retains i (s.disarm timer)
    rw [same]
    exact (timers.disarm_requeues found pointed).queue released.clock released.timerNodeQueue

theorem addChannel_requeues {s : IoLoop} {i : Nat} {h : HttpObject} (found : s.objects i = some h)
    (unarmed : ¬ Armed i s) {timeout : Nat} (positive : 0 < timeout) (granted : Bool) :
    Requeues i s (s.addChannel i h.fd timeout granted) := by
  unfold addChannel
  rw [enter_found found h.fd positive]
  have assigned := assignHttps_retains h.fd (some i) {s.addTimer i timeout with
    poller := {s.poller with channels := Function.update s.poller.channels h.fd (some (some i))}}
  exact (addTimer_requeues unarmed positive).queue assigned.clock assigned.timerNodeQueue

theorem updateChannel_requeues {s : IoLoop} {i : Nat} (unarmed : ¬ Armed i s) (fd : Nat)
    {timeout : Nat} (positive : 0 < timeout) (granted : Bool) :
    Requeues i s (s.updateChannel i fd timeout granted) := by
  unfold updateChannel
  rw [if_pos positive]
  exact (addTimer_requeues unarmed positive).queue rfl rfl

theorem Timers.handleRegister_requeues {s s' : IoLoop} (timers : Timers s) {i : Nat} {granted : Bool}
    (done : s.handleRegister i granted = .ok s') : Requeues i s s' := by
  have unarmed := (timers.deleteTimer i).2
  have deleted := timers.deleteTimer_requeues i
  obtain ⟨h,_,⟨h',timeout,_,_,_,positive,rfl⟩ | closed⟩ := handleRegister_ok done
  · have set : Requeues i s ((s.deleteTimer i).set i h') := deleted.queue rfl rfl
    apply set.trans
    exact updateChannel_requeues (by exact unarmed) h.fd positive granted
  · have retains := deleteChannel_retains closed
    exact deleted.queue retains.clock retains.timerNodeQueue

theorem Timers.handleEvents_requeues {s s' : IoLoop} (timers : Timers s) {i : Nat}
    {event : Http.Event} (done : s.handleEvents i event = .ok s') : Requeues i s s' := by
  obtain ⟨h,members,found,registered⟩ := handleEvents_ok done
  have set : Timers (s.set i {h with members := members}) := timers.set found rfl (.inl rfl)
  obtain ⟨clock,armed,kept,old,stays⟩ := set.handleRegister_requeues registered
  exact ⟨clock,armed,kept,old,stays⟩

theorem registerHttp_requeues {s s' : IoLoop} {i : Nat} {granted : Bool} (unarmed : ¬ Armed i s)
    (done : s.registerHttp i granted = .ok s') : Requeues i s s' := by
  obtain ⟨h,h',_,fd,_,_,rfl⟩ := registerHttp_ok done
  have added := addChannel_requeues (set_self i h' s) unarmed
    (by decide : 0 < Http.defaultExpiredTime) granted
  rw [fd] at added
  exact ⟨added.clock,added.armed,added.kept,added.old,added.stays⟩

/-- Where an iteration stands, since its poll in `s` made the channels `polled` active. -/
structure Iteration (s : IoLoop) (polled : List Nat) (now : IoLoop) : Prop where
  sound : Sound now
  clock : s.clock.ms ≤ now.clock.ms
  active : ∀ i ∈ now.activeChannels, i ∈ polled
  idle : now.phase ≠ .handling → now.activeChannels = []
  armed : ∀ node ∈ now.timerNodeQueue, ∀ i, node.http = some i → node.deadline ≤ s.clock.ms →
    node ∈ s.timerNodeQueue ∧ (i ∈ polled → i ∈ now.activeChannels)
  kept : ∀ node ∈ s.timerNodeQueue, ∀ i, node.http = some i → i ∉ polled →
    node ∈ now.timerNodeQueue
  old : ∀ node ∈ now.timerNodeQueue, node.deadline ≤ s.clock.ms →
    ∃ before ∈ s.timerNodeQueue, before.deadline = node.deadline
  stays : ∀ node ∈ s.timerNodeQueue, ∃ after ∈ now.timerNodeQueue, after.deadline = node.deadline

/-- A connection is registered, or its event is handled. -/
theorem Iteration.requeues {s now after : IoLoop} {polled : List Nat}
    (iteration : Iteration s polled now) {i : Nat} (requeues : Requeues i now after)
    (sound : Sound after) (active : ∀ j ∈ after.activeChannels, j ∈ now.activeChannels)
    (others : ∀ j ∈ now.activeChannels, j ≠ i → j ∈ after.activeChannels)
    (idle : after.phase ≠ .handling → after.activeChannels = [])
    (own : i ∈ polled ∨ ¬ Armed i now) : Iteration s polled after := by
  have later : ∀ node : TimerNode, node.deadline ≤ s.clock.ms → ¬ now.clock.ms < node.deadline :=
    fun node due new => Nat.not_le_of_lt new (Nat.le_trans due iteration.clock)
  refine ⟨sound,?_,fun j member => iteration.active j (active j member),idle,?_,?_,?_,?_⟩
  · rw [requeues.clock]
    exact iteration.clock
  · intro node member j held due
    obtain ⟨before,apart⟩ := (requeues.armed node member j held).resolve_right (later node due)
    obtain ⟨first,still⟩ := iteration.armed node before j held due
    exact ⟨first,fun inside => others j (still inside) apart⟩
  · intro node member j held absent
    have still := iteration.kept node member j held absent
    refine requeues.kept node still j held ?_
    rintro rfl
    exact own.elim absent fun unarmed => unarmed ⟨node,still,held⟩
  · intro node member due
    obtain ⟨before,inside,same⟩ := (requeues.old node member).resolve_right (later node due)
    rw [← same] at due ⊢
    exact iteration.old before inside due
  · intro node member
    obtain ⟨between,inside,same⟩ := iteration.stays node member
    obtain ⟨last,inside',same'⟩ := requeues.stays between inside
    exact ⟨last,inside',same'.trans same⟩

theorem Iteration.step {s now after : IoLoop} {polled : List Nat}
    (iteration : Iteration s polled now) {action : Action} (behind : BehindPoll action)
    (stepped : Steps now action after) : Iteration s polled after := by
  have sound := iteration.sound.step stepped
  obtain ⟨before,clock,active,idle,armed,kept,old,stays⟩ := id iteration
  cases action with
  | tick time =>
    obtain ⟨later,done⟩ := Option.ite_none_right_eq_some.mp stepped
    cases done
    exact ⟨sound,Nat.le_trans clock later,active,idle,armed,kept,old,stays⟩
  | accept fd root mime =>
    obtain ⟨_,done⟩ := Option.ite_none_right_eq_some.mp stepped
    cases done
    exact ⟨sound,clock,active,idle,armed,kept,old,stays⟩
  | register i granted =>
    obtain ⟨member,middle,added,rfl⟩ := register_ok stepped
    have unarmed : ¬ Armed i now := fun held => (before.waiting.fresh i member).2 (.inl held)
    have acts := registerHttp_acts added
    have released := release_retains i
      {middle with pendingFunctors := middle.pendingFunctors.erase i}
    have requeues := (registerHttp_requeues unarmed added).queue released.clock
      released.timerNodeQueue
    have same := released.activeChannels.trans acts.activeChannels
    refine iteration.requeues requeues sound (fun j => same ▸ id) (fun j inside _ => ?_) ?_
      (.inr unarmed)
    · exact same ▸ inside
    · intro phase
      exact same.trans (idle (released.phase.trans acts.phase ▸ phase))
  | dispatch event =>
    obtain ⟨i,rest,here,first,done⟩ := dispatch_cases stepped
    have acts := handleEvents_acts done
    have rested : Sound {now with activeChannels := rest} :=
      before.goOn (Nat.le_refl _) now.phase fun j member => .inr (.inl (by simp [first,member]))
    obtain ⟨clock',armed',kept',old',stays'⟩ := rested.timers.handleEvents_requeues done
    refine iteration.requeues ⟨clock',armed',kept',old',stays'⟩ sound (fun j inside => ?_)
      (fun j inside apart => ?_) (absurd (acts.phase.trans here)) (.inl (active i (by simp [first])))
    · rw [acts.activeChannels] at inside
      exact first ▸ List.mem_cons_of_mem i inside
    · rw [acts.activeChannels]
      rw [first] at inside
      exact (List.mem_cons.mp inside).resolve_left apart
  | handled =>
    obtain ⟨⟨_,empty⟩,done⟩ := Option.ite_none_right_eq_some.mp stepped
    cases done
    exact ⟨sound,clock,active,fun _ => empty,armed,kept,old,stays⟩
  | poll events => exact absurd rfl (behind.2 events)
  | sweep | expire | swept => exact behind.1.elim

theorem Iteration.run {s s' : IoLoop} (sound : Sound s) {events : List Nat} {iteration : List Action}
    (run : Run Steps s (.poll events :: iteration) s')
    (behind : ∀ action ∈ iteration, BehindPoll action) : ∃ polled,
      (∀ i, i ∈ polled ↔ ∃ fd ∈ events, s.poller.channels fd = some (some i)) ∧
        Iteration s polled s' := by
  cases run with
  | @cons _ middle _ _ _ first rest =>
    have sound' := sound.step first
    obtain ⟨polled,filled,rfl⟩ := poll_ok first
    refine ⟨polled,EpollPoller.fillActiveChannels_mem filled,?_⟩
    refine rest.invariant_of (Iteration s polled) BehindPoll
      (fun _ _ _ iteration behind stepped => iteration.step behind stepped) behind ?_
    refine ⟨sound',Nat.le_refl _,fun _ => id,absurd rfl,?_,?_,?_,?_⟩
    · exact fun node member i held due => ⟨member,id⟩
    · exact fun node member i held absent => member
    · exact fun node member due => ⟨node,member,rfl⟩
    · exact fun node member => ⟨node,member,rfl⟩

/-- At the end of an iteration no connection is past the deadline that it had when the poll
returned exactly when the poll reported an event of every connection that was past it; and the
queue holds no expired node exactly when it held none when the poll returned. -/
theorem enforced_iff {clock : Timeval} {labels iteration : List Action} {events : List Nat}
    {s s' : IoLoop} (run : Run Steps (start clock) labels s)
    (later : Run Steps s (.poll events :: iteration) s')
    (behind : ∀ action ∈ iteration, BehindPoll action) (ended : s'.phase = .between) :
    ((∀ node ∈ s'.timerNodeQueue, node.http ≠ none → s.clock.ms < node.deadline) ↔
      ∀ node ∈ s.timerNodeQueue, ∀ i, node.http = some i → node.deadline ≤ s.clock.ms →
        ∃ fd ∈ events, s.poller.channels fd = some (some i)) ∧
    ((∀ node ∈ s'.timerNodeQueue, s.clock.ms < node.deadline) ↔
      ∀ node ∈ s.timerNodeQueue, s.clock.ms < node.deadline) := by
  obtain ⟨polled,reported,iteration⟩ := Iteration.run (run_sound run) later behind
  have empty := iteration.idle (by simp [ended])
  refine ⟨⟨?_,?_⟩,?_,?_⟩
  · intro none node member i held due
    rw [← reported]
    by_contra absent
    have left := none node (iteration.kept node member i held absent) (by simp [held])
    exact Nat.not_le_of_lt left due
  · intro all node member armed
    obtain ⟨i,held⟩ := Option.ne_none_iff_exists'.mp armed
    by_contra due
    have due := Nat.le_of_not_lt due
    obtain ⟨before,active⟩ := iteration.armed node member i held due
    have inside := active ((reported i).mpr (all node before i held due))
    rw [empty] at inside
    cases inside
  · intro none node member
    obtain ⟨after,inside,same⟩ := iteration.stays node member
    exact same ▸ none after inside
  · intro none node member
    by_contra due
    obtain ⟨before,inside,same⟩ := iteration.old node member (Nat.le_of_not_lt due)
    exact due (same ▸ none before inside)

/-- An event without a flag that a callback looks at: the connection is only registered again. -/
def stir : Http.Event :=
  ⟨⟨fun _ => none,fun _ => false,fun _ _ => none,fun _ => 0,true⟩,0,[],[]⟩

/-- The connection that is past its deadline has an event, and gets a new one. -/
theorem enforced_iff_sample : ∃ s s', Run Steps (start ⟨0,0,by decide⟩)
    [.accept 7 [] ∅,.register 0 true,.tick ⟨5,0,by decide⟩] s ∧
    Run Steps s [.poll [7],.dispatch stir,.handled] s' ∧
    (∃ node ∈ s'.timerNodeQueue, node.http = some 0) ∧
    ∀ node ∈ s'.timerNodeQueue, node.http ≠ none → s.clock.ms < node.deadline := by
  have run : Run Steps (start ⟨0,0,by decide⟩)
      [.accept 7 [] ∅,.register 0 true,.tick ⟨5,0,by decide⟩] _ := perform_get next_steps (by decide)
  refine ⟨_,_,run,perform_get next_steps (by decide),by decide,?_⟩
  refine (enforced_iff run (perform_get next_steps (by decide)) ?_ (by decide)).1.mpr ?_
  · simp [BehindPoll,Looping]
  · intro node member i held _
    have own := (by decide : ∀ node ∈ _, TimerNode.http node = some 0) node member
    obtain rfl := Option.some.inj (held.symm.trans own)
    exact ⟨7,by simp,by decide⟩

/-- No sweep: a connection that sends nothing is kept, and its node as well. -/
theorem idle_kept : ∃ s s', Run Steps (start ⟨0,0,by decide⟩)
    [.accept 7 [] ∅,.register 0 true,.tick ⟨5,0,by decide⟩] s ∧
    Run Steps s [.poll [],.handled] s' ∧ s'.phase = .between ∧
    ∃ node ∈ s'.timerNodeQueue, node.http = some 0 ∧ node.deadline ≤ s.clock.ms :=
  ⟨_,_,perform_get next_steps (by decide),perform_get next_steps (by decide),by decide,by decide⟩

end IoLoop

end Deon.Net
