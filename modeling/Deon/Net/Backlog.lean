import Deon.Http.Connection
import Deon.Net.EventLoop
import Deon.Net.Server

/-! The listening socket. `Server::start` gives its channel to the base loop, which calls
`newConnection` for an event of it, and `registerConnection` behind that. The event is
edge-triggered: it stands for all clients that wait, is reported once, and comes again with the
next client or when the channel is registered again. -/
namespace Deon.Net
open Library

variable {Functor : Type}

/-- The channel of the listening socket; the other sockets of the loop have other numbers. -/
def acceptChannel : Channel := .socket 0

/-- What the base loop has in hand of the listening socket: nothing, an event, the loop in
`newConnection` behind these arrivals, or the rest of the event, `registerConnection`. -/
inductive Attending
  | away
  | reported
  | accepting (arrivals : List Arrival)
  | registering
  deriving DecidableEq

/-- The server with its base loop, and the kernel's side of the listening socket: the number of
clients that wait to be accepted, and whether `epoll_wait` has an event to report. As history the
calls of `newConnection` that have returned. -/
structure Server (Functor : Type) where
  loop : EventLoop Functor
  listenFd : Nat
  started : Bool
  backlog : Nat
  ready : Bool
  attending : Attending
  calls : List (List Arrival)

/-- `newConnection` calls `accept` again. -/
def Continues (arrival : Arrival) : Prop := 0 < arrival.acceptFd ∧ 0 ≤ arrival.nonBlocking

instance (arrival : Arrival) : Decidable (Continues arrival) := inferInstanceAs (Decidable (_ ∧ _))

namespace Server

def construct (wakeupFd listenFd : Nat) : Server Functor where
  loop := Net.construct wakeupFd
  listenFd := listenFd
  started := false
  backlog := 0
  ready := false
  attending := .away
  calls := []

/-- A client connects; `main` calls `start`; a step of the base loop and of those that call it;
`handleEvents` of the listening channel; a turn in `newConnection`, and whether it takes a client
off those that wait; `registerConnection`. -/
inductive Act (Functor : Type)
  | arrive
  | start (granted : Bool)
  | loop (action : Action Functor)
  | read (revents : Http.EventMask)
  | turn (arrival : Arrival) (taken : Bool)
  | registerConnection (granted : Bool)

/-- The event of the listening channel is the next that the base loop handles. -/
def Next (s : Server Functor) : Prop :=
  s.loop.own = none ∧ s.loop.pc = .handling ∧ s.loop.activeChannels.head? = some acceptChannel

instance (s : Server Functor) : Decidable s.Next := inferInstanceAs (Decidable (_ ∧ _ ∧ _))

/-- One step; `none` when the action cannot be taken. A descriptor that comes into the interest
list, or is registered again, is ready if somebody waits. -/
def step (s : Server Functor) : Act Functor → Option (Server Functor)
  | .arrive =>
    some {s with
      backlog := s.backlog + 1
      ready := s.ready || s.loop.poller.interest s.listenFd}
  | .start granted =>
    if s.started = false ∧ s.loop.pc = .created then do
      let loop ← Net.step s.loop (.control .add 0 s.listenFd granted)
      return {s with
        loop := loop
        started := true
        ready := s.ready || (granted && !s.loop.poller.interest s.listenFd && decide (0 < s.backlog))}
    else none
  | .loop (.poll events) =>
    if s.listenFd ∈ events → s.ready = true then do
      let loop ← Net.step s.loop (.poll events)
      return {s with loop := loop,ready := s.ready && !decide (s.listenFd ∈ events)}
    else none
  | .loop (.control operation id fd granted) =>
    if id ≠ 0 ∧ fd ≠ s.listenFd then do
      let loop ← Net.step s.loop (.control operation id fd granted)
      return {s with loop := loop}
    else none
  | .loop .loop =>
    -- the callback of the listening channel is left by `registerConnection`
    if s.attending = .away ∨ s.loop.own ≠ none then do
      let loop ← Net.step s.loop .loop
      return {s with loop := loop,attending := if s.Next then .reported else s.attending}
    else none
  | .loop action => do
    let loop ← Net.step s.loop action
    return {s with loop := loop}
  | .read revents =>
    if s.attending = .reported then
      some {s with attending := if Http.readable revents then .accepting [] else .registering}
    else none
  | .turn arrival taken =>
    match s.attending with
    | .accepting arrivals =>
      if (0 ≤ arrival.acceptFd → taken = true) ∧ (taken = true → 0 < s.backlog) then
        let s := {s with backlog := s.backlog - taken.toNat}
        if Continues arrival then some {s with attending := .accepting (arrivals ++ [arrival])}
        else some {s with attending := .registering,calls := s.calls ++ [arrivals ++ [arrival]]}
      else none
    | _ => none
  | .registerConnection granted =>
    if s.attending = .registering then do
      let loop ← Net.step s.loop (.control .mod 0 s.listenFd granted)
      return {s with
        loop := loop
        ready := s.ready || (granted && s.loop.poller.interest s.listenFd && decide (0 < s.backlog))
        attending := .away}
    else none

def Steps (s : Server Functor) (act : Act Functor) (s' : Server Functor) : Prop := s.step act = some s'

end Server

/-- The base loop is at the events of its latest poll. -/
def busy : Pc → Bool
  | .handling | .reading | .registering | .callback => true
  | _ => false

/-- The channels that are active, as the loop thread goes on: they stay, they are cleared in front
of the next poll, or the first one is handled. -/
theorem advance_active {s s' : EventLoop Functor} (stepped : s.advance = some s') :
    s'.activeChannels = s.activeChannels ∧
        (s.pc ≠ .handling ∧ busy s'.pc = true ∨ busy s.pc = false ∨ s.activeChannels = []) ∨
      busy s.pc = false ∧ s'.activeChannels = [] ∨
      s.pc = .handling ∧ busy s'.pc = true ∧ ∃ first, s.activeChannels = first :: s'.activeChannels ∧
        (first = acceptChannel → s'.pc = .callback) := by
  unfold EventLoop.advance at stepped
  cases here : s.pc <;> simp only [here,reduceCtorEq] at stepped
  case handling =>
    split at stepped <;> cases stepped
    · rename_i empty
      exact .inl ⟨rfl,.inr (.inr empty)⟩
    · rename_i rest active
      refine .inr (.inr ⟨rfl,rfl,.wakeup,active,fun other => ?_⟩)
      cases other
    · rename_i id rest active
      exact .inr (.inr ⟨rfl,rfl,.socket id,active,fun _ => rfl⟩)
  case testing =>
    split at stepped <;> cases stepped
    · exact .inl ⟨rfl,.inr (.inl rfl)⟩
    · exact .inr (.inl ⟨rfl,rfl⟩)
  case created =>
    obtain ⟨_,done⟩ := Option.ite_none_left_eq_some.mp stepped
    cases done
    exact .inl ⟨rfl,.inr (.inl rfl)⟩
  case running =>
    split at stepped <;> cases stepped <;> exact .inl ⟨rfl,.inr (.inl rfl)⟩
  case reading | registering | callback =>
    cases stepped
    exact .inl ⟨rfl,.inl ⟨nofun,rfl⟩⟩
  all_goals
    cases stepped
    exact .inl ⟨rfl,.inr (.inl rfl)⟩

/-- What the steps for other channels leave as it is: the entries of this descriptor, and the
entries that name the listening channel. -/
structure Minds (fd : Nat) (s s' : EventLoop Functor) : Prop where
  wakeupFd : s'.wakeupFd = s.wakeupFd
  interest : s'.poller.interest fd = s.poller.interest fd
  channels : s'.poller.channels fd = s.poller.channels fd
  sole : ∀ other, s'.poller.channels other = some (some acceptChannel) →
    s.poller.channels other = some (some acceptChannel)

theorem Minds.same {fd : Nat} {s s' : EventLoop Functor} (wakeupFd : s'.wakeupFd = s.wakeupFd)
    (poller : s'.poller = s.poller) : Minds fd s s' :=
  ⟨wakeupFd,by rw [poller],by rw [poller],fun _ held => poller ▸ held⟩

theorem advance_minds {fd : Nat} {s s' : EventLoop Functor} (apart : fd ≠ s.wakeupFd)
    (stepped : s.advance = some s') : Minds fd s s' := by
  unfold EventLoop.advance at stepped
  cases here : s.pc <;> simp only [here,reduceCtorEq] at stepped
  case registering =>
    cases stepped
    have foreign : some Channel.wakeup ≠ some acceptChannel := by simp [acceptChannel]
    obtain ⟨interest,channels,sole⟩ := EpollPoller.update_entered (p := s.poller) rfl apart foreign
    exact ⟨rfl,interest,channels,sole⟩
  all_goals
    try split at stepped
    all_goals cases stepped <;> exact .same rfl rfl

theorem loop_minds {fd : Nat} {s s' : EventLoop Functor} (apart : fd ≠ s.wakeupFd)
    (stepped : Net.step s .loop = some s') : Minds fd s s' := by
  change (if s.own = none then s.advance else some s.finishQueueInLoop) = some s' at stepped
  split at stepped
  · exact advance_minds apart stepped
  · cases stepped
    unfold EventLoop.finishQueueInLoop
    split <;> exact .same rfl rfl

theorem control_minds {fd other id : Nat} {s s' : EventLoop Functor} {operation : Operation}
    {granted : Bool} (apart : other ≠ fd) (foreign : id ≠ 0)
    (stepped : Net.step s (.control operation id fd granted) = some s') :
    Minds other s s' ∧ s'.activeChannels = s.activeChannels ∧ s'.pc = s.pc ∧ s'.own = s.own := by
  have named : ∀ pointer, pointer = some (Channel.socket id) ∨ pointer = none →
      pointer ≠ some acceptChannel := by
    rintro _ (rfl | rfl)
    · simpa [acceptChannel] using foreign
    · simp
  obtain ⟨_,done⟩ := Option.ite_none_right_eq_some.mp stepped
  cases operation with
  | add =>
    cases done
    obtain ⟨interest,channels,sole⟩ := EpollPoller.update_entered (p := s.poller) rfl apart
      (named _ (.inl rfl))
    exact ⟨⟨rfl,interest,channels,sole⟩,rfl,rfl,rfl⟩
  | mod =>
    cases done
    obtain ⟨interest,channels⟩ := EpollPoller.update_other (p := s.poller) apart
    exact ⟨⟨rfl,interest,channels,fun _ => EpollPoller.update_channels⟩,rfl,rfl,rfl⟩
  | del =>
    obtain ⟨poller,removed,done⟩ := Option.bind_eq_some_iff.mp done
    cases done
    obtain ⟨_,removed⟩ := Option.ite_none_right_eq_some.mp removed
    cases removed
    obtain ⟨interest,channels,sole⟩ := EpollPoller.update_entered (p := s.poller) rfl apart
      (named _ (.inr rfl))
    exact ⟨⟨rfl,interest,channels,sole⟩,rfl,rfl,rfl⟩

namespace Server

/-- The base loop and those that call it do something else; the listening channel is where it was. -/
structure Quiet (s s' : Server Functor) : Prop where
  minds : Minds s.listenFd s.loop s'.loop
  active : s'.loop.activeChannels = s.loop.activeChannels
  pc : s'.loop.pc = s.loop.pc
  same : s' = {s with loop := s'.loop}

/-- The loop thread goes on, and may come to the event of the listening channel. -/
structure Goes (s s' : Server Functor) : Prop where
  minds : Minds s.listenFd s.loop s'.loop
  free : s.loop.own = none
  away : s.attending = .away
  advanced : s.loop.advance = some s'.loop
  same : s' = {s with loop := s'.loop,attending := if s.Next then .reported else .away}

structure Polls (events : List Nat) (s s' : Server Functor) : Prop where
  minds : Minds s.listenFd s.loop s'.loop
  polling : s.loop.pc = .polling
  nodup : events.Nodup
  ready : s.listenFd ∈ events → s.ready = true
  active : ∃ channels, s.loop.poller.fillActiveChannels events = some channels ∧
    s'.loop.activeChannels = s.loop.activeChannels ++ channels
  pc : s'.loop.pc = .handling
  same : s' = {s with loop := s'.loop,ready := s.ready && !decide (s.listenFd ∈ events)}

theorem loop_cases {s s' : Server Functor} {action : Action Functor}
    (apart : s.listenFd ≠ s.loop.wakeupFd) (stepped : Steps s (.loop action) s') :
    Quiet s s' ∨ Goes s s' ∨ ∃ events, Polls events s s' := by
  unfold Steps step at stepped
  cases action with
  | poll events =>
    obtain ⟨ready,done⟩ := Option.ite_none_right_eq_some.mp stepped
    obtain ⟨loop,polled,done⟩ := Option.bind_eq_some_iff.mp done
    cases done
    obtain ⟨⟨_,polling,nodup,_⟩,polled⟩ := Option.ite_none_right_eq_some.mp polled
    obtain ⟨channels,filled,done⟩ := Option.bind_eq_some_iff.mp polled
    cases done
    exact .inr (.inr ⟨events,.same rfl rfl,polling,nodup,ready,⟨channels,filled,rfl⟩,rfl,rfl⟩)
  | control operation id fd granted =>
    obtain ⟨⟨foreign,other⟩,done⟩ := Option.ite_none_right_eq_some.mp stepped
    obtain ⟨loop,controlled,done⟩ := Option.bind_eq_some_iff.mp done
    cases done
    obtain ⟨minds,active,pc,_⟩ := control_minds other.symm foreign controlled
    exact .inl ⟨minds,active,pc,rfl⟩
  | loop =>
    obtain ⟨left,done⟩ := Option.ite_none_right_eq_some.mp stepped
    obtain ⟨loop,went,done⟩ := Option.bind_eq_some_iff.mp done
    cases done
    have minds := loop_minds apart went
    change (if s.loop.own = none then s.loop.advance else some s.loop.finishQueueInLoop) = some loop
      at went
    by_cases free : s.loop.own = none
    · rw [if_pos free] at went
      have away : s.attending = .away := left.resolve_right fun own => own free
      exact .inr (.inl ⟨minds,free,away,went,by rw [away]⟩)
    · rw [if_neg free] at went
      cases went
      have quiet : ¬ s.Next := fun next => free next.1
      rw [if_neg quiet]
      unfold EventLoop.finishQueueInLoop
      split <;> exact .inl ⟨.same rfl rfl,rfl,rfl,rfl⟩
  | push | quit =>
    cases stepped
    exact .inl ⟨.same rfl rfl,rfl,rfl,rfl⟩
  | _ =>
    obtain ⟨loop,called,done⟩ := Option.bind_eq_some_iff.mp stepped
    cases done
    obtain ⟨_,done⟩ := Option.ite_none_right_eq_some.mp called
    cases done
    exact .inl ⟨.same rfl rfl,rfl,rfl,rfl⟩

/-- The channel is active at most once, at the events of a poll, and not while it is handled; and
the turns of `newConnection` go on as its loop has them. -/
structure Attends (s : Server Functor) : Prop where
  apart : s.listenFd ≠ s.loop.wakeupFd
  sole : ∀ fd, s.loop.poller.channels fd = some (some acceptChannel) → fd = s.listenFd
  busy : acceptChannel ∈ s.loop.activeChannels → busy s.loop.pc = true
  once : s.loop.activeChannels.count acceptChannel ≤ 1
  inside : s.attending ≠ .away → s.loop.pc = .callback ∧ acceptChannel ∉ s.loop.activeChannels
  unstarted : s.started = false → s.attending = .away ∧ acceptChannel ∉ s.loop.activeChannels ∧
    ∀ fd, s.loop.poller.channels fd ≠ some (some acceptChannel)
  calling : ∀ arrivals, s.attending = .accepting arrivals → ∀ arrival ∈ arrivals, Continues arrival
  called : ∀ call ∈ s.calls, ∃ before last, call = before ++ [last] ∧
    (∀ arrival ∈ before, Continues arrival) ∧ ¬ Continues last

theorem construct_attends {wakeupFd listenFd : Nat} (apart : listenFd ≠ wakeupFd) :
    Attends (construct wakeupFd listenFd : Server Functor) := by
  have none : ∀ fd, (construct wakeupFd listenFd : Server Functor).loop.poller.channels fd ≠
      some (some acceptChannel) := by
    intro fd
    by_cases same : fd = wakeupFd
    · subst same
      simp [construct,Net.construct,EpollPoller.addChannel,EpollPoller.update,epollCtl,
        EpollPoller.empty,acceptChannel]
    · simp [construct,Net.construct,EpollPoller.addChannel,EpollPoller.update,epollCtl,
        EpollPoller.empty,Function.update_of_ne same]
  refine ⟨apart,fun fd held => absurd held (none fd),?_,Nat.zero_le _,?_,?_,?_,?_⟩
  · intro active
    cases active
  · intro other
    exact absurd rfl other
  · exact fun _ => ⟨rfl,List.not_mem_nil,none⟩
  · intro arrivals here
    cases here
  · intro call member
    cases member

theorem Attends.quiet {s s' : Server Functor} (attends : Attends s) (quiet : Quiet s s') :
    Attends s' := by
  obtain ⟨minds,active,pc,same⟩ := quiet
  rw [same]
  refine ⟨?_,fun fd held => attends.sole fd (minds.sole fd held),?_,?_,?_,?_,attends.calling,
    attends.called⟩
  · exact minds.wakeupFd ▸ attends.apart
  · dsimp only
    rw [active,pc]
    exact attends.busy
  · dsimp only
    rw [active]
    exact attends.once
  · dsimp only
    rw [active,pc]
    exact attends.inside
  · dsimp only
    rw [active]
    intro unstarted
    obtain ⟨away,absent,none⟩ := attends.unstarted unstarted
    exact ⟨away,absent,fun fd held => none fd (minds.sole fd held)⟩

theorem Goes.active {s s' : Server Functor} (goes : Goes s s')
    (member : acceptChannel ∈ s'.loop.activeChannels) : acceptChannel ∈ s.loop.activeChannels := by
  rcases advance_active goes.advanced with ⟨same,_⟩ | ⟨_,cleared⟩ | ⟨_,_,first,active,_⟩
  · exact same ▸ member
  · rw [cleared] at member
    cases member
  · rw [active]
    exact List.mem_cons_of_mem _ member

theorem Attends.goes {s s' : Server Functor} (attends : Attends s) (goes : Goes s s') :
    Attends s' := by
  obtain ⟨minds,free,away,advanced,same⟩ := goes
  have active := advance_active advanced
  have fewer : ∀ channel, s'.loop.activeChannels.count channel ≤ s.loop.activeChannels.count channel := by
    intro channel
    rcases active with ⟨kept,_⟩ | ⟨_,cleared⟩ | ⟨_,_,first,popped,_⟩
    · rw [kept]
    · rw [cleared]
      exact Nat.zero_le _
    · rw [popped]
      exact List.count_le_count_cons
  have arrivals : ∀ arrivals, s'.attending ≠ .accepting arrivals := by
    intro arrivals
    rw [same]
    dsimp only
    split <;> exact nofun
  have reported : s'.attending ≠ .away → s.Next := by
    intro other
    by_contra quiet
    rw [same] at other
    exact other (if_neg quiet)
  have listenFd : s'.listenFd = s.listenFd := by rw [same]
  have started : s'.started = s.started := by rw [same]
  have calls : s'.calls = s.calls := by rw [same]
  refine ⟨?_,?_,?_,(fewer _).trans attends.once,?_,?_,fun calls here => absurd here (arrivals calls),?_⟩
  · rw [listenFd,minds.wakeupFd]
    exact attends.apart
  · intro fd held
    rw [listenFd]
    exact attends.sole fd (minds.sole fd held)
  · intro member
    have before := Goes.active ⟨minds,free,away,advanced,same⟩ member
    have here := attends.busy before
    rcases active with ⟨_,⟨_,busy⟩ | idle | empty⟩ | ⟨_,cleared⟩ | ⟨_,busy,_⟩
    · exact busy
    · rw [idle] at here
      cases here
    · rw [empty] at before
      cases before
    · rw [cleared] at member
      cases member
    · exact busy
  · intro other
    obtain ⟨_,handling,head⟩ := reported other
    obtain ⟨rest,first⟩ := List.head?_eq_some_iff.mp head
    rcases active with ⟨_,⟨apart,_⟩ | idle | empty⟩ | ⟨idle,_⟩ | ⟨_,_,other,popped,entered⟩
    · exact absurd handling apart
    · rw [handling] at idle
      cases idle
    · rw [empty] at first
      cases first
    · rw [handling] at idle
      cases idle
    · rw [first,List.cons.injEq] at popped
      obtain ⟨rfl,rest⟩ := popped
      refine ⟨entered rfl,fun member => ?_⟩
      have once := attends.once
      rw [first,List.count_cons_self,rest] at once
      have some := List.count_pos_iff.mpr member
      omega
  · intro unstarted
    rw [started] at unstarted
    obtain ⟨_,absent,none⟩ := attends.unstarted unstarted
    refine ⟨?_,fun member => absent ?_,fun fd held => none fd (minds.sole fd held)⟩
    · by_contra other
      obtain ⟨_,_,head⟩ := reported other
      exact absent (List.mem_of_mem_head? head)
    · exact Goes.active ⟨minds,free,away,advanced,same⟩ member
  · rw [calls]
    exact attends.called

theorem start_cases {s s' : Server Functor} {granted : Bool} (stepped : Steps s (.start granted) s') :
    s.started = false ∧ s' = {s with
      loop := {s.loop with poller := s.loop.poller.addChannel acceptChannel s.listenFd granted}
      started := true
      ready := s.ready ||
        (granted && !s.loop.poller.interest s.listenFd && decide (0 < s.backlog))} := by
  obtain ⟨⟨unstarted,_⟩,done⟩ := Option.ite_none_right_eq_some.mp stepped
  obtain ⟨loop,controlled,done⟩ := Option.bind_eq_some_iff.mp done
  cases done
  obtain ⟨_,done⟩ := Option.ite_none_right_eq_some.mp controlled
  cases done
  exact ⟨unstarted,rfl⟩

theorem registerConnection_cases {s s' : Server Functor} {granted : Bool}
    (stepped : Steps s (.registerConnection granted) s') : s.attending = .registering ∧ s' = {s with
      loop := {s.loop with poller := s.loop.poller.updateChannel s.listenFd granted}
      ready := s.ready ||
        (granted && s.loop.poller.interest s.listenFd && decide (0 < s.backlog))
      attending := .away} := by
  obtain ⟨registering,done⟩ := Option.ite_none_right_eq_some.mp stepped
  obtain ⟨loop,controlled,done⟩ := Option.bind_eq_some_iff.mp done
  cases done
  obtain ⟨_,done⟩ := Option.ite_none_right_eq_some.mp controlled
  cases done
  exact ⟨registering,rfl⟩

theorem turn_cases {s s' : Server Functor} {arrival : Arrival} {taken : Bool}
    (stepped : Steps s (.turn arrival taken) s') : ∃ arrivals, s.attending = .accepting arrivals ∧
      (Continues arrival ∧ s' = {s with
        backlog := s.backlog - taken.toNat
        attending := .accepting (arrivals ++ [arrival])} ∨
      ¬ Continues arrival ∧ s' = {s with
        backlog := s.backlog - taken.toNat
        attending := .registering
        calls := s.calls ++ [arrivals ++ [arrival]]}) := by
  unfold Steps step at stepped
  dsimp only at stepped
  split at stepped
  · rename_i arrivals here
    obtain ⟨_,done⟩ := Option.ite_none_right_eq_some.mp stepped
    refine ⟨arrivals,here,?_⟩
    split at done <;> cases done
    · rename_i continues
      exact .inl ⟨continues,rfl⟩
    · rename_i returns
      exact .inr ⟨returns,rfl⟩
  · cases stepped

theorem Polls.reported {s s' : Server Functor} {events : List Nat} (polls : Polls events s s')
    (attends : Attends s) : acceptChannel ∉ s.loop.activeChannels ∧
      (acceptChannel ∈ s'.loop.activeChannels ↔ s.listenFd ∈ events ∧
        s.loop.poller.channels s.listenFd = some (some acceptChannel)) := by
  obtain ⟨channels,filled,active⟩ := polls.active
  have absent : acceptChannel ∉ s.loop.activeChannels := by
    intro member
    have busy := attends.busy member
    rw [polls.polling] at busy
    cases busy
  refine ⟨absent,?_⟩
  rw [active,List.mem_append,or_iff_right absent,EpollPoller.fillActiveChannels_mem filled]
  constructor
  · rintro ⟨fd,member,held⟩
    obtain rfl := attends.sole fd held
    exact ⟨member,held⟩
  · exact fun both => ⟨s.listenFd,both⟩

theorem Attends.polls {s s' : Server Functor} (attends : Attends s) {events : List Nat}
    (polls : Polls events s s') : Attends s' := by
  obtain ⟨absent,reported⟩ := polls.reported attends
  obtain ⟨minds,polling,nodup,_,⟨channels,filled,active⟩,pc,same⟩ := polls
  have away : s.attending = .away := by
    by_contra other
    have inside := (attends.inside other).1
    rw [polling] at inside
    cases inside
  have listenFd : s'.listenFd = s.listenFd := by rw [same]
  have attending : s'.attending = .away := by rw [same,away]
  have started : s'.started = s.started := by rw [same]
  have calls : s'.calls = s.calls := by rw [same]
  refine ⟨?_,?_,fun _ => by rw [pc]; rfl,?_,fun other => absurd attending other,?_,?_,?_⟩
  · rw [listenFd,minds.wakeupFd]
    exact attends.apart
  · intro fd held
    rw [listenFd]
    exact attends.sole fd (minds.sole fd held)
  · -- the descriptor is among the events at most once, and no other is mapped to the channel
    rw [active,List.count_append,List.count_eq_zero_of_not_mem absent,Nat.zero_add,
      EpollPoller.fillActiveChannels_eq filled,List.count_filterMap]
    refine le_trans ?_ (List.nodup_iff_count_le_one.mp nodup s.listenFd)
    rw [List.count_eq_countP]
    refine List.countP_mono_left fun fd _ held => ?_
    have mapped : s.loop.poller.channels fd = some (some acceptChannel) :=
      Option.join_eq_some_iff.mp (by simpa using held)
    simpa using attends.sole fd mapped
  · intro unstarted
    rw [started] at unstarted
    obtain ⟨_,_,none⟩ := attends.unstarted unstarted
    exact ⟨attending,fun member => none _ (reported.mp member).2,
      fun fd held => none fd (minds.sole fd held)⟩
  · intro arrivals here
    rw [attending] at here
    cases here
  · rw [calls]
    exact attends.called

theorem Attends.start {s s' : Server Functor} (attends : Attends s) {granted : Bool}
    (stepped : Steps s (.start granted) s') : Attends s' := by
  obtain ⟨unstarted,rfl⟩ := start_cases stepped
  obtain ⟨away,absent,none⟩ := attends.unstarted unstarted
  refine ⟨attends.apart,fun fd held => ?_,fun member => absurd member absent,attends.once,
    fun other => absurd away other,nofun,attends.calling,attends.called⟩
  by_contra other
  have before := EpollPoller.update_channels held
  exact none fd ((Function.update_of_ne other ..).symm.trans before)

theorem Attends.registerConnection {s s' : Server Functor} (attends : Attends s) {granted : Bool}
    (stepped : Steps s (.registerConnection granted) s') : Attends s' := by
  obtain ⟨registering,rfl⟩ := registerConnection_cases stepped
  refine ⟨attends.apart,fun fd held => attends.sole fd (EpollPoller.update_channels held),attends.busy,
    attends.once,fun other => absurd rfl other,fun unstarted => ?_,nofun,attends.called⟩
  obtain ⟨away,_⟩ := attends.unstarted unstarted
  cases registering.symm.trans away

theorem Attends.read {s s' : Server Functor} (attends : Attends s) {revents : Http.EventMask}
    (stepped : Steps s (.read revents) s') : Attends s' ∧ s'.attending ≠ .away ∧ s.attending ≠ .away ∧
      s'.started = s.started ∧ s'.loop = s.loop ∧ s'.listenFd = s.listenFd := by
  obtain ⟨reported,done⟩ := Option.ite_none_right_eq_some.mp stepped
  cases done
  have here : s.attending ≠ .away := by
    rw [reported]
    exact nofun
  have there : (if Http.readable revents then Attending.accepting [] else .registering) ≠ .away := by
    split <;> exact nofun
  refine ⟨⟨attends.apart,attends.sole,attends.busy,attends.once,fun _ => attends.inside here,?_,?_,
    attends.called⟩,there,here,rfl,rfl,rfl⟩
  · exact fun unstarted => absurd (attends.unstarted unstarted).1 here
  · intro arrivals calls
    dsimp only at calls
    split at calls <;> cases calls
    exact nofun

theorem Attends.turn {s s' : Server Functor} (attends : Attends s) {arrival : Arrival}
    {taken : Bool} (stepped : Steps s (.turn arrival taken) s') :
    Attends s' ∧ s'.attending ≠ .away ∧ s.attending ≠ .away ∧ s'.started = s.started ∧
      s'.loop = s.loop ∧ s'.listenFd = s.listenFd := by
  obtain ⟨arrivals,accepting,done⟩ := turn_cases stepped
  have here : s.attending ≠ .away := by
    rw [accepting]
    exact nofun
  have unstarted : s.started ≠ false := fun unstarted => here (attends.unstarted unstarted).1
  have before := attends.calling arrivals accepting
  obtain ⟨continues,rfl⟩ | ⟨returns,rfl⟩ := done
  · refine ⟨⟨attends.apart,attends.sole,attends.busy,attends.once,fun _ => attends.inside here,
      fun never => absurd never unstarted,?_,attends.called⟩,nofun,here,rfl,rfl,rfl⟩
    intro all same
    cases same
    exact fun one member => (List.mem_append.mp member).elim (before one) fun last =>
      List.mem_singleton.mp last ▸ continues
  · refine ⟨⟨attends.apart,attends.sole,attends.busy,attends.once,fun _ => attends.inside here,
      fun never => absurd never unstarted,nofun,?_⟩,nofun,here,rfl,rfl,rfl⟩
    intro call member
    rcases List.mem_append.mp member with earlier | last
    · exact attends.called call earlier
    · exact ⟨arrivals,arrival,List.mem_singleton.mp last,before,returns⟩

theorem Attends.step {s s' : Server Functor} (attends : Attends s) {act : Act Functor}
    (stepped : Steps s act s') : Attends s' := by
  cases act with
  | arrive =>
    cases stepped
    obtain ⟨apart,sole,busy,once,inside,unstarted,calling,called⟩ := attends
    exact ⟨apart,sole,busy,once,inside,unstarted,calling,called⟩
  | start granted => exact attends.start stepped
  | loop action =>
    rcases loop_cases attends.apart stepped with quiet | goes | ⟨events,polls⟩
    · exact attends.quiet quiet
    · exact attends.goes goes
    · exact attends.polls polls
  | read revents => exact (attends.read stepped).1
  | turn arrival taken => exact (attends.turn stepped).1
  | registerConnection granted => exact attends.registerConnection stepped

/-- `epoll_ctl` does what this action asks of it for the listening channel. -/
def Act.Granted : Act Functor → Prop
  | .start granted | .registerConnection granted => granted = true
  | _ => True

/-- A started server: the kernel watches the listening socket for its channel; and when somebody
waits there is an event to report, or one in hand. -/
structure Noticed (s : Server Functor) : Prop where
  watched : s.started = true → s.loop.poller.interest s.listenFd = true ∧
    s.loop.poller.channels s.listenFd = some (some acceptChannel)
  noticed : s.started = true → 0 < s.backlog →
    s.ready = true ∨ acceptChannel ∈ s.loop.activeChannels ∨ s.attending ≠ .away
  unwatched : s.started = false → s.loop.poller.interest s.listenFd = false

theorem Noticed.quiet {s s' : Server Functor} (noticed : Noticed s) (quiet : Quiet s s') :
    Noticed s' := by
  obtain ⟨minds,active,_,same⟩ := quiet
  rw [same]
  obtain ⟨watched,waits,unwatched⟩ := noticed
  refine ⟨?_,?_,?_⟩
  · dsimp only
    rw [minds.interest,minds.channels]
    exact watched
  · dsimp only
    rw [active]
    exact waits
  · dsimp only
    rw [minds.interest]
    exact unwatched

/-- The loop thread takes an event in hand, and drops none. -/
theorem Noticed.goes {s s' : Server Functor} (noticed : Noticed s) (attends : Attends s)
    (goes : Goes s s') : Noticed s' := by
  obtain ⟨minds,free,away,advanced,same⟩ := goes
  have listenFd : s'.listenFd = s.listenFd := by rw [same]
  have started : s'.started = s.started := by rw [same]
  have backlog : s'.backlog = s.backlog := by rw [same]
  have ready : s'.ready = s.ready := by rw [same]
  have attending : s'.attending = if s.Next then .reported else .away := by rw [same]
  refine ⟨?_,?_,?_⟩
  · rw [listenFd,started,minds.interest,minds.channels]
    exact noticed.watched
  · rw [started,backlog,ready]
    intro begun waits
    refine (noticed.noticed begun waits).imp_right fun rest => ?_
    have member := rest.resolve_right fun other => other away
    have here := attends.busy member
    rcases advance_active advanced with ⟨kept,_⟩ | ⟨idle,_⟩ | ⟨handling,_,first,popped,_⟩
    · exact .inl (kept ▸ member)
    · rw [idle] at here
      cases here
    · rw [popped] at member
      rcases List.mem_cons.mp member with rfl | later
      · have next : s.Next := ⟨free,handling,by rw [popped]; rfl⟩
        rw [attending,if_pos next]
        exact .inr nofun
      · exact .inl later
  · rw [started,listenFd,minds.interest]
    exact noticed.unwatched

theorem Noticed.polls {s s' : Server Functor} (noticed : Noticed s) (attends : Attends s)
    {events : List Nat} (polls : Polls events s s') : Noticed s' := by
  obtain ⟨absent,reported⟩ := polls.reported attends
  obtain ⟨minds,_,_,_,⟨channels,_,active⟩,_,same⟩ := polls
  have listenFd : s'.listenFd = s.listenFd := by rw [same]
  have started : s'.started = s.started := by rw [same]
  have backlog : s'.backlog = s.backlog := by rw [same]
  have attending : s'.attending = s.attending := by rw [same]
  have ready : s'.ready = (s.ready && !decide (s.listenFd ∈ events)) := by rw [same]
  refine ⟨?_,?_,?_⟩
  · rw [listenFd,started,minds.interest,minds.channels]
    exact noticed.watched
  · rw [started,backlog,attending,ready]
    intro begun waits
    by_cases polled : s.listenFd ∈ events
    · exact .inr (.inl (reported.mpr ⟨polled,(noticed.watched begun).2⟩))
    · have still : (s.ready && !decide (s.listenFd ∈ events)) = s.ready := by simp [polled]
      rw [still]
      rcases noticed.noticed begun waits with here | member | other
      · exact .inl here
      · exact absurd member absent
      · exact .inr (.inr other)
  · rw [started,listenFd,minds.interest]
    exact noticed.unwatched

theorem addChannel_granted {p : EpollPoller Channel} {fd : Nat} (channel : Channel)
    (absent : p.interest fd = false) : (p.addChannel channel fd true).interest fd = true ∧
      (p.addChannel channel fd true).channels fd = some (some channel) := by
  simp [EpollPoller.addChannel,EpollPoller.update,epollCtl,absent]

theorem updateChannel_granted {p : EpollPoller Channel} {fd : Nat} (inside : p.interest fd = true) :
    p.updateChannel fd true = p := by
  simp [EpollPoller.updateChannel,EpollPoller.update,epollCtl,inside]

theorem Noticed.step {s s' : Server Functor} (noticed : Noticed s) (attends : Attends s)
    {act : Act Functor} (granted : act.Granted) (stepped : Steps s act s') : Noticed s' := by
  cases act with
  | arrive =>
    cases stepped
    refine ⟨noticed.watched,fun begun _ => .inl ?_,noticed.unwatched⟩
    dsimp only
    rw [(noticed.watched begun).1,Bool.or_true]
  | start granted' =>
    obtain rfl : granted' = true := granted
    obtain ⟨unstarted,rfl⟩ := start_cases stepped
    have unwatched := noticed.unwatched unstarted
    refine ⟨fun _ => addChannel_granted acceptChannel unwatched,fun _ waits => .inl ?_,nofun⟩
    dsimp only at waits ⊢
    simp [unwatched,waits]
  | loop action =>
    rcases loop_cases attends.apart stepped with quiet | goes | ⟨events,polls⟩
    · exact noticed.quiet quiet
    · exact noticed.goes attends goes
    · exact noticed.polls attends polls
  | read revents =>
    obtain ⟨_,there,_,started,loop,listenFd⟩ := attends.read stepped
    refine ⟨?_,fun _ _ => .inr (.inr there),?_⟩
    · rw [started,loop,listenFd]
      exact noticed.watched
    · rw [started,loop,listenFd]
      exact noticed.unwatched
  | turn arrival taken =>
    obtain ⟨_,there,_,started,loop,listenFd⟩ := attends.turn stepped
    refine ⟨?_,fun _ _ => .inr (.inr there),?_⟩
    · rw [started,loop,listenFd]
      exact noticed.watched
    · rw [started,loop,listenFd]
      exact noticed.unwatched
  | registerConnection granted' =>
    obtain rfl : granted' = true := granted
    obtain ⟨registering,rfl⟩ := registerConnection_cases stepped
    have begun : s.started = true := by
      by_contra never
      obtain ⟨away,_⟩ := attends.unstarted (eq_false_of_ne_true never)
      cases registering.symm.trans away
    have watched := noticed.watched begun
    have again := updateChannel_granted watched.1
    refine ⟨fun _ => ?_,fun _ waits => .inl ?_,fun never => ?_⟩
    · dsimp only
      rw [again]
      exact watched
    · dsimp only at waits ⊢
      simp [watched.1,waits]
    · cases begun.symm.trans never

/-- The base loop will never hear of the listening channel again. -/
structure Deaf (s : Server Functor) : Prop where
  started : s.started = true
  away : s.attending = .away
  silent : acceptChannel ∉ s.loop.activeChannels
  unmapped : ∀ fd, s.loop.poller.channels fd ≠ some (some acceptChannel)

theorem Attends.refused {s s' : Server Functor} (attends : Attends s)
    (stepped : Steps s (.registerConnection false) s') : Deaf s' := by
  obtain ⟨registering,rfl⟩ := registerConnection_cases stepped
  have here : s.attending ≠ .away := by
    rw [registering]
    exact nofun
  refine ⟨?_,rfl,(attends.inside here).2,fun fd held => ?_⟩
  · by_contra never
    exact here (attends.unstarted (eq_false_of_ne_true never)).1
  · change (s.loop.poller.updateChannel s.listenFd false).channels fd = _ at held
    obtain rfl := attends.sole fd (EpollPoller.update_channels held)
    have erased : (s.loop.poller.updateChannel s.listenFd false).channels s.listenFd = none :=
      Function.update_self ..
    cases erased.symm.trans held

theorem Deaf.step {s s' : Server Functor} (deaf : Deaf s) (attends : Attends s) {act : Act Functor}
    (stepped : Steps s act s') : Deaf s' ∧ ∀ arrival taken, act ≠ .turn arrival taken := by
  obtain ⟨started,away,silent,unmapped⟩ := deaf
  cases act with
  | arrive =>
    cases stepped
    exact ⟨⟨started,away,silent,unmapped⟩,nofun⟩
  | start granted =>
    obtain ⟨unstarted,_⟩ := start_cases stepped
    cases started.symm.trans unstarted
  | loop action =>
    refine ⟨?_,nofun⟩
    rcases loop_cases attends.apart stepped with ⟨minds,active,_,same⟩ | goes | ⟨events,polls⟩
    · rw [same]
      exact ⟨started,away,active ▸ silent,fun fd held => unmapped fd (minds.sole fd held)⟩
    · have quiet : ¬ s.Next := fun next => silent (List.mem_of_mem_head? next.2.2)
      have active := fun member => silent (goes.active member)
      obtain ⟨minds,_,_,_,same⟩ := goes
      rw [same] at active ⊢
      exact ⟨started,if_neg quiet,active,fun fd held => unmapped fd (minds.sole fd held)⟩
    · obtain ⟨_,reported⟩ := polls.reported attends
      have active := fun member => unmapped _ (reported.mp member).2
      obtain ⟨minds,_,_,_,_,_,same⟩ := polls
      rw [same] at active ⊢
      exact ⟨started,away,active,fun fd held => unmapped fd (minds.sole fd held)⟩
  | read revents =>
    obtain ⟨reported,_⟩ := Option.ite_none_right_eq_some.mp stepped
    cases away.symm.trans reported
  | turn arrival taken =>
    obtain ⟨arrivals,accepting,_⟩ := turn_cases stepped
    cases away.symm.trans accepting
  | registerConnection granted =>
    obtain ⟨registering,_⟩ := registerConnection_cases stepped
    cases away.symm.trans registering

end Server

/-- The turns of a call that has returned are those of `newConnection`, which looks at no further
arrival. -/
theorem newConnection_turns {pool : EventLoopThreadPool} (serving : Serving pool)
    {before : List Arrival} {last : Arrival} (continues : ∀ arrival ∈ before, Continues arrival)
    (returns : ¬ Continues last) (later : List Arrival) :
    ∃ batch, newConnection pool (before ++ last :: later) = .ok batch ∧ batch.left = later := by
  induction before generalizing pool with
  | nil =>
    rcases lt_or_ge 0 last.acceptFd with some | ended
    · obtain ⟨ioLoop,pool',next,_⟩ := serving.getNextLoop
      have fails : last.nonBlocking < 0 := by
        by_contra works
        exact returns ⟨some,Int.not_lt.mp works⟩
      exact ⟨_,newConnection_returns some fails next,rfl⟩
    · exact ⟨_,newConnection_ends ended,rfl⟩
  | cons arrival before ih =>
    obtain ⟨some,works⟩ := continues arrival (by simp)
    obtain ⟨ioLoop,pool',next,serving'⟩ := serving.getNextLoop
    obtain ⟨rest,after,left⟩ := ih serving' fun other member => continues other (by simp [member])
    exact ⟨_,newConnection_hands some works next after,left⟩

namespace Server

variable {wakeupFd listenFd : Nat} {acts : List (Act Functor)} {s : Server Functor}

theorem run_attends (apart : listenFd ≠ wakeupFd)
    (run : Run Steps (construct wakeupFd listenFd) acts s) : Attends s :=
  run.invariant Attends (fun _ _ _ attends stepped => attends.step stepped) (construct_attends apart)

theorem run_noticed (apart : listenFd ≠ wakeupFd)
    (run : Run Steps (construct wakeupFd listenFd) acts s) (granted : ∀ act ∈ acts, act.Granted) :
    Noticed s := by
  refine (run.invariant_of (fun s => Attends s ∧ Noticed s) Act.Granted ?_ granted
    ⟨construct_attends apart,?_⟩).2
  · exact fun _ _ _ ⟨attends,noticed⟩ granted stepped =>
      ⟨attends.step stepped,noticed.step attends granted stepped⟩
  · refine ⟨nofun,nofun,fun _ => ?_⟩
    simp [construct,Net.construct,EpollPoller.addChannel,EpollPoller.update,epollCtl,
      EpollPoller.empty,Function.update_of_ne apart]

theorem Deaf.run {s s' : Server Functor} (deaf : Deaf s) (attends : Attends s)
    (run : Run Steps s acts s') : ∀ arrival taken, .turn arrival taken ∉ acts := by
  induction run with
  | nil => exact fun _ _ => List.not_mem_nil
  | cons first _ ih =>
    obtain ⟨still,apart⟩ := deaf.step attends first
    intro arrival taken member
    rcases List.mem_cons.mp member with same | later
    · exact apart arrival taken same.symm
    · exact ih still (attends.step first) arrival taken later

/-- Nobody is left waiting at the listening socket. Whatever the calls of `accept` and of
`set_socket_non_blocking` come to, also where `newConnection` returns with clients that still wait:
when the base loop is in `epoll_wait` and somebody waits there is an event to report, which reaches
the channel. Each call of `newConnection` is one as the function makes it. The registration behind
every event is what this rests on: once `epoll_ctl` refuses it, `accept` is never called again. -/
theorem backlog_noticed (apart : listenFd ≠ wakeupFd)
    (run : Run Steps (construct wakeupFd listenFd) acts s) :
    ((∀ act ∈ acts, act.Granted) → s.started = true → s.loop.pc = .polling → 0 < s.backlog →
      s.ready = true ∧ s.loop.poller.interest s.listenFd = true ∧
        s.loop.poller.fillActiveChannels [s.listenFd] = some [acceptChannel]) ∧
    (∀ call ∈ s.calls, ∀ pool later, Serving pool →
      ∃ batch, newConnection pool (call ++ later) = .ok batch ∧ batch.left = later) ∧
    ∀ before after, acts = before ++ .registerConnection false :: after →
      ∀ arrival taken, .turn arrival taken ∉ after := by
  have attends := run_attends apart run
  refine ⟨fun granted started polling waits => ?_,?_,?_⟩
  · have noticed := run_noticed apart run granted
    obtain ⟨interest,mapped⟩ := noticed.watched started
    refine ⟨?_,interest,by simp [EpollPoller.fillActiveChannels,mapped]⟩
    rcases noticed.noticed started waits with ready | active | inside
    · exact ready
    · have here := attends.busy active
      rw [polling] at here
      cases here
    · have here := (attends.inside inside).1
      rw [polling] at here
      cases here
  · intro call member pool later serving
    obtain ⟨before,last,rfl,continues,returns⟩ := attends.called call member
    rw [List.append_assoc]
    exact newConnection_turns serving continues returns later
  · rintro before after rfl
    obtain ⟨middle,first,rest⟩ := run.split
    obtain _ | ⟨refused,rest⟩ := rest
    have attends := run_attends apart first
    exact (attends.refused refused).run (attends.step refused) rest

/-- Two clients wait, and the descriptor of the first cannot be made non-blocking. -/
def sampleActs : List (Act Unit) :=
  [.start true,.arrive,.arrive,.loop .loop,.loop .loop,.loop (.poll [4]),.loop .loop,
    .read Http.epollIn,.turn ⟨7,-1⟩ true,.registerConnection true] ++ List.replicate 7 (.loop .loop)

theorem backlog_noticed_sample : ∃ s : Server Unit, Run Steps (construct 3 4) sampleActs s ∧
    s.calls = [[⟨7,-1⟩]] ∧ s.backlog = 1 ∧ s.ready = true ∧
      s.loop.poller.fillActiveChannels [s.listenFd] = some [acceptChannel] := by
  have state : (perform step (construct 3 4) sampleActs).map
      (fun s => (s.calls,s.backlog,s.started,s.loop.pc)) =
        some ([[⟨7,-1⟩]],1,true,.polling) := by rfl
  obtain ⟨s,played,same⟩ := Option.map_eq_some_iff.mp state
  obtain ⟨calls,backlog,started,polling⟩ := by simpa only [Prod.mk.injEq] using same
  have run : Run Steps (construct 3 4) sampleActs s := perform_run (fun _ _ _ done => done) played
  have granted : ∀ act ∈ sampleActs, act.Granted := by simp [sampleActs,Act.Granted]
  obtain ⟨ready,_,filled⟩ := (backlog_noticed (by decide) run).1 granted started polling (by omega)
  exact ⟨s,run,calls,backlog,ready,filled⟩

end Server

end Deon.Net
