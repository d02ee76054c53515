import Deon.Net.Outcomes

/-! Which node of the timer queue holds a connection. Every event leaves the old node in the
queue and only clears its pointer, through `timer_`; so at most one node holds the connection,
and that is the node `timer_` points to. -/
namespace Deon.Net
open Library

namespace IoLoop

def Armed (i : Nat) (s : IoLoop) : Prop := ∃ node ∈ s.timerNodeQueue, node.http = some i

/-- The connection was registered: `channels_`, the active channels or a node name it. -/
def Known (i : Nat) (s : IoLoop) : Prop :=
  Armed i s ∨ i ∈ s.activeChannels ∨ ∃ fd, s.poller.channels fd = some (some i)

/-- The nodes of the queue and the weak pointers to them. -/
structure Timers (s : IoLoop) : Prop where
  made : ∀ node ∈ s.timerNodeQueue, node.id < s.nextNode ∧ node.created.ms ≤ s.clock.ms
  distinct : (s.timerNodeQueue.map TimerNode.id).Nodup
  numbers : ∀ i h, s.objects i = some h → ∀ timer, h.timer = some timer → timer < s.nextNode
  holder : ∀ node ∈ s.timerNodeQueue, ∀ i, node.http = some i → ∃ h, s.objects i = some h ∧
    h.timer = some node.id ∧ h.registered = some (node.created.ms,node.timeout)
  owner : ∀ node ∈ s.timerNodeQueue, ∀ i, node.http = some i → ∀ j h, s.objects j = some h →
    h.timer = some node.id → j = i

/-- The functors that are still to register a connection. -/
structure Waiting (s : IoLoop) : Prop where
  nodup : s.pendingFunctors.Nodup
  fresh : ∀ i ∈ s.pendingFunctors, i < s.nextObject ∧ ¬ Known i s
  known : ∀ i, Known i s → i < s.nextObject

/-- A state with the same timers and functors, in which only objects that neither of them
holds can be gone. -/
structure Retains (s s' : IoLoop) : Prop where
  clock : s'.clock = s.clock
  phase : s'.phase = s.phase
  timerNodeQueue : s'.timerNodeQueue = s.timerNodeQueue
  activeChannels : s'.activeChannels = s.activeChannels
  pendingFunctors : s'.pendingFunctors = s.pendingFunctors
  nextObject : s'.nextObject = s.nextObject
  nextNode : s'.nextNode = s.nextNode
  less : ∀ i h, s'.objects i = some h → s.objects i = some h
  kept : ∀ i, Armed i s ∨ i ∈ s.pendingFunctors → s'.objects i = s.objects i

theorem Retains.refl (s : IoLoop) : Retains s s :=
  ⟨rfl,rfl,rfl,rfl,rfl,rfl,rfl,fun _ _ => id,fun _ _ => rfl⟩

theorem Retains.trans {s s' s'' : IoLoop} (first : Retains s s') (second : Retains s' s'') :
    Retains s s'' where
  clock := second.clock.trans first.clock
  phase := second.phase.trans first.phase
  timerNodeQueue := second.timerNodeQueue.trans first.timerNodeQueue
  activeChannels := second.activeChannels.trans first.activeChannels
  pendingFunctors := second.pendingFunctors.trans first.pendingFunctors
  nextObject := second.nextObject.trans first.nextObject
  nextNode := second.nextNode.trans first.nextNode
  less := fun i h held => first.less i h (second.less i h held)
  kept := by
    intro i shared
    have shared' : Armed i s' ∨ i ∈ s'.pendingFunctors := by
      rwa [Armed,first.timerNodeQueue,first.pendingFunctors]
    exact (second.kept i shared').trans (first.kept i shared)

theorem release_cases (i : Nat) (s : IoLoop) : s.release i = s ∨
    ∃ h, s.objects i = some h ∧ ¬ Shared i h.fd s ∧ s.release i = s.destroy i h.fd := by
  unfold release
  cases found : s.objects i with
  | none => exact .inl rfl
  | some h =>
    by_cases shared : Shared i h.fd s
    · exact .inl (if_pos shared)
    · exact .inr ⟨h,rfl,shared,if_neg shared⟩

theorem release_retains (i : Nat) (s : IoLoop) : Retains s (s.release i) := by
  rcases release_cases i s with same | ⟨h,_,unshared,same⟩
  · rw [same]
    exact .refl s
  · rw [same]
    refine ⟨rfl,rfl,rfl,rfl,rfl,rfl,rfl,?_,?_⟩
    · intro j other held
      by_cases gone : j = i
      · rw [gone,destroy_self] at held
        cases held
      · rwa [destroy_other _ _ gone] at held
    · intro j shared
      refine destroy_other _ _ ?_
      rintro rfl
      exact unshared (shared.elim (fun armed => .inr (.inr armed)) .inl)

theorem retains_maps (s : IoLoop) (poller : EpollPoller Nat) (https : Nat → Option (Option Nat)) :
    Retains s {s with poller := poller,https := https} :=
  ⟨rfl,rfl,rfl,rfl,rfl,rfl,rfl,fun _ _ => id,fun _ _ => rfl⟩

theorem assignHttps_retains (fd : Nat) (pointer : Option Nat) (s : IoLoop) :
    Retains s (s.assignHttps fd pointer) := by
  have entered := retains_maps s s.poller (Function.update s.https fd (some pointer))
  unfold assignHttps
  split
  · exact entered.trans (release_retains ..)
  · exact entered

theorem deleteChannel_retains {i fd : Nat} {s s' : IoLoop} (done : s.deleteChannel i fd = .ok s') :
    Retains s s' := by
  unfold deleteChannel at done
  split at done <;> cases done
  exact (retains_maps ..).trans ((assignHttps_retains ..).trans (retains_maps ..))

theorem Timers.retains {s s' : IoLoop} (timers : Timers s) (retains : Retains s s') : Timers s' where
  made := by
    rw [retains.timerNodeQueue,retains.nextNode,retains.clock]
    exact timers.made
  distinct := by
    rw [retains.timerNodeQueue]
    exact timers.distinct
  numbers := by
    intro i h found timer pointed
    rw [retains.nextNode]
    exact timers.numbers i h (retains.less i h found) timer pointed
  holder := by
    intro node member i held
    rw [retains.timerNodeQueue] at member
    rw [retains.kept i (.inl ⟨node,member,held⟩)]
    exact timers.holder node member i held
  owner := by
    intro node member i held j h found pointed
    rw [retains.timerNodeQueue] at member
    exact timers.owner node member i held j h (retains.less j h found) pointed

theorem Timers.unique {s : IoLoop} (timers : Timers s) {node other : TimerNode} {i : Nat}
    (member : node ∈ s.timerNodeQueue) (held : node.http = some i)
    (member' : other ∈ s.timerNodeQueue) (held' : other.http = some i) : other = node := by
  obtain ⟨h,found,pointed,_⟩ := timers.holder node member i held
  obtain ⟨h',found',pointed',_⟩ := timers.holder other member' i held'
  obtain rfl := Option.some.inj (found.symm.trans found')
  have same := Option.some.inj (pointed'.symm.trans pointed)
  exact List.inj_on_of_nodup_map timers.distinct member' member same

theorem Timers.set {s : IoLoop} (timers : Timers s) {i : Nat} {h h' : HttpObject}
    (found : s.objects i = some h) (timer : h'.timer = h.timer)
    (kept : h'.registered = h.registered ∨ ¬ Armed i s) : Timers (s.set i h') where
  made := timers.made
  distinct := timers.distinct
  numbers := by
    intro j other found'
    rcases set_found found' with ⟨_,rfl⟩ | ⟨_,before⟩
    · rw [timer]
      exact timers.numbers i h found
    · exact timers.numbers j other before
  holder := by
    intro node member j held
    obtain ⟨other,before,pointed,registered⟩ := timers.holder node member j held
    by_cases same : j = i
    · obtain rfl := same
      obtain rfl := Option.some.inj (found.symm.trans before)
      have record := kept.resolve_right fun none => none ⟨node,member,held⟩
      exact ⟨h',set_self ..,timer.trans pointed,record.trans registered⟩
    · exact ⟨other,(set_other _ _ same).trans before,pointed,registered⟩
  owner := by
    intro node member j held k other found' pointed
    rcases set_found found' with ⟨rfl,rfl⟩ | ⟨_,before⟩
    · exact timers.owner node member j held k h found (timer ▸ pointed)
    · exact timers.owner node member j held k other before pointed

/-- The nodes that hold a connection behind `resetHttp` are the others. -/
theorem disarm_held {timer i : Nat} {node : TimerNode} {s : IoLoop} :
    node ∈ (s.disarm timer).timerNodeQueue ∧ node.http = some i ↔
      (node ∈ s.timerNodeQueue ∧ node.http = some i) ∧ node.id ≠ timer := by
  unfold disarm
  rw [List.mem_map]
  constructor
  · rintro ⟨⟨old,member,rfl⟩,held⟩
    by_cases reset : old.id = timer
    · simp [reset,TimerNode.resetHttp] at held
    · rw [if_neg reset] at held ⊢
      exact ⟨⟨member,held⟩,reset⟩
  · rintro ⟨⟨member,held⟩,other⟩
    exact ⟨⟨node,member,if_neg other⟩,held⟩

theorem disarm_old {timer : Nat} {node : TimerNode} {s : IoLoop}
    (member : node ∈ (s.disarm timer).timerNodeQueue) : ∃ old ∈ s.timerNodeQueue,
      node.id = old.id ∧ node.created = old.created ∧ node.timeout = old.timeout := by
  obtain ⟨old,before,rfl⟩ := List.mem_map.mp member
  refine ⟨old,before,?_⟩
  split <;> exact ⟨rfl,rfl,rfl⟩

theorem Timers.disarm {s : IoLoop} (timers : Timers s) (timer : Nat) : Timers (s.disarm timer) where
  made := by
    intro node member
    obtain ⟨old,before,id,created,_⟩ := disarm_old member
    rw [id,created]
    exact timers.made old before
  distinct := by
    have same : (s.disarm timer).timerNodeQueue.map TimerNode.id =
        s.timerNodeQueue.map TimerNode.id := by
      rw [IoLoop.disarm,List.map_map]
      apply List.map_congr_left
      intro node _
      simp only [Function.comp]
      split <;> rfl
    rw [same]
    exact timers.distinct
  numbers := timers.numbers
  holder := by
    intro node member i held
    obtain ⟨⟨before,_⟩,_⟩ := disarm_held.mp ⟨member,held⟩
    exact timers.holder node before i held
  owner := by
    intro node member i held
    obtain ⟨⟨before,_⟩,_⟩ := disarm_held.mp ⟨member,held⟩
    exact timers.owner node before i held

theorem Retains.armed {s s' : IoLoop} (retains : Retains s s') {i : Nat} :
    Armed i s' ↔ Armed i s := by
  rw [Armed,Armed,retains.timerNodeQueue]

theorem deleteTimer_cases (i : Nat) (s : IoLoop) :
    (s.deleteTimer i = s ∧ ∀ h, s.objects i = some h → h.timer = none) ∨
      ∃ h timer, s.objects i = some h ∧ h.timer = some timer ∧
        s.deleteTimer i = (s.disarm timer).release i := by
  unfold deleteTimer
  cases found : s.objects i with
  | none =>
    left
    exact ⟨rfl,fun h absent => by cases absent⟩
  | some h =>
    cases pointed : h.timer with
    | none =>
      simp only [Option.bind_some,pointed]
      exact .inl ⟨trivial,fun other same => Option.some.inj same ▸ pointed⟩
    | some timer =>
      simp only [Option.bind_some,pointed]
      exact .inr ⟨h,timer,rfl,pointed,rfl⟩

theorem Timers.deleteTimer {s : IoLoop} (timers : Timers s) (i : Nat) :
    Timers (s.deleteTimer i) ∧ ¬ Armed i (s.deleteTimer i) := by
  rcases deleteTimer_cases i s with ⟨same,none⟩ | ⟨h,timer,found,pointed,same⟩
  · rw [same]
    refine ⟨timers,?_⟩
    rintro ⟨node,member,held⟩
    obtain ⟨h,found,pointed,_⟩ := timers.holder node member i held
    rw [none h found] at pointed
    cases pointed
  · have released := release_retains i (s.disarm timer)
    rw [same]
    refine ⟨(timers.disarm timer).retains released,?_⟩
    rw [released.armed]
    rintro ⟨node,member,held⟩
    obtain ⟨⟨before,_⟩,other⟩ := disarm_held.mp ⟨member,held⟩
    obtain ⟨h',found',pointed',_⟩ := timers.holder node before i held
    obtain rfl := Option.some.inj (found.symm.trans found')
    exact other (Option.some.inj (pointed'.symm.trans pointed))

theorem Timers.addTimer {s : IoLoop} (timers : Timers s) {i timeout : Nat} {h : HttpObject}
    (found : s.objects i = some h) (unarmed : ¬ Armed i s)
    (registered : h.registered = some (s.clock.ms,timeout)) : Timers (s.addTimer i timeout) := by
  rw [addTimer_found found]
  have fresh : ∀ node ∈ s.timerNodeQueue, node.id ≠ s.nextNode :=
    fun node member => Nat.ne_of_lt (timers.made node member).1
  refine ⟨?_,?_,?_,?_,?_⟩
  · intro node member
    rcases List.mem_append.mp member with before | new
    · obtain ⟨id,created⟩ := timers.made node before
      exact ⟨Nat.lt_succ_of_lt id,created⟩
    · obtain rfl := List.mem_singleton.mp new
      exact ⟨Nat.lt_succ_self _,Nat.le_refl _⟩
  · rw [List.map_append,List.nodup_append]
    refine ⟨timers.distinct,List.nodup_singleton _,?_⟩
    intro id before other new
    obtain ⟨node,member,rfl⟩ := List.mem_map.mp before
    obtain rfl := List.mem_singleton.mp new
    exact fresh node member
  · intro j other found' timer pointed
    rcases set_found found' with ⟨rfl,rfl⟩ | ⟨_,before⟩
    · exact Option.some.inj pointed ▸ Nat.lt_succ_self _
    · exact Nat.lt_succ_of_lt (timers.numbers j other before timer pointed)
  · intro node member j held
    rcases List.mem_append.mp member with before | new
    · have apart : j ≠ i := by
        rintro rfl
        exact unarmed ⟨node,before,held⟩
      obtain ⟨other,found',rest⟩ := timers.holder node before j held
      exact ⟨other,(set_other _ _ apart).trans found',rest⟩
    · obtain rfl := List.mem_singleton.mp new
      obtain rfl := Option.some.inj held
      exact ⟨_,set_self ..,rfl,registered⟩
  · intro node member j held k other found' pointed
    rcases List.mem_append.mp member with before | new
    · rcases set_found found' with ⟨rfl,rfl⟩ | ⟨_,old⟩
      · exact absurd (Option.some.inj pointed).symm (fresh node before)
      · exact timers.owner node before j held k other old pointed
    · obtain rfl := List.mem_singleton.mp new
      obtain rfl := Option.some.inj held
      rcases set_found found' with ⟨same,_⟩ | ⟨_,old⟩
      · exact same
      · exact absurd (timers.numbers k other old _ pointed) (Nat.lt_irrefl _)

theorem Timers.addChannel {s : IoLoop} (timers : Timers s) {i fd timeout : Nat} {granted : Bool}
    {h : HttpObject} (found : s.objects i = some h) (unarmed : ¬ Armed i s)
    (registered : h.registered = some (s.clock.ms,timeout)) :
    Timers (s.addChannel i fd timeout granted) := by
  unfold IoLoop.addChannel enter
  dsimp only
  apply Timers.retains _ (retains_maps ..)
  split
  · apply Timers.retains _ (assignHttps_retains ..)
    exact Timers.addTimer (timers.retains (retains_maps ..)) found unarmed registered
  · exact timers.retains (retains_maps ..)

theorem Timers.updateChannel {s : IoLoop} (timers : Timers s) {i fd timeout : Nat} {granted : Bool}
    {h : HttpObject} (found : s.objects i = some h) (unarmed : ¬ Armed i s)
    (registered : h.registered = some (s.clock.ms,timeout)) :
    Timers (s.updateChannel i fd timeout granted) := by
  unfold IoLoop.updateChannel
  dsimp only
  apply Timers.retains _ (retains_maps ..)
  split
  · exact timers.addTimer found unarmed registered
  · exact timers

/-- What an operation on one connection leaves alone. -/
structure Acts (i : Nat) (s s' : IoLoop) : Prop where
  clock : s'.clock = s.clock
  phase : s'.phase = s.phase
  activeChannels : s'.activeChannels = s.activeChannels
  pendingFunctors : s'.pendingFunctors = s.pendingFunctors
  nextObject : s'.nextObject = s.nextObject
  armed : ∀ j, Armed j s' → j = i ∨ Armed j s
  channels : ∀ fd j, s'.poller.channels fd = some (some j) →
    j = i ∨ s.poller.channels fd = some (some j)

theorem Acts.trans {i : Nat} {s s' s'' : IoLoop} (first : Acts i s s') (second : Acts i s' s'') :
    Acts i s s'' where
  clock := second.clock.trans first.clock
  phase := second.phase.trans first.phase
  activeChannels := second.activeChannels.trans first.activeChannels
  pendingFunctors := second.pendingFunctors.trans first.pendingFunctors
  nextObject := second.nextObject.trans first.nextObject
  armed := fun j held => (second.armed j held).elim .inl (first.armed j)
  channels := fun fd j held => (second.channels fd j held).elim .inl (first.channels fd j)

theorem Acts.known {i j : Nat} {s s' : IoLoop} (acts : Acts i s s') (known : Known j s') :
    j = i ∨ Known j s := by
  rcases known with armed | active | ⟨fd,held⟩
  · exact (acts.armed j armed).imp_right .inl
  · rw [acts.activeChannels] at active
    exact .inr (.inr (.inl active))
  · exact (acts.channels fd j held).imp_right fun before => .inr (.inr ⟨fd,before⟩)

theorem Retains.acts {s s' : IoLoop} (retains : Retains s s') {i : Nat}
    (channels : ∀ fd j, s'.poller.channels fd = some (some j) →
      j = i ∨ s.poller.channels fd = some (some j)) : Acts i s s' where
  clock := retains.clock
  phase := retains.phase
  activeChannels := retains.activeChannels
  pendingFunctors := retains.pendingFunctors
  nextObject := retains.nextObject
  armed := fun _ held => .inr (retains.armed.mp held)
  channels := channels

theorem release_channels (i : Nat) (s : IoLoop) :
    (s.release i).poller.channels = s.poller.channels := by
  rcases release_cases i s with same | ⟨h,_,_,same⟩ <;> rw [same]
  rfl

theorem release_acts (i j : Nat) (s : IoLoop) : Acts j s (s.release i) :=
  (release_retains i s).acts fun _ _ held => .inr (release_channels i s ▸ held)

theorem assignHttps_acts (i fd : Nat) (pointer : Option Nat) (s : IoLoop) :
    Acts i s (s.assignHttps fd pointer) := by
  refine (assignHttps_retains fd pointer s).acts fun other j held => .inr ?_
  unfold assignHttps at held
  split at held
  · rwa [release_channels] at held
  · exact held

theorem update_acts (i fd : Nat) (operation : Operation) (isDelete granted : Bool) (s : IoLoop) :
    Acts i s {s with poller := s.poller.update operation fd isDelete granted} :=
  (retains_maps ..).acts fun _ _ held => .inr (EpollPoller.update_channels held)

theorem set_acts (i : Nat) (h : HttpObject) (s : IoLoop) : Acts i s (s.set i h) :=
  ⟨rfl,rfl,rfl,rfl,rfl,fun _ => .inr,fun _ _ => .inr⟩

theorem point_acts {i : Nat} {pointer : Option Nat} (own : pointer = some i ∨ pointer = none)
    (fd : Nat) (s : IoLoop) : Acts i s {s with poller := {s.poller with
      channels := Function.update s.poller.channels fd (some pointer)}} := by
  refine (retains_maps s _ s.https).acts fun other j held => ?_
  by_cases same : other = fd
  · simp only [same,Function.update_self,Option.some.injEq] at held
    rcases own with rfl | rfl
    · exact .inl (Option.some.inj held).symm
    · cases held
  · exact .inr ((Function.update_of_ne same ..).symm.trans held)

theorem addTimer_acts (i timeout : Nat) (s : IoLoop) : Acts i s (s.addTimer i timeout) := by
  cases found : s.objects i with
  | none =>
    have same : s.addTimer i timeout = s := by
      unfold addTimer
      rw [found]
    rw [same]
    exact (Retains.refl s).acts fun _ _ => .inr
  | some h =>
    rw [addTimer_found found]
    refine ⟨rfl,rfl,rfl,rfl,rfl,?_,fun _ _ => .inr⟩
    rintro j ⟨node,member,held⟩
    rcases List.mem_append.mp member with before | new
    · exact .inr ⟨node,before,held⟩
    · obtain rfl := List.mem_singleton.mp new
      exact .inl (Option.some.inj held).symm

theorem disarm_acts (i timer : Nat) (s : IoLoop) : Acts i s (s.disarm timer) := by
  refine ⟨rfl,rfl,rfl,rfl,rfl,?_,fun _ _ => .inr⟩
  rintro j ⟨node,member,held⟩
  obtain ⟨before,_⟩ := disarm_held.mp ⟨member,held⟩
  exact .inr ⟨node,before⟩

theorem deleteTimer_acts (i : Nat) (s : IoLoop) : Acts i s (s.deleteTimer i) := by
  rcases deleteTimer_cases i s with ⟨same,_⟩ | ⟨_,timer,_,_,same⟩
  · rw [same]
    exact (Retains.refl s).acts fun _ _ => .inr
  · rw [same]
    exact (disarm_acts i timer s).trans (release_acts ..)

theorem addChannel_acts (i fd timeout : Nat) (granted : Bool) (s : IoLoop) :
    Acts i s (s.addChannel i fd timeout granted) := by
  unfold addChannel enter
  dsimp only
  apply Acts.trans _ (update_acts ..)
  have entered := point_acts (.inl rfl : some i = some i ∨ some i = none) fd s
  split
  · exact entered.trans ((addTimer_acts ..).trans (assignHttps_acts ..))
  · exact entered

theorem updateChannel_acts (i fd timeout : Nat) (granted : Bool) (s : IoLoop) :
    Acts i s (s.updateChannel i fd timeout granted) := by
  unfold updateChannel
  dsimp only
  apply Acts.trans _ (update_acts ..)
  split
  · exact addTimer_acts ..
  · exact (Retains.refl s).acts fun _ _ => .inr

theorem deleteChannel_acts {i fd : Nat} {s s' : IoLoop} (done : s.deleteChannel i fd = .ok s') :
    Acts i s s' := by
  unfold deleteChannel at done
  split at done <;> cases done
  exact (point_acts (.inr rfl) fd s).trans ((assignHttps_acts ..).trans (update_acts ..))

theorem registerHttp_acts {i : Nat} {granted : Bool} {s s' : IoLoop}
    (done : s.registerHttp i granted = .ok s') : Acts i s s' := by
  obtain ⟨h,h',_,_,_,_,rfl⟩ := registerHttp_ok done
  exact (set_acts i h' s).trans (addChannel_acts ..)

theorem handleRegister_acts {i : Nat} {granted : Bool} {s s' : IoLoop}
    (done : s.handleRegister i granted = .ok s') : Acts i s s' := by
  have acts := deleteTimer_acts i s
  obtain ⟨h,_,⟨h',timeout,_,_,_,_,rfl⟩ | closed⟩ := handleRegister_ok done
  · have set := acts.trans (set_acts i h' (s.deleteTimer i))
    exact set.trans (updateChannel_acts ..)
  · exact acts.trans (deleteChannel_acts closed)

theorem handleEvents_acts {i : Nat} {event : Http.Event} {s s' : IoLoop}
    (done : s.handleEvents i event = .ok s') : Acts i s s' := by
  obtain ⟨h,members,_,registered⟩ := handleEvents_ok done
  exact (set_acts i _ s).trans (handleRegister_acts registered)

theorem pop_acts (i : Nat) (node : TimerNode) (s : IoLoop) : Acts i s (s.pop node) := by
  refine ⟨rfl,rfl,rfl,rfl,rfl,?_,fun _ _ => .inr⟩
  rintro j ⟨other,member,held⟩
  exact .inr ⟨other,List.mem_of_mem_filter member,held⟩

end IoLoop

end Deon.Net
