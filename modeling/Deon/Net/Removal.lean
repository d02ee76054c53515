import Deon.Net.Timeouts

/-! Each connection is removed once. As long as the kernel registers what it is asked to, the
entries of `channels_` and `https_` and the interest list tell the same connections, every
connection that a node holds is among them, and the assertions of `deleteChannel` hold. -/
namespace Deon.Net
open Library

namespace IoLoop

/-- `epoll_ctl` succeeds, where an action asks it to add or to modify. -/
def Granted : Action → Prop
  | .register _ granted => granted = true
  | .dispatch event => event.env.ctl = true
  | _ => True

structure Consistent (s : IoLoop) : Prop where
  entered : ∀ fd i, s.https fd = some (some i) → s.poller.channels fd = some (some i)
  interest : ∀ fd, s.poller.interest fd = true ↔ ∃ i, s.poller.channels fd = some (some i)
  armed : ∀ i, Armed i s → Registered i s
  nodup : s.activeChannels.Nodup
  active : ∀ i ∈ s.activeChannels, Registered i s
  idle : s.phase ≠ .handling → s.activeChannels = []

theorem start_consistent (clock : Timeval) : Consistent (start clock) where
  entered := by
    intro fd i held
    cases held
  interest := by
    intro fd
    refine iff_of_false nofun ?_
    rintro ⟨i,held⟩
    cases held
  armed := by
    rintro i ⟨node,member,_⟩
    cases member
  nodup := List.nodup_nil
  active := by
    intro i member
    cases member
  idle := fun _ => rfl

theorem Consistent.same {s s' : IoLoop} (consistent : Consistent s)
    (descriptors : ∀ i fd, descriptor i s = some fd → descriptor i s' = some fd)
    (https : s'.https = s.https) (poller : s'.poller = s.poller) (armed : ∀ i, Armed i s' → Registered i s)
    (active : s'.activeChannels.Sublist s.activeChannels)
    (idle : s'.phase ≠ .handling → s'.activeChannels = []) : Consistent s' := by
  have registered : ∀ i, Registered i s → Registered i s' := by
    rintro i ⟨fd,alive,entry⟩
    exact ⟨fd,descriptors i fd alive,poller ▸ entry⟩
  refine ⟨?_,?_,?_,?_,?_,idle⟩
  · rw [https,poller]
    exact consistent.entered
  · rw [poller]
    exact consistent.interest
  · exact fun i held => registered i (armed i held)
  · exact consistent.nodup.sublist active
  · exact fun i member => registered i (consistent.active i (active.subset member))

theorem Owned.entry {s : IoLoop} (owned : Owned s) {fd i : Nat}
    (entry : s.poller.channels fd = some (some i)) : descriptor i s = some fd :=
  owned.https fd i (owned.channels fd i entry)

theorem Consistent.known {s : IoLoop} (consistent : Consistent s) (owned : Owned s) {i : Nat}
    (known : Known i s) : Registered i s := by
  rcases known with armed | active | ⟨fd,entry⟩
  · exact consistent.armed i armed
  · exact consistent.active i active
  · exact ⟨fd,owned.entry entry,entry⟩

theorem Registered.known {i : Nat} {s : IoLoop} (registered : Registered i s) : Known i s := by
  obtain ⟨fd,_,entry⟩ := registered
  exact .inr (.inr ⟨fd,entry⟩)

theorem Owned.release_registered {s : IoLoop} (owned : Owned s) {i : Nat}
    (registered : Registered i s) : s.release i = s := by
  obtain ⟨fd,alive,entry⟩ := registered
  exact release_held alive (owned.channels fd i entry)

theorem Consistent.release {s : IoLoop} (consistent : Consistent s) (owned : Owned s) (i : Nat) :
    Consistent (s.release i) := by
  by_cases registered : Registered i s
  · rw [owned.release_registered registered]
    exact consistent
  · rcases release_cases i s with same | ⟨h,found,_,same⟩
    · rw [same]
      exact consistent
    · have alive := descriptor_found found
      have kept : ∀ j, Registered j s → Registered j (s.destroy i h.fd) := by
        rintro j ⟨fd,before,entry⟩
        have apart : j ≠ i := by
          rintro rfl
          exact registered ⟨fd,before,entry⟩
        exact ⟨fd,by rwa [descriptor,destroy_other _ _ apart],entry⟩
      rw [same]
      refine ⟨consistent.entered,?_,?_,consistent.nodup,?_,consistent.idle⟩
      · intro fd
        by_cases own : fd = h.fd
        · refine iff_of_false ?_ ?_
          · simp [destroy,own]
          · -- an entry would be the one of the object itself
            rintro ⟨j,entry⟩
            rw [own] at entry
            obtain rfl := owned.fds j i h.fd (owned.entry entry) alive
            exact registered ⟨h.fd,alive,entry⟩
        · have other : (s.destroy i h.fd).poller.interest fd = s.poller.interest fd :=
            Function.update_of_ne own ..
          rw [other]
          exact consistent.interest fd
      · exact fun j armed => kept j (consistent.armed j armed)
      · exact fun j member => kept j (consistent.active j member)

theorem Consistent.cleared {s : IoLoop} (consistent : Consistent s) (owned : Owned s) {i fd : Nat}
    (entry : s.poller.channels fd = some (some i)) (unarmed : ¬ Armed i s)
    (idle : i ∉ s.activeChannels) : Consistent ((s.cleared fd).release i) := by
  have kept : ∀ j, j ≠ i → Registered j s → Registered j (s.cleared fd) := by
    rintro j apart ⟨other,alive,entry'⟩
    refine ⟨other,alive,(Function.update_of_ne ?_ ..).trans entry'⟩
    rintro rfl
    exact apart (Option.some.inj (Option.some.inj (entry'.symm.trans entry)))
  have cleared : Consistent (s.cleared fd) := by
    refine ⟨?_,?_,?_,consistent.nodup,?_,consistent.idle⟩
    · intro other j held
      by_cases same : other = fd
      · simp [IoLoop.cleared,same] at held
      · have before := (Function.update_of_ne same ..).symm.trans held
        exact (Function.update_of_ne same ..).trans (consistent.entered other j before)
    · intro other
      by_cases same : other = fd
      · simp [IoLoop.cleared,same]
      · have interest : (s.cleared fd).poller.interest other = s.poller.interest other :=
          Function.update_of_ne same ..
        have channels : (s.cleared fd).poller.channels other = s.poller.channels other :=
          Function.update_of_ne same ..
        rw [interest,channels]
        exact consistent.interest other
    · rintro j armed
      refine kept j ?_ (consistent.armed j armed)
      rintro rfl
      exact unarmed armed
    · intro j member
      refine kept j ?_ (consistent.active j member)
      rintro rfl
      exact idle member
  exact cleared.release (owned.cleared fd) i

theorem Consistent.deleteTimer {s : IoLoop} (consistent : Consistent s) (owned : Owned s) (i : Nat) :
    Consistent (s.deleteTimer i) := by
  rcases deleteTimer_cases i s with ⟨same,_⟩ | ⟨_,timer,_,_,same⟩
  · rw [same]
    exact consistent
  · rw [same]
    apply Consistent.release
    · refine consistent.same (fun _ _ => id) rfl rfl ?_ (.refl _) consistent.idle
      rintro j ⟨node,member,held⟩
      obtain ⟨before,_⟩ := disarm_held.mp ⟨member,held⟩
      exact consistent.armed j ⟨node,before⟩
    · exact owned.same (fun _ => rfl) rfl (fun _ _ => id) (fun _ => id) rfl

theorem deleteTimer_registered {s : IoLoop} (owned : Owned s) {i : Nat}
    (registered : Registered i s) : Registered i (s.deleteTimer i) := by
  rcases deleteTimer_cases i s with ⟨same,_⟩ | ⟨_,timer,_,_,same⟩
  · rw [same]
    exact registered
  · have disarmed : Owned (s.disarm timer) :=
      owned.same (fun _ => rfl) rfl (fun _ _ => id) (fun _ => id) rfl
    rw [same,disarmed.release_registered registered]
    exact registered

theorem Consistent.set {s : IoLoop} (consistent : Consistent s) {i : Nat} {h : HttpObject}
    (found : s.objects i = some h) (h' : HttpObject) (fd : h'.fd = h.fd) : Consistent (s.set i h') :=
  consistent.same (fun j _ alive => (set_descriptor found h' fd j).trans alive) rfl rfl
    consistent.armed (.refl _) consistent.idle

theorem Consistent.addTimer {s : IoLoop} (consistent : Consistent s) {i : Nat}
    (registered : Registered i s) (timeout : Nat) : Consistent (s.addTimer i timeout) := by
  have armed : ∀ j, Armed j (s.addTimer i timeout) → Registered j s := by
    intro j held
    rcases (addTimer_acts i timeout s).armed j held with rfl | before
    · exact registered
    · exact consistent.armed j before
  obtain ⟨fd,alive,_⟩ := registered
  obtain ⟨h,found,_⟩ := found_descriptor alive
  rw [addTimer_found found] at armed ⊢
  have same := set_descriptor found {h with timer := some s.nextNode} rfl
  exact consistent.same (fun j _ alive => (same j).trans alive) rfl rfl armed (.refl _)
    consistent.idle

theorem update_mod {p : EpollPoller Nat} {fd : Nat} (inside : p.interest fd = true) :
    p.update .mod fd false true = p := by
  simp [EpollPoller.update,epollCtl,inside]

theorem Consistent.updateChannel {s : IoLoop} (consistent : Consistent s) {i fd : Nat}
    (alive : descriptor i s = some fd) (entry : s.poller.channels fd = some (some i))
    {timeout : Nat} (positive : 0 < timeout) : Consistent (s.updateChannel i fd timeout true) := by
  have timed := consistent.addTimer ⟨fd,alive,entry⟩ timeout
  have inside : s.poller.interest fd = true := (consistent.interest fd).mpr ⟨i,entry⟩
  obtain ⟨h,found,_⟩ := found_descriptor alive
  unfold IoLoop.updateChannel
  rw [if_pos positive]
  rw [addTimer_found found] at timed ⊢
  dsimp only at timed ⊢
  rw [update_mod (by exact inside)]
  exact timed

theorem Sound.handleRegister_granted {s : IoLoop} (sound : Sound s) (consistent : Consistent s)
    {i : Nat} (registered : Registered i s) (idle : i ∉ s.activeChannels) :
    ∃ s', s.handleRegister i true = .ok s' ∧ Consistent s' := by
  have unarmed := (sound.timers.deleteTimer i).2
  have owned := sound.owned.deleteTimer i
  have kept := consistent.deleteTimer sound.owned i
  have registered := deleteTimer_registered sound.owned registered
  have idle : i ∉ (s.deleteTimer i).activeChannels := (deleteTimer_acts i s).activeChannels ▸ idle
  obtain ⟨fd,alive,entry⟩ := registered
  obtain ⟨h,found,rfl⟩ := found_descriptor alive
  rcases handleRegister_found found true with ⟨h',timeout,fd,_,_,positive,same⟩ | same
  · refine ⟨_,same,?_⟩
    have alive' := (set_descriptor found h' fd i).trans alive
    exact (kept.set found h' fd).updateChannel alive' entry positive
  · exact ⟨_,same.trans (owned.deleteChannel_eq entry),kept.cleared owned entry unarmed idle⟩

theorem Sound.handleEvents_granted {s : IoLoop} (sound : Sound s) (consistent : Consistent s)
    {i : Nat} (registered : Registered i s) (idle : i ∉ s.activeChannels) {event : Http.Event}
    (granted : event.env.ctl = true) :
    (∃ fault, s.handleEvents i event = .error (.fault fault)) ∨
      ∃ s', s.handleEvents i event = .ok s' ∧ Consistent s' := by
  obtain ⟨fd,alive,entry⟩ := registered
  obtain ⟨h,found,_⟩ := found_descriptor alive
  rcases handleEvents_found found event with failed | ⟨members,same⟩
  · exact .inl failed
  · have set := sound.set found {h with members := members} rfl rfl rfl
    have alive' := (set_descriptor found {h with members := members} rfl i).trans alive
    rw [same,granted]
    exact .inr (set.handleRegister_granted (consistent.set found _ rfl) ⟨fd,alive',entry⟩ idle)

/-- The entries of a descriptor behind its first registration. -/
def registered (i fd : Nat) (s : IoLoop) : IoLoop :=
  {s with
    poller := ⟨Function.update s.poller.channels fd (some (some i)),
      Function.update s.poller.interest fd true⟩
    https := Function.update s.https fd (some (some i))}

theorem addChannel_eq {s : IoLoop} {i : Nat} {h : HttpObject} (found : s.objects i = some h)
    (free : ∀ j, s.https h.fd ≠ some (some j)) (outside : s.poller.interest h.fd = false)
    {timeout : Nat} (positive : 0 < timeout) :
    s.addChannel i h.fd timeout true = (s.registered i h.fd).addTimer i timeout := by
  unfold addChannel
  rw [enter_found found h.fd positive,addTimer_found found,addTimer_found (by exact found)]
  unfold assignHttps
  dsimp only [IoLoop.set]
  split
  · rename_i old held
    exact absurd held (free old)
  · simp [EpollPoller.update,epollCtl,outside,registered]

theorem Consistent.registered {s : IoLoop} (consistent : Consistent s) {i fd : Nat}
    (alive : descriptor i s = some fd) (free : ∀ j, s.poller.channels fd ≠ some (some j)) :
    Consistent (s.registered i fd) ∧ Registered i (s.registered i fd) := by
  have kept : ∀ j, Registered j s → Registered j (s.registered i fd) := by
    rintro j ⟨other,alive',entry⟩
    refine ⟨other,alive',(Function.update_of_ne ?_ ..).trans entry⟩
    rintro rfl
    exact free j entry
  refine ⟨⟨?_,?_,?_,consistent.nodup,?_,consistent.idle⟩,fd,alive,Function.update_self ..⟩
  · intro other j held
    by_cases same : other = fd
    · simp only [IoLoop.registered,same,Function.update_self] at held ⊢
      exact held
    · have before := (Function.update_of_ne same ..).symm.trans held
      exact (Function.update_of_ne same ..).trans (consistent.entered other j before)
  · intro other
    by_cases same : other = fd
    · simp [IoLoop.registered,same]
    · have interest : (s.registered i fd).poller.interest other = s.poller.interest other :=
        Function.update_of_ne same ..
      have channels : (s.registered i fd).poller.channels other = s.poller.channels other :=
        Function.update_of_ne same ..
      rw [interest,channels]
      exact consistent.interest other
  · exact fun j armed => kept j (consistent.armed j armed)
  · exact fun j member => kept j (consistent.active j member)

theorem Owned.addChannel_granted {s : IoLoop} (owned : Owned s) (consistent : Consistent s) {i : Nat}
    {h : HttpObject} (found : s.objects i = some h) (unknown : ¬ Known i s) {timeout : Nat}
    (positive : 0 < timeout) : Consistent (s.addChannel i h.fd timeout true) := by
  have alive := descriptor_found found
  have free : ∀ j, s.https h.fd ≠ some (some j) := by
    intro j held
    obtain rfl := owned.fds j i h.fd (owned.https _ j held) alive
    exact unknown (.inr (.inr ⟨h.fd,consistent.entered _ j held⟩))
  have free' : ∀ j, s.poller.channels h.fd ≠ some (some j) :=
    fun j entry => free j (owned.channels _ j entry)
  have outside : s.poller.interest h.fd = false := by
    by_contra inside
    obtain ⟨j,entry⟩ := (consistent.interest h.fd).mp (by simpa using inside)
    exact free' j entry
  obtain ⟨entered,registered⟩ := consistent.registered alive free'
  rw [addChannel_eq found free outside positive]
  exact entered.addTimer registered timeout

theorem Sound.destroyNode_granted {s : IoLoop} (sound : Sound s) (consistent : Consistent s)
    {node : TimerNode} (member : node ∈ s.timerNodeQueue) (phase : s.phase ≠ .handling) :
    ∃ s', s.destroyNode node = .ok s' ∧ Consistent s' := by
  have popped : Consistent (s.pop node) := by
    refine consistent.same (fun _ _ => id) rfl rfl ?_ (.refl _) consistent.idle
    rintro j ⟨other,inside,held⟩
    exact consistent.armed j ⟨other,List.mem_of_mem_filter inside,held⟩
  cases held : node.http with
  | none =>
    refine ⟨s.pop node,?_,popped⟩
    unfold IoLoop.destroyNode
    rw [held]
  | some i =>
    obtain ⟨fd,alive,entry⟩ := consistent.armed i ⟨node,member,held⟩
    obtain ⟨h,found,rfl⟩ := found_descriptor alive
    refine ⟨_,sound.owned.destroyNode_eq member held found entry,?_⟩
    refine popped.cleared (sound.owned.pop node) entry ?_ ?_
    · rintro ⟨other,inside,held'⟩
      obtain ⟨before,apart⟩ := List.mem_filter.mp inside
      obtain rfl := sound.timers.unique member held before held'
      simp at apart
    · have none : (s.pop node).activeChannels = [] := consistent.idle phase
      rw [none]
      exact List.not_mem_nil

theorem Consistent.goOn {s : IoLoop} (consistent : Consistent s) (clock : Timeval) (phase : Phase)
    {activeChannels : List Nat} (nodup : activeChannels.Nodup)
    (active : ∀ i ∈ activeChannels, Registered i s) (idle : phase ≠ .handling → activeChannels = []) :
    Consistent {s with clock := clock,phase := phase,activeChannels := activeChannels} where
  entered := consistent.entered
  interest := consistent.interest
  armed := consistent.armed
  nodup := nodup
  active := active
  idle := idle

/-- What a poll makes active: every event of an interesting descriptor has its channel. -/
theorem Sound.poll_granted {s : IoLoop} (sound : Sound s) (consistent : Consistent s)
    {events : List Nat} (nodup : events.Nodup) (inside : ∀ fd ∈ events, s.poller.interest fd = true) :
    ∃ active, s.poller.fillActiveChannels events = some active ∧ active.Nodup ∧
      ∀ i ∈ active, Registered i s := by
  have whole : ∀ fd ∈ events, s.poller.channels fd ≠ some none := by
    intro fd member null
    obtain ⟨i,entry⟩ := (consistent.interest fd).mp (inside fd member)
    cases null.symm.trans entry
  obtain ⟨active,filled⟩ := EpollPoller.fillActiveChannels_whole whole
  refine ⟨active,filled,?_,?_⟩
  · rw [EpollPoller.fillActiveChannels_eq filled]
    refine nodup.filterMap ?_
    intro fd other i one two
    have one := sound.owned.entry (Option.join_eq_some_iff.mp one)
    have two := sound.owned.entry (Option.join_eq_some_iff.mp two)
    exact Option.some.inj (one.symm.trans two)
  · intro i member
    obtain ⟨fd,_,entry⟩ := (EpollPoller.fillActiveChannels_mem filled i).mp member
    exact ⟨fd,sound.owned.entry entry,entry⟩

/-- One step, while the kernel registers what it is asked to: only a handler can fail. -/
theorem Sound.step_granted {s : IoLoop} (sound : Sound s) (consistent : Consistent s)
    {action : Action} (granted : Granted action) {result : Except Trap IoLoop}
    (stepped : IoLoop.step s action = some result) : (∃ fault, result = .error (.fault fault)) ∨
      ∃ s', result = .ok s' ∧ Consistent s' := by
  cases action with
  | tick now =>
    obtain ⟨_,done⟩ := Option.ite_none_right_eq_some.mp stepped
    cases done
    exact .inr ⟨_,rfl,consistent.goOn now s.phase consistent.nodup consistent.active consistent.idle⟩
  | accept fd root mime =>
    obtain ⟨_,done⟩ := Option.ite_none_right_eq_some.mp stepped
    cases done
    refine .inr ⟨_,rfl,consistent.same ?_ rfl rfl consistent.armed (.refl _) consistent.idle⟩
    intro i fd alive
    have apart := Nat.ne_of_lt (sound.owned.number i fd alive)
    exact (congrArg _ (set_other _ s apart)).trans alive
  | register i granted' =>
    cases granted
    obtain ⟨⟨member,_⟩,done⟩ := Option.ite_none_right_eq_some.mp stepped
    obtain ⟨fd,alive⟩ := sound.owned.pending i member
    obtain ⟨h,found,_⟩ := found_descriptor alive
    obtain ⟨h',fd,timer,registered,same⟩ := registerHttp_found found true
    rw [same] at done
    cases done
    refine .inr ⟨_,rfl,?_⟩
    have unknown := (sound.waiting.fresh i member).2
    have set := consistent.set found h' fd
    have added := (sound.owned.set found h' fd).addChannel_granted set (set_self i h' s) unknown
      (by decide : 0 < Http.defaultExpiredTime)
    rw [fd] at added
    apply Consistent.release
    · exact added.same (fun _ _ => id) rfl rfl added.armed (.refl _) added.idle
    · exact (sound.register member found fd timer registered true).owned
  | poll events =>
    obtain ⟨⟨_,nodup,inside⟩,done⟩ := Option.ite_none_right_eq_some.mp stepped
    obtain ⟨active,filled,nodup,registered⟩ := sound.poll_granted consistent nodup inside
    rw [filled] at done
    cases done
    exact .inr ⟨_,rfl,consistent.goOn s.clock .handling nodup registered (absurd rfl)⟩
  | dispatch event =>
    obtain ⟨i,rest,here,first,done⟩ := dispatch_cases stepped
    have distinct := consistent.nodup
    rw [first] at distinct
    obtain ⟨absent,nodup⟩ := List.nodup_cons.mp distinct
    have active : ∀ j ∈ rest, Registered j s :=
      fun j member => consistent.active j (by simp [first,member])
    have registered : Registered i s := consistent.active i (by simp [first])
    have rested : Sound {s with activeChannels := rest} :=
      sound.goOn (Nat.le_refl _) s.phase fun j member => (active j member).known
    have kept := consistent.goOn s.clock s.phase nodup active (absurd here)
    rw [← done]
    exact rested.handleEvents_granted kept registered absent granted
  | handled =>
    obtain ⟨⟨_,empty⟩,done⟩ := Option.ite_none_right_eq_some.mp stepped
    cases done
    exact .inr ⟨_,rfl,consistent.goOn s.clock .between consistent.nodup consistent.active
      fun _ => empty⟩
  | sweep =>
    obtain ⟨between,done⟩ := Option.ite_none_right_eq_some.mp stepped
    cases done
    refine .inr ⟨_,rfl,consistent.goOn s.clock .sweeping consistent.nodup consistent.active ?_⟩
    exact fun _ => consistent.idle (by simp [between])
  | expire id =>
    obtain ⟨node,member,_,phase,_,_,done⟩ := expire_cases stepped
    obtain ⟨s',same,kept⟩ := sound.destroyNode_granted consistent member (by simp [phase])
    exact .inr ⟨s',done.symm.trans same,kept⟩
  | swept =>
    obtain ⟨⟨phase,_⟩,done⟩ := Option.ite_none_right_eq_some.mp stepped
    cases done
    refine .inr ⟨_,rfl,consistent.goOn s.clock .between consistent.nodup consistent.active ?_⟩
    exact fun _ => consistent.idle (by simp [phase])

theorem Sound.step_consistent {s s' : IoLoop} (sound : Sound s) (consistent : Consistent s)
    {action : Action} (granted : Granted action) (stepped : Steps s action s') : Consistent s' := by
  rcases sound.step_granted consistent granted stepped with ⟨_,failed⟩ | ⟨_,same,kept⟩
  · cases failed
  · cases same
    exact kept

theorem run_consistent {clock : Timeval} {labels : List Action} {s : IoLoop}
    (run : Run Steps (start clock) labels s) (granted : ∀ action ∈ labels, Granted action) :
    Sound s ∧ Consistent s := by
  refine run.invariant_of (fun s => Sound s ∧ Consistent s) Granted ?_ granted
    ⟨start_sound clock,start_consistent clock⟩
  rintro s action s' ⟨sound,consistent⟩ granted stepped
  exact ⟨sound.step stepped,sound.step_consistent consistent granted stepped⟩

/-- How connections get to know to the loop: they are accepted, and then registered. -/
structure Progress (s s' : IoLoop) : Prop where
  number : s.nextObject ≤ s'.nextObject
  pending : ∀ i ∈ s'.pendingFunctors, i ∈ s.pendingFunctors ∨ s.nextObject ≤ i
  known : ∀ i, Known i s' → Known i s ∨ i ∈ s.pendingFunctors

theorem Progress.idle {s s' : IoLoop} (number : s'.nextObject = s.nextObject)
    (pending : s'.pendingFunctors = s.pendingFunctors) (known : ∀ i, Known i s' → Known i s) :
    Progress s s' :=
  ⟨Nat.le_of_eq number.symm,fun _ member => .inl (pending ▸ member),
    fun i held => .inl (known i held)⟩

theorem Acts.progress {i : Nat} {s s' : IoLoop} (acts : Acts i s s')
    (own : Known i s' → Known i s ∨ i ∈ s.pendingFunctors) : Progress s s' where
  number := Nat.le_of_eq acts.nextObject.symm
  pending := fun _ member => .inl (acts.pendingFunctors ▸ member)
  known := by
    intro j held
    rcases acts.known held with rfl | before
    · exact own held
    · exact .inl before

theorem step_progress {s s' : IoLoop} {action : Action} (stepped : Steps s action s') :
    Progress s s' := by
  cases action with
  | accept fd root mime =>
    obtain ⟨_,done⟩ := Option.ite_none_right_eq_some.mp stepped
    cases done
    refine ⟨Nat.le_succ _,fun i member => ?_,fun _ => .inl⟩
    exact (List.mem_append.mp member).imp_right fun last => Nat.le_of_eq (List.mem_singleton.mp last).symm
  | register i granted =>
    obtain ⟨member,middle,added,rfl⟩ := register_ok stepped
    have kept := (registerHttp_acts added).progress fun _ => .inr member
    have released := release_acts i i {middle with pendingFunctors := middle.pendingFunctors.erase i}
    refine ⟨?_,fun j inside => ?_,fun j held => ?_⟩
    · rw [released.nextObject]
      exact kept.number
    · rw [released.pendingFunctors] at inside
      exact kept.pending j (List.mem_of_mem_erase inside)
    · rcases released.known held with rfl | before
      · exact .inr member
      · exact kept.known j before
  | poll events =>
    obtain ⟨channels,filled,rfl⟩ := poll_ok stepped
    refine .idle rfl rfl fun i known => ?_
    rcases known with armed | active | held
    · exact .inl armed
    · obtain ⟨fd,_,entry⟩ := (EpollPoller.fillActiveChannels_mem filled i).mp active
      exact .inr (.inr ⟨fd,entry⟩)
    · exact .inr (.inr held)
  | dispatch event =>
    obtain ⟨i,rest,_,first,done⟩ := dispatch_cases stepped
    have acts := handleEvents_acts done
    refine ⟨Nat.le_of_eq acts.nextObject.symm,fun j member => ?_,fun j held => .inl ?_⟩
    · exact .inl (acts.pendingFunctors ▸ member)
    · rcases acts.known held with rfl | armed | active | held
      · exact .inr (.inl (by simp [first]))
      · exact .inl armed
      · exact .inr (.inl (by simpa [first] using .inr active))
      · exact .inr (.inr held)
  | expire id =>
    obtain ⟨node,member,_,_,_,_,done⟩ := expire_cases stepped
    obtain ⟨_,rfl⟩ | ⟨i,h,middle,held,_,closed,rfl⟩ := destroyNode_ok done
    · exact .idle rfl rfl pop_known
    · have left := (pop_acts i node middle).trans (release_acts i i (middle.pop node))
      have acts := (deleteChannel_acts closed).trans left
      exact acts.progress fun _ => .inl (.inl ⟨node,member,held⟩)
  | tick | handled | sweep | swept =>
    obtain ⟨_,done⟩ := Option.ite_none_right_eq_some.mp stepped
    cases done
    exact .idle rfl rfl fun _ => id

/-- The connection has left the loop, and no functor will register it again. -/
structure Gone (i : Nat) (s : IoLoop) : Prop where
  number : i < s.nextObject
  pending : i ∉ s.pendingFunctors
  unknown : ¬ Known i s

theorem Gone.step {i : Nat} {s s' : IoLoop} (gone : Gone i s) {action : Action}
    (stepped : Steps s action s') : Gone i s' := by
  obtain ⟨number,pending,known⟩ := step_progress stepped
  refine ⟨Nat.lt_of_lt_of_le gone.number number,fun member => ?_,fun held => ?_⟩
  · rcases pending i member with before | later
    · exact gone.pending before
    · exact Nat.not_le_of_lt gone.number later
  · exact (known i held).elim gone.unknown gone.pending

def Removes (i : Nat) (s s' : IoLoop) : Prop := Registered i s ∧ ¬ Registered i s'

/-- In every run in which the kernel registers what it is asked to, over connections that come,
are handled and are timed out in any order and use descriptors again, only a handler can fail:
the assertions of `deleteChannel` hold, and no null pointer and no object that is destroyed is
reached. The two maps tell the same connections, and a connection that was removed is never
registered again. -/
theorem removed_once {clock : Timeval} {labels : List Action} {s : IoLoop}
    (run : Run Steps (start clock) labels s) (granted : ∀ action ∈ labels, Granted action) :
    (∀ action trap, Granted action → step s action = some (.error trap) →
      ∃ fault, trap = .fault fault) ∧
    (∀ fd i, s.poller.channels fd = some (some i) ↔
      s.https fd = some (some i) ∧ descriptor i s = some fd) ∧
    (∀ events, (∀ fd ∈ events, s.poller.interest fd = true) →
      ∃ active, s.poller.fillActiveChannels events = some active) ∧
    ∀ action s' i, Granted action → Steps s action s' → Removes i s s' →
      ∀ later s'', Run Steps s' later s'' → ¬ Registered i s'' := by
  obtain ⟨sound,consistent⟩ := run_consistent run granted
  refine ⟨?_,?_,?_,?_⟩
  · intro action trap granted stepped
    rcases sound.step_granted consistent granted stepped with ⟨fault,failed⟩ | ⟨_,same,_⟩
    · cases failed
      exact ⟨fault,rfl⟩
    · cases same
  · intro fd i
    exact ⟨fun entry => ⟨sound.owned.channels fd i entry,sound.owned.entry entry⟩,
      fun held => consistent.entered fd i held.1⟩
  · intro events inside
    refine EpollPoller.fillActiveChannels_whole fun fd member null => ?_
    obtain ⟨i,entry⟩ := (consistent.interest fd).mp (inside fd member)
    cases null.symm.trans entry
  · rintro action s' i granted stepped ⟨before,removed⟩ later s'' run
    have gone : Gone i s' := by
      have sound' := sound.step stepped
      have consistent' := sound.step_consistent consistent granted stepped
      obtain ⟨number,pending,_⟩ := step_progress stepped
      have known := before.known
      refine ⟨Nat.lt_of_lt_of_le (sound.waiting.known i known) number,fun member => ?_,fun held => ?_⟩
      · rcases pending i member with old | new
        · exact (sound.waiting.fresh i old).2 known
        · exact Nat.not_le_of_lt (sound.waiting.known i known) new
      · exact removed (consistent'.known sound'.owned held)
    have left := run.invariant (Gone i) (fun _ _ _ gone stepped => gone.step stepped) gone
    exact fun again => left.unknown again.known

/-- The descriptor of a connection that timed out is used again. -/
theorem removed_once_sample : ∃ s, Run Steps (start ⟨0,0,by decide⟩)
    [.accept 7 [] ∅,.register 0 true,.tick ⟨2,0,by decide⟩,.sweep,.expire 0,.swept,
      .accept 7 [] ∅,.register 1 true] s ∧
    s.https 7 = some (some 1) ∧ descriptor 1 s = some 7 ∧ descriptor 0 s = none := by
  have run : Run Steps (start ⟨0,0,by decide⟩)
      [.accept 7 [] ∅,.register 0 true,.tick ⟨2,0,by decide⟩,.sweep,.expire 0,.swept,
        .accept 7 [] ∅,.register 1 true] _ := perform_get next_steps (by decide)
  have whole := removed_once run (by simp [Granted])
  obtain ⟨pointer,alive⟩ := (whole.2.1 7 1).mp (by decide)
  exact ⟨_,run,pointer,alive,by decide⟩

end IoLoop

end Deon.Net
