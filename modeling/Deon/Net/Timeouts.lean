import Deon.Net.Owned

/-! A sweep closes no connection too early. The invariants of the timers, of the functors and
of the pointers hold in every run, whatever the kernel answers. -/
namespace Deon.Net
open Library

namespace IoLoop

structure Sound (s : IoLoop) : Prop where
  timers : Timers s
  waiting : Waiting s
  owned : Owned s

theorem start_sound (clock : Timeval) : Sound (start clock) where
  timers := by
    refine ⟨?_,List.nodup_nil,?_,?_,?_⟩
    case refine_2 =>
      intro i h found
      cases found
    all_goals
      intro node member
      cases member
  waiting := by
    refine ⟨List.nodup_nil,?_,?_⟩
    · intro i member
      cases member
    · rintro i (⟨_,member,_⟩ | active | ⟨_,held⟩)
      · cases member
      · cases active
      · cases held
  owned := by
    refine ⟨?_,?_,?_,?_,?_⟩
    · intro i fd alive
      cases alive
    · intro i j fd alive
      cases alive
    · intro fd i held
      cases held
    · intro fd i held
      cases held
    · intro i member
      cases member

theorem Waiting.acts {i : Nat} {s s' : IoLoop} (waiting : Waiting s) (acts : Acts i s s')
    (apart : i ∉ s.pendingFunctors) (number : i < s.nextObject) : Waiting s' where
  nodup := acts.pendingFunctors ▸ waiting.nodup
  fresh := by
    intro j member
    rw [acts.pendingFunctors] at member
    obtain ⟨before,unknown⟩ := waiting.fresh j member
    refine ⟨acts.nextObject ▸ before,fun known => ?_⟩
    rcases acts.known known with rfl | known
    · exact apart member
    · exact unknown known
  known := by
    intro j known
    rw [acts.nextObject]
    rcases acts.known known with rfl | known
    · exact number
    · exact waiting.known j known

theorem Waiting.less {s s' : IoLoop} (waiting : Waiting s) (known : ∀ i, Known i s' → Known i s)
    (pending : s'.pendingFunctors = s.pendingFunctors) (nextObject : s'.nextObject = s.nextObject) :
    Waiting s' where
  nodup := pending ▸ waiting.nodup
  fresh := by
    intro i member
    obtain ⟨number,unknown⟩ := waiting.fresh i (pending ▸ member)
    exact ⟨nextObject ▸ number,fun held => unknown (known i held)⟩
  known := fun i held => nextObject ▸ waiting.known i (known i held)

theorem Timers.pop {s : IoLoop} (timers : Timers s) (node : TimerNode) : Timers (s.pop node) where
  made := fun other member => timers.made other (List.mem_of_mem_filter member)
  distinct := timers.distinct.sublist (List.filter_sublist.map _)
  numbers := timers.numbers
  holder := fun other member => timers.holder other (List.mem_of_mem_filter member)
  owner := fun other member => timers.owner other (List.mem_of_mem_filter member)

theorem pop_known {node : TimerNode} {s : IoLoop} (i : Nat) (known : Known i (s.pop node)) :
    Known i s := by
  refine known.imp_left ?_
  rintro ⟨other,member,held⟩
  exact ⟨other,List.mem_of_mem_filter member,held⟩

theorem Owned.pop {s : IoLoop} (owned : Owned s) (node : TimerNode) : Owned (s.pop node) :=
  owned.same (fun _ => rfl) rfl (fun _ _ => id) (fun _ => id) rfl

theorem Sound.release {s : IoLoop} (sound : Sound s) (i : Nat) : Sound (s.release i) where
  timers := sound.timers.retains (release_retains i s)
  waiting := by
    have retains := release_retains i s
    refine sound.waiting.less (fun j known => ?_) retains.pendingFunctors retains.nextObject
    rcases known with armed | active | ⟨fd,held⟩
    · exact .inl (retains.armed.mp armed)
    · exact .inr (.inl (retains.activeChannels ▸ active))
    · exact .inr (.inr ⟨fd,release_channels i s ▸ held⟩)
  owned := sound.owned.release i

theorem Sound.set {s : IoLoop} (sound : Sound s) {i : Nat} {h : HttpObject}
    (found : s.objects i = some h) (h' : HttpObject) (fd : h'.fd = h.fd)
    (timer : h'.timer = h.timer) (registered : h'.registered = h.registered) :
    Sound (s.set i h') where
  timers := sound.timers.set found timer (.inl registered)
  waiting := sound.waiting.less (fun _ => id) rfl rfl
  owned := sound.owned.set found h' fd

theorem Sound.pop {s : IoLoop} (sound : Sound s) (node : TimerNode) : Sound (s.pop node) where
  timers := sound.timers.pop node
  waiting := sound.waiting.less pop_known rfl rfl
  owned := sound.owned.pop node

theorem Sound.deleteChannel {s s' : IoLoop} (sound : Sound s) {i fd : Nat}
    (done : s.deleteChannel i fd = .ok s') (apart : i ∉ s.pendingFunctors)
    (number : i < s.nextObject) : Sound s' where
  timers := sound.timers.retains (deleteChannel_retains done)
  waiting := sound.waiting.acts (deleteChannel_acts done) apart number
  owned := sound.owned.deleteChannel done

theorem Sound.handleRegister {s s' : IoLoop} (sound : Sound s) {i : Nat} {granted : Bool}
    (done : s.handleRegister i granted = .ok s') (apart : i ∉ s.pendingFunctors)
    (number : i < s.nextObject) : Sound s' := by
  obtain ⟨timers,unarmed⟩ := sound.timers.deleteTimer i
  have acts := deleteTimer_acts i s
  have owned := sound.owned.deleteTimer i
  have waiting := sound.waiting.acts acts apart number
  rw [← acts.pendingFunctors] at apart
  rw [← acts.nextObject] at number
  obtain ⟨h,found,⟨h',timeout,fd,timer,registered,_,rfl⟩ | closed⟩ := handleRegister_ok done
  · have set := timers.set found timer (.inr unarmed)
    have acts := (set_acts i h' (s.deleteTimer i)).trans
      (updateChannel_acts i h.fd timeout granted _)
    refine ⟨set.updateChannel (set_self ..) unarmed registered,waiting.acts acts apart number,?_⟩
    exact (owned.set found h' fd).updateChannel (set_self ..) ..
  · exact Sound.deleteChannel ⟨timers,waiting,owned⟩ closed apart number

theorem Sound.handleEvents {s s' : IoLoop} (sound : Sound s) {i : Nat} {event : Http.Event}
    (done : s.handleEvents i event = .ok s') (apart : i ∉ s.pendingFunctors)
    (number : i < s.nextObject) : Sound s' := by
  obtain ⟨h,members,found,registered⟩ := handleEvents_ok done
  have set := sound.set found {h with members := members} rfl rfl rfl
  exact set.handleRegister registered apart number

theorem Sound.register {s : IoLoop} (sound : Sound s) {i : Nat} (member : i ∈ s.pendingFunctors)
    {h h' : HttpObject} (found : s.objects i = some h) (fd : h'.fd = h.fd)
    (timer : h'.timer = h.timer)
    (registered : h'.registered = some (s.clock.ms,Http.defaultExpiredTime)) (granted : Bool) :
    let s' := (s.set i h').addChannel i h.fd Http.defaultExpiredTime granted
    Sound {s' with pendingFunctors := s'.pendingFunctors.erase i} := by
  intro s'
  obtain ⟨number,unknown⟩ := sound.waiting.fresh i member
  have unarmed : ¬ Armed i s := fun armed => unknown (.inl armed)
  have acts : Acts i s s' := (set_acts i h' s).trans (addChannel_acts ..)
  have timers : Timers s' :=
    (sound.timers.set found timer (.inr unarmed)).addChannel (set_self ..) unarmed registered
  have owned : Owned s' := by
    have set := sound.owned.set found h' fd
    have added := set.addChannel (set_self i h' s) (by decide : 0 < Http.defaultExpiredTime) granted
    rwa [fd] at added
  refine ⟨⟨timers.made,timers.distinct,timers.numbers,timers.holder,timers.owner⟩,⟨?_,?_,?_⟩,?_⟩
  · exact (acts.pendingFunctors ▸ sound.waiting.nodup).erase i
  · intro j inside
    dsimp only at inside
    rw [acts.pendingFunctors] at inside
    obtain ⟨apart,before⟩ := (sound.waiting.nodup.mem_erase_iff).mp inside
    obtain ⟨number,unknown⟩ := sound.waiting.fresh j before
    exact ⟨acts.nextObject ▸ number,fun known => unknown ((acts.known known).resolve_left apart)⟩
  · intro j known
    dsimp only
    rw [acts.nextObject]
    rcases acts.known known with rfl | before
    · exact number
    · exact sound.waiting.known j before
  · exact owned.same (fun _ => rfl) rfl (fun _ _ => id) (fun _ => List.mem_of_mem_erase) rfl

theorem Sound.accept {s : IoLoop} (sound : Sound s) {h : HttpObject}
    (closed : ∀ i < s.nextObject, ∀ other ∈ s.objects i, other.fd ≠ h.fd) (fresh : h.timer = none) :
    Sound {s.set s.nextObject h with
      pendingFunctors := s.pendingFunctors ++ [s.nextObject]
      nextObject := s.nextObject + 1} := by
  have apart : ∀ {i}, i < s.nextObject → i ≠ s.nextObject := Nat.ne_of_lt
  have old : ∀ {i fd}, descriptor i s = some fd → descriptor i (s.set s.nextObject h) = some fd := by
    intro i fd alive
    rw [descriptor,set_other h s (apart (sound.owned.number i fd alive))]
    exact alive
  have new : ∀ {i fd}, descriptor i (s.set s.nextObject h) = some fd →
      i = s.nextObject ∧ fd = h.fd ∨ i < s.nextObject ∧ fd ≠ h.fd ∧ descriptor i s = some fd := by
    intro i fd alive
    obtain ⟨other,found,rfl⟩ := found_descriptor alive
    rcases set_found found with ⟨same,rfl⟩ | ⟨_,before⟩
    · exact .inl ⟨same,rfl⟩
    · have alive := descriptor_found before
      have number := sound.owned.number i _ alive
      exact .inr ⟨number,closed i number other before,alive⟩
  refine ⟨⟨sound.timers.made,sound.timers.distinct,?_,?_,?_⟩,⟨?_,?_,?_⟩,⟨?_,?_,?_,?_,?_⟩⟩
  · intro i other found timer pointed
    rcases set_found found with ⟨_,rfl⟩ | ⟨_,before⟩
    · rw [fresh] at pointed
      cases pointed
    · exact sound.timers.numbers i other before timer pointed
  · intro node member i held
    have number := sound.waiting.known i (.inl ⟨node,member,held⟩)
    obtain ⟨other,before,rest⟩ := sound.timers.holder node member i held
    exact ⟨other,(set_other _ _ (apart number)).trans before,rest⟩
  · intro node member i held j other found pointed
    rcases set_found found with ⟨_,rfl⟩ | ⟨_,before⟩
    · rw [fresh] at pointed
      cases pointed
    · exact sound.timers.owner node member i held j other before pointed
  · rw [List.nodup_append]
    refine ⟨sound.waiting.nodup,List.nodup_singleton _,?_⟩
    intro i before j last
    rw [List.mem_singleton.mp last]
    exact apart (sound.waiting.fresh i before).1
  · intro i member
    rcases List.mem_append.mp member with before | last
    · obtain ⟨number,unknown⟩ := sound.waiting.fresh i before
      exact ⟨Nat.lt_succ_of_lt number,unknown⟩
    · rw [List.mem_singleton.mp last]
      exact ⟨Nat.lt_succ_self _,fun known => Nat.lt_irrefl _ (sound.waiting.known _ known)⟩
  · exact fun i known => Nat.lt_succ_of_lt (sound.waiting.known i known)
  · intro i fd alive
    rcases new alive with ⟨rfl,_⟩ | ⟨number,_⟩
    · exact Nat.lt_succ_self _
    · exact Nat.lt_succ_of_lt number
  · intro i j fd one two
    rcases new one with ⟨rfl,same⟩ | ⟨_,other,before⟩ <;>
      rcases new two with ⟨rfl,same'⟩ | ⟨_,other',before'⟩
    · rfl
    · exact absurd same other'
    · exact absurd same' other
    · exact sound.owned.fds i j fd before before'
  · exact fun fd i held => old (sound.owned.https fd i held)
  · exact sound.owned.channels
  · intro i member
    rcases List.mem_append.mp member with before | last
    · obtain ⟨fd,alive⟩ := sound.owned.pending i before
      exact ⟨fd,old alive⟩
    · rw [List.mem_singleton.mp last]
      exact ⟨h.fd,descriptor_found (set_self ..)⟩

theorem Sound.destroyNode {s s' : IoLoop} (sound : Sound s) {node : TimerNode}
    (member : node ∈ s.timerNodeQueue) (done : s.destroyNode node = .ok s') : Sound s' := by
  obtain ⟨_,rfl⟩ | ⟨i,h,middle,held,_,closed,rfl⟩ := destroyNode_ok done
  · exact sound.pop node
  · have known : Known i s := .inl ⟨node,member,held⟩
    have apart : i ∉ s.pendingFunctors := fun inside => (sound.waiting.fresh i inside).2 known
    exact ((sound.deleteChannel closed apart (sound.waiting.known i known)).pop node).release i

theorem Sound.goOn {s : IoLoop} (sound : Sound s) {clock : Timeval} (later : s.clock.ms ≤ clock.ms)
    (phase : Phase) {activeChannels : List Nat} (known : ∀ i ∈ activeChannels, Known i s) :
    Sound {s with clock := clock,phase := phase,activeChannels := activeChannels} where
  timers := by
    obtain ⟨made,distinct,numbers,holder,owner⟩ := sound.timers
    refine ⟨fun node member => ?_,distinct,numbers,holder,owner⟩
    obtain ⟨id,created⟩ := made node member
    exact ⟨id,Nat.le_trans created later⟩
  waiting := by
    refine sound.waiting.less (fun i held => ?_) rfl rfl
    rcases held with armed | active | held
    · exact .inl armed
    · exact known i active
    · exact .inr (.inr held)
  owned := sound.owned.same (fun _ => rfl) rfl (fun _ _ => id) (fun _ => id) rfl

theorem Sound.step {s s' : IoLoop} (sound : Sound s) {action : Action}
    (stepped : Steps s action s') : Sound s' := by
  have active : ∀ i ∈ s.activeChannels, Known i s := fun i member => .inr (.inl member)
  cases action with
  | tick now =>
    obtain ⟨later,done⟩ := Option.ite_none_right_eq_some.mp stepped
    cases done
    exact sound.goOn later s.phase active
  | accept fd root mime =>
    obtain ⟨closed,done⟩ := Option.ite_none_right_eq_some.mp stepped
    cases done
    exact sound.accept closed rfl
  | register i granted =>
    obtain ⟨member,middle,added,rfl⟩ := register_ok stepped
    obtain ⟨h,h',found,fd,timer,registered,rfl⟩ := registerHttp_ok added
    exact (sound.register member found fd timer registered _).release i
  | poll events =>
    obtain ⟨channels,filled,rfl⟩ := poll_ok stepped
    refine sound.goOn (Nat.le_refl _) .handling fun i member => ?_
    obtain ⟨fd,_,held⟩ := (EpollPoller.fillActiveChannels_mem filled i).mp member
    exact .inr (.inr ⟨fd,held⟩)
  | dispatch event =>
    obtain ⟨i,rest,_,first,done⟩ := dispatch_cases stepped
    have known : Known i s := active i (by simp [first])
    have rested : Sound {s with activeChannels := rest} :=
      sound.goOn (Nat.le_refl _) s.phase fun j member => active j (by simp [first,member])
    refine rested.handleEvents done ?_ (sound.waiting.known i known)
    exact fun member => (sound.waiting.fresh i member).2 known
  | handled =>
    obtain ⟨_,done⟩ := Option.ite_none_right_eq_some.mp stepped
    cases done
    exact sound.goOn (Nat.le_refl _) .between active
  | sweep =>
    obtain ⟨_,done⟩ := Option.ite_none_right_eq_some.mp stepped
    cases done
    exact sound.goOn (Nat.le_refl _) .sweeping active
  | expire id =>
    obtain ⟨node,member,_,_,_,_,done⟩ := expire_cases stepped
    exact sound.destroyNode member done
  | swept =>
    obtain ⟨_,done⟩ := Option.ite_none_right_eq_some.mp stepped
    cases done
    exact sound.goOn (Nat.le_refl _) .between active

theorem run_sound {clock : Timeval} {labels : List Action} {s : IoLoop}
    (run : Run Steps (start clock) labels s) : Sound s :=
  run.invariant Sound (fun _ _ _ sound stepped => sound.step stepped) (start_sound clock)

/-- The channel of a connection that is alive is in `channels_`. -/
def Registered (i : Nat) (s : IoLoop) : Prop :=
  ∃ fd, descriptor i s = some fd ∧ s.poller.channels fd = some (some i)

/-- The timeout that was chosen at the latest registration has passed since then. -/
def Due (i : Nat) (s : IoLoop) : Prop :=
  ∃ h since timeout, s.objects i = some h ∧ h.registered = some (since,timeout) ∧
    since + timeout ≤ s.clock.ms

/-- A node that is destroyed closes nothing but the connection that it holds. -/
theorem Owned.destroyNode {s s' : IoLoop} (owned : Owned s) {node : TimerNode} {i : Nat}
    (member : node ∈ s.timerNodeQueue) (done : s.destroyNode node = .ok s') (other : node.http ≠ some i) :
    descriptor i s' = descriptor i s ∧ (Registered i s → Registered i s') := by
  obtain ⟨_,rfl⟩ | ⟨j,h,middle,held,found,closed,rfl⟩ := destroyNode_ok done
  · exact ⟨rfl,id⟩
  · have apart : i ≠ j := fun same => other (same ▸ held)
    have entry := deleteChannel_ok closed
    have after := Except.ok.inj (done.symm.trans (owned.destroyNode_eq member held found entry))
    have same := release_other ((s.pop node).cleared h.fd) apart
    rw [after]
    refine ⟨same,?_⟩
    rintro ⟨fd,alive,entry'⟩
    refine ⟨fd,same.trans alive,?_⟩
    have kept : fd ≠ h.fd := by
      rintro rfl
      exact apart (Option.some.inj (Option.some.inj (entry'.symm.trans entry)))
    rw [release_channels]
    exact (Function.update_of_ne kept ..).trans entry'

theorem Sound.due {s : IoLoop} (sound : Sound s) {node : TimerNode}
    (member : node ∈ s.timerNodeQueue) (expired : node.isValid s.clock = false) {i : Nat}
    (held : node.http = some i) : Due i s := by
  obtain ⟨h,found,_,registered⟩ := sound.timers.holder node member i held
  have later := (sound.timers.made node member).2
  exact ⟨h,_,_,found,registered,expired_due later expired⟩

/-- A sweep closes a connection only when the timeout of its latest registration has passed,
whatever the clock's reduction does in between, and no other node holds the connection than
the one its `timer_` points to. -/
theorem no_early_timeout {clock : Timeval} {labels : List Action} {s : IoLoop}
    (run : Run Steps (start clock) labels s) :
    (∀ id result, step s (.expire id) = some result → ∀ node ∈ s.timerNodeQueue, node.id = id →
      ∀ i, node.http = some i → Due i s) ∧
    (∀ id s' i, Steps s (.expire id) s' →
      descriptor i s' ≠ descriptor i s ∨ Registered i s ∧ ¬ Registered i s' → Due i s) ∧
    ∀ node ∈ s.timerNodeQueue, ∀ i, node.http = some i →
      (∃ h, s.objects i = some h ∧ h.timer = some node.id) ∧
        ∀ other ∈ s.timerNodeQueue, other.http = some i → other = node := by
  have sound := run_sound run
  have unique := List.inj_on_of_nodup_map sound.timers.distinct
  refine ⟨?_,?_,?_⟩
  · intro id result stepped node member same i held
    obtain ⟨popped,inside,number,_,_,expired,_⟩ := expire_cases stepped
    obtain rfl := unique member inside (same.trans number.symm)
    exact sound.due member expired held
  · intro id s' i stepped closes
    obtain ⟨node,member,_,_,_,expired,done⟩ := expire_cases stepped
    by_cases held : node.http = some i
    · exact sound.due member expired held
    · obtain ⟨same,kept⟩ := sound.owned.destroyNode member done held
      rcases closes with closed | ⟨before,closed⟩
      · exact absurd same closed
      · exact absurd (kept before) closed
  · intro node member i held
    obtain ⟨h,found,pointed,_⟩ := sound.timers.holder node member i held
    refine ⟨⟨h,found,pointed⟩,fun other member' held' => ?_⟩
    exact sound.timers.unique member held member' held'

/-- A connection sends nothing for two seconds. -/
theorem no_early_timeout_sample : ∃ s s', Run Steps (start ⟨0,0,by decide⟩)
    [.accept 7 [] ∅,.register 0 true,.tick ⟨2,0,by decide⟩,.sweep] s ∧ Steps s (.expire 0) s' ∧
      descriptor 0 s = some 7 ∧ descriptor 0 s' = none ∧ Due 0 s := by
  have run : Run Steps (start ⟨0,0,by decide⟩)
      [.accept 7 [] ∅,.register 0 true,.tick ⟨2,0,by decide⟩,.sweep] _ :=
    perform_get next_steps (by decide)
  refine ⟨_,_,run,next_get (by decide),by decide,by decide,?_⟩
  exact (no_early_timeout run).2.1 0 _ 0 (next_get (by decide)) (.inl (by decide))

end IoLoop

end Deon.Net
