import Deon.Net.Enforcement
import Deon.Net.Isolation
import Mathlib.Data.Finset.Card
import Mathlib.Data.Finset.Range

/-! How long the connections of a loop live, and what they leave behind. An object is alive for
as long as a shared pointer to it is left; without sweeps, which no iteration of the loop makes,
that is for as long as the connection is open, and every registration leaves its node in the
queue for good. -/
namespace Deon.Net
open Library Http

namespace IoLoop

/-- Every object but this one is held by a shared pointer. -/
def CountedBut (i : Nat) (s : IoLoop) : Prop :=
  ∀ j h, j ≠ i → s.objects j = some h → Shared j h.fd s

def Counted (s : IoLoop) : Prop := ∀ i h, s.objects i = some h → Shared i h.fd s

section

variable {s s' : IoLoop} {i fd timeout : Nat} {h h' : HttpObject} {granted : Bool}

theorem Sound.alive (sound : Sound s) (shared : Shared i fd s) : (s.objects i).isSome = true := by
  have there : ∀ {fd}, descriptor i s = some fd → (s.objects i).isSome = true := fun alive => by
    obtain ⟨h,found,_⟩ := found_descriptor alive
    rw [found,Option.isSome_some]
  rcases shared with pending | held | ⟨node,member,held⟩
  · obtain ⟨_,alive⟩ := sound.owned.pending i pending
    exact there alive
  · exact there (sound.owned.https fd i held)
  · obtain ⟨h,found,_⟩ := sound.timers.holder node member i held
    rw [found,Option.isSome_some]

/-- A pointer that goes takes only its own object with it, and only as the last one. -/
theorem CountedBut.release (counted : CountedBut i s) : Counted (s.release i) := by
  intro j other found
  by_cases same : j = i
  · obtain rfl := same
    unfold IoLoop.release at found ⊢
    split at found
    · rename_i absent
      cases found.symm.trans absent
    · rename_i h here
      split at found
      · rename_i shared
        obtain rfl := Option.some.inj (found.symm.trans here)
        rwa [if_pos shared]
      · rw [destroy_self] at found
        cases found
  · have before := (release_retains i s).less j other found
    have shared := counted j other same before
    obtain kept | ⟨h,_,_,gone⟩ := release_cases i s
    · rwa [kept]
    · rwa [gone]

theorem Counted.set (counted : Counted s) (found : s.objects i = some h) (fd : h'.fd = h.fd) :
    Counted (s.set i h') := by
  intro j other found'
  obtain ⟨rfl,rfl⟩ | ⟨_,before⟩ := set_found found'
  · rw [fd]
    exact counted j h found
  · exact counted j other before

theorem Counted.addTimer (counted : Counted s) (i timeout : Nat) : Counted (s.addTimer i timeout) := by
  cases found : s.objects i with
  | none =>
    unfold IoLoop.addTimer
    rw [found]
    exact counted
  | some h =>
    rw [addTimer_found found]
    have set : Counted (s.set i {h with timer := some s.nextNode}) := counted.set found rfl
    intro j other found'
    rcases set j other found' with pending | held | ⟨node,member,held⟩
    · exact .inl pending
    · exact .inr (.inl held)
    · exact .inr (.inr ⟨node,List.mem_append_left _ member,held⟩)

/-- Only the pointer that stood there goes. -/
theorem Counted.assignHttps (counted : Counted s) (fd : Nat) (pointer : Option Nat) :
    Counted (s.assignHttps fd pointer) := by
  have other : ∀ j h, s.objects j = some h → s.https fd ≠ some (some j) →
      Shared j h.fd {s with https := Function.update s.https fd (some pointer)} := by
    intro j h found apart
    rcases counted j h found with pending | held | armed
    · exact .inl pending
    · have elsewhere : h.fd ≠ fd := by
        rintro rfl
        exact apart held
      exact .inr (.inl ((Function.update_of_ne elsewhere ..).trans held))
    · exact .inr (.inr armed)
  unfold IoLoop.assignHttps
  split
  · rename_i old here
    apply CountedBut.release
    intro j h apart found
    refine other j h found ?_
    rw [here]
    exact fun same => apart (Option.some.inj (Option.some.inj same)).symm
  · rename_i none
    exact fun j h found => other j h found (none j)

/-- The poller holds weak pointers only. -/
theorem Counted.watch (counted : Counted s) (poller : EpollPoller Nat) :
    Counted {s with poller := poller} := counted

theorem Counted.addChannel (counted : Counted s) (i fd timeout : Nat) (granted : Bool) :
    Counted (s.addChannel i fd timeout granted) := by
  unfold IoLoop.addChannel enter
  dsimp only
  apply Counted.watch
  split
  · apply Counted.assignHttps
    exact (counted.watch _).addTimer i timeout
  · exact counted.watch _

theorem Counted.updateChannel (counted : Counted s) (i fd timeout : Nat) (granted : Bool) :
    Counted (s.updateChannel i fd timeout granted) := by
  unfold IoLoop.updateChannel
  dsimp only
  apply Counted.watch
  split
  · exact counted.addTimer i timeout
  · exact counted

theorem Counted.deleteChannel (counted : Counted s) (done : s.deleteChannel i fd = .ok s') :
    Counted s' := by
  unfold IoLoop.deleteChannel at done
  split at done <;> cases done
  apply Counted.watch
  exact (counted.watch _).assignHttps fd none

/-- A node that is reset holds no other connection. -/
theorem Counted.deleteTimer (counted : Counted s) (timers : Timers s) (i : Nat) :
    Counted (s.deleteTimer i) := by
  rcases deleteTimer_cases i s with ⟨same,_⟩ | ⟨h,timer,found,pointed,same⟩
  · rwa [same]
  · rw [same]
    apply CountedBut.release
    intro j other apart found'
    rcases counted j other found' with pending | held | ⟨node,member,held⟩
    · exact .inl pending
    · exact .inr (.inl held)
    · refine .inr (.inr ⟨node,disarm_held.mpr ⟨⟨member,held⟩,?_⟩⟩)
      rintro rfl
      exact apart (timers.owner node member j held i h found pointed).symm

theorem Counted.handleEvents {event : Event} (counted : Counted s) (timers : Timers s)
    (done : s.handleEvents i event = .ok s') : Counted s' := by
  obtain ⟨h,members,found,registered⟩ := handleEvents_ok done
  have set : Counted (s.set i {h with members := members}) := counted.set found rfl
  have timers : Timers (s.set i {h with members := members}) := timers.set found rfl (.inl rfl)
  have deleted := set.deleteTimer timers i
  obtain ⟨h,found,⟨h',timeout,fd,_,_,_,rfl⟩ | closed⟩ := handleRegister_ok registered
  · exact (deleted.set found fd).updateChannel i h.fd timeout _
  · exact deleted.deleteChannel closed

/-- The nodes that are popped with a node are that node itself. -/
theorem Counted.pop {node : TimerNode} (counted : Counted s) (timers : Timers s)
    (member : node ∈ s.timerNodeQueue) (found : s.objects i = some h) (apart : node.http ≠ some i) :
    Shared i h.fd (s.pop node) := by
  rcases counted i h found with pending | held | ⟨other,inside,held⟩
  · exact .inl pending
  · exact .inr (.inl held)
  · refine .inr (.inr ⟨other,List.mem_filter.mpr ⟨inside,decide_eq_true fun same => apart ?_⟩,held⟩)
    obtain rfl := List.inj_on_of_nodup_map timers.distinct inside member same
    exact held

theorem Counted.destroyNode {node : TimerNode} (counted : Counted s) (timers : Timers s)
    (member : node ∈ s.timerNodeQueue) (done : s.destroyNode node = .ok s') : Counted s' := by
  obtain ⟨none,rfl⟩ | ⟨i,h,middle,held,_,closed,rfl⟩ := destroyNode_ok done
  · intro j h found
    refine counted.pop timers member found fun held => ?_
    cases none.symm.trans held
  · have removed := deleteChannel_retains closed
    apply CountedBut.release
    intro j other apart found
    refine (counted.deleteChannel closed).pop (timers.retains removed) ?_ found fun own => apart ?_
    · exact removed.timerNodeQueue ▸ member
    · exact Option.some.inj (own.symm.trans held)

theorem Counted.step {action : Action} (counted : Counted s) (sound : Sound s)
    (stepped : Steps s action s') : Counted s' := by
  cases action with
  | accept fd root mime =>
    obtain ⟨_,done⟩ := Option.ite_none_right_eq_some.mp stepped
    cases done
    intro j h found
    obtain ⟨rfl,_⟩ | ⟨_,before⟩ := set_found found
    · exact .inl (by simp)
    · exact (counted j h before).imp_left (List.mem_append_left _)
  | register i granted =>
    obtain ⟨_,middle,added,rfl⟩ := register_ok stepped
    obtain ⟨h,h',found,fd,_,_,rfl⟩ := registerHttp_ok added
    have added := (counted.set found fd).addChannel i h.fd defaultExpiredTime granted
    apply CountedBut.release
    intro j other apart found'
    exact (added j other found').imp_left (List.mem_erase_of_ne apart).mpr
  | poll events =>
    obtain ⟨_,_,rfl⟩ := poll_ok stepped
    exact counted
  | dispatch event =>
    obtain ⟨i,rest,_,_,done⟩ := dispatch_cases stepped
    have timers : Timers {s with activeChannels := rest} := by
      obtain ⟨made,distinct,numbers,holder,owner⟩ := sound.timers
      exact ⟨made,distinct,numbers,holder,owner⟩
    exact Counted.handleEvents (s := {s with activeChannels := rest}) counted timers done
  | expire id =>
    obtain ⟨node,member,_,_,_,_,done⟩ := expire_cases stepped
    exact counted.destroyNode sound.timers member done
  | tick | handled | sweep | swept =>
    obtain ⟨_,done⟩ := Option.ite_none_right_eq_some.mp stepped
    cases done
    exact counted

/-- Every connection waits for its registration, or a node of the queue holds it. -/
def Held (s : IoLoop) : Prop := ∀ i h, s.objects i = some h → i ∈ s.pendingFunctors ∨ Armed i s

/-- What an operation on one connection requeues leaves the others alive. -/
theorem Held.others (held : Held s) (sound : Sound s') (requeues : Requeues i s s')
    (pending : ∀ j, j ≠ i → j ∈ s.pendingFunctors → j ∈ s'.pendingFunctors)
    (less : ∀ j h, j ≠ i → s'.objects j = some h → s.objects j = some h) (j : Nat) (apart : j ≠ i) :
    s'.objects j = s.objects j := by
  cases found : s.objects j with
  | none =>
    cases found' : s'.objects j with
    | none => rfl
    | some h => cases found.symm.trans (less j h apart found')
  | some h =>
    have shared : Shared j h.fd s' := by
      rcases held j h found with waits | ⟨node,member,own⟩
      · exact .inl (pending j apart waits)
      · exact .inr (.inr ⟨node,requeues.kept node member j own apart,own⟩)
    obtain ⟨h',found'⟩ := Option.isSome_iff_exists.mp (sound.alive shared)
    exact found'.trans ((less j h' apart found').symm.trans found)

theorem Held.turn (held : Held s) (requeues : Requeues i s s')
    (pending : ∀ j, j ≠ i → j ∈ s.pendingFunctors → j ∈ s'.pendingFunctors)
    (others : ∀ j, j ≠ i → s'.objects j = s.objects j)
    (own : s'.objects i = none ∨ Armed i s') : Held s' := by
  intro j h found
  by_cases same : j = i
  · obtain rfl := same
    refine .inr (own.resolve_left fun gone => ?_)
    cases gone.symm.trans found
  · rcases held j h ((others j same).symm.trans found) with waits | ⟨node,member,owner⟩
    · exact .inl (pending j same waits)
    · exact .inr ⟨node,requeues.kept node member j owner same,owner⟩

theorem deleteTimer_length (i : Nat) (s : IoLoop) :
    (s.deleteTimer i).timerNodeQueue.length = s.timerNodeQueue.length := by
  rcases deleteTimer_cases i s with ⟨same,_⟩ | ⟨_,timer,_,_,same⟩
  · rw [same]
  · rw [same,(release_retains ..).timerNodeQueue]
    exact List.length_map _

theorem addTimer_length (found : s.objects i = some h) (timeout : Nat) :
    (s.addTimer i timeout).timerNodeQueue.length = s.timerNodeQueue.length + 1 := by
  rw [addTimer_found found]
  exact List.length_append

theorem addChannel_length (found : s.objects i = some h) (positive : 0 < timeout) (granted : Bool) :
    (s.addChannel i h.fd timeout granted).timerNodeQueue.length = s.timerNodeQueue.length + 1 := by
  unfold addChannel
  rw [enter_found found h.fd positive]
  dsimp only
  rw [(assignHttps_retains ..).timerNodeQueue]
  exact addTimer_length found timeout

theorem updateChannel_length (found : s.objects i = some h) (positive : 0 < timeout) (fd : Nat)
    (granted : Bool) :
    (s.updateChannel i fd timeout granted).timerNodeQueue.length = s.timerNodeQueue.length + 1 := by
  unfold updateChannel
  rw [if_pos positive]
  exact addTimer_length found timeout

theorem updateChannel_armed (found : s.objects i = some h) (positive : 0 < timeout) (fd : Nat)
    (granted : Bool) : Armed i (s.updateChannel i fd timeout granted) := by
  unfold updateChannel
  rw [if_pos positive,addTimer_found found]
  exact ⟨TimerNode.make s.nextNode i timeout s.clock,by simp,rfl⟩

/-- An open connection is armed by a new node, a closed one is gone with its last pointer. -/
theorem Sound.handleRegister_own (sound : Sound s) (apart : i ∉ s.pendingFunctors)
    (found : s.objects i = some h) (done : s.handleRegister i granted = .ok s') :
    (!h.members.err && h.members.isConnecting) = true ∧ Armed i s' ∧
        s'.timerNodeQueue.length = s.timerNodeQueue.length + 1 ∧
        (∃ h', s'.objects i = some h' ∧
          h'.members = {h.members with events := rearmed h.members}) ∨
      (!h.members.err && h.members.isConnecting) = false ∧ s'.objects i = none ∧
        s'.timerNodeQueue.length = s.timerNodeQueue.length := by
  obtain ⟨timers,unarmed⟩ := sound.timers.deleteTimer i
  have owned := sound.owned.deleteTimer i
  have acts := deleteTimer_acts i s
  have length := deleteTimer_length i s
  obtain ⟨other,left,_⟩ := handleRegister_ok done
  obtain rfl := Option.some.inj ((deleteTimer_less left).symm.trans found)
  rw [handleRegister_goes left] at done
  rw [← acts.pendingFunctors] at apart
  rw [← length]
  generalize s.deleteTimer i = s at *
  split at done
  · rename_i fine
    obtain rfl := Except.ok.inj done
    have positive := timeoutOf_positive other.members
    have here := set_self i {other with
      members := {other.members with events := rearmed other.members}
      registered := some (s.clock.ms,timeoutOf other.members)} s
    refine .inl ⟨fine,updateChannel_armed here positive ..,updateChannel_length here positive ..,?_⟩
    rw [updateChannel_objects here positive,Function.update_self]
    exact ⟨_,rfl,rfl⟩
  · rename_i closed
    refine .inr ⟨Bool.eq_false_iff.mpr closed,?_,by rw [(deleteChannel_retains done).timerNodeQueue]⟩
    rw [owned.deleteChannel_eq (deleteChannel_ok done)] at done
    obtain rfl := Except.ok.inj done
    unfold IoLoop.release
    rw [show (s.cleared other.fd).objects i = some other from left]
    dsimp only
    have unshared : ¬ Shared i other.fd (s.cleared other.fd) := by
      rintro (waits | held | armed)
      · exact apart waits
      · have gone : (s.cleared other.fd).https other.fd = some none := Function.update_self ..
        cases gone.symm.trans held
      · exact unarmed armed
    rw [if_neg unshared,destroy_self]

theorem Held.rest (held : Held s) (rest : List Nat) : Held {s with activeChannels := rest} := held

/-- What the handling of an event makes of a loop: the connection that was handed it goes on with a
new node or is gone, as its members have it behind the callbacks. -/
structure Turn (i : Nat) (c : Connection) (s s' : IoLoop) : Prop where
  held : Held s'
  others : ∀ j, j ≠ i → s'.objects j = s.objects j
  pending : s'.pendingFunctors = s.pendingFunctors
  number : s'.nextObject = s.nextObject
  was : ∃ h, s.objects i = some h
  own : (!c.err && c.isConnecting) = true ∧
      s'.timerNodeQueue.length = s.timerNodeQueue.length + 1 ∧
      (∃ h', s'.objects i = some h' ∧ h'.members = {c with events := rearmed c}) ∨
    (!c.err && c.isConnecting) = false ∧ s'.timerNodeQueue.length = s.timerNodeQueue.length ∧
      s'.objects i = none

theorem Sound.set_turn {c : Connection} (sound : Sound s) (held : Held s)
    (found : s.objects i = some h) (apart : i ∉ s.pendingFunctors) (number : i < s.nextObject)
    (done : (s.set i {h with members := c}).handleRegister i granted = .ok s') : Turn i c s s' := by
  have set : Sound (s.set i {h with members := c}) := sound.set found _ rfl rfl rfl
  have held : Held (s.set i {h with members := c}) := by
    intro j other found'
    obtain ⟨rfl,_⟩ | ⟨_,before⟩ := set_found found'
    · exact held j h found
    · exact held j other before
  have sound' := set.handleRegister done apart number
  have requeues := set.timers.handleRegister_requeues done
  have acts := handleRegister_acts done
  have waiting : ∀ j, j ≠ i → j ∈ s.pendingFunctors → j ∈ s'.pendingFunctors :=
    fun j _ waits => acts.pendingFunctors ▸ waits
  have same := held.others sound' requeues waiting
    fun j other apart found' => handleRegister_others done apart found'
  have own := set.handleRegister_own apart (set_self i {h with members := c} s) done
  have gone : s'.objects i = none ∨ Armed i s' :=
    own.symm.imp (fun closed => closed.2.1) fun opened => opened.2.1
  refine ⟨held.turn requeues waiting same gone,?_,acts.pendingFunctors,acts.nextObject,⟨h,found⟩,?_⟩
  · exact fun j apart => (same j apart).trans (set_other _ s apart)
  · exact own.imp (fun ⟨fine,_,length,left⟩ => ⟨fine,length,left⟩)
      fun ⟨closed,missing,length⟩ => ⟨closed,length,missing⟩

/-- A registration arms the connection, and changes nothing that decides whether it is open. -/
theorem Sound.register_own (sound : Sound s) (held : Held s)
    (stepped : Steps s (.register i granted) s') : Held s' ∧
      (∀ j, j ≠ i → s'.objects j = s.objects j) ∧
      s'.pendingFunctors = s.pendingFunctors.erase i ∧ i ∈ s.pendingFunctors ∧
      s'.timerNodeQueue.length = s.timerNodeQueue.length + 1 ∧ s'.nextObject = s.nextObject ∧
      ∃ h h', s.objects i = some h ∧ s'.objects i = some h' ∧
        h'.members = {h.members with events := epollIn ||| epollEt ||| epollOneshot} := by
  have sound' := sound.step stepped
  obtain ⟨waits,middle,added,left⟩ := register_ok stepped
  obtain ⟨_,unknown⟩ := sound.waiting.fresh i waits
  have requeues := registerHttp_requeues (fun armed => unknown (.inl armed)) added
  have acts := registerHttp_acts added
  obtain ⟨_,alive⟩ := sound.owned.pending i waits
  obtain ⟨h,found,_⟩ := found_descriptor alive
  rw [registerHttp_goes found] at added
  have length := @addChannel_length _ i defaultExpiredTime _ (set_self i (registers s.clock h) s)
    (by decide) granted
  obtain ⟨armed,here,others⟩ := @addChannel_objects i defaultExpiredTime granted _ _
    (set_self i (registers s.clock h) s) (by decide)
  obtain rfl := Except.ok.inj added
  change Armed i ((s.set i _).addChannel i h.fd _ _) at armed
  change ((s.set i _).addChannel i h.fd _ _).objects i = _ at here
  change ∀ j other, j ≠ i → ((s.set i _).addChannel i h.fd _ _).objects j = _ → _ at others
  change ((s.set i _).addChannel i h.fd _ _).timerNodeQueue.length = _ at length
  generalize (s.set i (registers s.clock h)).addChannel i h.fd defaultExpiredTime granted = middle at *
  have stays : s' = {middle with pendingFunctors := middle.pendingFunctors.erase i} :=
    left.trans (release_armed armed)
  subst stays
  have pending : middle.pendingFunctors = s.pendingFunctors := acts.pendingFunctors
  have waiting : ∀ j, j ≠ i → j ∈ s.pendingFunctors → j ∈ middle.pendingFunctors.erase i := by
    intro j apart waits
    rw [pending]
    exact (List.mem_erase_of_ne apart).mpr waits
  have requeues : Requeues i s {middle with pendingFunctors := middle.pendingFunctors.erase i} :=
    requeues.queue rfl rfl
  have same := held.others sound' requeues waiting fun j other apart found' =>
    (set_other _ s apart).symm.trans (others j other apart found')
  refine ⟨held.turn requeues waiting same (.inr armed),same,?_,waits,length,acts.nextObject,?_⟩
  · exact congrArg (List.erase · i) pending
  · exact ⟨h,_,found,here,rfl⟩

/-- The connections that are alive. -/
def living (s : IoLoop) : Finset Nat :=
  (Finset.range s.nextObject).filter fun i => (s.objects i).isSome = true

theorem living_same (number : s'.nextObject = s.nextObject)
    (same : ∀ j, (s'.objects j).isSome = (s.objects j).isSome) : living s' = living s := by
  unfold living
  simp only [number,same]

theorem living_less (number : s'.nextObject = s.nextObject)
    (others : ∀ j, j ≠ i → s'.objects j = s.objects j) (gone : s'.objects i = none) :
    living s' = (living s).erase i := by
  ext j
  simp only [living,number,Finset.mem_filter,Finset.mem_range,Finset.mem_erase]
  by_cases same : j = i
  · simp [same,gone]
  · simp [same,others j same]

theorem living_more (s : IoLoop) (h : HttpObject) :
    living {s.set s.nextObject h with nextObject := s.nextObject + 1} =
      insert s.nextObject (living s) := by
  ext j
  simp only [living,Finset.mem_filter,Finset.mem_range,Finset.mem_insert]
  by_cases same : j = s.nextObject
  · simp [same,set_self]
  · have number : j < s.nextObject + 1 ↔ j < s.nextObject := by omega
    simp [same,set_other h s same,number]

theorem Held.accept_own {root : Bytes} {mime : MimeType} (held : Held s)
    (stepped : Steps s (.accept fd root mime) s') : Held s' ∧
      (∀ j, j ≠ s.nextObject → s'.objects j = s.objects j) ∧
      s'.pendingFunctors = s.pendingFunctors ++ [s.nextObject] ∧
      s'.timerNodeQueue.length = s.timerNodeQueue.length ∧
      living s' = insert s.nextObject (living s) ∧
      s'.objects s.nextObject = some ⟨fd,Connection.fresh root mime,none,none⟩ := by
  obtain ⟨_,done⟩ := Option.ite_none_right_eq_some.mp stepped
  cases done
  refine ⟨?_,fun j apart => set_other _ s apart,rfl,rfl,living_more s _,set_self ..⟩
  intro i other found
  obtain ⟨rfl,_⟩ | ⟨_,before⟩ := set_found found
  · exact .inl (by simp)
  · exact (held i other before).imp_left (List.mem_append_left _)

theorem Owned.living (owned : Owned s) (found : s.objects i = some h) : i ∈ living s := by
  simp only [IoLoop.living,Finset.mem_filter,Finset.mem_range]
  exact ⟨owned.number i h.fd (descriptor_found found),by rw [found,Option.isSome_some]⟩

end

end IoLoop

theorem Alone.counted {table : MimeType} {t t' : Tabled} (alone : Alone table t)
    (counted : IoLoop.Counted t.loop) {action : TabledAction} (stepped : Tabled.Steps t action t') :
    IoLoop.Counted t'.loop := by
  cases action with
  | enter =>
    obtain ⟨_,rfl⟩ := Tabled.enter_goes stepped
    exact counted
  | leave keys =>
    obtain ⟨_,rfl⟩ := Tabled.leave_goes stepped
    exact counted
  | loop action =>
    cases action with
    | dispatch event =>
      obtain ⟨s',moved,rfl⟩ := Tabled.goOn_steps (Tabled.dispatch_goes stepped)
      obtain ⟨i,_,h,_,_,found,_,handed,_⟩ := Tabled.hand_steps moved
      rw [handed] at moved
      have set : IoLoop.Counted (t.loop.set i {h with
          members := {h.members with mime := t.mimeType}}) := counted.set found rfl
      exact set.step (alone.sound.set found _ rfl rfl rfl) moved
    | _ =>
      obtain ⟨s',moved,rfl⟩ := Tabled.goOn_steps stepped
      exact counted.step alone.sound moved

theorem run_counted {clock : Timeval} {table : MimeType} {actions : List TabledAction} {t : Tabled}
    (run : Run Tabled.Steps (Tabled.start clock table) actions t) : IoLoop.Counted t.loop := by
  have start : IoLoop.Counted (Tabled.start clock table).loop := by
    intro i h found
    cases found
  refine (run.invariant (fun t => Alone table t ∧ IoLoop.Counted t.loop) ?_
    ⟨start_alone clock table,start⟩).2
  exact fun _ _ _ ⟨alone,counted⟩ stepped => ⟨alone.step stepped,alone.counted counted stepped⟩

theorem Alone.latest {table : MimeType} {t : Tabled} (alone : Alone table t) (i : Nat) :
    ((t.loop.objects i).map HttpObject.members).or (t.members i) = t.members i := by
  cases found : t.loop.objects i with
  | none => rfl
  | some h => exact (alone.kept i h found).symm

/-- Between two sweeps: the lookups of other loops, and the actions of `EventLoop::loop`. -/
def Sweepless : TabledAction → Prop
  | .loop action => IoLoop.Looping action
  | .enter | .leave _ => True

/-- An event is handled. -/
def Handles : TabledAction → Bool
  | .loop (.dispatch _) => true
  | _ => false

/-- Without sweeps, behind `n` events that were handled: the objects are those of the open
connections, and each event and each connection that is alive and registered has its node. -/
structure Lasting (n : Nat) (t : Tabled) : Prop where
  held : IoLoop.Held t.loop
  opened : ∀ i m, t.members i = some m →
    ((t.loop.objects i).isSome = true ↔ (!m.err && m.isConnecting) = true)
  balance : t.loop.timerNodeQueue.length + t.loop.pendingFunctors.length =
    n + (IoLoop.living t.loop).card

namespace Lasting

variable {table : MimeType} {n : Nat} {t t' : Tabled} {s' : IoLoop}

theorem start (clock : Timeval) (table : MimeType) : Lasting 0 (Tabled.start clock table) where
  held := by
    intro i h found
    cases found
  opened := by
    intro i m last
    cases last
  balance := rfl

/-- A step for one connection, of which the others take no notice. -/
theorem opens (lasting : Lasting n t) (alone : Alone table t) (called : Nat → Option Connection)
    (i : Nat) (others : ∀ j, j ≠ i → s'.objects j = t.loop.objects j)
    (outlives : ∀ j, j ≠ i → called j = t.members j)
    (own : ∀ m, ((s'.objects i).map HttpObject.members).or (called i) = some m →
      ((s'.objects i).isSome = true ↔ (!m.err && m.isConnecting) = true)) (j : Nat) (m : Connection)
    (last : ((s'.objects j).map HttpObject.members).or (called j) = some m) :
    (s'.objects j).isSome = true ↔ (!m.err && m.isConnecting) = true := by
  by_cases same : j = i
  · subst same
    exact own m last
  · rw [others j same,outlives j same] at last
    rw [others j same]
    exact lasting.opened j m ((alone.latest j).symm.trans last)

/-- A step that changes no object, no node and no functor. -/
theorem idle (lasting : Lasting n t) (alone : Alone table t) (objects : s'.objects = t.loop.objects)
    (queue : s'.timerNodeQueue = t.loop.timerNodeQueue)
    (pending : s'.pendingFunctors = t.loop.pendingFunctors)
    (number : s'.nextObject = t.loop.nextObject) :
    Lasting n {t with
      loop := s'
      members := fun i => ((s'.objects i).map HttpObject.members).or (t.members i)} where
  held := by
    intro i h found
    dsimp only at found ⊢
    rw [IoLoop.Armed,queue,pending]
    exact lasting.held i h (objects ▸ found)
  opened := by
    intro i m last
    dsimp only at last ⊢
    rw [objects] at last ⊢
    exact lasting.opened i m ((alone.latest i).symm.trans last)
  balance := by
    dsimp only
    rw [queue,pending,IoLoop.living_same number fun j => by rw [objects]]
    exact lasting.balance

theorem accept (lasting : Lasting n t) (alone : Alone table t) {fd : Nat} {root : Bytes}
    (stepped : IoLoop.Steps t.loop (.accept fd root t.mimeType) s') :
    Lasting n {t with
      loop := s'
      members := fun i => ((s'.objects i).map HttpObject.members).or (t.members i)} := by
  obtain ⟨held,others,pending,length,living,here⟩ := lasting.held.accept_own stepped
  refine ⟨held,lasting.opens alone t.members t.loop.nextObject others (fun _ _ => rfl) ?_,?_⟩
  · intro m last
    rw [here] at last ⊢
    obtain rfl := Option.some.inj last
    exact iff_of_true rfl rfl
  · have new : t.loop.nextObject ∉ IoLoop.living t.loop := by simp [IoLoop.living]
    have balance := lasting.balance
    dsimp only
    rw [living,Finset.card_insert_of_notMem new,pending,length,List.length_append,
      List.length_singleton]
    omega

theorem register (lasting : Lasting n t) (alone : Alone table t) {i : Nat} {granted : Bool}
    (stepped : IoLoop.Steps t.loop (.register i granted) s') :
    Lasting n {t with
      loop := s'
      members := fun i => ((s'.objects i).map HttpObject.members).or (t.members i)} := by
  obtain ⟨held,others,pending,waits,length,number,h,h',found,found',members⟩ :=
    alone.sound.register_own lasting.held stepped
  refine ⟨held,lasting.opens alone t.members i others (fun _ _ => rfl) fun m last => ?_,?_⟩
  · have before := lasting.opened i h.members (alone.kept i h found)
    rw [found'] at last ⊢
    obtain rfl := Option.some.inj last
    rw [found] at before
    rw [members]
    exact before
  · have same : IoLoop.living s' = IoLoop.living t.loop := by
      refine IoLoop.living_same number fun j => ?_
      by_cases here : j = i
      · rw [here,found,found']
        rfl
      · rw [others j here]
    have erased := List.length_erase_add_one waits
    have balance := lasting.balance
    dsimp only
    rw [length,pending,same]
    omega

/-- The event of one connection, with the members that its callbacks left. -/
theorem turn (lasting : Lasting n t) (alone : Alone table t) {i : Nat} {c : Connection}
    (turn : IoLoop.Turn i c t.loop s') {after : Tabled} (loop : after.loop = s')
    (called : Nat → Option Connection)
    (members : ∀ j, after.members j = ((s'.objects j).map HttpObject.members).or (called j))
    (outlives : ∀ j, j ≠ i → called j = t.members j) (own : called i = some c) :
    Lasting (n + 1) after := by
  subst loop
  refine ⟨turn.held,fun j m last => ?_,?_⟩
  · rw [members] at last
    refine lasting.opens alone called i turn.others outlives (fun m last => ?_) j m last
    obtain ⟨fine,_,h,found,same⟩ | ⟨closed,_,missing⟩ := turn.own
    · rw [found] at last ⊢
      obtain rfl := Option.some.inj last
      rw [same]
      exact iff_of_true rfl fine
    · rw [missing,own] at last
      obtain rfl := Option.some.inj last
      rw [missing,closed]
      exact iff_of_false nofun nofun
  · have balance := lasting.balance
    have pending := turn.pending
    have number := turn.number
    obtain ⟨h₀,found₀⟩ := turn.was
    obtain ⟨_,length,h,found,_⟩ | ⟨_,length,missing⟩ := turn.own
    · have living : IoLoop.living after.loop = IoLoop.living t.loop := by
        refine IoLoop.living_same number fun j => ?_
        by_cases here : j = i
        · rw [here,found,found₀]
          rfl
        · rw [turn.others j here]
      rw [length,living,pending]
      omega
    · have living : IoLoop.living after.loop = (IoLoop.living t.loop).erase i :=
        IoLoop.living_less number turn.others missing
      have card := Finset.card_erase_add_one (alone.sound.owned.living found₀)
      rw [length,living,pending]
      omega

theorem dispatch (lasting : Lasting n t) (alone : Alone table t) {event : Event}
    (stepped : IoLoop.Steps (t.hand event).loop (.dispatch event) s') :
    Lasting (n + 1) {t.hand event with
      loop := s'
      members := fun i => ((s'.objects i).map HttpObject.members).or ((t.hand event).members i)} := by
  obtain ⟨i,rest,h,called,first,found,_,handed,registered⟩ := Tabled.hand_steps stepped
  rw [handed]
  have active : ∀ j ∈ t.loop.activeChannels, IoLoop.Known j t.loop := fun j member => .inr (.inl member)
  have known : IoLoop.Known i t.loop := active i (by simp [first])
  have rested : IoLoop.Sound {t.loop with activeChannels := rest} :=
    alone.sound.goOn (Nat.le_refl _) t.loop.phase fun j member => active j (by simp [first,member])
  have apart : i ∉ t.loop.pendingFunctors := fun waits => (alone.sound.waiting.fresh i waits).2 known
  obtain ⟨held,others,pending,number,was,own⟩ := rested.set_turn (lasting.held.rest rest) found apart
    (alone.sound.waiting.known i known) registered
  exact lasting.turn alone ⟨held,others,pending,number,was,own⟩ rfl
    (Function.update t.members i (some called)) (fun _ => rfl)
    (fun j apart => Function.update_of_ne apart ..) (Function.update_self ..)

theorem step (lasting : Lasting n t) (alone : Alone table t) {action : TabledAction}
    (sweepless : Sweepless action) (stepped : Tabled.Steps t action t') :
    Lasting (n + (Handles action).toNat) t' := by
  cases action with
  | enter =>
    obtain ⟨_,rfl⟩ := Tabled.enter_goes stepped
    exact ⟨lasting.held,lasting.opened,lasting.balance⟩
  | leave keys =>
    obtain ⟨_,rfl⟩ := Tabled.leave_goes stepped
    exact ⟨lasting.held,lasting.opened,lasting.balance⟩
  | loop action =>
    cases action with
    | accept fd root mime =>
      obtain ⟨s',moved,rfl⟩ := Tabled.goOn_steps stepped
      exact lasting.accept alone moved
    | register i granted =>
      obtain ⟨s',moved,rfl⟩ := Tabled.goOn_steps stepped
      exact lasting.register alone moved
    | dispatch event =>
      obtain ⟨s',moved,rfl⟩ := Tabled.goOn_steps (Tabled.dispatch_goes stepped)
      exact lasting.dispatch alone moved
    | poll events =>
      obtain ⟨s',moved,rfl⟩ := Tabled.goOn_steps stepped
      obtain ⟨_,_,rfl⟩ := IoLoop.poll_ok moved
      exact lasting.idle alone rfl rfl rfl rfl
    | tick | handled =>
      obtain ⟨s',moved,rfl⟩ := Tabled.goOn_steps stepped
      obtain ⟨_,done⟩ := Option.ite_none_right_eq_some.mp moved
      cases done
      exact lasting.idle alone rfl rfl rfl rfl
    | sweep | expire | swept => cases sweepless

theorem run (lasting : Lasting n t) (alone : Alone table t) {actions : List TabledAction}
    (run : Run Tabled.Steps t actions t') (sweepless : ∀ action ∈ actions, Sweepless action) :
    Lasting (n + actions.countP Handles) t' := by
  induction run generalizing n with
  | nil => exact lasting
  | @cons t middle t' action actions first rest ih =>
    have next := lasting.step alone (sweepless action (by simp)) first
    have last := ih next (alone.step first) fun other member => sweepless other (by simp [member])
    have counted : (action :: actions).countP Handles =
        (Handles action).toNat + actions.countP Handles := by
      rw [List.countP_cons]
      cases Handles action <;> simp [Nat.add_comm]
    rw [counted,← Nat.add_assoc]
    exact last

end Lasting

/-- A connection that waits for its registration is alive. -/
theorem IoLoop.Owned.pending_living {s : IoLoop} (owned : Owned s) (nodup : s.pendingFunctors.Nodup) :
    s.pendingFunctors.length ≤ (IoLoop.living s).card := by
  rw [← List.toFinset_card_of_nodup nodup]
  refine Finset.card_le_card fun i waits => ?_
  obtain ⟨_,alive⟩ := owned.pending i (List.mem_toFinset.mp waits)
  obtain ⟨h,found,_⟩ := found_descriptor alive
  exact owned.living found

/-- In every run of a loop the objects are those that a shared pointer is left to. When nothing is
swept, as `EventLoop::loop` sweeps nothing, these are the open connections, those that were
closed are gone; and what is never freed is a node of the timer queue: it has one for each event
that was handled, and one for each connection that is registered and still open. -/
theorem connections_released {clock : Timeval} {table : MimeType} {actions : List TabledAction}
    {t : Tabled} (run : Run Tabled.Steps (Tabled.start clock table) actions t) :
    (∀ i, (t.loop.objects i).isSome = true ↔ ∃ fd, IoLoop.Shared i fd t.loop) ∧
    ((∀ action ∈ actions, Sweepless action) →
      (∀ i m, t.members i = some m →
        ((t.loop.objects i).isSome = true ↔ m.err = false ∧ m.isConnecting = true)) ∧
      t.loop.timerNodeQueue.length + t.loop.pendingFunctors.length =
        actions.countP Handles + (IoLoop.living t.loop).card ∧
      actions.countP Handles ≤ t.loop.timerNodeQueue.length) := by
  have alone := run_alone run
  refine ⟨fun i => ⟨fun alive => ?_,fun ⟨_,shared⟩ => alone.sound.alive shared⟩,fun sweepless => ?_⟩
  · obtain ⟨h,found⟩ := Option.isSome_iff_exists.mp alive
    exact ⟨h.fd,run_counted run i h found⟩
  · have lasting := (Lasting.start clock table).run (start_alone clock table) run sweepless
    have balance := lasting.balance
    have few := alone.sound.owned.pending_living alone.sound.waiting.nodup
    rw [Nat.zero_add] at balance
    refine ⟨fun i m last => ?_,balance,by omega⟩
    rw [lasting.opened i m last]
    simp

theorem connections_released_crowded : ∃ t,
    Run Tabled.Steps (sampleLoop ⟨0,0,by decide⟩) crowdedActions t ∧
    t.loop.timerNodeQueue.length + t.loop.pendingFunctors.length = 2 + (IoLoop.living t.loop).card ∧
      2 ≤ t.loop.timerNodeQueue.length := by
  obtain ⟨t,_,run,_⟩ := crowded_run
  have sweepless : ∀ action ∈ crowdedActions, Sweepless action := by
    simp [crowdedActions,Sweepless,IoLoop.Looping]
  obtain ⟨_,balance,kept⟩ := (connections_released run).2 sweepless
  exact ⟨t,run,balance,kept⟩

end Deon.Net
