import Deon.Library.Fallible
import Deon.Net.IoLoop

/-! What the operations and the actions of the loop come to, one lemma for each: the object
that an operation finds, and what it hands on. -/
namespace Deon.Net
open Library Http

namespace IoLoop

theorem find_ok {i : Nat} {s : IoLoop} {h : HttpObject} :
    s.find i = .ok h ↔ s.objects i = some h := by
  unfold find
  cases s.objects i <;> simp

theorem registerHttp_found {i : Nat} {s : IoLoop} {h : HttpObject} (found : s.objects i = some h)
    (granted : Bool) : ∃ h', h'.fd = h.fd ∧ h'.timer = h.timer ∧
      h'.registered = some (s.clock.ms,defaultExpiredTime) ∧
      s.registerHttp i granted = .ok ((s.set i h').addChannel i h.fd defaultExpiredTime granted) := by
  unfold registerHttp
  rw [find_ok.mpr found]
  refine ⟨_,?_,?_,?_,rfl⟩ <;> rfl

theorem registerHttp_ok {i : Nat} {granted : Bool} {s s' : IoLoop}
    (done : s.registerHttp i granted = .ok s') : ∃ h h', s.objects i = some h ∧ h'.fd = h.fd ∧
      h'.timer = h.timer ∧ h'.registered = some (s.clock.ms,defaultExpiredTime) ∧
      s' = (s.set i h').addChannel i h.fd defaultExpiredTime granted := by
  obtain ⟨h,found,_⟩ := bind_success done
  rw [find_ok] at found
  obtain ⟨h',fd,timer,registered,same⟩ := registerHttp_found found granted
  exact ⟨h,h',found,fd,timer,registered,Except.ok.inj (done.symm.trans same)⟩

/-- `handleRegister` chooses a timeout and registers again, or it closes. -/
theorem handleRegister_found {i : Nat} {s : IoLoop} {h : HttpObject}
    (found : (s.deleteTimer i).objects i = some h) (granted : Bool) :
    (∃ h' timeout, h'.fd = h.fd ∧ h'.timer = h.timer ∧
      h'.registered = some ((s.deleteTimer i).clock.ms,timeout) ∧ 0 < timeout ∧
      s.handleRegister i granted =
        .ok (((s.deleteTimer i).set i h').updateChannel i h.fd timeout granted)) ∨
      s.handleRegister i granted = (s.deleteTimer i).deleteChannel i h.fd := by
  unfold handleRegister
  dsimp only
  rw [find_ok.mpr found]
  simp only [bind,Except.bind]
  split
  · refine .inl ⟨_,_,?_,?_,?_,?_,rfl⟩
    · rfl
    · rfl
    · rfl
    · split <;> decide
  · exact .inr rfl

theorem handleRegister_ok {i : Nat} {granted : Bool} {s s' : IoLoop}
    (done : s.handleRegister i granted = .ok s') : ∃ h, (s.deleteTimer i).objects i = some h ∧
      ((∃ h' timeout, h'.fd = h.fd ∧ h'.timer = h.timer ∧
        h'.registered = some ((s.deleteTimer i).clock.ms,timeout) ∧ 0 < timeout ∧
        s' = ((s.deleteTimer i).set i h').updateChannel i h.fd timeout granted) ∨
        (s.deleteTimer i).deleteChannel i h.fd = .ok s') := by
  obtain ⟨h,found,_⟩ := bind_success done
  rw [find_ok] at found
  refine ⟨h,found,?_⟩
  rcases handleRegister_found found granted with
    ⟨h',timeout,fd,timer,registered,positive,same⟩ | same
  · exact .inl ⟨h',timeout,fd,timer,registered,positive,Except.ok.inj (done.symm.trans same)⟩
  · exact .inr (same.symm.trans done)

theorem handleEvents_found {i : Nat} {s : IoLoop} {h : HttpObject} (found : s.objects i = some h)
    (event : Event) : (∃ fault, s.handleEvents i event = .error (.fault fault)) ∨
      ∃ members, s.handleEvents i event =
        (s.set i {h with members := members}).handleRegister i event.env.ctl := by
  unfold handleEvents
  rw [find_ok.mpr found]
  simp only [bind,Except.bind]
  cases callbacks event h.members with
  | error fault => exact .inl ⟨fault,rfl⟩
  | ok members => exact .inr ⟨members,rfl⟩

theorem handleEvents_ok {i : Nat} {event : Event} {s s' : IoLoop}
    (done : s.handleEvents i event = .ok s') : ∃ h members, s.objects i = some h ∧
      (s.set i {h with members := members}).handleRegister i event.env.ctl = .ok s' := by
  obtain ⟨h,found,_⟩ := bind_success done
  rw [find_ok] at found
  rcases handleEvents_found found event with ⟨fault,same⟩ | ⟨members,same⟩
  · cases same.symm.trans done
  · exact ⟨h,members,found,same.symm.trans done⟩

theorem deleteChannel_ok {i fd : Nat} {s s' : IoLoop} (done : s.deleteChannel i fd = .ok s') :
    s.poller.channels fd = some (some i) := by
  by_contra absent
  unfold deleteChannel at done
  rw [if_neg absent] at done
  cases done

theorem destroyNode_found {node : TimerNode} {i : Nat} {s : IoLoop} {h : HttpObject}
    (held : node.http = some i) (found : s.objects i = some h) :
    s.destroyNode node = (s.deleteChannel i h.fd).map fun s => (s.pop node).release i := by
  unfold destroyNode
  rw [held]
  dsimp only
  rw [find_ok.mpr found]
  simp only [bind,Except.bind,Except.map]
  split <;> rfl

theorem destroyNode_ok {node : TimerNode} {s s' : IoLoop} (done : s.destroyNode node = .ok s') :
    (node.http = none ∧ s' = s.pop node) ∨ ∃ i h middle, node.http = some i ∧
      s.objects i = some h ∧ s.deleteChannel i h.fd = .ok middle ∧
      s' = (middle.pop node).release i := by
  unfold destroyNode at done
  split at done
  · rename_i held
    exact .inl ⟨held,(Except.ok.inj done).symm⟩
  · rename_i i held
    obtain ⟨h,found,done⟩ := bind_success done
    obtain ⟨middle,closed,done⟩ := bind_success done
    exact .inr ⟨i,h,middle,held,find_ok.mp found,closed,(Except.ok.inj done).symm⟩

theorem register_ok {s s' : IoLoop} {i : Nat} {granted : Bool}
    (stepped : Steps s (.register i granted) s') : i ∈ s.pendingFunctors ∧
      ∃ middle, s.registerHttp i granted = .ok middle ∧
        s' = ({middle with pendingFunctors := middle.pendingFunctors.erase i} : IoLoop).release i := by
  obtain ⟨⟨member,_⟩,done⟩ := Option.ite_none_right_eq_some.mp stepped
  obtain ⟨middle,added,same⟩ := map_success (Option.some.inj done)
  exact ⟨member,middle,added,same.symm⟩

theorem poll_ok {s s' : IoLoop} {events : List Nat} (stepped : Steps s (.poll events) s') :
    ∃ channels, s.poller.fillActiveChannels events = some channels ∧
      s' = {s with activeChannels := channels,phase := .handling} := by
  obtain ⟨_,done⟩ := Option.ite_none_right_eq_some.mp stepped
  split at done <;> cases done
  rename_i channels filled
  exact ⟨channels,filled,rfl⟩

theorem dispatch_cases {s : IoLoop} {event : Event} {result : Except Trap IoLoop}
    (stepped : step s (.dispatch event) = some result) : ∃ i rest, s.phase = .handling ∧
      s.activeChannels = i :: rest ∧ {s with activeChannels := rest}.handleEvents i event = result := by
  unfold step at stepped
  dsimp only at stepped
  split at stepped
  · rename_i i rest here first
    exact ⟨i,rest,here,first,Option.some.inj stepped⟩
  · cases stepped

theorem expire_cases {s : IoLoop} {id : Nat} {result : Except Trap IoLoop}
    (stepped : step s (.expire id) = some result) : ∃ node ∈ s.timerNodeQueue, node.id = id ∧
      s.phase = .sweeping ∧ Top node s ∧ node.isValid s.clock = false ∧
        s.destroyNode node = result := by
  unfold step at stepped
  obtain ⟨phase,done⟩ := Option.ite_none_right_eq_some.mp stepped
  split at done
  · rename_i node found
    obtain ⟨⟨top,expired⟩,done⟩ := Option.ite_none_right_eq_some.mp done
    have same : node.id = id := by simpa using List.find?_some found
    exact ⟨node,List.mem_of_find?_eq_some found,same,phase,top,expired,Option.some.inj done⟩
  · cases done

/-- A step that does not end the program. -/
def next (s : IoLoop) (action : Action) : Option IoLoop := (step s action).bind Except.toOption

/-- The way in which a step ends the program. -/
def trapped (s : IoLoop) (action : Action) : Option Trap :=
  match step s action with
  | some (.error trap) => some trap
  | _ => none

theorem trapped_step {s : IoLoop} {action : Action} {trap : Trap}
    (ended : trapped s action = some trap) : step s action = some (.error trap) := by
  unfold trapped at ended
  split at ended
  · rename_i other stepped
    cases ended
    exact stepped
  · cases ended

theorem next_steps (s : IoLoop) (action : Action) (s' : IoLoop) (done : next s action = some s') :
    Steps s action s' := by
  obtain ⟨result,stepped,same⟩ := Option.bind_eq_some_iff.mp done
  cases result with
  | error trap => cases same
  | ok after =>
    cases same
    exact stepped

theorem next_get {s : IoLoop} {action : Action} (done : (next s action).isSome) :
    Steps s action ((next s action).get done) := next_steps _ _ _ (Option.some_get done).symm

end IoLoop

end Deon.Net
