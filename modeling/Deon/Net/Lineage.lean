import Deon.Net.Isolation

/-! Only an accepted connection makes an object, and whatever becomes of it afterwards: it keeps its
descriptor and its root for as long as it lives. -/
namespace Deon.Net
open Library Http

namespace IoLoop

/-- The objects of the second state were there in the first, with the same descriptor and root. -/
structure Older (s s' : IoLoop) : Prop where
  was : ∀ i h', s'.objects i = some h' → ∃ h, s.objects i = some h ∧ h'.fd = h.fd ∧
    h'.members.root = h.members.root

section

variable {s s' s'' : IoLoop} {i fd timeout : Nat} {h h' : HttpObject} {granted : Bool}

theorem Older.same (same : s'.objects = s.objects) : Older s s' :=
  ⟨fun _ h' found => ⟨h',same ▸ found,rfl,rfl⟩⟩

theorem Older.trans (first : Older s s') (second : Older s' s'') : Older s s'' := by
  refine ⟨fun j h'' found => ?_⟩
  obtain ⟨h',found',fd',root'⟩ := second.was j h'' found
  obtain ⟨h,found,fd,root⟩ := first.was j h' found'
  exact ⟨h,found,fd'.trans fd,root'.trans root⟩

/-- What comes in front of the steps and changes no object. -/
theorem Older.behind (older : Older s' s'') (same : s'.objects = s.objects) : Older s s'' :=
  ⟨fun j h'' found => same ▸ older.was j h'' found⟩

theorem Retains.older (retains : Retains s s') : Older s s' :=
  ⟨fun j h' found => ⟨h',retains.less j h' found,rfl,rfl⟩⟩

theorem set_older (found : s.objects i = some h) (fd : h'.fd = h.fd)
    (root : h'.members.root = h.members.root) : Older s (s.set i h') := by
  refine ⟨fun j other found' => ?_⟩
  obtain ⟨rfl,rfl⟩ | ⟨_,before⟩ := set_found found'
  · exact ⟨h,found,fd,root⟩
  · exact ⟨other,before,rfl,rfl⟩

theorem addTimer_older (i timeout : Nat) (s : IoLoop) : Older s (s.addTimer i timeout) := by
  cases found : s.objects i with
  | none =>
    unfold addTimer
    rw [found]
    exact .same rfl
  | some h =>
    rw [addTimer_found found]
    have older : Older s (s.set i {h with timer := some s.nextNode}) := set_older found rfl rfl
    exact older.trans (.same rfl)

theorem addChannel_older (i fd timeout : Nat) (granted : Bool) (s : IoLoop) :
    Older s (s.addChannel i fd timeout granted) := by
  unfold addChannel enter
  dsimp only
  split
  · refine Older.trans ?_ (.trans (assignHttps_retains ..).older (.same rfl))
    exact (addTimer_older ..).behind rfl
  · exact .same rfl

theorem updateChannel_older (i fd timeout : Nat) (granted : Bool) (s : IoLoop) :
    Older s (s.updateChannel i fd timeout granted) := by
  unfold updateChannel
  dsimp only
  split
  · exact (addTimer_older ..).trans (.same rfl)
  · exact .same rfl

theorem deleteTimer_older (i : Nat) (s : IoLoop) : Older s (s.deleteTimer i) :=
  ⟨fun _ h' found => ⟨h',deleteTimer_less found,rfl,rfl⟩⟩

theorem handleRegister_older (done : s.handleRegister i granted = .ok s') : Older s s' := by
  refine (deleteTimer_older i s).trans ?_
  obtain ⟨h,found,_⟩ := handleRegister_ok done
  rw [handleRegister_goes found] at done
  split at done
  · obtain rfl := Except.ok.inj done
    exact .trans (set_older found (by rfl) (by rfl)) (updateChannel_older ..)
  · exact (deleteChannel_retains done).older

theorem handleEvents_older {event : Event} (done : s.handleEvents i event = .ok s') : Older s s' := by
  obtain ⟨h,_,found,_⟩ := handleEvents_ok done
  obtain ⟨called,ran,registered⟩ := set_handed found done
  have root := (callbacks_entered ran).2
  exact .trans (set_older found (by rfl) root) (handleRegister_older registered)

theorem registerHttp_older (done : s.registerHttp i granted = .ok s') : Older s s' := by
  obtain ⟨h,_,found,_⟩ := registerHttp_ok done
  rw [registerHttp_goes found] at done
  obtain rfl := Except.ok.inj done
  exact .trans (set_older found (by rfl) (by rfl)) (addChannel_older ..)

end

/-- Nothing but this makes an object. -/
def Brings : Action → Bool
  | .accept .. => true
  | _ => false

theorem step_older {s s' : IoLoop} {action : Action} (other : Brings action = false)
    (stepped : Steps s action s') : Older s s' ∧ s'.nextObject = s.nextObject := by
  cases action with
  | accept => cases other
  | register i granted =>
    obtain ⟨_,middle,added,rfl⟩ := register_ok stepped
    have acts := registerHttp_acts added
    have released := release_retains i {middle with pendingFunctors := middle.pendingFunctors.erase i}
    refine ⟨(registerHttp_older added).trans (released.older.behind rfl),?_⟩
    exact released.nextObject.trans acts.nextObject
  | poll events =>
    obtain ⟨_,_,rfl⟩ := poll_ok stepped
    exact ⟨.same rfl,rfl⟩
  | dispatch event =>
    obtain ⟨i,rest,_,_,done⟩ := dispatch_cases stepped
    exact ⟨(handleEvents_older done).behind rfl,(handleEvents_acts done).nextObject⟩
  | expire id =>
    obtain ⟨node,_,_,_,_,_,done⟩ := expire_cases stepped
    obtain ⟨_,rfl⟩ | ⟨i,h,middle,_,_,closed,rfl⟩ := destroyNode_ok done
    · exact ⟨.same rfl,rfl⟩
    · have removed := deleteChannel_retains closed
      have released := release_retains i (middle.pop node)
      exact ⟨removed.older.trans (released.older.behind rfl),
        released.nextObject.trans removed.nextObject⟩
  | tick | handled | sweep | swept =>
    obtain ⟨_,done⟩ := Option.ite_none_right_eq_some.mp stepped
    cases done
    exact ⟨.same rfl,rfl⟩

end IoLoop

/-- The loop was left with the connections of these descriptors, one after the other, and made an
object with this root for each. -/
structure Homed (root : Bytes) (fds : List Int) (t : Tabled) : Prop where
  number : t.loop.nextObject = fds.length
  alive : ∀ i h, t.loop.objects i = some h → fds[i]? = some (h.fd : Int) ∧ h.members.root = root
  known : ∀ i, i < t.loop.nextObject → ∃ m, t.members i = some m
  rooted : ∀ i m, t.members i = some m → m.root = root

namespace Homed

variable {root : Bytes} {fds : List Int} {t t' : Tabled}

theorem start (root : Bytes) (clock : Timeval) (table : MimeType) :
    Homed root [] (.start clock table) where
  number := rfl
  alive _ _ found := by cases found
  known _ below := by cases below
  rooted _ _ last := by cases last

theorem table (homed : Homed root fds t) (table : MimeType) (looking : Bool) :
    Homed root fds {t with mimeType := table,looking := looking} :=
  ⟨homed.number,homed.alive,homed.known,homed.rooted⟩

theorem hand (homed : Homed root fds t) (event : Event) : Homed root fds (t.hand event) := by
  unfold Tabled.hand
  split
  · exact homed
  · rename_i i h next
    obtain ⟨_,_,found⟩ := Option.bind_eq_some_iff.mp next
    obtain ⟨_,found,same⟩ := Option.map_eq_some_iff.mp found
    cases same
    obtain ⟨fd,own⟩ := homed.alive i h found
    have called : ((IoLoop.callbacks event {h.members with mime := t.mimeType}).toOption.getD
        {h.members with mime := t.mimeType}).root = root := by
      cases ran : IoLoop.callbacks event {h.members with mime := t.mimeType} with
      | error fault => exact own
      | ok read => exact (IoLoop.callbacks_entered ran).2.trans own
    refine ⟨homed.number,?_,?_,?_⟩
    · intro j other found'
      obtain ⟨rfl,rfl⟩ | ⟨_,before⟩ := IoLoop.set_found found'
      · exact ⟨fd,own⟩
      · exact homed.alive j other before
    · intro j below
      dsimp only
      by_cases same : j = i
      · exact ⟨_,by rw [same,Function.update_self]⟩
      · obtain ⟨m,last⟩ := homed.known j below
        exact ⟨m,(Function.update_of_ne same ..).trans last⟩
    · intro j m last
      dsimp only at last
      by_cases same : j = i
      · rw [same,Function.update_self,Option.some.injEq] at last
        exact last ▸ called
      · rw [Function.update_of_ne same] at last
        exact homed.rooted j m last

/-- The members of an object that is gone are those that it had last. -/
theorem outlive (homed : Homed root fds t) {s : IoLoop} {fds' : List Int}
    (number : s.nextObject = fds'.length)
    (alive : ∀ i h, s.objects i = some h → fds'[i]? = some (h.fd : Int) ∧ h.members.root = root)
    (made : ∀ i, i < s.nextObject → i < t.loop.nextObject ∨ (s.objects i).isSome = true) :
    Homed root fds' {t with
      loop := s
      members := fun i => ((s.objects i).map HttpObject.members).or (t.members i)} := by
  refine ⟨number,alive,fun i below => ?_,fun i m last => ?_⟩
  · dsimp only at below ⊢
    cases found : s.objects i with
    | some h => exact ⟨h.members,rfl⟩
    | none =>
      have before := (made i below).resolve_right (by simp [found])
      exact homed.known i before
  · dsimp only at last
    cases found : s.objects i with
    | some h =>
      rw [found] at last
      obtain rfl := Option.some.inj last
      exact (alive i h found).2
    | none =>
      rw [found] at last
      exact homed.rooted i m last

theorem goOn (homed : Homed root fds t) {action : IoLoop.Action} (other : IoLoop.Brings action = false)
    (done : t.goOn action = some (.ok t')) : Homed root fds t' := by
  obtain ⟨s,moved,rfl⟩ := Tabled.goOn_steps done
  obtain ⟨older,number⟩ := IoLoop.step_older other moved
  refine homed.outlive (number.trans homed.number) ?_ fun i below => .inl (number ▸ below)
  intro i h found
  obtain ⟨before,was,fd,own⟩ := older.was i h found
  rw [fd,own]
  exact homed.alive i before was

theorem goes (homed : Homed root fds t) {action : IoLoop.Action} (other : IoLoop.Brings action = false)
    (stepped : Tabled.Steps t (.loop action) t') : Homed root fds t' := by
  cases action with
  | accept => cases other
  | dispatch event => exact (homed.hand event).goOn rfl (Tabled.dispatch_goes stepped)
  | _ => exact homed.goOn rfl stepped

theorem accept (homed : Homed root fds t) {fd : Nat} {mime : MimeType}
    (stepped : Tabled.Steps t (.loop (.accept fd root mime)) t') : Homed root (fds ++ [(fd : Int)]) t' := by
  obtain ⟨s,moved,rfl⟩ := Tabled.goOn_steps stepped
  obtain ⟨_,done⟩ := Option.ite_none_right_eq_some.mp moved
  cases done
  refine homed.outlive ?_ ?_ ?_
  · simp [homed.number]
  · intro i h found
    obtain ⟨rfl,rfl⟩ | ⟨_,before⟩ := IoLoop.set_found found
    · rw [homed.number]
      exact ⟨List.getElem?_concat_length,rfl⟩
    · obtain ⟨same,own⟩ := homed.alive i h before
      have inside := (List.getElem?_eq_some_iff.mp same).1
      exact ⟨(List.getElem?_append_left inside).trans same,own⟩
  · intro i below
    rcases Nat.lt_succ_iff_lt_or_eq.mp below with before | rfl
    · exact .inl before
    · exact .inr (by simp [IoLoop.set_self])

end Homed

end Deon.Net
