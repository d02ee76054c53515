import Deon.Net.Wakeup

/-! Whether the wakeup channel stays registered. `handleRegister` adds the channel once more
behind each of its events; the kernel refuses a descriptor that it already has, and `update`
then takes the channel out of `channels_`. -/
namespace Deon.Net
open Library

variable {Functor : Type}

/-- The wakeup descriptor is in the interest list and mapped to its channel. -/
def Registered (s : EventLoop Functor) : Prop :=
  s.poller.interest s.wakeupFd = true ∧ s.poller.channels s.wakeupFd = some (some .wakeup)

/-- The run has not polled an event of this descriptor. -/
def Unreported (fd : Nat) (labels : List (Action Functor)) : Prop :=
  ∀ events, Action.poll events ∈ labels → fd ∉ events

/-- The loop is still to register the wakeup channel once more. -/
def Pending (s : EventLoop Functor) : Prop :=
  Channel.wakeup ∈ s.activeChannels ∨ s.pc = .reading ∨ s.pc = .registering

theorem addChannel_again {Chan : Type} {p : EpollPoller Chan} {fd : Nat} (channel : Chan)
    (held : p.interest fd = true) :
    (p.addChannel channel fd true).channels = Function.update p.channels fd none := by
  simp [EpollPoller.addChannel,EpollPoller.update,epollCtl,held]

structure Registration (wakeupFd : Nat) (s : EventLoop Functor) (reported : Bool) : Prop where
  fd : s.wakeupFd = wakeupFd
  wired : Wired s
  sole : ∀ fd, s.poller.channels fd = some (some .wakeup) → fd = wakeupFd
  place : Pending s → s.pc = .handling ∨ s.pc = .callback ∨ s.pc = .reading ∨ s.pc = .registering
  before : reported = false → ¬ Pending s ∧ s.poller.channels wakeupFd = some (some .wakeup)
  behind : reported = true → Pending s ∨ s.poller.channels wakeupFd = none

theorem construct_registration (wakeupFd : Nat) :
    Registration wakeupFd (construct wakeupFd : EventLoop Functor) false where
  fd := rfl
  wired := construct_wired wakeupFd
  sole := by
    intro fd held
    by_contra other
    simp [construct,EpollPoller.addChannel,EpollPoller.update,epollCtl,EpollPoller.empty,
      Function.update_of_ne other] at held
  place := by simp [Pending,construct]
  before := by
    simp [Pending,construct,EpollPoller.addChannel,EpollPoller.update,epollCtl,EpollPoller.empty]
  behind := nofun

/-- A step that leaves the poller alone, and with it what is still to be registered. -/
theorem Registration.still {wakeupFd : Nat} {s s' : EventLoop Functor} {reported : Bool}
    (registration : Registration wakeupFd s reported) (wired : Wired s')
    (fd : s'.wakeupFd = s.wakeupFd) (poller : s'.poller = s.poller)
    (pending : Pending s' ↔ Pending s)
    (place : Pending s' → s'.pc = .handling ∨ s'.pc = .callback ∨ s'.pc = .reading ∨
      s'.pc = .registering) : Registration wakeupFd s' reported where
  fd := fd.trans registration.fd
  wired := wired
  sole := poller ▸ registration.sole
  place := place
  before := fun never => ⟨fun held => (registration.before never).1 (pending.mp held),
    poller ▸ (registration.before never).2⟩
  behind := fun ever => (registration.behind ever).imp pending.mpr fun none => poller ▸ none

theorem Registration.idle {wakeupFd : Nat} {s : EventLoop Functor} {reported : Bool}
    (registration : Registration wakeupFd s reported)
    (out : s.pc ≠ .handling ∧ s.pc ≠ .callback ∧ s.pc ≠ .reading ∧ s.pc ≠ .registering) :
    ¬ Pending s := by
  intro held
  obtain ⟨one,two,three,four⟩ := out
  rcases registration.place held with here | here | here | here
  · exact one here
  · exact two here
  · exact three here
  · exact four here

theorem Registration.outside {wakeupFd : Nat} {s s' : EventLoop Functor} {reported : Bool}
    (registration : Registration wakeupFd s reported) (wired : Wired s')
    (fd : s'.wakeupFd = s.wakeupFd) (poller : s'.poller = s.poller) (none : ¬ Pending s)
    (active : ∀ channel ∈ s'.activeChannels, channel ∈ s.activeChannels)
    (out : s'.pc ≠ .reading ∧ s'.pc ≠ .registering) : Registration wakeupFd s' reported := by
  have none' : ¬ Pending s' := by
    rintro (held | held | held)
    · exact none (.inl (active _ held))
    · exact out.1 held
    · exact out.2 held
  exact registration.still wired fd poller (iff_of_false none' none) (absurd · none')

theorem Registration.advance {wakeupFd : Nat} {s s' : EventLoop Functor} {reported : Bool}
    (registration : Registration wakeupFd s reported) (free : s.own = none)
    (stepped : s.advance = some s') : Registration wakeupFd s' reported := by
  have wired := (registration.wired.advance free stepped).1
  unfold EventLoop.advance at stepped
  cases here : s.pc <;> simp only [here,reduceCtorEq] at stepped
  case handling =>
    split at stepped <;> cases stepped
    · rename_i empty
      have none : ¬ Pending s := by simp [Pending,here,empty]
      exact registration.outside wired rfl rfl none (fun _ => id) (by simp)
    · rename_i rest active
      have some : Pending s := .inl (by simp [active])
      exact registration.still wired rfl rfl (iff_of_true (.inr (.inl rfl)) some)
        (fun _ => .inr (.inr (.inl rfl)))
    · rename_i id rest active
      have same : Pending {s with activeChannels := rest,pc := .callback} ↔ Pending s := by
        simp [Pending,here,active]
      exact registration.still wired rfl rfl same (fun _ => .inr (.inl rfl))
  case reading =>
    cases stepped
    exact registration.still wired rfl rfl (iff_of_true (.inr (.inr rfl)) (.inr (.inl here)))
      (fun _ => .inr (.inr (.inr rfl)))
  case registering =>
    cases stepped
    have again : reported = true := by
      by_contra never
      exact (registration.before (eq_false_of_ne_true never)).1 (.inr (.inr here))
    have erased : s.handleRegister.poller.channels wakeupFd = none := by
      simp only [EventLoop.handleRegister]
      rw [addChannel_again _ registration.wired.registered,registration.fd,Function.update_self]
    refine ⟨registration.fd,wired,?_,fun _ => .inl rfl,?_,fun _ => .inr erased⟩
    · intro fd held
      by_cases same : fd = wakeupFd
      · exact same
      · apply registration.sole
        simp only [EventLoop.handleRegister] at held
        rw [addChannel_again _ registration.wired.registered,registration.fd,
          Function.update_of_ne same] at held
        exact held
    · intro never
      rw [again] at never
      cases never
  case callback =>
    cases stepped
    have same : Pending {s with pc := .handling} ↔ Pending s := by simp [Pending,here]
    exact registration.still wired rfl rfl same (fun _ => .inl rfl)
  case testing =>
    have none := registration.idle (by simp [here])
    split at stepped <;> cases stepped
    · exact registration.outside wired rfl rfl none (fun _ => id) (by simp)
    · exact registration.outside wired rfl rfl none (by simp) (by simp)
  -- in front of the events and behind them nothing is to be registered
  all_goals
    have none := registration.idle (by simp [here])
    try split at stepped
    all_goals cases stepped <;>
      exact registration.outside wired rfl rfl none (fun _ => id) (by simp)

def reports (fd : Nat) : Action Functor → Bool
  | .poll events => fd ∈ events
  | _ => false

theorem Registration.control {wakeupFd : Nat} {s : EventLoop Functor} {reported : Bool}
    (registration : Registration wakeupFd s reported) {poller : EpollPoller Channel}
    (wired : Wired {s with poller := poller})
    (same : poller.channels wakeupFd = s.poller.channels wakeupFd)
    (other : ∀ fd, poller.channels fd = some (some .wakeup) →
      s.poller.channels fd = some (some .wakeup)) :
    Registration wakeupFd {s with poller := poller} reported where
  fd := registration.fd
  wired := wired
  sole := fun fd held => registration.sole fd (other fd held)
  place := registration.place
  before := fun never => ⟨(registration.before never).1,same.trans (registration.before never).2⟩
  behind := fun ever => (registration.behind ever).imp_right same.trans

theorem Registration.poll {wakeupFd : Nat} {s s' : EventLoop Functor} {reported : Bool}
    (registration : Registration wakeupFd s reported) {events : List Nat}
    (stepped : Steps s (.poll events) s') :
    Registration wakeupFd s' (reported || decide (wakeupFd ∈ events)) ∧
      (wakeupFd ∈ events → (.wakeup ∈ s'.activeChannels ↔ reported = false)) := by
  have wired := (registration.wired.step stepped).1
  obtain ⟨⟨_,here,_⟩,done⟩ := Option.ite_none_right_eq_some.mp stepped
  obtain ⟨channels,filled,done⟩ := Option.bind_eq_some_iff.mp done
  have idle := registration.idle (by simp [here])
  have none : .wakeup ∉ s.activeChannels := fun held => idle (.inl held)
  have found : .wakeup ∈ channels ↔
      wakeupFd ∈ events ∧ s.poller.channels wakeupFd = some (some .wakeup) := by
    rw [EpollPoller.fillActiveChannels_mem filled]
    constructor
    · rintro ⟨fd,inside,held⟩
      obtain rfl := registration.sole fd held
      exact ⟨inside,held⟩
    · exact fun both => ⟨wakeupFd,both⟩
  have mapped : s.poller.channels wakeupFd = some (some .wakeup) ↔ reported = false := by
    cases reported with
    | false => exact iff_of_true (registration.before rfl).2 rfl
    | true =>
      have erased := (registration.behind rfl).resolve_left idle
      simp [erased]
  cases done
  refine ⟨⟨registration.fd,wired,registration.sole,fun _ => .inl rfl,?_,?_⟩,?_⟩
  · intro never
    obtain ⟨first,absent⟩ := Bool.or_eq_false_iff.mp never
    refine ⟨?_,(registration.before first).2⟩
    rintro (held | held | held)
    · rcases List.mem_append.mp held with old | new
      · exact none old
      · simp [(found.mp new).1] at absent
    · cases held
    · cases held
  · intro ever
    cases reported with
    | true => exact .inr ((registration.behind rfl).resolve_left idle)
    | false =>
      have inside : wakeupFd ∈ events := by simpa using ever
      exact .inl (.inl (List.mem_append_right _ (found.mpr ⟨inside,mapped.mpr rfl⟩)))
  · intro inside
    rw [List.mem_append,or_iff_right none,found,mapped]
    exact and_iff_right inside

theorem Registration.step {wakeupFd : Nat} {s s' : EventLoop Functor} {reported : Bool}
    (registration : Registration wakeupFd s reported) {action : Action Functor}
    (stepped : Steps s action s') : Registration wakeupFd s' (reported || reports wakeupFd action) := by
  have wired := (registration.wired.step stepped).1
  have still : ∀ {t : EventLoop Functor}, Wired t → t.wakeupFd = s.wakeupFd → t.poller = s.poller →
      t.activeChannels = s.activeChannels → t.pc = s.pc → Registration wakeupFd t reported := by
    intro t wired fd poller active here
    have same : Pending t ↔ Pending s := by rw [Pending,Pending,active,here]
    exact registration.still wired fd poller same (fun held => here ▸ registration.place (same.mp held))
  cases action with
  | poll events => exact (registration.poll stepped).1
  | loop =>
    simp only [reports,Bool.or_false]
    by_cases free : s.own = none
    · exact registration.advance free ((if_pos free).symm.trans stepped)
    · cases (if_neg free).symm.trans stepped
      apply still wired <;> unfold EventLoop.finishQueueInLoop <;> split <;> rfl
  | push functor =>
    cases stepped
    simpa only [reports,Bool.or_false] using still wired rfl rfl rfl rfl
  | wakeup ticket =>
    obtain ⟨_,done⟩ := Option.ite_none_right_eq_some.mp stepped
    cases done
    simpa only [reports,Bool.or_false] using still wired rfl rfl rfl rfl
  | quit =>
    cases stepped
    simpa only [reports,Bool.or_false] using still wired rfl rfl rfl rfl
  | quitWakeup =>
    obtain ⟨_,done⟩ := Option.ite_none_right_eq_some.mp stepped
    cases done
    simpa only [reports,Bool.or_false] using still wired rfl rfl rfl rfl
  | queue functor =>
    obtain ⟨_,done⟩ := Option.ite_none_right_eq_some.mp stepped
    cases done
    simpa only [reports,Bool.or_false] using still wired rfl rfl rfl rfl
  | quitInLoop =>
    obtain ⟨_,done⟩ := Option.ite_none_right_eq_some.mp stepped
    cases done
    simpa only [reports,Bool.or_false] using still wired rfl rfl rfl rfl
  | control operation id fd granted =>
    obtain ⟨poller,rfl,_,same,other⟩ := control_cases stepped
    rw [registration.fd] at same
    simpa only [reports,Bool.or_false] using registration.control wired same other

theorem Registration.run {wakeupFd : Nat} {s s' : EventLoop Functor}
    {labels : List (Action Functor)} (run : Run Steps s labels s') : ∀ {reported : Bool},
    Registration wakeupFd s reported →
      Registration wakeupFd s' (reported || labels.any (reports wakeupFd)) := by
  induction run with
  | nil =>
    intro reported registration
    simpa using registration
  | cons first rest ih =>
    intro reported registration
    have later := ih (registration.step first)
    rwa [Bool.or_assoc,← List.any_cons] at later

theorem unreported_iff {fd : Nat} {labels : List (Action Functor)} :
    labels.any (reports fd) = false ↔ Unreported fd labels := by
  rw [List.any_eq_false]
  constructor
  · intro none events member inside
    exact none _ member (by simpa [reports] using inside)
  · intro none action member reported
    cases action with
    | poll events => exact none events member (by simpa [reports] using reported)
    | _ => simp [reports] at reported

/-- The wakeup channel is registered when the loop polls, and an event of it that is then
reported reaches the channel, exactly as long as no poll has reported one before. -/
theorem registered_iff {wakeupFd : Nat} {labels : List (Action Functor)} {s : EventLoop Functor}
    (run : Run Steps (construct wakeupFd) labels s) (here : s.pc = .polling) :
    (Registered s ↔ Unreported wakeupFd labels) ∧
      ∀ events s', Steps s (.poll events) s' → wakeupFd ∈ events →
        (.wakeup ∈ s'.activeChannels ↔ Unreported wakeupFd labels) := by
  have registration := Registration.run run (construct_registration wakeupFd)
  rw [Bool.false_or] at registration
  rw [← unreported_iff]
  refine ⟨?_,fun events s' stepped inside => (registration.poll stepped).2 inside⟩
  have idle := registration.idle (by simp [here])
  unfold Registered
  rw [registration.fd,← registration.fd,and_iff_right registration.wired.registered,registration.fd]
  cases reported : labels.any (reports wakeupFd) with
  | false => exact iff_of_true (registration.before reported).2 rfl
  | true =>
    have erased := (registration.behind reported).resolve_left idle
    simp [erased]

theorem registered_first : ∃ s : EventLoop Unit,
    Run Steps (construct 7) [.loop,.loop] s ∧ s.pc = .polling ∧ Registered s := by
  have run : Run Steps (construct 7 : EventLoop Unit) [.loop,.loop] _ :=
    perform_run (fun _ _ _ done => done) rfl
  exact ⟨_,run,rfl,(registered_iff run rfl).1.mpr (by simp [Unreported])⟩

/-- Behind the first wakeup the channel is gone, and the event of the second, whose counter
stays set, reaches nobody. -/
theorem wakeup_unheard : ∃ s s' : EventLoop Unit,
    Run Steps (construct 7) ([.loop,.loop,.push (),.wakeup 0,.poll [7]] ++
      List.replicate 11 .loop ++ [.push (),.wakeup 1]) s ∧
    s.pc = .polling ∧ ¬ Registered s ∧ Steps s (.poll [7]) s' ∧ s'.activeChannels = [] ∧
      s'.counter = 1 := by
  refine ⟨_,_,perform_run (fun _ _ _ done => done) rfl,rfl,?_,rfl,rfl,rfl⟩
  rintro ⟨_,mapped⟩
  cases mapped

end Deon.Net
