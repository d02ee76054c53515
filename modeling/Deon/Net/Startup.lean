import Deon.Net.EventLoopThread
import Deon.Threading.Thread

/-! `EventLoopThread::startLoop`: the caller starts the thread and waits at `cond_` for its loop, the
new thread makes the loop and publishes it. -/
namespace Deon.Net
open Library Threading

/-- Where the caller stands: before the call, in `thread_.start()`, in front of the critical section,
at the test of `loop_`, in front of `cond_.wait()`, in it, behind the loop, and behind the critical
section. -/
inductive CallPlace
  | constructed
  | starting
  | locks
  | testing
  | waits
  | waiting
  | leaving
  | returned
  deriving DecidableEq, Repr

/-- Where the new thread stands in `threadFunc`: at the construction of the loop, there in the `LOG`
of a failed `epoll_create1`, at `createEventfd` and in its failing branch, whose `abort()` ends the
program; in front of the critical section, at its two statements and its end, and at `loop.loop()`. -/
inductive FuncPlace
  | constructs
  | logs
  | opens
  | aborts
  | locks
  | publishes
  | notifies
  | unlocks
  | looping
  deriving DecidableEq, Repr

/-- `loop_` is set. -/
def FuncPlace.behind : FuncPlace → Bool
  | .notifies | .unlocks | .looping => true
  | .constructs | .logs | .opens | .aborts | .locks | .publishes => false

/-- The steps in front of the new thread up to `loop.loop()`. -/
def FuncPlace.ahead : FuncPlace → Nat
  | .constructs => 7
  | .logs => 6
  | .opens => 5
  | .locks => 4
  | .publishes => 3
  | .notifies => 2
  | .unlocks => 1
  | .looping | .aborts => 0

structure Startup where
  thread : Thread
  mutex : Monitor Side Unit
  loop : Bool
  call : CallPlace
  func : FuncPlace

namespace Startup

inductive Act
  | startLoop
  | thread (act : Thread.Act)
  /-- the result of `epoll_create1` -/
  | construct (polls : Bool)
  | logged
  | eventfd (granted : Bool)
  | enter
  | publish
  | notify (woken : Option Side)
  | leave
  | lock
  | test
  | block
  | wake
  | resume
  | unlock

namespace Act

def spurious : Act → Bool
  | .wake => true
  | .thread act => act.spurious
  | _ => false

/-- A `LOG` returns. -/
def logs : Act → Bool
  | .logged => true
  | .thread act => act.logs
  | _ => false

end Act

def init : Startup := ⟨.construct,.free,false,.constructed,.constructs⟩

/-- A step of `thread_.start()` or of `runInThread`; behind the last one of the caller it goes on in
`startLoop`. -/
def threadStep (s : Startup) (act : Thread.Act) : Option Startup :=
  if act.goesOn = true ∨ act.spurious = true then
    (s.thread.step act).map fun thread =>
      {s with thread := thread,
              call := if s.call = .starting ∧ thread.start = .outside then .locks else s.call}
  else none

/-- A step of `t` that uses `mutex_` or `cond_`. -/
def uses (s : Startup) (op : Monitor.Op Side Unit) : Option Startup :=
  (s.mutex.step op).map fun mutex => {s with mutex := mutex}

def step (s : Startup) : Act → Option Startup
  | .startLoop =>
    if s.call = .constructed then
      (s.thread.step .start).map fun thread => {s with thread := thread,call := .starting}
    else none
  | .thread act => s.threadStep act
  | .construct polls =>
    if s.func = .constructs ∧ s.thread.run = .runs then
      some {s with func := if polls then .opens else .logs}
    else none
  | .logged => if s.func = .logs then some {s with func := .opens} else none
  | .eventfd granted =>
    if s.func = .opens then some {s with func := if granted then .locks else .aborts} else none
  | .enter => if s.func = .locks then uses {s with func := .publishes} (.lock .created) else none
  | .publish =>
    if s.func = .publishes then some {s with loop := true,func := .notifies} else none
  | .notify woken =>
    if s.func = .notifies then uses {s with func := .unlocks} (.signal () woken) else none
  | .leave => if s.func = .unlocks then uses {s with func := .looping} (.unlock .created) else none
  | .lock => if s.call = .locks then uses {s with call := .testing} (.lock .caller) else none
  | .test =>
    if s.call = .testing then some {s with call := if s.loop then .leaving else .waits} else none
  | .block => if s.call = .waits then uses {s with call := .waiting} (.wait .caller ()) else none
  | .wake => if s.call = .waiting then s.uses (.wake .caller) else none
  | .resume => if s.call = .waiting then uses {s with call := .testing} (.resume .caller) else none
  | .unlock => if s.call = .leaving then uses {s with call := .returned} (.unlock .caller) else none

def Steps (s : Startup) (act : Act) (s' : Startup) : Prop := s.step act = some s'

/-- Who stands in a critical section of `mutex_`. -/
def locked (s : Startup) : Side → Prop
  | .caller => s.call = .testing ∨ s.call = .waits ∨ s.call = .leaving
  | .created => s.func = .publishes ∨ s.func = .notifies ∨ s.func = .unlocks

def waiting (s : Startup) : Side → Prop
  | .caller => s.call = .waiting
  | .created => False

structure Sound (s : Startup) : Prop where
  thread : s.thread.Sound
  seated : s.mutex.Seated s.locked s.waiting
  loop : s.loop = s.func.behind
  short : s.call = .waits → s.loop = false
  found : s.call = .leaving ∨ s.call = .returned → s.loop = true
  answered : (.caller,()) ∈ s.mutex.blocked → s.loop = false ∨ s.func = .notifies
  calls : if s.call = .starting then s.thread.start ≠ .outside ∧ s.thread.start ≠ .joining
    else s.thread.start = .outside
  fresh : s.call = .constructed → s.thread.started = false
  runs : s.func ≠ .constructs → s.thread.run = .runs
  goes : s.thread.run ≠ .finished

variable {s s' : Startup}

theorem init_sound : Sound init where
  thread := Thread.construct_sound
  seated := Monitor.free_seated (by rintro (_ | _) <;> simp [locked,init])
    (by rintro (_ | _) <;> simp [waiting,init])
  loop := rfl
  short := nofun
  found := by simp [init]
  answered := by simp [init,Monitor.free]
  calls := rfl
  fresh _ := rfl
  runs := by simp [init]
  goes := nofun

theorem uses_cases {op : Monitor.Op Side Unit} (used : s.uses op = some s') :
    ∃ mutex, s.mutex.step op = some mutex ∧ s' = {s with mutex := mutex} := by
  obtain ⟨mutex,stepped,same⟩ := Option.map_eq_some_iff.mp used
  exact ⟨mutex,stepped,same.symm⟩

theorem Sound.apart (t : Side) : s.locked t → ¬ s.waiting t := by
  cases t with
  | caller =>
    rintro (here | here | here) waits <;> cases here.symm.trans waits
  | created => exact fun _ => id

/-- Both threads cannot be in their critical sections. -/
theorem Sound.alone (sound : Sound s) (caller : s.locked .caller) : ¬ s.locked .created := by
  intro created
  cases ((sound.seated.owner .caller).mpr caller).symm.trans ((sound.seated.owner .created).mpr created)

theorem Sound.threadStep {act : Thread.Act} (sound : Sound s) (stepped : s.threadStep act = some s') :
    Sound s' := by
  obtain ⟨inner,done⟩ := Option.ite_none_right_eq_some.mp stepped
  obtain ⟨thread,moved,rfl⟩ := Option.map_eq_some_iff.mp done
  obtain ⟨outside,joining,runs,goes⟩ := sound.thread.inner moved inner
  have calls := sound.calls
  by_cases returns : s.call = .starting ∧ thread.start = .outside
  · obtain ⟨here,there⟩ := returns
    simp only [here,there,and_self,if_true]
    refine ⟨sound.thread.step moved,sound.seated.congr ?_ ?_,sound.loop,nofun,?_,sound.answered,there,
      nofun,fun behind => runs (sound.runs behind),goes sound.goes⟩
    · rintro (_ | _) <;> simp [locked,here]
    · rintro (_ | _) <;> simp [waiting,here]
    · rintro (one | one) <;> cases one
  · rw [if_neg returns]
    refine ⟨sound.thread.step moved,sound.seated,sound.loop,sound.short,sound.found,sound.answered,?_,
      fun here => ?_,fun behind => runs (sound.runs behind),goes sound.goes⟩
    · by_cases here : s.call = .starting
      · rw [if_pos here] at calls
        exact (if_pos here).mpr ⟨fun there => returns ⟨here,there⟩,joining calls.2⟩
      · rw [if_neg here] at calls
        exact (if_neg here).mpr (outside calls).1
    · rw [if_neg (by rw [here]; nofun)] at calls
      exact (outside calls).2.trans (sound.fresh here)

/-- Behind the notification the caller is no longer blocked. -/
theorem Sound.notified (sound : Sound s) {woken : Option Side} {mutex : Monitor Side Unit}
    (moved : s.mutex.step (.signal () woken) = some mutex) : (.caller,()) ∉ mutex.blocked := by
  cases Monitor.step_does moved with
  | unheard _ nobody => exact fun blocked => nobody _ blocked rfl
  | signal _ t waits =>
    have one : s.waiting t :=
      (sound.seated.waits t).mp (List.mem_append_left _ (List.mem_map_of_mem waits))
    cases t with
    | caller => simp [Monitor.wakes]
    | created => cases one

/-- The new thread goes on in front of its critical section. -/
theorem Sound.goesTo {place : FuncPlace} (sound : Sound s)
    (here : s.func ∈ [.constructs,.logs,.opens]) (there : place ∈ [.logs,.opens,.aborts,.locks])
    (runs : s.thread.run = .runs) : Sound {s with func := place} := by
  have outside : ∀ place ∈ [FuncPlace.constructs,.logs,.opens,.aborts,.locks], place.behind = false ∧
      place ≠ .publishes ∧ place ≠ .notifies ∧ place ≠ .unlocks := by decide
  obtain ⟨before,here⟩ := outside s.func (by revert here; simp; tauto)
  obtain ⟨after,there⟩ := outside place (by revert there; simp; tauto)
  refine ⟨sound.thread,sound.seated.congr ?_ ?_,?_,sound.short,sound.found,fun blocked => ?_,sound.calls,
    sound.fresh,fun _ => runs,sound.goes⟩
  · rintro (_ | _) <;> simp [locked,here,there]
  · rintro (_ | _) <;> simp [waiting]
  · exact sound.loop.trans (before.trans after.symm)
  · exact .inl ((sound.answered blocked).resolve_right here.2.1)

theorem Sound.step {act : Act} (sound : Sound s) (stepped : Steps s act s') : Sound s' := by
  cases act with
  | thread act => exact sound.threadStep stepped
  | startLoop =>
    obtain ⟨here,done⟩ := Option.ite_none_right_eq_some.mp stepped
    obtain ⟨thread,moved,rfl⟩ := Option.map_eq_some_iff.mp done
    obtain ⟨_,same⟩ := Option.ite_none_right_eq_some.mp moved
    cases same
    refine ⟨sound.thread.step moved,sound.seated.congr ?_ ?_,sound.loop,nofun,?_,sound.answered,
      ⟨nofun,nofun⟩,nofun,sound.runs,sound.goes⟩
    · rintro (_ | _) <;> simp [locked,here]
    · rintro (_ | _) <;> simp [waiting,here]
    · rintro (one | one) <;> cases one
  | construct polls =>
    obtain ⟨⟨here,runs⟩,done⟩ := Option.ite_none_right_eq_some.mp stepped
    cases done
    cases polls <;> exact sound.goesTo (by simp [here]) (by simp) runs
  | logged =>
    obtain ⟨here,done⟩ := Option.ite_none_right_eq_some.mp stepped
    cases done
    exact sound.goesTo (by simp [here]) (by simp) (sound.runs (by rw [here]; nofun))
  | eventfd granted =>
    obtain ⟨here,done⟩ := Option.ite_none_right_eq_some.mp stepped
    cases done
    cases granted <;> exact sound.goesTo (by simp [here]) (by simp) (sound.runs (by rw [here]; nofun))
  | enter =>
    obtain ⟨here,done⟩ := Option.ite_none_right_eq_some.mp stepped
    obtain ⟨mutex,moved,rfl⟩ := uses_cases done
    refine ⟨sound.thread,sound.seated.step moved Sound.apart ?_ ?_,?_,sound.short,sound.found,
      fun blocked => ?_,sound.calls,sound.fresh,fun _ => sound.runs (by rw [here]; nofun),sound.goes⟩
    · rintro (_ | _) <;> simp [locked]
    · rintro (_ | _) <;> simp [waiting]
    · rw [sound.loop,here]
      rfl
    · have before := ((Monitor.step_blocked moved blocked).resolve_left nofun).1
      exact .inl ((sound.answered before).resolve_right (by rw [here]; nofun))
  | publish =>
    obtain ⟨here,done⟩ := Option.ite_none_right_eq_some.mp stepped
    cases done
    have alone : ¬ s.locked .caller := fun caller => sound.alone caller (.inl here)
    refine ⟨sound.thread,sound.seated.congr ?_ ?_,rfl,fun one => ?_,fun _ => rfl,fun _ => .inr rfl,
      sound.calls,sound.fresh,fun _ => sound.runs (by rw [here]; nofun),sound.goes⟩
    · rintro (_ | _) <;> simp [locked,here]
    · rintro (_ | _) <;> simp [waiting]
    · exact absurd (.inr (.inl one)) alone
  | notify woken =>
    obtain ⟨here,done⟩ := Option.ite_none_right_eq_some.mp stepped
    obtain ⟨mutex,moved,rfl⟩ := uses_cases done
    refine ⟨sound.thread,sound.seated.step moved Sound.apart ?_ ?_,?_,sound.short,sound.found,
      fun blocked => absurd blocked (sound.notified moved),sound.calls,sound.fresh,
      fun _ => sound.runs (by rw [here]; nofun),sound.goes⟩
    · rintro (_ | _) <;> simp [locked,here]
    · rintro (_ | _) <;> simp [waiting]
    · rw [sound.loop,here]
      rfl
  | leave =>
    obtain ⟨here,done⟩ := Option.ite_none_right_eq_some.mp stepped
    obtain ⟨mutex,moved,rfl⟩ := uses_cases done
    refine ⟨sound.thread,sound.seated.step moved Sound.apart ?_ ?_,?_,sound.short,sound.found,
      fun blocked => ?_,sound.calls,sound.fresh,fun _ => sound.runs (by rw [here]; nofun),sound.goes⟩
    · rintro (_ | _) <;> simp [locked]
    · rintro (_ | _) <;> simp [waiting]
    · rw [sound.loop,here]
      rfl
    · have before := ((Monitor.step_blocked moved blocked).resolve_left nofun).1
      exact .inl ((sound.answered before).resolve_right (by rw [here]; nofun))
  | lock =>
    obtain ⟨here,done⟩ := Option.ite_none_right_eq_some.mp stepped
    obtain ⟨mutex,moved,rfl⟩ := uses_cases done
    have calls := sound.calls
    rw [if_neg (by rw [here]; nofun)] at calls
    refine ⟨sound.thread,sound.seated.step moved Sound.apart ?_ ?_,sound.loop,nofun,?_,fun blocked => ?_,
      calls,nofun,sound.runs,sound.goes⟩
    · rintro (_ | _) <;> simp [locked]
    · rintro (_ | _) <;> simp [waiting,here]
    · rintro (one | one) <;> cases one
    · exact sound.answered ((Monitor.step_blocked moved blocked).resolve_left nofun).1
  | test =>
    obtain ⟨here,done⟩ := Option.ite_none_right_eq_some.mp stepped
    cases done
    have calls := sound.calls
    rw [if_neg (by rw [here]; nofun)] at calls
    by_cases found : s.loop = true
    · rw [if_pos found]
      refine ⟨sound.thread,sound.seated.congr ?_ ?_,sound.loop,nofun,fun _ => found,sound.answered,
        calls,nofun,sound.runs,sound.goes⟩
      · rintro (_ | _) <;> simp [locked,here]
      · rintro (_ | _) <;> simp [waiting,here]
    · rw [if_neg found]
      refine ⟨sound.thread,sound.seated.congr ?_ ?_,sound.loop,fun _ => eq_false_of_ne_true found,?_,
        sound.answered,calls,nofun,sound.runs,sound.goes⟩
      · rintro (_ | _) <;> simp [locked,here]
      · rintro (_ | _) <;> simp [waiting,here]
      · rintro (one | one) <;> cases one
  | block =>
    obtain ⟨here,done⟩ := Option.ite_none_right_eq_some.mp stepped
    obtain ⟨mutex,moved,rfl⟩ := uses_cases done
    have calls := sound.calls
    rw [if_neg (by rw [here]; nofun)] at calls
    refine ⟨sound.thread,sound.seated.step moved Sound.apart ?_ ?_,sound.loop,nofun,?_,
      fun _ => .inl (sound.short here),calls,nofun,sound.runs,sound.goes⟩
    · rintro (_ | _) <;> simp [locked]
    · rintro (_ | _) <;> simp [waiting]
    · rintro (one | one) <;> cases one
  | wake =>
    obtain ⟨here,done⟩ := Option.ite_none_right_eq_some.mp stepped
    obtain ⟨mutex,moved,rfl⟩ := uses_cases done
    refine ⟨sound.thread,sound.seated.step moved Sound.apart ?_ ?_,sound.loop,sound.short,sound.found,
      fun blocked => ?_,sound.calls,sound.fresh,sound.runs,sound.goes⟩
    · rintro (_ | _) <;> simp [locked]
    · rintro (_ | _) <;> simp [waiting]
    · exact sound.answered ((Monitor.step_blocked moved blocked).resolve_left nofun).1
  | resume =>
    obtain ⟨here,done⟩ := Option.ite_none_right_eq_some.mp stepped
    obtain ⟨mutex,moved,rfl⟩ := uses_cases done
    have calls := sound.calls
    rw [if_neg (by rw [here]; nofun)] at calls
    refine ⟨sound.thread,sound.seated.step moved Sound.apart ?_ ?_,sound.loop,nofun,?_,fun blocked => ?_,
      calls,nofun,sound.runs,sound.goes⟩
    · rintro (_ | _) <;> simp [locked]
    · rintro (_ | _) <;> simp [waiting]
    · rintro (one | one) <;> cases one
    · exact sound.answered ((Monitor.step_blocked moved blocked).resolve_left nofun).1
  | unlock =>
    obtain ⟨here,done⟩ := Option.ite_none_right_eq_some.mp stepped
    obtain ⟨mutex,moved,rfl⟩ := uses_cases done
    have calls := sound.calls
    rw [if_neg (by rw [here]; nofun)] at calls
    refine ⟨sound.thread,sound.seated.step moved Sound.apart ?_ ?_,sound.loop,nofun,
      fun _ => sound.found (.inl here),fun blocked => ?_,calls,nofun,sound.runs,sound.goes⟩
    · rintro (_ | _) <;> simp [locked]
    · rintro (_ | _) <;> simp [waiting,here]
    · exact sound.answered ((Monitor.step_blocked moved blocked).resolve_left nofun).1

end Startup

/-- The steps in front of the caller apart from those in `thread_.start()`, as long as no wait is over
by itself. -/
def CallPlace.ahead (loop : Bool) (mutex : Monitor Side Unit) : CallPlace → Nat
  | .constructed => 25
  | .starting => 8
  | .locks => 7
  | .testing => if loop then 2 else 5
  | .waits => 4
  | .waiting => if loop = false ∧ .caller ∈ mutex.woken then 6 else 3
  | .leaving => 1
  | .returned => 0

theorem CallPlace.ahead_le {loop loop' : Bool} {mutex mutex' : Monitor Side Unit} (place : CallPlace)
    (set : loop = true → loop' = true)
    (woken : loop' = false → .caller ∈ mutex'.woken → .caller ∈ mutex.woken) :
    place.ahead loop' mutex' ≤ place.ahead loop mutex := by
  cases place with
  | testing =>
    cases loop with
    | true => simp [ahead,set rfl]
    | false =>
      cases loop' with
      | true => simp [ahead]
      | false => exact Nat.le_refl _
  | waiting =>
    by_cases later : loop' = false ∧ .caller ∈ mutex'.woken
    · have before : loop = false := eq_false_of_ne_true fun before => by
        cases (set before).symm.trans later.1
      simp [ahead,later,before,woken later.1 later.2]
    · simp only [ahead,later,if_false]
      split <;> omega
  | _ => exact Nat.le_refl _

namespace Startup

variable {s s' : Startup}

def ahead (s : Startup) : Nat := s.thread.ahead + s.call.ahead s.loop s.mutex + s.func.ahead

theorem threadStep_ahead {act : Thread.Act} (sound : Sound s) (stepped : s.threadStep act = some s') :
    s'.ahead + (if act.spurious then 0 else 1) ≤ s.ahead + (if act.spurious then 3 else 0) := by
  obtain ⟨inner,done⟩ := Option.ite_none_right_eq_some.mp stepped
  obtain ⟨thread,moved,rfl⟩ := Option.map_eq_some_iff.mp done
  have less := Thread.step_ahead sound.thread moved
  have quiet : act.begins = false := by
    cases act <;> first | rfl | (rcases inner with one | one <;> cases one)
  have goes : act.goesOn = !act.spurious := by
    cases act with
    | latch act => rfl
    | start | join | finish => rcases inner with one | one <;> cases one
    | _ => rfl
  simp only [goes,quiet,Bool.false_eq_true,if_false,Nat.add_zero] at less
  have behind : (if s.call = .starting ∧ thread.start = .outside then .locks else s.call).ahead s.loop
      s.mutex ≤ s.call.ahead s.loop s.mutex := by
    by_cases returns : s.call = .starting ∧ thread.start = .outside
    · simp [CallPlace.ahead,returns]
    · exact Nat.le_of_eq (by rw [if_neg returns])
  unfold ahead
  dsimp only at less behind ⊢
  cases which : act.spurious <;> simp [which] at less ⊢ <;> omega

/-- A step of the new thread that uses the mutex, but neither waits nor notifies. -/
theorem quiet_ahead {op : Monitor.Op Side Unit} {mutex : Monitor Side Unit} (place : CallPlace)
    (loop : Bool) (moved : s.mutex.step op = some mutex)
    (calm : op = .lock .created ∨ op = .unlock .created) :
    place.ahead loop mutex ≤ place.ahead loop s.mutex := by
  refine place.ahead_le id fun _ later => ?_
  refine (Monitor.step_woken moved later).resolve_right ?_
  rcases calm with rfl | rfl <;> simp

theorem step_ahead {act : Act} (sound : Sound s) (stepped : Steps s act s') :
    s'.ahead + (if act.spurious then 0 else 1) ≤ s.ahead + (if act.spurious then 3 else 0) := by
  cases act with
  | thread act => exact threadStep_ahead sound stepped
  | startLoop =>
    obtain ⟨here,done⟩ := Option.ite_none_right_eq_some.mp stepped
    obtain ⟨thread,moved,rfl⟩ := Option.map_eq_some_iff.mp done
    have more := Thread.step_ahead sound.thread moved
    simp [Thread.Act.goesOn,Thread.Act.begins,Thread.Act.spurious] at more
    simp [ahead,CallPlace.ahead,here,Act.spurious]
    omega
  | construct polls =>
    obtain ⟨⟨here,_⟩,done⟩ := Option.ite_none_right_eq_some.mp stepped
    cases done
    cases polls <;> simp [ahead,here,FuncPlace.ahead,Act.spurious]
  | logged =>
    obtain ⟨here,done⟩ := Option.ite_none_right_eq_some.mp stepped
    cases done
    simp [ahead,here,FuncPlace.ahead,Act.spurious]
  | eventfd granted =>
    obtain ⟨here,done⟩ := Option.ite_none_right_eq_some.mp stepped
    cases done
    cases granted <;> simp [ahead,here,FuncPlace.ahead,Act.spurious]
  | enter =>
    obtain ⟨here,done⟩ := Option.ite_none_right_eq_some.mp stepped
    obtain ⟨mutex,moved,rfl⟩ := uses_cases done
    have less := quiet_ahead s.call s.loop moved (.inl rfl)
    simp [ahead,here,FuncPlace.ahead,Act.spurious]
    omega
  | publish =>
    obtain ⟨here,done⟩ := Option.ite_none_right_eq_some.mp stepped
    cases done
    have less : s.call.ahead true s.mutex ≤ s.call.ahead s.loop s.mutex :=
      s.call.ahead_le (fun _ => rfl) (by simp)
    simp [ahead,here,FuncPlace.ahead,Act.spurious]
    omega
  | notify woken =>
    obtain ⟨here,done⟩ := Option.ite_none_right_eq_some.mp stepped
    obtain ⟨mutex,moved,rfl⟩ := uses_cases done
    have found : s.loop = true := by
      rw [sound.loop,here]
      rfl
    have less : s.call.ahead s.loop mutex ≤ s.call.ahead s.loop s.mutex :=
      s.call.ahead_le id fun unset => by cases found.symm.trans unset
    simp [ahead,here,FuncPlace.ahead,Act.spurious]
    omega
  | leave =>
    obtain ⟨here,done⟩ := Option.ite_none_right_eq_some.mp stepped
    obtain ⟨mutex,moved,rfl⟩ := uses_cases done
    have less := quiet_ahead s.call s.loop moved (.inr rfl)
    simp [ahead,here,FuncPlace.ahead,Act.spurious]
    omega
  | lock =>
    obtain ⟨here,done⟩ := Option.ite_none_right_eq_some.mp stepped
    obtain ⟨mutex,moved,rfl⟩ := uses_cases done
    simp [ahead,here,CallPlace.ahead,Act.spurious]
    split <;> omega
  | test =>
    obtain ⟨here,done⟩ := Option.ite_none_right_eq_some.mp stepped
    cases done
    simp only [ahead,here,CallPlace.ahead,Act.spurious,Bool.false_eq_true,if_false]
    cases s.loop <;> simp only [Bool.false_eq_true,if_true,if_false] <;> omega
  | block =>
    obtain ⟨here,done⟩ := Option.ite_none_right_eq_some.mp stepped
    obtain ⟨mutex,moved,rfl⟩ := uses_cases done
    have apart : .caller ∉ s.mutex.woken := fun woken => by
      have waits : s.waiting .caller := (sound.seated.waits .caller).mp (List.mem_append_right _ woken)
      cases here.symm.trans waits
    have asleep : .caller ∉ mutex.woken := fun later =>
      apart ((Monitor.step_woken moved later).resolve_right (by simp))
    simp only [ahead,here,asleep,CallPlace.ahead,Act.spurious,and_false,Bool.false_eq_true,if_false]
    omega
  | wake =>
    obtain ⟨here,done⟩ := Option.ite_none_right_eq_some.mp stepped
    obtain ⟨mutex,moved,rfl⟩ := uses_cases done
    have most : (if s.loop = false ∧ .caller ∈ mutex.woken then 6 else 3) ≤ 6 := by split <;> omega
    have least : 3 ≤ if s.loop = false ∧ .caller ∈ s.mutex.woken then 6 else 3 := by split <;> omega
    simp only [ahead,here,CallPlace.ahead,Act.spurious,if_true]
    omega
  | resume =>
    obtain ⟨here,done⟩ := Option.ite_none_right_eq_some.mp stepped
    obtain ⟨mutex,moved,rfl⟩ := uses_cases done
    have woken : .caller ∈ s.mutex.woken := by
      cases Monitor.step_does moved with
      | resume _ _ waits => exact waits
    simp only [ahead,here,woken,and_true,CallPlace.ahead,Act.spurious,Bool.false_eq_true,if_false]
    cases s.loop <;> simp only [Bool.true_eq_false,Bool.false_eq_true,if_true,if_false] <;> omega
  | unlock =>
    obtain ⟨here,done⟩ := Option.ite_none_right_eq_some.mp stepped
    obtain ⟨mutex,moved,rfl⟩ := uses_cases done
    simp only [ahead,here,CallPlace.ahead,Act.spurious,Bool.false_eq_true,if_false]
    omega

theorem thread_stuck (stuck : ∀ act, act.spurious = false → act.logs = false → s.step act = none)
    {act : Thread.Act} (goes : act.goesOn = true) (calm : act.logs = false) : s.thread.step act = none := by
  have quiet : act.spurious = false := by
    cases act <;> first | rfl | simpa [Thread.Act.goesOn,Thread.Act.spurious] using goes
  have none := stuck (.thread act) quiet calm
  change s.threadStep act = _ at none
  rw [threadStep,if_pos (.inl goes)] at none
  exact Option.map_eq_none_iff.mp none

/-- A thread in its critical section can go on. -/
theorem mutex_stuck (sound : Sound s)
    (stuck : ∀ act, act.spurious = false → act.logs = false → s.step act = none) (t : Side) :
    ¬ s.locked t := by
  intro held
  have owned := (sound.seated.owner t).mpr held
  cases t with
  | caller =>
    rcases held with here | here | here
    · simpa [step,here] using stuck .test rfl rfl
    · simpa [step,here,uses,Monitor.step,owned] using stuck .block rfl rfl
    · simpa [step,here,uses,Monitor.step,owned] using stuck .unlock rfl rfl
  | created =>
    rcases held with here | here | here
    · simpa [step,here] using stuck .publish rfl rfl
    · by_cases blocked : (.caller,()) ∈ s.mutex.blocked
      · simpa [step,here,uses,Monitor.step,blocked] using stuck (.notify (some .caller)) rfl rfl
      · have nobody : ∀ one ∈ s.mutex.blocked, one.2 ≠ () := by
          rintro ⟨_ | _,⟨⟩⟩ member
          · exact absurd member blocked
          · exact ((sound.seated.waits .created).mp
              (List.mem_append_left _ (List.mem_map_of_mem member))).elim
        have signals := stuck (.notify none) rfl rfl
        simp [step,here,uses,Monitor.step] at signals
        obtain ⟨t,c,member⟩ := signals
        exact nobody _ member rfl
    · simpa [step,here,uses,Monitor.step,owned] using stuck .leave rfl rfl

/-- How `startLoop` ends, or stays, where neither thread goes on: it has returned the loop; the new
thread could not be created, and the caller waits for good or is in the `LOG` of that; or the
caller waits and the new thread is in a `LOG`, or at the `abort()`, of the loop's construction. -/
inductive Ends (s : Startup) : Prop
  | returned (started : s.thread.started = true) (here : s.call = .returned) (there : s.func = .looping)
  | refused (started : s.thread.started = false) (here : s.call = .waiting)
      (blocked : (.caller,()) ∈ s.mutex.blocked) (unset : s.loop = false)
  | logging (started : s.thread.started = false) (here : s.call = .starting)
      (logs : s.thread.start = .logging) (unset : s.loop = false)
  | broken (started : s.thread.started = true) (here : s.call = .waiting)
      (blocked : (.caller,()) ∈ s.mutex.blocked) (unset : s.loop = false)
      (there : s.func = .logs ∨ s.func = .aborts)

/-- The new thread is in its function exactly where it was created. -/
theorem Sound.created (sound : Sound s) (outside : s.thread.start = .outside)
    (run : s.thread.run = .absent ∨ s.thread.run = .runs ∨ s.thread.run = .finished) :
    s.thread.run = if s.thread.started then .runs else .absent := by
  cases begun : s.thread.started with
  | false => exact sound.thread.absent (.inr begun)
  | true =>
    have past := sound.thread.past (.inr (.inr (.inr ⟨outside,begun⟩)))
    rcases run with one | one | one
    · rw [one] at past
      cases past
    · exact one
    · exact absurd one sound.goes

/-- Where the two threads stand when neither can go on. -/
theorem stuck_places (sound : Sound s)
    (stuck : ∀ act, act.spurious = false → act.logs = false → s.step act = none) : Ends s := by
  obtain ⟨places,run⟩ := Thread.stuck_places sound.thread fun _ => thread_stuck stuck
  have nobody := mutex_stuck sound stuck
  have free : s.mutex.owner = none :=
    Option.eq_none_iff_forall_ne_some.mpr fun t owned => nobody t ((sound.seated.owner t).mp owned)
  have calls := sound.calls
  have loop := sound.loop
  by_cases starts : s.call = .starting
  · rw [if_pos starts] at calls
    rcases places with one | ⟨one,_⟩ | logs
    · exact absurd one calls.1
    · exact absurd one calls.2
    · have fresh := sound.thread.refused logs
      have absent := sound.thread.absent (.inr fresh)
      have early : s.func = .constructs := Classical.byContradiction fun late => by
        cases absent.symm.trans (sound.runs late)
      exact .logging fresh starts logs (by rw [loop,early]; rfl)
  rw [if_neg starts] at calls
  have created := sound.created calls run
  have func : s.func = .looping ∨ (s.func = .constructs ∧ s.thread.run ≠ .runs) ∨
      s.func = .logs ∨ s.func = .aborts := by
    cases here : s.func with
    | looping => exact .inl rfl
    | logs => exact .inr (.inr (.inl rfl))
    | aborts => exact .inr (.inr (.inr rfl))
    | constructs =>
      refine .inr (.inl ⟨rfl,fun runs => ?_⟩)
      simpa [step,here,runs] using stuck (.construct true) rfl rfl
    | opens => simpa [step,here] using stuck (.eventfd true) rfl rfl
    | locks => simpa [step,here,uses,Monitor.step,free] using stuck .enter rfl rfl
    | publishes => exact absurd (.inl here) (nobody .created)
    | notifies => exact absurd (.inr (.inl here)) (nobody .created)
    | unlocks => exact absurd (.inr (.inr here)) (nobody .created)
  have begun : s.thread.run = .runs → s.thread.started = true := fun runs => by
    cases started : s.thread.started with
    | true => rfl
    | false =>
      rw [started,runs] at created
      cases created
  cases here : s.call with
  | starting => exact absurd here starts
  | testing => exact absurd (.inl here) (nobody .caller)
  | waits => exact absurd (.inr (.inl here)) (nobody .caller)
  | leaving => exact absurd (.inr (.inr here)) (nobody .caller)
  | constructed =>
    simpa [step,here,Thread.step,calls,sound.fresh here] using stuck .startLoop rfl rfl
  | locks => simpa [step,here,uses,Monitor.step,free] using stuck .lock rfl rfl
  | returned =>
    rw [sound.found (.inr here)] at loop
    rcases func with looping | ⟨early,_⟩ | early | early
    · exact .returned (begun (sound.runs (by simp [looping]))) here looping
    all_goals
      rw [early] at loop
      cases loop
  | waiting =>
    rcases List.mem_append.mp ((sound.seated.waits .caller).mpr here) with member | woken
    · obtain ⟨⟨_,_⟩,blocked,rfl⟩ := List.mem_map.mp member
      have unset : s.loop = false := (sound.answered blocked).resolve_right fun notifies =>
        nobody .created (.inr (.inl notifies))
      rcases func with looping | ⟨early,stops⟩ | broken
      · rw [unset,looping] at loop
        cases loop
      · refine .refused ?_ here blocked unset
        cases started : s.thread.started with
        | false => rfl
        | true =>
          rw [started] at created
          exact absurd created stops
      · have runs := sound.runs (by rcases broken with one | one <;> simp [one])
        exact .broken (begun runs) here blocked unset broken
    · simpa [step,here,uses,Monitor.step,free,woken] using stuck .resume rfl rfl

theorem run_ahead {acts : List Act} (run : Run Steps s acts s') (sound : Sound s) :
    s'.ahead + acts.countP (fun act => !act.spurious) ≤ s.ahead + 3 * acts.countP Act.spurious := by
  induction run with
  | nil s => simp
  | @cons s middle s' act acts first rest ih =>
    have later := ih (sound.step first)
    have step := step_ahead sound first
    simp only [List.countP_cons]
    cases which : act.spurious <;> simp [which] at step ⊢ <;> omega

end Startup

def CallPlace.owner : CallPlace → OwnerPc
  | .constructed => .constructed
  | .returned => .started
  | .starting | .locks | .testing | .waits | .waiting | .leaving => .waiting

namespace Startup

variable {s s' : Startup} {Functor : Type}

/-- The caller and the new thread as `EventLoopThread` has them. -/
def view (wakeupFd : Nat) (s : Startup) : EventLoopThread Functor :=
  {EventLoopThread.init wakeupFd with
    published := s.loop
    owner := s.call.owner
    thread := if s.call.owner = .constructed then .absent
      else if s.loop then .looping else .publishing}

theorem view_same {wakeupFd : Nat} (loop : s'.loop = s.loop) (owner : s'.call.owner = s.call.owner) :
    (s'.view wakeupFd : EventLoopThread Functor) = s.view wakeupFd := by
  unfold view
  rw [loop,owner]

/-- Before the call nothing has begun. -/
theorem Sound.constructed (sound : Sound s) (here : s.call = .constructed) : s.func = .constructs := by
  have absent := sound.thread.absent (.inr (sound.fresh here))
  refine Classical.byContradiction fun begun => ?_
  cases absent.symm.trans (sound.runs begun)

/-- The whole of `startLoop` and the beginning of `threadFunc` are three steps of `EventLoopThread`. -/
theorem view_step {act : Act} (sound : Sound s) (stepped : Steps s act s') (wakeupFd : Nat) :
    (s'.view wakeupFd : EventLoopThread Functor) = s.view wakeupFd ∨
      ∃ action, EventLoopThread.Steps (s.view wakeupFd : EventLoopThread Functor) action
        (s'.view wakeupFd) := by
  cases act with
  | thread act =>
    obtain ⟨inner,done⟩ := Option.ite_none_right_eq_some.mp stepped
    obtain ⟨thread,moved,rfl⟩ := Option.map_eq_some_iff.mp done
    refine .inl (view_same rfl ?_)
    by_cases returns : s.call = .starting ∧ thread.start = .outside
    · simp [returns,CallPlace.owner]
    · rw [if_neg returns]
  | startLoop =>
    obtain ⟨here,done⟩ := Option.ite_none_right_eq_some.mp stepped
    obtain ⟨thread,moved,rfl⟩ := Option.map_eq_some_iff.mp done
    have unset : s.loop = false := by
      rw [sound.loop,sound.constructed here]
      rfl
    refine .inr ⟨.start,?_⟩
    simp [EventLoopThread.Steps,EventLoopThread.step,view,here,unset,CallPlace.owner]
  | publish =>
    obtain ⟨here,done⟩ := Option.ite_none_right_eq_some.mp stepped
    cases done
    have unset : s.loop = false := by
      rw [sound.loop,here]
      rfl
    have begun : s.call.owner ≠ .constructed := by
      cases place : s.call with
      | constructed => cases here.symm.trans (sound.constructed place)
      | _ => simp [CallPlace.owner]
    refine .inr ⟨.publish,?_⟩
    simp [EventLoopThread.Steps,EventLoopThread.step,view,unset,begun]
  | unlock =>
    obtain ⟨here,done⟩ := Option.ite_none_right_eq_some.mp stepped
    obtain ⟨mutex,moved,rfl⟩ := uses_cases done
    have found := sound.found (.inl here)
    refine .inr ⟨.wake,?_⟩
    simp [EventLoopThread.Steps,EventLoopThread.step,view,here,found,CallPlace.owner]
  | test =>
    obtain ⟨here,done⟩ := Option.ite_none_right_eq_some.mp stepped
    cases done
    refine .inl (view_same rfl ?_)
    rw [here]
    cases s.loop <;> rfl
  | construct polls | logged | eventfd granted =>
    obtain ⟨_,done⟩ := Option.ite_none_right_eq_some.mp stepped
    cases done
    exact .inl (view_same rfl rfl)
  | enter | notify woken | leave | wake =>
    obtain ⟨_,done⟩ := Option.ite_none_right_eq_some.mp stepped
    obtain ⟨mutex,_,rfl⟩ := uses_cases done
    exact .inl (view_same rfl rfl)
  | lock | block | resume =>
    obtain ⟨here,done⟩ := Option.ite_none_right_eq_some.mp stepped
    obtain ⟨mutex,_,rfl⟩ := uses_cases done
    exact .inl (view_same rfl (by rw [here]; rfl))

theorem run_view {acts : List Act} (run : Run Steps s acts s') (sound : Sound s) (wakeupFd : Nat) :
    Sound s' ∧ ∃ actions, Run EventLoopThread.Steps (s.view wakeupFd : EventLoopThread Functor) actions
      (s'.view wakeupFd) := by
  induction run with
  | nil s => exact ⟨sound,[],.nil _⟩
  | @cons s middle s' act acts first rest ih =>
    obtain ⟨held,actions,follows⟩ := ih (sound.step first)
    refine ⟨held,?_⟩
    rcases view_step sound first wakeupFd with same | ⟨action,one⟩
    · exact ⟨actions,same ▸ follows⟩
    · exact ⟨action :: actions,.cons one follows⟩

/-- In every run of a call of `startLoop`: its steps and those of the new thread up to `loop.loop()`
are bounded, but for the times that a wait is over by itself, and they are a run of
`EventLoopThread`. Where neither thread can go on, but for the return of a `LOG`, `startLoop` has
returned the loop that the new thread is about to run, or a system call has failed: `pthread_create`,
and the caller waits for good or is in the `LOG` of that, or a call that the loop's construction
makes, and the caller waits while the new thread is in a `LOG` or about to abort the program. -/
theorem startLoop_returns {acts : List Act} {s : Startup} (run : Run Steps init acts s) (wakeupFd : Nat) :
    acts.countP (fun act => !act.spurious) ≤ 32 + 3 * acts.countP Act.spurious ∧
      (∃ actions, Run EventLoopThread.Steps (EventLoopThread.init wakeupFd : EventLoopThread Functor)
        actions (s.view wakeupFd)) ∧
      (s.call = .returned → s.loop = true ∧ 0 < s.thread.tid) ∧
      ((∀ act, act.spurious = false → act.logs = false → s.step act = none) → Ends s) := by
  obtain ⟨sound,follows⟩ := run_view run init_sound wakeupFd
  refine ⟨?_,follows,fun here => ?_,stuck_places sound⟩
  · have bound := run_ahead run init_sound
    have all : init.ahead = 32 := rfl
    omega
  · have found := sound.found (.inr here)
    refine ⟨found,sound.thread.tid ?_⟩
    have loop := sound.loop
    rw [found] at loop
    rw [sound.runs (by rintro early; rw [early] at loop; cases loop)]
    rfl

/-- The caller returns from `start` before the loop is made, blocks at `cond_`, is woken for nothing,
blocks again and is notified. -/
def patientCall : List Act :=
  [.startLoop,.thread (.create true),.thread (.setTid Thread.sampleTid)] ++
    [Threading.Act.enterCountDown .created,.decrement .created,.compare .created,.notifyAll .created,
      .unlockCountDown .created,.enterWait .caller,.test .caller,.unlockWait .caller,
      .returnWait .caller].map (fun act => .thread (.latch act)) ++
    [.thread .assertTid,.lock,.test,.block,.wake,.resume,.test,.block,.thread .clearLatch,.construct true,
      .eventfd true,.enter,.publish,.notify (some .caller),.leave,.resume,.test,.unlock]

theorem startLoop_returns_patient : ∃ s, perform step init patientCall = some s ∧
    s.call = .returned ∧ s.loop = true ∧ 0 < s.thread.tid ∧
      patientCall.countP (fun act => !act.spurious) ≤ 35 := by
  have taken : (perform step init patientCall).isSome = true := by decide
  obtain ⟨s,done⟩ := Option.isSome_iff_exists.mp taken
  have returned : (perform step init patientCall).map (·.call) = some .returned := by decide
  rw [done] at returned
  obtain ⟨bound,_,found,_⟩ :=
    @startLoop_returns Unit patientCall s (perform_run (fun _ _ _ stepped => stepped) done) 9
  have here := Option.some.inj returned
  exact ⟨s,done,here,(found here).1,(found here).2,bound⟩

end Startup

end Deon.Net
