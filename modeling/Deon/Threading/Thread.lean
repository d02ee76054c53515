import Deon.Threading.LatchCalls
import Deon.Threading.MutexLock

/-! `Thread`: the caller of `start` and the thread that it creates, which tells its id and counts
down the latch before it runs its function. -/
namespace Deon.Threading
open Library

inductive Side
  | caller
  | created
  deriving DecidableEq, Repr

/-- Where the caller stands: outside of the calls, in `pthread_create`, in the `LOG` of its failure,
in front of `latch_.wait()`, in it, and behind it at the assertion; in `pthread_join`. -/
inductive StartPlace
  | outside
  | creating
  | logging
  | enters
  | waits
  | asserts
  | joining
  deriving DecidableEq, Repr

/-- Where the created thread stands in `runInThread`: at its first statement, in front of the call
of `countDown`, in it, behind it, in `func_`, and behind all. -/
inductive RunPlace
  | absent
  | setsTid
  | counts
  | counting
  | clears
  | runs
  | finished
  deriving DecidableEq, Repr

/-- `tidLeft` and `latchLeft` are the pointers into the `Thread` that the new thread still has. -/
structure Thread where
  started : Bool
  joined : Bool
  tid : Int
  latch : CountDownLatch Side
  tidLeft : Bool
  latchLeft : Bool
  start : StartPlace
  run : RunPlace

namespace Thread

inductive Act
  | start
  /-- the result of `pthread_create` -/
  | create (granted : Bool)
  /-- the `LOG` returns: where it is the first one, only if it can start the logging thread -/
  | logged
  | setTid (tid : Tid)
  | latch (act : Threading.Act Side)
  | clearLatch
  | assertTid
  | finish
  | join
  | joined

def construct : Thread := ⟨false,false,0,.construct 1,false,false,.outside,.absent⟩

namespace Act

/-- A call of `start` or `join` begins. -/
def begins : Act → Bool
  | .start | .join => true
  | _ => false

/-- A condition wait is over by itself. -/
def spurious : Act → Bool
  | .latch act => act.spurious
  | _ => false

/-- The `LOG` returns. -/
def logs : Act → Bool
  | .logged => true
  | _ => false

/-- What `start`, `join` and `runInThread` have to do, up to the run of `func_`. -/
def goesOn : Act → Bool
  | .create _ | .logged | .setTid _ | .clearLatch | .assertTid | .joined => true
  | .latch act => !act.spurious
  | .start | .finish | .join => false

end Act

/-- A step inside of `latch_`: only the caller waits there, and only the new thread counts down. -/
def latchStep (s : Thread) (act : Threading.Act Side) : Option Thread :=
  (s.latch.step act).bind fun latch =>
    match act with
    | .enterWait .caller => if s.start = .enters then some {s with latch := latch,start := .waits} else none
    | .returnWait .caller => some {s with latch := latch,start := .asserts}
    | .enterCountDown .created =>
      if s.run = .counts then some {s with latch := latch,run := .counting} else none
    | .unlockCountDown .created => some {s with latch := latch,run := .clears}
    | .enterWait .created | .enterCountDown .caller => none
    | _ => some {s with latch := latch}

/-- A step is none where an assertion fails. -/
def step (s : Thread) : Act → Option Thread
  | .start =>
    if s.start = .outside ∧ s.started = false then some {s with started := true,start := .creating}
    else none
  | .create granted =>
    if s.start = .creating then
      some (if granted then
        {s with start := .enters,run := .setsTid,tidLeft := true,latchLeft := true}
      else {s with started := false,start := .logging})
    else none
  | .logged => if s.start = .logging then some {s with start := .outside} else none
  | .setTid tid =>
    if s.run = .setsTid then some {s with tid := tid.value,tidLeft := false,run := .counts} else none
  | .latch act => s.latchStep act
  | .clearLatch => if s.run = .clears then some {s with latchLeft := false,run := .runs} else none
  | .assertTid =>
    if s.start = .asserts ∧ s.tid > 0 then some {s with start := .outside} else none
  | .finish => if s.run = .runs then some {s with run := .finished} else none
  | .join =>
    if s.start = .outside ∧ s.started = true ∧ s.joined = false then
      some {s with joined := true,start := .joining}
    else none
  | .joined =>
    if s.start = .joining ∧ s.run = .finished then some {s with start := .outside} else none

def Steps (s : Thread) (act : Act) (s' : Thread) : Prop := s.step act = some s'

end Thread

namespace CountDownLatch

variable {T : Type*} [DecidableEq T] {s s' : CountDownLatch T} {act : Act T} {t : T}

/-- The places of a thread inside of `wait`. -/
def inWait : Place → Bool
  | .testing | .waits | .waiting | .leaving | .returning => true
  | _ => false

/-- Behind the test that found no count left. -/
def past : Place → Bool
  | .leaving | .returning => true
  | _ => false

theorem apart_calls (place : Place) : ¬ (inWait place = true ∧ place.inCountDown = true) := by
  cases place <;> decide

theorem step_other (stepped : Steps s act s') (apart : t ≠ act.thread) : s'.place t = s.place t := by
  cases act with
  | test u | returnWait u | compare u | decrement u =>
    obtain ⟨_,done⟩ := Option.ite_none_right_eq_some.mp stepped
    cases done
    exact goes_other apart
  | enterWait u | block u | wake u | resume u | unlockWait u | enterCountDown u | notifyAll u
  | unlockCountDown u =>
    obtain ⟨_,_,_,rfl⟩ := moves_cases stepped
    exact goes_other apart

theorem moves_place {source target : Place} {op : Monitor.Op T Unit}
    (moved : s.moves t source target op = some s') : s.place t = source ∧ s'.place t = target := by
  obtain ⟨here,_,_,rfl⟩ := moves_cases moved
  exact ⟨here,goes_self⟩

theorem return_place (moved : Steps s (.returnWait t) s') :
    s.place t = .returning ∧ s'.place t = .outside := by
  obtain ⟨here,done⟩ := Option.ite_none_right_eq_some.mp moved
  cases done
  exact ⟨here,goes_self⟩

/-- What a step does to the place of its thread. -/
inductive Phase (s s' : CountDownLatch T) : Act T → Prop
  | enterWait (t : T) (here : s.place t = .outside) (there : s'.place t = .testing) :
      Phase s s' (.enterWait t)
  | returnWait (t : T) (here : s.place t = .returning) (there : s'.place t = .outside) :
      Phase s s' (.returnWait t)
  | enterCountDown (t : T) (here : s.place t = .outside) (there : s'.place t = .entered) :
      Phase s s' (.enterCountDown t)
  | unlockCountDown (t : T) (here : s.place t = .counted) (there : s'.place t = .outside) :
      Phase s s' (.unlockCountDown t)
  | inWait (act : Act T) (here : inWait (s.place act.thread) = true)
      (there : inWait (s'.place act.thread) = true)
      (leaves : past (s'.place act.thread) = true → past (s.place act.thread) = true ∨
        (s.place act.thread = .testing ∧ s.count ≤ 0))
      (inner : act.begins = false ∧ act ≠ .returnWait act.thread) : Phase s s' act
  | inCountDown (act : Act T) (here : (s.place act.thread).inCountDown = true)
      (there : (s'.place act.thread).inCountDown = true)
      (inner : act.begins = false ∧ act ≠ .unlockCountDown act.thread) : Phase s s' act

theorem step_phase (stepped : Steps s act s') : Phase s s' act := by
  cases act with
  | enterWait t =>
    obtain ⟨here,_,_,rfl⟩ := moves_cases stepped
    exact .enterWait t here goes_self
  | returnWait t =>
    obtain ⟨here,done⟩ := Option.ite_none_right_eq_some.mp stepped
    cases done
    exact .returnWait t here goes_self
  | enterCountDown t =>
    obtain ⟨here,_,_,rfl⟩ := moves_cases stepped
    exact .enterCountDown t here goes_self
  | unlockCountDown t =>
    obtain ⟨here,_,_,rfl⟩ := moves_cases stepped
    exact .unlockCountDown t here goes_self
  | test t =>
    obtain ⟨here,done⟩ := Option.ite_none_right_eq_some.mp stepped
    cases done
    refine .inWait (.test t) (by rw [Act.thread,here]; rfl) ?_ ?_ ⟨rfl,by simp⟩
    · rw [Act.thread,goes_self]
      split <;> rfl
    · rw [Act.thread,goes_self]
      split
      · simp [past]
      · exact fun _ => .inr ⟨here,Int.not_lt.mp ‹_›⟩
  | block t | wake t | resume t =>
    obtain ⟨here,_,_,rfl⟩ := moves_cases stepped
    refine .inWait _ (by rw [Act.thread,here]; rfl) ?_ ?_ ⟨rfl,by simp⟩
    · exact congrArg inWait goes_self
    · exact fun late => by cases (congrArg past goes_self).symm.trans late
  | unlockWait t =>
    obtain ⟨here,_,_,rfl⟩ := moves_cases stepped
    refine .inWait (.unlockWait t) (by rw [Act.thread,here]; rfl) ?_ ?_ ⟨rfl,by simp⟩
    · exact congrArg inWait goes_self
    · exact fun _ => .inl (by rw [Act.thread,here]; rfl)
  | decrement t =>
    obtain ⟨⟨here,_⟩,done⟩ := Option.ite_none_right_eq_some.mp stepped
    cases done
    exact .inCountDown (.decrement t) (by rw [Act.thread,here]; rfl)
      (congrArg Place.inCountDown goes_self) ⟨rfl,by simp⟩
  | compare t =>
    obtain ⟨here,done⟩ := Option.ite_none_right_eq_some.mp stepped
    cases done
    refine .inCountDown (.compare t) (by rw [Act.thread,here]; rfl) ?_ ⟨rfl,by simp⟩
    rw [Act.thread,goes_self]
    split <;> rfl
  | notifyAll t =>
    obtain ⟨here,_,_,rfl⟩ := moves_cases stepped
    exact .inCountDown (.notifyAll t) (by rw [Act.thread,here]; rfl)
      (congrArg Place.inCountDown goes_self) ⟨rfl,by simp⟩

end CountDownLatch

/-- The new thread has told its id. -/
def RunPlace.named : RunPlace → Bool
  | .counts | .counting | .clears | .runs | .finished => true
  | .absent | .setsTid => false

/-- It has called `countDown`. -/
def RunPlace.counted : RunPlace → Bool
  | .counting | .clears | .runs | .finished => true
  | .absent | .setsTid | .counts => false

/-- It is behind the call. -/
def RunPlace.past : RunPlace → Bool
  | .clears | .runs | .finished => true
  | .absent | .setsTid | .counts | .counting => false

/-- It still uses the `Thread`, whose `tid_` and `latch_` it has pointers to. -/
def RunPlace.uses : RunPlace → Bool
  | .setsTid | .counts | .counting => true
  | .absent | .clears | .runs | .finished => false

theorem RunPlace.uses_early (place : RunPlace) : place.uses = true → place.past = false := by
  cases place <;> decide

theorem RunPlace.past_named (place : RunPlace) : place.past = true → place.named = true := by
  cases place <;> decide

namespace Thread

open CountDownLatch

/-- The caller is behind its wait. -/
def behind (s : Thread) : Prop :=
  CountDownLatch.past (s.latch.place .caller) = true ∨ s.start = .asserts ∨ s.start = .joining ∨
    (s.start = .outside ∧ s.started = true)

structure Sound (s : Thread) : Prop where
  kept : s.latch.Kept
  placed : s.latch.Placed
  left : Tallied (if s.run.counted then 0 else 1) s.latch
  caller : if s.start = .waits then CountDownLatch.inWait (s.latch.place .caller) = true
    else s.latch.place .caller = .outside
  created : if s.run = .counting then (s.latch.place .created).inCountDown = true
    else s.latch.place .created = .outside
  tid : s.run.named = true → 0 < s.tid
  past : s.behind → s.run.past = true
  absent : s.start = .creating ∨ s.started = false → s.run = .absent
  present : s.start = .enters ∨ s.start = .waits → s.run ≠ .absent
  begun : s.start ≠ .outside → s.start ≠ .logging → s.started = true
  refused : s.start = .logging → s.started = false
  joins : s.joined = true → s.started = true ∧
    (s.start = .joining ∨ (s.start = .outside ∧ s.run = .finished))
  pointers : s.tidLeft = (s.run = .setsTid : Bool) ∧
    s.latchLeft = (s.run ≠ .absent ∧ s.run ≠ .runs ∧ s.run ≠ .finished : Bool)

theorem construct_sound : Sound construct where
  kept := construct_kept 1
  placed := construct_placed 1
  left := construct_tallied 1
  caller := rfl
  created := rfl
  tid := nofun
  past := by simp [behind,construct,CountDownLatch.construct,CountDownLatch.past]
  absent _ := rfl
  present := by simp [construct]
  begun := by simp [construct]
  refused := nofun
  joins := nofun
  pointers := ⟨rfl,rfl⟩

/-- What a step inside of the latch does outside of it. -/
theorem latchStep_cases {s s' : Thread} {act : Threading.Act Side} (stepped : s.latchStep act = some s') :
    ∃ latch, s.latch.Steps act latch ∧
      ((act = .enterWait .caller ∧ s.start = .enters ∧ s' = {s with latch := latch,start := .waits}) ∨
      (act = .returnWait .caller ∧ s' = {s with latch := latch,start := .asserts}) ∨
      (act = .enterCountDown .created ∧ s.run = .counts ∧
        s' = {s with latch := latch,run := .counting}) ∨
      (act = .unlockCountDown .created ∧ s' = {s with latch := latch,run := .clears}) ∨
      ((act.begins = false ∧ act ≠ .returnWait .caller ∧ act ≠ .unlockCountDown .created) ∧
        s' = {s with latch := latch})) := by
  obtain ⟨latch,moved,done⟩ := Option.bind_eq_some_iff.mp stepped
  refine ⟨latch,moved,?_⟩
  cases act with
  | enterWait t =>
    cases t with
    | caller =>
      obtain ⟨here,same⟩ := Option.ite_none_right_eq_some.mp done
      exact .inl ⟨rfl,here,(Option.some.inj same).symm⟩
    | created => cases done
  | returnWait t =>
    cases t with
    | caller => exact .inr (.inl ⟨rfl,(Option.some.inj done).symm⟩)
    | created => exact .inr (.inr (.inr (.inr ⟨⟨rfl,nofun,nofun⟩,(Option.some.inj done).symm⟩)))
  | enterCountDown t =>
    cases t with
    | caller => cases done
    | created =>
      obtain ⟨here,same⟩ := Option.ite_none_right_eq_some.mp done
      exact .inr (.inr (.inl ⟨rfl,here,(Option.some.inj same).symm⟩))
  | unlockCountDown t =>
    cases t with
    | caller => exact .inr (.inr (.inr (.inr ⟨⟨rfl,nofun,nofun⟩,(Option.some.inj done).symm⟩)))
    | created => exact .inr (.inr (.inr (.inl ⟨rfl,(Option.some.inj done).symm⟩)))
  | _ => exact .inr (.inr (.inr (.inr ⟨⟨rfl,nofun,nofun⟩,(Option.some.inj done).symm⟩)))

variable {s s' : Thread} {act : Threading.Act Side}

theorem Sound.caller_outside (sound : Sound s) (apart : s.start ≠ .waits) :
    s.latch.place .caller = .outside := by
  have there := sound.caller
  rwa [if_neg apart] at there

theorem Sound.created_outside (sound : Sound s) (apart : s.run ≠ .counting) :
    s.latch.place .created = .outside := by
  have there := sound.created
  rwa [if_neg apart] at there

theorem past_outside {place : Place} (outside : place = .outside) : CountDownLatch.past place = false := by
  rw [outside]
  rfl

/-- The caller waits behind a test that found no count only when the new thread is behind its call:
it has begun it, and does not have the mutex. -/
theorem Sound.counted (sound : Sound s) (testing : s.latch.place .caller = .testing)
    (empty : s.latch.count ≤ 0) : s.run.past = true := by
  have owned := (sound.placed.seated.owner .caller).mpr (by rw [testing]; rfl)
  have free : (s.latch.place .created).locked = false := by
    cases held : (s.latch.place .created).locked with
    | false => rfl
    | true =>
      cases owned.symm.trans ((sound.placed.seated.owner .created).mpr held)
  have nobody : ∀ t, s.latch.place t ≠ .entered := by
    intro t one
    cases t with
    | caller =>
      rw [testing] at one
      cases one
    | created =>
      rw [one] at free
      cases free
  have count := sound.left.clear nobody
  cases here : s.run with
  | absent | setsTid | counts =>
    simp only [here,RunPlace.counted,Bool.false_eq_true,if_false] at count
    omega
  | counting =>
    have inside := sound.created
    rw [if_pos here] at inside
    cases place : s.latch.place .created <;> rw [place] at inside free
    all_goals first | cases inside; done | cases free
  | clears | runs | finished => rfl

theorem Sound.caller_waits (sound : Sound s) (inside : s.latch.place .caller ≠ .outside) :
    s.start = .waits ∧ CountDownLatch.inWait (s.latch.place .caller) = true := by
  have here : s.start = .waits := Classical.byContradiction fun apart => inside (sound.caller_outside apart)
  have there := sound.caller
  rw [if_pos here] at there
  exact ⟨here,there⟩

theorem Sound.created_counts (sound : Sound s) (inside : s.latch.place .created ≠ .outside) :
    s.run = .counting ∧ (s.latch.place .created).inCountDown = true := by
  have here : s.run = .counting :=
    Classical.byContradiction fun apart => inside (sound.created_outside apart)
  have there := sound.created
  rw [if_pos here] at there
  exact ⟨here,there⟩

/-- The caller goes on in `wait`. -/
theorem Sound.caller_goes {latch : CountDownLatch Side} (sound : Sound s) (moved : s.latch.Steps act latch)
    (own : act.thread = .caller) (inner : act.begins = false) (stays : act ≠ .returnWait .caller) :
    s.start = .waits ∧ CountDownLatch.inWait (latch.place .caller) = true ∧
      (CountDownLatch.past (latch.place .caller) = true → s.run.past = true) := by
  cases step_phase moved with
  | enterWait t | enterCountDown t => cases inner
  | returnWait t here =>
    obtain rfl : t = .caller := own
    exact absurd rfl stays
  | unlockCountDown t here =>
    obtain rfl : t = .caller := own
    have inside := (sound.caller_waits (by rw [here]; nofun)).2
    rw [here] at inside
    cases inside
  | inWait act here there leaves =>
    rw [own] at here there leaves
    have waits := sound.caller_waits fun outside => by rw [outside] at here; cases here
    refine ⟨waits.1,there,fun late => ?_⟩
    rcases leaves late with before | ⟨testing,empty⟩
    · exact sound.past (.inl before)
    · exact sound.counted testing empty
  | inCountDown act here =>
    rw [own] at here
    have waits := (sound.caller_waits fun outside => by rw [outside] at here; cases here).2
    exact absurd ⟨waits,here⟩ (apart_calls _)

/-- The new thread goes on in `countDown`. -/
theorem Sound.created_goes {latch : CountDownLatch Side} (sound : Sound s)
    (moved : s.latch.Steps act latch) (own : act.thread = .created) (inner : act.begins = false)
    (stays : act ≠ .unlockCountDown .created) :
    s.run = .counting ∧ (latch.place .created).inCountDown = true := by
  cases step_phase moved with
  | enterWait t | enterCountDown t => cases inner
  | unlockCountDown t here =>
    obtain rfl : t = .created := own
    exact absurd rfl stays
  | returnWait t here =>
    obtain rfl : t = .created := own
    have inside := (sound.created_counts (by rw [here]; nofun)).2
    rw [here] at inside
    cases inside
  | inWait act here =>
    rw [own] at here
    have counts := (sound.created_counts fun outside => by rw [outside] at here; cases here).2
    exact absurd ⟨here,counts⟩ (apart_calls _)
  | inCountDown act here there =>
    rw [own] at here there
    exact ⟨(sound.created_counts fun outside => by rw [outside] at here; cases here).1,there⟩

theorem Sound.latch (sound : Sound s) (stepped : s.latchStep act = some s') : Sound s' := by
  obtain ⟨latch,moved,rest⟩ := latchStep_cases stepped
  have kept := step_kept sound.kept moved
  have placed := step_placed sound.placed moved
  have left := step_tallied sound.placed sound.left moved
  have other : ∀ t, t ≠ act.thread → latch.place t = s.latch.place t := fun _ => step_other moved
  rcases rest with ⟨rfl,here,rfl⟩ | ⟨rfl,rfl⟩ | ⟨rfl,here,rfl⟩ | ⟨rfl,rfl⟩ | ⟨⟨inner,stays,stays'⟩,rfl⟩
  · obtain ⟨_,there⟩ := moves_place moved
    refine ⟨kept,placed,by simpa [Act.countsDown] using left,?_,?_,sound.tid,?_,?_,?_,?_,nofun,
      ?_,sound.pointers⟩
    · rw [if_pos rfl,there]
      rfl
    · rw [other .created nofun]
      exact sound.created
    · rintro (late | late | late | ⟨late,_⟩)
      · rw [there] at late
        cases late
      all_goals cases late
    · exact fun one => sound.absent (.inr (one.resolve_left nofun))
    · exact fun _ => sound.present (.inl here)
    · exact fun _ _ => sound.begun (by rw [here]; nofun) (by rw [here]; nofun)
    · intro joined
      rcases (sound.joins joined).2 with one | ⟨one,_⟩ <;> cases here.symm.trans one
  · obtain ⟨here,there⟩ := return_place moved
    have past := sound.past (.inl (by rw [here]; rfl))
    have waits := (sound.caller_waits (by rw [here]; nofun)).1
    refine ⟨kept,placed,by simpa [Act.countsDown] using left,there,?_,sound.tid,fun _ => past,?_,?_,?_,
      nofun,?_,sound.pointers⟩
    · rw [other .created nofun]
      exact sound.created
    · exact fun one => sound.absent (.inr (one.resolve_left nofun))
    · rintro (one | one) <;> cases one
    · exact fun _ _ => sound.begun (by rw [waits]; nofun) (by rw [waits]; nofun)
    · intro joined
      rcases (sound.joins joined).2 with one | ⟨one,_⟩ <;> cases waits.symm.trans one
  · obtain ⟨_,there⟩ := moves_place moved
    have early : s.run.past = false := by rw [here]; rfl
    have pointers := sound.pointers
    rw [here] at pointers
    refine ⟨kept,placed,?_,?_,?_,fun _ => sound.tid (by rw [here]; rfl),fun late => ?_,fun one => ?_,
      fun _ => nofun,sound.begun,sound.refused,fun joined => ?_,pointers⟩
    · simpa [Act.countsDown,RunPlace.counted,here] using left
    · rw [other .caller nofun]
      exact sound.caller
    · rw [if_pos rfl,there]
      rfl
    · unfold behind at late
      rw [other .caller nofun] at late
      cases (sound.past late).symm.trans early
    · cases (sound.absent one).symm.trans here
    · obtain ⟨started,places⟩ := sound.joins joined
      have late : s.behind := by
        rcases places with one | ⟨one,_⟩
        · exact .inr (.inr (.inl one))
        · exact .inr (.inr (.inr ⟨one,started⟩))
      cases (sound.past late).symm.trans early
  · obtain ⟨place,there⟩ := moves_place moved
    have here : s.run = .counting := Classical.byContradiction fun apart => by
      cases place.symm.trans (sound.created_outside apart)
    have pointers := sound.pointers
    rw [here] at pointers
    refine ⟨kept,placed,?_,?_,there,fun _ => sound.tid (by rw [here]; rfl),fun _ => rfl,fun one => ?_,
      fun _ => nofun,sound.begun,sound.refused,fun joined => ?_,pointers⟩
    · simpa [Act.countsDown,RunPlace.counted,here] using left
    · rw [other .caller nofun]
      exact sound.caller
    · cases (sound.absent one).symm.trans here
    · obtain ⟨started,places⟩ := sound.joins joined
      refine ⟨started,places.imp_right fun one => ?_⟩
      cases here.symm.trans one.2
  · have quiet : act.countsDown = false := by
      cases act <;> first | rfl | cases inner
    have left : Tallied (if s.run.counted then 0 else 1) latch := by simpa [quiet] using left
    cases own : act.thread with
    | caller =>
      obtain ⟨waits,there,late⟩ := sound.caller_goes moved own inner stays
      refine ⟨kept,placed,left,?_,?_,sound.tid,?_,sound.absent,sound.present,
        sound.begun,sound.refused,sound.joins,sound.pointers⟩
      · rw [if_pos waits]
        exact there
      · rw [other .created (by rw [own]; nofun)]
        exact sound.created
      · rintro (past | one | one | ⟨one,_⟩)
        · exact late past
        all_goals cases waits.symm.trans one
    | created =>
      obtain ⟨counts,there⟩ := sound.created_goes moved own inner stays'
      have same : latch.place .caller = s.latch.place .caller := other .caller (by rw [own]; nofun)
      refine ⟨kept,placed,left,?_,?_,sound.tid,fun late => ?_,sound.absent,sound.present,
        sound.begun,sound.refused,sound.joins,sound.pointers⟩
      · rw [same]
        exact sound.caller
      · rw [if_pos counts]
        exact there
      · unfold behind at late
        rw [same] at late
        exact sound.past late

theorem Sound.step {act : Act} (sound : Sound s) (stepped : Steps s act s') : Sound s' := by
  cases act with
  | latch act => exact sound.latch stepped
  | start =>
    obtain ⟨⟨here,fresh⟩,done⟩ := Option.ite_none_right_eq_some.mp stepped
    cases done
    have outside := sound.caller_outside (by rw [here]; nofun)
    refine {sound with caller := outside,past := ?_,absent := fun _ => sound.absent (.inr fresh),
                       present := ?_,begun := fun _ _ => rfl,refused := nofun,joins := fun joined => ?_}
    · rintro (late | late | late | ⟨late,_⟩)
      · cases (past_outside outside).symm.trans late
      all_goals cases late
    · rintro (one | one) <;> cases one
    · cases (sound.joins joined).1.symm.trans fresh
  | create granted =>
    obtain ⟨here,done⟩ := Option.ite_none_right_eq_some.mp stepped
    cases done
    have outside := sound.caller_outside (by rw [here]; nofun)
    have absent := sound.absent (.inl here)
    have left := sound.left
    have created := sound.created_outside (by rw [absent]; nofun)
    have begun := sound.begun (by rw [here]; nofun) (by rw [here]; nofun)
    rw [absent] at left
    have alone : s.joined ≠ true := fun joined => by
      rcases (sound.joins joined).2 with one | ⟨one,_⟩ <;> cases here.symm.trans one
    cases granted with
    | true =>
      refine ⟨sound.kept,sound.placed,left,outside,created,nofun,?_,?_,?_,fun _ _ => begun,nofun,
        fun joined => absurd joined alone,⟨rfl,rfl⟩⟩
      · rintro (late | late | late | ⟨late,_⟩)
        · cases (past_outside outside).symm.trans late
        all_goals cases late
      · rintro (one | fresh)
        · cases one
        · cases begun.symm.trans fresh
      · exact fun _ => nofun
    | false =>
      refine {sound with caller := outside,past := ?_,absent := fun _ => absent,present := ?_,
                         begun := fun _ apart => absurd rfl apart,refused := fun _ => rfl,
                         joins := fun joined => absurd joined alone}
      · rintro (late | late | late | ⟨late,_⟩)
        · cases (past_outside outside).symm.trans late
        all_goals cases late
      · rintro (one | one) <;> cases one
  | logged =>
    obtain ⟨here,done⟩ := Option.ite_none_right_eq_some.mp stepped
    cases done
    have outside := sound.caller_outside (by rw [here]; nofun)
    have fresh := sound.refused here
    refine {sound with caller := outside,past := ?_,absent := fun _ => sound.absent (.inr fresh),
                       present := ?_,begun := fun apart => absurd rfl apart,refused := nofun,
                       joins := fun joined => ?_}
    · rintro (late | late | late | ⟨_,late⟩)
      · cases (past_outside outside).symm.trans late
      · cases late
      · cases late
      · cases fresh.symm.trans late
    · rintro (one | one) <;> cases one
    · cases fresh.symm.trans (sound.joins joined).1
  | setTid tid =>
    obtain ⟨here,done⟩ := Option.ite_none_right_eq_some.mp stepped
    cases done
    have early : s.run.past ≠ true := by rw [here]; nofun
    have left := sound.left
    have pointers := sound.pointers
    rw [here] at left pointers
    refine ⟨sound.kept,sound.placed,left,sound.caller,sound.created_outside (by rw [here]; nofun),
      fun _ => tid.positive,fun late => absurd (sound.past late) early,fun one => ?_,fun _ => nofun,
      sound.begun,sound.refused,fun joined => ?_,⟨rfl,pointers.2⟩⟩
    · cases here.symm.trans (sound.absent one)
    · obtain ⟨started,places⟩ := sound.joins joined
      exact ⟨started,places.imp_right fun one => by cases here.symm.trans one.2⟩
  | clearLatch =>
    obtain ⟨here,done⟩ := Option.ite_none_right_eq_some.mp stepped
    cases done
    have left := sound.left
    have pointers := sound.pointers
    rw [here] at left pointers
    refine ⟨sound.kept,sound.placed,left,sound.caller,sound.created_outside (by rw [here]; nofun),
      fun _ => sound.tid (by rw [here]; rfl),fun _ => rfl,fun one => ?_,fun _ => nofun,sound.begun,
      sound.refused,fun joined => ?_,⟨pointers.1,rfl⟩⟩
    · cases here.symm.trans (sound.absent one)
    · obtain ⟨started,places⟩ := sound.joins joined
      exact ⟨started,places.imp_right fun one => by cases here.symm.trans one.2⟩
  | assertTid =>
    obtain ⟨⟨here,_⟩,done⟩ := Option.ite_none_right_eq_some.mp stepped
    cases done
    have past := sound.past (.inr (.inl here))
    have begun := sound.begun (by rw [here]; nofun) (by rw [here]; nofun)
    refine {sound with caller := sound.caller_outside (by rw [here]; nofun),past := fun _ => past,
                       absent := ?_,present := ?_,begun := fun apart => absurd rfl apart,
                       refused := nofun,joins := fun joined => ?_}
    · rintro (one | fresh)
      · cases one
      · cases begun.symm.trans fresh
    · rintro (one | one) <;> cases one
    · rcases (sound.joins joined).2 with one | ⟨one,_⟩ <;> cases here.symm.trans one
  | finish =>
    obtain ⟨here,done⟩ := Option.ite_none_right_eq_some.mp stepped
    cases done
    have left := sound.left
    have pointers := sound.pointers
    rw [here] at left pointers
    refine ⟨sound.kept,sound.placed,left,sound.caller,sound.created_outside (by rw [here]; nofun),
      fun _ => sound.tid (by rw [here]; rfl),fun _ => rfl,fun one => ?_,fun _ => nofun,sound.begun,
      sound.refused,fun joined => ?_,pointers⟩
    · cases here.symm.trans (sound.absent one)
    · obtain ⟨started,places⟩ := sound.joins joined
      exact ⟨started,places.imp_right fun one => ⟨one.1,rfl⟩⟩
  | join =>
    obtain ⟨⟨here,started,_⟩,done⟩ := Option.ite_none_right_eq_some.mp stepped
    cases done
    have past := sound.past (.inr (.inr (.inr ⟨here,started⟩)))
    refine {sound with caller := sound.caller_outside (by rw [here]; nofun),past := fun _ => past,
                       absent := ?_,present := ?_,begun := fun _ _ => started,refused := nofun,
                       joins := fun _ => ⟨started,.inl rfl⟩}
    · rintro (one | fresh)
      · cases one
      · cases started.symm.trans fresh
    · rintro (one | one) <;> cases one
  | joined =>
    obtain ⟨⟨here,finished⟩,done⟩ := Option.ite_none_right_eq_some.mp stepped
    cases done
    have begun := sound.begun (by rw [here]; nofun) (by rw [here]; nofun)
    refine {sound with caller := sound.caller_outside (by rw [here]; nofun),
                       past := fun _ => by rw [finished]; rfl,absent := ?_,present := ?_,
                       begun := fun apart => absurd rfl apart,refused := nofun,
                       joins := fun _ => ⟨begun,.inr ⟨rfl,finished⟩⟩}
    · rintro (one | fresh)
      · cases one
      · cases begun.symm.trans fresh
    · rintro (one | one) <;> cases one

end Thread

/-- The steps that the caller has in front of it, as long as its wait is not over by itself. -/
def StartPlace.ahead (latch : CountDownLatch Side) : StartPlace → Nat
  | .outside => 0
  | .creating => 16
  | .enters => 8
  | .waits => latch.ahead .caller + 1
  | .logging | .asserts | .joining => 1

/-- And those of the new thread, up to the run of `func_`. -/
def RunPlace.ahead (latch : CountDownLatch Side) : RunPlace → Nat
  | .absent | .runs | .finished => 0
  | .setsTid => 7
  | .counts => 6
  | .counting => latch.ahead .created + 1
  | .clears => 1

section

variable {latch latch' : CountDownLatch Side}

theorem StartPlace.ahead_le (place : StartPlace) (less : latch'.ahead .caller ≤ latch.ahead .caller) :
    place.ahead latch' ≤ place.ahead latch := by
  cases place with
  | waits => exact Nat.succ_le_succ less
  | _ => exact Nat.le_refl _

theorem RunPlace.ahead_le (place : RunPlace) (less : latch'.ahead .created ≤ latch.ahead .created) :
    place.ahead latch' ≤ place.ahead latch := by
  cases place with
  | counting => exact Nat.succ_le_succ less
  | _ => exact Nat.le_refl _

end

namespace Thread

open CountDownLatch

variable {s s' : Thread} {act : Threading.Act Side}

def ahead (s : Thread) : Nat := s.start.ahead s.latch + s.run.ahead s.latch

theorem latch_ahead (sound : Sound s) (stepped : s.latchStep act = some s') :
    s'.ahead + (if act.spurious then 0 else 1) ≤ s.ahead + (if act.spurious then 3 else 0) := by
  obtain ⟨latch,moved,rest⟩ := latchStep_cases stepped
  have own := ahead_own sound.placed moved
  have caller : .caller ≠ act.thread → latch.ahead .caller ≤ s.latch.ahead .caller :=
    ahead_others sound.placed moved
  have created : .created ≠ act.thread → latch.ahead .created ≤ s.latch.ahead .created :=
    ahead_others sound.placed moved
  unfold ahead
  rcases rest with ⟨rfl,here,rfl⟩ | ⟨rfl,rfl⟩ | ⟨rfl,here,rfl⟩ | ⟨rfl,rfl⟩ | ⟨⟨inner,stays,stays'⟩,rfl⟩
  · have less := s.run.ahead_le (created (by simp [Threading.Act.thread]))
    have outside : s.latch.ahead .caller = 0 := by
      rw [CountDownLatch.ahead,sound.caller_outside (by simp [here])]
    simp only [Threading.Act.thread,Threading.Act.goesOn,Threading.Act.begins,Threading.Act.spurious,
      outside] at own
    simp only [here,StartPlace.ahead,Threading.Act.spurious]
    simp at own ⊢
    omega
  · obtain ⟨place,_⟩ := return_place moved
    have less := s.run.ahead_le (created (by simp [Threading.Act.thread]))
    have waits := (sound.caller_waits (by simp [place])).1
    have last : s.latch.ahead .caller = 1 := by rw [CountDownLatch.ahead,place]
    simp only [waits,StartPlace.ahead,last,Threading.Act.spurious]
    simp
    omega
  · obtain ⟨_,there⟩ := moves_place moved
    have less := s.start.ahead_le (caller (by simp [Threading.Act.thread]))
    have entered : latch.ahead .created = 4 := by rw [CountDownLatch.ahead,there]
    simp only [here,RunPlace.ahead,entered,Threading.Act.spurious]
    simp
    omega
  · obtain ⟨place,_⟩ := moves_place moved
    have less := s.start.ahead_le (caller (by simp [Threading.Act.thread]))
    have counts := (sound.created_counts (by simp [place])).1
    have last : s.latch.ahead .created = 1 := by rw [CountDownLatch.ahead,place]
    simp only [counts,RunPlace.ahead,last,Threading.Act.spurious]
    simp
    omega
  · have goes : act.goesOn = !act.spurious := by rw [Threading.Act.goesOn,inner]; rfl
    simp only [goes,inner,Bool.false_eq_true,if_false,Nat.add_zero] at own
    cases thread : act.thread with
    | caller =>
      obtain ⟨waits,_⟩ := sound.caller_goes moved thread inner stays
      have less := s.run.ahead_le (created (by simp [thread]))
      rw [thread] at own
      simp only [waits,StartPlace.ahead]
      cases which : act.spurious <;> simp [which] at own ⊢ <;> omega
    | created =>
      obtain ⟨counts,_⟩ := sound.created_goes moved thread inner stays'
      have less := s.start.ahead_le (caller (by simp [thread]))
      rw [thread] at own
      simp only [counts,RunPlace.ahead]
      cases which : act.spurious <;> simp [which] at own ⊢ <;> omega

/-- A step of `start` or of `runInThread` leaves less in front of the two threads. -/
theorem step_ahead {act : Act} (sound : Sound s) (stepped : Steps s act s') :
    s'.ahead + (if act.goesOn then 1 else 0) ≤
      s.ahead + (if act.begins then 16 else 0) + (if act.spurious then 3 else 0) := by
  cases act with
  | latch act =>
    have less := latch_ahead sound stepped
    cases which : act.spurious <;> simp [Act.goesOn,Act.begins,Act.spurious,which] at less ⊢ <;> omega
  | start =>
    obtain ⟨⟨here,_⟩,done⟩ := Option.ite_none_right_eq_some.mp stepped
    cases done
    simp [ahead,here,StartPlace.ahead,Act.goesOn,Act.begins,Act.spurious]
    omega
  | create granted =>
    obtain ⟨here,done⟩ := Option.ite_none_right_eq_some.mp stepped
    cases done
    have absent := sound.absent (.inl here)
    cases granted <;>
      simp [ahead,here,absent,StartPlace.ahead,RunPlace.ahead,Act.goesOn,Act.begins,Act.spurious]
  | setTid tid =>
    obtain ⟨here,done⟩ := Option.ite_none_right_eq_some.mp stepped
    cases done
    simp [ahead,here,RunPlace.ahead,Act.goesOn,Act.begins,Act.spurious]
  | clearLatch | finish =>
    obtain ⟨here,done⟩ := Option.ite_none_right_eq_some.mp stepped
    cases done
    simp [ahead,here,RunPlace.ahead,Act.goesOn,Act.begins,Act.spurious]
  | join =>
    obtain ⟨⟨here,_⟩,done⟩ := Option.ite_none_right_eq_some.mp stepped
    cases done
    simp [ahead,here,StartPlace.ahead,Act.goesOn,Act.begins,Act.spurious]
    omega
  | assertTid | joined =>
    obtain ⟨⟨here,_⟩,done⟩ := Option.ite_none_right_eq_some.mp stepped
    cases done
    simp [ahead,here,StartPlace.ahead,Act.goesOn,Act.begins,Act.spurious,Nat.add_comm]
  | logged =>
    obtain ⟨here,done⟩ := Option.ite_none_right_eq_some.mp stepped
    cases done
    simp [ahead,here,StartPlace.ahead,Act.goesOn,Act.begins,Act.spurious,Nat.add_comm]

/-- A latch that `runInThread` and `start` can no longer use is one that no call goes on in. -/
theorem latch_stuck (stuck : ∀ act, act.goesOn = true → act.logs = false → s.step act = none)
    {act : Threading.Act Side} (goes : act.goesOn = true) : s.latch.step act = none := by
  cases moved : s.latch.step act with
  | none => rfl
  | some latch =>
    have quiet : act.spurious = false := by
      cases act <;> first | rfl | cases goes
    have none := stuck (.latch act) (by simp [Act.goesOn,quiet]) rfl
    change s.latchStep act = _ at none
    unfold latchStep at none
    rw [moved] at none
    cases act with
    | enterWait t | enterCountDown t | wake t => cases goes
    | returnWait t | unlockCountDown t => cases t <;> cases none
    | _ => cases none

/-- Where the two threads stand when neither `start` and `join` nor `runInThread` can go on, but for
the return of a `LOG`. -/
theorem stuck_places (sound : Sound s)
    (stuck : ∀ act, act.goesOn = true → act.logs = false → s.step act = none) :
    (s.start = .outside ∨ (s.start = .joining ∧ s.run = .runs) ∨ s.start = .logging) ∧
      (s.run = .absent ∨ s.run = .runs ∨ s.run = .finished) := by
  have fits : ∀ t, s.latch.place t = .entered → -2^31 < s.latch.count := by
    intro t one
    have count := sound.left.entered t one
    split at count <;> omega
  have places := CountDownLatch.stuck_places sound.kept sound.placed fits fun _ => latch_stuck stuck
  have free : s.latch.mutex.owner = none := by
    refine Option.eq_none_iff_forall_ne_some.mpr fun t owned => ?_
    have held := (sound.placed.seated.owner t).mp owned
    rcases places t with one | ⟨one,_⟩ <;> rw [one] at held <;> cases held
  have created : s.latch.place .created = .outside := Classical.byContradiction fun inside => by
    have counts := (sound.created_counts inside).2
    rw [((places .created).resolve_left inside).1] at counts
    cases counts
  have run : s.run = .absent ∨ s.run = .runs ∨ s.run = .finished := by
    cases here : s.run with
    | absent => exact .inl rfl
    | runs => exact .inr (.inl rfl)
    | finished => exact .inr (.inr rfl)
    | setsTid => simpa [step,here] using stuck (.setTid ⟨1,by decide⟩) rfl rfl
    | clears => simpa [step,here] using stuck .clearLatch rfl rfl
    | counting =>
      have inside := sound.created
      rw [if_pos here,created] at inside
      cases inside
    | counts =>
      have enters := stuck (.latch (.enterCountDown .created)) rfl rfl
      simp [step,latchStep,CountDownLatch.step,CountDownLatch.moves,created,Monitor.step,free,here] at enters
  refine ⟨?_,run⟩
  cases here : s.start with
  | outside => exact .inl rfl
  | creating => simpa [step,here] using stuck (.create true) rfl rfl
  | enters =>
    have outside := sound.caller_outside (by simp [here])
    have enters := stuck (.latch (.enterWait .caller)) rfl rfl
    simp [step,latchStep,CountDownLatch.step,CountDownLatch.moves,outside,Monitor.step,free,here] at enters
  | waits =>
    have inside := sound.caller
    rw [if_pos here] at inside
    obtain ⟨_,_,positive⟩ := (places .caller).resolve_left fun outside => by
      rw [outside] at inside
      cases inside
    have count := sound.left.clear fun t one => by
      rcases places t with other | ⟨other,_⟩ <;> cases one.symm.trans other
    rcases run with one | one | one
    · exact absurd one (sound.present (.inr here))
    all_goals
      rw [one] at count
      simp only [RunPlace.counted,if_true] at count
      omega
  | asserts =>
    have past := sound.past (.inr (.inl here))
    have asserts := stuck .assertTid rfl rfl
    rw [step,if_pos ⟨here,sound.tid (s.run.past_named past)⟩] at asserts
    cases asserts
  | logging => exact .inr (.inr rfl)
  | joining =>
    refine .inr (.inl ⟨rfl,?_⟩)
    have past := sound.past (.inr (.inr (.inl here)))
    rcases run with one | one | one
    · rw [one] at past
      cases past
    · exact one
    · simpa [step,here,one] using stuck .joined rfl rfl

/-- What goes on inside of `start` and `runInThread` begins no call, and does not end the function. -/
theorem Sound.inner {act : Act} (sound : Sound s) (stepped : Steps s act s')
    (inner : act.goesOn = true ∨ act.spurious = true) :
    (s.start = .outside → s'.start = .outside ∧ s'.started = s.started) ∧
      (s.start ≠ .joining → s'.start ≠ .joining) ∧ (s.run = .runs → s'.run = .runs) ∧
        (s.run ≠ .finished → s'.run ≠ .finished) := by
  cases act with
  | start | finish | join => rcases inner with one | one <;> cases one
  | create granted =>
    obtain ⟨here,done⟩ := Option.ite_none_right_eq_some.mp stepped
    cases done
    have absent := sound.absent (.inl here)
    refine ⟨fun one => ?_,fun _ => ?_,fun one => ?_,fun apart => ?_⟩
    · cases here.symm.trans one
    · cases granted <;> nofun
    · cases absent.symm.trans one
    · cases granted
      · exact apart
      · nofun
  | logged =>
    obtain ⟨here,done⟩ := Option.ite_none_right_eq_some.mp stepped
    cases done
    exact ⟨fun one => (by cases here.symm.trans one),fun _ => nofun,id,id⟩
  | setTid tid =>
    obtain ⟨here,done⟩ := Option.ite_none_right_eq_some.mp stepped
    cases done
    exact ⟨fun one => ⟨one,rfl⟩,id,fun one => (by cases here.symm.trans one),fun _ => nofun⟩
  | clearLatch =>
    obtain ⟨here,done⟩ := Option.ite_none_right_eq_some.mp stepped
    cases done
    exact ⟨fun one => ⟨one,rfl⟩,id,fun _ => rfl,fun _ => nofun⟩
  | assertTid =>
    obtain ⟨⟨here,_⟩,done⟩ := Option.ite_none_right_eq_some.mp stepped
    cases done
    exact ⟨fun _ => ⟨rfl,rfl⟩,fun _ => nofun,id,id⟩
  | joined =>
    obtain ⟨⟨here,finished⟩,done⟩ := Option.ite_none_right_eq_some.mp stepped
    cases done
    exact ⟨fun _ => ⟨rfl,rfl⟩,fun _ => nofun,id,id⟩
  | latch act =>
    obtain ⟨latch,moved,rest⟩ := latchStep_cases stepped
    rcases rest with ⟨rfl,here,rfl⟩ | ⟨rfl,rfl⟩ | ⟨rfl,here,rfl⟩ | ⟨rfl,rfl⟩ | ⟨_,rfl⟩
    · exact ⟨fun one => (by cases here.symm.trans one),fun _ => nofun,id,id⟩
    · have waits := (sound.caller_waits (by rw [(return_place moved).1]; nofun)).1
      exact ⟨fun one => (by cases waits.symm.trans one),fun _ => nofun,id,id⟩
    · exact ⟨fun one => ⟨one,rfl⟩,id,fun one => (by cases here.symm.trans one),fun _ => nofun⟩
    · have counts := (sound.created_counts (by rw [(moves_place moved).1]; nofun)).1
      exact ⟨fun one => ⟨one,rfl⟩,id,fun one => (by cases counts.symm.trans one),fun _ => nofun⟩
    · exact ⟨fun one => ⟨one,rfl⟩,id,id,id⟩

theorem run_sound {acts : List Act} (run : Run Steps construct acts s) : Sound s :=
  run.invariant Sound (fun _ _ _ sound stepped => sound.step stepped) construct_sound

theorem run_ahead {acts : List Act} (run : Run Steps s acts s') (sound : Sound s) :
    s'.ahead + acts.countP Act.goesOn ≤
      s.ahead + 16 * acts.countP Act.begins + 3 * acts.countP Act.spurious := by
  induction run with
  | nil s => simp
  | @cons s middle s' act acts first rest ih =>
    have later := ih (sound.step first)
    have step := step_ahead sound first
    simp only [List.countP_cons]
    split at step <;> split at step <;> split at step <;> simp_all <;> omega

theorem Sound.uses (sound : Sound s) (uses : s.run.uses = true) : s.start = .enters ∨ s.start = .waits := by
  have early : s.run.past ≠ true := by
    rw [s.run.uses_early uses]
    nofun
  have behind : ¬ s.behind := fun late => early (sound.past late)
  have present : s.run ≠ .absent := by
    rintro absent
    rw [absent] at uses
    cases uses
  cases here : s.start with
  | enters => exact .inl rfl
  | waits => exact .inr rfl
  | outside =>
    cases begun : s.started with
    | true => exact absurd (.inr (.inr (.inr ⟨here,begun⟩))) behind
    | false => exact absurd (sound.absent (.inr begun)) present
  | creating => exact absurd (sound.absent (.inl here)) present
  | logging => exact absurd (sound.absent (.inr (sound.refused here))) present
  | asserts => exact absurd (.inr (.inl here)) behind
  | joining => exact absurd (.inr (.inr (.inl here))) behind

/-- In every run of a caller and the thread it creates: the calls and what the new thread does for
them take a bounded number of steps, but for the times that a wait is over by itself; the assertion
of the id holds, and behind `join` the function has returned; the new thread uses the `Thread`
only while its caller is in `start`. Where neither goes on, the caller has returned from `start`
with the new thread in its function, or without one, or it joins a function that runs, or it is in
the `LOG` of a creation that failed. -/
theorem start_returns {acts : List Act} {s : Thread} (run : Run Steps construct acts s) :
    acts.countP Act.goesOn ≤ 16 * acts.countP Act.begins + 3 * acts.countP Act.spurious ∧
      (s.start = .asserts → 0 < s.tid) ∧
      (s.joined = true → s.start = .outside → s.run = .finished) ∧
      (s.run.uses = true → s.start = .enters ∨ s.start = .waits) ∧
      ((∀ act, act.goesOn = true → act.logs = false → s.step act = none) →
        (s.start = .outside ∧ (s.started = false → s.run = .absent) ∧
            (s.started = true → s.run = .runs ∨ s.run = .finished)) ∨
          (s.start = .joining ∧ s.run = .runs) ∨
          (s.start = .logging ∧ s.started = false ∧ s.run = .absent)) := by
  have sound := run_sound run
  refine ⟨?_,fun here => ?_,fun joined here => ?_,sound.uses,fun stuck => ?_⟩
  · have bound := run_ahead run construct_sound
    have none : construct.ahead = 0 := rfl
    omega
  · have past := sound.past (.inr (.inl here))
    exact sound.tid (s.run.past_named past)
  · rcases (sound.joins joined).2 with one | ⟨_,finished⟩
    · cases here.symm.trans one
    · exact finished
  · obtain ⟨place | joining | logging,run⟩ := stuck_places sound stuck
    · refine .inl ⟨place,fun fresh => sound.absent (.inr fresh),fun started => ?_⟩
      · have past := sound.past (.inr (.inr (.inr ⟨place,started⟩)))
        rcases run with one | one | one
        · rw [one] at past
          cases past
        · exact .inl one
        · exact .inr one
    · exact .inr (.inl joining)
    · have fresh := sound.refused logging
      exact .inr (.inr ⟨logging,fresh,sound.absent (.inr fresh)⟩)

def sampleTid : Tid := ⟨7,by decide⟩

/-- `pthread_create` fails once, which is logged; then the caller blocks, is woken for nothing, blocks
again, and goes on when the new thread has counted down. -/
def startedTwice : List Act :=
  [.start,.create false,.logged,.start,.create true,.latch (.enterWait .caller),.latch (.test .caller),
    .latch (.block .caller),.setTid sampleTid,.latch (.wake .caller),.latch (.resume .caller),
    .latch (.test .caller),.latch (.block .caller),.latch (.enterCountDown .created),
    .latch (.decrement .created),.latch (.compare .created),.latch (.notifyAll .created),
    .latch (.unlockCountDown .created),.latch (.resume .caller),.latch (.test .caller),
    .latch (.unlockWait .caller),.latch (.returnWait .caller)]

theorem start_returns_twice : ∃ s, perform step construct startedTwice = some s ∧
    s.start = .asserts ∧ 0 < s.tid ∧ startedTwice.countP Act.goesOn ≤ 35 := by
  have taken : (perform step construct startedTwice).isSome = true := by decide
  obtain ⟨s,done⟩ := Option.isSome_iff_exists.mp taken
  have asserts : (perform step construct startedTwice).map (·.start) = some .asserts := by decide
  rw [done] at asserts
  have returns := start_returns (perform_run (fun _ _ _ stepped => stepped) done)
  exact ⟨s,done,Option.some.inj asserts,returns.2.1 (Option.some.inj asserts),returns.1⟩

end Thread

end Deon.Threading
