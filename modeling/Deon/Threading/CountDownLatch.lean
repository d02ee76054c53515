import Deon.Library.Monitor
import Deon.Library.Run
import Mathlib.Algebra.Group.Int.Defs
import Mathlib.Logic.Function.Basic

/-! `CountDownLatch`: any number of threads that call `wait` and `countDown` in any order, each of
them between two steps wherever the code lets it stand. -/
namespace Deon.Threading
open Library

/-- Where a thread stands in `wait` and `countDown`. -/
inductive Place
  | outside
  /-- at the test of the loop in `wait` -/
  | testing
  /-- behind the test, in front of `condition_.wait()` -/
  | waits
  /-- in `condition_.wait()` -/
  | waiting
  /-- behind the loop, with the mutex -/
  | leaving
  /-- behind the guard's `unlock`, in front of the return of `wait` -/
  | returning
  /-- in `countDown`, in front of the decrement -/
  | entered
  /-- at the comparison with zero -/
  | compares
  | notifies
  /-- behind the comparison, with the mutex -/
  | counted
  deriving DecidableEq, Repr

/-- The places inside the critical section of `countDown`. -/
def Place.inCountDown : Place → Bool
  | .entered | .compares | .notifies | .counted => true
  | _ => false

/-- The places of a thread that holds the mutex. -/
@[simp] def Place.locked : Place → Bool
  | .testing | .waits | .leaving | .entered | .compares | .notifies | .counted => true
  | .outside | .waiting | .returning => false

structure CountDownLatch (T : Type*) where
  mutex : Monitor T Unit
  count : Int
  place : T → Place

/-- The steps of a thread: the guard locks, the statements, the guard unlocks, the call returns. A
thread in the condition wait may also be woken by nobody. -/
inductive Act (T : Type*)
  | enterWait (t : T)
  | test (t : T)
  | block (t : T)
  | wake (t : T)
  | resume (t : T)
  | unlockWait (t : T)
  | returnWait (t : T)
  | enterCountDown (t : T)
  | decrement (t : T)
  | compare (t : T)
  | notifyAll (t : T)
  | unlockCountDown (t : T)

namespace CountDownLatch

variable {T : Type*} [DecidableEq T]

def construct (count : Int) : CountDownLatch T := ⟨.free,count,fun _ => .outside⟩

def goes (s : CountDownLatch T) (t : T) (target : Place) : CountDownLatch T :=
  {s with place := Function.update s.place t target}

/-- A step of `t` from one place to another that only uses the mutex or its condition. -/
def moves (s : CountDownLatch T) (t : T) (source target : Place) (op : Monitor.Op T Unit) :
    Option (CountDownLatch T) :=
  if s.place t = source then
    (s.mutex.step op).map fun mutex => {s.goes t target with mutex := mutex}
  else none

def step (s : CountDownLatch T) : Act T → Option (CountDownLatch T)
  | .enterWait t => s.moves t .outside .testing (.lock t)
  | .test t =>
    if s.place t = .testing then some (s.goes t (if s.count > 0 then .waits else .leaving)) else none
  | .block t => s.moves t .waits .waiting (.wait t ())
  | .wake t => s.moves t .waiting .waiting (.wake t)
  | .resume t => s.moves t .waiting .testing (.resume t)
  | .unlockWait t => s.moves t .leaving .returning (.unlock t)
  | .returnWait t => if s.place t = .returning then some (s.goes t .outside) else none
  | .enterCountDown t => s.moves t .outside .entered (.lock t)
  | .decrement t =>
    -- no result is defined for the least int
    if s.place t = .entered ∧ -2^31 < s.count then
      some {s.goes t .compares with count := s.count - 1}
    else none
  | .compare t =>
    if s.place t = .compares then
      some (s.goes t (if s.count = 0 then .notifies else .counted))
    else none
  | .notifyAll t => s.moves t .notifies .counted (.broadcast ())
  | .unlockCountDown t => s.moves t .counted .outside (.unlock t)

def Steps (s : CountDownLatch T) (act : Act T) (s' : CountDownLatch T) : Prop := s.step act = some s'

/-- A thread that will compare the count with zero and find it so, or has found it and is to
notify. -/
def Owes (s : CountDownLatch T) : Prop :=
  ∃ t, s.place t = .notifies ∨ (s.place t = .compares ∧ s.count = 0)

/-- The places of the threads fit the mutex and the count; a thread is blocked only while the count
is positive or somebody is about to notify. -/
structure Kept (s : CountDownLatch T) : Prop where
  locked : ∀ t, (s.place t).locked = true → s.mutex.owner = some t
  tested : ∀ t, s.place t = .waits → 0 < s.count
  finished : ∀ t, s.place t = .leaving ∨ s.place t = .returning → s.count ≤ 0
  answered : s.mutex.Answered (fun _ => 0 < s.count) (fun _ => s.Owes)

omit [DecidableEq T] in
theorem construct_kept (count : Int) : Kept (construct count : CountDownLatch T) where
  locked := nofun
  tested := nofun
  finished := fun _ place => by rcases place with one | one <;> cases one
  answered := Monitor.free_answered _ _

section

variable {s s' : CountDownLatch T} {t u : T} {source target : Place} {op : Monitor.Op T Unit}

theorem moves_cases (moved : s.moves t source target op = some s') : s.place t = source ∧
    ∃ mutex, s.mutex.step op = some mutex ∧ s' = {s.goes t target with mutex := mutex} := by
  obtain ⟨here,done⟩ := Option.ite_none_right_eq_some.mp moved
  obtain ⟨mutex,stepped,same⟩ := Option.map_eq_some_iff.mp done
  exact ⟨here,mutex,stepped,same.symm⟩

theorem goes_self : (s.goes t target).place t = target := Function.update_self ..

theorem goes_other (apart : u ≠ t) : (s.goes t target).place u = s.place u :=
  Function.update_of_ne apart ..

theorem goes_all (p : T → Place → Prop) (others : ∀ u, u ≠ t → p u (s.place u)) (own : p t target) :
    ∀ u, p u ((s.goes t target).place u) := by
  intro u
  by_cases apart : u = t
  · subst apart
    rwa [goes_self]
  · rw [goes_other apart]
    exact others u apart

omit [DecidableEq T] in
theorem Kept.alone (kept : Kept s) (one : (s.place t).locked = true)
    (other : (s.place u).locked = true) : u = t :=
  Option.some.inj ((kept.locked u other).symm.trans (kept.locked t one))

theorem Owes.goes (owes : Owes s) (here : s.place t = source) (free : source ≠ .notifies)
    (early : source ≠ .compares) : Owes (s.goes t target) := by
  obtain ⟨u,place⟩ := owes
  have apart : u ≠ t := by
    rintro rfl
    rw [here] at place
    exact place.elim free fun compared => early compared.1
  refine ⟨u,?_⟩
  rw [goes_other apart]
  exact place

/-- A step that uses the mutex as its places say, and leaves the loop of `wait` only at its test. -/
structure Moving (t : T) (source target : Place) (op : Monitor.Op T Unit) : Prop where
  takes : ∀ u, op.takes = some u → u = t
  gives : ∀ u, op.gives = some u → u = t ∧ target.locked = false
  neither : op.takes = none → op.gives = none → target.locked = true → source.locked = true
  tests : target ≠ .waits
  leaves : target = .leaving ∨ target = .returning → source = .leaving ∨ source = .returning
  waits : ∀ u c, op = .wait u c → source = .waits
  compares : source ≠ .compares
  notifies : source = .notifies → op = .broadcast ()

theorem Moving.locked (moving : Moving t source target op) (kept : Kept s)
    (here : s.place t = source) {mutex : Monitor T Unit} (stepped : s.mutex.step op = some mutex) :
    ∀ u, ((s.goes t target).place u).locked = true → mutex.owner = some u := by
  apply goes_all fun u place => place.locked = true → mutex.owner = some u
  all_goals
    rcases Monitor.step_owner stepped with ⟨same,none,none'⟩ | ⟨v,takes,_,free,owned⟩ |
      ⟨v,gives,_,owner,_⟩
  · intro u _ held
    rw [same,kept.locked u held]
  · intro u _ held
    rw [kept.locked u held] at free
    cases free
  · intro u apart held
    obtain ⟨rfl,_⟩ := moving.gives v gives
    rw [kept.locked u held] at owner
    exact absurd (Option.some.inj owner) apart
  · intro held
    rw [same,kept.locked t (here ▸ moving.neither none none' held)]
  · intro _
    rw [owned,moving.takes v takes]
  · intro held
    rw [(moving.gives v gives).2] at held
    cases held

theorem Kept.moves (kept : Kept s) (moving : Moving t source target op)
    (moved : s.moves t source target op = some s') : Kept s' := by
  obtain ⟨here,mutex,stepped,rfl⟩ := moves_cases moved
  refine ⟨moving.locked kept here stepped,?_,?_,?_⟩
  · apply goes_all fun u place => place = .waits → 0 < s.count
    · exact fun u _ => kept.tested u
    · exact fun waits => absurd waits moving.tests
  · apply goes_all fun u place => place = .leaving ∨ place = .returning → s.count ≤ 0
    · exact fun u _ => kept.finished u
    · exact fun leaves => kept.finished t (here ▸ moving.leaves leaves)
  · refine kept.answered.step stepped ?_ ?_
    · intro u c waits
      exact .inl (kept.tested t (here.trans (moving.waits u c waits)))
    · intro c other reason
      refine reason.imp_right fun owes => ?_
      exact owes.goes here (fun notifies => other (moving.notifies notifies)) moving.compares

theorem Kept.goes (kept : Kept s) (here : s.place t = source)
    (locked : target.locked = true → source.locked = true) (tested : target = .waits → 0 < s.count)
    (finished : target = .leaving ∨ target = .returning → s.count ≤ 0)
    (owes : Owes s → Owes (s.goes t target)) : Kept (s.goes t target) := by
  refine ⟨?_,?_,?_,?_⟩
  · apply goes_all fun u place => place.locked = true → s.mutex.owner = some u
    · exact fun u _ => kept.locked u
    · exact fun held => kept.locked t (here ▸ locked held)
  · exact goes_all (fun u place => place = .waits → 0 < s.count) (fun u _ => kept.tested u) tested
  · exact goes_all (fun u place => place = .leaving ∨ place = .returning → s.count ≤ 0)
      (fun u _ => kept.finished u) finished
  · exact fun u c blocked => (kept.answered u c blocked).imp_right owes

/-- The decrement: the thread holds the mutex, so that nobody stands behind a test of the old count,
and nobody else owes a broadcast. -/
theorem Kept.decrement (kept : Kept s) (here : s.place t = .entered) :
    Kept {s.goes t .compares with count := s.count - 1} := by
  have held : (s.place t).locked = true := by rw [here]; rfl
  refine ⟨?_,?_,?_,?_⟩
  · apply goes_all fun u place => place.locked = true → s.mutex.owner = some u
    · exact fun u _ => kept.locked u
    · exact fun _ => kept.locked t held
  · apply goes_all fun u place => place = .waits → 0 < s.count - 1
    · intro u apart waits
      exact absurd (kept.alone held (by rw [waits]; rfl)) apart
    · exact fun compares => by cases compares
  · apply goes_all fun u place => place = .leaving ∨ place = .returning → s.count - 1 ≤ 0
    · intro u _ place
      have before := kept.finished u place
      omega
    · exact fun place => by rcases place with one | one <;> cases one
  · intro u c blocked
    rcases kept.answered u c blocked with positive | ⟨v,place⟩
    · by_cases last : s.count = 1
      · exact .inr ⟨t,.inr ⟨goes_self,by rw [last]; rfl⟩⟩
      · refine .inl ?_
        dsimp only
        omega
    · have locked : (s.place v).locked = true := by
        rcases place with one | one
        · rw [one]; rfl
        · rw [one.1]; rfl
      rw [kept.alone held locked,here] at place
      rcases place with one | one
      · cases one
      · cases one.1

end

theorem step_kept {s s' : CountDownLatch T} {act : Act T} (kept : Kept s)
    (stepped : Steps s act s') : Kept s' := by
  cases act with
  | enterWait t => exact kept.moves (by constructor <;> simp) stepped
  | test t =>
    obtain ⟨here,done⟩ := Option.ite_none_right_eq_some.mp stepped
    cases done
    by_cases positive : s.count > 0
    · rw [if_pos positive]
      exact kept.goes here (by simp) (fun _ => positive) (by simp) fun owes =>
        owes.goes here nofun nofun
    · rw [if_neg positive]
      exact kept.goes here (by simp) nofun (fun _ => Int.not_lt.mp positive) fun owes =>
        owes.goes here nofun nofun
  | block t => exact kept.moves (by constructor <;> simp) stepped
  | wake t => exact kept.moves (by constructor <;> simp) stepped
  | resume t => exact kept.moves (by constructor <;> simp) stepped
  | unlockWait t => exact kept.moves (by constructor <;> simp) stepped
  | returnWait t =>
    obtain ⟨here,done⟩ := Option.ite_none_right_eq_some.mp stepped
    cases done
    exact kept.goes here (by simp) nofun (by simp) fun owes => owes.goes here nofun nofun
  | enterCountDown t => exact kept.moves (by constructor <;> simp) stepped
  | decrement t =>
    obtain ⟨⟨here,_⟩,done⟩ := Option.ite_none_right_eq_some.mp stepped
    cases done
    exact kept.decrement here
  | compare t =>
    obtain ⟨here,done⟩ := Option.ite_none_right_eq_some.mp stepped
    cases done
    by_cases zero : s.count = 0
    · rw [if_pos zero]
      exact kept.goes here (by simp) nofun (by simp) fun _ => ⟨t,.inl goes_self⟩
    · rw [if_neg zero]
      refine kept.goes here (by simp) nofun (by simp) fun owes => ?_
      -- who compares now would find another count than zero
      obtain ⟨u,place⟩ := owes
      have notifies := place.resolve_right fun compared => zero compared.2
      have apart : u ≠ t := by
        rintro rfl
        cases here.symm.trans notifies
      exact ⟨u,.inl ((goes_other apart).trans notifies)⟩
  | notifyAll t => exact kept.moves (by constructor <;> simp) stepped
  | unlockCountDown t => exact kept.moves (by constructor <;> simp) stepped

/-- In every run, whatever the count begins with: a `wait` returns with no count left, and while no
count is left a thread is blocked only when another one is inside the critical section of
`countDown`. -/
theorem countDownLatch_strands_none (count : Int) {s : CountDownLatch T}
    (reached : Reachable Steps (construct count) s) :
    (∀ t s', s.step (.returnWait t) = some s' → s.count ≤ 0 ∧ s'.count ≤ 0) ∧
    ∀ t, (t,()) ∈ s.mutex.blocked → s.count ≤ 0 → ∃ u, (s.place u).inCountDown = true := by
  have kept : Kept s := reached.invariant Kept (construct_kept count) fun _ _ _ => step_kept
  constructor
  · intro t s' returned
    obtain ⟨here,done⟩ := Option.ite_none_right_eq_some.mp returned
    have finished := kept.finished t (.inr here)
    cases done
    exact ⟨finished,finished⟩
  · intro t blocked empty
    have reason := kept.answered t () blocked
    obtain ⟨u,place⟩ := reason.resolve_left (Int.not_lt.mpr empty)
    rcases place with notifies | compared
    · exact ⟨u,by rw [notifies]; rfl⟩
    · exact ⟨u,by rw [compared.1]; rfl⟩

/-- One thread is blocked, another has counted down to zero and stands in front of the comparison. -/
def lastCount : List (Act Nat) := [.enterWait 0,.test 0,.block 0,.enterCountDown 1,.decrement 1]

theorem countDownLatch_strands_none_last : ∃ s, Reachable Steps (construct 1) s ∧
    (0,()) ∈ s.mutex.blocked ∧ s.count ≤ 0 ∧ ∃ u, (s.place u).inCountDown = true := by
  have run := perform_get (fun _ _ _ done => done) (by decide : (perform step (construct 1)
    lastCount).isSome)
  have blocked : (0,()) ∈ ((perform step (construct 1) lastCount).get (by decide)).mutex.blocked := by
    decide
  have empty : ((perform step (construct 1) lastCount).get (by decide)).count ≤ 0 := by decide
  exact ⟨_,⟨_,run⟩,blocked,empty,(countDownLatch_strands_none 1 ⟨_,run⟩).2 0 blocked empty⟩

end CountDownLatch

end Deon.Threading
