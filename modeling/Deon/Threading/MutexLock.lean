import Deon.Library.Monitor
import Deon.Library.Run
import Mathlib.Logic.Function.Basic

/-! `MutexLock` and the waits of `Condition`: the record that the mutex keeps of its holder, beside
the mutex itself. Unlocking, and waiting at a condition, is for the thread that owns the mutex. -/
namespace Deon.Threading
open Library

/-- The kernel's id of a thread, as `CurrentThread::tid` returns it. -/
structure Tid where
  value : Int
  positive : 0 < value
  deriving DecidableEq

theorem Tid.ext {t u : Tid} (same : t.value = u.value) : t = u := by
  obtain ⟨value,positive⟩ := t
  cases same
  rfl

/-- Where a thread stands: in `lock` behind `pthread_mutex_lock`, in `unlock` in front of
`pthread_mutex_unlock`, in a wait of a condition, or in none of them. -/
inductive LockPlace
  | outside
  | assigning
  | unassigned
  | waiting
  deriving DecidableEq, Repr

structure MutexLock (C : Type*) where
  mutex : Monitor Tid C
  holder : Int
  place : Tid → LockPlace

/-- A wait, with a time limit or without, releases the mutex in `wait` and returns with it in
`resume`; `wake` is a wait that is over without a notification, and `notify` names the thread that
it wakes, if one is blocked. -/
inductive LockAct (C : Type*)
  | lock (t : Tid)
  | assignHolder (t : Tid)
  | unassignHolder (t : Tid)
  | unlock (t : Tid)
  | wait (t : Tid) (c : C)
  | waitForSeconds (t : Tid) (c : C)
  | wake (t : Tid)
  | notify (c : C) (t : Option Tid)
  | notifyAll (c : C)
  | resume (t : Tid)

/-- A thread enters a wait of a condition. -/
def LockAct.waits {C : Type*} : LockAct C → Bool
  | .wait .. | .waitForSeconds .. => true
  | _ => false

namespace MutexLock

variable {C : Type*} [DecidableEq C]

def construct : MutexLock C := ⟨.free,0,fun _ => .outside⟩

def isLockedByThisThread (s : MutexLock C) (t : Tid) : Bool := s.holder = t.value

def goes (s : MutexLock C) (t : Tid) (target : LockPlace) : MutexLock C :=
  {s with place := Function.update s.place t target}

/-- A step of `t` from one place to another that uses the mutex or a condition. -/
def moves (s : MutexLock C) (t : Tid) (source target : LockPlace) (op : Monitor.Op Tid C) :
    Option (MutexLock C) :=
  if s.place t = source then
    (s.mutex.step op).map fun mutex => {s.goes t target with mutex := mutex}
  else none

def step (s : MutexLock C) : LockAct C → Option (MutexLock C)
  | .lock t => s.moves t .outside .assigning (.lock t)
  | .assignHolder t =>
    if s.place t = .assigning then some {s.goes t .outside with holder := t.value} else none
  | .unassignHolder t =>
    if s.place t = .outside ∧ s.mutex.owner = some t then
      some {s.goes t .unassigned with holder := 0}
    else none
  | .unlock t => s.moves t .unassigned .outside (.unlock t)
  -- neither wait touches the record, when it releases the mutex and when it takes it again
  | .wait t c => s.moves t .outside .waiting (.wait t c)
  | .waitForSeconds t c => s.moves t .outside .waiting (.wait t c)
  | .wake t => s.moves t .waiting .waiting (.wake t)
  | .notify c t => (s.mutex.step (.signal c t)).map fun mutex => {s with mutex := mutex}
  | .notifyAll c => (s.mutex.step (.broadcast c)).map fun mutex => {s with mutex := mutex}
  | .resume t => s.moves t .waiting .outside (.resume t)

def Steps (s : MutexLock C) (act : LockAct C) (s' : MutexLock C) : Prop := s.step act = some s'

/-- What the record is for. -/
structure Truthful (s : MutexLock C) : Prop where
  owned : ∀ t, s.mutex.owner = some t → s.place t = .outside → s.holder = t.value
  free : s.mutex.owner = none → s.holder = 0
  answers : ∀ t, s.place t = .outside → (s.isLockedByThisThread t = true ↔ s.mutex.owner = some t)

/-- What holds of the record as long as no thread waits: also inside `lock` and `unlock`. -/
structure Recorded (s : MutexLock C) : Prop where
  idle : s.mutex.Idle
  inside : ∀ t, s.place t ≠ .outside → s.mutex.owner = some t ∧ s.holder = 0
  owned : ∀ t, s.mutex.owner = some t → s.place t = .outside → s.holder = t.value
  free : s.mutex.owner = none → s.holder = 0

omit [DecidableEq C] in
theorem construct_recorded : Recorded (construct : MutexLock C) :=
  ⟨⟨rfl,rfl⟩,fun _ inside => absurd rfl inside,nofun,fun _ => rfl⟩

omit [DecidableEq C] in
theorem Recorded.truthful {s : MutexLock C} (recorded : Recorded s) : Truthful s := by
  refine ⟨recorded.owned,recorded.free,?_⟩
  intro t outside
  rw [isLockedByThisThread,decide_eq_true_iff]
  have positive := t.positive
  constructor
  · intro same
    cases owner : s.mutex.owner with
    | none =>
      have none := recorded.free owner
      omega
    | some u =>
      by_cases there : s.place u = .outside
      · have equal := (recorded.owned u owner there).symm.trans same
        exact congrArg some (Tid.ext equal)
      · have none := (recorded.inside u there).2
        omega
  · exact fun owner => recorded.owned t owner outside

section

variable {s s' : MutexLock C} {act : LockAct C} {t u : Tid} {source target : LockPlace}
  {op : Monitor.Op Tid C}

theorem moves_cases (moved : s.moves t source target op = some s') : s.place t = source ∧
    ∃ mutex, s.mutex.step op = some mutex ∧ s' = {s.goes t target with mutex := mutex} := by
  obtain ⟨here,done⟩ := Option.ite_none_right_eq_some.mp moved
  obtain ⟨mutex,stepped,same⟩ := Option.map_eq_some_iff.mp done
  exact ⟨here,mutex,stepped,same.symm⟩

omit [DecidableEq C] in
theorem goes_self : (s.goes t target).place t = target := Function.update_self ..

omit [DecidableEq C] in
theorem goes_other (apart : u ≠ t) : (s.goes t target).place u = s.place u :=
  Function.update_of_ne apart ..

omit [DecidableEq C] in
theorem Recorded.enters {mutex : Monitor Tid C} {holder : Int} (idle : mutex.Idle)
    (owner : mutex.owner = some t) (others : ∀ u, u ≠ t → s.place u = .outside)
    (entered : target ≠ .outside) (cleared : holder = 0) :
    Recorded {s.goes t target with mutex := mutex,holder := holder} := by
  refine ⟨idle,?_,?_,fun _ => cleared⟩
  · intro u inside
    by_cases apart : u = t
    · exact ⟨apart ▸ owner,cleared⟩
    · exact absurd ((goes_other apart).trans (others u apart)) inside
  · intro u owned outside
    obtain rfl := Option.some.inj (owner.symm.trans owned)
    exact absurd (goes_self.symm.trans outside) entered

omit [DecidableEq C] in
theorem Recorded.leaves {mutex : Monitor Tid C} {holder : Int} (idle : mutex.Idle)
    (others : ∀ u, u ≠ t → s.place u = .outside)
    (owned : ∀ u, mutex.owner = some u → holder = u.value)
    (free : mutex.owner = none → holder = 0) :
    Recorded {s.goes t .outside with mutex := mutex,holder := holder} := by
  refine ⟨idle,?_,fun u owner _ => owned u owner,free⟩
  intro u inside
  by_cases apart : u = t
  · subst apart
    exact absurd goes_self inside
  · exact absurd ((goes_other apart).trans (others u apart)) inside

omit [DecidableEq C] in
theorem Recorded.others (recorded : Recorded s) (owner : s.mutex.owner = some t) (apart : u ≠ t) :
    s.place u = .outside := by
  by_contra inside
  have owned := (recorded.inside u inside).1
  exact apart (Option.some.inj (owned.symm.trans owner))

omit [DecidableEq C] in
theorem Recorded.outside (recorded : Recorded s) (free : s.mutex.owner = none) (u : Tid) :
    s.place u = .outside := by
  by_contra inside
  have owned := (recorded.inside u inside).1
  rw [free] at owned
  cases owned

/-- A step that only asks the monitor, which wakes nobody. -/
theorem Recorded.asks (recorded : Recorded s) (op : Monitor.Op Tid C)
    (asked : (s.mutex.step op).map (fun mutex => {s with mutex := mutex}) = some s')
    (kind : op.takes = none ∧ op.gives = none) : Recorded s' := by
  obtain ⟨mutex,stepped,rfl⟩ := Option.map_eq_some_iff.mp asked
  have calm : ∀ t c, op ≠ .wait t c := by
    rintro t c rfl
    cases kind.2
  rcases (recorded.idle.step stepped calm).2 with ⟨u,rfl,_⟩ | ⟨u,rfl,_⟩ | ⟨_,rfl⟩
  · cases kind.1
  · cases kind.2
  · exact recorded

theorem step_recorded (recorded : Recorded s) (stepped : Steps s act s') (calm : act.waits = false) :
    Recorded s' := by
  cases act with
  | lock t =>
    obtain ⟨_,mutex,locked,rfl⟩ := moves_cases stepped
    obtain ⟨idle,⟨u,same,free,owner⟩ | ⟨u,same,_⟩ | ⟨⟨c,same | same⟩,_⟩⟩ :=
      recorded.idle.step locked nofun <;> cases same
    exact .enters idle owner (fun u _ => recorded.outside free u) nofun (recorded.free free)
  | assignHolder t =>
    obtain ⟨here,done⟩ := Option.ite_none_right_eq_some.mp stepped
    cases done
    have owner := (recorded.inside t (by simp [here])).1
    refine .leaves recorded.idle (fun u => recorded.others owner) ?_ ?_
    · intro u owned
      rw [Option.some.inj (owner.symm.trans owned)]
    · exact fun free => absurd (owner.symm.trans free) nofun
  | unassignHolder t =>
    obtain ⟨⟨_,owner⟩,done⟩ := Option.ite_none_right_eq_some.mp stepped
    cases done
    exact .enters recorded.idle owner (fun u => recorded.others owner) nofun rfl
  | unlock t =>
    obtain ⟨here,mutex,unlocked,rfl⟩ := moves_cases stepped
    have cleared := (recorded.inside t (by simp [here])).2
    obtain ⟨idle,⟨u,same,_⟩ | ⟨u,same,owner,free⟩ | ⟨⟨c,same | same⟩,_⟩⟩ :=
      recorded.idle.step unlocked nofun <;> cases same
    refine .leaves idle (fun u => recorded.others owner) ?_ fun _ => cleared
    intro u owned
    rw [free] at owned
    cases owned
  | wait t c => cases calm
  | waitForSeconds t c => cases calm
  | wake t =>
    obtain ⟨_,mutex,woken,_⟩ := moves_cases stepped
    obtain ⟨_,⟨u,same,_⟩ | ⟨u,same,_⟩ | ⟨⟨c,same | same⟩,_⟩⟩ := recorded.idle.step woken nofun <;>
      cases same
  | notify c t => exact recorded.asks (.signal c t) stepped ⟨rfl,rfl⟩
  | notifyAll c => exact recorded.asks (.broadcast c) stepped ⟨rfl,rfl⟩
  | resume t =>
    obtain ⟨_,mutex,resumed,_⟩ := moves_cases stepped
    obtain ⟨_,⟨u,same,_⟩ | ⟨u,same,_⟩ | ⟨⟨c,same | same⟩,_⟩⟩ := recorded.idle.step resumed nofun <;>
      cases same

/-- A wait gives the mutex back, and the record still names the thread. -/
theorem wait_untruthful (truthful : Truthful s) (stepped : Steps s act s')
    (waits : act.waits = true) : ¬Truthful s' := by
  have released : ∀ t c, s.moves t .outside .waiting (.wait t c) = some s' → ¬Truthful s' := by
    intro t c moved after
    obtain ⟨here,mutex,waited,rfl⟩ := moves_cases moved
    obtain ⟨owner,done⟩ := Option.ite_none_right_eq_some.mp waited
    cases done
    have named := truthful.owned t owner here
    have cleared : s.holder = 0 := after.free rfl
    have positive := t.positive
    omega
  cases act with
  | wait t c => exact released t c stepped
  | waitForSeconds t c => exact released t c stepped
  | _ => cases waits

end

/-- The record is truthful in every state of a run exactly when no step of the run enters a wait of
a condition. -/
theorem holder_truthful_iff {acts : List (LockAct C)} {s : MutexLock C}
    (run : Run Steps construct acts s) :
    (∀ before after middle, acts = before ++ after → Run Steps construct before middle →
      Run Steps middle after s → Truthful middle) ↔ ∀ act ∈ acts, act.waits = false := by
  constructor
  · intro truthful act member
    by_contra waits
    rw [Bool.not_eq_false] at waits
    obtain ⟨before,after,rfl⟩ := List.append_of_mem member
    obtain ⟨middle,first,rest⟩ := run.split
    have ahead := truthful before (act :: after) middle rfl first rest
    obtain _ | ⟨one,last⟩ := rest
    have behind := truthful (before ++ [act]) after _ (by simp) (first.append (.cons one (.nil _))) last
    exact wait_untruthful ahead one waits behind
  · intro calm before after middle split first _
    have recorded : Recorded middle := by
      refine first.invariant_of Recorded (fun act => act.waits = false) ?_ ?_ construct_recorded
      · exact fun _ _ _ recorded calm stepped => step_recorded recorded stepped calm
      · exact fun act member => calm act (split ▸ List.mem_append_left after member)
    exact recorded.truthful

def firstTid : Tid := ⟨1,by decide⟩

def secondTid : Tid := ⟨2,by decide⟩

/-- While the first thread waits, the second one locks and unlocks. -/
def lockedBetween : List (LockAct Unit) :=
  [.lock firstTid,.assignHolder firstTid,.wait firstTid (),.lock secondTid,.assignHolder secondTid,
    .unassignHolder secondTid,.unlock secondTid,.wake firstTid,.resume firstTid]

theorem holder_truthful_without_wait : ∃ s,
    Run Steps (construct : MutexLock Unit) [.lock firstTid,.assignHolder firstTid] s ∧
      ∀ before after middle, [LockAct.lock firstTid,.assignHolder firstTid] = before ++ after →
        Run Steps construct before middle → Run Steps middle after s → Truthful middle := by
  have run : Run Steps (construct : MutexLock Unit) [.lock firstTid,.assignHolder firstTid] _ :=
    perform_get (fun _ _ _ done => done) (by decide)
  exact ⟨_,run,(holder_truthful_iff run).mpr (by decide)⟩

/-- Behind its wait the first thread owns the mutex, and the record says that nobody does. -/
theorem holder_lost_in_wait :
    ¬(∀ (acts : List (LockAct Unit)) s, Run Steps construct acts s → Truthful s) ∧
    ∃ s, Run Steps (construct : MutexLock Unit) lockedBetween s ∧ s.mutex.owner = some firstTid ∧
      s.place firstTid = .outside ∧ s.holder = 0 ∧ s.isLockedByThisThread firstTid = false := by
  have run : Run Steps (construct : MutexLock Unit) lockedBetween _ :=
    perform_get (fun _ _ _ done => done) (by decide)
  refine ⟨?_,_,run,by decide,by decide,by decide,by decide⟩
  intro always
  have named := (always _ _ run).owned firstTid (by decide) (by decide)
  exact absurd named (by decide)

end MutexLock

end Deon.Threading
