import Mathlib.Data.List.Nodup
import Mathlib.Data.List.Perm.Basic

/-! A mutex with the threads that wait at its conditions, over arbitrary threads and conditions.
A wait releases the mutex and blocks in one step; a thread whose wait is over takes the mutex
again before it goes on, and a wait may be over without any signal. -/
namespace Deon.Library

/-- `blocked` holds the threads in a wait that nothing has ended yet, `woken` those that are still
to take the mutex again. -/
structure Monitor (T C : Type*) where
  owner : Option T
  blocked : List (T × C)
  woken : List T
  deriving DecidableEq

namespace Monitor

variable {T C : Type*}

def free : Monitor T C := ⟨none,[],[]⟩

inductive Op (T C : Type*)
  | lock (t : T)
  | unlock (t : T)
  | wait (t : T) (c : C)
  /-- the wait of a thread is over by itself -/
  | wake (t : T)
  /-- one of the threads that are blocked at the condition, if there is any -/
  | signal (c : C) (t : Option T)
  | broadcast (c : C)
  | resume (t : T)

variable [DecidableEq T] [DecidableEq C]

def wakes (m : Monitor T C) (t : T) : Monitor T C :=
  {m with blocked := m.blocked.filter fun one => one.1 ≠ t,woken := t :: m.woken}

def wakesAll (m : Monitor T C) (c : C) : Monitor T C :=
  {m with
    blocked := m.blocked.filter fun one => one.2 ≠ c
    woken := (m.blocked.filter fun one => one.2 = c).map Prod.fst ++ m.woken}

def step (m : Monitor T C) : Op T C → Option (Monitor T C)
  | .lock t => if m.owner = none then some {m with owner := some t} else none
  | .unlock t => if m.owner = some t then some {m with owner := none} else none
  | .wait t c =>
    if m.owner = some t then some {m with owner := none,blocked := (t,c) :: m.blocked} else none
  | .wake t => if t ∈ m.blocked.map Prod.fst then some (m.wakes t) else none
  | .signal c none => if ∀ one ∈ m.blocked, one.2 ≠ c then some m else none
  | .signal c (some t) => if (t,c) ∈ m.blocked then some (m.wakes t) else none
  | .broadcast c => some (m.wakesAll c)
  | .resume t =>
    if m.owner = none ∧ t ∈ m.woken then some {m with owner := some t,woken := m.woken.erase t}
    else none

/-- The thread that takes the mutex. -/
@[simp] def Op.takes : Op T C → Option T
  | .lock t | .resume t => some t
  | _ => none

/-- The thread that gives it back. -/
@[simp] def Op.gives : Op T C → Option T
  | .unlock t | .wait t _ => some t
  | _ => none

variable {m m' : Monitor T C} {op : Op T C}

/-- What an operation does, and where it is possible. -/
inductive Does (m : Monitor T C) : Op T C → Monitor T C → Prop
  | lock (t : T) (free : m.owner = none) : Does m (.lock t) {m with owner := some t}
  | unlock (t : T) (owned : m.owner = some t) : Does m (.unlock t) {m with owner := none}
  | wait (t : T) (c : C) (owned : m.owner = some t) :
      Does m (.wait t c) {m with owner := none,blocked := (t,c) :: m.blocked}
  | wake (t : T) (waits : t ∈ m.blocked.map Prod.fst) : Does m (.wake t) (m.wakes t)
  | signal (c : C) (t : T) (waits : (t,c) ∈ m.blocked) : Does m (.signal c (some t)) (m.wakes t)
  | unheard (c : C) (nobody : ∀ one ∈ m.blocked, one.2 ≠ c) : Does m (.signal c none) m
  | broadcast (c : C) : Does m (.broadcast c) (m.wakesAll c)
  | resume (t : T) (free : m.owner = none) (waits : t ∈ m.woken) :
      Does m (.resume t) {m with owner := some t,woken := m.woken.erase t}

theorem step_does (stepped : m.step op = some m') : m.Does op m' := by
  cases op with
  | lock t =>
    obtain ⟨free,done⟩ := Option.ite_none_right_eq_some.mp stepped
    cases done
    exact .lock t free
  | unlock t =>
    obtain ⟨owned,done⟩ := Option.ite_none_right_eq_some.mp stepped
    cases done
    exact .unlock t owned
  | wait t c =>
    obtain ⟨owned,done⟩ := Option.ite_none_right_eq_some.mp stepped
    cases done
    exact .wait t c owned
  | wake t =>
    obtain ⟨waits,done⟩ := Option.ite_none_right_eq_some.mp stepped
    cases done
    exact .wake t waits
  | signal c t =>
    cases t with
    | none =>
      obtain ⟨nobody,done⟩ := Option.ite_none_right_eq_some.mp stepped
      cases done
      exact .unheard c nobody
    | some t =>
      obtain ⟨waits,done⟩ := Option.ite_none_right_eq_some.mp stepped
      cases done
      exact .signal c t waits
  | broadcast c =>
    cases stepped
    exact .broadcast c
  | resume t =>
    obtain ⟨⟨free,waits⟩,done⟩ := Option.ite_none_right_eq_some.mp stepped
    cases done
    exact .resume t free waits

/-- What an operation does to the owner: nobody takes the mutex from another thread. -/
theorem step_owner (stepped : m.step op = some m') :
    (m'.owner = m.owner ∧ op.takes = none ∧ op.gives = none) ∨
      (∃ t, op.takes = some t ∧ op.gives = none ∧ m.owner = none ∧ m'.owner = some t) ∨
      (∃ t, op.gives = some t ∧ op.takes = none ∧ m.owner = some t ∧ m'.owner = none) := by
  cases step_does stepped with
  | lock t free => exact .inr (.inl ⟨t,rfl,rfl,free,rfl⟩)
  | unlock t owned => exact .inr (.inr ⟨t,rfl,rfl,owned,rfl⟩)
  | wait t c owned => exact .inr (.inr ⟨t,rfl,rfl,owned,rfl⟩)
  | resume t free waits => exact .inr (.inl ⟨t,rfl,rfl,free,rfl⟩)
  | _ => exact .inl ⟨rfl,rfl,rfl⟩

/-- Only a wait blocks a thread, and a broadcast leaves nobody blocked at its condition. -/
theorem step_blocked (stepped : m.step op = some m') {t : T} {c : C} (later : (t,c) ∈ m'.blocked) :
    op = .wait t c ∨ ((t,c) ∈ m.blocked ∧ op ≠ .broadcast c) := by
  cases step_does stepped with
  | wait u d =>
    rcases List.mem_cons.mp later with same | before
    · cases same
      exact .inl rfl
    · exact .inr ⟨before,nofun⟩
  | wake u => exact .inr ⟨List.mem_of_mem_filter later,nofun⟩
  | signal d u => exact .inr ⟨List.mem_of_mem_filter later,nofun⟩
  | broadcast d =>
    obtain ⟨before,apart⟩ := List.mem_filter.mp later
    refine .inr ⟨before,fun same => ?_⟩
    cases same
    simp at apart
  | _ => exact .inr ⟨later,nofun⟩

/-- The threads that wait, blocked or woken. -/
def inside (m : Monitor T C) : List T := m.blocked.map Prod.fst ++ m.woken

/-- The mutex and its waits as the places of the threads say them: who is in a critical section has
the mutex, and who waits does so once. -/
structure Seated (m : Monitor T C) (locked waiting : T → Prop) : Prop where
  owner : ∀ t, m.owner = some t ↔ locked t
  waits : ∀ t, t ∈ m.inside ↔ waiting t
  once : m.inside.Nodup

omit [DecidableEq T] [DecidableEq C] in
theorem free_seated {locked waiting : T → Prop} (nobody : ∀ t, ¬ locked t) (none : ∀ t, ¬ waiting t) :
    (free : Monitor T C).Seated locked waiting where
  owner t := ⟨nofun,fun held => absurd held (nobody t)⟩
  waits t := ⟨nofun,fun waits => absurd waits (none t)⟩
  once := .nil

omit [DecidableEq T] [DecidableEq C] in
theorem Seated.congr {locked waiting locked' waiting' : T → Prop} (seated : m.Seated locked waiting)
    (locks : ∀ t, locked' t ↔ locked t) (waits : ∀ t, waiting' t ↔ waiting t) :
    m.Seated locked' waiting' where
  owner t := (seated.owner t).trans (locks t).symm
  waits t := (seated.waits t).trans (waits t).symm
  once := seated.once

omit [DecidableEq C] in
theorem wakes_inside (once : m.inside.Nodup) {t : T} (waits : t ∈ m.blocked.map Prod.fst) :
    (m.wakes t).inside.Perm m.inside := by
  have apart : (m.blocked.filter fun one => one.1 ≠ t).map Prod.fst =
      (m.blocked.map Prod.fst).erase t := by
    rw [once.of_append_left.erase_eq_filter,List.filter_map]
    congr 1
    exact List.filter_congr fun one _ => by by_cases same : one.1 = t <;> simp [same]
  unfold inside wakes
  dsimp only
  rw [apart]
  exact List.perm_middle.trans ((List.perm_cons_erase waits).symm.append_right _)

omit [DecidableEq T] in
theorem wakesAll_inside (m : Monitor T C) (c : C) : (m.wakesAll c).inside.Perm m.inside := by
  unfold inside wakesAll
  dsimp only
  rw [← List.append_assoc,← List.map_append]
  refine List.Perm.append_right _ (List.Perm.map _ (List.perm_append_comm.trans ?_))
  simpa using List.filter_append_perm (fun one : T × C => decide (one.2 = c)) m.blocked

/-- What an operation does to the threads that wait. -/
theorem step_inside (once : m.inside.Nodup) (stepped : m.step op = some m') :
    (∃ t c, op = .wait t c ∧ m'.inside = t :: m.inside) ∨
      (∃ t, op = .resume t ∧ t ∈ m.inside ∧ m'.inside = m.inside.erase t) ∨
      ((∀ t c, op ≠ .wait t c) ∧ (∀ t, op ≠ .resume t) ∧ m'.inside.Perm m.inside) := by
  cases step_does stepped with
  | lock t free => exact .inr (.inr ⟨nofun,nofun,.refl _⟩)
  | unlock t owned => exact .inr (.inr ⟨nofun,nofun,.refl _⟩)
  | wait t c owned => exact .inl ⟨t,c,rfl,rfl⟩
  | wake t waits => exact .inr (.inr ⟨nofun,nofun,wakes_inside once waits⟩)
  | signal c t waits =>
    exact .inr (.inr ⟨nofun,nofun,wakes_inside once (List.mem_map_of_mem waits)⟩)
  | unheard c nobody => exact .inr (.inr ⟨nofun,nofun,.refl _⟩)
  | broadcast c => exact .inr (.inr ⟨nofun,nofun,wakesAll_inside m c⟩)
  | resume t free waits =>
    have apart : t ∉ m.blocked.map Prod.fst := fun blocked => List.disjoint_of_nodup_append once blocked waits
    exact .inr (.inl ⟨t,rfl,List.mem_append_right _ waits,(List.erase_append_right _ apart).symm⟩)

theorem step_seats {waiting waiting' : T → Prop} (once : m.inside.Nodup)
    (seated : ∀ t, t ∈ m.inside ↔ waiting t) (stepped : m.step op = some m')
    (apart : ∀ t, m.owner = some t → ¬ waiting t)
    (waits : ∀ t, waiting' t ↔ (∃ c, op = .wait t c) ∨ (waiting t ∧ op ≠ .resume t)) :
    (∀ t, t ∈ m'.inside ↔ waiting' t) ∧ m'.inside.Nodup := by
  rcases step_inside once stepped with ⟨u,c,rfl,more⟩ | ⟨u,rfl,member,less⟩ | ⟨calm,goes,same⟩
  · have owned : m.owner = some u := by
      cases step_does stepped with
      | wait _ _ owned => exact owned
    rw [more]
    refine ⟨fun t => ?_,List.nodup_cons.mpr ⟨fun member => apart u owned ((seated u).mp member),once⟩⟩
    rw [waits t,List.mem_cons,seated t]
    simp [eq_comm]
  · rw [less]
    refine ⟨fun t => ?_,once.erase u⟩
    rw [waits t,once.mem_erase_iff,seated t]
    simp [and_comm,eq_comm]
  · refine ⟨fun t => ?_,same.nodup_iff.mpr once⟩
    rw [waits t,same.mem_iff,seated t]
    simp [calm,goes]

theorem Seated.step {locked waiting locked' waiting' : T → Prop} (seated : m.Seated locked waiting)
    (stepped : m.step op = some m') (apart : ∀ t, locked t → ¬ waiting t)
    (locks : ∀ t, locked' t ↔ op.takes = some t ∨ (locked t ∧ op.gives ≠ some t))
    (waits : ∀ t, waiting' t ↔ (∃ c, op = .wait t c) ∨ (waiting t ∧ op ≠ .resume t)) :
    m'.Seated locked' waiting' := by
  obtain ⟨owner,inside,once⟩ := seated
  have seats := step_seats once inside stepped (fun t owned => apart t ((owner t).mp owned)) waits
  refine ⟨fun t => ?_,seats.1,seats.2⟩
  rw [locks t]
  rcases step_owner stepped with ⟨same,takes,gives⟩ | ⟨u,takes,gives,free,owned⟩ |
    ⟨u,gives,takes,owned,free⟩
  · rw [same,takes,gives,owner t]
    exact ⟨fun held => .inr ⟨held,nofun⟩,fun either => (either.resolve_left nofun).1⟩
  · rw [owned,takes]
    refine ⟨.inl,fun either => either.resolve_right fun held => ?_⟩
    rw [(owner t).mpr held.1] at free
    cases free
  · rw [free,takes,gives,← owner t,owned]
    exact ⟨nofun,fun either => absurd (either.resolve_left nofun).1 (either.resolve_left nofun).2⟩

/-- A thread is woken by a wake of its own, by the signal that picks it, or by a broadcast. -/
theorem step_woken (stepped : m.step op = some m') {t : T} (later : t ∈ m'.woken) : t ∈ m.woken ∨
    op = .wake t ∨ (∃ c, op = .signal c (some t)) ∨ ∃ c, op = .broadcast c := by
  cases step_does stepped with
  | wake u =>
    rcases List.mem_cons.mp later with same | before
    · exact .inr (.inl (by rw [same]))
    · exact .inl before
  | signal c u =>
    rcases List.mem_cons.mp later with same | before
    · exact .inr (.inr (.inl ⟨c,by rw [same]⟩))
    · exact .inl before
  | broadcast c => exact .inr (.inr (.inr ⟨c,rfl⟩))
  | resume u => exact .inl (List.mem_of_mem_erase later)
  | _ => exact .inl later

/-- Every thread that is blocked at a condition has reason to be there, or somebody still owes a
broadcast. -/
def Answered (m : Monitor T C) (awaits owed : C → Prop) : Prop :=
  ∀ t c, (t,c) ∈ m.blocked → awaits c ∨ owed c

omit [DecidableEq T] [DecidableEq C] in
theorem free_answered (awaits owed : C → Prop) : (free : Monitor T C).Answered awaits owed :=
  fun _ _ member => absurd member List.not_mem_nil

/-- A step that blocks nobody without reason and forgets no debt but by its broadcast. -/
theorem Answered.step {awaits owed awaits' owed' : C → Prop} (answered : m.Answered awaits owed)
    (stepped : m.step op = some m') (waits : ∀ t c, op = .wait t c → awaits' c ∨ owed' c)
    (keeps : ∀ c, op ≠ .broadcast c → awaits c ∨ owed c → awaits' c ∨ owed' c) :
    m'.Answered awaits' owed' := by
  intro t c later
  rcases step_blocked stepped later with one | ⟨before,other⟩
  · exact waits t c one
  · exact keeps c other (answered t c before)

structure Idle (m : Monitor T C) : Prop where
  blocked : m.blocked = []
  woken : m.woken = []

/-- Without a wait the operations of an idle monitor are those of a mutex. -/
theorem Idle.step (idle : m.Idle) (stepped : m.step op = some m') (calm : ∀ t c, op ≠ .wait t c) :
    m'.Idle ∧ ((∃ t, op = .lock t ∧ m.owner = none ∧ m'.owner = some t) ∨
      (∃ t, op = .unlock t ∧ m.owner = some t ∧ m'.owner = none) ∨
      ((∃ c, op = .signal c none ∨ op = .broadcast c) ∧ m' = m)) := by
  have blocked := idle.blocked
  have woken := idle.woken
  cases step_does stepped with
  | lock t free => exact ⟨⟨blocked,woken⟩,.inl ⟨t,rfl,free,rfl⟩⟩
  | unlock t owned => exact ⟨⟨blocked,woken⟩,.inr (.inl ⟨t,rfl,owned,rfl⟩)⟩
  | wait t c => exact absurd rfl (calm t c)
  | wake t waits => simp [blocked] at waits
  | signal c t waits => simp [blocked] at waits
  | unheard c => exact ⟨idle,.inr (.inr ⟨⟨c,.inl rfl⟩,rfl⟩)⟩
  | broadcast c =>
    have same : m.wakesAll c = m := by
      obtain ⟨owner,_,_⟩ := m
      cases blocked
      rfl
    rw [same]
    exact ⟨idle,.inr (.inr ⟨⟨c,.inr rfl⟩,rfl⟩)⟩
  | resume t free waits => simp [woken] at waits

end Monitor

end Deon.Library
