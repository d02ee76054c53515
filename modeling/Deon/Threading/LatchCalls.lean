import Deon.Threading.CountDownLatch

/-! The calls of a `CountDownLatch` come to their end: how many steps a thread can take in them, and
where the threads stand when none of them can go on. -/
namespace Deon.Threading
open Library

namespace Act

variable {T : Type*}

def thread : Act T → T
  | .enterWait t | .test t | .block t | .wake t | .resume t | .unlockWait t | .returnWait t
  | .enterCountDown t | .decrement t | .compare t | .notifyAll t | .unlockCountDown t => t

/-- A call begins. -/
def begins : Act T → Bool
  | .enterWait _ | .enterCountDown _ => true
  | _ => false

/-- A condition wait is over by itself. -/
def spurious : Act T → Bool
  | .wake _ => true
  | _ => false

/-- A call goes on. -/
def goesOn (act : Act T) : Bool := !act.begins && !act.spurious

def countsDown : Act T → Bool
  | .enterCountDown _ => true
  | _ => false

end Act

namespace CountDownLatch

variable {T : Type*} [DecidableEq T]

/-- The steps that a thread has in front of it, as long as the count stays and nothing more wakes
it. -/
def ahead (s : CountDownLatch T) (t : T) : Nat :=
  match s.place t with
  | .outside => 0
  | .testing => if 0 < s.count then 6 else 3
  | .waits => 5
  | .waiting => if 0 < s.count ∧ t ∈ s.mutex.woken then 7 else 4
  | .leaving => 2
  | .returning => 1
  | .entered => 4
  | .compares => 3
  | .notifies => 2
  | .counted => 1

/-- The places of the threads are those that the mutex and its condition have them at. -/
structure Placed (s : CountDownLatch T) : Prop where
  seated : s.mutex.Seated (fun t => (s.place t).locked = true) (fun t => s.place t = .waiting)
  last : ∀ t, s.place t = .notifies → s.count = 0

omit [DecidableEq T] in
theorem construct_placed (count : Int) : Placed (construct count : CountDownLatch T) where
  seated := Monitor.free_seated (fun _ => nofun) (fun _ => nofun)
  last _ := nofun

section

variable {s s' : CountDownLatch T} {t u : T} {source target : Place} {op : Monitor.Op T Unit}

/-- An operation of one thread, whose places it fits. -/
structure Fits (t : T) (source target : Place) (op : Monitor.Op T Unit) : Prop where
  own : ∀ u, op.takes = some u ∨ op.gives = some u ∨ (∃ c, op = .wait u c) ∨ op = .resume u → u = t
  locks : target.locked = true ↔ op.takes = some t ∨ (source.locked = true ∧ op.gives ≠ some t)
  waits : target = .waiting ↔ (∃ c, op = .wait t c) ∨ (source = .waiting ∧ op ≠ .resume t)
  last : target ≠ .notifies

omit [DecidableEq T] in
theorem Placed.apart (t : T) (held : (s.place t).locked = true) : s.place t ≠ .waiting := by
  intro waits
  rw [waits] at held
  cases held

theorem Placed.moves (placed : Placed s) (fits : Fits t source target op)
    (moved : s.moves t source target op = some s') : Placed s' := by
  obtain ⟨here,mutex,stepped,rfl⟩ := moves_cases moved
  refine ⟨placed.seated.step stepped Placed.apart ?_ ?_,?_⟩
  · apply goes_all fun u place => place.locked = true ↔
      op.takes = some u ∨ ((s.place u).locked = true ∧ op.gives ≠ some u)
    · intro u apart
      have takes : op.takes ≠ some u := fun one => apart (fits.own u (.inl one))
      have gives : op.gives ≠ some u := fun one => apart (fits.own u (.inr (.inl one)))
      exact ⟨fun held => .inr ⟨held,gives⟩,fun either => (either.resolve_left takes).1⟩
    · rw [here]
      exact fits.locks
  · apply goes_all fun u place => place = .waiting ↔
      (∃ c, op = .wait u c) ∨ (s.place u = .waiting ∧ op ≠ .resume u)
    · intro u apart
      have calm : ¬ ∃ c, op = .wait u c := fun one => apart (fits.own u (.inr (.inr (.inl one))))
      have stays : op ≠ .resume u := fun one => apart (fits.own u (.inr (.inr (.inr one))))
      exact ⟨fun waits => .inr ⟨waits,stays⟩,fun either => (either.resolve_left calm).1⟩
    · rw [here]
      exact fits.waits
  · exact goes_all (fun _ place => place = .notifies → s.count = 0) (fun u _ => placed.last u)
      fun one => absurd one fits.last

/-- A step inside the critical section, or outside of it, that leaves the mutex alone. -/
theorem Placed.goes (placed : Placed s) (here : s.place t = source)
    (locks : target.locked = source.locked) (calm : source ≠ .waiting ∧ target ≠ .waiting)
    (last : target = .notifies → s.count = 0) : Placed (s.goes t target) := by
  refine ⟨⟨?_,?_,placed.seated.once⟩,?_⟩
  · apply goes_all fun u place => s.mutex.owner = some u ↔ place.locked = true
    · exact fun u _ => placed.seated.owner u
    · rw [locks,← here]
      exact placed.seated.owner t
  · apply goes_all fun u place => u ∈ s.mutex.inside ↔ place = .waiting
    · exact fun u _ => placed.seated.waits u
    · rw [placed.seated.waits t,here]
      exact ⟨fun waits => absurd waits calm.1,fun waits => absurd waits calm.2⟩
  · exact goes_all (fun _ place => place = .notifies → s.count = 0) (fun u _ => placed.last u) last

theorem Placed.decrement (placed : Placed s) (here : s.place t = .entered) :
    Placed {s.goes t .compares with count := s.count - 1} := by
  have moved : Placed (s.goes t .compares) := placed.goes here rfl ⟨nofun,nofun⟩ nofun
  refine ⟨moved.seated,fun u notifies => ?_⟩
  -- who notifies has the mutex, and that is the thread that counts down
  have held := (moved.seated.owner u).mpr (by rw [notifies]; rfl)
  have own : (s.goes t .compares).mutex.owner = some t :=
    (moved.seated.owner t).mpr (by rw [goes_self]; rfl)
  obtain rfl := Option.some.inj (own.symm.trans held)
  rw [goes_self] at notifies
  cases notifies

theorem step_placed {act : Act T} (placed : Placed s) (stepped : Steps s act s') : Placed s' := by
  cases act with
  | enterWait t => exact placed.moves (by constructor <;> simp) stepped
  | test t =>
    obtain ⟨here,done⟩ := Option.ite_none_right_eq_some.mp stepped
    cases done
    split
    · exact placed.goes here rfl ⟨nofun,nofun⟩ nofun
    · exact placed.goes here rfl ⟨nofun,nofun⟩ nofun
  | block t => exact placed.moves (by constructor <;> simp) stepped
  | wake t => exact placed.moves (by constructor <;> simp) stepped
  | resume t => exact placed.moves (by constructor <;> simp) stepped
  | unlockWait t => exact placed.moves (by constructor <;> simp) stepped
  | returnWait t =>
    obtain ⟨here,done⟩ := Option.ite_none_right_eq_some.mp stepped
    cases done
    exact placed.goes here rfl ⟨nofun,nofun⟩ nofun
  | enterCountDown t => exact placed.moves (by constructor <;> simp) stepped
  | decrement t =>
    obtain ⟨⟨here,_⟩,done⟩ := Option.ite_none_right_eq_some.mp stepped
    cases done
    exact placed.decrement here
  | compare t =>
    obtain ⟨here,done⟩ := Option.ite_none_right_eq_some.mp stepped
    cases done
    split
    · exact placed.goes here rfl ⟨nofun,nofun⟩ fun _ => ‹_›
    · exact placed.goes here rfl ⟨nofun,nofun⟩ nofun
  | notifyAll t => exact placed.moves (by constructor <;> simp) stepped
  | unlockCountDown t => exact placed.moves (by constructor <;> simp) stepped

theorem goes_count : (s.goes t target).count = s.count := rfl

theorem ahead_le (place : s'.place u = s.place u) (count : s'.count ≤ s.count)
    (woken : 0 < s'.count → u ∈ s'.mutex.woken → u ∈ s.mutex.woken) : s'.ahead u ≤ s.ahead u := by
  unfold ahead
  rw [place]
  cases s.place u with
  | testing =>
    dsimp only
    split <;> split <;> omega
  | waiting =>
    dsimp only
    split
    · rename_i awake
      exact Nat.le_of_eq (if_pos ⟨Int.lt_of_lt_of_le awake.1 count,woken awake.1 awake.2⟩).symm
    · split <;> omega
  | _ => exact Nat.le_refl _

theorem ahead_moves (apart : u ≠ t) (moved : s.moves t source target op = some s')
    (quiet : 0 < s.count → op ≠ .wake u ∧ (∀ c, op ≠ .signal c (some u)) ∧ ∀ c, op ≠ .broadcast c) :
    s'.ahead u ≤ s.ahead u := by
  obtain ⟨_,mutex,stepped,rfl⟩ := moves_cases moved
  refine ahead_le (goes_other apart) (Int.le_refl _) fun positive later => ?_
  obtain ⟨wake,signal,broadcast⟩ := quiet positive
  rcases Monitor.step_woken stepped later with before | one | ⟨c,one⟩ | ⟨c,one⟩
  · exact before
  · exact absurd one wake
  · exact absurd one (signal c)
  · exact absurd one (broadcast c)

/-- What the other threads do puts nothing in front of a thread. -/
theorem ahead_others {act : Act T} (placed : Placed s) (stepped : Steps s act s')
    (apart : u ≠ act.thread) : s'.ahead u ≤ s.ahead u := by
  cases act with
  | test t | returnWait t | compare t =>
    obtain ⟨_,done⟩ := Option.ite_none_right_eq_some.mp stepped
    cases done
    exact ahead_le (goes_other apart) (Int.le_refl _) fun _ => id
  | decrement t =>
    obtain ⟨_,done⟩ := Option.ite_none_right_eq_some.mp stepped
    cases done
    refine ahead_le (goes_other apart) ?_ fun _ => id
    dsimp only
    omega
  | wake t =>
    exact ahead_moves apart stepped fun _ => ⟨fun same => apart (Monitor.Op.wake.inj same).symm,nofun,nofun⟩
  | notifyAll t =>
    obtain ⟨here,_⟩ := moves_cases stepped
    refine ahead_moves apart stepped fun positive => ?_
    rw [placed.last t here] at positive
    cases positive
  | enterWait t | block t | resume t | unlockWait t | enterCountDown t | unlockCountDown t =>
    exact ahead_moves apart stepped fun _ => ⟨nofun,nofun,nofun⟩

/-- A step of a call that goes on leaves less in front of its thread; only a new call and a wait
that is over by itself put more there. -/
theorem ahead_own {act : Act T} (placed : Placed s) (stepped : Steps s act s') :
    s'.ahead act.thread + (if act.goesOn then 1 else 0) ≤
      s.ahead act.thread + (if act.begins then 6 else 0) + (if act.spurious then 3 else 0) := by
  cases act with
  | test t =>
    obtain ⟨here,done⟩ := Option.ite_none_right_eq_some.mp stepped
    cases done
    by_cases positive : 0 < s.count
    · simp [ahead,Act.thread,Act.goesOn,Act.begins,Act.spurious,goes_self,here,positive]
    · simp [ahead,Act.thread,Act.goesOn,Act.begins,Act.spurious,goes_self,here,positive]
  | returnWait t =>
    obtain ⟨here,done⟩ := Option.ite_none_right_eq_some.mp stepped
    cases done
    simp [ahead,Act.thread,Act.goesOn,Act.begins,Act.spurious,goes_self,here]
  | compare t =>
    obtain ⟨here,done⟩ := Option.ite_none_right_eq_some.mp stepped
    cases done
    by_cases zero : s.count = 0
    · simp [ahead,Act.thread,Act.goesOn,Act.begins,Act.spurious,goes_self,here,zero]
    · simp [ahead,Act.thread,Act.goesOn,Act.begins,Act.spurious,goes_self,here,zero]
  | decrement t =>
    obtain ⟨⟨here,_⟩,done⟩ := Option.ite_none_right_eq_some.mp stepped
    cases done
    simp [ahead,Act.thread,Act.goesOn,Act.begins,Act.spurious,goes_self,here]
  | block t =>
    obtain ⟨here,mutex,waited,rfl⟩ := moves_cases stepped
    have apart : t ∉ s.mutex.inside := fun waits => by
      rw [placed.seated.waits t,here] at waits
      cases waits
    have asleep : t ∉ mutex.woken := by
      cases Monitor.step_does waited with
      | wait => exact fun woken => apart (List.mem_append_right _ woken)
    simp [ahead,Act.thread,Act.goesOn,Act.begins,Act.spurious,goes_self,here,asleep]
  | resume t =>
    obtain ⟨here,mutex,resumed,rfl⟩ := moves_cases stepped
    have woken : t ∈ s.mutex.woken := by
      cases Monitor.step_does resumed with
      | resume _ _ waits => exact waits
    by_cases positive : 0 < s.count
    · simp [ahead,Act.thread,Act.goesOn,Act.begins,Act.spurious,goes_self,here,goes_count,woken,positive]
    · simp [ahead,Act.thread,Act.goesOn,Act.begins,Act.spurious,goes_self,here,goes_count,positive]
  | enterWait t =>
    obtain ⟨here,mutex,_,rfl⟩ := moves_cases stepped
    simp only [ahead,Act.thread,Act.goesOn,Act.begins,Act.spurious,goes_self,here]
    split <;> simp
  | wake t =>
    obtain ⟨here,mutex,_,rfl⟩ := moves_cases stepped
    have most : (if 0 < s.count ∧ t ∈ mutex.woken then 7 else 4) ≤ 7 := by split <;> omega
    have least : 4 ≤ if 0 < s.count ∧ t ∈ s.mutex.woken then 7 else 4 := by split <;> omega
    simp only [ahead,Act.thread,Act.goesOn,Act.begins,Act.spurious,goes_self,here,goes_count]
    exact Nat.le_trans most (Nat.add_le_add_right least 3)
  | unlockWait t | enterCountDown t | notifyAll t | unlockCountDown t =>
    obtain ⟨here,mutex,_,rfl⟩ := moves_cases stepped
    simp [ahead,Act.thread,Act.goesOn,Act.begins,Act.spurious,goes_self,here]

/-- Where the threads stand when no call can go on. -/
theorem stuck_places (kept : Kept s) (placed : Placed s) (fits : ∀ t, s.place t = .entered → -2^31 < s.count)
    (stuck : ∀ act, act.goesOn = true → s.step act = none) (t : T) :
    s.place t = .outside ∨ (s.place t = .waiting ∧ (t,()) ∈ s.mutex.blocked ∧ 0 < s.count) := by
  have moves : ∀ {t source target op mutex}, s.place t = source → s.mutex.step op = some mutex →
      s.moves t source target op ≠ none := by
    intro t source target op mutex here stepped
    simp [CountDownLatch.moves,here,stepped]
  -- a thread that has the mutex can go on
  have free : ∀ u, s.mutex.owner ≠ some u := by
    intro u owned
    have held := (placed.seated.owner u).mp owned
    have unlocks : s.mutex.step (.unlock u) = some {s.mutex with owner := none} := if_pos owned
    cases here : s.place u with
    | testing => simpa [step,here] using stuck (.test u) rfl
    | waits =>
      have blocks : s.mutex.step (.wait u ()) =
          some {s.mutex with owner := none,blocked := (u,()) :: s.mutex.blocked} := if_pos owned
      exact moves here blocks (stuck (.block u) rfl)
    | leaving => exact moves here unlocks (stuck (.unlockWait u) rfl)
    | entered =>
      have done := stuck (.decrement u) rfl
      rw [step,if_pos ⟨here,fits u here⟩] at done
      cases done
    | compares => simpa [step,here] using stuck (.compare u) rfl
    | notifies =>
      have notified : s.mutex.step (.broadcast ()) = some (s.mutex.wakesAll ()) := rfl
      exact moves here notified (stuck (.notifyAll u) rfl)
    | counted => exact moves here unlocks (stuck (.unlockCountDown u) rfl)
    | outside | waiting | returning =>
      rw [here] at held
      cases held
  have idle : s.mutex.owner = none := Option.eq_none_iff_forall_ne_some.mpr free
  cases here : s.place t with
  | outside => exact .inl rfl
  | returning => simpa [step,here] using stuck (.returnWait t) rfl
  | waiting =>
    right
    rcases List.mem_append.mp ((placed.seated.waits t).mpr here) with blocked | woken
    · obtain ⟨⟨_,_⟩,member,rfl⟩ := List.mem_map.mp blocked
      refine ⟨rfl,member,?_⟩
      refine (kept.answered _ _ member).resolve_right fun owes => ?_
      obtain ⟨u,place⟩ := owes
      refine free u ((placed.seated.owner u).mpr ?_)
      rcases place with one | ⟨one,_⟩ <;> rw [one] <;> rfl
    · have resumes : s.mutex.step (.resume t) =
          some {s.mutex with owner := some t,woken := s.mutex.woken.erase t} := if_pos ⟨idle,woken⟩
      exact absurd (stuck (.resume t) rfl) (moves here resumes)
  | testing | waits | leaving | entered | compares | notifies | counted =>
    exact absurd ((placed.seated.owner t).mpr (by rw [here]; rfl)) (free t)

/-- What is left of the count, when so many calls of `countDown` have begun. -/
structure Tallied (count : Int) (s : CountDownLatch T) : Prop where
  entered : ∀ t, s.place t = .entered → s.count = count + 1
  clear : (∀ t, s.place t ≠ .entered) → s.count = count

omit [DecidableEq T] in
theorem construct_tallied (count : Int) : Tallied count (construct count : CountDownLatch T) where
  entered _ := nofun
  clear _ := rfl

omit [DecidableEq T] in
theorem Tallied.stays {count : Int} (tallied : Tallied count s) (same : s'.count = s.count)
    (places : ∀ u, s'.place u = .entered ↔ s.place u = .entered) : Tallied count s' where
  entered u one := same.trans (tallied.entered u ((places u).mp one))
  clear none := same.trans (tallied.clear fun u one => none u ((places u).mpr one))

theorem Tallied.goes {count : Int} (tallied : Tallied count s) (here : s.place t = source)
    (same : s'.count = s.count) (place : s'.place = (s.goes t target).place)
    (apart : source ≠ .entered ∧ target ≠ .entered) : Tallied count s' := by
  refine tallied.stays same ?_
  rw [place]
  apply goes_all fun u place => place = .entered ↔ s.place u = .entered
  · exact fun _ _ => Iff.rfl
  · rw [here]
    exact ⟨fun one => absurd one apart.2,fun one => absurd one apart.1⟩

theorem Tallied.moves {count : Int} (tallied : Tallied count s)
    (moved : s.moves t source target op = some s') (apart : source ≠ .entered ∧ target ≠ .entered) :
    Tallied count s' := by
  obtain ⟨here,mutex,_,rfl⟩ := moves_cases moved
  exact tallied.goes here rfl rfl apart

theorem step_tallied {count : Int} {act : Act T} (placed : Placed s) (tallied : Tallied count s)
    (stepped : Steps s act s') : Tallied (count - if act.countsDown then 1 else 0) s' := by
  have other : act.countsDown = false → Tallied count s' →
      Tallied (count - if act.countsDown then 1 else 0) s' := by
    intro no tallied
    simpa [no] using tallied
  cases act with
  | test t =>
    obtain ⟨here,done⟩ := Option.ite_none_right_eq_some.mp stepped
    cases done
    refine other rfl (tallied.goes here rfl rfl ⟨nofun,?_⟩)
    split <;> nofun
  | returnWait t =>
    obtain ⟨here,done⟩ := Option.ite_none_right_eq_some.mp stepped
    cases done
    exact other rfl (tallied.goes here rfl rfl ⟨nofun,nofun⟩)
  | compare t =>
    obtain ⟨here,done⟩ := Option.ite_none_right_eq_some.mp stepped
    cases done
    refine other rfl (tallied.goes here rfl rfl ⟨nofun,?_⟩)
    split <;> nofun
  | enterCountDown t =>
    obtain ⟨here,mutex,locked,rfl⟩ := moves_cases stepped
    have free : s.mutex.owner = none := by
      cases Monitor.step_does locked with
      | lock _ free => exact free
    have clear : s.count = count := tallied.clear fun u one => by
      have owned := (placed.seated.owner u).mpr (by rw [one]; rfl)
      rw [free] at owned
      cases owned
    refine ⟨fun u _ => ?_,fun none => absurd goes_self (none t)⟩
    show s.count = count - 1 + 1
    omega
  | decrement t =>
    obtain ⟨⟨here,_⟩,done⟩ := Option.ite_none_right_eq_some.mp stepped
    cases done
    have counted := tallied.entered t here
    refine other rfl ⟨fun u one => ?_,fun _ => ?_⟩
    · have owned := (placed.seated.owner t).mpr (by rw [here]; rfl)
      by_cases apart : u = t
      · rw [apart] at one
        cases goes_self.symm.trans one
      · have before : s.place u = .entered := (goes_other apart).symm.trans one
        have owned' := (placed.seated.owner u).mpr (by rw [before]; rfl)
        exact absurd (Option.some.inj (owned'.symm.trans owned)) apart
    · show s.count - 1 = count
      omega
  | enterWait t | block t | wake t | resume t | unlockWait t | notifyAll t | unlockCountDown t =>
    exact other rfl (tallied.moves stepped ⟨nofun,nofun⟩)

theorem run_ahead {acts : List (Act T)} (run : Run Steps s acts s') (placed : Placed s) (t : T) :
    s'.ahead t + acts.countP (fun act => act.thread = t && act.goesOn) ≤ s.ahead t +
      6 * acts.countP (fun act => act.thread = t && act.begins) +
      3 * acts.countP (fun act => act.thread = t && act.spurious) := by
  induction run with
  | nil s => simp
  | @cons s middle s' act acts first rest ih =>
    have later := ih (step_placed placed first)
    simp only [List.countP_cons]
    by_cases own : act.thread = t
    · have step := ahead_own placed first
      rw [own] at step
      simp only [own,decide_true,Bool.true_and]
      split at step <;> split at step <;> split at step <;> simp_all <;> omega
    · have step := ahead_others placed first (Ne.symm own)
      simp only [own,decide_false,Bool.false_and,Bool.false_eq_true,if_false]
      omega

theorem run_tallied {count : Int} {acts : List (Act T)} (run : Run Steps s acts s')
    (placed : Placed s) (tallied : Tallied count s) :
    Placed s' ∧ Tallied (count - acts.countP Act.countsDown) s' := by
  induction run generalizing count with
  | nil s => simpa using ⟨placed,tallied⟩
  | @cons s middle s' act acts first rest ih =>
    obtain ⟨there,told⟩ := ih (step_placed placed first) (step_tallied placed tallied first)
    refine ⟨there,?_⟩
    have sum : count - (act :: acts).countP Act.countsDown =
        (count - if act.countsDown then 1 else 0) - acts.countP Act.countsDown := by
      rw [List.countP_cons]
      split
      · simp
        omega
      · simp
    rwa [sum]

end

/-- In every run a thread takes at most six steps for each of its calls and three more for each time
that its wait is over by itself. Where no call can go on, all of them have returned, unless there
were too few calls of `countDown` for a `wait`. -/
theorem calls_return (count : Int) {acts : List (Act T)} {s : CountDownLatch T}
    (run : Run Steps (construct count) acts s) :
    (∀ t, acts.countP (fun act => act.thread = t && act.goesOn) ≤
        6 * acts.countP (fun act => act.thread = t && act.begins) +
          3 * acts.countP (fun act => act.thread = t && act.spurious)) ∧
      (-2^31 ≤ count - acts.countP Act.countsDown →
        (∀ act, act.goesOn = true → s.step act = none) → ∀ t, s.place t = .outside ∨
          (s.place t = .waiting ∧ (t,()) ∈ s.mutex.blocked ∧ acts.countP Act.countsDown < count)) := by
  have kept : Kept s := run.invariant Kept (fun _ _ _ => step_kept) (construct_kept count)
  obtain ⟨placed,tallied⟩ := run_tallied run (construct_placed count) (construct_tallied count)
  refine ⟨fun t => ?_,fun fits stuck => ?_⟩
  · have bound := run_ahead run (construct_placed count) t
    simp only [ahead,construct,Nat.zero_add] at bound
    exact Nat.le_trans (Nat.le_add_left ..) bound
  · have places := stuck_places kept placed
      (fun t one => by have left := tallied.entered t one; omega) stuck
    have clear : s.count = count - acts.countP Act.countsDown := tallied.clear fun t one => by
      rcases places t with other | ⟨other,_⟩ <;> rw [one] at other <;> cases other
    intro t
    refine (places t).imp_right fun ⟨waits,blocked,positive⟩ => ⟨waits,blocked,?_⟩
    omega

/-- A thread waits, is woken for nothing, waits again and returns behind the only count. -/
def wokenTwice : List (Act Bool) :=
  [.enterWait true,.test true,.block true,.wake true,.resume true,.test true,.block true,
    .enterCountDown false,.decrement false,.compare false,.notifyAll false,.unlockCountDown false,
    .resume true,.test true,.unlockWait true,.returnWait true]

theorem calls_return_woken : ∃ s, perform step (construct 1) wokenTwice = some s ∧
    wokenTwice.countP (fun act => act.thread = true && act.goesOn) ≤ 9 ∧
      ∀ t, s.place t = .outside ∨ (s.place t = .waiting ∧ (t,()) ∈ s.mutex.blocked ∧
        wokenTwice.countP Act.countsDown < (1 : Int)) := by
  have taken : (perform step (construct 1) wokenTwice).isSome = true := by decide
  have returns := calls_return 1 (perform_get (fun _ _ _ done => done) taken)
  refine ⟨_,(Option.some_get taken).symm,returns.1 true,returns.2 (by decide) fun act goes => ?_⟩
  cases act with
  | enterWait t | enterCountDown t | wake t => cases goes
  | _ t => cases t <;> rfl

end CountDownLatch

end Deon.Threading
