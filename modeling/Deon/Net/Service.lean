import Deon.Net.Accepting
import Deon.Net.Clients
import Deon.Net.Lineage

/-! The whole server: the thread that accepts and leaves its connections with the loops, the loops
with their connections, and the table of content types that all of them look up in, one at a
time: with two threads in it there is no next state. -/
namespace Deon.Net
open Library Http

/-- `looking` is the loop whose thread is in the table, `turns` the history of the loop in
`newConnection`. -/
structure Service where
  root : Bytes
  pool : EventLoopThreadPool
  mimeType : MimeType
  looking : Option Loop
  loops : Loop → Tabled
  turns : List Arrival

namespace Service

def start (n : Int32) (root : Bytes) (clock : Loop → Timeval) : Service where
  root := root
  pool := .start (.construct .base n)
  mimeType := Http.mimeType
  looking := none
  loops ioLoop := .start (clock ioLoop) Http.mimeType
  turns := []

/-- A loop, which finds the table as the others have left it. -/
def view (ioLoop : Loop) (s : Service) : Tabled :=
  {s.loops ioLoop with
    mimeType := s.mimeType
    looking := s.looking.any fun other => decide (other ≠ ioLoop)}

def move (ioLoop : Loop) (action : IoLoop.Action) (s : Service) : Option Service := do
  let t ← (s.view ioLoop).next (.loop action)
  return {s with mimeType := t.mimeType,loops := Function.update s.loops ioLoop t}

/-- What becomes of a descriptor. Where there are no threads its `Http` is registered at once. -/
def enact (granted : Bool) (s : Service) : Fate → Option Service
  | .queued ioLoop fd => s.move ioLoop (.accept fd.toNat s.root s.mimeType)
  | .registered ioLoop fd => do
    let accepted ← s.move ioLoop (.accept fd.toNat s.root s.mimeType)
    accepted.move ioLoop (.register (s.loops ioLoop).loop.nextObject granted)
  | .closed _ => some s

/-- One turn of the loop in `newConnection`, with what `epoll_ctl` says where it is asked; a step of
one of the loops; or its thread begins to look up for the event that it is handed next. -/
inductive Act
  | turn (arrival : Arrival) (granted : Bool)
  | io (ioLoop : Loop) (action : IoLoop.Action)
  | enter (ioLoop : Loop)

/-- What the thread that is in the table does: it handles its event. -/
def leave (ioLoop : Loop) (s : Service) : IoLoop.Action → Option Service
  | .dispatch event =>
    if (s.view ioLoop).looksUp event then
      (s.move ioLoop (.dispatch event)).map fun s => {s with looking := none}
    else none
  | _ => none

/-- Nothing but a turn brings a connection; it is the base loop that takes it. -/
def step (s : Service) : Act → Option Service
  | .turn arrival granted =>
    if arrival.acceptFd > 0 ∧ s.looking ≠ some .base then
      match newConnection s.pool [arrival] with
      | .ok batch => batch.fates.foldlM (enact granted)
          {s with pool := batch.pool,turns := s.turns ++ [arrival]}
      | .error _ => none
    else none
  | .io ioLoop action =>
    if IoLoop.Brings action then none
    else if s.looking = some ioLoop then s.leave ioLoop action
    else s.move ioLoop action
  | .enter ioLoop =>
    if s.looking = none ∧ (s.loops ioLoop).loop.activeChannels ≠ [] then
      some {s with looking := some ioLoop}
    else none

def Steps (s : Service) (act : Act) (s' : Service) : Prop := s.step act = some s'

section

variable {t t' : Tabled} {action : IoLoop.Action}

theorem goes_grown (stepped : Tabled.Steps t (.loop action) t') :
    Grown t.mimeType t'.mimeType ∧ t'.looking = t.looking := by
  cases action with
  | dispatch event =>
    obtain ⟨s,moved,rfl⟩ := Tabled.goOn_steps (Tabled.dispatch_goes stepped)
    obtain ⟨i,rest,h,called,_,_,ran,handed,_⟩ := Tabled.hand_steps moved
    dsimp only
    rw [handed]
    exact ⟨@IoLoop.callbacks_types event {h.members with mime := t.mimeType} called
      (Grown t.mimeType) (Grown.looks t.mimeType) .same ran,rfl⟩
  | _ =>
    obtain ⟨s,moved,rfl⟩ := Tabled.goOn_steps stepped
    exact ⟨.same,rfl⟩

theorem goes_still (still : ∀ event, action ≠ .dispatch event)
    (stepped : Tabled.Steps t (.loop action) t') : t'.mimeType = t.mimeType := by
  cases action with
  | dispatch event => exact absurd rfl (still event)
  | _ =>
    obtain ⟨s,moved,rfl⟩ := Tabled.goOn_steps stepped
    rfl

/-- While another thread is in the table a step leaves it as it is, or ends the program. -/
theorem goes_beside (beside : t.looking = true) (stepped : Tabled.Steps t (.loop action) t') :
    t'.mimeType = t.mimeType := by
  cases action with
  | dispatch event =>
    have calm : t.looksUp event = false := by
      cases looks : t.looksUp event with
      | false => rfl
      | true =>
        unfold Tabled.Steps Tabled.step at stepped
        simp [beside,looks] at stepped
    obtain ⟨s,moved,rfl⟩ := Tabled.goOn_steps (Tabled.dispatch_goes stepped)
    obtain ⟨i,rest,h,called,first,found,ran,handed,_⟩ := Tabled.hand_steps moved
    obtain ⟨added,same,typed⟩ := IoLoop.callbacks_untyped ran
    rw [handed]
    refine typed.resolve_left fun asks => ?_
    simp [Tabled.looksUp,first,found,ran,same,asks] at calm
  | _ => exact goes_still (fun _ same => by cases same) stepped

end

section

variable {s s' : Service} {ioLoop other : Loop} {action : IoLoop.Action}

theorem move_cases (moved : s.move ioLoop action = some s') :
    ∃ t, Tabled.Steps (s.view ioLoop) (.loop action) t ∧
      s' = {s with mimeType := t.mimeType,loops := Function.update s.loops ioLoop t} := by
  obtain ⟨t,next,done⟩ := Option.bind_eq_some_iff.mp moved
  exact ⟨t,Tabled.next_steps _ _ _ next,(Option.some.inj done).symm⟩

theorem leave_cases (left : s.leave ioLoop action = some s') :
    ∃ middle, s.move ioLoop action = some middle ∧ s' = {middle with looking := none} := by
  cases action with
  | dispatch event =>
    obtain ⟨_,moved⟩ := Option.ite_none_right_eq_some.mp left
    obtain ⟨middle,done,rfl⟩ := Option.map_eq_some_iff.mp moved
    exact ⟨middle,done,rfl⟩
  | _ => cases left

/-- The loop that has made a step stands behind it. -/
theorem view_own {t : Tabled} (looking : t.looking = (s.view ioLoop).looking) : view ioLoop {s with
    mimeType := t.mimeType
    loops := Function.update s.loops ioLoop t} = t := by
  unfold view
  dsimp only
  rw [Function.update_self]
  exact congrArg (fun looking => {t with looking := looking}) looking.symm

theorem view_other {t : Tabled} (apart : other ≠ ioLoop) : view other {s with
    mimeType := t.mimeType
    loops := Function.update s.loops ioLoop t} = {s.view other with mimeType := t.mimeType} := by
  unfold view
  dsimp only
  rw [Function.update_of_ne apart]

/-- A step of one loop is its own step to itself. To every other loop it is nothing, or lookups in
the table that no other thread is in. -/
theorem move_projects (moved : s.move ioLoop action = some s')
    (outside : s.looking ≠ some ioLoop ∨ ∀ event, action ≠ .dispatch event) (other : Loop) :
    ∃ actions, Run Tabled.Steps (s.view other) actions (s'.view other) := by
  obtain ⟨t,stepped,rfl⟩ := move_cases moved
  obtain ⟨grown,looking⟩ := goes_grown stepped
  by_cases own : other = ioLoop
  · subst own
    rw [view_own looking]
    exact ⟨[.loop action],.cons stepped (.nil _)⟩
  rw [view_other own]
  rcases outside with outside | still
  swap
  · rw [goes_still still stepped]
    exact ⟨[],.nil _⟩
  cases inside : s.looking with
  | some k =>
    have beside : (s.view ioLoop).looking = true := by
      have apart : k ≠ ioLoop := fun same => outside (inside.trans (congrArg some same))
      simp [view,inside,apart]
    rw [goes_beside beside stepped]
    exact ⟨[],.nil _⟩
  | none =>
    obtain ⟨keys,found⟩ := grown.keys
    have free : (s.view other).looking = false := by simp [view,inside]
    have enters : Tabled.Steps (s.view other) .enter {s.view other with looking := true} := by
      simp [Tabled.Steps,Tabled.step,free]
    have leaves : Tabled.Steps {s.view other with looking := true} (.leave keys)
        {s.view other with mimeType := t.mimeType} := by
      unfold Tabled.Steps Tabled.step
      dsimp only
      rw [if_pos rfl,found,free]
      rfl
    exact ⟨[.enter,.leave keys],.cons enters (.cons leaves (.nil _))⟩

theorem leave_projects (left : s.leave ioLoop action = some s') (inside : s.looking = some ioLoop)
    (other : Loop) : ∃ actions, Run Tabled.Steps (s.view other) actions (s'.view other) := by
  obtain ⟨middle,moved,rfl⟩ := leave_cases left
  obtain ⟨t,stepped,rfl⟩ := move_cases moved
  obtain ⟨grown,looking⟩ := goes_grown stepped
  by_cases own : other = ioLoop
  · subst own
    have free : (s.view other).looking = false := by simp [view,inside]
    have behind : view other {s with
        mimeType := t.mimeType
        loops := Function.update s.loops other t
        looking := none} = t := by
      unfold view
      dsimp only
      rw [Function.update_self]
      exact congrArg (fun looking => {t with looking := looking}) (looking.trans free).symm
    rw [behind]
    exact ⟨[.loop action],.cons stepped (.nil _)⟩
  · obtain ⟨keys,found⟩ := grown.keys
    have beside : (s.view other).looking = true := by
      have apart : ioLoop ≠ other := fun same => own same.symm
      simp [view,inside,apart]
    have behind : view other {s with
        mimeType := t.mimeType
        loops := Function.update s.loops ioLoop t
        looking := none} = {s.view other with mimeType := t.mimeType,looking := false} := by
      unfold view
      dsimp only
      rw [Function.update_of_ne own]
      rfl
    have leaves : Tabled.Steps (s.view other) (.leave keys)
        {s.view other with mimeType := t.mimeType,looking := false} := by
      rw [found]
      exact if_pos beside
    rw [behind]
    exact ⟨[.leave keys],.cons leaves (.nil _)⟩

theorem enact_projects {granted : Bool} {fate : Fate} (enacted : enact granted s fate = some s')
    (other : Loop) : ∃ actions, Run Tabled.Steps (s.view other) actions (s'.view other) := by
  cases fate with
  | queued => exact move_projects enacted (.inr fun _ same => by cases same) other
  | registered ioLoop fd =>
    obtain ⟨middle,accepted,registered⟩ := Option.bind_eq_some_iff.mp enacted
    obtain ⟨before,first⟩ := move_projects accepted (.inr fun _ same => by cases same) other
    obtain ⟨after,last⟩ := move_projects registered (.inr fun _ same => by cases same) other
    exact ⟨before ++ after,first.append last⟩
  | closed =>
    cases enacted
    exact ⟨[],.nil _⟩

end

/-- The loop with which the turn of this number leaves its connection. -/
def home (n : Int32) (turn : Nat) : Loop := if 1 ≤ n.toInt then .io (turn % n.toInt.toNat) else .base

/-- The descriptors that these turns left with the loop. -/
def left (n : Int32) (turns : List Arrival) (ioLoop : Loop) : List Int :=
  (turns.zipIdx.filter fun one => home n one.2 = ioLoop ∧ 0 ≤ one.1.nonBlocking).map
    fun one => one.1.acceptFd

theorem left_append (n : Int32) (turns : List Arrival) (arrival : Arrival) (ioLoop : Loop) :
    left n (turns ++ [arrival]) ioLoop = left n turns ioLoop ++
      if home n turns.length = ioLoop ∧ 0 ≤ arrival.nonBlocking then [arrival.acceptFd] else [] := by
  unfold left
  rw [List.zipIdx_append,List.filter_append,List.map_append]
  congr 1
  by_cases own : home n turns.length = ioLoop ∧ 0 ≤ arrival.nonBlocking <;> simp [own]

theorem left_prefix (n : Int32) (turns later : List Arrival) (ioLoop : Loop) :
    left n turns ioLoop <+: left n (turns ++ later) ioLoop := by
  induction later using List.reverseRecOn with
  | nil => rw [List.append_nil]
  | append_singleton later arrival ih =>
    rw [← List.append_assoc,left_append]
    exact ih.trans (List.prefix_append _ _)

/-- The number that its loop gives to the connection of a turn. -/
theorem left_number (n : Int32) {turns : List Arrival} {j : Nat} {arrival : Arrival}
    (turn : turns[j]? = some arrival) (works : 0 ≤ arrival.nonBlocking) :
    (left n turns (home n j))[(left n (turns.take j) (home n j)).length]? = some arrival.acceptFd := by
  obtain ⟨inside,same⟩ := List.getElem?_eq_some_iff.mp turn
  have parts : turns.take j ++ [arrival] ++ turns.drop (j + 1) = turns := by
    rw [← same,List.take_append_getElem inside,List.take_append_drop]
  have upTo := left_append n (turns.take j) arrival (home n j)
  have before : (turns.take j).length = j := List.length_take_of_le inside.le
  rw [before,if_pos ⟨rfl,works⟩] at upTo
  have inFront := left_prefix n (turns.take j ++ [arrival]) (turns.drop (j + 1)) (home n j)
  rw [parts,upTo] at inFront
  obtain ⟨later,whole⟩ := inFront
  rw [← whole,List.append_assoc,List.getElem?_append_right (Nat.le_refl _),Nat.sub_self]
  rfl

/-- The pool gives out the loops in turns, and every loop has made the objects of its connections. -/
structure Settled (n : Int32) (s : Service) : Prop where
  turning : 1 ≤ n.toInt → EventLoopThreadPool.Turning n.toInt.toNat s.turns.length s.pool
  alone : n.toInt ≤ 0 → s.pool.loops = [] ∧ s.pool.baseLoop = .base
  homed : ∀ ioLoop, Homed s.root (left n s.turns ioLoop) (s.view ioLoop)

theorem start_settled (n : Int32) (root : Bytes) (clock : Loop → Timeval) :
    Settled n (start n root clock) where
  turning some := EventLoopThreadPool.started_turning .base some
  alone none := ⟨EventLoopThreadPool.started_alone .base none,by
    rw [start,EventLoopThreadPool.started_pool]⟩
  homed ioLoop := .start root (clock ioLoop) Http.mimeType

section

variable {n : Int32} {s s' : Service} {ioLoop : Loop} {action : IoLoop.Action}

theorem Settled.next (settled : Settled n s) (arrival : Arrival) :
    ∃ pool, s.pool.getNextLoop = .ok (home n s.turns.length,pool) ∧
      (1 ≤ n.toInt → EventLoopThreadPool.Turning n.toInt.toNat (s.turns ++ [arrival]).length pool) ∧
      (n.toInt ≤ 0 → pool.loops = [] ∧ pool.baseLoop = .base) := by
  rw [List.length_append,List.length_singleton]
  by_cases some : 1 ≤ n.toInt
  · obtain ⟨pool,next,turned⟩ := (settled.turning some).getNextLoop
    rw [home,if_pos some]
    exact ⟨pool,next,fun _ => turned,fun none => by omega⟩
  · obtain ⟨none,base⟩ := settled.alone (by omega)
    rw [home,if_neg some]
    refine ⟨s.pool,?_,fun one => absurd one some,fun _ => ⟨none,base⟩⟩
    rw [EventLoopThreadPool.getNextLoop,if_pos none,base]

theorem moved_homed {expected expected' : Loop → List Int} {t : Tabled}
    (homed : ∀ other, Homed s.root (expected other) (s.view other))
    (own : Homed s.root (expected' ioLoop) t)
    (others : ∀ other, other ≠ ioLoop → expected' other = expected other) (other : Loop) : Homed s.root (expected' other)
      (view other {s with mimeType := t.mimeType,loops := Function.update s.loops ioLoop t}) := by
  unfold view
  dsimp only
  by_cases same : other = ioLoop
  · subst same
    rw [Function.update_self]
    exact own.table t.mimeType _
  · rw [Function.update_of_ne same,others other same]
    exact (homed other).table t.mimeType _

theorem move_homed {expected : Loop → List Int}
    (homed : ∀ other, Homed s.root (expected other) (s.view other)) (quiet : IoLoop.Brings action = false)
    (moved : s.move ioLoop action = some s') : (s'.root,s'.pool,s'.turns) = (s.root,s.pool,s.turns) ∧
      ∀ other, Homed s.root (expected other) (s'.view other) := by
  obtain ⟨t,stepped,rfl⟩ := move_cases moved
  exact ⟨rfl,moved_homed homed ((homed ioLoop).goes quiet stepped) fun _ _ => rfl⟩

theorem accept_homed {expected expected' : Loop → List Int} {fd : Int} {table : MimeType} (some : 0 < fd)
    (homed : ∀ other, Homed s.root (expected other) (s.view other))
    (own : expected' ioLoop = expected ioLoop ++ [fd])
    (others : ∀ other, other ≠ ioLoop → expected' other = expected other)
    (moved : s.move ioLoop (.accept fd.toNat s.root table) = Option.some s') :
    (s'.root,s'.pool,s'.turns) = (s.root,s.pool,s.turns) ∧
      ∀ other, Homed s.root (expected' other) (s'.view other) := by
  obtain ⟨t,stepped,rfl⟩ := move_cases moved
  refine ⟨rfl,moved_homed homed ?_ others⟩
  have named : ((fd.toNat : Nat) : Int) = fd := Int.toNat_of_nonneg some.le
  have accepted := (homed ioLoop).accept stepped
  rwa [named,← own] at accepted

theorem enact_homed {expected expected' : Loop → List Int} {fd : Int} {granted : Bool} (some : 0 < fd)
    (homed : ∀ other, Homed s.root (expected other) (s.view other))
    (own : expected' ioLoop = expected ioLoop ++ [fd])
    (others : ∀ other, other ≠ ioLoop → expected' other = expected other)
    (enacted : enact granted s (runInLoop ioLoop fd) = Option.some s') :
    (s'.root,s'.pool,s'.turns) = (s.root,s.pool,s.turns) ∧
      ∀ other, Homed s.root (expected' other) (s'.view other) := by
  unfold runInLoop at enacted
  split at enacted
  · obtain ⟨middle,accepted,registered⟩ := Option.bind_eq_some_iff.mp enacted
    obtain ⟨same,there⟩ := accept_homed some homed own others accepted
    obtain ⟨root,_⟩ := Prod.mk.inj same
    rw [← root] at there
    obtain ⟨same',after⟩ := move_homed there rfl registered
    exact ⟨same'.trans same,root ▸ after⟩
  · exact accept_homed some homed own others enacted

theorem Settled.turn (settled : Settled n s) {arrival : Arrival} {granted : Bool}
    (stepped : s.Steps (.turn arrival granted) s') : Settled n s' ∧ s'.root = s.root := by
  obtain ⟨⟨accepted,_⟩,taken⟩ := Option.ite_none_right_eq_some.mp stepped
  obtain ⟨pool,next,turning,alone⟩ := settled.next arrival
  have appended := left_append n s.turns arrival
  rcases lt_or_ge arrival.nonBlocking 0 with fails | works
  · rw [newConnection_returns accepted fails next] at taken
    obtain rfl := Option.some.inj taken
    refine ⟨⟨turning,alone,fun ioLoop => ?_⟩,rfl⟩
    dsimp only
    rw [appended,if_neg fun own => Int.not_le.mpr fails own.2,List.append_nil]
    exact settled.homed ioLoop
  · rw [newConnection_hands accepted works next (Acceptor.newConnection_nil pool)] at taken
    simp only [Batch.handing,List.foldlM_cons,List.foldlM_nil,bind_pure] at taken
    obtain ⟨same,homed⟩ := @enact_homed
      {s with pool := pool,turns := s.turns ++ [arrival]} s' (home n s.turns.length)
      (left n s.turns) (left n (s.turns ++ [arrival])) arrival.acceptFd granted accepted settled.homed
      (by rw [appended,if_pos ⟨rfl,works⟩])
      (fun other apart => by rw [appended,if_neg fun own => apart own.1.symm,List.append_nil]) taken
    obtain ⟨root,pools,turns⟩ : s'.root = s.root ∧ s'.pool = pool ∧ s'.turns = s.turns ++ [arrival] := by
      simpa using same
    refine ⟨⟨?_,?_,?_⟩,root⟩
    · rw [pools,turns]
      exact turning
    · rw [pools]
      exact alone
    · rw [root,turns]
      exact homed

theorem Settled.keeps (settled : Settled n s) (same : (s'.root,s'.pool,s'.turns) = (s.root,s.pool,s.turns))
    (homed : ∀ other, Homed s.root (left n s.turns other) (s'.view other)) :
    Settled n s' ∧ s'.root = s.root := by
  obtain ⟨root,pool,turns⟩ : s'.root = s.root ∧ s'.pool = s.pool ∧ s'.turns = s.turns := by
    simpa using same
  refine ⟨⟨?_,?_,?_⟩,root⟩
  · rw [pool,turns]
    exact settled.turning
  · rw [pool]
    exact settled.alone
  · rw [root,turns]
    exact homed

theorem Settled.step (settled : Settled n s) {act : Act} (stepped : s.Steps act s') :
    Settled n s' ∧ s'.root = s.root := by
  cases act with
  | turn arrival granted => exact settled.turn stepped
  | io ioLoop action =>
    unfold Steps Service.step at stepped
    dsimp only at stepped
    split at stepped
    · cases stepped
    rename_i quiet
    split at stepped
    · obtain ⟨middle,moved,rfl⟩ := leave_cases stepped
      obtain ⟨same,homed⟩ := move_homed settled.homed (Bool.eq_false_iff.mpr quiet) moved
      exact settled.keeps same fun other => (homed other).table middle.mimeType _
    · obtain ⟨same,homed⟩ := move_homed settled.homed (Bool.eq_false_iff.mpr quiet) stepped
      exact settled.keeps same homed
  | enter ioLoop =>
    obtain ⟨_,entered⟩ := Option.ite_none_right_eq_some.mp stepped
    obtain rfl := Option.some.inj entered
    exact settled.keeps rfl fun other => (settled.homed other).table s.mimeType _

/-- The fates of a turn are enacted one after the other. -/
theorem fates_project {granted : Bool} {fates : List Fate}
    (enacted : fates.foldlM (enact granted) s = some s') (other : Loop) :
    ∃ actions, Run Tabled.Steps (s.view other) actions (s'.view other) := by
  induction fates generalizing s with
  | nil =>
    cases enacted
    exact ⟨[],.nil _⟩
  | cons fate fates ih =>
    obtain ⟨middle,first,rest⟩ := Option.bind_eq_some_iff.mp enacted
    obtain ⟨before,one⟩ := enact_projects first other
    obtain ⟨after,last⟩ := ih rest
    exact ⟨before ++ after,one.append last⟩

theorem step_projects {act : Act} (stepped : s.Steps act s') (other : Loop) :
    ∃ actions, Run Tabled.Steps (s.view other) actions (s'.view other) := by
  cases act with
  | turn arrival granted =>
    obtain ⟨_,taken⟩ := Option.ite_none_right_eq_some.mp stepped
    split at taken
    · exact fates_project taken other
    · cases taken
  | io ioLoop action =>
    unfold Steps Service.step at stepped
    dsimp only at stepped
    split at stepped
    · cases stepped
    split at stepped
    · rename_i inside
      exact leave_projects stepped inside other
    · rename_i outside
      exact move_projects stepped (.inl outside) other
  | enter ioLoop =>
    obtain ⟨⟨free,_⟩,entered⟩ := Option.ite_none_right_eq_some.mp stepped
    obtain rfl := Option.some.inj entered
    by_cases own : other = ioLoop
    · have same : view other {s with looking := some ioLoop} = s.view other := by
        simp [view,free,own]
      rw [same]
      exact ⟨[],.nil _⟩
    · have apart : ioLoop ≠ other := fun same => own same.symm
      have enters : Tabled.Steps (s.view other) .enter (view other {s with looking := some ioLoop}) := by
        simp [Tabled.Steps,Tabled.step,view,free,apart]
      exact ⟨[.enter],.cons enters (.nil _)⟩

end

variable {n : Int32} {root : Bytes} {clock : Loop → Timeval} {acts : List Act} {s : Service}

theorem run_settled (run : Run Steps (start n root clock) acts s) : Settled n s ∧ s.root = root := by
  refine run.invariant (fun s => Settled n s ∧ s.root = root) ?_ ⟨start_settled n root clock,rfl⟩
  rintro s act s' ⟨settled,own⟩ stepped
  obtain ⟨next,same⟩ := settled.step stepped
  exact ⟨next,same.trans own⟩

/-- Each loop runs as if it were alone, but for the lookups of the others in the table. -/
theorem run_projects (run : Run Steps (start n root clock) acts s) (ioLoop : Loop) :
    ∃ actions, Run Tabled.Steps (Tabled.start (clock ioLoop) Http.mimeType) actions (s.view ioLoop) :=
  run.projects (view ioLoop) fun _ _ _ stepped => step_projects stepped ioLoop

/-- The client that was accepted in turn `j`, whatever the server does for the others in between, as
long as no two of its threads look up in the table at a time: its object, in the loop whose turn it
was, has its descriptor. When that is registered and was handed these requests, none for the
built-in page, each of which the client writes when it has the reply to the one before, the client
reads one reply for each, as the files below the root say, up to the first that is refused; and the
connection is closed exactly by that one. -/
theorem client_answered (run : Run Steps (start n root clock) acts s) {j : Nat} {arrival : Arrival}
    (turn : s.turns[j]? = some arrival) (works : 0 ≤ arrival.nonBlocking) {t : Tabled}
    (its : s.loops (home n j) = t) {i : Nat} (number : i = (left n (s.turns.take j) (home n j)).length) :
    ∃ m, t.members i = some m ∧
      (∀ h, t.loop.objects i = some h → (h.fd : Int) = arrival.acceptFd ∧ h.members = m) ∧
      ∀ (env : Env) (earlier : Served) (last : Event × Ask), i ∉ t.loop.pendingFunctors →
        t.handed i = (earlier ++ [last]).map Prod.fst →
        (∀ delivery ∈ Served.deliveries (earlier ++ [last]), delivery.Fits env root) →
        (∀ one ∈ earlier, one.2.refusal env root = none) →
        readEach readReply ((earlier ++ [last]).map fun one => one.2.head) m.sent =
            some ((earlier ++ [last]).map fun one => one.2.seen env root,last.2.unread env root) ∧
          (m.err = true ↔ last.2.refusal env root ≠ none) := by
  subst its
  obtain ⟨settled,own⟩ := run_settled run
  obtain ⟨actions,alone⟩ := run_projects run (home n j)
  have homed := settled.homed (home n j)
  have there := left_number n turn works
  rw [← number] at there
  have below : i < (s.view (home n j)).loop.nextObject := by
    rw [homed.number]
    exact (List.getElem?_eq_some_iff.mp there).1
  obtain ⟨m,last⟩ := homed.known i below
  have rooted : m.root = root := (homed.rooted i m last).trans own
  refine ⟨m,last,?_,?_⟩
  · intro h found
    have same := (homed.alive i h found).1.symm.trans there
    have members := (run_alone alone).kept i h found
    exact ⟨Option.some.inj same,Option.some.inj (members.symm.trans last)⟩
  · intro env earlier final registered handed fits kept
    have served := @client_served _ _ _ alone i m last registered env earlier final handed
      (rooted ▸ fits) (rooted ▸ kept)
    rw [rooted] at served
    exact served

/-- The file is asked for with GET, and one that is not there with HEAD. -/
theorem sample_asks : ∃ getA headB : Ask,
    (getA.text = sampleRequest ∧ getA.head = false ∧ getA.line.uri = bytes "a") ∧
      headB.text = bytes "HEAD /b HTTP/1.1\r\nHost: d\r\n\r\n" ∧ headB.head = true ∧
        headB.line.uri = bytes "b" := by
  have host : (∀ one ∈ [(bytes "Host",bytes "d")], FieldName one.1) ∧
      ∀ one ∈ [(bytes "Host",bytes "d")], FieldValue one.2 := by
    simp only [List.forall_mem_singleton,FieldName,FieldValue]
    decide
  refine ⟨⟨⟨.get,bytes "a",none,.http11,by decide,by decide,by simp⟩,[(bytes "Host",bytes "d")],
    .inl rfl,?_,by simp,host.1,host.2⟩,⟨⟨.head,bytes "b",none,.http11,by decide,
    by decide,by simp⟩,[(bytes "Host",bytes "d")],.inr rfl,?_,by simp,host.1,host.2⟩,?_⟩
  · unfold Unmistakable
    decide
  · unfold Unmistakable
    decide
  · exact ⟨⟨rfl,rfl,rfl⟩,rfl,rfl,rfl⟩

/-- The request comes in two reads, and its reply is taken off in three writes. -/
def slowEvent : Event :=
  ⟨sampleEnv,epollIn,[[.received (bytes "GET /a HT"),.failed .eintr,
    .received (bytes "TP/1.1\r\nHost: d\r\n\r\n")]],[[.accepted 10,.failed .eintr,.accepted 5]]⟩

def headEvent : Event :=
  ⟨sampleEnv,epollIn,[[.received (bytes "HEAD /b HTTP/1.1\r\nHost: d\r\n\r\n")]],[]⟩

theorem slow_fits {getA : Ask} (text : getA.text = sampleRequest) (uri : getA.line.uri = bytes "a") :
    (⟨slowEvent,[],getA⟩ : Delivery).Fits sampleEnv [] := by
  have reads : readable epollIn = true := by decide
  refine ⟨⟨rfl,rfl,rfl⟩,reads,by simp [Obliging,slowEvent],⟨_,_,rfl,?_⟩,?_,fun _ => .inl (by simp [sampleEnv])⟩
  · dsimp only
    rw [text]
    exact .chunk 71 _ (.eintr (.chunk 84 _ .exhausted))
  · simp only [Ask.fileName,uri]
    decide

theorem head_fits {headB : Ask} (text : headB.text = bytes "HEAD /b HTTP/1.1\r\nHost: d\r\n\r\n")
    (uri : headB.line.uri = bytes "b") : (⟨headEvent,[],headB⟩ : Delivery).Fits sampleEnv [] := by
  have reads : readable epollIn = true := by decide
  refine ⟨⟨rfl,rfl,rfl⟩,reads,by simp [Obliging,headEvent],⟨_,_,rfl,?_⟩,?_,fun _ => .inl (by simp [sampleEnv])⟩
  · dsimp only
    rw [text]
    exact .chunk 72 _ .exhausted
  · simp only [Ask.fileName,uri]
    decide

/-- With two threads the third client comes to the first loop, where it asks beside a bad request; that
is refused while the second loop looks up in the table. -/
def servedActs : List Act :=
  [.turn ⟨7,0⟩ true,.turn ⟨8,0⟩ true,.turn ⟨9,0⟩ true,.io (.io 0) (.register 0 true),
    .io (.io 0) (.register 1 true),.io (.io 1) (.register 0 true),.io (.io 0) (.poll [9,7]),
    .io (.io 0) (.dispatch slowEvent),.io (.io 1) (.poll [8]),.enter (.io 1),
    .io (.io 0) (.dispatch badLine),.io (.io 1) (.dispatch slowEvent),.io (.io 0) .handled,
    .io (.io 0) .sweep,.io (.io 0) .swept,.io (.io 0) (.poll [9]),.io (.io 0) (.dispatch headEvent)]

def servedStart (clock : Timeval) : Service := start 2 [] fun _ => clock

set_option maxRecDepth 8192 in
theorem served_run : ∃ s, Run Steps (servedStart ⟨0,0,by decide⟩) servedActs s ∧
    s.turns[2]? = some ⟨9,0⟩ ∧ (left 2 (s.turns.take 2) (home 2 2)).length = 1 ∧
      (s.loops (home 2 2)).handed 1 = [slowEvent,headEvent] ∧
        (s.loops (home 2 2)).loop.pendingFunctors = [] := by
  have events : (perform step (servedStart ⟨0,0,by decide⟩) servedActs).map
      (fun s => (s.loops (home 2 2)).handed 1) = some [slowEvent,headEvent] := by rfl
  have state : (perform step (servedStart ⟨0,0,by decide⟩) servedActs).map (fun s =>
      (s.turns,(s.loops (home 2 2)).loop.pendingFunctors)) = some ([⟨7,0⟩,⟨8,0⟩,⟨9,0⟩],[]) := by decide
  obtain ⟨s,played,handed⟩ := Option.map_eq_some_iff.mp events
  rw [played,Option.map_some,Option.some.injEq,Prod.mk.injEq] at state
  obtain ⟨turns,pending⟩ := state
  refine ⟨s,perform_run (fun _ _ _ stepped => stepped) played,?_,?_,handed,pending⟩
  · rw [turns]
    rfl
  · rw [turns]
    decide

theorem client_answered_sample : ∃ s m, ∃ getA headB : Ask,
    Run Steps (servedStart ⟨0,0,by decide⟩) servedActs s ∧
    (s.loops (.io 0)).members 1 = some m ∧ getA.text = sampleRequest ∧ headB.line.uri = bytes "b" ∧
      readEach readReply [getA.head,headB.head] m.sent =
        some ([getA.seen sampleEnv [],headB.seen sampleEnv []],headB.unread sampleEnv []) ∧
      (m.err = true ↔ headB.refusal sampleEnv [] ≠ none) := by
  obtain ⟨s,run,turn,number,handed,pending⟩ := served_run
  obtain ⟨getA,headB,⟨text,_,uri⟩,text',_,uri'⟩ := sample_asks
  have given : getA.refusal sampleEnv [] = none := by
    simp only [Ask.refusal,Ask.fileName,uri]
    have opened : sampleEnv.opens (cStr ([] ++ bytes "a")) = true := by decide
    rw [opened,Bool.or_true]
    rfl
  obtain ⟨m,last,_,served⟩ := client_answered run turn (by decide) rfl number.symm
  obtain ⟨read,closed⟩ := served sampleEnv [(slowEvent,getA)] (headEvent,headB) (by simp [pending]) handed
    (by simpa [Served.deliveries] using ⟨slow_fits text uri,head_fits text' uri'⟩) (by simpa using given)
  exact ⟨s,m,getA,headB,run,last,text,uri',read,closed⟩

end Service

end Deon.Net
