import Deon.Library.Fallible
import Deon.Net.Functors
import Deon.Net.Server
import Mathlib.Logic.Function.Basic

/-! A started server: the thread that accepts and the loops of the I/O threads, in any
interleaving. What `newConnection` leaves with a loop is the functor that registers the
connection, and is named here by its descriptor. -/
namespace Deon.Net
open Library

/-- The pool, its loops with their histories, the registrations that the accepting thread has run
itself, and the turns of the loop in `newConnection` so far. -/
structure Acceptor where
  pool : EventLoopThreadPool
  loops : Nat → Traced Int
  registered : List Int
  turns : List Arrival

namespace Acceptor

def start (n : Int32) (wakeupFd : Nat → Nat) : Acceptor :=
  ⟨.start (.construct .base n),fun k => .start (wakeupFd k),[],[]⟩

/-- What becomes of a descriptor, in the loop it is left with. -/
def enact (s : Acceptor) : Fate → Option Acceptor
  | .registered _ fd => some {s with registered := s.registered ++ [fd]}
  | .queued (.io k) fd => do
    let loop ← (s.loops k).step (.push fd)
    return {s with loops := Function.update s.loops k loop}
  | .queued .base _ => none
  | .closed _ => some s

/-- One turn of the loop in `newConnection`, or a step of one of the loops. Nothing but a turn
pushes a functor. -/
inductive Act
  | turn (arrival : Arrival)
  | io (k : Nat) (action : Action Int)

/-- The functors that a step pushes are the business of `turn`. -/
def Pushes : Action Int → Bool
  | .push _ | .queue _ => true
  | _ => false

def step (s : Acceptor) : Act → Option Acceptor
  | .turn arrival =>
    if arrival.acceptFd > 0 then
      match newConnection s.pool [arrival] with
      | .ok batch =>
        batch.fates.foldlM enact {s with pool := batch.pool,turns := s.turns ++ [arrival]}
      | .error _ => none
    else none
  | .io k action =>
    if Pushes action then none
    else do
      let loop ← (s.loops k).step action
      return {s with loops := Function.update s.loops k loop}

def Steps (s : Acceptor) (act : Act) (s' : Acceptor) : Prop := s.step act = some s'

/-- The descriptors that a loop was given: those whose registration it has run, those left of its
batch, and those that are pending. -/
def given (s : Acceptor) (k : Nat) : List Int :=
  ((s.loops k).executed.map Prod.fst ++ (s.loops k).loop.functors ++
    (s.loops k).loop.pendingFunctors).map Call.functor

/-- The descriptors of these turns for which there is a registration. -/
def handed (turns : List Arrival) : List Int :=
  (turns.filter fun arrival => 0 ≤ arrival.nonBlocking).map Arrival.acceptFd

end Acceptor

theorem Records.conserved {Functor : Type} {t : Traced Functor} {b : Batches (Call Functor)}
    (records : Records t b) : t.executed.map Prod.fst ++ t.loop.functors ++ t.loop.pendingFunctors =
      t.pushed.map Prod.fst := by
  rw [records.executed,records.pushed,records.holds.batch,records.holds.pending,
    ← records.ordered.conserved]
  simp

namespace Acceptor

/-- The loop has a sound history, and was pushed these functors. -/
def Pushed (t : Traced Int) (fds : List Int) : Prop :=
  (∃ b, Records t b) ∧ t.pushed.map (fun one => one.1.functor) = fds

section

variable {t t' : Traced Int} {fds : List Int}

theorem Pushed.start (wakeupFd : Nat) : Pushed (Traced.start wakeupFd) [] :=
  ⟨⟨_,start_records wakeupFd⟩,rfl⟩

theorem Pushed.push (pushed : Pushed t fds) {fd : Int} (stepped : t.step (.push fd) = some t') :
    Pushed t' (fds ++ [fd]) := by
  obtain ⟨⟨b,records⟩,rfl⟩ := pushed
  refine ⟨⟨_,records.step stepped⟩,?_⟩
  obtain ⟨loop,_,rfl⟩ := Option.map_eq_some_iff.mp stepped
  simp [Traced.record,effect]

theorem Pushed.goes (pushed : Pushed t fds) {action : Action Int}
    (quiet : Pushes action = false) (stepped : t.step action = some t') :
    Pushed t' fds := by
  obtain ⟨⟨b,records⟩,rfl⟩ := pushed
  refine ⟨⟨_,records.step stepped⟩,?_⟩
  obtain ⟨loop,_,rfl⟩ := Option.map_eq_some_iff.mp stepped
  have kept : ∀ call, effect t.loop action ≠ .push call := by
    intro call
    unfold effect
    cases action with
    | push _ => simp [Pushes] at quiet
    | queue _ => simp [Pushes] at quiet
    | loop =>
      dsimp only
      split
      · split <;> simp
      · simp
    | _ => simp
  cases done : effect t.loop action with
  | push call => exact absurd done (kept call)
  | _ => rfl

theorem push_taken (t : Traced Int) (fd : Int) : ∃ t', t.step (.push fd) = some t' := ⟨_,rfl⟩

end

variable {s s' : Acceptor} {n : Nat} {arrival : Arrival}

theorem handed_append (turns : List Arrival) (arrival : Arrival) :
    handed (turns ++ [arrival]) =
      handed turns ++ if 0 ≤ arrival.nonBlocking then [arrival.acceptFd] else [] := by
  unfold handed
  rw [List.filter_append,List.map_append]
  congr 1
  by_cases works : 0 ≤ arrival.nonBlocking <;> simp [works]

/-- With I/O threads: the accepting thread runs no registration, and every loop was pushed its
share. -/
structure Shared (n : Nat) (s : Acceptor) : Prop where
  turning : EventLoopThreadPool.Turning n s.turns.length s.pool
  none : s.registered = []
  pushed : ∀ k, Pushed (s.loops k) (handed (share n k s.turns))

/-- Without I/O threads: the accepting thread runs every registration. -/
structure Sole (s : Acceptor) : Prop where
  base : s.pool.baseLoop = .base
  alone : s.pool.loops = []
  all : s.registered = handed s.turns
  pushed : ∀ k, Pushed (s.loops k) []

theorem newConnection_nil (pool : EventLoopThreadPool) :
    newConnection pool [] = .ok ⟨pool,[],[],[]⟩ := rfl

/-- A turn that cannot make the descriptor non-blocking has no registration. -/
theorem turn_returns {ioLoop : Loop} {pool : EventLoopThreadPool} (some : 0 < arrival.acceptFd)
    (fails : arrival.nonBlocking < 0) (next : s.pool.getNextLoop = .ok (ioLoop,pool)) :
    s.step (.turn arrival) = Option.some {s with pool := pool,turns := s.turns ++ [arrival]} := by
  rw [step,if_pos some,newConnection_returns some fails next]
  rfl

theorem turn_hands {ioLoop : Loop} {pool : EventLoopThreadPool} (some : 0 < arrival.acceptFd)
    (works : 0 ≤ arrival.nonBlocking) (next : s.pool.getNextLoop = .ok (ioLoop,pool)) :
    s.step (.turn arrival) = enact {s with pool := pool,turns := s.turns ++ [arrival]}
      (runInLoop ioLoop arrival.acceptFd) := by
  rw [step,if_pos some,newConnection_hands some works next (newConnection_nil pool)]
  simp only [Batch.handing,List.foldlM_cons,List.foldlM_nil]
  exact Option.bind_fun_some _

theorem io_cases {k : Nat} {action : Action Int} (stepped : s.Steps (.io k action) s') :
    ∃ loop, Pushes action = false ∧ (s.loops k).step action = some loop ∧
      s' = {s with loops := Function.update s.loops k loop} := by
  unfold Steps step at stepped
  dsimp only at stepped
  split at stepped
  · cases stepped
  · rename_i quiet
    obtain ⟨loop,moved,done⟩ := Option.bind_eq_some_iff.mp stepped
    exact ⟨loop,Bool.eq_false_iff.mpr quiet,moved,(Option.some.inj done).symm⟩

theorem pushed_update {loops : Nat → Traced Int} (expected expected' : Nat → List Int) {k : Nat}
    {loop : Traced Int} (pushed : ∀ j, Pushed (loops j) (expected j))
    (own : Pushed loop (expected' k)) (others : ∀ j, j ≠ k → expected' j = expected j) (j : Nat) :
    Pushed (Function.update loops k loop j) (expected' j) := by
  by_cases same : j = k
  · subst j
    rwa [Function.update_self]
  · rw [Function.update_of_ne same,others j same]
    exact pushed j

theorem Shared.turn (shared : Shared n s) (some : 0 < arrival.acceptFd) :
    ∃ s', s.step (.turn arrival) = Option.some s' ∧ Shared n s' := by
  obtain ⟨turning,none,pushed⟩ := shared
  obtain ⟨pool,next,turned⟩ := turning.getNextLoop
  have longer : s.turns.length + 1 = (s.turns ++ [arrival]).length := by simp
  rw [longer] at turned
  rcases lt_or_ge arrival.nonBlocking 0 with fails | works
  · refine ⟨_,turn_returns some fails next,turned,none,fun k => ?_⟩
    have same : handed (share n k (s.turns ++ [arrival])) = handed (share n k s.turns) := by
      rw [share_append]
      split
      · rw [handed_append,if_neg (Int.not_le.mpr fails),List.append_nil]
      · rw [List.append_nil]
    rw [same]
    exact pushed k
  · obtain ⟨loop,moved⟩ := push_taken (s.loops (s.turns.length % n)) arrival.acceptFd
    refine ⟨⟨pool,Function.update s.loops (s.turns.length % n) loop,s.registered,
      s.turns ++ [arrival]⟩,?_,turned,none,?_⟩
    · rw [turn_hands some works next,runInLoop,if_neg Loop.noConfusion]
      simp only [enact,moved]
      rfl
    · refine pushed_update (fun k => handed (share n k s.turns))
        (fun k => handed (share n k (s.turns ++ [arrival]))) pushed ?_ ?_
      · have own : handed (share n (s.turns.length % n) (s.turns ++ [arrival])) =
            handed (share n (s.turns.length % n) s.turns) ++ [arrival.acceptFd] := by
          rw [share_append,if_pos rfl,handed_append,if_pos works]
        rw [own]
        exact (pushed _).push moved
      · intro j other
        rw [share_append,if_neg fun same => other same.symm,List.append_nil]

theorem Sole.turn (sole : Sole s) (some : 0 < arrival.acceptFd) :
    ∃ s', s.step (.turn arrival) = Option.some s' ∧ Sole s' := by
  obtain ⟨base,alone,all,pushed⟩ := sole
  have next : s.pool.getNextLoop = .ok (.base,s.pool) := by
    rw [EventLoopThreadPool.getNextLoop,if_pos alone,base]
  rcases lt_or_ge arrival.nonBlocking 0 with fails | works
  · refine ⟨_,turn_returns some fails next,base,alone,?_,pushed⟩
    rw [handed_append,if_neg (Int.not_le.mpr fails),List.append_nil]
    exact all
  · refine ⟨_,(turn_hands some works next).trans rfl,base,alone,?_,pushed⟩
    rw [handed_append,if_pos works,← all]

theorem Shared.step (shared : Shared n s) {act : Act} (stepped : s.Steps act s') :
    Shared n s' := by
  cases act with
  | turn arrival =>
    have some : 0 < arrival.acceptFd := by
      by_contra none
      rw [Steps,Acceptor.step,if_neg none] at stepped
      cases stepped
    obtain ⟨s'',taken,further⟩ := shared.turn some
    obtain rfl : s' = s'' := Option.some.inj (stepped.symm.trans taken)
    exact further
  | io k action =>
    obtain ⟨loop,quiet,moved,rfl⟩ := io_cases stepped
    exact ⟨shared.turning,shared.none,pushed_update _ _ shared.pushed
      ((shared.pushed k).goes quiet moved) fun _ _ => rfl⟩

theorem Sole.step (sole : Sole s) {act : Act} (stepped : s.Steps act s') : Sole s' := by
  cases act with
  | turn arrival =>
    have some : 0 < arrival.acceptFd := by
      by_contra none
      rw [Steps,Acceptor.step,if_neg none] at stepped
      cases stepped
    obtain ⟨s'',taken,further⟩ := sole.turn some
    obtain rfl : s' = s'' := Option.some.inj (stepped.symm.trans taken)
    exact further
  | io k action =>
    obtain ⟨loop,quiet,moved,rfl⟩ := io_cases stepped
    exact ⟨sole.base,sole.alone,sole.all,pushed_update _ (fun _ => []) sole.pushed
      ((sole.pushed k).goes quiet moved) fun _ _ => rfl⟩

/-- Enacting a fate leaves the pool and the turns alone, and does not look at them. -/
theorem enact_behind {fate : Fate} (pool : EventLoopThreadPool) (turns : List Arrival) :
    enact {s with pool := pool,turns := turns} fate =
      (enact s fate).map fun s' => {s' with pool := pool,turns := turns} := by
  cases fate with
  | queued ioLoop fd => cases ioLoop <;> rfl
  | _ => rfl

theorem enact_taken (s : Acceptor) (ioLoop : Loop) (fd : Int) :
    ∃ s', enact s (runInLoop ioLoop fd) = some s' ∧ s'.pool = s.pool ∧ s'.turns = s.turns := by
  cases ioLoop with
  | base => exact ⟨_,rfl,rfl,rfl⟩
  | io k => exact ⟨_,rfl,rfl,rfl⟩

/-- A call of `newConnection` is a run of its turns, and does what its fates say. -/
theorem newConnection_turns {arrivals : List Arrival} {batch : Batch}
    (called : newConnection s.pool arrivals = .ok batch) :
    ∃ taken s', taken <+: arrivals ∧ Run Steps s (taken.map .turn) s' ∧
      batch.fates.foldlM enact {s with pool := batch.pool,turns := s.turns ++ taken} = some s' := by
  induction arrivals generalizing s batch with
  | nil =>
    cases called
    refine ⟨[],s,List.prefix_rfl,.nil s,?_⟩
    simp
  | cons arrival later ih =>
    by_cases accepted : 0 < arrival.acceptFd
    · rw [newConnection,if_pos accepted] at called
      obtain ⟨⟨ioLoop,pool⟩,next,called⟩ := bind_success called
      rcases lt_or_ge arrival.nonBlocking 0 with fails | works
      · simp only [if_pos fails] at called
        cases called
        refine ⟨[arrival],_,?_,.cons (turn_returns accepted fails next) (.nil _),rfl⟩
        exact List.cons_prefix_cons.mpr ⟨rfl,List.nil_prefix⟩
      · simp only [if_neg (Int.not_lt.mpr works)] at called
        obtain ⟨rest,after,done⟩ := bind_success called
        cases done
        obtain ⟨s',first,samePool,sameTurns⟩ :=
          enact_taken {s with pool := pool,turns := s.turns ++ [arrival]} ioLoop arrival.acceptFd
        have following : newConnection s'.pool later = .ok rest := by rw [samePool,after]
        obtain ⟨taken,last,inside,run,enacted⟩ := ih following
        refine ⟨arrival :: taken,last,List.cons_prefix_cons.mpr ⟨rfl,inside⟩,?_,?_⟩
        · exact .cons ((turn_hands accepted works next).trans first) run
        · rw [sameTurns,List.append_assoc] at enacted
          rw [enact_behind] at first
          obtain ⟨behind,one,same⟩ := Option.map_eq_some_iff.mp first
          rw [Batch.handing,List.foldlM_cons,enact_behind,one]
          rw [← same] at enacted
          exact enacted
    · rw [newConnection_ends (Int.not_lt.mp accepted)] at called
      cases called
      refine ⟨[],s,List.nil_prefix,.nil s,?_⟩
      simp

theorem start_shared {n : Int32} (some : 1 ≤ n.toInt) (wakeupFd : Nat → Nat) :
    Shared n.toInt.toNat (start n wakeupFd) :=
  ⟨EventLoopThreadPool.started_turning .base some,rfl,fun k => .start (wakeupFd k)⟩

theorem start_sole {n : Int32} (none : n.toInt ≤ 0) (wakeupFd : Nat → Nat) :
    Sole (start n wakeupFd) where
  base := by rw [start,EventLoopThreadPool.started_pool]
  alone := EventLoopThreadPool.started_alone .base none
  all := rfl
  pushed k := .start (wakeupFd k)

theorem Pushed.given {fds : List Int} {k : Nat} (pushed : Pushed (s.loops k) fds) :
    s.given k = fds := by
  obtain ⟨⟨b,records⟩,rfl⟩ := pushed
  rw [Acceptor.given,records.conserved,List.map_map]
  rfl

theorem handed_perm {turns turns' : List Arrival} (same : turns.Perm turns') :
    (handed turns).Perm (handed turns') :=
  (same.filter _).map _

theorem handed_flatMap (shares : Nat → List Arrival) (ks : List Nat) :
    handed (ks.flatMap shares) = ks.flatMap fun k => handed (shares k) := by
  unfold handed
  rw [List.filter_flatMap,List.map_flatMap]

/-- In whatever order the accepting thread and the loops take their steps: the next turn can be
taken, and every descriptor is with one loop once, run or still to be run, each loop having those
of its turns in the order in which they were accepted. -/
theorem accepted_shared {n : Int32} {wakeupFd : Nat → Nat}
    (reached : Reachable Steps (start n wakeupFd) s) :
    (∀ arrival, 0 < arrival.acceptFd → ∃ s', s.Steps (.turn arrival) s') ∧
    (1 ≤ n.toInt → s.registered = [] ∧
      (∀ k, s.given k = handed (share n.toInt.toNat k s.turns)) ∧
      ((List.range n.toInt.toNat).flatMap s.given).Perm (handed s.turns)) ∧
    (n.toInt ≤ 0 → s.registered = handed s.turns ∧ ∀ k, s.given k = []) := by
  by_cases some : 1 ≤ n.toInt
  · have shared : Shared n.toInt.toNat s :=
      reached.invariant (Shared n.toInt.toNat) (start_shared some wakeupFd)
        fun _ _ _ held stepped => held.step stepped
    have given : s.given = fun k => handed (share n.toInt.toNat k s.turns) := by
      funext k
      exact (shared.pushed k).given
    refine ⟨?_,fun _ => ⟨shared.none,congrFun given,?_⟩,fun none => by omega⟩
    · intro arrival accepted
      obtain ⟨s',taken,_⟩ := shared.turn accepted
      exact ⟨s',taken⟩
    · rw [given,← handed_flatMap]
      exact handed_perm (shares_perm shared.turning.some s.turns)
  · have sole : Sole s :=
      reached.invariant Sole (start_sole (by omega) wakeupFd)
        fun _ _ _ held stepped => held.step stepped
    refine ⟨?_,fun one => absurd one some,fun _ => ⟨sole.all,fun k => (sole.pushed k).given⟩⟩
    intro arrival accepted
    obtain ⟨s',taken,_⟩ := sole.turn accepted
    exact ⟨s',taken⟩

/-- The second descriptor cannot be made non-blocking, and the first loop runs its registration
before the third is accepted. -/
def sampleActs : List Act :=
  [.turn ⟨7,0⟩,.io 0 .loop,.io 0 .loop,.io 0 (.wakeup 0),.io 0 (.poll [4]),.turn ⟨8,-1⟩] ++
    List.replicate 7 (.io 0 .loop) ++ [.turn ⟨9,0⟩,.turn ⟨10,0⟩]

theorem accepted_shared_sample : ∃ s, perform step (start 2 fun k => k + 4) sampleActs = some s ∧
    (∀ arrival, 0 < arrival.acceptFd → ∃ s', s.Steps (.turn arrival) s') ∧
    (1 ≤ Int32.toInt 2 → s.registered = [] ∧
      (∀ k, s.given k = handed (share (Int32.toInt 2).toNat k s.turns)) ∧
      ((List.range (Int32.toInt 2).toNat).flatMap s.given).Perm (handed s.turns)) ∧
    (Int32.toInt 2 ≤ 0 → s.registered = handed s.turns ∧ ∀ k, s.given k = []) := by
  have taken : (perform step (start 2 fun k => k + 4) sampleActs).isSome = true := by decide
  obtain ⟨s,done⟩ := Option.isSome_iff_exists.mp taken
  exact ⟨s,done,accepted_shared ⟨sampleActs,perform_run (fun _ _ _ stepped => stepped) done⟩⟩

end Acceptor

end Deon.Net
