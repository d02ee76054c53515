import Deon.Library.Fallible
import Deon.Net.EventLoopThreadPool

/-! `Server::newConnection`: the connections that one event of the listening channel brings, each
handed to a loop of the pool. -/
namespace Deon.Net
open Library

/-- What `accept` returned and, where it was asked for this descriptor, what
`set_socket_non_blocking` did. -/
structure Arrival where
  acceptFd : Int
  nonBlocking : Int
  deriving DecidableEq, Repr

/-- What becomes of a descriptor: its registration is run at once, or is left with the pending
functors of a loop in another thread; or it is closed. -/
inductive Fate
  | registered (loop : Loop) (fd : Int)
  | queued (loop : Loop) (fd : Int)
  | closed (fd : Int)
  deriving DecidableEq, Repr

def Fate.fd : Fate → Int
  | .registered _ fd | .queued _ fd | .closed fd => fd

/-- `ioLoop->runInLoop(registerHttp)` in the thread of the base loop. -/
def runInLoop (ioLoop : Loop) (fd : Int) : Fate :=
  if ioLoop = .base then .registered ioLoop fd else .queued ioLoop fd

/-- How a call of `newConnection` went: the pool behind it, the descriptors that `accept` gave it,
what it did with them, and the arrivals for which it did not call `accept` any more. -/
structure Batch where
  pool : EventLoopThreadPool
  accepted : List Int
  fates : List Fate
  left : List Arrival
  deriving DecidableEq, Repr

/-- The descriptor of this turn, with what the turns behind it do. -/
def Batch.handing (fd : Int) (ioLoop : Loop) (later : Batch) : Batch :=
  {later with accepted := fd :: later.accepted,fates := runInLoop ioLoop fd :: later.fates}

/-- With no arrival left `accept` fails, as the listening descriptor does not block. -/
def newConnection (pool : EventLoopThreadPool) : List Arrival → Except PoolFault Batch
  | [] => .ok ⟨pool,[],[],[]⟩
  | arrival :: later =>
    if arrival.acceptFd > 0 then do
      let (ioLoop,pool) ← pool.getNextLoop
      if arrival.nonBlocking < 0 then
        return ⟨pool,[arrival.acceptFd],[],later⟩
      let rest ← newConnection pool later
      return rest.handing arrival.acceptFd ioLoop
    else
      -- the loop has ended; a descriptor 0 was accepted all the same
      .ok ⟨pool,if arrival.acceptFd = 0 then [0] else [],[],later⟩

/-- What `accept` returns up to its first failure. -/
def pendingArrivals (arrivals : List Arrival) : List Arrival :=
  arrivals.takeWhile fun arrival => 0 ≤ arrival.acceptFd

/-- Every accepted descriptor has one fate, and nothing else has. -/
def Accounted (batch : Batch) : Prop :=
  ∀ fd, (batch.fates.map Fate.fd).count fd = batch.accepted.count fd

/-- `accept` was called until it failed. -/
def Drained (arrivals : List Arrival) (batch : Batch) : Prop :=
  batch.accepted = (pendingArrivals arrivals).map Arrival.acceptFd

/-- The descriptor passes both tests of the loop. -/
def Passes (arrival : Arrival) : Prop := arrival.acceptFd ≠ 0 ∧ 0 ≤ arrival.nonBlocking

/-- The pool of a started server, whatever it has given out before. -/
def Serving (pool : EventLoopThreadPool) : Prop :=
  ∃ (n : Int32) (calls : Nat) (given : List Loop),
    (EventLoopThreadPool.start (.construct .base n)).getNextLoops calls = .ok (given,pool)

theorem Serving.getNextLoop {pool : EventLoopThreadPool} (serving : Serving pool) :
    ∃ loop pool', pool.getNextLoop = .ok (loop,pool') ∧ Serving pool' := by
  obtain ⟨n,calls,given,called⟩ := serving
  obtain ⟨⟨given',pool'⟩,further⟩ := EventLoopThreadPool.started_getNextLoops .base n (calls + 1)
  obtain ⟨before,same,rest⟩ := bind_success further
  obtain rfl : (given,pool) = before := Except.ok.inj (called.symm.trans same)
  obtain ⟨⟨loop,last⟩,next,done⟩ := bind_success rest
  cases done
  exact ⟨loop,pool',next,n,calls + 1,_,further⟩

variable {pool pool' : EventLoopThreadPool} {arrival : Arrival} {later : List Arrival}
  {ioLoop : Loop}

theorem newConnection_hands (some : 0 < arrival.acceptFd) (works : 0 ≤ arrival.nonBlocking)
    (next : pool.getNextLoop = .ok (ioLoop,pool')) {rest : Batch}
    (after : newConnection pool' later = .ok rest) :
    newConnection pool (arrival :: later) = .ok (rest.handing arrival.acceptFd ioLoop) := by
  rw [newConnection,if_pos some,next]
  simp only [bind,Except.bind,if_neg (Int.not_lt.mpr works),after]
  rfl

theorem newConnection_returns (some : 0 < arrival.acceptFd) (fails : arrival.nonBlocking < 0)
    (next : pool.getNextLoop = .ok (ioLoop,pool')) : newConnection pool (arrival :: later) =
      .ok ⟨pool',[arrival.acceptFd],[],later⟩ := by
  rw [newConnection,if_pos some,next]
  simp only [bind,Except.bind,if_pos fails]
  rfl

theorem newConnection_ends (ended : arrival.acceptFd ≤ 0) :
    newConnection pool (arrival :: later) =
      .ok ⟨pool,if arrival.acceptFd = 0 then [0] else [],[],later⟩ := by
  rw [newConnection,if_neg (by omega)]

theorem pendingArrivals_accepted (accepted : 0 ≤ arrival.acceptFd) :
    pendingArrivals (arrival :: later) = arrival :: pendingArrivals later := by
  simp [pendingArrivals,accepted]

theorem pendingArrivals_failed (failed : arrival.acceptFd < 0) :
    pendingArrivals (arrival :: later) = [] := by
  simp [pendingArrivals,failed]

theorem runInLoop_fd (ioLoop : Loop) (fd : Int) : (runInLoop ioLoop fd).fd = fd := by
  unfold runInLoop
  split <;> rfl

theorem handing_accounted {rest : Batch} {fd : Int} :
    Accounted (rest.handing fd ioLoop) ↔ Accounted rest := by
  apply forall_congr'
  intro other
  rw [Batch.handing,List.map_cons,runInLoop_fd,List.count_cons,List.count_cons,Nat.add_right_cancel_iff]

theorem leaked_not_accounted (fd : Int) : ¬Accounted ⟨pool,[fd],[],later⟩ := by
  intro accounted
  have counted := accounted fd
  simp at counted

/-- How a call went, by the arrivals up to the first failure of `accept`. -/
structure Went (arrivals : List Arrival) (batch : Batch) : Prop where
  serving : Serving batch.pool
  accounted : Accounted batch ↔ ∀ arrival ∈ pendingArrivals arrivals, Passes arrival
  drained : (∀ arrival ∈ pendingArrivals arrivals, Passes arrival) → Drained arrivals batch

theorem Went.hands {rest : Batch} (went : Went later rest) (some : 0 < arrival.acceptFd)
    (works : 0 ≤ arrival.nonBlocking) :
    Went (arrival :: later) (rest.handing arrival.acceptFd ioLoop) where
  serving := went.serving
  accounted := by
    have passes : Passes arrival := ⟨by omega,works⟩
    rw [handing_accounted,went.accounted,pendingArrivals_accepted (by omega),List.forall_mem_cons]
    simp [passes]
  drained := by
    intro pass
    rw [pendingArrivals_accepted (by omega),List.forall_mem_cons] at pass
    have before := went.drained pass.2
    rw [Drained,pendingArrivals_accepted (by omega),List.map_cons,← before]
    rfl

/-- The turns that leave the loop with an accepted descriptor in hand. -/
theorem went_leaking (serving : Serving pool) (accepted : 0 ≤ arrival.acceptFd)
    (fails : ¬Passes arrival) : Went (arrival :: later) ⟨pool,[arrival.acceptFd],[],later⟩ where
  serving := serving
  accounted := by
    rw [pendingArrivals_accepted accepted,List.forall_mem_cons]
    exact iff_of_false (leaked_not_accounted _) fun pass => fails pass.1
  drained := by
    intro pass
    rw [pendingArrivals_accepted accepted,List.forall_mem_cons] at pass
    exact absurd pass.1 fails

theorem newConnection_went (arrivals : List Arrival) : ∀ {pool : EventLoopThreadPool},
    Serving pool → ∃ batch, newConnection pool arrivals = .ok batch ∧ Went arrivals batch := by
  induction arrivals with
  | nil =>
    intro pool serving
    exact ⟨_,rfl,serving,by simp [Accounted,pendingArrivals],fun _ => rfl⟩
  | cons arrival later ih =>
    intro pool serving
    rcases Int.lt_trichotomy arrival.acceptFd 0 with failed | zero | some
    · refine ⟨_,newConnection_ends (by omega),serving,?_,?_⟩
      · simp [Accounted,pendingArrivals_failed failed,failed.ne]
      · simp [Drained,pendingArrivals_failed failed,failed.ne]
    · have ended : newConnection pool (arrival :: later) =
          .ok ⟨pool,[arrival.acceptFd],[],later⟩ := by
        rw [newConnection_ends (by omega),if_pos zero,zero]
      exact ⟨_,ended,went_leaking serving (by omega) fun pass => pass.1 zero⟩
    · obtain ⟨ioLoop,pool',next,serving'⟩ := serving.getNextLoop
      rcases lt_or_ge arrival.nonBlocking 0 with fails | works
      · refine ⟨_,newConnection_returns some fails next,went_leaking serving' some.le ?_⟩
        exact fun pass => absurd pass.2 (Int.not_le.mpr fails)
      · obtain ⟨rest,after,went⟩ := ih serving'
        exact ⟨_,newConnection_hands some works next after,went.hands some works⟩

/-- A call loses no descriptor and goes on to the failure of `accept` exactly when it comes to
none that is 0 or that cannot be made non-blocking. -/
theorem newConnection_loses_none_iff {pool : EventLoopThreadPool} (serving : Serving pool)
    (arrivals : List Arrival) : ∃ batch, newConnection pool arrivals = .ok batch ∧
      (Accounted batch ∧ Drained arrivals batch ↔
        ∀ arrival ∈ pendingArrivals arrivals, Passes arrival) := by
  obtain ⟨batch,done,went⟩ := newConnection_went arrivals serving
  refine ⟨batch,done,?_,?_⟩
  · intro fine
    exact went.accounted.mp fine.1
  · intro pass
    exact ⟨went.accounted.mpr pass,went.drained pass⟩

/-- The pool of a server that was started with two I/O threads. -/
def twoThreads : EventLoopThreadPool := EventLoopThreadPool.start (.construct .base 2)

theorem twoThreads_serving : Serving twoThreads := ⟨2,0,[],rfl⟩

theorem newConnection_loses_none_two : Serving twoThreads ∧
    ∃ batch, newConnection twoThreads [⟨7,0⟩,⟨8,0⟩,⟨9,0⟩,⟨-1,0⟩] = .ok batch ∧
      (Accounted batch ∧ Drained [⟨7,0⟩,⟨8,0⟩,⟨9,0⟩,⟨-1,0⟩] batch ↔
        ∀ arrival ∈ pendingArrivals [⟨7,0⟩,⟨8,0⟩,⟨9,0⟩,⟨-1,0⟩], Passes arrival) :=
  ⟨twoThreads_serving,newConnection_loses_none_iff twoThreads_serving _⟩

/-- A descriptor that cannot be made non-blocking, and the descriptor 0: each is lost, and so are
the arrivals behind it. -/
theorem newConnection_loses_descriptors :
    ¬(∀ pool arrivals batch, Serving pool → newConnection pool arrivals = .ok batch →
      Accounted batch ∧ Drained arrivals batch) ∧
    (∃ batch, newConnection twoThreads [⟨7,-1⟩,⟨8,0⟩] = .ok batch ∧ ¬Accounted batch ∧
      ¬Drained [⟨7,-1⟩,⟨8,0⟩] batch) ∧
    ∃ batch, newConnection twoThreads [⟨0,0⟩,⟨8,0⟩] = .ok batch ∧ ¬Accounted batch ∧
      ¬Drained [⟨0,0⟩,⟨8,0⟩] batch := by
  have first : newConnection twoThreads [⟨7,-1⟩,⟨8,0⟩] =
      .ok ⟨{twoThreads with next := 1},[7],[],[⟨8,0⟩]⟩ := by decide
  have second : newConnection twoThreads [⟨0,0⟩,⟨8,0⟩] = .ok ⟨twoThreads,[0],[],[⟨8,0⟩]⟩ := by
    decide
  refine ⟨?_,⟨_,first,leaked_not_accounted 7,?_⟩,⟨_,second,leaked_not_accounted 0,?_⟩⟩
  · intro always
    exact leaked_not_accounted 7 (always _ _ _ twoThreads_serving first).1
  · simp [Drained,pendingArrivals]
  · simp [Drained,pendingArrivals]

end Deon.Net
