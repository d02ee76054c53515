import Deon.Library.Rounds
import Mathlib.Data.List.Basic

/-! `EventLoopThreadPool`: the loops of the I/O threads, given out in turns. An int of the class
is an integer here, and what C++ leaves undefined for it is a fault. -/
namespace Deon.Net
open Library

/-- The loop that accepts, and the loops of the I/O threads in the order in which they were
started. -/
inductive Loop
  | base
  | io (number : Nat)
  deriving DecidableEq, Repr

inductive PoolFault
  | indexOutOfRange
  | moduloByZero
  | overflow
  deriving DecidableEq, Repr

structure EventLoopThreadPool where
  baseLoop : Loop
  started : Bool
  numThreads : Int
  next : Int
  loops : List Loop
  deriving DecidableEq, Repr

namespace EventLoopThreadPool

def construct (baseLoop : Loop) (numThreads : Int32) : EventLoopThreadPool :=
  ⟨baseLoop,false,numThreads.toInt,0,[]⟩

/-- The body of the loop in `start`, with the new thread's `startLoop`. -/
def startThread (pool : EventLoopThreadPool) : EventLoopThreadPool :=
  {pool with loops := pool.loops ++ [.io pool.loops.length]}

/-- A negative `numThreads_` has no turn, just as zero. -/
def start (pool : EventLoopThreadPool) : EventLoopThreadPool :=
  startThread^[pool.numThreads.toNat] {pool with started := true}

/-- `loops_[next_]` -/
def loopAt (pool : EventLoopThreadPool) (index : Int) : Except PoolFault Loop :=
  if 0 ≤ index then
    match pool.loops[index.toNat]? with
    | some loop => .ok loop
    | none => .error .indexOutOfRange
  else .error .indexOutOfRange

/-- `(next_ + 1) % numThreads_` -/
def following (pool : EventLoopThreadPool) : Except PoolFault Int :=
  if pool.next + 1 < 2 ^ 31 then
    if pool.numThreads = 0 then .error .moduloByZero
    else .ok ((pool.next + 1).tmod pool.numThreads)
  else .error .overflow

def getNextLoop (pool : EventLoopThreadPool) : Except PoolFault (Loop × EventLoopThreadPool) :=
  if pool.loops = [] then .ok (pool.baseLoop,pool)
  else do
    let loop ← pool.loopAt pool.next
    let next ← pool.following
    return (loop,{pool with next := next})

/-- This many calls of `getNextLoop`, with what they returned. -/
def getNextLoops (pool : EventLoopThreadPool) :
    Nat → Except PoolFault (List Loop × EventLoopThreadPool)
  | 0 => .ok ([],pool)
  | calls + 1 => do
    let (given,pool') ← pool.getNextLoops calls
    let (loop,pool'') ← pool'.getNextLoop
    return (given ++ [loop],pool'')

theorem start_pool (pool : EventLoopThreadPool) (threads : Nat) :
    startThread^[threads] {pool with started := true,loops := []} =
      {pool with started := true,loops := (List.range threads).map .io} := by
  induction threads with
  | zero => rfl
  | succ threads ih =>
    rw [Function.iterate_succ_apply',ih]
    simp [startThread,List.range_succ]

theorem started_pool (baseLoop : Loop) (n : Int32) : start (construct baseLoop n) =
    ⟨baseLoop,true,n.toInt,0,(List.range n.toInt.toNat).map .io⟩ :=
  start_pool (construct baseLoop n) n.toInt.toNat

/-- A pool of `n` I/O threads when its turn is this. -/
structure Turning (n turn : Nat) (pool : EventLoopThreadPool) : Prop where
  some : 0 < n
  fits : n < 2 ^ 31
  threads : pool.numThreads = n
  loops : pool.loops = (List.range n).map .io
  next : pool.next = (turn % n : Nat)

theorem started_turning (baseLoop : Loop) {n : Int32} (some : 1 ≤ n.toInt) :
    Turning n.toInt.toNat 0 (start (construct baseLoop n)) := by
  have fits := n.toInt_lt
  rw [started_pool]
  exact ⟨by omega,by omega,by dsimp only; omega,rfl,by simp⟩

section

variable {n turn : Nat} {pool : EventLoopThreadPool}

theorem Turning.loop (turning : Turning n turn pool) {i : Nat} (below : i < n) :
    pool.loops[i]? = Option.some (.io i) := by
  rw [turning.loops,List.getElem?_map,List.getElem?_range below]
  rfl

theorem Turning.loopAt (turning : Turning n turn pool) :
    pool.loopAt pool.next = .ok (.io (turn % n)) := by
  have below : turn % n < n := Nat.mod_lt turn turning.some
  rw [EventLoopThreadPool.loopAt,turning.next,if_pos (Int.natCast_nonneg _),Int.toNat_natCast,
    turning.loop below]

theorem Turning.following (turning : Turning n turn pool) :
    pool.following = .ok ((turn + 1) % n : Nat) := by
  have fits := turning.fits
  have below : turn % n < n := Nat.mod_lt turn turning.some
  have some : (n : Int) ≠ 0 := by have := turning.some; omega
  have positive : (0 : Int) ≤ (turn % n : Nat) + 1 := by omega
  rw [EventLoopThreadPool.following,turning.next,turning.threads,if_pos (by omega),if_neg some,
    Int.tmod_eq_emod_of_nonneg positive]
  have same : ((turn % n : Nat) + 1) % (n : Int) = ((turn % n + 1) % n : Nat) := by norm_cast
  rw [same,Nat.mod_add_mod]

theorem Turning.getNextLoop (turning : Turning n turn pool) :
    ∃ pool', pool.getNextLoop = .ok (.io (turn % n),pool') ∧ Turning n (turn + 1) pool' := by
  have filled : pool.loops ≠ [] := by
    have := turning.some
    simp only [turning.loops,ne_eq,List.map_eq_nil_iff,List.range_eq_nil]
    omega
  refine ⟨{pool with next := ((turn + 1) % n : Nat)},?_,?_⟩
  · rw [EventLoopThreadPool.getNextLoop,if_neg filled,turning.loopAt,turning.following]
    rfl
  · exact ⟨turning.some,turning.fits,turning.threads,turning.loops,rfl⟩

theorem Turning.getNextLoops (turning : Turning n 0 pool) (calls : Nat) :
    ∃ pool', pool.getNextLoops calls = .ok (rounds .io n calls,pool') ∧ Turning n calls pool' := by
  induction calls with
  | zero => exact ⟨pool,rfl,turning⟩
  | succ calls ih =>
    obtain ⟨pool',before,turned⟩ := ih
    obtain ⟨pool'',last,further⟩ := turned.getNextLoop
    refine ⟨pool'',?_,further⟩
    rw [EventLoopThreadPool.getNextLoops,before]
    simp only [bind,Except.bind,last,rounds_succ]
    rfl

/-- Without I/O threads the calls change nothing, and never come to the modulo. -/
theorem getNextLoops_base (alone : pool.loops = []) (calls : Nat) :
    pool.getNextLoops calls = .ok (List.replicate calls pool.baseLoop,pool) := by
  induction calls with
  | zero => rfl
  | succ calls ih =>
    rw [EventLoopThreadPool.getNextLoops,ih]
    simp only [bind,Except.bind,EventLoopThreadPool.getNextLoop,if_pos alone,List.replicate_succ']
    rfl

end

theorem started_alone (baseLoop : Loop) {n : Int32} (none : n.toInt ≤ 0) :
    (start (construct baseLoop n)).loops = [] := by
  rw [started_pool]
  simp [Int.toNat_of_nonpos none]

theorem started_getNextLoops (baseLoop : Loop) (n : Int32) (calls : Nat) :
    ∃ result, (start (construct baseLoop n)).getNextLoops calls = .ok result := by
  by_cases some : 1 ≤ n.toInt
  · obtain ⟨pool,called,_⟩ := (started_turning baseLoop some).getNextLoops calls
    exact ⟨_,called⟩
  · exact ⟨_,getNextLoops_base (started_alone baseLoop (by omega)) calls⟩

theorem io_distinct (n : Nat) : ∀ i < n, ∀ j < n, Loop.io i = .io j → i = j := by
  intro i _ j _ same
  exact Loop.io.inj same

/-- For every number of threads and of calls: the calls take the I/O loops in turns, each the loop of
a thread of its own, or return the base loop where there are none. -/
theorem getNextLoop_fair (baseLoop : Loop) (n : Int32) (calls : Nat) :
    ∃ given pool, (start (construct baseLoop n)).getNextLoops calls = .ok (given,pool) ∧
      given.length = calls ∧
      (1 ≤ n.toInt → pool.loops.length = n.toInt ∧ pool.loops.Nodup ∧ .base ∉ pool.loops ∧
        0 ≤ pool.next ∧ pool.next < n.toInt ∧
        (∀ i < calls, ∃ loop, pool.loops[i % n.toInt.toNat]? = some loop ∧ given[i]? = some loop) ∧
        ∀ a ∈ pool.loops, ∀ b ∈ pool.loops, given.count a ≤ given.count b + 1) ∧
      (n.toInt ≤ 0 → pool.loops = [] ∧ ∀ loop ∈ given, loop = baseLoop) := by
  by_cases some : 1 ≤ n.toInt
  · obtain ⟨pool,called,turning⟩ := (started_turning baseLoop some).getNextLoops calls
    refine ⟨_,pool,called,rounds_length,fun _ => ?_,fun none => by omega⟩
    have positive := turning.some
    have below : calls % n.toInt.toNat < n.toInt.toNat := Nat.mod_lt calls positive
    refine ⟨?_,?_,?_,?_,?_,?_,?_⟩
    · rw [turning.loops,List.length_map,List.length_range]
      omega
    · rw [turning.loops,List.nodup_map_iff_inj_on List.nodup_range]
      exact fun i _ j _ => Loop.io.inj
    · rw [turning.loops]
      simp
    · rw [turning.next]
      exact Int.natCast_nonneg _
    · rw [turning.next]
      omega
    · intro i inside
      exact ⟨.io (i % n.toInt.toNat),turning.loop (Nat.mod_lt i positive),rounds_get inside⟩
    · intro a first b second
      rw [turning.loops] at first second
      obtain ⟨j,left,rfl⟩ := List.mem_map.mp first
      obtain ⟨k,right,rfl⟩ := List.mem_map.mp second
      exact rounds_fair (io_distinct _) (List.mem_range.mp left) (List.mem_range.mp right) calls
  · have alone := started_alone baseLoop (n := n) (by omega)
    refine ⟨_,_,getNextLoops_base alone calls,List.length_replicate,fun one => absurd one some,?_⟩
    refine fun _ => ⟨alone,?_⟩
    intro loop member
    rw [List.eq_of_mem_replicate member,started_pool]

end EventLoopThreadPool

end Deon.Net
