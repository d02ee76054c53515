import Deon.Library.Run
import Deon.Logging.FixedBuffer
import Mathlib.Logic.Function.Basic

/-! `AsyncLogging`. The slots hold pointers to buffers on a heap; a slot that was moved
from is null. The front end is any number of threads whose `append` calls exclude each
other and the back end's critical section; the back end is the thread in `threadFunc`,
one step at a time. Inside `waitForSeconds` the mutex is free, and the wait may end at
any time. -/
namespace Deon.Logging
open Library

abbrev Buffer := FixedBuffer kLargeBuffer

/-- Where `threadFunc` stands. -/
inductive Pc
  /-- before `thread_.start()` -/
  | unstarted
  /-- in front of `assert(running_ == true)` and `latch_.countDown()` -/
  | starting
  /-- in front of the constructors of the locals -/
  | constructing
  /-- at the test of the loop -/
  | looping
  /-- at the top of the loop, in front of the lock -/
  | entered
  /-- in `waitForSeconds` -/
  | waiting
  /-- in the critical section, behind the `if` -/
  | swapping
  | trimming
  | writing (i : Nat)
  | resizing
  | recycling1
  | recycling2
  | clearing
  /-- behind the loop -/
  | finished
  deriving DecidableEq, Repr

/-- What ends the program. -/
inductive Crash
  | assertion
  | nullPointer
  | overrun
  deriving DecidableEq, Repr

structure AsyncLogging where
  running : Bool
  heap : Nat → Buffer
  /-- the next address that `new Buffer` returns -/
  fresh : Nat
  currentBuffer : Option Nat
  nextBuffer : Option Nat
  buffers : List Nat
  pc : Pc
  newBuffer1 : Option Nat
  newBuffer2 : Option Nat
  buffersToWrite : List Nat
  /-- the bytes handed to the `LogFile` -/
  output : Bytes
  /-- history: the messages in the order of their `append` calls, and the contents of
  the buffers of each batch that the back end took -/
  appended : List Bytes
  batches : List (List Bytes)

/-- The contents of the buffers at these addresses. -/
def contents (heap : Nat → Buffer) (ids : List Nat) : List Bytes := ids.map fun id => (heap id).data

/-- `AsyncLogging::AsyncLogging`. -/
def init : AsyncLogging where
  running := false
  heap := fun _ => FixedBuffer.empty
  fresh := 2
  currentBuffer := some 0
  nextBuffer := some 1
  buffers := []
  pc := .unstarted
  newBuffer1 := none
  newBuffer2 := none
  buffersToWrite := []
  output := []
  appended := []
  batches := []

/-- `currentBuffer_->append(logline, len)`. -/
def appendCurrent (logline : Bytes) (s : AsyncLogging) : Except Crash AsyncLogging :=
  match s.currentBuffer with
  | none => .error .nullPointer
  | some id =>
    match (s.heap id).append logline with
    | none => .error .overrun
    | some b => .ok {s with heap := Function.update s.heap id b}

/-- `currentBuffer_` after it was pushed: the next buffer, or a new one. -/
def replaceCurrent (s : AsyncLogging) : AsyncLogging :=
  match s.nextBuffer with
  | some id => {s with currentBuffer := some id,nextBuffer := none}
  | none =>
    {s with
      currentBuffer := some s.fresh
      heap := Function.update s.heap s.fresh FixedBuffer.empty
      fresh := s.fresh + 1}

/-- `AsyncLogging::append`. -/
def append (logline : Bytes) (s : AsyncLogging) : Except Crash AsyncLogging :=
  match s.currentBuffer with
  | none => .error .nullPointer
  | some id => do
    let s ← (if (logline.length : Int) < (s.heap id).avail then appendCurrent logline s
      else appendCurrent logline (replaceCurrent {s with buffers := s.buffers ++ [id]}))
    return {s with appended := s.appended ++ [logline]}

/-- The buffer at the back of `buffersToWrite`, reset, and what is left. -/
def recycle (s : AsyncLogging) : Except Crash (Nat × AsyncLogging) :=
  match s.buffersToWrite.getLast? with
  | none => .error .assertion
  | some id => .ok (id,{s with
      buffersToWrite := s.buffersToWrite.dropLast
      heap := Function.update s.heap id FixedBuffer.empty})

/-- `ptr && ptr->length() == 0`. -/
def emptyBuffer (s : AsyncLogging) (slot : Option Nat) : Bool :=
  match slot with
  | none => false
  | some id => (s.heap id).data = []

/-- The next step of `threadFunc`; `none` before the thread is started and after it has
returned. -/
def backStep (s : AsyncLogging) : Option (Except Crash AsyncLogging) :=
  match s.pc with
  | .unstarted => none
  | .starting =>
    some (if s.running then .ok {s with pc := .constructing} else .error .assertion)
  | .constructing =>
    some (.ok {s with
      newBuffer1 := some s.fresh
      newBuffer2 := some (s.fresh + 1)
      heap := Function.update (Function.update s.heap s.fresh FixedBuffer.empty) (s.fresh + 1)
        FixedBuffer.empty
      fresh := s.fresh + 2
      pc := .looping})
  | .looping => some (.ok {s with pc := if s.running then .entered else .finished})
  | .entered =>
    if emptyBuffer s s.newBuffer1 && emptyBuffer s s.newBuffer2 && s.buffersToWrite.isEmpty then
      some (.ok {s with pc := if s.buffers = [] then .waiting else .swapping})
    else some (.error .assertion)
  | .waiting => some (.ok {s with pc := .swapping})
  | .swapping =>
    match s.currentBuffer with
    -- a null pointer would be pushed, and dereferenced when it is written
    | none => some (.error .nullPointer)
    | some id =>
      some (.ok {s with
        currentBuffer := s.newBuffer1
        newBuffer1 := none
        buffers := s.buffersToWrite
        buffersToWrite := s.buffers ++ [id]
        nextBuffer := if s.nextBuffer.isNone then s.newBuffer2 else s.nextBuffer
        newBuffer2 := if s.nextBuffer.isNone then none else s.newBuffer2
        batches := s.batches ++ [contents s.heap (s.buffers ++ [id])]
        pc := .trimming})
  | .trimming =>
    if s.buffersToWrite = [] then some (.error .assertion)
    else some (.ok {s with
      buffersToWrite :=
        if 25 < s.buffersToWrite.length then s.buffersToWrite.take 2 else s.buffersToWrite
      pc := .writing 0})
  | .writing i =>
    match s.buffersToWrite[i]? with
    | some id => some (.ok {s with output := s.output ++ (s.heap id).data,pc := .writing (i + 1)})
    | none => some (.ok {s with pc := .resizing})
  | .resizing =>
    some (.ok {s with
      buffersToWrite :=
        if 2 < s.buffersToWrite.length then s.buffersToWrite.take 2 else s.buffersToWrite
      pc := .recycling1})
  | .recycling1 =>
    if s.newBuffer1.isSome then some (.ok {s with pc := .recycling2})
    else some do
      let (id,s) ← recycle s
      return {s with newBuffer1 := some id,pc := .recycling2}
  | .recycling2 =>
    if s.newBuffer2.isSome then some (.ok {s with pc := .clearing})
    else some do
      let (id,s) ← recycle s
      return {s with newBuffer2 := some id,pc := .clearing}
  | .clearing => some (.ok {s with buffersToWrite := [],pc := .looping})
  | .finished => none

inductive Action
  | start
  | append (logline : Bytes)
  | stop
  | back

/-- One step of the program; `none` when the action cannot be taken. A message is as
long as its `int len` says. `stop` is called after `start` has returned. -/
def step (s : AsyncLogging) : Action → Option (Except Crash AsyncLogging)
  | .start => if s.pc = .unstarted then some (.ok {s with running := true,pc := .starting}) else none
  | .append logline =>
    if s.pc = .swapping ∨ 2^31 ≤ logline.length then none else some (append logline s)
  | .stop =>
    if s.running = true ∧ s.pc ≠ .unstarted ∧ s.pc ≠ .starting then
      some (.ok {s with running := false})
    else none
  | .back => backStep s

/-- What the actions require and lead to. -/
def Acts (s : AsyncLogging) (action : Action) (result : Except Crash AsyncLogging) : Prop :=
  match action with
  | .start => s.pc = .unstarted ∧ result = .ok {s with running := true,pc := .starting}
  | .append logline => s.pc ≠ .swapping ∧ logline.length < 2^31 ∧ result = append logline s
  | .stop =>
    s.running = true ∧ (s.pc ≠ .unstarted ∧ s.pc ≠ .starting) ∧ result = .ok {s with running := false}
  | .back => backStep s = some result

theorem step_cases {s : AsyncLogging} {action : Action} {result : Except Crash AsyncLogging}
    (stepped : step s action = some result) : Acts s action result := by
  unfold step at stepped
  cases action with
  | start =>
    obtain ⟨here,done⟩ := Option.ite_none_right_eq_some.mp stepped
    exact ⟨here,(Option.some.inj done).symm⟩
  | append logline =>
    obtain ⟨free,done⟩ := Option.ite_none_left_eq_some.mp stepped
    obtain ⟨free,small⟩ := not_or.mp free
    exact ⟨free,Nat.lt_of_not_le small,(Option.some.inj done).symm⟩
  | stop =>
    obtain ⟨⟨running,later⟩,done⟩ := Option.ite_none_right_eq_some.mp stepped
    exact ⟨running,later,(Option.some.inj done).symm⟩
  | back => exact stepped

def Steps (s : AsyncLogging) (action : Action) (s' : AsyncLogging) : Prop :=
  step s action = some (.ok s')

/-- The state behind the step, if the program goes on. -/
def next (s : AsyncLogging) (action : Action) : Option AsyncLogging :=
  (step s action).bind Except.toOption

theorem next_steps (s : AsyncLogging) (action : Action) (s' : AsyncLogging)
    (done : next s action = some s') : Steps s action s' := by
  obtain ⟨result,stepped,done⟩ := Option.bind_eq_some_iff.mp done
  cases result with
  | error => cases done
  | ok =>
    cases done
    exact stepped

end Deon.Logging
