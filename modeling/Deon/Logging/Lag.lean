import Deon.Logging.Stop
import Deon.Logging.Durable

/-! How far the back end of `AsyncLogging` may be behind. A batch is cut down to 25 buffers before it
is written, so that no turn of its loop is long, however much is appended meanwhile. -/
namespace Deon.Logging
open Library

/-- How many steps the back end takes at most until it is at the test of its loop. -/
def toLoop (s : AsyncLogging) : Nat :=
  match s.pc with
  | .unstarted | .starting => 2
  | .constructing => 1
  | .looping | .finished => 0
  | .entered => 34
  | .waiting => 33
  | .swapping => 32
  | .trimming => 31
  | .writing i => s.buffersToWrite.length - i + 5
  | .resizing => 4
  | .recycling1 => 3
  | .recycling2 => 2
  | .clearing => 1

/-- Behind its critical section the back end has to come round once more. -/
def Pc.again : Pc → Nat
  | .entered | .waiting | .swapping => 0
  | _ => 35

/-- How many steps it takes at most until what is queued now is written. -/
def behind (s : AsyncLogging) : Nat := toLoop s + s.pc.again

/-- How many steps it takes at most until it returns, if the log is stopped. -/
def toReturn (s : AsyncLogging) : Nat := if s.pc = .finished then 0 else toLoop s + 1

/-- What is written is a batch that was cut down. -/
def Trimmed (s : AsyncLogging) : Prop := ∀ i, s.pc = .writing i → s.buffersToWrite.length ≤ 25

def isBack : Action → Bool
  | .back => true
  | _ => false

/-- The steps of the back end among these. -/
def backs (acts : List (Action × Stdio)) : Nat := acts.countP fun act => isBack act.1

theorem kept_length {α : Type*} (batch : List α) : (kept batch).length ≤ 25 := by
  unfold kept
  split_ifs with long
  · rw [List.length_take]
    omega
  · omega

section

variable {s s' : AsyncLogging} {logline : Bytes}

theorem Appended.length (appended : Appended s logline s') :
    s'.buffersToWrite.length = s.buffersToWrite.length := by
  simpa [contents] using congrArg List.length appended.toWrite

theorem Trimmed.moved (trimmed : Trimmed s) {action : Action} (moved : Moved s action s') : Trimmed s' := by
  intro i there
  cases action with
  | start =>
    obtain ⟨_,rfl⟩ := moved
    cases there
  | append logline =>
    obtain ⟨_,appended⟩ := moved
    rw [appended.length]
    exact trimmed i (appended.pc ▸ there)
  | stop =>
    obtain ⟨_,rfl⟩ := moved
    exact trimmed i there
  | back =>
    cases moved with
    | trim => exact kept_length _
    | write here => exact trimmed _ here
    | _ => cases there

theorem behind_bounded (trimmed : Trimmed s) : behind s ≤ 66 := by
  unfold behind toLoop
  cases here : s.pc with
  | writing i =>
    have short := trimmed i here
    simp only [Pc.again]
    omega
  | _ => simp [Pc.again]

theorem toReturn_bounded (trimmed : Trimmed s) : toReturn s ≤ 35 := by
  unfold toReturn toLoop
  cases here : s.pc with
  | writing i =>
    have short := trimmed i here
    simp only [reduceCtorEq,if_false]
    omega
  | _ => simp

theorem toLoop_back (moved : Back s s') (busy : s.pc ≠ .looping) : toLoop s' + 1 ≤ toLoop s := by
  unfold toLoop
  cases moved with
  | enter here | leave here => exact absurd here busy
  | trim here =>
    rw [here]
    exact Nat.add_le_add_right (Nat.add_le_add_right (kept_length _) 5) 1
  | write here held =>
    have inside := (List.getElem?_eq_some_iff.mp held).1
    rw [here]
    dsimp only
    omega
  | written here =>
    rw [here]
    dsimp only
    omega
  | run here | construct here | wait here | hurry here | wake here | swap here | resize here
  | refill1 here | keep2 here | refill2 here | clear here => simp [here]

theorem toLoop_appended (appended : Appended s logline s') : toLoop s' = toLoop s := by
  unfold toLoop
  rw [appended.pc,appended.length]

end

/-- A flush and a record only add to the file. -/
theorem LogFile.append_disk {f f' : LogFile} {logline : Bytes} {io : Stdio}
    (appended : f.append logline io = some f') : f.disk <+: f'.disk := by
  obtain ⟨part,_,rfl⟩ := LogFile.append_cases appended
  have taken : f.disk <+: (f.stream.take part io.spilled).disk := f.stream.take_disk part io.spilled
  split
  · exact taken.trans (Stream.flush_disk _ _)
  · exact taken

section

variable {p p' : Pipeline} {action : Action} {io : Stdio} {acts : List (Action × Stdio)}

theorem disk_grows (stepped : p.Steps (action,io) p') : p.file.disk <+: p'.file.disk := by
  obtain ⟨_,handled⟩ := Pipeline.step_cases stepped
  cases action with
  | back =>
    unfold Pipeline.fileBehind Pipeline.backFile at handled
    dsimp only at handled
    split at handled
    · split at handled
      · exact LogFile.append_disk handled
      · exact Option.some.inj handled ▸ List.prefix_rfl
    · exact Option.some.inj handled ▸ Stream.flush_disk _ _
    · have same := Option.some.inj handled
      split at same
      · exact same ▸ List.prefix_rfl
      · exact same ▸ Stream.flush_disk _ _
    · exact Option.some.inj handled ▸ List.prefix_rfl
  | _ => exact Option.some.inj handled ▸ List.prefix_rfl

theorem run_grows (run : Run Pipeline.Steps p acts p') : p.file.disk <+: p'.file.disk := by
  induction run with
  | nil => exact List.prefix_rfl
  | @cons p middle p' act acts first rest ih =>
    obtain ⟨action,io⟩ := act
    exact (disk_grows first).trans ih

/-- What every state of the log is like. -/
structure Steady (p : Pipeline) : Prop where
  owned : Owned p.logging
  order : InOrder p.logging
  durable : Durable p
  trimmed : Trimmed p.logging

theorem Steady.step (steady : Steady p) (works : Works io) (stepped : p.Steps (action,io) p') :
    Steady p' := by
  obtain ⟨logged,_⟩ := Pipeline.step_cases stepped
  have moved := steady.owned.moved logged
  exact ⟨steady.owned.steps logged,steady.order.moved steady.owned moved,
    steady.durable.step steady.owned works stepped,steady.trimmed.moved moved⟩

theorem start_steady : Steady Pipeline.start where
  owned := init_owned
  order := init_inOrder
  durable := start_durable
  trimmed _ there := by cases there

theorem Steady.run (steady : Steady p) (run : Run Pipeline.Steps p acts p')
    (works : ∀ act ∈ acts, Works act.2) : Steady p' :=
  run.invariant_of Steady (fun act : Action × Stdio => Works act.2)
    (fun _ _ _ steady works stepped => steady.step works stepped) works steady

theorem Owned.more_batches {s s' : AsyncLogging} (owned : Owned s) (moved : Moved s action s') :
    s.batches <+: s'.batches := by
  cases action with
  | start =>
    obtain ⟨_,rfl⟩ := moved
    exact List.prefix_rfl
  | append logline => exact moved.2.batches ▸ List.prefix_rfl
  | stop =>
    obtain ⟨_,rfl⟩ := moved
    exact List.prefix_rfl
  | back =>
    obtain ⟨_,_,queue⟩ := owned.back_queue moved
    split at queue
    · exact queue.2.1 ▸ List.prefix_append _ _
    · exact queue.1 ▸ List.prefix_rfl

theorem run_batches (steady : Steady p) (run : Run Pipeline.Steps p acts p')
    (works : ∀ act ∈ acts, Works act.2) : p.logging.batches <+: p'.logging.batches := by
  induction run with
  | nil => exact List.prefix_rfl
  | @cons p middle p' act acts first rest ih =>
    obtain ⟨action,io⟩ := act
    obtain ⟨now,later⟩ := List.forall_mem_cons.mp works
    have moved := steady.owned.moved (Pipeline.step_cases first).1
    exact (steady.owned.more_batches moved).trans (ih (steady.step now first) later)

/-- How far these bytes have come on their way to the file, and how many steps of the back end they
need at most for the rest of it. -/
inductive Lag (known : Bytes) (p : Pipeline) (needed : Nat) : Prop
  | written (there : known <+: p.file.disk)
  | taken (there : known <+: p.logging.batches.flatten.flatten) (soon : toLoop p.logging ≤ needed)
  | queued (there : known <+: (stored p.logging.appended).flatten) (soon : behind p.logging ≤ needed)

section

variable {known : Bytes} {needed : Nat}

/-- What was taken is in the file as soon as the back end is at the test of its loop. -/
theorem Steady.rests (steady : Steady p) (short : ∀ batch ∈ p.logging.batches, batch.length ≤ 25)
    (here : p.logging.pc = .looping ∨ p.logging.pc = .finished) :
    p.file.disk = p.logging.batches.flatten.flatten := by
  rw [steady.durable.rests steady.order here,kept_short short]

theorem toLoop_zero {s : AsyncLogging} (none : toLoop s = 0) : s.pc = .looping ∨ s.pc = .finished := by
  unfold toLoop at none
  cases here : s.pc <;> simp_all

theorem behind_positive (s : AsyncLogging) : 0 < behind s := by
  unfold behind toLoop
  cases s.pc <;> simp [Pc.again]

theorem Lag.arrived (lag : Lag known p 0) (steady : Steady p)
    (short : ∀ batch ∈ p.logging.batches, batch.length ≤ 25) : known <+: p.file.disk := by
  cases lag with
  | written there => exact there
  | taken there soon =>
    rw [steady.rests short (toLoop_zero (Nat.le_zero.mp soon))]
    exact there
  | queued _ soon => exact absurd (behind_positive p.logging) (Nat.not_lt.mpr soon)

theorem prefix_flatten {batches batches' : List (List Bytes)} (grows : batches <+: batches') :
    batches.flatten.flatten <+: batches'.flatten.flatten := by
  obtain ⟨more,rfl⟩ := grows
  rw [List.flatten_append,List.flatten_append]
  exact List.prefix_append _ _

theorem Moved.others {s s' : AsyncLogging} (moved : Moved s action s') (other : isBack action = false) :
    toLoop s' = toLoop s ∧ s'.pc.again = s.pc.again ∧
      (stored s.appended).flatten <+: (stored s'.appended).flatten := by
  cases action with
  | start =>
    obtain ⟨here,rfl⟩ := moved
    rw [here]
    exact ⟨by simp [toLoop,here],rfl,List.prefix_rfl⟩
  | append logline =>
    obtain ⟨_,appended⟩ := moved
    refine ⟨toLoop_appended appended,by rw [appended.pc],?_⟩
    rw [appended.appended,stored_append,List.flatten_append]
    exact List.prefix_append _ _
  | stop =>
    obtain ⟨_,rfl⟩ := moved
    exact ⟨rfl,rfl,List.prefix_rfl⟩
  | back => cases other

/-- The front end does not get in the way of what is already on its way. -/
theorem Lag.other (lag : Lag known p needed) (steady : Steady p) (other : isBack action = false)
    (stepped : p.Steps (action,io) p') : Lag known p' needed := by
  have moved := steady.owned.moved (Pipeline.step_cases stepped).1
  obtain ⟨loop,again,more⟩ := moved.others other
  cases lag with
  | written there => exact .written (there.trans (disk_grows stepped))
  | taken there soon =>
    exact .taken (there.trans (prefix_flatten (steady.owned.more_batches moved))) (loop ▸ soon)
  | queued there soon =>
    refine .queued (there.trans more) ?_
    rw [behind,loop,again]
    exact soon

theorem again_back {s s' : AsyncLogging} (moved : Back s s') (before : s.pc ≠ .swapping)
    (busy : s.pc ≠ .looping) : s'.pc.again = s.pc.again := by
  cases moved with
  | swap here => exact absurd here before
  | enter here | leave here => exact absurd here busy
  | run here | construct here | wait here | hurry here | wake here | trim here | write here | written here
  | resize here | refill1 here | keep2 here | refill2 here | clear here =>
    rw [here]
    rfl

theorem enter_back {s s' : AsyncLogging} (moved : Back s s') (round : s.pc = .looping)
    (goes : s.running = true) : s'.pc = .entered := by
  cases moved with
  | enter => rfl
  | leave _ stopped => simp [goes] at stopped
  | run here | construct here | wait here | hurry here | wake here | swap here | trim here | write here
  | written here | resize here | refill1 here | keep2 here | refill2 here | clear here =>
    simp [round] at here

theorem leave_back {s s' : AsyncLogging} (moved : Back s s') (round : s.pc = .looping)
    (stopped : s.running = false) : s'.pc = .finished := by
  cases moved with
  | leave => rfl
  | enter _ goes => simp [stopped] at goes
  | run here | construct here | wait here | hurry here | wake here | swap here | trim here | write here
  | written here | resize here | refill1 here | keep2 here | refill2 here | clear here =>
    simp [round] at here

/-- A step of the back end brings it closer, if it is not about to leave its loop. -/
theorem Lag.back (lag : Lag known p (needed + 1)) (steady : Steady p)
    (short : ∀ batch ∈ p.logging.batches, batch.length ≤ 25)
    (running : p.logging.pc = .looping → p.logging.running = true)
    (stepped : p.Steps (.back,io) p') : Lag known p' needed := by
  have moved : Back p.logging p'.logging := steady.owned.moved (Pipeline.step_cases stepped).1
  have acts : Moved p.logging .back p'.logging := moved
  have grows := disk_grows stepped
  cases lag with
  | written there => exact .written (there.trans grows)
  | taken there soon =>
    by_cases here : p.logging.pc = .looping
    · rw [← steady.rests short (.inl here)] at there
      exact .written (there.trans grows)
    · have closer := toLoop_back moved here
      have more := prefix_flatten (steady.owned.more_batches acts)
      exact .taken (there.trans more) (by omega)
  | queued there soon =>
    obtain ⟨appended,_,queue⟩ := steady.owned.back_queue moved
    by_cases here : p.logging.pc = .swapping
    · rw [if_pos here] at queue
      obtain ⟨_,batches,_⟩ := queue
      have closer := toLoop_back moved (by simp [here])
      have all : p'.logging.batches.flatten = p.logging.batches.flatten ++
          Logging.queued p.logging := by
        rw [batches,List.flatten_append,List.flatten_singleton]
      rw [steady.order.taken,← all] at there
      unfold behind at soon
      exact .taken there (by omega)
    · refine .queued (appended ▸ there) ?_
      by_cases round : p.logging.pc = .looping
      · have goes := running round
        have entered := enter_back moved round goes
        simp only [behind,toLoop,round,entered,Pc.again] at soon ⊢
        omega
      · have closer := toLoop_back moved round
        have same := again_back moved here round
        unfold behind at soon ⊢
        omega

end

/-- The log has not been stopped. -/
def Unstopped (s : AsyncLogging) : Prop := s.pc = .unstarted ∨ s.running = true

/-- The log was started, and then stopped. -/
structure Stopped (s : AsyncLogging) : Prop where
  begun : s.pc ≠ .unstarted
  ended : s.running = false

section

variable {s s' : AsyncLogging}

theorem Back.begun (moved : Back s s') : s.pc ≠ .unstarted ∧ s'.pc ≠ .unstarted := by
  cases moved with
  | run here | construct here | enter here | leave here | wait here | hurry here | wake here | swap here
  | trim here | write here | written here | resize here | refill1 here | keep2 here | refill2 here
  | clear here => simp [here]

theorem Unstopped.moved (unstopped : Unstopped s) (owned : Owned s) (goes : action ≠ .stop)
    (moved : Moved s action s') : Unstopped s' := by
  cases action with
  | start =>
    obtain ⟨_,rfl⟩ := moved
    exact .inr rfl
  | append logline =>
    obtain ⟨_,appended⟩ := moved
    rw [Unstopped,appended.pc,appended.running]
    exact unstopped
  | stop => exact absurd rfl goes
  | back =>
    have running := unstopped.resolve_left (Back.begun moved).1
    exact .inr ((owned.back_queue moved).2.1.trans running)

theorem Stopped.moved (stopped : Stopped s) (owned : Owned s) (moved : Moved s action s') :
    Stopped s' ∧ toReturn s' + (if isBack action then 1 else 0) ≤ toReturn s := by
  obtain ⟨begun,ended⟩ := stopped
  cases action with
  | start => exact absurd moved.1 begun
  | append logline =>
    obtain ⟨_,appended⟩ := moved
    refine ⟨⟨appended.pc ▸ begun,appended.running.trans ended⟩,?_⟩
    rw [toReturn,appended.pc,toLoop_appended appended]
    exact Nat.le_refl _
  | stop =>
    obtain ⟨_,rfl⟩ := moved
    exact ⟨⟨begun,rfl⟩,Nat.le_refl _⟩
  | back =>
    refine ⟨⟨(Back.begun moved).2,(owned.back_queue moved).2.1.trans ended⟩,?_⟩
    have goes : s.pc ≠ .finished := by
      intro here
      cases moved <;> simp_all
    rw [toReturn,toReturn,if_neg goes]
    by_cases round : s.pc = .looping
    · have left : s'.pc = .finished := leave_back moved round ended
      rw [if_pos left]
      exact Nat.le_add_left ..
    · have closer := toLoop_back moved round
      split <;> simp only [isBack,if_true] <;> omega

end

section

variable {known : Bytes} {needed : Nat}

theorem Lag.run (lag : Lag known p needed) (steady : Steady p) (unstopped : Unstopped p.logging)
    (run : Run Pipeline.Steps p acts p') (works : ∀ act ∈ acts, Works act.2)
    (goes : ∀ act ∈ acts, act.1 ≠ .stop) (short : ∀ batch ∈ p'.logging.batches, batch.length ≤ 25)
    (enough : needed ≤ backs acts) : known <+: p'.file.disk := by
  induction run generalizing needed with
  | nil =>
    obtain rfl : needed = 0 := Nat.le_zero.mp enough
    exact lag.arrived steady short
  | @cons p middle p' act acts first rest ih =>
    obtain ⟨action,io⟩ := act
    have whole : Run Pipeline.Steps p ((action,io) :: acts) p' := .cons first rest
    have shorter : ∀ batch ∈ p.logging.batches, batch.length ≤ 25 :=
      fun batch member => short batch ((run_batches steady whole works).subset member)
    obtain ⟨now,later⟩ := List.forall_mem_cons.mp works
    obtain ⟨going,on⟩ := List.forall_mem_cons.mp goes
    have moved := steady.owned.moved (Pipeline.step_cases first).1
    have next := steady.step now first
    have still := unstopped.moved steady.owned going moved
    cases needed with
    | zero => exact (lag.arrived steady shorter).trans (run_grows whole)
    | succ needed =>
      cases which : isBack action with
      | false =>
        have same : backs ((action,io) :: acts) = backs acts := by simp [backs,which]
        exact ih (lag.other steady which first) next still later on short (same ▸ enough)
      | true =>
        have more : backs ((action,io) :: acts) = backs acts + 1 := by simp [backs,which]
        obtain rfl : action = .back := by
          cases action with
          | back => rfl
          | _ => cases which
        have begun := (Back.begun moved).1
        have closer := lag.back steady shorter (fun _ => unstopped.resolve_left begun) first
        exact ih closer next still later on short (by omega)

theorem Stopped.run (stopped : Stopped p.logging) (steady : Steady p) (run : Run Pipeline.Steps p acts p')
    (works : ∀ act ∈ acts, Works act.2) : toReturn p'.logging + backs acts ≤ toReturn p.logging := by
  induction run with
  | nil => exact Nat.le_refl _
  | @cons p middle p' act acts first rest ih =>
    obtain ⟨action,io⟩ := act
    obtain ⟨now,later⟩ := List.forall_mem_cons.mp works
    have moved := steady.owned.moved (Pipeline.step_cases first).1
    obtain ⟨still,closer⟩ := stopped.moved steady.owned moved
    have rest := ih still (steady.step now first) later
    have parts : backs ((action,io) :: acts) = backs acts + if isBack action then 1 else 0 :=
      List.countP_cons ..
    omega

end

theorem run_stopped (run : Run Pipeline.Steps p acts p') (steady : Steady p)
    (works : ∀ act ∈ acts, Works act.2) {io : Stdio} (stops : (.stop,io) ∈ acts) : Stopped p'.logging := by
  obtain ⟨before,after,rfl⟩ := List.append_of_mem stops
  obtain ⟨middle,first,rest⟩ := run.split
  obtain ⟨early,later⟩ := List.forall_mem_append.mp works
  have there := steady.run first early
  obtain _ | ⟨one,last⟩ := rest
  obtain ⟨now,later⟩ := List.forall_mem_cons.mp later
  obtain ⟨⟨begun,_⟩,same⟩ := there.owned.moved (Pipeline.step_cases one).1
  have stopped : Stopped _ := same ▸ (⟨begun,rfl⟩ : Stopped {middle.logging with running := false})
  refine (last.invariant_of (fun p => Steady p ∧ Stopped p.logging) (fun act => Works act.2) ?_ later
    ⟨there.step now one,stopped⟩).2
  rintro s ⟨action,io⟩ s' ⟨steady,stopped⟩ works stepped
  have moved := steady.owned.moved (Pipeline.step_cases stepped).1
  exact ⟨steady.step works stepped,(stopped.moved steady.owned moved).1⟩

/-- The back end is never stuck. -/
theorem Owned.goes {s : AsyncLogging} (owned : Owned s) (begun : s.pc ≠ .unstarted) :
    s.pc = .finished ∨ ∃ s', backStep s = some (.ok s') := by
  cases stepped : backStep s with
  | none =>
    unfold backStep at stepped
    cases here : s.pc with
    | unstarted => exact absurd here begun
    | finished => exact .inl rfl
    | starting | constructing | looping | waiting | resizing | clearing =>
      simp only [here,reduceCtorEq] at stepped
    | entered | swapping | trimming | writing | recycling1 | recycling2 =>
      simp only [here] at stepped
      split at stepped <;> cases stepped
  | some result =>
    obtain ⟨s',rfl,_⟩ := owned.back stepped
    exact .inr ⟨s',rfl⟩

/-- While the log is not stopped and no batch is longer than 25 buffers, everything that was appended
is in the file, as stored, after at most 66 steps of the back end, however much is appended in
between: a message of `kLargeBuffer` bytes or more is dropped. Once it is stopped, the back end
returns after at most 35 steps, and is stuck at none of them. -/
theorem log_keeps_up {p p' : Pipeline} {acts more : List (Action × Stdio)}
    (run : Run Pipeline.Steps Pipeline.start acts p) (later : Run Pipeline.Steps p more p')
    (works : ∀ act ∈ acts ++ more, Works act.2) :
    ((∀ act ∈ acts ++ more, act.1 ≠ .stop) → (∀ batch ∈ p'.logging.batches, batch.length ≤ 25) →
      66 ≤ backs more → (stored (messages (acts.map Prod.fst))).flatten <+: p'.file.disk) ∧
    ∀ io, (.stop,io) ∈ acts → backs more ≤ 35 ∧ (backs more = 35 → p'.logging.pc = .finished) ∧
      (p'.logging.pc = .finished ∨ ∃ s, backStep p'.logging = some (.ok s)) := by
  obtain ⟨early,late⟩ := List.forall_mem_append.mp works
  have steady := start_steady.run run early
  have appended : p.logging.appended = messages (acts.map Prod.fst) :=
    run_messages (run_durable run early init_owned start_durable).2 init_owned
  constructor
  · intro goes short enough
    obtain ⟨going,on⟩ := List.forall_mem_append.mp goes
    have unstopped : Steady p ∧ Unstopped p.logging := by
      refine run.invariant_of (fun p => Steady p ∧ Unstopped p.logging)
        (fun act => Works act.2 ∧ act.1 ≠ .stop) ?_ (fun act member => ⟨early act member,going act member⟩)
        ⟨start_steady,.inl rfl⟩
      rintro s ⟨action,io⟩ s' ⟨steady,unstopped⟩ ⟨works,goes⟩ stepped
      have moved := steady.owned.moved (Pipeline.step_cases stepped).1
      exact ⟨steady.step works stepped,unstopped.moved steady.owned goes moved⟩
    have bounded := behind_bounded steady.trimmed
    rw [← appended]
    exact (Lag.queued List.prefix_rfl bounded).run steady unstopped.2 later late on short enough
  · intro io stops
    have stopped := run_stopped run start_steady early stops
    have bounded := toReturn_bounded steady.trimmed
    have closer := stopped.run steady later late
    have after := run_stopped (run.append later) start_steady works (List.mem_append_left _ stops)
    refine ⟨by omega,fun all => ?_,(steady.run later late).owned.goes after.begun⟩
    have done : toReturn p'.logging = 0 := by omega
    unfold toReturn at done
    split at done
    · assumption
    · omega

end

/-- A message is appended, and the back end comes round six times. -/
def sayA : List (Action × Stdio) := [.start,.back,.back,.append [65]].map (·,⟨[],0,none⟩)

def sixTimes : List (Action × Stdio) := List.replicate 66 (.back,⟨[⟨1,false⟩],0,none⟩)

theorem log_keeps_up_sample : ∃ p p', perform Pipeline.step Pipeline.start sayA = some p ∧
    perform Pipeline.step p sixTimes = some p' ∧ [65] <+: p'.file.disk := by
  have taken : ((perform Pipeline.step Pipeline.start sayA).bind fun p =>
      (perform Pipeline.step p sixTimes).map fun p' =>
        p'.logging.batches.all fun batch => decide (batch.length ≤ 25)) = some true := by decide
  obtain ⟨p,done,rest⟩ := Option.bind_eq_some_iff.mp taken
  obtain ⟨p',again,short⟩ := Option.map_eq_some_iff.mp rest
  have fine : ∀ act ∈ sayA ++ sixTimes, Works act.2 ∧ act.1 ≠ .stop := by
    refine List.forall_mem_append.mpr ⟨?_,fun act member => ?_⟩
    · simp only [sayA,List.map_cons,List.map_nil,List.forall_mem_cons]
      have quiet : Works ⟨[],0,none⟩ := ⟨by simp,rfl⟩
      simp [quiet]
    · rw [List.eq_of_mem_replicate member]
      exact ⟨⟨by decide,rfl⟩,Action.noConfusion⟩
  have kept := (@log_keeps_up p p' sayA sixTimes (perform_run (fun _ _ _ stepped => stepped) done)
    (perform_run (fun _ _ _ stepped => stepped) again) fun act member => (fine act member).1).1
      (fun act member => (fine act member).2) (by simpa using short) (by decide)
  exact ⟨p,p',done,again,kept⟩

end Deon.Logging
