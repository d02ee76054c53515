import Deon.Logging.LogFile
import Deon.Logging.Order

/-! The log on its way to the disk: the front end and the back end of `AsyncLogging`, and the
`LogFile` that the back end writes to and flushes behind every batch. -/
namespace Deon.Logging
open Library

structure Pipeline where
  logging : AsyncLogging
  file : LogFile

namespace Pipeline

/-- `LogFile output(basename_)`, with the flush interval that is its default. -/
def start : Pipeline := ⟨init,.construct 1024⟩

/-- What a step of the back end does with the file: it hands over the next buffer, and flushes
behind a batch and behind the loop. -/
def backFile (p : Pipeline) (io : Stdio) : Option LogFile :=
  match p.logging.pc with
  | .writing i =>
    match p.logging.buffersToWrite[i]? with
    | some id => p.file.append (p.logging.heap id).data io
    | none => some p.file
  | .clearing => some (p.file.flush io)
  | .looping => some (if p.logging.running then p.file else p.file.flush io)
  | _ => some p.file

def fileBehind (p : Pipeline) (io : Stdio) : Action → Option LogFile
  | .back => p.backFile io
  | _ => some p.file

def step (p : Pipeline) (act : Action × Stdio) : Option Pipeline := do
  let logging ← next p.logging act.1
  let file ← p.fileBehind act.2 act.1
  return ⟨logging,file⟩

def Steps (p : Pipeline) (act : Action × Stdio) (p' : Pipeline) : Prop := p.step act = some p'

end Pipeline

/-- No call of `fwrite_unlocked` takes nothing, and the flush works. -/
structure Works (io : Stdio) : Prop where
  fwrites : ∀ result ∈ io.fwrites, result.count ≠ 0
  flushed : io.flushed = none

/-- The places of the back end where nothing was written since the last flush. -/
def Pc.flushed : Pc → Bool
  | .writing (_ + 1) | .resizing | .recycling1 | .recycling2 | .clearing => false
  | _ => true

/-- The file has what was handed to it, and all of it where the back end has flushed. -/
structure Durable (p : Pipeline) : Prop where
  accepted : p.file.stream.accepted = p.logging.output
  flushed : p.logging.pc.flushed = true → p.file.disk = p.logging.output

namespace Pipeline

variable {p p' : Pipeline} {action : Action} {io : Stdio}

theorem step_cases (stepped : p.Steps (action,io) p') :
    Logging.Steps p.logging action p'.logging ∧ p.fileBehind io action = some p'.file := by
  obtain ⟨logging,moved,rest⟩ := Option.bind_eq_some_iff.mp stepped
  obtain ⟨file,handled,done⟩ := Option.bind_eq_some_iff.mp rest
  obtain rfl := Option.some.inj done
  exact ⟨next_steps _ _ _ moved,handled⟩

end Pipeline

section

variable {p p' : Pipeline} {action : Action} {io : Stdio}

theorem Durable.stays (durable : Durable p) (file : p'.file = p.file)
    (output : p'.logging.output = p.logging.output)
    (place : p'.logging.pc.flushed = true → p.logging.pc.flushed = true) : Durable p' where
  accepted := by rw [file,output]; exact durable.accepted
  flushed here := by rw [file,output]; exact durable.flushed (place here)

/-- A flush makes up for everything since the last one. -/
theorem Durable.flush (durable : Durable p) (works : Works io) (file : p'.file = p.file.flush io)
    (output : p'.logging.output = p.logging.output) : Durable p' where
  accepted := by
    rw [file,output,LogFile.flush,Stream.flush_accepted]
    exact durable.accepted
  flushed _ := by
    rw [file,output,LogFile.flush,works.flushed]
    exact (Stream.flush_works _).trans durable.accepted

theorem Durable.write (durable : Durable p) (works : Works io) {logline : Bytes}
    (appended : p.file.append logline io = some p'.file)
    (output : p'.logging.output = p.logging.output ++ logline)
    (place : p'.logging.pc.flushed = false) : Durable p' where
  accepted := by
    obtain ⟨part,accepts,same⟩ := LogFile.append_cases appended
    obtain rfl := accepts.whole works.fwrites
    rw [same,output,← durable.accepted]
    split
    · exact Stream.flush_accepted _ _
    · rfl
  flushed here := by simp [place] at here

theorem Durable.back (durable : Durable p) (works : Works io) (moved : Back p.logging p'.logging)
    (handled : p.backFile io = some p'.file) : Durable p' := by
  obtain ⟨s,file⟩ := p
  obtain ⟨s',file'⟩ := p'
  unfold Pipeline.backFile at handled
  dsimp only at moved handled
  cases moved with
  | run here | construct here | wait here | hurry here | wake here | swap here | trim here
  | resize here | refill1 here | keep2 here | refill2 here =>
    rw [here] at handled
    obtain rfl := Option.some.inj handled
    refine durable.stays rfl rfl ?_
    simp only [here,Pc.flushed,imp_self,Bool.false_eq_true]
  | enter here running =>
    rw [here] at handled
    simp only [running,if_true,Option.some.injEq] at handled
    subst handled
    refine durable.stays rfl rfl ?_
    simp only [here,Pc.flushed,imp_self]
  | leave here stopped =>
    rw [here] at handled
    simp only [stopped,Bool.false_eq_true,if_false,Option.some.injEq] at handled
    exact durable.flush works handled.symm rfl
  | write here held =>
    rw [here] at handled
    simp only [held] at handled
    exact durable.write works handled rfl rfl
  | written here behind =>
    rw [here] at handled
    simp only [behind,Option.some.injEq] at handled
    subst handled
    exact durable.stays rfl rfl (by simp [Pc.flushed])
  | clear here =>
    rw [here] at handled
    exact durable.flush works (Option.some.inj handled).symm rfl

theorem Durable.step (durable : Durable p) (owned : Owned p.logging) (works : Works io)
    (stepped : p.Steps (action,io) p') : Durable p' := by
  obtain ⟨logged,handled⟩ := Pipeline.step_cases stepped
  have moved := owned.moved logged
  cases action with
  | start =>
    obtain ⟨here,same⟩ := moved
    refine durable.stays (Option.some.inj handled).symm (by rw [same]) fun _ => ?_
    rw [here]
    rfl
  | append logline =>
    obtain ⟨_,appended⟩ := moved
    exact durable.stays (Option.some.inj handled).symm appended.output (by rw [appended.pc]; exact id)
  | stop =>
    obtain ⟨_,same⟩ := moved
    exact durable.stays (Option.some.inj handled).symm (by rw [same]) (by rw [same]; exact id)
  | back => exact durable.back works moved handled

end

theorem start_durable : Durable Pipeline.start := ⟨rfl,fun _ => rfl⟩

theorem run_durable {p p' : Pipeline} {acts : List (Action × Stdio)}
    (run : Run Pipeline.Steps p acts p') (works : ∀ act ∈ acts, Works act.2) (owned : Owned p.logging)
    (durable : Durable p) : Durable p' ∧ Run Steps p.logging (acts.map Prod.fst) p'.logging := by
  induction run with
  | nil p => exact ⟨durable,.nil _⟩
  | @cons p middle p' act acts first rest ih =>
    obtain ⟨now,later⟩ := List.forall_mem_cons.mp works
    have logged := (Pipeline.step_cases first).1
    obtain ⟨held,logs⟩ := ih later (owned.steps logged) (durable.step owned now first)
    exact ⟨held,.cons logged logs⟩

section

variable {p : Pipeline}

theorem Durable.front (durable : Durable p) (order : InOrder p.logging) :
    p.file.disk <+: (p.logging.batches.map kept).flatten.flatten := by
  have front : p.file.disk <+: p.logging.output := durable.accepted ▸ p.file.stream.disk_prefix
  exact front.trans (order.handed ▸ List.prefix_append _ _)

/-- Between two batches and behind the loop. -/
theorem Durable.rests (durable : Durable p) (order : InOrder p.logging)
    (here : p.logging.pc = .looping ∨ p.logging.pc = .finished) :
    p.file.disk = (p.logging.batches.map kept).flatten.flatten := by
  have none : toWrite p.logging = [] := by rcases here with here | here <;> simp [toWrite,here]
  have settled : p.logging.pc.flushed = true := by rcases here with here | here <;> rw [here] <;> rfl
  rw [durable.flushed settled,← order.handed,none]
  simp

end

theorem kept_short {batches : List (List Bytes)} (short : ∀ batch ∈ batches, batch.length ≤ 25) :
    batches.map kept = batches :=
  (List.map_congr_left fun batch member => if_neg (Nat.not_lt.mpr (short batch member))).trans
    (List.map_id _)

/-- At every moment of every run the file holds a front part of the log: of what the back end has
taken, and of the messages themselves while no batch is longer than 25 buffers. Between two batches
and behind the loop it lacks nothing but what is still queued. -/
theorem log_reaches_disk {p : Pipeline} {acts : List (Action × Stdio)}
    (run : Run Pipeline.Steps Pipeline.start acts p) (works : ∀ act ∈ acts, Works act.2) :
    p.file.disk <+: (p.logging.batches.map kept).flatten.flatten ∧
      (p.logging.pc = .looping ∨ p.logging.pc = .finished →
        p.file.disk = (p.logging.batches.map kept).flatten.flatten) ∧
      ((∀ batch ∈ p.logging.batches, batch.length ≤ 25) →
        p.file.disk <+: (stored (messages (acts.map Prod.fst))).flatten ∧
        (p.logging.pc = .looping ∨ p.logging.pc = .finished →
          p.file.disk ++ (queued p.logging).flatten =
            (stored (messages (acts.map Prod.fst))).flatten)) := by
  obtain ⟨durable,logged⟩ := run_durable run works init_owned start_durable
  obtain ⟨_,order⟩ := run_inOrder logged init_owned init_inOrder
  have appended : p.logging.appended = messages (acts.map Prod.fst) := run_messages logged init_owned
  have front := durable.front order
  have rests := durable.rests order
  refine ⟨front,rests,fun short => ?_⟩
  have taken := order.taken
  rw [appended,List.flatten_append] at taken
  rw [kept_short short] at front rests
  rw [taken]
  exact ⟨front.trans (List.prefix_append _ _),fun here => by rw [rests here]⟩

/-- One message is written out and flushed, and the next one is queued. -/
def sampleActs : List (Action × Stdio) :=
  [.start,.back,.back,.append [65,66]].map (·,⟨[],0,none⟩) ++
    List.replicate 11 (.back,⟨[⟨1,false⟩,⟨1,false⟩],0,none⟩) ++ [(.append [67],⟨[],0,none⟩)]

theorem log_reaches_disk_sample : ∃ p, perform Pipeline.step Pipeline.start sampleActs = some p ∧
    p.file.disk <+: (p.logging.batches.map kept).flatten.flatten ∧
      (p.logging.pc = .looping ∨ p.logging.pc = .finished →
        p.file.disk = (p.logging.batches.map kept).flatten.flatten) := by
  have taken : (perform Pipeline.step Pipeline.start sampleActs).isSome = true := rfl
  obtain ⟨p,done⟩ := Option.isSome_iff_exists.mp taken
  obtain ⟨front,between,_⟩ := @log_reaches_disk p sampleActs
    (perform_run (fun _ _ _ stepped => stepped) done) (by
      intro act member
      have io : act.2 = ⟨[],0,none⟩ ∨ act.2 = ⟨[⟨1,false⟩,⟨1,false⟩],0,none⟩ := by
        revert act
        decide
      rcases io with same | same <;> rw [same] <;> exact ⟨by decide,rfl⟩)
  exact ⟨p,done,front,between⟩

end Deon.Logging
