import Deon.Logging.Durable
import Deon.Logging.Logger
import Mathlib.Data.List.Flatten

/-! `LOG` statements on their way to the disk. A record is far smaller than a buffer of
`AsyncLogging`, so that none is dropped for its size, and a buffer is queued only when it is nearly
full. -/
namespace Deon.Logging
open Library

/-- A statement that was executed: the time, what was inserted, and the place in the source. -/
structure Statement where
  time : Bytes
  insertions : List Insertion
  basename : Bytes
  line : Integer

def Statement.record (one : Statement) : Option Bytes :=
  Logging.record one.time one.insertions one.basename one.line

/-- Every message of the log is the record of a statement. -/
def Said (messages : List Bytes) : Prop :=
  ∀ logline ∈ messages, ∃ one : Statement, one.record = some logline

theorem Said.short {messages : List Bytes} (said : Said messages) :
    ∀ logline ∈ messages, logline.length ≤ kSmallBuffer := by
  intro logline member
  obtain ⟨one,recorded⟩ := said logline member
  exact record_inside recorded

/-- A buffer that a record did not fit into. -/
def Full (data : Bytes) : Prop := kLargeBuffer ≤ data.length + kSmallBuffer

/-- The buffers in `buffers_` are full, and the batches that were taken consist of full buffers but
for the last one. -/
structure Crammed (s : AsyncLogging) : Prop where
  buffers : ∀ data ∈ contents s.heap s.buffers, Full data
  batches : ∀ batch ∈ s.batches, ∀ data ∈ batch.dropLast, Full data

theorem init_crammed : Crammed init := ⟨by simp [contents,init],by simp [init]⟩

section

variable {s s' : AsyncLogging} {logline : Bytes}

theorem Crammed.append (crammed : Crammed s) (owned : Owned s) (short : logline.length ≤ kSmallBuffer)
    (done : append logline s = .ok s') : Crammed s' := by
  have small : logline.length < 2^31 := Nat.lt_of_le_of_lt short (by decide)
  obtain ⟨id,current⟩ := Option.ne_none_iff_exists'.mp owned.current
  by_cases room : (logline.length : Int) < (s.heap id).avail
  · obtain ⟨b,_,written⟩ := append_room small current room
    obtain rfl := Except.ok.inj (done.symm.trans written)
    obtain ⟨_,_,_,apart,_⟩ := owned.once.current_apart current
    refine ⟨?_,crammed.batches⟩
    dsimp only
    rw [contents_update b apart]
    exact crammed.buffers
  · obtain ⟨id',b,r,rotated,replaced,_,_,written⟩ := owned.append_full small current room
    obtain rfl := Except.ok.inj (done.symm.trans written)
    obtain ⟨_,_,_,batches,_,buffers,_⟩ := replaceCurrent_keeps {s with buffers := s.buffers ++ [id]}
    rw [← rotated] at batches buffers
    have held : Owned r := rotated ▸ owned.rotate current
    obtain ⟨_,_,_,apart,_⟩ := held.once.current_apart replaced
    have same : contents r.heap (s.buffers ++ [id]) = contents s.heap (s.buffers ++ [id]) := by
      rw [rotated]
      refine owned.replaced_contents _ fun other member => ?_
      rcases List.mem_append.mp member with member | member
      · simp [slots,member]
      · simp [slots,current,List.mem_singleton.mp member]
    refine ⟨?_,?_⟩
    · dsimp only
      rw [contents_update b apart,buffers,same,contents_append]
      refine List.forall_mem_append.mpr ⟨crammed.buffers,?_⟩
      intro data member
      obtain rfl := List.mem_singleton.mp member
      unfold FixedBuffer.avail at room
      show kLargeBuffer ≤ (s.heap id).data.length + kSmallBuffer
      omega
    · exact batches ▸ crammed.batches

theorem Crammed.back (crammed : Crammed s) (owned : Owned s) (moved : Back s s') : Crammed s' := by
  have recycled : ∀ id, s.buffersToWrite.getLast? = some id →
      contents (Function.update s.heap id FixedBuffer.empty) s.buffers = contents s.heap s.buffers :=
    fun id last => contents_update _ fun member =>
      owned.once.queue_apart (List.mem_of_getLast? last) (List.mem_append_left _ member)
  cases moved with
  | run | enter | leave | wait | hurry | wake | trim | write | written | resize | keep2 | clear =>
    exact ⟨crammed.buffers,crammed.batches⟩
  | construct =>
    have apart : ∀ id, s.fresh ≤ id → id ∉ s.buffers := fun id later member =>
      owned.once.fresh_apart later (by simp [slots,member])
    refine ⟨?_,crammed.batches⟩
    dsimp only
    rw [contents_update _ (apart _ (by omega)),contents_update _ (apart _ (by omega))]
    exact crammed.buffers
  | swap here current =>
    have locals : LocalsFit s .swapping := here ▸ owned.locals
    refine ⟨?_,?_⟩
    · dsimp only
      rw [locals.2.2]
      simp [contents]
    · refine List.forall_mem_append.mpr ⟨crammed.batches,?_⟩
      intro batch member
      obtain rfl := List.mem_singleton.mp member
      simpa [contents] using crammed.buffers
  | refill1 here last =>
    refine ⟨?_,crammed.batches⟩
    dsimp only
    rw [recycled _ last]
    exact crammed.buffers
  | refill2 here _ last =>
    refine ⟨?_,crammed.batches⟩
    dsimp only
    rw [recycled _ last]
    exact crammed.buffers

theorem Crammed.step {action : Action} (crammed : Crammed s) (owned : Owned s)
    (short : ∀ logline ∈ messages [action], logline.length ≤ kSmallBuffer)
    (stepped : Steps s action s') : Crammed s' := by
  have inverted := step_cases stepped
  have moved := owned.moved stepped
  cases action with
  | append logline =>
    exact crammed.append owned (short logline (List.mem_singleton.mpr rfl)) inverted.2.2.symm
  | back => exact crammed.back owned moved
  | start =>
    obtain ⟨_,rfl⟩ := moved
    exact ⟨crammed.buffers,crammed.batches⟩
  | stop =>
    obtain ⟨_,rfl⟩ := moved
    exact ⟨crammed.buffers,crammed.batches⟩

theorem run_crammed {actions : List Action} (run : Run Steps s actions s') (owned : Owned s)
    (short : ∀ logline ∈ messages actions, logline.length ≤ kSmallBuffer) (crammed : Crammed s) :
    Crammed s' := by
  induction run with
  | nil => exact crammed
  | @cons s middle s' action actions first rest ih =>
    have parts : messages (action :: actions) = messages [action] ++ messages actions :=
      @List.filterMap_append _ _ [action] actions _
    obtain ⟨now,later⟩ := List.forall_mem_append.mp (parts ▸ short)
    exact ih (owned.steps first) later (crammed.step owned now first)

/-- What the batches have taken of the messages: whole ones, and all that were known when there were
fewer batches. -/
structure Fetched (known : List Bytes) (before : Nat) (s : AsyncLogging) : Prop where
  there : known <+: s.appended
  taken : ∃ front, front <+: s.appended ∧ s.batches.flatten.flatten = (stored front).flatten ∧
    (before < s.batches.length → known <+: front)

theorem Fetched.moved {known : List Bytes} {before : Nat} {action : Action} (fetched : Fetched known before s)
    (owned : Owned s) (order : InOrder s) (moved : Moved s action s') : Fetched known before s' := by
  obtain ⟨there,front,inside,same,all⟩ := fetched
  cases action with
  | start =>
    obtain ⟨_,rfl⟩ := moved
    exact ⟨there,front,inside,same,all⟩
  | stop =>
    obtain ⟨_,rfl⟩ := moved
    exact ⟨there,front,inside,same,all⟩
  | append logline =>
    obtain ⟨_,appended⟩ := moved
    have more : s.appended <+: s'.appended := appended.appended ▸ List.prefix_append _ _
    exact ⟨there.trans more,front,inside.trans more,appended.batches ▸ same,appended.batches ▸ all⟩
  | back =>
    obtain ⟨appended,_,queue⟩ := owned.back_queue moved
    by_cases here : s.pc = .swapping
    · rw [if_pos here] at queue
      obtain ⟨_,batches,_⟩ := queue
      refine ⟨appended ▸ there,s.appended,appended ▸ List.prefix_rfl,?_,fun _ => there⟩
      have whole : s'.batches.flatten = s.batches.flatten ++ queued s := by
        rw [batches,List.flatten_append,List.flatten_singleton]
      rw [order.taken,whole]
    · rw [if_neg here] at queue
      exact ⟨appended ▸ there,front,appended ▸ inside,queue.1 ▸ same,queue.1 ▸ all⟩

end

theorem full_length {batch : List Bytes} (full : ∀ data ∈ batch, Full data) :
    batch.length * (kLargeBuffer - kSmallBuffer) ≤ batch.flatten.length := by
  induction batch with
  | nil => simp
  | cons data batch ih =>
    obtain ⟨first,rest⟩ := List.forall_mem_cons.mp full
    have later := ih rest
    unfold Full at first
    rw [List.length_cons,Nat.succ_mul,List.flatten_cons,List.length_append]
    omega

/-- A batch of less than 25 full buffers is not trimmed. -/
theorem crammed_short {batch : List Bytes} (full : ∀ data ∈ batch.dropLast, Full data)
    (calm : batch.flatten.length < 25 * (kLargeBuffer - kSmallBuffer)) : batch.length ≤ 25 := by
  have filled := full_length full
  have inside : batch.dropLast.flatten.length ≤ batch.flatten.length :=
    (List.dropLast_sublist batch).flatten.length_le
  rw [List.length_dropLast] at filled
  refine Nat.le_of_not_lt fun long => ?_
  have many : 25 * (kLargeBuffer - kSmallBuffer) ≤ (batch.length - 1) * (kLargeBuffer - kSmallBuffer) :=
    Nat.mul_le_mul_right _ (by omega)
  omega

/-- Whatever threads execute `LOG` statements and stop the log, and however its back end runs beside
them, while less than 25 full buffers pile up between two batches: the file always holds a front
part of all records in their order, and between two batches and behind the loop it holds whole
records, among them all that were there before the back end took its last batch. -/
theorem statements_written {p p' : Pipeline} {acts more : List (Action × Stdio)}
    (run : Run Pipeline.Steps Pipeline.start acts p) (later : Run Pipeline.Steps p more p')
    (works : ∀ act ∈ acts ++ more, Works act.2)
    (said : Said (messages ((acts ++ more).map Prod.fst)))
    (calm : ∀ batch ∈ p'.logging.batches,
      batch.flatten.length < 25 * (kLargeBuffer - kSmallBuffer)) :
    p'.file.disk <+: (messages ((acts ++ more).map Prod.fst)).flatten ∧
      (p'.logging.pc = .looping ∨ p'.logging.pc = .finished →
        ∃ front, front <+: messages ((acts ++ more).map Prod.fst) ∧ p'.file.disk = front.flatten ∧
          (p.logging.batches.length < p'.logging.batches.length →
            messages (acts.map Prod.fst) <+: front)) := by
  obtain ⟨durable,logged⟩ := run_durable (run.append later) works init_owned start_durable
  obtain ⟨reached,begun⟩ := run_durable run (fun act member => works act (List.mem_append_left _ member))
    init_owned start_durable
  have short := said.short
  have whole : ∀ logline ∈ messages ((acts ++ more).map Prod.fst), logline.length < kLargeBuffer :=
    fun logline member => Nat.lt_of_le_of_lt (short logline member) (by decide)
  obtain ⟨_,order⟩ := run_inOrder logged init_owned init_inOrder
  have appended : p'.logging.appended = messages ((acts ++ more).map Prod.fst) :=
    run_messages logged init_owned
  have known : p.logging.appended = messages (acts.map Prod.fst) := run_messages begun init_owned
  have crammed := run_crammed logged init_owned short init_crammed
  have few := kept_short fun batch member => crammed_short (crammed.batches batch member) (calm batch member)
  have front := durable.front order
  have rests := durable.rests order
  rw [few] at front rests
  have all := stored_all whole
  refine ⟨?_,fun here => ?_⟩
  · have taken := order.taken
    rw [appended,all,List.flatten_append] at taken
    exact taken ▸ front.trans (List.prefix_append _ _)
  · obtain ⟨owned,early,_,some,inside,same,_⟩ := run_moved (Fetched [] 0)
      (fun _ _ _ fetched owned order moved => fetched.moved owned order moved) begun init_owned
      init_inOrder ⟨List.nil_prefix,[],List.nil_prefix,rfl,fun less => absurd less (Nat.lt_irrefl _)⟩
    obtain ⟨_,after⟩ := run_durable later (fun act member => works act (List.mem_append_right _ member))
      owned reached
    obtain ⟨_,_,_,taken,known',same',since⟩ := run_moved (Fetched p.logging.appended p.logging.batches.length)
      (fun _ _ _ fetched owned order moved => fetched.moved owned order moved) after owned early
      ⟨List.prefix_rfl,some,inside,same,fun less => absurd less (Nat.lt_irrefl _)⟩
    rw [appended] at known'
    have read : stored taken = taken := stored_all fun logline member => whole logline (known'.subset member)
    refine ⟨taken,known',?_,known ▸ since⟩
    rw [rests here,same',read]

/-- The record of a statement without a time stamp, a message or a file name. -/
def blankRecord : Bytes := bytes "--:64\n"

theorem blank_said : ∃ one : Statement, one.record = some blankRecord := by
  obtain ⟨b,written,data,room⟩ : ∃ b, stream [] [] = some b ∧ b.data = [] ∧ b.avail = 4000 :=
    ⟨_,rfl,rfl,rfl⟩
  have trailing : fitting 4000 (trailer [] sampleLine) = blankRecord := by decide
  refine ⟨⟨[],[],[],sampleLine⟩,?_⟩
  rw [Statement.record,record_fitting written (by decide) sampleLine,data,room,trailing]
  rfl

def sayOnce : List (Action × Stdio) := [.start,.back,.back,.append blankRecord].map (·,⟨[],0,none⟩)

/-- The record is written in two calls and flushed, and the statement is executed again. -/
def sayAgain : List (Action × Stdio) :=
  List.replicate 11 (.back,⟨[⟨4,false⟩,⟨2,false⟩],0,none⟩) ++ [(.append blankRecord,⟨[],0,none⟩)]

theorem statements_written_again : ∃ p p', perform Pipeline.step Pipeline.start sayOnce = some p ∧
    perform Pipeline.step p sayAgain = some p' ∧ ∃ front, p'.file.disk = front.flatten ∧
      [blankRecord] <+: front ∧ front <+: [blankRecord,blankRecord] := by
  have taken : ((perform Pipeline.step Pipeline.start sayOnce).bind fun p =>
      (perform Pipeline.step p sayAgain).map fun p' => (p'.logging.pc,p'.logging.batches,
        p.logging.batches.length)) = some (.looping,[[blankRecord]],0) := by decide
  obtain ⟨p,done,rest⟩ := Option.bind_eq_some_iff.mp taken
  obtain ⟨p',again,found⟩ := Option.map_eq_some_iff.mp rest
  simp only [Prod.mk.injEq] at found
  obtain ⟨here,batches,before⟩ := found
  have all : messages ((sayOnce ++ sayAgain).map Prod.fst) = [blankRecord,blankRecord] := rfl
  obtain ⟨_,rests⟩ := @statements_written p p' sayOnce sayAgain
    (perform_run (fun _ _ _ stepped => stepped) done) (perform_run (fun _ _ _ stepped => stepped) again)
    (by
      intro act member
      have io : act.2 = ⟨[],0,none⟩ ∨ act.2 = ⟨[⟨4,false⟩,⟨2,false⟩],0,none⟩ := by
        revert act
        decide
      rcases io with same | same <;> rw [same] <;> exact ⟨by decide,rfl⟩)
    (by
      rw [all]
      intro logline member
      obtain rfl : logline = blankRecord := by simpa using member
      exact blank_said)
    (by
      rw [batches]
      decide)
  obtain ⟨front,inside,disk,since⟩ := rests (.inl here)
  rw [batches,before] at since
  exact ⟨p,p',done,again,front,disk,since (by decide),inside⟩

end Deon.Logging
