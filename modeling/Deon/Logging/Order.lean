import Deon.Logging.Ownership

/-! The bytes of the log, in order. A message goes to the end of what is queued in
`buffers_` and `currentBuffer_`; the back end takes the whole queue as one batch and hands
it to the `LogFile` buffer by buffer, but for the trimming. -/
namespace Deon.Logging
open Library

/-- What is in `buffers_` and `currentBuffer_`. -/
def queued (s : AsyncLogging) : List Bytes := contents s.heap (s.buffers ++ s.currentBuffer.toList)

/-- What is still to be written of the batch that the back end took last. -/
def toWrite (s : AsyncLogging) : List Bytes :=
  match s.pc with
  | .trimming => kept (contents s.heap s.buffersToWrite)
  | .writing i => (contents s.heap s.buffersToWrite).drop i
  | _ => []

theorem contents_update {heap : Nat → Buffer} {id : Nat} {ids : List Nat} (b : Buffer)
    (apart : id ∉ ids) : contents (Function.update heap id b) ids = contents heap ids := by
  apply List.map_congr_left
  intro other held
  have distinct : other ≠ id := fun same => apart (same ▸ held)
  rw [Function.update_of_ne distinct]

theorem contents_append (heap : Nat → Buffer) (first second : List Nat) :
    contents heap (first ++ second) = contents heap first ++ contents heap second :=
  List.map_append

theorem toWrite_congr {s s' : AsyncLogging} (here : s'.pc = s.pc)
    (same : contents s'.heap s'.buffersToWrite = contents s.heap s.buffersToWrite) :
    toWrite s' = toWrite s := by
  unfold toWrite
  rw [here,same]

/-- What a call of `append` does to the log. -/
structure Appended (s : AsyncLogging) (logline : Bytes) (s' : AsyncLogging) : Prop where
  pc : s'.pc = s.pc
  running : s'.running = s.running
  output : s'.output = s.output
  batches : s'.batches = s.batches
  appended : s'.appended = s.appended ++ [logline]
  toWrite : contents s'.heap s'.buffersToWrite = contents s.heap s.buffersToWrite
  queued : (queued s').flatten =
    (queued s).flatten ++ if logline.length < kLargeBuffer then logline else []

theorem Owned.queued_write {s : AsyncLogging} (owned : Owned s) {id : Nat} {b : Buffer}
    {more : Bytes} (current : s.currentBuffer = some id) (grown : b.data = (s.heap id).data ++ more) :
    (queued {s with heap := Function.update s.heap id b}).flatten = (queued s).flatten ++ more := by
  obtain ⟨_,_,_,apart,_⟩ := owned.once.current_apart current
  unfold queued
  dsimp only
  rw [current,Option.toList_some,contents_append,contents_append,contents_update b apart]
  simp [contents,grown]

theorem Once.fresh_apart {s : AsyncLogging} (once : Once s) {id : Nat} (later : s.fresh ≤ id) :
    id ∉ slots s := by
  rw [← List.count_eq_zero]
  have none := once id
  rw [if_neg (by omega)] at none
  omega

theorem Owned.replaced_contents {s : AsyncLogging} (owned : Owned s) (buffers : List Nat)
    {ids : List Nat} (inside : ∀ id ∈ ids, id ∈ slots s) :
    contents (replaceCurrent {s with buffers := buffers}).heap ids = contents s.heap ids := by
  unfold replaceCurrent
  cases s.nextBuffer with
  | some next => rfl
  | none =>
    have apart := owned.once.fresh_apart (Nat.le_refl s.fresh)
    exact contents_update _ fun held => apart (inside _ held)

theorem replaceCurrent_keeps (s : AsyncLogging) :
    (replaceCurrent s).pc = s.pc ∧ (replaceCurrent s).running = s.running ∧
      (replaceCurrent s).output = s.output ∧ (replaceCurrent s).batches = s.batches ∧
      (replaceCurrent s).appended = s.appended ∧ (replaceCurrent s).buffers = s.buffers ∧
      (replaceCurrent s).buffersToWrite = s.buffersToWrite := by
  unfold replaceCurrent
  split <;> simp

theorem Owned.queued_rotate {s : AsyncLogging} (owned : Owned s) {id id' : Nat}
    (current : s.currentBuffer = some id) {r : AsyncLogging}
    (rotated : r = replaceCurrent {s with buffers := s.buffers ++ [id]})
    (replaced : r.currentBuffer = some id') (blank : (r.heap id').data = []) :
    (queued r).flatten = (queued s).flatten := by
  obtain ⟨_,_,_,_,_,buffers,_⟩ := replaceCurrent_keeps {s with buffers := s.buffers ++ [id]}
  have same : contents r.heap (s.buffers ++ [id]) = contents s.heap (s.buffers ++ [id]) := by
    rw [rotated]
    apply owned.replaced_contents
    intro other held
    rcases List.mem_append.mp held with held | held
    · simp [slots,held]
    · simp [slots,current,List.mem_singleton.mp held]
  unfold queued
  rw [replaced,current,rotated,buffers,← rotated,contents_append,same]
  simp [contents,blank]

theorem Owned.appends {s : AsyncLogging} (owned : Owned s) {logline : Bytes}
    (small : logline.length < 2^31) : ∃ s', Logging.append logline s = .ok s' ∧
      Appended s logline s' := by
  obtain ⟨id,current⟩ := Option.ne_none_iff_exists'.mp owned.current
  by_cases room : (logline.length : Int) < (s.heap id).avail
  · obtain ⟨b,grown,done⟩ := append_room small current room
    obtain ⟨_,_,_,_,apart⟩ := owned.once.current_apart current
    refine ⟨_,done,rfl,rfl,rfl,rfl,rfl,contents_update b apart,?_⟩
    have fits : logline.length < kLargeBuffer := by
      have inside := (s.heap id).inside
      unfold FixedBuffer.avail at room
      omega
    rw [if_pos fits]
    exact owned.queued_write current grown
  · obtain ⟨id',b,r,rotated,replaced,blank,grown,done⟩ := owned.append_full small current room
    have held : Owned r := rotated ▸ owned.rotate current
    obtain ⟨_,_,_,_,apart⟩ := held.once.current_apart replaced
    obtain ⟨pc,running,output,batches,appended,_,toWrite⟩ :=
      replaceCurrent_keeps {s with buffers := s.buffers ++ [id]}
    rw [← rotated] at pc running output batches appended toWrite
    refine ⟨_,done,pc,running,output,batches,?_,?_,?_⟩
    · dsimp only
      rw [appended]
    · dsimp only
      rw [contents_update b apart,toWrite,rotated]
      exact owned.replaced_contents _ fun other held => by simp [slots,held]
    · rw [← owned.queued_rotate current rotated replaced blank]
      exact held.queued_write replaced (by rw [grown,blank,List.nil_append])

theorem Once.queue_apart {s : AsyncLogging} (once : Once s) {id : Nat} (held : id ∈ s.buffersToWrite) :
    id ∉ s.buffers ++ s.currentBuffer.toList := by
  have few : (slots s).count id ≤ 1 := List.nodup_iff_count_le_one.mp once.nodup id
  have some := List.count_pos_iff.mpr held
  rw [count_slots] at few
  rw [← List.count_eq_zero,List.count_append]
  omega

/-- The back end takes the queue as a whole, and only in the swap. -/
theorem Owned.back_queue {s s' : AsyncLogging} (owned : Owned s) (moved : Back s s') :
    s'.appended = s.appended ∧ s'.running = s.running ∧
      if s.pc = .swapping then
        s'.pc = .trimming ∧ s'.batches = s.batches ++ [queued s] ∧ (queued s').flatten = []
      else s'.batches = s.batches ∧ queued s' = queued s := by
  refine ⟨by cases moved <;> rfl,by cases moved <;> rfl,?_⟩
  have recycled : ∀ id, s.buffersToWrite.getLast? = some id →
      contents (Function.update s.heap id FixedBuffer.empty) (s.buffers ++ s.currentBuffer.toList) =
        queued s := fun id last =>
    contents_update _ (owned.once.queue_apart (List.mem_of_getLast? last))
  cases moved with
  | run here | enter here | leave here | wait here | hurry here | wake here | trim here
  | write here | written here | resize here | keep2 here | clear here =>
    rw [if_neg (by simp [here])]
    exact ⟨rfl,rfl⟩
  | construct here =>
    rw [if_neg (by simp [here])]
    have apart : ∀ id, s.fresh ≤ id → id ∉ s.buffers ++ s.currentBuffer.toList := by
      intro id later held
      apply owned.once.fresh_apart later
      rcases List.mem_append.mp held with held | held
      · simp [slots,held]
      · simp [slots,Option.mem_toList.mp held]
    refine ⟨rfl,?_⟩
    unfold queued
    dsimp only
    rw [contents_update _ (apart _ (by omega)),contents_update _ (apart _ (by omega))]
  | swap here current =>
    have locals : LocalsFit s .swapping := here ▸ owned.locals
    obtain ⟨first,_,cleared⟩ := locals
    obtain ⟨id,held,blank⟩ := emptyBuffer_iff.mp first
    rw [if_pos here]
    refine ⟨rfl,?_,?_⟩
    · simp only [queued,current,Option.toList_some]
    · simp [queued,cleared,held,contents,blank]
  | refill1 here last =>
    rw [if_neg (by simp [here])]
    exact ⟨rfl,recycled _ last⟩
  | refill2 here _ last =>
    rw [if_neg (by simp [here])]
    exact ⟨rfl,recycled _ last⟩

theorem kept_map {α β : Type*} (f : α → β) (batch : List α) : (kept batch).map f = kept (batch.map f) := by
  unfold kept
  rw [List.length_map]
  split_ifs
  · exact List.map_take
  · rfl

/-- What is handed to the `LogFile` comes from what was to be written. -/
theorem Back.output {s s' : AsyncLogging} (moved : Back s s') :
    s'.output ++ (toWrite s').flatten =
      if s.pc = .swapping then s.output ++ (kept (queued s)).flatten
      else s.output ++ (toWrite s).flatten := by
  cases moved with
  | run here | construct here | enter here | leave here | wait here | hurry here | wake here
  | resize here | refill1 here | keep2 here | refill2 here | clear here =>
    simp only [toWrite,here,reduceCtorEq,if_false]
  | swap here current =>
    rw [if_pos here]
    simp only [toWrite,queued,current,Option.toList_some]
  | trim here =>
    simp only [toWrite,here,reduceCtorEq,if_false,List.drop_zero,contents,kept_map]
  | @write i id here held =>
    have next : (contents s.heap s.buffersToWrite)[i]? = some (s.heap id).data := by
      simp [contents,held]
    simp only [toWrite,here,reduceCtorEq,if_false]
    rw [List.drop_eq_getElem?_toList_append (i := i),next]
    simp
  | @written i here behind =>
    have short : (contents s.heap s.buffersToWrite).length ≤ i := by
      simpa [contents] using behind
    simp only [toWrite,here,reduceCtorEq,if_false,List.drop_of_length_le short]

/-- What a step does from a state whose buffers are owned. -/
def Moved (s : AsyncLogging) (action : Action) (s' : AsyncLogging) : Prop :=
  match action with
  | .start => s.pc = .unstarted ∧ s' = {s with running := true,pc := .starting}
  | .append logline => s.pc ≠ .swapping ∧ Appended s logline s'
  | .stop => (s.pc ≠ .unstarted ∧ s.pc ≠ .starting) ∧ s' = {s with running := false}
  | .back => Back s s'

theorem Owned.moved {s s' : AsyncLogging} (owned : Owned s) {action : Action}
    (stepped : Steps s action s') : Moved s action s' := by
  have inverted := step_cases stepped
  cases action with
  | start =>
    obtain ⟨here,same⟩ := inverted
    cases same
    exact ⟨here,rfl⟩
  | append logline =>
    obtain ⟨free,small,done⟩ := inverted
    obtain ⟨s'',same,appended⟩ := owned.appends small
    cases done.trans same
    exact ⟨free,appended⟩
  | stop =>
    obtain ⟨_,later,same⟩ := inverted
    cases same
    exact ⟨later,rfl⟩
  | back =>
    obtain ⟨_,same,moved⟩ := owned.back inverted
    cases same
    exact moved

theorem Owned.steps {s s' : AsyncLogging} (owned : Owned s) {action : Action}
    (stepped : Steps s action s') : Owned s' := by
  obtain ⟨_,same,held⟩ := owned.step stepped
  cases same
  exact held

/-- The messages that a buffer has room for; the others are dropped. -/
def stored (messages : List Bytes) : List Bytes :=
  messages.filter fun logline => logline.length < kLargeBuffer

theorem stored_append (first second : List Bytes) :
    stored (first ++ second) = stored first ++ stored second := List.filter_append ..

theorem stored_singleton (logline : Bytes) :
    (stored [logline]).flatten = if logline.length < kLargeBuffer then logline else [] := by
  simp only [stored,List.filter_cons,List.filter_nil,decide_eq_true_eq]
  split_ifs <;> simp

theorem stored_all {messages : List Bytes}
    (fits : ∀ logline ∈ messages, logline.length < kLargeBuffer) : stored messages = messages := by
  apply List.filter_eq_self.mpr
  intro logline held
  exact decide_eq_true (fits logline held)

/-- The log: what was appended is in a batch or queued, in order, and the batches go to
the file. -/
structure InOrder (s : AsyncLogging) : Prop where
  taken : (stored s.appended).flatten = (s.batches.flatten ++ queued s).flatten
  handed : s.output ++ (toWrite s).flatten = (s.batches.map kept).flatten.flatten

theorem InOrder.moved {s s' : AsyncLogging} (order : InOrder s) (owned : Owned s) {action : Action}
    (moved : Moved s action s') : InOrder s' := by
  cases action with
  | start =>
    obtain ⟨here,rfl⟩ := moved
    have handed := order.handed
    simp only [toWrite,here] at handed
    exact ⟨order.taken,handed⟩
  | append logline =>
    obtain ⟨_,appended⟩ := moved
    constructor
    · rw [appended.appended,appended.batches,stored_append,List.flatten_append,order.taken,
        List.flatten_append,List.flatten_append,appended.queued,stored_singleton,List.append_assoc]
    · rw [appended.output,appended.batches,toWrite_congr appended.pc appended.toWrite]
      exact order.handed
  | stop =>
    obtain ⟨_,rfl⟩ := moved
    exact ⟨order.taken,order.handed⟩
  | back =>
    obtain ⟨appended,_,queue⟩ := owned.back_queue moved
    have output := Back.output moved
    by_cases here : s.pc = .swapping
    · rw [if_pos here] at queue output
      obtain ⟨_,batches,empty⟩ := queue
      have blank : toWrite s = [] := by simp only [toWrite,here]
      have handed := order.handed
      rw [blank,List.flatten_nil,List.append_nil] at handed
      constructor
      · rw [appended,batches,order.taken,List.flatten_append,List.flatten_append,empty]
        simp
      · rw [output,batches,handed]
        simp
    · rw [if_neg here] at queue output
      obtain ⟨batches,same⟩ := queue
      constructor
      · rw [appended,batches,same,order.taken]
      · rw [output,batches,order.handed]

/-- The messages of the `append` calls, in order. -/
def messages (actions : List Action) : List Bytes :=
  actions.filterMap fun
    | .append logline => some logline
    | _ => none

theorem run_messages {s s' : AsyncLogging} {actions : List Action} (run : Run Steps s actions s')
    (owned : Owned s) : s'.appended = s.appended ++ messages actions := by
  induction run with
  | nil => simp [messages]
  | @cons s middle s' action actions first rest ih =>
    have moved := owned.moved first
    rw [ih (owned.steps first)]
    cases action with
    | start =>
      obtain ⟨_,rfl⟩ := moved
      rfl
    | append logline => simp [moved.2.appended,messages]
    | stop =>
      obtain ⟨_,rfl⟩ := moved
      rfl
    | back =>
      rw [(owned.back_queue moved).1]
      rfl

theorem run_moved (inv : AsyncLogging → Prop)
    (keeps : ∀ s action s', inv s → Owned s → InOrder s → Moved s action s' → inv s')
    {s s' : AsyncLogging} {actions : List Action} (run : Run Steps s actions s')
    (owned : Owned s) (order : InOrder s) (start : inv s) : Owned s' ∧ InOrder s' ∧ inv s' := by
  refine run.invariant (fun s => Owned s ∧ InOrder s ∧ inv s) ?_ ⟨owned,order,start⟩
  intro s action s' held stepped
  obtain ⟨owned,order,held⟩ := held
  have moved := owned.moved stepped
  exact ⟨owned.steps stepped,order.moved owned moved,keeps s action s' held owned order moved⟩

theorem init_inOrder : InOrder init := ⟨rfl,rfl⟩

theorem run_inOrder {s s' : AsyncLogging} {actions : List Action} (run : Run Steps s actions s')
    (owned : Owned s) (order : InOrder s) : Owned s' ∧ InOrder s' := by
  obtain ⟨owned',order',_⟩ := run_moved (fun _ => True) (fun _ _ _ _ _ _ _ => trivial) run owned order
    trivial
  exact ⟨owned',order'⟩

/-- The log has every message in order, but for what the trimming of the batches drops. -/
theorem log_in_order {s : AsyncLogging} {actions : List Action} (run : Run Steps init actions s)
    (fits : ∀ logline ∈ messages actions, logline.length < kLargeBuffer) :
    (messages actions).flatten = (s.batches.flatten ++ queued s).flatten ∧
      s.output ++ (toWrite s).flatten ++ (queued s).flatten =
        ((s.batches.map kept).flatten ++ queued s).flatten := by
  obtain ⟨_,order⟩ := run_inOrder run init_owned init_inOrder
  have appended : s.appended = messages actions := run_messages run init_owned
  constructor
  · rw [← order.taken,appended,stored_all fits]
  · rw [order.handed,List.flatten_append]

theorem log_in_order_sample : ∃ s, perform next init sampleActions = some s ∧
    s.output ++ (toWrite s).flatten ++ (queued s).flatten = [65,66] := by
  refine ⟨_,rfl,?_⟩
  rw [(@log_in_order _ sampleActions (perform_run next_steps rfl)
    (by simp [sampleActions,messages,kLargeBuffer])).2]
  rfl

end Deon.Logging
