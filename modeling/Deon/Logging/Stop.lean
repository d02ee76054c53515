import Deon.Logging.Order
import Mathlib.Data.List.Flatten

/-! What `stop` leaves behind. The back end takes the queue only between the test of
`running_` and the end of its critical section: what is queued when `running_` turns
false is written if the back end is there at that moment, and lost otherwise. -/
namespace Deon.Logging
open Library

/-- The back end will take the queue once more, whatever `running_` says. -/
def Taking : Pc → Prop
  | .entered | .waiting | .swapping => True
  | _ => False

/-- The queue is taken once more, or it is empty. -/
def TakenLater (s : AsyncLogging) : Prop := Taking s.pc ∨ (queued s).flatten = []

/-- Every byte of the messages was handed to the `LogFile`, but for the trimming of the
batches they are in. -/
def Drained (messages : List Bytes) (s : AsyncLogging) : Prop :=
  messages.flatten <+: s.batches.flatten.flatten ∧ s.output = (s.batches.map kept).flatten.flatten

/-- On the way through its critical section the back end still covers the messages. -/
def Covers (messages : List Bytes) (s : AsyncLogging) : Prop :=
  Taking s.pc ∧ messages.flatten <+: (stored s.appended).flatten ∨
    messages.flatten <+: s.batches.flatten.flatten

theorem Covers.moved {covered : List Bytes} {s s' : AsyncLogging} (covers : Covers covered s)
    (owned : Owned s) (order : InOrder s) {action : Action} (moved : Moved s action s') :
    Covers covered s' := by
  cases action with
  | start =>
    obtain ⟨here,rfl⟩ := moved
    rcases covers with ⟨taking,_⟩ | taken
    · rw [here] at taking
      exact taking.elim
    · exact .inr taken
  | append logline =>
    obtain ⟨_,appended⟩ := moved
    rcases covers with ⟨taking,known⟩ | taken
    · refine .inl ⟨appended.pc ▸ taking,known.trans ?_⟩
      rw [appended.appended,stored_append,List.flatten_append]
      exact List.prefix_append _ _
    · exact .inr (appended.batches ▸ taken)
  | stop =>
    obtain ⟨_,rfl⟩ := moved
    exact covers
  | back =>
    obtain ⟨appended,_,queue⟩ := owned.back_queue moved
    by_cases here : s.pc = .swapping
    · rw [if_pos here] at queue
      obtain ⟨_,batches,_⟩ := queue
      have whole : s'.batches.flatten = s.batches.flatten ++ queued s := by
        rw [batches,List.flatten_append,List.flatten_singleton]
      right
      rw [whole]
      rcases covers with ⟨_,known⟩ | taken
      · rw [← order.taken]
        exact known
      · rw [List.flatten_append]
        exact taken.trans (List.prefix_append _ _)
    · rw [if_neg here] at queue
      rcases covers with ⟨taking,known⟩ | taken
      · left
        rw [appended]
        refine ⟨?_,known⟩
        cases moved <;> simp_all [Taking]
      · exact .inr (queue.1 ▸ taken)

/-- Behind the critical section of its last turn the back end takes nothing any more. -/
structure Leaving (batches : List (List Bytes)) (s : AsyncLogging) : Prop where
  stopped : s.running = false
  begun : s.pc ≠ .unstarted
  passed : ¬ Taking s.pc
  batches : s.batches = batches

theorem Leaving.moved {batches : List (List Bytes)} {s s' : AsyncLogging}
    (leaving : Leaving batches s) (owned : Owned s) {action : Action} (moved : Moved s action s') :
    Leaving batches s' := by
  cases action with
  | start => exact absurd moved.1 leaving.begun
  | append logline =>
    obtain ⟨_,appended⟩ := moved
    refine ⟨appended.running ▸ leaving.stopped,appended.pc ▸ leaving.begun,
      appended.pc ▸ leaving.passed,appended.batches.trans leaving.batches⟩
  | stop =>
    obtain ⟨_,rfl⟩ := moved
    exact ⟨rfl,leaving.begun,leaving.passed,leaving.batches⟩
  | back =>
    obtain ⟨_,running,queue⟩ := owned.back_queue moved
    have passed := leaving.passed
    have stopped := leaving.stopped
    have here : s.pc ≠ .swapping := fun here => passed (by simp [here,Taking])
    rw [if_neg here] at queue
    refine ⟨running.trans stopped,?_,?_,queue.1.trans leaving.batches⟩
    · cases moved <;> simp
    · cases moved <;> simp_all [Taking]

theorem InOrder.finished {s : AsyncLogging} (order : InOrder s) (left : s.pc = .finished) :
    s.output = (s.batches.map kept).flatten.flatten := by
  have handed := order.handed
  simp only [toWrite,left,List.flatten_nil,List.append_nil] at handed
  exact handed

theorem prefix_flatten_iff {taken rest : Bytes} : taken ++ rest <+: taken ↔ rest = [] := by
  constructor
  · intro inside
    have short := inside.length_le
    rw [List.length_append] at short
    exact List.eq_nil_of_length_eq_zero (by omega)
  · intro empty
    simp [empty]

theorem stored_whole {messages : List Bytes}
    (whole : messages.flatten.length ≤ (stored messages).flatten.length) :
    ∀ logline ∈ messages, logline.length < kLargeBuffer := by
  induction messages with
  | nil => simp
  | cons first rest ih =>
    have shorter : (stored rest).flatten.length ≤ rest.flatten.length :=
      List.filter_sublist.flatten.length_le
    by_cases fits : first.length < kLargeBuffer
    · have head : stored (first :: rest) = first :: stored rest := List.filter_cons_of_pos (by simpa)
      rw [head,List.flatten_cons,List.flatten_cons,List.length_append,List.length_append] at whole
      exact List.forall_mem_cons.mpr ⟨fits,ih (by omega)⟩
    · have head : stored (first :: rest) = stored rest := List.filter_cons_of_neg (by simpa using fits)
      rw [head,List.flatten_cons,List.length_append] at whole
      unfold kLargeBuffer at fits
      omega

theorem back_messages {actions : List Action} (only : ∀ action ∈ actions, action = .back) :
    messages actions = [] := by
  apply List.filterMap_eq_nil_iff.mpr
  intro action held
  rw [only action held]

theorem Taking.taken {later : List Action} {s final : AsyncLogging} (taking : Taking s.pc)
    (after : Run Steps s later final) (owned : Owned s) (order : InOrder s)
    (left : final.pc = .finished) : (stored s.appended).flatten <+: final.batches.flatten.flatten := by
  have start : Covers (stored s.appended) s := .inl ⟨taking,List.prefix_rfl⟩
  obtain ⟨_,_,covers⟩ := run_moved (Covers (stored s.appended))
    (fun _ _ _ covers owned order moved => covers.moved owned order moved) after owned order start
  apply covers.resolve_left
  intro stuck
  rw [left] at stuck
  exact stuck.1

theorem Leaving.taken {later : List Action} {s final : AsyncLogging} (leaving : Leaving s.batches s)
    (after : Run Steps s later final) (owned : Owned s) (order : InOrder s) :
    final.batches = s.batches := by
  obtain ⟨_,_,held⟩ := run_moved (Leaving s.batches)
    (fun _ _ _ leaving owned _ moved => leaving.moved owned moved) after owned order leaving
  exact held.batches

/-- The log is drained when the back end has returned after `stop` exactly if every message
fits into a buffer, and the back end was in front of its swap when `running_` turned false,
or nothing was queued. -/
theorem stop_drains_iff {actions later : List Action} {s s' final : AsyncLogging}
    (before : Run Steps init actions s) (stopped : Steps s .stop s') (after : Run Steps s' later final)
    (only : ∀ action ∈ later, action = .back) (left : final.pc = .finished) :
    Drained (messages actions) final ↔
      (∀ logline ∈ messages actions, logline.length < kLargeBuffer) ∧ TakenLater s := by
  obtain ⟨owned,order⟩ := run_inOrder before init_owned init_inOrder
  have appended : s.appended = messages actions := run_messages before init_owned
  have moved := owned.moved stopped
  have owned' := owned.steps stopped
  have order' := order.moved owned moved
  obtain ⟨⟨begun,_⟩,rfl⟩ := moved
  obtain ⟨_,order''⟩ := run_inOrder after owned' order'
  have handed := order''.finished left
  have total := order''.taken
  rw [run_messages after owned',back_messages only,List.append_nil,List.flatten_append] at total
  have stays : ¬ Taking s.pc → final.batches = s.batches := fun passed =>
    Leaving.taken (s := {s with running := false}) ⟨rfl,begun,passed,rfl⟩ after owned' order'
  constructor
  · intro drained
    have fits : ∀ logline ∈ messages actions, logline.length < kLargeBuffer := by
      apply stored_whole
      have short := drained.1.length_le
      rw [← appended,total,List.length_append]
      rw [← appended] at short
      omega
    refine ⟨fits,or_iff_not_imp_left.mpr fun passed => ?_⟩
    have taken := drained.1
    rw [stays passed,← stored_all fits,← appended,order.taken,List.flatten_append] at taken
    exact prefix_flatten_iff.mp taken
  · intro held
    obtain ⟨fits,later⟩ := held
    refine ⟨?_,handed⟩
    rw [← stored_all fits,← appended]
    by_cases taking : Taking s.pc
    · exact Taking.taken (s := {s with running := false}) taking after owned' order' left
    · rw [stays taking,order.taken,List.flatten_append,prefix_flatten_iff]
      exact later.resolve_left taking

/-- The back end waits when `stop` is called, and then writes the message. -/
theorem stop_drains_waiting : ∃ s final,
    perform next init [.start,.back,.back,.back,.back,.append [65]] = some s ∧
      perform next s (.stop :: List.replicate 10 .back) = some final ∧ Drained [[65]] final := by
  refine ⟨_,_,rfl,rfl,?_⟩
  exact (@stop_drains_iff [.start,.back,.back,.back,.back,.append [65]] (List.replicate 10 .back) _ _ _
    (perform_run next_steps rfl) rfl (perform_run next_steps rfl) (by simp) rfl).mpr
      ⟨by simp [messages,kLargeBuffer],.inl trivial⟩

/-- The message is appended before the back end has come to its loop, and lost. -/
theorem stop_loses : ¬ ∀ (actions later : List Action) (s s' final : AsyncLogging),
    Run Steps init actions s → (∀ logline ∈ messages actions, logline.length < kLargeBuffer) →
      Steps s .stop s' → Run Steps s' later final → (∀ action ∈ later, action = .back) →
        final.pc = .finished → Drained (messages actions) final := by
  intro drains
  have drained := drains [.start,.back,.append [65]] [.back,.back] _ _ _ (perform_run next_steps rfl)
    (by simp [messages,kLargeBuffer]) rfl (perform_run next_steps rfl) (by simp) rfl
  have short := drained.1.length_le
  exact absurd short (by decide)

end Deon.Logging
