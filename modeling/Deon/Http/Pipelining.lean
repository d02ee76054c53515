import Deon.Http.Complete

/-! Several requests in one read. After a request is answered `handleRead` calls
itself for what is left in the buffer, but the call begins with a `readn`, and when
that finds nothing the loop ends before the buffer is looked at. -/
namespace Deon.Http
open Library

/-- Every `write` takes all it is given. -/
def AcceptsAll (writes : List (List WriteResult)) : Prop :=
  ∀ results ∈ writes, ∀ sbuff, (writen results sbuff).stopped = .finished

theorem AcceptsAll.head {writes : List (List WriteResult)} (accepts : AcceptsAll writes)
    (sbuff : Bytes) : (writen (writes.headD []) sbuff).stopped = .finished := by
  cases writes with
  | nil => simp [writen,writenLoop]
  | cons results writes => exact accepts results (by simp) sbuff

/-- A fresh connection, registered, with the results for its writes. -/
def ready (env : Env) (root : Bytes) (mime : MimeType) (writes : List (List WriteResult)) :
    Connection :=
  {registerHttp env (Connection.fresh root mime) with writes := writes}

theorem ready_fields (env : Env) (root : Bytes) (mime : MimeType)
    (writes : List (List WriteResult)) :
    (ready env root mime writes).outputBuffer = [] ∧ (ready env root mime writes).sent = [] ∧
      (ready env root mime writes).isConnecting = true ∧
      (ready env root mime writes).inputBuffer = [] := by
  unfold ready registerHttp addChannel update
  split <;> simp [Connection.fresh]

theorem handleWrite_finished {c : Connection} (running : c.err = false)
    (connected : c.isConnecting = true) (accepts : AcceptsAll c.writes) :
    (handleWrite c).sent = c.sent ++ c.outputBuffer ∧ (handleWrite c).outputBuffer = [] ∧
      (handleWrite c).err = false ∧ (handleWrite c).isConnecting = true ∧
      (handleWrite c).state = c.state ∧ (handleWrite c).inputBuffer = c.inputBuffer := by
  obtain ⟨_,failed,splits,finished,_⟩ := writen_spec (c.writes.headD []) c.outputBuffer
  have ended := accepts.head c.outputBuffer
  have succeeds : (writen (c.writes.headD []) c.outputBuffer).stopped ≠ .failed := by
    rw [ended]
    decide
  have empty := finished ended
  have taken := splits succeeds
  have fine : ¬ (writen (c.writes.headD []) c.outputBuffer).ret < 0 :=
    fun negative => succeeds (failed.mpr negative)
  rw [empty,List.append_nil] at taken
  rw [handleWrite_running running connected]
  exact ⟨congrArg (c.sent ++ ·) taken,empty,decide_eq_false fine,connected,rfl,rfl⟩

/-- The call that reads a request and more bytes answers the request and leaves the
rest where it is. -/
theorem handleRead_leaves_rest {env : Env} {root : Bytes} {mime : MimeType}
    {writes : List (List WriteResult)} {text rest response : Bytes} {request : HttpRequest}
    {results : List ReadResult} {d : Connection} (accepts : AcceptsAll writes)
    (answer : Answer env (ready env root mime writes) text request response d)
    (some : response ≠ []) (arrives : Drains results (text ++ rest) .again) :
    ∃ c', handleRead env [results] (ready env root mime writes) = .ok c' ∧ c'.sent = response ∧
      c'.inputBuffer = rest ∧ c'.state = .parseRequestLine := by
  obtain ⟨silent,unsent,connected,empty⟩ := ready_fields env root mime writes
  have bytes : text ++ rest ≠ [] := by simp [answer.arrived]
  have longer : (ready env root mime writes).more (text ++ rest) =
      ((ready env root mime writes).more text).more rest := by
    simp [Connection.more]
  have passed : pass env results (ready env root mime writes) = .ok (.leave false (d.more rest)) := by
    rw [pass_stages arrives bytes,longer]
    exact stages_more answer.leaves answer.fine rest
  have output : (d.more rest).outputBuffer = response := by
    rcases answer.output with same | same
    · exact same
    · rw [silent] at same
      exact same
  obtain ⟨sent,cleared,fine,alive,state,input⟩ := handleWrite_finished (c := d.more rest) answer.fine
    (answer.connected.trans connected) (show AcceptsAll d.writes from answer.writes ▸ accepts)
  have finished : (d.more rest).state = .finish := answer.state
  have running : (d.more rest).err = false := answer.fine
  have whole : (handleWrite (d.more rest)).sent = response := by
    rw [sent,output]
    have before : (d.more rest).sent = [] := answer.sent.trans unsent
    rw [before]
    rfl
  have left : (handleWrite (d.more rest)).inputBuffer = rest := by
    rw [input]
    show d.inputBuffer ++ rest = rest
    rw [answer.consumed]
    rfl
  have after : afterLoop false (d.more rest) =
      (decide (rest ≠ []),initParse (handleWrite (d.more rest))) := by
    simp [afterLoop,running,output,some,fine,state,finished,initParse,alive,left]
  rw [handleRead,passed]
  simp only [bind,Except.bind,after]
  by_cases more : rest = []
  · rw [decide_eq_false (by simpa using more)]
    exact ⟨_,rfl,whole,left,rfl⟩
  · rw [decide_eq_true more]
    refine ⟨_,rfl,?_,?_,?_⟩
    · simp [afterLoop,initParse,fine,cleared,whole]
    · simp [afterLoop,initParse,fine,cleared,left]
    · simp [afterLoop,initParse,fine,cleared]

/-- Requests that would each be answered, arriving in one read on a fresh connection
whose writes are all accepted: the responses are written, the buffer is empty and the
parser is back at the start exactly when there is only one of them. -/
theorem pipelined_iff {env : Env} {root : Bytes} {mime : MimeType}
    {writes : List (List WriteResult)} {requests : List (Bytes × HttpRequest × Bytes)}
    {results : List ReadResult} (accepts : AcceptsAll writes) (some : requests ≠ [])
    (complete : ∀ one ∈ requests, Complete env (ready env root mime writes) one.1 one.2.1 one.2.2)
    (arrives : Drains results (requests.map (·.1)).flatten .again) :
    (∃ c', handleRead env [results] (ready env root mime writes) = .ok c' ∧
        c'.sent = (requests.map (·.2.2)).flatten ∧ c'.inputBuffer = [] ∧
        c'.state = .parseRequestLine) ↔ requests.length = 1 := by
  cases requests with
  | nil => exact absurd rfl some
  | cons first later =>
    have answers := complete first (by simp)
    obtain ⟨d,answer⟩ := answers.answer
    rw [List.map_cons,List.flatten_cons] at arrives
    obtain ⟨c',handled,sent,left,state⟩ :=
      handleRead_leaves_rest accepts answer answers.response_ne arrives
    constructor
    · rintro ⟨other,again,_,empty,_⟩
      obtain rfl := Except.ok.inj (again.symm.trans handled)
      rw [left] at empty
      cases later with
      | nil => rfl
      | cons second later =>
        obtain ⟨_,next⟩ := (complete second (by simp)).answer
        exact absurd (List.flatten_eq_nil_iff.mp empty second.1 (by simp)) next.arrived
    · intro single
      have none : later = [] := List.length_eq_zero_iff.mp (Nat.succ.inj single)
      subst none
      refine ⟨c',handled,by simpa using sent,left,state⟩

theorem pipelined_one : ∃ c', handleRead sampleEnv [[.received sampleRequest]]
      (ready sampleEnv [] mimeType []) = .ok c' ∧ c'.sent = sampleResponse := by
  have complete : ∀ one ∈ [(sampleRequest,sampleParsed,sampleResponse)],
      Complete sampleEnv (ready sampleEnv [] mimeType []) one.1 one.2.1 one.2.2 := by
    intro one member
    obtain rfl := List.mem_singleton.mp member
    exact sample_complete
  obtain ⟨c',handled,sent,_⟩ := (@pipelined_iff sampleEnv [] mimeType []
    [(sampleRequest,sampleParsed,sampleResponse)] [.received sampleRequest] (by simp [AcceptsAll])
    (by simp) complete (.chunk 71 _ .exhausted)).mpr rfl
  exact ⟨c',handled,sent.trans (by simp)⟩

/-- Of two requests in one read the second is left in the buffer. -/
theorem second_request_unanswered : ¬ ∀ (env : Env) (root : Bytes) (mime : MimeType)
    (writes : List (List WriteResult)) (requests : List (Bytes × HttpRequest × Bytes))
    (results : List ReadResult), AcceptsAll writes → requests ≠ [] →
    (∀ one ∈ requests, Complete env (ready env root mime writes) one.1 one.2.1 one.2.2) →
    Drains results (requests.map (·.1)).flatten .again →
    ∃ c', handleRead env [results] (ready env root mime writes) = .ok c' ∧
      c'.sent = (requests.map (·.2.2)).flatten ∧ c'.inputBuffer = [] ∧
      c'.state = .parseRequestLine := by
  intro always
  have complete : ∀ one ∈ List.replicate 2 (sampleRequest,sampleParsed,sampleResponse),
      Complete sampleEnv (ready sampleEnv [] mimeType []) one.1 one.2.1 one.2.2 := by
    intro one member
    obtain rfl := List.eq_of_mem_replicate member
    exact sample_complete
  obtain ⟨c',handled,_,empty,_⟩ := always sampleEnv [] mimeType []
    (List.replicate 2 (sampleRequest,sampleParsed,sampleResponse))
    [.received (sampleRequest ++ sampleRequest)] (by simp [AcceptsAll]) (by simp) complete
    (.chunk 71 _ .exhausted)
  have left : ((handleRead sampleEnv [[.received (sampleRequest ++ sampleRequest)]]
      (ready sampleEnv [] mimeType [])).toOption.map fun c => c.inputBuffer) = some sampleRequest := by
    decide
  rw [handled] at left
  have same : c'.inputBuffer = sampleRequest := Option.some.inj left
  rw [empty] at same
  exact absurd same (by decide)

end Deon.Http
