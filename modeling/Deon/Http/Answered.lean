import Deon.Http.HeaderBlock
import Deon.Http.Pipelining
import Deon.Http.Response

/-! A request in one read, with any number of headers. The header automaton skips CR and LF
in front of the first header, so that a request without headers does not end. -/
namespace Deon.Http
open Library

/-- A readable regular file of this size that opens and maps. -/
structure Serves (env : Env) (fileName : Bytes) (size : Nat) : Prop where
  found : env.stat (cStr fileName) = some ⟨true,true,size⟩
  opened : env.opens (cStr fileName) = true
  mapped : env.mmap (cStr fileName) size ≠ none

/-- The line is parsed into this request. -/
def Accepts (line : Bytes) (request : HttpRequest) : Prop :=
  parseRequestLine (line ++ crlf) requestInit = .ok (.success,[],request)

/-- The call has answered its request and the connection is ready for the next. -/
structure AnswersOnce (response : Bytes) (c : Connection) : Prop where
  answered : c.responses = [response]
  state : c.state = .parseRequestLine
  consumed : c.inputBuffer = []

theorem Accepts.parts {line : Bytes} {request : HttpRequest} (accepts : Accepts line request) :
    find crlf (line ++ crlf) = some line.length ∧
      parseLine line requestInit = .ok (.success,request) := by
  unfold Accepts at accepts
  cases found : find crlf (line ++ crlf) with
  | none => simp [parseRequestLine,found] at accepts
  | some pos =>
    have bound := find_bound found
    have two : crlf.length = 2 := rfl
    rw [parseRequestLine_found _ found] at accepts
    obtain ⟨⟨rc,after⟩,parsed,same⟩ := map_success accepts
    simp only [Prod.mk.injEq,List.drop_eq_nil_iff,List.length_append] at same bound
    obtain ⟨rfl,whole,rfl⟩ := same
    obtain rfl : pos = line.length := by omega
    rw [List.take_left' rfl] at parsed
    exact ⟨rfl,parsed⟩

/-- A connection that is at the beginning of a request. -/
structure Waiting (c : Connection) : Prop where
  state : c.state = .parseRequestLine
  hState : c.hState = .start
  request : c.request = requestInit
  empty : c.inputBuffer = []

theorem lineStage_waiting {env : Env} {c : Connection} {line : Bytes} {rc : LineState}
    {request : HttpRequest} (waiting : Waiting c) (found : find crlf (line ++ crlf) = some line.length)
    (parsed : parseLine line requestInit = .ok (rc,request)) (rest : Bytes) :
    lineStage env (c.more (line ++ crlf ++ rest)) =
      .ok (lineLeads env (c.parsed rest .parseRequestLine .start request) rc) := by
  have buffer : (c.more (line ++ crlf ++ rest)).inputBuffer = line ++ crlf ++ rest := by
    simp [Connection.more,waiting.empty]
  have line_found : find crlf (c.more (line ++ crlf ++ rest)).inputBuffer = some line.length := by
    rw [buffer]
    exact find_append rest found
  have cut : (c.more (line ++ crlf ++ rest)).inputBuffer.take line.length = line := by
    rw [buffer,List.append_assoc,List.take_left' rfl]
  have left : (c.more (line ++ crlf ++ rest)).inputBuffer.drop (line.length + 2) = rest := by
    rw [buffer]
    exact List.drop_left' (by simp [crlf])
  have own : parseLine ((c.more (line ++ crlf ++ rest)).inputBuffer.take line.length)
      (c.more (line ++ crlf ++ rest)).request = .ok (rc,request) := by
    rw [cut]
    exact waiting.request ▸ parsed
  rw [lineStage_line (c := c.more (line ++ crlf ++ rest)) waiting.state line_found own,left,
    ← waiting.hState,← waiting.state]
  rfl

theorem lineStage_accepts {env : Env} {c : Connection} {line : Bytes} {request : HttpRequest}
    (waiting : Waiting c) (accepts : Accepts line request) (rest : Bytes) :
    lineStage env (c.more (line ++ crlf ++ rest)) =
      .ok (.go (c.parsed rest .parseHeaders .start request)) := by
  obtain ⟨found,parsed⟩ := accepts.parts
  exact lineStage_waiting waiting found parsed rest

/-- The turn that reads the request goes on behind its line. -/
theorem pass_accepts {env : Env} {c : Connection} {line rest : Bytes} {request : HttpRequest}
    {results : List ReadResult} (waiting : Waiting c) (accepts : Accepts line request)
    (arrives : Drains results (line ++ crlf ++ rest) .again) :
    pass env results c = (do
      let stage ← headerStage env (c.parsed rest .parseHeaders .start request)
      let stage ← stage.andThen (lengthStage env)
      stage.andThen (analysisStage env)) := by
  have some : line ++ crlf ++ rest ≠ [] := by simp [crlf]
  rw [pass_stages arrives some,stages,lineStage_accepts waiting accepts]
  rfl

theorem stages_fields {env : Env} {c : Connection} {request : HttpRequest} {fields : Fields}
    {size : Nat} (some : fields ≠ []) (method : request.method = .get ∨ request.method = .head)
    (empty : request.headers = ∅) (names : ∀ one ∈ fields, FieldName one.1)
    (values : ∀ one ∈ fields, FieldValue one.2)
    (answerable : Answerable env c.root {request with headers := enter ∅ fields} size) :
    (do
      let stage ← headerStage env (c.parsed (headerBlock fields) .parseHeaders .start request)
      let stage ← stage.andThen (lengthStage env)
      stage.andThen (analysisStage env)) =
      .ok (.leave false {(c.parsed [] .analysis .endCr
        {request with headers := enter ∅ fields}).responded env size with state := .finish}) := by
  have read := whole_block_read some names values empty
  have other : ¬ request.method = .post := by
    rcases method with same | same <;> simp [same]
  have headed : headerStage env (c.parsed (headerBlock fields) .parseHeaders .start request) =
      .ok (.go (c.parsed [] .analysis .endCr {request with headers := enter ∅ fields})) := by
    simp only [headerStage,Connection.parsed,if_true,read,bind,Except.bind,other,if_false]
    rfl
  have measured : lengthStage env (c.parsed [] .analysis .endCr
      {request with headers := enter ∅ fields}) =
      .ok (.go (c.parsed [] .analysis .endCr {request with headers := enter ∅ fields})) := rfl
  have answered : analysisStage env (c.parsed [] .analysis .endCr
      {request with headers := enter ∅ fields}) = _ := analysisStage_answers rfl answerable
  simp only [headed,measured,answered,Stage.andThen,bind,Except.bind]

/-- A request without headers waits in front of its header block. -/
theorem stages_no_fields {env : Env} {c : Connection} {request : HttpRequest} :
    ∃ d, headerStage env (c.parsed crlf .parseHeaders .start request) = .ok (.leave true d) ∧
      d.responses = c.responses := by
  have waits := @headerStage_reads env (c.parsed crlf .parseHeaders .start request) rfl
  exact ⟨_,waits,rfl⟩

theorem ready_waiting (env : Env) (root : Bytes) (mime : MimeType)
    (writes : List (List WriteResult)) : Waiting (ready env root mime writes) := by
  unfold ready registerHttp addChannel update
  split <;> exact ⟨rfl,rfl,rfl,rfl⟩

theorem ready_keeps (env : Env) (root : Bytes) (mime : MimeType)
    (writes : List (List WriteResult)) :
    (ready env root mime writes).err = false ∧ (ready env root mime writes).responses = [] ∧
      (ready env root mime writes).root = root ∧ (ready env root mime writes).mime = mime := by
  unfold ready registerHttp addChannel update
  split <;> exact ⟨rfl,rfl,rfl,rfl⟩

theorem answered_once {env : Env} {results : List ReadResult} {c d : Connection} {size : Nat}
    (running : d.err = false) (connected : d.isConnecting = true) (idle : d.outputBuffer = [])
    (first : d.responses = []) (consumed : d.inputBuffer = [])
    (passed : pass env results c =
      .ok (.leave false {d.responded env size with state := .finish})) :
    ∃ c', handleRead env [results] c = .ok c' ∧
      (AnswersOnce (responseTo env d.mime d.root d.request size) c' ↔
        ¬ Breaks (d.writes.headD []) (responseTo env d.mime d.root d.request size).length) := by
  obtain ⟨err,connecting,input,writes,_⟩ := responded_keeps env size d
  have output := responded_output env size idle
  have history := responded_responses env size d
  rw [first,List.nil_append] at history
  generalize response : responseTo env d.mime d.root d.request size = text at output history
  have some : text ≠ [] := by rw [← response]; exact responseTo_ne _ _ _ _ _
  generalize d.responded env size = e at passed err connecting input writes output history
  have after := @afterLoop_answered {e with state := .finish} (err.trans running)
    (connecting.trans connected) (by rw [← output] at some; exact some) rfl (input.trans consumed)
  have written := @handleWrite_running {e with state := .finish} (err.trans running)
    (connecting.trans connected)
  have failed : (handleWrite {e with state := .finish}).err = true ↔
      Breaks (d.writes.headD []) text.length := by
    rw [← writen_breaks,written]
    simp [output,writes]
  refine ⟨_,handleRead_once passed (by rw [after]) [],?_⟩
  rw [after,← failed]
  cases (handleWrite {e with state := .finish}).err with
  | true =>
    simp only [if_true,not_true_eq_false,iff_false]
    rintro ⟨_,state,_⟩
    rw [written] at state
    cases state
  | false =>
    simp only [Bool.false_eq_true,if_false,not_false_eq_true,iff_true]
    refine ⟨?_,rfl,?_⟩
    · rw [written]
      exact history
    · rw [written]
      exact input.trans consumed

/-- A request line that is accepted, the headers behind it and the closing CRLF in one read:
the response is produced and the connection is ready for the next request exactly when there
is a header and no `write` of the response fails. -/
theorem headers_answered_iff {env : Env} {root line : Bytes} {mime : MimeType}
    {writes : List (List WriteResult)} {request : HttpRequest} {fields : Fields} {size : Nat}
    {results : List ReadResult} (accepts : Accepts line request)
    (method : request.method = .get ∨ request.method = .head)
    (names : ∀ one ∈ fields, FieldName one.1) (values : ∀ one ∈ fields, FieldValue one.2)
    (serves : Serves env (root ++ request.uri) size)
    (arrives : Drains results (line ++ crlf ++ headerBlock fields) .again) :
    ∃ c', handleRead env [results] (ready env root mime writes) = .ok c' ∧
      (AnswersOnce (responseTo env mime root {request with headers := enter ∅ fields} size) c' ↔
        fields ≠ [] ∧ ¬ Breaks (writes.headD [])
          (responseTo env mime root {request with headers := enter ∅ fields} size).length) := by
  have waiting := ready_waiting env root mime writes
  obtain ⟨running,first,sameRoot,sameMime⟩ := ready_keeps env root mime writes
  obtain ⟨idle,_,connected,_⟩ := ready_fields env root mime writes
  have goes := @pass_accepts env _ _ _ _ _ waiting accepts arrives
  by_cases any : fields = []
  · subst any
    obtain ⟨d,headed,silent⟩ :=
      @stages_no_fields env (ready env root mime writes) request
    have passed : pass env results (ready env root mime writes) = .ok (.leave true d) :=
      goes.trans (congrArg (fun stage => stage >>= _) headed)
    refine ⟨_,handleRead_once passed (afterLoop_true d).1 [],
      iff_of_false ?_ fun both => both.1 rfl⟩
    rintro ⟨answered,_,_⟩
    rw [(afterLoop_parsed true d).1,silent,first] at answered
    cases answered
  · have answerable : Answerable env (ready env root mime writes).root
        {request with headers := enter ∅ fields} size := by
      rw [sameRoot]
      exact ⟨method,.inr ⟨serves.found,.inr ⟨serves.opened,.inl serves.mapped⟩⟩⟩
    have passed := goes.trans (stages_fields any method (parseLine_result accepts.parts.2).2 names
      values answerable)
    have once := @answered_once env results (ready env root mime writes)
      ((ready env root mime writes).parsed [] .analysis .endCr
        {request with headers := enter ∅ fields}) size running connected idle first rfl passed
    have queued : (ready env root mime writes).writes = writes := rfl
    simpa only [Connection.parsed,sameRoot,sameMime,queued,any,ne_eq,not_false_eq_true,true_and]
      using once

theorem sampleLine_accepts :
    Accepts (bytes "GET /a HTTP/1.1") ⟨.get,.http11,bytes "a",∅⟩ := by
  unfold Accepts
  decide

theorem sampleEnv_serves : Serves sampleEnv (bytes "a") 3 where
  found := rfl
  opened := rfl
  mapped := by simp [sampleEnv]

theorem headers_answered_sample : ∃ c',
    handleRead sampleEnv [[.received sampleRequest]] (ready sampleEnv [] mimeType []) = .ok c' ∧
      AnswersOnce (responseTo sampleEnv mimeType [] sampleParsed 3) c' := by
  obtain ⟨c',handled,answers⟩ := @headers_answered_iff sampleEnv [] (bytes "GET /a HTTP/1.1")
    mimeType [] ⟨.get,.http11,bytes "a",∅⟩ [(bytes "Host",bytes "d")] 3 [.received sampleRequest]
    sampleLine_accepts (.inl rfl) (by simp only [List.forall_mem_singleton,FieldName]; decide)
    (by simp only [List.forall_mem_singleton,FieldValue]; decide) sampleEnv_serves
    (.chunk 71 _ .exhausted)
  exact ⟨c',handled,answers.mpr ⟨by simp,by simp [Breaks]⟩⟩

/-- `GET /a HTTP/1.1` and an empty line. -/
theorem bare_request_unanswered : Accepts (bytes "GET /a HTTP/1.1") ⟨.get,.http11,bytes "a",∅⟩ ∧
    Serves sampleEnv (bytes "a") 3 ∧ ∃ c', handleRead sampleEnv
      [[.received (bytes "GET /a HTTP/1.1\r\n\r\n")]] (ready sampleEnv [] mimeType []) = .ok c' ∧
      c'.responses = [] ∧ c'.state = .parseHeaders ∧ ∀ response, ¬ AnswersOnce response c' := by
  refine ⟨sampleLine_accepts,sampleEnv_serves,_,rfl,rfl,rfl,?_⟩
  rintro response ⟨answered,_,_⟩
  cases answered

end Deon.Http
