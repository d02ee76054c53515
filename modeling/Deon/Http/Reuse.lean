import Deon.Http.Answered
import Deon.Http.MimeType

/-! A connection that is used again. What a request is parsed into depends on the connection
only through its parser, and what it is answered with only through the root and the table of
content types; the first is cleared away behind every request, and of the second only the
entries of the program's start are seen. -/
namespace Deon.Http
open Library

section Anywhere

variable {env : Env} {c d : Connection} {inputBuffer : Bytes} {state : HttpRequestParseState}
  {hState : HeaderParseState} {request : HttpRequest}

/-- A block that leads on from this parser leads on from it on every connection, and changes
nothing but the parser. -/
def LeadsAnywhere (block : Env → Connection → Except Fault Stage) (inputBuffer : Bytes)
    (state : HttpRequestParseState) (hState : HeaderParseState) (request : HttpRequest)
    (c d : Connection) : Prop :=
  ∃ b s h q, d = c.parsed b s h q ∧ ∀ (env : Env) (e : Connection),
    block env (e.parsed inputBuffer state hState request) = .ok (.go (e.parsed b s h q))

/-- A block that leads on to one parser from this one on every connection. -/
theorem LeadsAnywhere.always {block : Env → Connection → Except Fault Stage} {b : Bytes}
    {s : HttpRequestParseState} {h : HeaderParseState} {q : HttpRequest}
    (leads : ∀ (env : Env) (e : Connection),
      block env (e.parsed inputBuffer state hState request) = .ok (.go (e.parsed b s h q)))
    (goes : block env (c.parsed inputBuffer state hState request) = .ok (.go d)) :
    LeadsAnywhere block inputBuffer state hState request c d := by
  rw [leads] at goes
  obtain rfl := Stage.go.inj (Except.ok.inj goes)
  exact ⟨_,_,_,_,rfl,leads⟩

theorem lineStage_anywhere
    (goes : lineStage env (c.parsed inputBuffer state hState request) = .ok (.go d)) :
    LeadsAnywhere lineStage inputBuffer state hState request c d := by
  by_cases reading : state = .parseRequestLine
  · cases found : find crlf inputBuffer with
    | none =>
      have waits := @lineStage_waits env (c.parsed inputBuffer state hState request) reading found
      rw [waits] at goes
      cases goes
    | some pos =>
      obtain ⟨rc,after,parsed⟩ := parseLine_ok (inputBuffer.take pos) request
      have line : ∀ (env : Env) (e : Connection),
          lineStage env (e.parsed inputBuffer state hState request) = .ok (lineLeads env
            {e.parsed inputBuffer state hState request with
              inputBuffer := inputBuffer.drop (pos + 2),request := after} rc) :=
        fun env e => lineStage_line (c := e.parsed inputBuffer state hState request) reading found parsed
      cases rc with
      | again => rw [line] at goes; cases goes
      | error => rw [line] at goes; cases goes
      | success => exact .always (fun env e => line env e) goes
  · exact .always (fun env e => if_neg reading) goes

theorem headerStage_anywhere
    (goes : headerStage env (c.parsed inputBuffer state hState request) = .ok (.go d)) :
    LeadsAnywhere headerStage inputBuffer state hState request c d := by
  by_cases reading : state = .parseHeaders
  · have reads : ∀ (env : Env) (e : Connection), _ := fun env e =>
      @headerStage_reads env (e.parsed inputBuffer state hState request) reading
    simp only [Connection.parsed] at reads
    cases ended : (Reading.fresh hState request.headers).run inputBuffer with
    | again r =>
      have same := (reads env c).symm.trans goes
      simp [ended] at same
    | failed hState headers =>
      have same := (reads env c).symm.trans goes
      simp [ended,badRequest] at same
    | done headers rest =>
      simp only [ended] at reads
      have leads : ∀ (env : Env) (e : Connection),
          headerStage env (e.parsed inputBuffer state hState request) = .ok (.go (e.parsed rest
            (if request.method = .post then .checkContentLength else .analysis) .endCr
            {request with headers := headers})) := reads
      exact .always leads goes
  · exact .always (fun env e => if_neg reading) goes

theorem lengthStage_covered {value : Bytes} {contentLength : Int} (checking : c.state = .checkContentLength)
    (present : c.request.headers.lookup (bytes "Content-length") = some value)
    (converted : stoi value = .ok contentLength)
    (covered : ¬ (c.inputBuffer.length : Int) < contentLength) :
    lengthStage env c = .ok (.go {c with state := .analysis}) := by
  unfold lengthStage
  rw [if_pos checking,present]
  dsimp only
  rw [converted]
  exact if_neg covered

theorem lengthStage_goes (checking : c.state = .checkContentLength)
    (goes : lengthStage env c = .ok (.go d)) : ∃ value contentLength,
      c.request.headers.lookup (bytes "Content-length") = some value ∧
      stoi value = .ok contentLength ∧ ¬ (c.inputBuffer.length : Int) < contentLength := by
  unfold lengthStage at goes
  rw [if_pos checking] at goes
  split at goes
  · cases goes
  · rename_i value present
    obtain ⟨contentLength,converted,next⟩ := bind_success goes
    split_ifs at next with short
    · cases next
    · exact ⟨value,contentLength,present,converted,short⟩

theorem lengthStage_anywhere
    (goes : lengthStage env (c.parsed inputBuffer state hState request) = .ok (.go d)) :
    LeadsAnywhere lengthStage inputBuffer state hState request c d := by
  by_cases checking : state = .checkContentLength
  · obtain ⟨value,contentLength,present,converted,covered⟩ :=
      @lengthStage_goes env (c.parsed inputBuffer state hState request) d checking goes
    have leads : ∀ (env : Env) (e : Connection), _ := fun env e => @lengthStage_covered env
      (e.parsed inputBuffer state hState request) value contentLength checking present converted covered
    exact .always leads goes
  · exact .always (fun env e => if_neg checking) goes

end Anywhere

theorem Waiting.more_parsed {e : Connection} (waiting : Waiting e) (text : Bytes) :
    e.more text = e.parsed text .parseRequestLine .start requestInit := by
  obtain ⟨state,hState,request,empty⟩ := waiting
  unfold Connection.more Connection.parsed
  rw [empty,← state,← hState,← request]
  rfl

/-- A request that is answered on one connection is parsed in the same way on every other that
waits for a request, and its response is a function of the files and the table. -/
theorem Answer.anywhere {env : Env} {c d : Connection} {text response : Bytes}
    {request : HttpRequest} (waiting : Waiting c) (answer : Answer env c text request response d) :
    ∃ hState size, (∀ (env' : Env) (e : Connection), Waiting e → stages env' (e.more text) =
        analysisStage env' (e.parsed [] .analysis hState request)) ∧
      Answerable env c.root request size ∧ response = responseTo env c.mime c.root request size := by
  obtain ⟨_,_,_,lined,headed,measured,last⟩ := (stages_answer answer.fine).mp answer.leaves
  rw [waiting.more_parsed] at lined
  obtain ⟨_,_,_,_,rfl,line⟩ := lineStage_anywhere lined
  obtain ⟨_,_,_,_,rfl,header⟩ := headerStage_anywhere headed
  obtain ⟨b,s,h,q,rfl,length⟩ := lengthStage_anywhere measured
  obtain ⟨input,_,noted⟩ := analysisStage_keeps last
  obtain rfl : q = request := List.singleton_inj.mp (List.append_cancel_left (noted.symm.trans answer.analysed))
  obtain rfl : b = [] := input.symm.trans answer.consumed
  unfold analysisStage at last
  split_ifs at last with analysing
  · obtain rfl : s = .analysis := analysing
    obtain ⟨⟨rc,after⟩,called,next⟩ := bind_success last
    dsimp only at next
    split_ifs at next with zero
    · subst zero
      obtain ⟨_,rfl⟩ := Stage.leave.inj (Except.ok.inj next)
      obtain ⟨size,answerable,rfl⟩ := analysisRequest_zero_iff.mp called
      refine ⟨h,size,?_,answerable,?_⟩
      · intro env' e waits
        simp only [stages,waits.more_parsed,line,header,length,Stage.andThen,bind,Except.bind]
      · have history := answer.responses
        dsimp only at history
        rw [responded_responses] at history
        exact (List.singleton_inj.mp (List.append_cancel_left history)).symm
    · obtain ⟨_,rfl⟩ := Stage.leave.inj (Except.ok.inj next)
      exact absurd answer.fine (by simp)
  · cases last

/-- What a connection must have kept to serve the next request. -/
structure Reusable (root : Bytes) (table : MimeType) (c : Connection) : Prop where
  waiting : Waiting c
  fine : c.err = false
  connected : c.isConnecting = true
  silent : c.outputBuffer = []
  root : c.root = root
  grown : Grown table c.mime

section Reusable

variable {root : Bytes} {table : MimeType} {c : Connection}

theorem handleWrite_reusable (reusable : Reusable root table c) (accepts : AcceptsAll c.writes) :
    Reusable root table (handleWrite c) ∧ (handleWrite c).sent = c.sent := by
  obtain ⟨sent,silent,fine,connected,_⟩ := handleWrite_finished reusable.fine reusable.connected accepts
  have running := handleWrite_running reusable.fine reusable.connected
  rw [reusable.silent,List.append_nil] at sent
  refine ⟨⟨?_,fine,connected,silent,?_,?_⟩,sent⟩
  · rw [running]
    exact ⟨reusable.waiting.state,reusable.waiting.hState,reusable.waiting.request,reusable.waiting.empty⟩
  · rw [running]
    exact reusable.root
  · rw [running]
    exact reusable.grown

theorem handleRegister_reusable (env : Env) (reusable : Reusable root table c) :
    Reusable root table (handleRegister env c) ∧ (handleRegister env c).sent = c.sent := by
  obtain ⟨⟨state,hState,request,empty⟩,fine,connected,silent,same,grown⟩ := reusable
  unfold handleRegister
  dsimp only
  split
  · unfold updateChannel update
    split <;> exact ⟨⟨⟨state,hState,request,empty⟩,fine,connected,silent,same,grown⟩,rfl⟩
  · exact ⟨⟨⟨state,hState,request,empty⟩,fine,connected,silent,same,grown⟩,rfl⟩

theorem responded_next (env : Env) (size : Nat) (c : Connection) :
    (c.responded env size).root = c.root ∧
      (c.responded env size).mime = (fileTypeOf c.mime (c.root ++ c.request.uri)).2 := by
  unfold Connection.responded
  dsimp only
  split_ifs <;> exact ⟨rfl,rfl⟩

theorem handleRead_reusable {env : Env} {results : List ReadResult} {text : Bytes}
    {hState : HeaderParseState} {request : HttpRequest} {size : Nat}
    (reusable : Reusable root table c) (accepts : AcceptsAll c.writes)
    (arrives : Drains results text .again) (some : text ≠ [])
    (parses : stages env (c.more text) = analysisStage env (c.parsed [] .analysis hState request))
    (answerable : Answerable env root request size) (drains : List (List ReadResult)) :
    ∃ c', handleRead env (results :: drains) c = .ok c' ∧ Reusable root table c' ∧
      AcceptsAll c'.writes ∧ c'.sent = c.sent ++ responseTo env c.mime root request size := by
  obtain ⟨_,fine,connected,silent,same,grown⟩ := reusable
  have answers := @analysisStage_answers env (c.parsed [] .analysis hState request) size rfl
    (same ▸ answerable)
  have passed := (pass_stages arrives some c).trans (parses.trans answers)
  obtain ⟨err,connecting,input,writes,sent⟩ :=
    responded_keeps env size (c.parsed [] .analysis hState request)
  obtain ⟨rooted,mime⟩ := responded_next env size (c.parsed [] .analysis hState request)
  have output := @responded_output env size (c.parsed [] .analysis hState request) silent
  generalize (c.parsed [] .analysis hState request).responded env size = d
    at passed err connecting input writes sent rooted mime output
  have running : ({d with state := .finish} : Connection).err = false := err.trans fine
  have alive : ({d with state := .finish} : Connection).isConnecting = true :=
    connecting.trans connected
  have told : ({d with state := .finish} : Connection).outputBuffer ≠ [] := by
    dsimp only
    rw [output]
    exact responseTo_ne _ _ _ _ _
  have after := afterLoop_answered running alive told rfl input
  obtain ⟨whole,cleared,done,stays,_,left⟩ := handleWrite_finished running alive
    (show AcceptsAll d.writes from writes ▸ accepts)
  have written := handleWrite_running running alive
  have cleared_away : afterLoop false {d with state := .finish} =
      (false,initParse (handleWrite {d with state := .finish})) := by
    rw [after,done]
    rfl
  refine ⟨initParse (handleWrite {d with state := .finish}),?_,?_,?_,?_⟩
  · rw [handleRead_once passed (by rw [cleared_away]) drains,cleared_away]
  · refine ⟨⟨rfl,rfl,rfl,left.trans input⟩,done,stays,cleared,?_,?_⟩
    · show (handleWrite {d with state := .finish}).root = root
      rw [written]
      exact rooted.trans same
    · show Grown table (handleWrite {d with state := .finish}).mime
      rw [written]
      exact mime ▸ grown.next _
  · show AcceptsAll (handleWrite {d with state := .finish}).writes
    rw [written]
    have all : AcceptsAll d.writes := writes ▸ accepts
    exact fun other member => all other (List.mem_of_mem_tail member)
  · show (handleWrite {d with state := .finish}).sent = _
    rw [whole]
    show d.sent ++ d.outputBuffer = _
    rw [sent,output]
    subst same
    rfl

end Reusable

/-- The same files. -/
structure SameFiles (env env' : Env) : Prop where
  stat : env.stat = env'.stat
  opens : env.opens = env'.opens
  mmap : env.mmap = env'.mmap

/-- The bytes, delivered alone in one read to a fresh connection whose writes accept
everything, are one request and its response is sent. -/
def Alone (env : Env) (root : Bytes) (table : MimeType) (text response : Bytes) : Prop :=
  ∃ mime writes results request decided c', Grown table mime ∧ AcceptsAll writes ∧
    Drains results text .again ∧ handleRead env [results] (ready env root mime writes) = .ok c' ∧
    c'.err = false ∧ c'.analysed = [request] ∧ c'.responses = [decided] ∧ c'.inputBuffer = [] ∧
    c'.state = .parseRequestLine ∧ c'.sent = response

theorem ready_reusable (env : Env) (root : Bytes) {table mime : MimeType} (grown : Grown table mime)
    (writes : List (List WriteResult)) : Reusable root table (ready env root mime writes) := by
  obtain ⟨silent,_,connected,_⟩ := ready_fields env root mime writes
  obtain ⟨fine,_,same,kept⟩ := ready_keeps env root mime writes
  exact ⟨ready_waiting env root mime writes,fine,connected,silent,same,by rw [kept]; exact grown⟩

theorem responseTo_grown {env : Env} {table mime : MimeType} (grown : Grown table mime) (root : Bytes)
    (request : HttpRequest) (size : Nat) :
    responseTo env mime root request size = responseTo env table root request size := by
  unfold responseTo responseHeader
  rw [grown.type_value]

theorem responseTo_files {env env' : Env} (files : SameFiles env env') (mime : MimeType) (root : Bytes)
    (request : HttpRequest) (size : Nat) :
    responseTo env mime root request size = responseTo env' mime root request size := by
  unfold responseTo responseBody fileBytes
  rw [files.mmap]

theorem Answerable.files {env env' : Env} {root : Bytes} {request : HttpRequest} {size : Nat}
    (files : SameFiles env env') (answerable : Answerable env root request size) :
    Answerable env' root request size := by
  unfold Answerable at answerable ⊢
  rw [← files.stat,← files.opens,← files.mmap]
  exact answerable

theorem Alone.anywhere {env : Env} {root text response : Bytes} {table : MimeType}
    (alone : Alone env root table text response) : text ≠ [] ∧ ∃ hState request size,
      (∀ (env' : Env) (e : Connection), Waiting e → stages env' (e.more text) =
        analysisStage env' (e.parsed [] .analysis hState request)) ∧
      Answerable env root request size ∧ response = responseTo env table root request size := by
  obtain ⟨mime,writes,results,request,decided,c',grown,accepts,arrives,handled,fine,analysed,
    responses,consumed,state,rfl⟩ := alone
  have reusable := ready_reusable env root grown writes
  obtain ⟨_,none,same,kept⟩ := ready_keeps env root mime writes
  have unasked : (ready env root mime writes).analysed = [] := by
    unfold ready registerHttp addChannel update
    split <;> rfl
  have complete : Complete env (ready env root mime writes) text request decided :=
    ⟨results,c',arrives,handled,fine,by rw [unasked]; exact analysed,by rw [none]; exact responses,
      consumed,state⟩
  obtain ⟨d,answer⟩ := complete.answer
  obtain ⟨hState,size,parses,answerable,_⟩ := answer.anywhere reusable.waiting
  rw [same] at answerable
  have queued : AcceptsAll (ready env root mime writes).writes := accepts
  obtain ⟨c'',again,_,_,sent⟩ := handleRead_reusable reusable queued arrives answer.arrived
    (parses env _ reusable.waiting) answerable []
  obtain rfl := Except.ok.inj (handled.symm.trans again)
  refine ⟨answer.arrived,hState,request,size,parses,answerable,?_⟩
  rw [sent,(ready_fields env root mime writes).2.1,kept,responseTo_grown grown]
  rfl

/-- An event that delivers such a request, and what other connections look up before it. -/
structure Visit where
  event : Event
  others : List Bytes
  text : Bytes
  response : Bytes

def visited (c : Connection) (visit : Visit) : Except Fault Connection :=
  handleEvents visit.event {c with mime := lookedUp c.mime visit.others}

structure Visit.Fits (env : Env) (root : Bytes) (table : MimeType) (visit : Visit) : Prop where
  files : SameFiles env visit.event.env
  reads : readable visit.event.revents = true
  accepts : AcceptsAll visit.event.writes
  arrives : ∃ results later, visit.event.drains = results :: later ∧
    Drains results visit.text .again
  alone : Alone env root table visit.text visit.response

theorem visited_reusable {env : Env} {root : Bytes} {table : MimeType} {visit : Visit}
    {c : Connection} (fits : visit.Fits env root table) (reusable : Reusable root table c) :
    ∃ c', visited c visit = .ok c' ∧ Reusable root table c' ∧ c'.sent = c.sent ++ visit.response := by
  obtain ⟨files,reads,accepts,⟨results,later,drains,arrives⟩,alone⟩ := fits
  obtain ⟨some,hState,request,size,parses,answerable,response⟩ := alone.anywhere
  have start : Reusable root table {c with
      mime := lookedUp c.mime visit.others,writes := visit.event.writes} :=
    ⟨⟨reusable.waiting.state,reusable.waiting.hState,reusable.waiting.request,reusable.waiting.empty⟩,
      reusable.fine,reusable.connected,reusable.silent,reusable.root,reusable.grown.lookedUp _⟩
  obtain ⟨read,returned,ready,left,sent⟩ := handleRead_reusable start accepts arrives some
    (parses visit.event.env _ start.waiting) (answerable.files files) later
  rw [responseTo_grown start.grown,← responseTo_files files,← response] at sent
  have wrote : ∃ e, (if writable visit.event.revents then handleWrite read else read) = e ∧
      Reusable root table e ∧ e.sent = read.sent := by
    split
    · exact ⟨_,rfl,handleWrite_reusable ready left⟩
    · exact ⟨_,rfl,ready,rfl⟩
  obtain ⟨e,written,kept,same⟩ := wrote
  obtain ⟨registered,unchanged⟩ := handleRegister_reusable visit.event.env kept
  refine ⟨handleRegister visit.event.env e,?_,registered,unchanged.trans (same.trans sent)⟩
  unfold visited handleEvents
  dsimp only
  rw [if_pos reads,drains,returned]
  simp only [bind,Except.bind,written]
  rfl

theorem visits_reusable {env : Env} {root : Bytes} {table : MimeType} {visits : List Visit}
    (fits : ∀ visit ∈ visits, visit.Fits env root table) : ∀ {c : Connection},
    Reusable root table c → ∃ c', visits.foldlM visited c = .ok c' ∧ Reusable root table c' ∧
      c'.sent = c.sent ++ visits.flatMap Visit.response := by
  induction visits with
  | nil =>
    intro c reusable
    exact ⟨c,rfl,reusable,by simp⟩
  | cons visit visits ih =>
    intro c reusable
    obtain ⟨first,others⟩ := List.forall_mem_cons.mp fits
    obtain ⟨middle,answered,kept,sent⟩ := visited_reusable first reusable
    obtain ⟨c',later,last,rest⟩ := ih others kept
    refine ⟨c',?_,last,?_⟩
    · rw [List.foldlM_cons,answered]
      exact later
    · rw [rest,sent,List.flatMap_cons,List.append_assoc]

/-- Requests that are each answered alone on a fresh connection are answered with the same
bytes one behind the other on a single one, whatever others have looked up in the table; and
behind each of them the parser is as on a fresh connection. -/
theorem reuse_transparent {env started : Env} {root : Bytes} {table mime : MimeType}
    {visits : List Visit} (grown : Grown table mime)
    (fits : ∀ visit ∈ visits, visit.Fits env root table) (n : Nat) :
    ∃ c, (visits.take n).foldlM visited (registerHttp started (Connection.fresh root mime)) = .ok c ∧
      c.sent = (visits.take n).flatMap Visit.response ∧
      c.state = (Connection.fresh root mime).state ∧ c.hState = (Connection.fresh root mime).hState ∧
      c.request = (Connection.fresh root mime).request ∧
      c.inputBuffer = (Connection.fresh root mime).inputBuffer ∧ c.err = false := by
  have first : ready started root mime [] = registerHttp started (Connection.fresh root mime) := by
    unfold ready registerHttp addChannel update
    split <;> rfl
  have start := first ▸ ready_reusable started root grown []
  have some : ∀ visit ∈ visits.take n, visit.Fits env root table :=
    fun visit member => fits visit (List.mem_of_mem_take member)
  obtain ⟨c,visits,kept,sent⟩ := visits_reusable some start
  have unsent := first ▸ (ready_fields started root mime []).2.1
  rw [unsent,List.nil_append] at sent
  exact ⟨c,visits,sent,kept.waiting.state,kept.waiting.hState,kept.waiting.request,kept.waiting.empty,
    kept.fine⟩

theorem sampleVisit_alone : Alone sampleEnv [] mimeType sampleRequest sampleResponse := by
  have handled : ((handleRead sampleEnv [[.received sampleRequest]] (ready sampleEnv [] mimeType [])).toOption.map
      fun c => ((c.err,c.analysed,c.responses),(c.inputBuffer,c.state,c.sent))) =
      some ((false,[sampleParsed],[sampleResponse]),([],.parseRequestLine,sampleResponse)) := by
    decide
  obtain ⟨c,handled,same⟩ := Option.map_eq_some_iff.mp handled
  simp only [Prod.mk.injEq] at same
  obtain ⟨⟨fine,analysed,responses⟩,consumed,state,sent⟩ := same
  exact ⟨mimeType,[],[.received sampleRequest],sampleParsed,sampleResponse,c,.same,by simp [AcceptsAll],
    .chunk 71 _ .exhausted,toOption_success.mp handled,fine,analysed,responses,consumed,state,sent⟩

/-- The request for a file, behind a lookup of a type that is not in the table. -/
def sampleVisit : Visit :=
  ⟨⟨sampleEnv,epollIn,[[.received sampleRequest]],[]⟩,[bytes ".pdf"],sampleRequest,sampleResponse⟩

theorem sampleVisit_fits : sampleVisit.Fits sampleEnv [] mimeType where
  files := ⟨rfl,rfl,rfl⟩
  reads := by decide
  accepts := by simp [sampleVisit,AcceptsAll]
  arrives := ⟨_,_,rfl,.chunk 71 _ .exhausted⟩
  alone := sampleVisit_alone

theorem reuse_transparent_sample : ∃ c, [sampleVisit,sampleVisit].foldlM visited sampleStart = .ok c ∧
    c.sent = sampleResponse ++ sampleResponse := by
  have fits : ∀ visit ∈ [sampleVisit,sampleVisit], visit.Fits sampleEnv [] mimeType := by
    simp [sampleVisit_fits]
  obtain ⟨c,visits,sent,_⟩ := @reuse_transparent sampleEnv sampleEnv [] mimeType mimeType
    [sampleVisit,sampleVisit] .same fits 2
  exact ⟨c,visits,by simpa [sampleVisit] using sent⟩

end Deon.Http
