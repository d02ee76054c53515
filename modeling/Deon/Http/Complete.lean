import Deon.Http.Steps

/-! Requests that `handleRead` answers when they arrive alone. What such a request is
parsed into does not depend on the bytes that stand behind it in the buffer. -/
namespace Deon.Http
open Library

/-- The bytes are one request: arriving alone on the connection they are parsed to
the end and answered with `response`. -/
def Complete (env : Env) (c : Connection) (text : Bytes) (request : HttpRequest)
    (response : Bytes) : Prop :=
  ∃ results c', Drains results text .again ∧ handleRead env [results] c = .ok c' ∧
    c'.err = false ∧ c'.analysed = c.analysed ++ [request] ∧
    c'.responses = c.responses ++ [response] ∧ c'.inputBuffer = [] ∧
    c'.state = .parseRequestLine

/-- The responses that were decided since, none of which is empty. -/
def Adds (c c' : Connection) : Prop :=
  ∃ added, c'.responses = c.responses ++ added ∧ ∀ response ∈ added, response ≠ []

theorem Adds.none {c c' : Connection} (same : c'.responses = c.responses) : Adds c c' :=
  ⟨[],by simp [same],by simp⟩

theorem Adds.one {c c' : Connection} {response : Bytes} (some : response ≠ [])
    (grown : c'.responses = c.responses ++ [response]) : Adds c c' :=
  ⟨[response],grown,by simpa using some⟩

theorem Adds.trans {c middle c' : Connection} (first : Adds c middle) (second : Adds middle c') :
    Adds c c' := by
  obtain ⟨early,same,some⟩ := first
  obtain ⟨late,grown,more⟩ := second
  refine ⟨early ++ late,by rw [grown,same,List.append_assoc],?_⟩
  intro response member
  rcases List.mem_append.mp member with here | there
  · exact some response here
  · exact more response there

theorem handleError_adds (env : Env) (errNum : Nat) (shortMsg : Bytes) (c : Connection) :
    Adds c (handleError env errNum shortMsg c) := by
  have some : errorHeader errNum shortMsg ++ errorBody errNum shortMsg ≠ [] := by
    have start : bytes "HTTP/1.1 " ≠ [] := by decide
    simp [errorHeader,start]
  exact .one some rfl

theorem Analysed.adds {env : Env} {c : Connection} {out : Int × Connection}
    (analysed : Analysed env c out) : Adds c out.2 := by
  cases analysed with
  | answers _ _ _ some => exact .one some rfl
  | hello =>
    have some : helloResponse ≠ [] := by decide
    exact .one some rfl
  | fails => exact .trans (.none rfl) (handleError_adds ..)
  | drops => exact .none rfl

theorem Parses.adds {env : Env} {c : Connection} {stage : Stage} (parses : Parses env c stage) :
    Adds c stage.connection := by
  cases parses with
  | waits => exact .none rfl
  | refuses => exact .trans (.none rfl) (handleError_adds ..)
  | answers _ _ _ _ _ _ _ analysed => exact analysed.adds
  | fails _ _ _ _ _ _ _ analysed => exact analysed.adds
  | loops => exact .none rfl

theorem Adds.length {c c' : Connection} (adds : Adds c c') :
    c.responses.length ≤ c'.responses.length := by
  obtain ⟨added,same,_⟩ := adds
  simp [same]

theorem Leaves.adds {env : Env} {c : Connection} {stage : Stage} (leaves : Leaves env c stage) :
    Adds c stage.connection := by
  cases leaves with
  | ends => exact .none rfl
  | parses parsed => exact parsed.adds

theorem handleWrite_parsed (c : Connection) :
    (handleWrite c).responses = c.responses ∧ (handleWrite c).analysed = c.analysed ∧
      (handleWrite c).inputBuffer = c.inputBuffer := by
  unfold handleWrite
  dsimp only
  split_ifs <;> exact ⟨rfl,rfl,rfl⟩

/-- What follows the loop reads nothing and answers nothing. -/
theorem afterLoop_parsed (finish : Bool) (c : Connection) :
    (afterLoop finish c).2.responses = c.responses ∧ (afterLoop finish c).2.analysed = c.analysed ∧
      (afterLoop finish c).2.inputBuffer = c.inputBuffer := by
  have written := handleWrite_parsed c
  unfold afterLoop
  dsimp only [initParse]
  split_ifs <;> first | exact ⟨rfl,rfl,rfl⟩ | exact written

theorem afterLoop_err {finish : Bool} {c : Connection} (fine : (afterLoop finish c).2.err = false) :
    c.err = false := by
  by_contra failed
  have stays : afterLoop finish c = (false,c) := by simp [afterLoop,failed]
  rw [stays] at fine
  exact failed fine

theorem handleRead_adds {env : Env} {drains : List (List ReadResult)} {c c' : Connection}
    (ok : handleRead env drains c = .ok c') : Adds c c' := by
  refine handleRead_keeps (Adds c) ?_ (.none rfl) ok
  intro now stage so_far leaves
  have more := leaves.adds
  cases stage with
  | go next => exact so_far.trans more
  | leave finish next => exact (so_far.trans more).trans (.none (afterLoop_parsed finish next).1)

theorem Complete.response_ne {env : Env} {c : Connection} {text : Bytes} {request : HttpRequest}
    {response : Bytes} (complete : Complete env c text request response) : response ≠ [] := by
  obtain ⟨results,c',_,handled,_,_,history,_⟩ := complete
  obtain ⟨added,same,some⟩ := handleRead_adds handled
  have one : added = [response] := List.append_cancel_left (same.symm.trans history)
  exact some response (by simp [one])

/-- The connection with more bytes behind those in its input buffer. -/
def Connection.more (c : Connection) (rest : Bytes) : Connection :=
  {c with inputBuffer := c.inputBuffer ++ rest}

theorem lineStage_more {env : Env} {c c' : Connection} (goes : lineStage env c = .ok (.go c'))
    (rest : Bytes) : lineStage env (c.more rest) = .ok (.go (c'.more rest)) := by
  by_cases state : c.state = .parseRequestLine
  · cases found : find crlf c.inputBuffer with
    | none => simp [lineStage_waits state found] at goes
    | some pos =>
      have bound : pos + 2 ≤ c.inputBuffer.length := by simpa [crlf] using find_bound found
      have again : find crlf (c.more rest).inputBuffer = some pos := find_append rest found
      have line : (c.more rest).inputBuffer.take pos = c.inputBuffer.take pos :=
        List.take_append_of_le_length (by omega)
      have left : (c.more rest).inputBuffer.drop (pos + 2) = c.inputBuffer.drop (pos + 2) ++ rest :=
        List.drop_append_of_le_length bound
      obtain ⟨rc,request,parsed⟩ := parseLine_ok (c.inputBuffer.take pos) c.request
      rw [lineStage_line state found parsed] at goes
      rw [lineStage_line (c := c.more rest) state again (line ▸ parsed),left]
      cases rc with
      | success =>
        obtain rfl := Stage.go.inj (Except.ok.inj goes)
        rfl
      | again => simp [lineLeads] at goes
      | error => simp [lineLeads,badRequest] at goes
  · have differs : (c.more rest).state ≠ .parseRequestLine := state
    rw [lineStage,if_neg differs]
    rw [lineStage,if_neg state] at goes
    obtain rfl := Stage.go.inj (Except.ok.inj goes)
    rfl

theorem headerStage_more {env : Env} {c c' : Connection} (goes : headerStage env c = .ok (.go c'))
    (rest : Bytes) : headerStage env (c.more rest) = .ok (.go (c'.more rest)) := by
  by_cases state : c.state = .parseHeaders
  · rw [headerStage_reads state] at goes
    rw [headerStage_reads (c := c.more rest) state]
    cases ended : (Reading.fresh c.hState c.request.headers).run c.inputBuffer with
    | again r => simp [ended] at goes
    | failed hState headers => simp [ended,badRequest] at goes
    | done headers after =>
      have longer : (Reading.fresh (c.more rest).hState (c.more rest).request.headers).run
          (c.more rest).inputBuffer = .done headers (after ++ rest) := Reading.run_done ended rest
      rw [ended] at goes
      rw [longer]
      obtain rfl := Stage.go.inj (Except.ok.inj goes)
      rfl
  · have differs : (c.more rest).state ≠ .parseHeaders := state
    rw [headerStage,if_neg differs]
    rw [headerStage,if_neg state] at goes
    obtain rfl := Stage.go.inj (Except.ok.inj goes)
    rfl

theorem lengthStage_more {env : Env} {c c' : Connection} (goes : lengthStage env c = .ok (.go c'))
    (rest : Bytes) : lengthStage env (c.more rest) = .ok (.go (c'.more rest)) := by
  unfold lengthStage at goes ⊢
  have buffer : (c.more rest).inputBuffer = c.inputBuffer ++ rest := rfl
  have request : (c.more rest).request = c.request := rfl
  by_cases state : c.state = .checkContentLength
  · have same : (c.more rest).state = .checkContentLength := state
    rw [if_pos same,buffer,request]
    rw [if_pos state] at goes
    split at goes
    · simp [badRequest] at goes
    · rename_i value looked
      obtain ⟨contentLength,converted,next⟩ := bind_success goes
      simp only [converted,bind,Except.bind]
      split at next
      · simp [pure,Except.pure] at next
      · rename_i covered
        have longer : ¬ ((c.inputBuffer ++ rest).length : Int) < contentLength := by
          simp only [List.length_append]
          omega
        rw [if_neg longer]
        obtain rfl := Stage.go.inj (Except.ok.inj next)
        rfl
  · have differs : (c.more rest).state ≠ .checkContentLength := state
    rw [if_neg differs]
    rw [if_neg state] at goes
    obtain rfl := Stage.go.inj (Except.ok.inj goes)
    rfl

/-- The connection with other bytes to read and another event mask. -/
def Connection.framed (c : Connection) (inputBuffer : Bytes) (events : EventMask) : Connection :=
  {c with inputBuffer := inputBuffer,events := events}

/-- The same connection with other names. -/
def Connection.renamed (c : Connection) (headers : Headers) (analysed : List HttpRequest) : Connection :=
  {c with request := {c.request with headers := headers},analysed := analysed}

section Changed

variable (env : Env) (c : Connection) (inputBuffer : Bytes) (events : EventMask) (headers : Headers)

theorem appendFile_changed (fileName header : Bytes) (size : Nat) (analysed : List HttpRequest) :
    appendFile env fileName header size ((c.renamed headers analysed).framed inputBuffer events) =
      (appendFile env fileName header size c).map
        fun out => (out.1,(out.2.renamed headers analysed).framed inputBuffer events) := by
  unfold appendFile
  cases env.opens (cStr fileName) with
  | false => rfl
  | true =>
    cases env.mmap (cStr fileName) size with
    | none =>
      by_cases empty : size = 0
      · simp only [empty]
        rfl
      · simp only [empty]
        rfl
    | some memory => rfl

/-- `analysisRequest` looks at no header but `Connection`, and at nothing that is still to read. -/
theorem analysisRequest_changed (alike : asksKeepAlive headers = asksKeepAlive c.request.headers) :
    analysisRequest env ((c.renamed headers c.analysed).framed inputBuffer events) =
      (analysisRequest env c).map fun out => (out.1,(out.2.renamed headers
        (c.analysed ++ [{c.request with headers := headers}])).framed inputBuffer events) := by
  unfold analysisRequest
  dsimp only [Connection.renamed,Connection.framed]
  rw [alike]
  by_cases answers : c.request.method = .get ∨ c.request.method = .head
  · generalize fileTypeOf c.mime (c.root ++ c.request.uri) = looked
    obtain ⟨fileType,mime⟩ := looked
    simp only [answers,if_true]
    by_cases hello : c.root ++ c.request.uri = bytes "hello"
    · simp only [hello,if_true]
      rfl
    · simp only [hello,if_false]
      cases env.stat (cStr (c.root ++ c.request.uri)) with
      | none => rfl
      | some sbuf =>
        dsimp only
        cases !sbuf.regular || !sbuf.userRead with
        | true => rfl
        | false =>
          rw [if_neg Bool.false_ne_true,if_neg Bool.false_ne_true]
          by_cases head : c.request.method = .head
          · rw [if_pos head,if_pos head]
            rfl
          · rw [if_neg head,if_neg head]
            generalize statusLine (asksKeepAlive c.request.headers) ++ entityHeader fileType sbuf.size =
              header
            have step := appendFile_changed env
              {c.noted (c.keepAlive || asksKeepAlive c.request.headers) mime with
                outputBuffer := c.outputBuffer ++ header} inputBuffer events headers
              (c.root ++ c.request.uri) header sbuf.size
              (c.analysed ++ [{c.request with headers := headers}])
            dsimp only [Connection.renamed,Connection.framed,Connection.noted] at step
            exact step
  · simp only [answers,if_false]
    rfl

theorem analysisRequest_framed : analysisRequest env (c.framed inputBuffer events) =
    (analysisRequest env c).map fun out => (out.1,out.2.framed inputBuffer events) := by
  refine (analysisRequest_changed env c inputBuffer events c.request.headers rfl).trans ?_
  apply map_alike
  intro out ok
  have analysed := analysisRequest_cases ok
  rw [← analysed.notes.1,← analysed.request]
  rfl

theorem analysisRequest_renamed (alike : asksKeepAlive headers = asksKeepAlive c.request.headers) :
    analysisRequest env (c.renamed headers c.analysed) = (analysisRequest env c).map fun out =>
      (out.1,out.2.renamed headers (c.analysed ++ [{c.request with headers := headers}])) := by
  refine (analysisRequest_changed env c c.inputBuffer c.events headers alike).trans ?_
  apply map_alike
  intro out ok
  obtain ⟨_,input,events,_⟩ := (analysisRequest_cases ok).notes
  rw [← input,← events]
  rfl

end Changed

theorem analysisStage_framed {env : Env} {c c' : Connection} {finish : Bool}
    (leaves : analysisStage env c = .ok (.leave finish c')) (inputBuffer : Bytes)
    (events : EventMask) : analysisStage env (c.framed inputBuffer events) =
      .ok (.leave finish (c'.framed inputBuffer events)) := by
  by_cases state : c.state = .analysis
  · have same : (c.framed inputBuffer events).state = .analysis := state
    rw [analysisStage,if_pos state] at leaves
    rw [analysisStage,if_pos same,analysisRequest_framed]
    obtain ⟨⟨rc,after⟩,called,next⟩ := bind_success leaves
    rw [called]
    simp only [Except.map,bind,Except.bind]
    dsimp only at next
    split at next
    · rename_i zero
      rw [if_pos zero]
      obtain ⟨rfl,rfl⟩ := Stage.leave.inj (Except.ok.inj next)
      rfl
    · rename_i nonzero
      rw [if_neg nonzero]
      obtain ⟨rfl,rfl⟩ := Stage.leave.inj (Except.ok.inj next)
      rfl
  · rw [analysisStage,if_neg state] at leaves
    cases leaves

theorem analysisStage_keeps {env : Env} {c c' : Connection} {finish : Bool}
    (leaves : analysisStage env c = .ok (.leave finish c')) :
    c'.inputBuffer = c.inputBuffer ∧ c'.events = c.events ∧
      c'.analysed = c.analysed ++ [c.request] := by
  rcases analysisStage_cases leaves with ⟨same,_⟩ | ⟨rc,after,analysed,⟨_,same⟩ | ⟨_,same⟩⟩
  · cases same
  · obtain ⟨_,rfl⟩ := Stage.leave.inj same
    obtain ⟨noted,input,events,_⟩ := analysed.notes
    exact ⟨input,events,noted⟩
  · obtain ⟨_,rfl⟩ := Stage.leave.inj same
    obtain ⟨noted,input,events,_⟩ := analysed.notes
    exact ⟨input,events,noted⟩

theorem analysisStage_more {env : Env} {c c' : Connection} {finish : Bool}
    (leaves : analysisStage env c = .ok (.leave finish c')) (rest : Bytes) :
    analysisStage env (c.more rest) = .ok (.leave finish (c'.more rest)) := by
  obtain ⟨input,events,_⟩ := analysisStage_keeps leaves
  have longer : c'.more rest = c'.framed (c.inputBuffer ++ rest) c.events := by
    rw [← input,← events]
    rfl
  rw [longer]
  exact analysisStage_framed leaves (c.inputBuffer ++ rest) c.events

theorem badRequest_err {env : Env} {shortMsg : Bytes} {c c' : Connection} {finish : Bool}
    (same : Stage.leave finish c' = badRequest env shortMsg c) : c'.err = true := by
  obtain ⟨_,rfl⟩ := Stage.leave.inj same
  rfl

/-- In front of the analysis the loop is left without `finish` only after an error. -/
theorem lineStage_err {env : Env} {c c' : Connection}
    (left : lineStage env c = .ok (.leave false c')) : c'.err = true := by
  rcases lineStage_cases left with ⟨_,_,_,same⟩ | ⟨_,_,same⟩ | ⟨_,_,same⟩
  · cases same
  · cases same
  · exact badRequest_err same

theorem headerStage_err {env : Env} {c c' : Connection}
    (left : headerStage env c = .ok (.leave false c')) : c'.err = true := by
  rcases headerStage_cases left with ⟨_,_,_,_,same⟩ | ⟨_,_,_,same⟩ | ⟨_,_,_,same⟩
  · cases same
  · cases same
  · exact badRequest_err same

theorem lengthStage_err {env : Env} {c c' : Connection}
    (left : lengthStage env c = .ok (.leave false c')) : c'.err = true := by
  rcases lengthStage_cases left with ⟨_,same⟩ | same | same
  · cases same
  · cases same
  · exact badRequest_err same

theorem stages_answer {env : Env} {c c' : Connection} (fine : c'.err = false) :
    stages env c = .ok (.leave false c') ↔ ∃ lined headed measured,
      lineStage env c = .ok (.go lined) ∧ headerStage env lined = .ok (.go headed) ∧
        lengthStage env headed = .ok (.go measured) ∧
        analysisStage env measured = .ok (.leave false c') := by
  constructor
  · intro answers
    obtain ⟨line,lined,next⟩ := bind_success answers
    obtain ⟨header,headed,next⟩ := bind_success next
    obtain ⟨length,measured,last⟩ := bind_success next
    have never : ∀ finish (b : Connection), Except.ok (.leave finish b) =
        (.ok (.leave false c') : Except Fault Stage) → finish = false ∧ b.err = false := by
      intro finish b same
      obtain ⟨rfl,rfl⟩ := Stage.leave.inj (Except.ok.inj same)
      exact ⟨rfl,fine⟩
    cases line with
    | leave finish b =>
      obtain rfl := Except.ok.inj headed
      obtain rfl := Except.ok.inj measured
      obtain ⟨rfl,noError⟩ := never finish b last
      exact absurd (lineStage_err lined) (by simp [noError])
    | go b =>
      cases header with
      | leave finish b =>
        obtain rfl := Except.ok.inj measured
        obtain ⟨rfl,noError⟩ := never finish b last
        exact absurd (headerStage_err headed) (by simp [noError])
      | go d =>
        cases length with
        | leave finish b =>
          obtain ⟨rfl,noError⟩ := never finish b last
          exact absurd (lengthStage_err measured) (by simp [noError])
        | go e => exact ⟨b,d,e,lined,headed,measured,last⟩
  · rintro ⟨b,d,e,lined,headed,measured,last⟩
    simp only [stages,lined,headed,measured,last,Stage.andThen,bind,Except.bind]

/-- A request that is answered is answered in the same way with more bytes behind it. -/
theorem stages_more {env : Env} {c c' : Connection} (answers : stages env c = .ok (.leave false c'))
    (fine : c'.err = false) (rest : Bytes) :
    stages env (c.more rest) = .ok (.leave false (c'.more rest)) := by
  obtain ⟨b,d,e,lined,headed,measured,last⟩ := (stages_answer fine).mp answers
  exact (@stages_answer _ _ (c'.more rest) fine).mpr
    ⟨b.more rest,d.more rest,e.more rest,lineStage_more lined rest,headerStage_more headed rest,
      lengthStage_more measured rest,analysisStage_more last rest⟩

/-- What the turn that reads a complete request does. -/
structure Answer (env : Env) (c : Connection) (text : Bytes) (request : HttpRequest)
    (response : Bytes) (d : Connection) : Prop where
  arrived : text ≠ []
  leaves : stages env (c.more text) = .ok (.leave false d)
  fine : d.err = false
  connected : d.isConnecting = c.isConnecting
  state : d.state = .finish
  consumed : d.inputBuffer = []
  analysed : d.analysed = c.analysed ++ [request]
  responses : d.responses = c.responses ++ [response]
  output : d.outputBuffer = response ∨ d.outputBuffer = c.outputBuffer ++ response
  sent : d.sent = c.sent
  writes : d.writes = c.writes

theorem pass_stages {env : Env} {results : List ReadResult} {text : Bytes}
    (arrives : Drains results text .again) (some : text ≠ []) (c : Connection) :
    pass env results c = stages env (c.more text) := by
  have positive : 0 < text.length := List.length_pos_iff.mpr some
  unfold pass
  rw [readn_drains arrives]
  simp [some,Connection.more]

theorem pass_nothing {env : Env} {results : List ReadResult} (arrives : Drains results [] .again)
    (c : Connection) : pass env results c = .ok (.leave true c) := by
  unfold pass
  rw [readn_drains arrives]
  simp

/-- What one call returns after its turn: it calls itself at most once more, and then there is
nothing to read. -/
def Stage.settled : Stage → Connection
  | .go d => (afterLoop true d).2
  | .leave finish d => if (afterLoop finish d).1 then (afterLoop true (afterLoop finish d).2).2
      else (afterLoop finish d).2

theorem settled_leave (finish : Bool) (d : Connection) : (Stage.leave finish d).settled =
    if (afterLoop finish d).1 then (afterLoop true (afterLoop finish d).2).2
    else (afterLoop finish d).2 := rfl

theorem handleRead_settled (env : Env) (results : List ReadResult) (c : Connection) :
    handleRead env [results] c = (pass env results c).map Stage.settled := by
  rw [handleRead]
  cases pass env results c with
  | error fault => rfl
  | ok stage =>
    cases stage with
    | go d => rfl
    | leave finish d =>
      simp only [bind,Except.bind,Except.map,settled_leave]
      generalize afterLoop finish d = left
      obtain ⟨recurse,next⟩ := left
      cases recurse <;> rfl

theorem settled_parsed (finish : Bool) (d : Connection) :
    (Stage.leave finish d).settled.responses = d.responses ∧
      (Stage.leave finish d).settled.analysed = d.analysed ∧
      (Stage.leave finish d).settled.inputBuffer = d.inputBuffer ∧
      ((Stage.leave finish d).settled.err = false → d.err = false) := by
  obtain ⟨responses,analysed,input⟩ := afterLoop_parsed finish d
  rw [settled_leave]
  split
  · obtain ⟨responses',analysed',input'⟩ := afterLoop_parsed true (afterLoop finish d).2
    exact ⟨responses'.trans responses,analysed'.trans analysed,input'.trans input,
      fun fine => afterLoop_err (afterLoop_err fine)⟩
  · exact ⟨responses,analysed,input,afterLoop_err⟩

theorem handleRead_single {env : Env} {results : List ReadResult} {c d c' : Connection}
    {finish : Bool} (passed : pass env results c = .ok (.leave finish d))
    (handled : handleRead env [results] c = .ok c') :
    c'.responses = d.responses ∧ c'.analysed = d.analysed ∧ c'.inputBuffer = d.inputBuffer ∧
      (c'.err = false → d.err = false) := by
  rw [handleRead_settled,passed] at handled
  obtain rfl := Except.ok.inj handled
  exact settled_parsed finish d

theorem Complete.answer {env : Env} {c : Connection} {text : Bytes} {request : HttpRequest}
    {response : Bytes} (complete : Complete env c text request response) :
    ∃ d, Answer env c text request response d := by
  obtain ⟨results,c',arrives,handled,fine,analysed,responses,consumed,state⟩ := complete
  have grown : c'.responses ≠ c.responses := by simp [responses]
  by_cases none : text = []
  · subst none
    exact absurd (handleRead_single (pass_nothing arrives c) handled).1 grown
  · obtain ⟨stage,passed,next⟩ := bind_success handled
    have staged : stages env (c.more text) = .ok stage := (pass_stages arrives none c).symm.trans passed
    have parses : Parses env c stage := stages_parses staged
    cases parses with
    | waits => exact absurd (handleRead_single passed handled).1 grown
    | loops => exact absurd (by rw [← Except.ok.inj next]; exact (afterLoop_parsed true _).1) grown
    | refuses =>
      have error := (handleRead_single passed handled).2.2.2 fine
      exact absurd error (by simp [handleError,sendRaw,decideApart])
    | fails => exact absurd ((handleRead_single passed handled).2.2.2 fine) (by simp)
    | answers buffer _ _ _ d rc zero answered =>
      obtain ⟨history,requests,input,error⟩ := handleRead_single passed handled
      subst zero
      have only : ∀ other, c.responses ++ [other] = c'.responses → other = response := by
        intro other same
        have last := List.append_cancel_left (same.trans responses)
        exact List.singleton_inj.mp last
      refine ⟨_,⟨none,staged,error fine,?_,rfl,input.symm.trans consumed,requests.symm.trans analysed,
        history.symm.trans responses,?_,?_,?_⟩⟩
      · cases answered <;> rfl
      · cases answered with
        | answers keepAlive mime written some =>
          obtain rfl := only written history.symm
          exact .inr rfl
        | hello =>
          obtain rfl := only helloResponse history.symm
          exact .inl rfl
      · cases answered <;> rfl
      · cases answered <;> rfl

def sampleParsed : HttpRequest :=
  ⟨.get,.http11,bytes "a",(∅ : Headers).insert (bytes "Host") (bytes "d")⟩

def sampleResponse : Bytes :=
  statusLine false ++ entityHeader (bytes "text/html") 3 ++ bytes "xxx"

theorem sample_complete :
    Complete sampleEnv sampleStart sampleRequest sampleParsed sampleResponse := by
  have handled : ((handleRead sampleEnv [[.received sampleRequest]] sampleStart).toOption.map
      fun c => (c.err,c.analysed,c.responses,c.inputBuffer,c.state)) =
      some (false,sampleStart.analysed ++ [sampleParsed],
        sampleStart.responses ++ [sampleResponse],[],.parseRequestLine) := by decide
  obtain ⟨c,handled,same⟩ := Option.map_eq_some_iff.mp handled
  simp only [Prod.mk.injEq] at same
  exact ⟨[.received sampleRequest],c,.chunk 71 _ .exhausted,toOption_success.mp handled,same⟩

end Deon.Http
