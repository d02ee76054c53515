import Deon.Http.Calls
import Deon.Http.CutsExact
import Deon.Http.FirstLine

/-! One request in one read, and the same request in several. The request line may be
cut anywhere. Behind it a cut does no harm only where the grammar of cuts allows it,
and there only if the header map comes out the same. -/
namespace Deon.Http
open Library

/-- Behind the request line stands a block of the grammar with these headers. -/
def Carries (marked : Marked) (headers : Headers) : Prop :=
  ∃ block fields, afterLine false marked = some block ∧ Block block fields ∧
    enter ∅ fields = headers

/-- What the request in one read goes through. -/
structure Parsed (env : Env) (c : Connection) (text : Bytes) (request : HttpRequest)
    (pos : Nat) (headers : Headers) (d : Connection) : Prop where
  found : find crlf text = some pos
  line : parseLine (text.take pos) requestInit = .ok (.success,request)
  method : request.method ≠ .post
  block : (Reading.fresh .start ∅).run (text.drop (pos + 2)) = .done headers []
  analysis : analysisStage env
    (c.parsed [] .analysis .endCr {request with headers := headers}) = .ok (.leave false d)

theorem parseLine_headers {line : Bytes} {request : HttpRequest}
    (parsed : parseLine line requestInit = .ok (.success,request)) : request.headers = ∅ :=
  (parseLine_result parsed).2

theorem analysisStage_post {env : Env} {c d : Connection} {finish : Bool}
    (posted : c.request.method = .post)
    (left : analysisStage env c = .ok (.leave finish d)) : d.err = true := by
  by_cases state : c.state = .analysis
  · rw [analysisStage,if_pos state,analysisRequest_post posted] at left
    obtain ⟨_,rfl⟩ := Stage.leave.inj (Except.ok.inj left)
    rfl
  · rw [analysisStage,if_neg state] at left
    cases left

theorem Answer.parsed {env : Env} {c d : Connection} {text response : Bytes}
    {request : HttpRequest} (idle : Idle c) (answer : Answer env c text request response d) :
    ∃ pos lined, request = {lined with headers := request.headers} ∧
      Parsed env c text lined pos request.headers d := by
  obtain ⟨b,h,m,lined,headed,measured,last⟩ := (stages_answer answer.fine).mp answer.leaves
  have state : (c.more text).state = .parseRequestLine := idle.state
  have input : (c.more text).inputBuffer = text := by
    show c.inputBuffer ++ text = text
    rw [idle.empty]
    rfl
  have begun : (c.more text).request = requestInit := idle.request
  cases found : find crlf text with
  | none =>
    rw [lineStage_waits state (by rw [input]; exact found)] at lined
    cases lined
  | some pos =>
    obtain ⟨rc,request',parsed⟩ := parseLine_ok (text.take pos) requestInit
    rw [@lineStage_line _ _ _ rc request' state (by rw [input]; exact found)
      (by rw [input,begun]; exact parsed),input] at lined
    cases rc with
    | again => exact absurd rfl (parseLine_result parsed).1
    | error => cases lined
    | success =>
      obtain rfl := Stage.go.inj (Except.ok.inj lined)
      have start : (Reading.fresh (c.more text).hState request'.headers) =
          Reading.fresh .start ∅ := by
        rw [parseLine_headers parsed]
        exact congrArg (Reading.fresh · ∅) idle.hState
      rw [headerStage_reads rfl] at headed
      dsimp only at headed
      rw [start] at headed
      cases ended : (Reading.fresh .start ∅).run (text.drop (pos + 2)) with
      | again => simp [ended] at headed
      | failed => simp [ended,badRequest] at headed
      | done headers rest =>
        simp only [ended,Except.ok.injEq,Stage.go.injEq] at headed
        subst headed
        by_cases posted : request'.method = .post
        · rcases lengthStage_cases measured with ⟨s,same⟩ | same | same
          · obtain rfl := Stage.go.inj same
            exact absurd (analysisStage_post posted last) (by simp [answer.fine])
          · cases same
          · cases same
        · rw [lengthStage] at measured
          simp only [posted,if_false] at measured
          obtain rfl := Stage.go.inj (Except.ok.inj measured)
          obtain ⟨consumed,_,noted⟩ := analysisStage_keeps last
          have all : rest = [] := consumed.symm.trans answer.consumed
          subst all
          have whole := List.append_cancel_left (noted.symm.trans answer.analysed)
          obtain rfl := List.singleton_inj.mp whole
          exact ⟨pos,request',rfl,found,parsed,posted,ended,last⟩

section Delivery

/-- The blocks behind the request line. -/
def blockStages (env : Env) (c : Connection) : Except Fault Stage := do
  let stage ← headerStage env c
  let stage ← stage.andThen (lengthStage env)
  stage.andThen (analysisStage env)

theorem stages_block {env : Env} {c d : Connection} (lined : lineStage env c = .ok (.go d)) :
    stages env c = blockStages env d := by
  rw [stages,lined]
  rfl

/-- The connection `base` in the middle of a header block. -/
def reading (base : Connection) (request : HttpRequest) (buffer : Bytes) (hState : HeaderParseState)
    (headers : Headers) (events : EventMask) : Connection :=
  {base.parsed buffer .parseHeaders hState {request with headers := headers} with events := events}

variable {env : Env} {base : Connection} {request : HttpRequest}

theorem blockStages_again {buffer : Bytes} {hState : HeaderParseState} {headers : Headers}
    {events : EventMask} {r : Reading}
    (stopped : (Reading.fresh hState headers).run buffer = .again r) :
    blockStages env (reading base request buffer hState headers events) =
      .ok (.leave true (reading base request r.line r.hState r.headers events)) := by
  rw [blockStages,headerStage_reads rfl]
  have same : (Reading.fresh (reading base request buffer hState headers events).hState
      (reading base request buffer hState headers events).request.headers).run
      (reading base request buffer hState headers events).inputBuffer = .again r := stopped
  rw [same]
  rfl

theorem blockStages_failed {buffer : Bytes} {hState hState' : HeaderParseState}
    {headers headers' : Headers} {events : EventMask}
    (failed : (Reading.fresh hState headers).run buffer = .failed hState' headers') :
    ∃ d, blockStages env (reading base request buffer hState headers events) =
      .ok (.leave false d) ∧ d.err = true ∧ d.state = .parseHeaders := by
  rw [blockStages,headerStage_reads rfl]
  have same : (Reading.fresh (reading base request buffer hState headers events).hState
      (reading base request buffer hState headers events).request.headers).run
      (reading base request buffer hState headers events).inputBuffer =
      .failed hState' headers' := failed
  rw [same]
  exact ⟨_,rfl,rfl,rfl⟩

theorem blockStages_done {buffer rest : Bytes} {hState : HeaderParseState}
    {headers headers' : Headers} {events : EventMask} (method : request.method ≠ .post)
    (done : (Reading.fresh hState headers).run buffer = .done headers' rest) :
    blockStages env (reading base request buffer hState headers events) =
      analysisStage env ((base.parsed rest .analysis .endCr
        {request with headers := headers'}).framed rest events) := by
  rw [blockStages,headerStage_reads rfl]
  have same : (Reading.fresh (reading base request buffer hState headers events).hState
      (reading base request buffer hState headers events).request.headers).run
      (reading base request buffer hState headers events).inputBuffer =
      .done headers' rest := done
  rw [same]
  have answered : (reading base request buffer hState headers events).request.method ≠ .post :=
    method
  simp only [answered,if_false]
  rfl

/-- The calls end with the connection as the single call leaves it. -/
def Settles (env : Env) (drains : List (List ReadResult)) (c d : Connection) : Prop :=
  ∃ c', deliver env drains c = .ok c' ∧ settled c' = settled d

/-- At the end one request has been answered and the parser is at rest. -/
def AtRest (base : Connection) (request : HttpRequest) (c : Connection) : Prop :=
  ∃ response hState last, settled c = (base.analysed ++ [request],base.responses ++ [response],[],
    .parseRequestLine,hState,last)

theorem settles_cons {results : List ReadResult} {drains : List (List ReadResult)} {c d : Connection} :
    Settles env (results :: drains) c d ↔
      ∃ next, handleRead env [results] c = .ok next ∧ Settles env drains next d := by
  constructor
  · rintro ⟨c',delivered,same⟩
    obtain ⟨next,handled,later⟩ := bind_success delivered
    exact ⟨next,handled,c',later,same⟩
  · rintro ⟨next,handled,c',later,same⟩
    refine ⟨c',?_,same⟩
    rw [deliver,List.foldlM_cons,handled]
    exact later

abbrev Arrive (drains : List (List ReadResult)) (pieces : List Bytes) : Prop :=
  List.Forall₂ (fun results piece => Drains results piece .again ∧ piece ≠ []) drains pieces

theorem Spoiled.never {drains : List (List ReadResult)} {pieces : List Bytes} {c d : Connection}
    (arrive : Arrive drains pieces) (rest : AtRest base request d) (spoiled : Spoiled base c) :
    ¬ Settles env drains c d := by
  rintro ⟨c',delivered,same⟩
  obtain ⟨response,hState,last,shape⟩ := rest
  exact (spoiled.deliver arrive delivered).unsettled (same.trans shape)

theorem called_waits {c : Connection} (fine : c.err = false) (silent : c.outputBuffer = []) :
    called (.leave true c) = {c with events := c.events ||| epollIn} := by
  have after : afterLoop true c = (false,{c with events := c.events ||| epollIn}) := by
    simp [afterLoop,fine,silent]
  simp [called,after]

/-- The analysis of a block that did not come out as it should, or came too early. -/
theorem analysed_settles {headers found : Headers} {rest : Bytes} {drains : List (List ReadResult)}
    {pieces : List Bytes} {events : EventMask} {single : Connection}
    (arrive : Arrive drains pieces)
    (atRest : AtRest base {request with headers := headers} (called (.leave false single)))
    (analysis : analysisStage env (base.parsed [] .analysis .endCr
      {request with headers := headers}) = .ok (.leave false single)) :
    (∃ stage, analysisStage env ((base.parsed rest .analysis .endCr
        {request with headers := found}).framed rest events) = .ok stage ∧
      Settles env drains (called stage) (called (.leave false single))) ↔
    found = headers ∧ rest = [] ∧ drains = [] := by
  constructor
  · rintro ⟨stage,analysed,settles⟩
    rcases analysisStage_cases analysed with ⟨_,state⟩ | ⟨rc,c',answered,⟨rfl,rfl⟩ | ⟨_,rfl⟩⟩
    · exact absurd rfl state
    · have one := answered.responds
      obtain ⟨noted,input,_⟩ := answered.notes
      obtain ⟨sameResponses,sameAnalysed,sameInput⟩ :=
        called_parsed (.leave false {c' with state := .finish})
      cases arrive with
      | nil =>
        obtain ⟨end',delivered,same⟩ := settles
        obtain rfl := Except.ok.inj delivered
        obtain ⟨response,hState,last,shape⟩ := atRest
        have both := same.trans shape
        simp only [settled,Prod.mk.injEq] at both
        obtain ⟨requests,_,empty,_⟩ := both
        have all := (sameAnalysed.trans noted).symm.trans requests
        have only := List.singleton_inj.mp (List.append_cancel_left all)
        exact ⟨congrArg HttpRequest.headers only,(sameInput.trans input).symm.trans empty,rfl⟩
      | cons first later =>
        obtain ⟨next,handled,settles⟩ := settles_cons.mp settles
        have answers : Answered base (called (.leave false {c' with state := .finish})) := by
          rw [Answered,sameAnalysed,sameResponses]
          refine ⟨?_,one⟩
          have longer := congrArg List.length noted
          simp only [List.length_append,List.length_singleton] at longer
          exact (Nat.lt_succ_self _).trans_eq longer.symm
        exact absurd settles
          ((Spoiled.call first.1 first.2 (.inr answers) handled).never later atRest)
    · obtain ⟨_,_,_,state,_⟩ := answered.notes
      have spoiled : Spoiled base (called (.leave false {c' with err := true})) := by
        have analysing : c'.state = .analysis := state
        rw [called_failed rfl]
        exact .inr (.inr (.inl ⟨analysing.trans_ne (by decide),rfl⟩))
      exact absurd settles (spoiled.never arrive atRest)
  · rintro ⟨rfl,rfl,rfl⟩
    refine ⟨_,analysisStage_framed analysis [] events,_,rfl,?_⟩
    obtain ⟨input,_⟩ := analysisStage_keeps analysis
    have same : single.framed [] events = {single with events := events} := by
      have empty : single.inputBuffer = [] := input
      rw [Connection.framed,← empty]
    rw [same]
    exact called_events false single events

/-- The one call behind the request line: the next piece, then the others. -/
theorem block_settles {headers : Headers} {single : Connection} (idle : Idle base)
    (method : request.method ≠ .post)
    (atRest : AtRest base {request with headers := headers} (called (.leave false single)))
    (analysis : analysisStage env (base.parsed [] .analysis .endCr
      {request with headers := headers}) = .ok (.leave false single))
    {results : List ReadResult} {drains : List (List ReadResult)} {piece buffer : Bytes}
    {pieces : List Bytes} {hState : HeaderParseState} {before : Headers} {events : EventMask}
    {c : Connection} (first : Drains results piece .again ∧ piece ≠ []) (later : Arrive drains pieces)
    (staged : stages env (c.more piece) =
      blockStages env (reading base request buffer hState before events))
    (next : ∀ (r : Reading) events, Settles env drains
      (reading base request r.line r.hState r.headers events) (called (.leave false single)) ↔
        Finishes r (marks pieces) headers) :
    Settles env (results :: drains) c (called (.leave false single)) ↔
      Finishes (Reading.fresh hState before) (plain buffer ++ marks pieces) headers := by
  rw [settles_cons,handleRead_call first.1 first.2,staged,finishes_run]
  cases ended : (Reading.fresh hState before).run buffer with
  | again r =>
    dsimp only
    rw [blockStages_again ended,← next r (events ||| epollIn)]
    simp only [Except.map,Except.ok.injEq,exists_eq_left']
    rw [called_waits (c := reading base request r.line r.hState r.headers events) idle.fine
      idle.silent]
    rfl
  | failed hState' headers' =>
    obtain ⟨d,failed,error,state⟩ := blockStages_failed ended
    rw [failed]
    simp only [Except.map,Except.ok.injEq,exists_eq_left',iff_false]
    have spoiled : Spoiled base (called (.leave false d)) := by
      rw [@called_failed (.leave false d) error]
      exact .inr (.inr (.inl ⟨state.trans_ne (by decide),error⟩))
    exact spoiled.never later atRest
  | done found rest =>
    have none : drains = [] ↔ marks pieces = [] := by
      cases later with
      | nil => simp [marks]
      | cons => simp [marks]
    dsimp only
    rw [blockStages_done method ended,← none,← analysed_settles later atRest analysis]
    generalize analysisStage env _ = analysed
    cases analysed with
    | error fault => simp [Except.map]
    | ok stage => simp [Except.map]

theorem headers_settle {headers : Headers} {single : Connection} (idle : Idle base)
    (method : request.method ≠ .post)
    (atRest : AtRest base {request with headers := headers} (called (.leave false single)))
    (analysis : analysisStage env (base.parsed [] .analysis .endCr
      {request with headers := headers}) = .ok (.leave false single))
    {drains : List (List ReadResult)} {pieces : List Bytes} (arrive : Arrive drains pieces) :
    ∀ (r : Reading) events, Settles env drains
      (reading base request r.line r.hState r.headers events) (called (.leave false single)) ↔
        Finishes r (marks pieces) headers := by
  induction arrive with
  | nil =>
    intro r events
    constructor
    · rintro ⟨c',delivered,same⟩
      obtain rfl := Except.ok.inj delivered
      obtain ⟨response,hState,last,shape⟩ := atRest
      have both := same.trans shape
      simp only [settled,Prod.mk.injEq] at both
      obtain ⟨_,_,_,state,_⟩ := both
      cases state
    · intro finishes
      cases finishes
  | @cons results piece drains pieces first later ih =>
    intro r events
    have lined : lineStage env ((reading base request r.line r.hState r.headers events).more piece) =
        .ok (.go (reading base request (r.line ++ piece) r.hState r.headers events)) := rfl
    rw [block_settles idle method atRest analysis first later (stages_block lined) ih]
    have split : plain (r.line ++ piece) ++ marks pieces =
        plain r.line ++ (plain piece ++ marks pieces) := by
      simp [plain]
    have whole : marks (piece :: pieces) = none :: (plain piece ++ marks pieces) := rfl
    rw [split,whole,finishes_run,finishes_mark,Reading.resume]
    cases (Reading.fresh r.hState r.headers).run r.line with
    | again r' => simp
    | failed => simp
    | done => simp [first.2]

theorem line_settles {headers : Headers} {single : Connection} {text : Bytes} {pos : Nat}
    (idle : Idle base) (parsed : Parsed env base text request pos headers single)
    (atRest : AtRest base {request with headers := headers} (called (.leave false single)))
    {drains : List (List ReadResult)} {pieces : List Bytes} (arrive : Arrive drains pieces) :
    ∀ (read : Bytes) events, find crlf read = none → read ++ pieces.flatten = text →
      (Settles env drains {base with inputBuffer := read,events := events}
          (called (.leave false single)) ↔
        ∃ block, afterLine false (plain read ++ marks pieces) = some block ∧
          Finishes (Reading.fresh .start ∅) block headers) := by
  induction arrive with
  | nil =>
    intro read events absent whole
    rw [List.flatten_nil,List.append_nil] at whole
    subst whole
    exact absurd (absent.symm.trans parsed.found) (by simp)
  | @cons results piece drains pieces first later ih =>
    intro read events absent whole
    rw [List.flatten_cons,← List.append_assoc] at whole
    have marked : marks (piece :: pieces) = none :: (plain piece ++ marks pieces) := rfl
    rw [marked,afterLine_piece absent]
    cases found : find crlf (read ++ piece) with
    | none =>
      rw [← ih (read ++ piece) (events ||| epollIn) found whole,settles_cons,
        handleRead_call first.1 first.2]
      have waits : stages env
          (({base with inputBuffer := read,events := events} : Connection).more piece) =
          .ok (.leave true {base with inputBuffer := read ++ piece,events := events}) := by
        rw [stages,lineStage_waits
          (c := ({base with inputBuffer := read,events := events} : Connection).more piece)
          idle.state found]
        rfl
      rw [waits]
      simp only [Except.map,Except.ok.injEq,exists_eq_left']
      rw [called_waits
        (c := {base with inputBuffer := read ++ piece,events := events}) idle.fine idle.silent]
    | some at' =>
      have same : at' = pos := by
        have more := find_append pieces.flatten found
        rw [whole,parsed.found] at more
        exact (Option.some.inj more).symm
      subst same
      have bound : at' ≤ (read ++ piece).length := by
        have inside := find_bound found
        omega
      have line : parseLine ((read ++ piece).take at') base.request = .ok (.success,request) := by
        rw [← @List.take_append_of_le_length _ _ pieces.flatten _ bound,whole,idle.request]
        exact parsed.line
      have lined : lineStage env
          (({base with inputBuffer := read,events := events} : Connection).more piece) =
          .ok (.go (reading base request ((read ++ piece).drop (at' + 2)) base.hState
            request.headers events)) :=
        lineStage_line (c := ({base with inputBuffer := read,events := events} : Connection).more piece)
          idle.state found line
      rw [block_settles idle parsed.method atRest parsed.analysis first later (stages_block lined)
        (headers_settle idle parsed.method atRest parsed.analysis later),afterLine_found found,
        idle.hState,parseLine_headers parsed.line]
      simp

end Delivery

theorem carries_iff {marked : Marked} {headers : Headers} : Carries marked headers ↔
    (∃ block, afterLine false marked = some block ∧
      Finishes (Reading.fresh .start ∅) block headers) ∧ [] ∉ headers := by
  constructor
  · rintro ⟨block,fields,behind,fits,same⟩
    obtain ⟨finishes,named⟩ := finishes_iff.mpr ⟨fields,fits,same⟩
    exact ⟨⟨block,behind,finishes⟩,named⟩
  · rintro ⟨⟨block,behind,finishes⟩,named⟩
    obtain ⟨fields,fits,same⟩ := finishes_iff.mp ⟨finishes,named⟩
    exact ⟨block,fields,behind,fits,same⟩

theorem Parsed.carries {env : Env} {c d : Connection} {text : Bytes} {request : HttpRequest}
    {pos : Nat} {headers : Headers} (parsed : Parsed env c text request pos headers d)
    (found : Headers) : Carries (plain text) found ↔ found = headers := by
  have behind : afterLine false (plain text) = some (plain (text.drop (pos + 2))) := by
    simpa using afterLine_found parsed.found []
  have finishes : Finishes (Reading.fresh .start ∅) (plain (text.drop (pos + 2))) found ↔
      headers = found := by
    have read := @finishes_run (Reading.fresh .start ∅) (text.drop (pos + 2)) [] found
    rw [parsed.block] at read
    simpa using read
  have fresh : (Reading.fresh .start ∅).Named := ⟨Finmap.notMem_empty,by simp [Reading.fresh]⟩
  have named := fresh.run_done parsed.block
  rw [carries_iff,behind]
  simp only [Option.some.injEq,exists_eq_left',finishes]
  constructor
  · rintro ⟨same,_⟩
    exact same.symm
  · rintro rfl
    exact ⟨rfl,named⟩

/-- A request that is answered when it arrives in one read is answered in the same way
in pieces exactly when the grammar reads the same headers with the cuts as without. -/
theorem pieces_settle_iff {env : Env} {c c' : Connection} {text response : Bytes}
    {request : HttpRequest} {single : List ReadResult} {drains : List (List ReadResult)}
    {pieces : List Bytes} (idle : Idle c) (complete : Complete env c text request response)
    (alone : Drains single text .again) (handled : handleRead env [single] c = .ok c')
    (arrive : Arrive drains pieces) (whole : pieces.flatten = text) :
    Settles env drains c c' ↔
      ∃ headers, Carries (plain text) headers ∧ Carries (marks pieces) headers := by
  obtain ⟨d,answer⟩ := complete.answer
  obtain ⟨pos,lined,shape,parsed⟩ := answer.parsed idle
  have result : ∀ {results}, Drains results text .again →
      handleRead env [results] c = .ok (called (.leave false d)) := by
    intro results arrives
    rw [handleRead_call arrives answer.arrived,answer.leaves]
    rfl
  obtain rfl := Except.ok.inj (handled.symm.trans (result alone))
  have atRest : AtRest c {lined with headers := request.headers} (called (.leave false d)) := by
    obtain ⟨results,after,arrives,again,_,analysed,responses,consumed,state⟩ := complete
    obtain rfl := Except.ok.inj (again.symm.trans (result arrives))
    rw [← shape]
    exact ⟨response,(called (.leave false d)).hState,(called (.leave false d)).request,
      by rw [settled,analysed,responses,consumed,state]⟩
  have begun : ({c with inputBuffer := [],events := c.events} : Connection) = c := by
    rw [← idle.empty]
  have settles := line_settles idle parsed atRest arrive [] c.events rfl (by simpa using whole)
  rw [begun] at settles
  have fresh : (Reading.fresh .start ∅).Named := ⟨Finmap.notMem_empty,by simp [Reading.fresh]⟩
  have named := fresh.run_done parsed.block
  rw [settles]
  simp only [parsed.carries,exists_eq_left,carries_iff,named,not_false_eq_true,and_true]
  rfl

theorem sampleStart_idle : Idle sampleStart := ⟨rfl,rfl,rfl,rfl,rfl,rfl⟩

theorem sample_alone : ∃ c', handleRead sampleEnv [[.received sampleRequest]] sampleStart = .ok c' := by
  obtain ⟨d,answer⟩ := sample_complete.answer
  have arrives : Drains [.received sampleRequest] sampleRequest .again := .chunk 71 _ .exhausted
  rw [handleRead_call arrives answer.arrived,answer.leaves]
  exact ⟨_,rfl⟩

/-- Cuts in the request line and in the name of the first header. -/
theorem pieces_settle_sample : ∃ c', handleRead sampleEnv [[.received sampleRequest]] sampleStart =
    .ok c' ∧ Settles sampleEnv [[.received (bytes "GET /a HT")],
      [.received (bytes "TP/1.1\r\nHo")],[.received (bytes "st: d\r\n\r\n")]] sampleStart c' := by
  obtain ⟨c',handled⟩ := sample_alone
  have arrive : Arrive [[.received (bytes "GET /a HT")],[.received (bytes "TP/1.1\r\nHo")],
      [.received (bytes "st: d\r\n\r\n")]]
      [bytes "GET /a HT",bytes "TP/1.1\r\nHo",bytes "st: d\r\n\r\n"] :=
    .cons ⟨.chunk 71 _ .exhausted,by decide⟩ (.cons ⟨.chunk 84 _ .exhausted,by decide⟩
      (.cons ⟨.chunk 115 _ .exhausted,by decide⟩ .nil))
  have last : Lines (plain crlf) [] := @Lines.ends [] (by simp)
  have value : FieldValue (bytes "d") := ⟨by decide,by decide⟩
  have straight : Block (plain (bytes "Host: d\r\n\r\n")) [(bytes "Host",bytes "d")] :=
    @Block.intro [] (plain (bytes "ost")) 72 _ _ _ (by simp) (by decide) (by decide) (by decide) value
      last
  have cut : Block (plain (bytes "Ho") ++ none :: plain (bytes "st: d\r\n\r\n"))
      [(bytes "Host",bytes "d")] :=
    @Block.intro [] (plain (bytes "o") ++ none :: plain (bytes "st")) 72 _ _ _ (by simp) (by decide)
      (by decide) (by decide) value last
  refine ⟨c',handled,(pieces_settle_iff sampleStart_idle sample_complete
    (.chunk 71 _ .exhausted) handled arrive (by decide)).mpr ?_⟩
  exact ⟨_,⟨_,_,rfl,straight,rfl⟩,⟨_,_,rfl,cut,rfl⟩⟩

/-- With a cut behind the colon of a header the request is refused. -/
theorem cut_behind_colon : ¬ ∀ (env : Env) (c c' : Connection) (text response : Bytes)
    (request : HttpRequest) (single : List ReadResult) (drains : List (List ReadResult))
    (pieces : List Bytes), Idle c → Complete env c text request response →
    Drains single text .again → handleRead env [single] c = .ok c' → Arrive drains pieces →
    pieces.flatten = text → Settles env drains c c' := by
  intro always
  obtain ⟨c',handled⟩ := sample_alone
  have arrive : Arrive [[.received (bytes "GET /a HTTP/1.1\r\nHost:")],
      [.received (bytes " d\r\n\r\n")]]
      [bytes "GET /a HTTP/1.1\r\nHost:",bytes " d\r\n\r\n"] :=
    .cons ⟨.chunk 71 _ .exhausted,by decide⟩ (.cons ⟨.chunk 32 _ .exhausted,by decide⟩ .nil)
  obtain ⟨after,delivered,same⟩ := always sampleEnv sampleStart c' sampleRequest sampleResponse
    sampleParsed _ _ _ sampleStart_idle sample_complete (.chunk 71 _ .exhausted) handled arrive
    (by decide)
  have alone : ((handleRead sampleEnv [[.received sampleRequest]] sampleStart).toOption.map
      fun c => c.analysed.length) = some 1 := by decide
  have pieces : ((deliver sampleEnv [[.received (bytes "GET /a HTTP/1.1\r\nHost:")],
      [.received (bytes " d\r\n\r\n")]] sampleStart).toOption.map fun c => c.analysed.length) =
      some 0 := by decide
  rw [handled] at alone
  rw [delivered] at pieces
  have one : c'.analysed.length = 1 := Option.some.inj alone
  have none : after.analysed.length = 0 := Option.some.inj pieces
  have both := congrArg (fun seen => seen.1.length) same
  simp only [settled,one,none] at both
  contradiction

end Deon.Http
