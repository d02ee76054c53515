import Deon.Http.Connection
import Deon.Library.Fallible
import Deon.Library.Run

/-! What one turn of the loop in `handleRead` can do to a connection, said once:
every way out of the loop, with the fields that may change on the way. The
invariants of the connection are case analyses over `Leaves`. -/
namespace Deon.Http
open Library

/-- The connection with its input and parser fields set. -/
def Connection.parsed (c : Connection) (inputBuffer : Bytes) (state : HttpRequestParseState)
    (hState : HeaderParseState) (request : HttpRequest) : Connection :=
  {c with inputBuffer := inputBuffer,state := state,hState := hState,request := request}

/-- The connection as `analysisRequest` leaves it before it answers. -/
def Connection.noted (c : Connection) (keepAlive : Bool) (mime : MimeType) : Connection :=
  {c with analysed := c.analysed ++ [c.request],keepAlive := keepAlive,mime := mime}

/-- The requests that a type is looked up for. -/
def asksType (request : HttpRequest) : Bool := request.method = .get || request.method = .head

/-- The results of `analysisRequest`. -/
inductive Analysed (env : Env) (c : Connection) : Int × Connection → Prop
  | answers (keepAlive mime response) (some : response ≠ []) (asks : asksType c.request = true) :
      Analysed env c (0,
        {c.noted keepAlive mime with
          outputBuffer := c.outputBuffer ++ response
          responses := c.responses ++ [response]})
  | hello (keepAlive mime) (asks : asksType c.request = true) : Analysed env c (0,
      {decideApart helloResponse (c.noted keepAlive mime) with outputBuffer := helloResponse})
  | fails (keepAlive mime part errNum shortMsg) (asks : asksType c.request = true) :
      Analysed env c (-1,
        handleError env errNum shortMsg
          {c.noted keepAlive mime with outputBuffer := c.outputBuffer ++ part})
  | drops : Analysed env c (-1,c.noted c.keepAlive c.mime)

/-- The ways through the blocks that follow the `readn`. -/
inductive Parses (env : Env) (c : Connection) : Stage → Prop
  | waits (inputBuffer state hState request) :
      Parses env c (.leave true (c.parsed inputBuffer state hState request))
  | refuses (inputBuffer state hState request shortMsg) :
      Parses env c (badRequest env shortMsg (c.parsed inputBuffer state hState request))
  | answers (inputBuffer state hState request c') (rc : Int) (answer : rc = 0)
      (analysed : Analysed env (c.parsed inputBuffer state hState request) (rc,c')) :
      Parses env c (.leave false {c' with state := .finish})
  | fails (inputBuffer state hState request c') (rc : Int) (failure : rc ≠ 0)
      (analysed : Analysed env (c.parsed inputBuffer state hState request) (rc,c')) :
      Parses env c (.leave false {c' with err := true})
  | loops (inputBuffer state hState request) :
      Parses env c (.go (c.parsed inputBuffer state hState request))

/-- The ways out of one turn of the loop, and into the next. -/
inductive Leaves (env : Env) (c : Connection) : Stage → Prop
  | ends (inputBuffer) : Leaves env c
      (.leave false {c with inputBuffer := inputBuffer,isConnecting := false})
  | parses {stage} (parsed : Parses env c stage) : Leaves env c stage

theorem Analysed.notes {env : Env} {c : Connection} {out : Int × Connection}
    (analysed : Analysed env c out) : out.2.analysed = c.analysed ++ [c.request] ∧
      out.2.inputBuffer = c.inputBuffer ∧ out.2.events = c.events ∧ out.2.state = c.state ∧
      out.2.err = c.err := by
  cases analysed <;> exact ⟨rfl,rfl,rfl,rfl,rfl⟩

theorem Analysed.request {env : Env} {c : Connection} {out : Int × Connection}
    (analysed : Analysed env c out) : out.2.request = c.request := by
  cases analysed <;> rfl

theorem Analysed.responds {env : Env} {c c' : Connection} (analysed : Analysed env c (0,c')) :
    c.responses.length < c'.responses.length := by
  cases analysed with
  | answers => simp
  | hello => simp [decideApart,Connection.noted]

theorem appendFile_cases {env : Env} {fileName header : Bytes} {size : Nat} {c : Connection}
    {out : Int × Connection} (ok : appendFile env fileName header size c = .ok out) :
    (∃ body, out = (0,answered (header ++ body) {c with outputBuffer := c.outputBuffer ++ body})) ∨
      out = (-1,handleError env 404 (bytes "Not Found") c) := by
  unfold appendFile at ok
  split at ok
  · exact .inr (Except.ok.inj ok).symm
  · left
    split at ok
    · split_ifs at ok
      exact ⟨[],by simpa using (Except.ok.inj ok).symm⟩
    · exact ⟨_,(Except.ok.inj ok).symm⟩

theorem statusLine_append_ne (keepAlive : Bool) (rest : Bytes) : statusLine keepAlive ++ rest ≠ [] := by
  have some : bytes "HTTP/1.1 200 OK\r\n" ≠ [] := by decide
  simp [statusLine,some]

theorem analysisRequest_cases {env : Env} {c : Connection} {out : Int × Connection}
    (ok : analysisRequest env c = .ok out) : Analysed env c out := by
  unfold analysisRequest at ok
  dsimp only at ok
  have keeps : c.outputBuffer ++ [] = c.outputBuffer := List.append_nil _
  split at ok
  · rename_i method
    have asks : asksType c.request = true := by simpa [asksType] using method
    generalize types : fileTypeOf c.mime (c.root ++ c.request.uri) = looked at ok
    obtain ⟨fileType,mime⟩ := looked
    dsimp only at ok
    split at ok
    · obtain rfl := Except.ok.inj ok
      exact .hello (c.keepAlive || asksKeepAlive c.request.headers) mime asks
    · split at ok
      · obtain rfl := Except.ok.inj ok
        have failed := @Analysed.fails env c
          (c.keepAlive || asksKeepAlive c.request.headers) mime [] 404 (bytes "Not Found!") asks
        rw [keeps] at failed
        exact failed
      · rename_i sbuf found
        split at ok
        · obtain rfl := Except.ok.inj ok
          have failed := @Analysed.fails env c
            (c.keepAlive || asksKeepAlive c.request.headers) mime [] 403 (bytes "Forbidden") asks
          rw [keeps] at failed
          exact failed
        · split at ok
          · obtain rfl := Except.ok.inj ok
            exact .answers (c.keepAlive || asksKeepAlive c.request.headers) mime _
              (statusLine_append_ne _ _) asks
          · rcases appendFile_cases ok with ⟨body,rfl⟩ | rfl
            · have whole := @Analysed.answers env c
                (c.keepAlive || asksKeepAlive c.request.headers) mime
                (statusLine (asksKeepAlive c.request.headers) ++ entityHeader fileType sbuf.size ++
                  body) (by rw [List.append_assoc]; exact statusLine_append_ne _ _) asks
              rw [← List.append_assoc] at whole
              exact whole
            · exact .fails (c.keepAlive || asksKeepAlive c.request.headers) mime _ 404 _ asks
  · obtain rfl := Except.ok.inj ok
    exact .drops

theorem analysisRequest_post {c : Connection} (posted : c.request.method = .post) (env : Env) :
    analysisRequest env c = .ok (-1,c.noted c.keepAlive c.mime) := by
  have other : ¬ (c.request.method = .get ∨ c.request.method = .head) := by simp [posted]
  unfold analysisRequest
  exact if_neg other

theorem lineStage_waits {env : Env} {c : Connection} (state : c.state = .parseRequestLine)
    (absent : find crlf c.inputBuffer = none) : lineStage env c = .ok (.leave true c) := by
  have again : parseRequestLine c.inputBuffer c.request = .ok (.again,c.inputBuffer,c.request) := by
    simp [parseRequestLine,absent]
  rw [lineStage,if_pos state,again]
  rfl

/-- Where a result of the request line parser leads. -/
def lineLeads (env : Env) (c : Connection) : LineState → Stage
  | .again => .leave true c
  | .error => badRequest env (bytes "Bad Request") c
  | .success => .go {c with state := .parseHeaders}

theorem lineStage_line {env : Env} {c : Connection} {pos : Nat} {rc : LineState}
    {request : HttpRequest} (state : c.state = .parseRequestLine)
    (found : find crlf c.inputBuffer = some pos)
    (parsed : parseLine (c.inputBuffer.take pos) c.request = .ok (rc,request)) :
    lineStage env c = .ok (lineLeads env
      {c with inputBuffer := c.inputBuffer.drop (pos + 2),request := request} rc) := by
  rw [lineStage,if_pos state,parseRequestLine_found _ found,parsed]
  cases rc <;> rfl

theorem headerStage_reads {env : Env} {c : Connection} (state : c.state = .parseHeaders) :
    headerStage env c = .ok (
      match (Reading.fresh c.hState c.request.headers).run c.inputBuffer with
      | .again r => .leave true {c with
          inputBuffer := r.line
          hState := r.hState
          request := {c.request with headers := r.headers}}
      | .failed hState headers => badRequest env (bytes "Bad Request")
          {c with hState := hState,request := {c.request with headers := headers}}
      | .done headers rest => .go {c with
          inputBuffer := rest
          hState := .endCr
          request := {c.request with headers := headers}
          state := if c.request.method = .post then .checkContentLength else .analysis}) := by
  rw [headerStage,if_pos state,parseRequestHeader_reads]
  cases (Reading.fresh c.hState c.request.headers).run c.inputBuffer <;> rfl

theorem lineStage_cases {env : Env} {c : Connection} {stage : Stage}
    (ok : lineStage env c = .ok stage) :
    (∃ b s q, stage = .go (c.parsed b s c.hState q)) ∨
      (∃ b q, stage = .leave true (c.parsed b c.state c.hState q)) ∨
      ∃ b q, stage = badRequest env (bytes "Bad Request") (c.parsed b c.state c.hState q) := by
  unfold lineStage at ok
  split at ok
  · obtain ⟨⟨rc,buffer,request⟩,_,next⟩ := bind_success ok
    cases rc with
    | success => exact .inl ⟨buffer,_,request,(Except.ok.inj next).symm⟩
    | again => exact .inr (.inl ⟨buffer,request,(Except.ok.inj next).symm⟩)
    | error => exact .inr (.inr ⟨buffer,request,(Except.ok.inj next).symm⟩)
  · exact .inl ⟨c.inputBuffer,c.state,c.request,(Except.ok.inj ok).symm⟩

theorem headerStage_cases {env : Env} {c : Connection} {stage : Stage}
    (ok : headerStage env c = .ok stage) :
    (∃ b s h q, stage = .go (c.parsed b s h q)) ∨
      (∃ b h q, stage = .leave true (c.parsed b c.state h q)) ∨
      ∃ b h q, stage = badRequest env (bytes "Bad Request") (c.parsed b c.state h q) := by
  unfold headerStage at ok
  split at ok
  · obtain ⟨⟨rc,buffer,hState,request⟩,_,next⟩ := bind_success ok
    cases rc with
    | success => exact .inl ⟨buffer,_,hState,request,(Except.ok.inj next).symm⟩
    | again => exact .inr (.inl ⟨buffer,hState,request,(Except.ok.inj next).symm⟩)
    | error => exact .inr (.inr ⟨buffer,hState,request,(Except.ok.inj next).symm⟩)
  · exact .inl ⟨c.inputBuffer,c.state,c.hState,c.request,(Except.ok.inj ok).symm⟩

theorem lengthStage_cases {env : Env} {c : Connection} {stage : Stage}
    (ok : lengthStage env c = .ok stage) :
    (∃ s, stage = .go (c.parsed c.inputBuffer s c.hState c.request)) ∨ stage = .leave true c ∨
      stage = badRequest env (bytes "Bad Request: Lack of (Content-length)") c := by
  unfold lengthStage at ok
  split at ok
  · split at ok
    · exact .inr (.inr (Except.ok.inj ok).symm)
    · obtain ⟨contentLength,_,next⟩ := bind_success ok
      split at next
      · exact .inr (.inl (Except.ok.inj next).symm)
      · exact .inl ⟨_,(Except.ok.inj next).symm⟩
  · exact .inl ⟨c.state,(Except.ok.inj ok).symm⟩

theorem analysisStage_cases {env : Env} {c : Connection} {stage : Stage}
    (ok : analysisStage env c = .ok stage) :
    (stage = .go c ∧ c.state ≠ .analysis) ∨ ∃ rc c', Analysed env c (rc,c') ∧
      ((rc = 0 ∧ stage = .leave false {c' with state := .finish}) ∨
        (rc ≠ 0 ∧ stage = .leave false {c' with err := true})) := by
  unfold analysisStage at ok
  split at ok
  · obtain ⟨⟨rc,c'⟩,called,next⟩ := bind_success ok
    refine .inr ⟨rc,c',analysisRequest_cases called,?_⟩
    dsimp only at next
    split at next
    · rename_i zero
      exact .inl ⟨zero,(Except.ok.inj next).symm⟩
    · rename_i nonzero
      exact .inr ⟨nonzero,(Except.ok.inj next).symm⟩
  · rename_i state
    exact .inl ⟨(Except.ok.inj ok).symm,state⟩

theorem stages_parses {env : Env} {c : Connection} {stage : Stage} {buffer : Bytes}
    (ok : stages env {c with inputBuffer := buffer} = .ok stage) : Parses env c stage := by
  obtain ⟨line,lined,ok⟩ := bind_success ok
  obtain ⟨header,headed,ok⟩ := bind_success ok
  obtain ⟨length,measured,last⟩ := bind_success ok
  rcases lineStage_cases lined with ⟨b,s,q,rfl⟩ | ⟨b,q,rfl⟩ | ⟨b,q,rfl⟩
  · rcases headerStage_cases headed with ⟨b,s,h,q,rfl⟩ | ⟨b,h,q,rfl⟩ | ⟨b,h,q,rfl⟩
    · rcases lengthStage_cases measured with ⟨s,rfl⟩ | rfl | rfl
      · rcases analysisStage_cases last with ⟨rfl,_⟩ | ⟨rc,c',analysed,⟨zero,rfl⟩ | ⟨nonzero,rfl⟩⟩
        · exact .loops b s h q
        · exact .answers b s h q c' rc zero analysed
        · exact .fails b s h q c' rc nonzero analysed
      · obtain rfl := Except.ok.inj last
        exact .waits b s h q
      · obtain rfl := Except.ok.inj last
        exact .refuses b s h q _
    · obtain rfl := Except.ok.inj measured
      obtain rfl := Except.ok.inj last
      exact .waits b s h q
    · obtain rfl := Except.ok.inj measured
      obtain rfl := Except.ok.inj last
      exact .refuses b s h q _
  · obtain rfl := Except.ok.inj headed
    obtain rfl := Except.ok.inj measured
    obtain rfl := Except.ok.inj last
    exact .waits b _ _ q
  · obtain rfl := Except.ok.inj headed
    obtain rfl := Except.ok.inj measured
    obtain rfl := Except.ok.inj last
    exact .refuses b _ _ q _

/-- What holds of a connection that a block hands on, and of one that leaves the loop. -/
def Through (leads : Connection → Prop) (leaves : Bool → Connection → Prop) : Stage → Prop
  | .go d => leads d
  | .leave finish d => leaves finish d

/-- The rule for the blocks that follow the `readn`: what each of them does with what the one
in front of it hands on. -/
theorem stages_through {env : Env} {c : Connection} {stage : Stage}
    {lined headed measured last : Connection → Prop} {leaves : Bool → Connection → Prop}
    (line : ∀ stage, lineStage env c = .ok stage → Through lined leaves stage)
    (header : ∀ d stage, lined d → headerStage env d = .ok stage → Through headed leaves stage)
    (length : ∀ d stage, headed d → lengthStage env d = .ok stage → Through measured leaves stage)
    (analysis : ∀ d stage, measured d → analysisStage env d = .ok stage → Through last leaves stage)
    (ok : stages env c = .ok stage) : Through last leaves stage := by
  have next : ∀ {now later : Connection → Prop} {block : Connection → Except Fault Stage},
      (∀ d stage, now d → block d = .ok stage → Through later leaves stage) →
      ∀ {first stage : Stage}, Through now leaves first → first.andThen block = .ok stage →
        Through later leaves stage := by
    intro now later block goes first stage before ended
    cases first with
    | go d => exact goes d stage before ended
    | leave finish d =>
      obtain rfl := Except.ok.inj ended
      exact before
  obtain ⟨first,one,ok⟩ := bind_success ok
  obtain ⟨second,two,ok⟩ := bind_success ok
  obtain ⟨third,three,four⟩ := bind_success ok
  exact next analysis (next length (next header (line first one) two) three) four

/-- What a block says about the state: behind the request line it does not come back to
it, and a call waits for the line only with the connection as it is. -/
def Moves (c : Connection) : Stage → Prop
  | .go d => d.state ≠ .parseRequestLine
  | .leave true d => d.state ≠ .parseRequestLine ∨ d = c ∧ c.state = .parseRequestLine
  | .leave false d => d.state ≠ .parseRequestLine ∨ c.state = .parseRequestLine

theorem lineStage_moves {env : Env} {c : Connection} {stage : Stage}
    (ok : lineStage env c = .ok stage) : Moves c stage := by
  by_cases state : c.state = .parseRequestLine
  · cases found : find crlf c.inputBuffer with
    | none =>
      obtain rfl := Except.ok.inj ((lineStage_waits state found).symm.trans ok)
      exact .inr ⟨rfl,state⟩
    | some pos =>
      obtain ⟨rc,request,parsed⟩ := parseLine_ok (c.inputBuffer.take pos) c.request
      obtain rfl := Except.ok.inj ((lineStage_line state found parsed).symm.trans ok)
      cases rc with
      | success => simp [lineLeads,Moves]
      | again => exact absurd rfl (parseLine_result parsed).1
      | error => exact .inr state
  · rw [lineStage,if_neg state] at ok
    obtain rfl := Except.ok.inj ok
    exact state

theorem headerStage_moves {env : Env} {c : Connection} {stage : Stage}
    (state : c.state ≠ .parseRequestLine) (ok : headerStage env c = .ok stage) : Moves c stage := by
  by_cases reading : c.state = .parseHeaders
  · rw [headerStage_reads reading] at ok
    obtain rfl := Except.ok.inj ok
    cases (Reading.fresh c.hState c.request.headers).run c.inputBuffer with
    | again r => exact .inl state
    | failed hState headers => exact .inl state
    | done headers rest =>
      dsimp only [Moves]
      split_ifs <;> decide
  · rw [headerStage,if_neg reading] at ok
    obtain rfl := Except.ok.inj ok
    exact state

theorem lengthStage_moves {env : Env} {c : Connection} {stage : Stage}
    (state : c.state ≠ .parseRequestLine) (ok : lengthStage env c = .ok stage) : Moves c stage := by
  unfold lengthStage at ok
  split at ok
  · split at ok
    · obtain rfl := Except.ok.inj ok
      exact .inl state
    · obtain ⟨contentLength,_,next⟩ := bind_success ok
      split at next
      · obtain rfl := Except.ok.inj next
        exact .inl state
      · obtain rfl := Except.ok.inj next
        simp [Moves]
  · obtain rfl := Except.ok.inj ok
    exact state

theorem analysisStage_moves {env : Env} {c : Connection} {stage : Stage}
    (state : c.state ≠ .parseRequestLine) (ok : analysisStage env c = .ok stage) : Moves c stage := by
  rcases analysisStage_cases ok with ⟨rfl,_⟩ | ⟨rc,c',analysed,⟨_,rfl⟩ | ⟨_,rfl⟩⟩
  · exact state
  · exact .inl (by simp)
  · obtain ⟨_,_,_,same,_⟩ := analysed.notes
    exact .inl (same ▸ state)

theorem stages_moves {env : Env} {c : Connection} {stage : Stage}
    (ok : stages env c = .ok stage) : Moves c stage := by
  let leaves : Bool → Connection → Prop := fun finish d => Moves c (.leave finish d)
  have weaken : ∀ {d : Connection} {stage : Stage}, d.state ≠ .parseRequestLine →
      Moves d stage → Through (·.state ≠ .parseRequestLine) leaves stage := by
    intro d stage state moves
    cases stage with
    | go e => exact moves
    | leave finish e =>
      cases finish with
      | true => exact .inl (moves.elim id fun same => absurd same.2 state)
      | false => exact .inl (moves.elim id fun same => absurd same state)
  have through : Through (·.state ≠ .parseRequestLine) leaves stage := by
    refine stages_through ?_ (fun d stage state ok => weaken state (headerStage_moves state ok))
      (fun d stage state ok => weaken state (lengthStage_moves state ok))
      (fun d stage state ok => weaken state (analysisStage_moves state ok)) ok
    intro stage lined
    have moves := lineStage_moves lined
    cases stage <;> exact moves
  cases stage <;> exact through

theorem pass_leaves {env : Env} {results : List ReadResult} {c : Connection} {stage : Stage}
    (ok : pass env results c = .ok stage) : Leaves env c stage := by
  unfold pass at ok
  dsimp only at ok
  split_ifs at ok
  · obtain rfl := Except.ok.inj ok
    exact .parses (.refuses _ c.state c.hState c.request _)
  · obtain rfl := Except.ok.inj ok
    exact .ends _
  · obtain rfl := Except.ok.inj ok
    exact .parses (.waits _ c.state c.hState c.request)
  · exact .parses (stages_parses ok)

/-- The rule for what holds when `handleRead` returns: every turn begins with `inv`. -/
theorem handleRead_returns {env : Env} (inv post : Connection → Prop)
    (turn : ∀ c results stage, inv c → pass env results c = .ok stage →
      match stage with
      | .go d => inv d
      | .leave finish d => post (afterLoop finish d).2 ∧
          ((afterLoop finish d).1 = true → inv (afterLoop finish d).2))
    {drains : List (List ReadResult)} {c c' : Connection} (start : inv c)
    (ok : handleRead env drains c = .ok c') : post c' := by
  induction drains generalizing c with
  | nil =>
    obtain rfl := Except.ok.inj ok
    exact (turn c [] _ start rfl).1
  | cons results drains ih =>
    obtain ⟨stage,passed,next⟩ := bind_success ok
    have kept := turn c results stage start passed
    cases stage with
    | go middle => exact ih kept next
    | leave finish middle =>
      dsimp only at kept next
      generalize afterLoop finish middle = after at kept next
      obtain ⟨recurse,after⟩ := after
      cases recurse with
      | true => exact ih (kept.2 rfl) next
      | false =>
        obtain rfl := Except.ok.inj next
        exact kept.1

/-- The rule for what `handleRead` preserves: a property of the connection kept by
every turn of the loop and by what follows the loop. -/
theorem handleRead_keeps {env : Env} (inv : Connection → Prop)
    (turn : ∀ c stage, inv c → Leaves env c stage →
      match stage with
      | .go c' => inv c'
      | .leave finish c' => inv (afterLoop finish c').2)
    {drains : List (List ReadResult)} {c c' : Connection} (start : inv c)
    (ok : handleRead env drains c = .ok c') : inv c' := by
  refine handleRead_returns inv inv ?_ start ok
  intro c results stage held passed
  have kept := turn c stage held (pass_leaves passed)
  cases stage with
  | go d => exact kept
  | leave finish d => exact ⟨kept,fun _ => kept⟩

/-- The connection with which the next turn of the loop begins, or the next call that
`handleRead` makes of itself. -/
def turned (env : Env) (results : List ReadResult) (c : Connection) : Option Connection :=
  match pass env results c with
  | .ok (.go c) => some c
  | .ok (.leave finish c) => if (afterLoop finish c).1 then some (afterLoop finish c).2 else none
  | .error _ => none

/-- The same after several drains. -/
def recalled (env : Env) (drains : List (List ReadResult)) (c : Connection) : Option Connection :=
  drains.foldlM (fun c results => turned env results c) c

theorem handleRead_turned {env : Env} {results : List ReadResult} {c next : Connection}
    (turns : turned env results c = some next) (drains : List (List ReadResult)) :
    handleRead env (results :: drains) c = handleRead env drains next := by
  rw [handleRead]
  unfold turned at turns
  cases passed : pass env results c with
  | error fault => simp [passed] at turns
  | ok stage =>
    cases stage with
    | go after =>
      simp only [passed,Option.some.injEq] at turns
      rw [← turns]
      rfl
    | leave finish after =>
      simp only [passed] at turns
      simp only [bind,Except.bind]
      generalize afterLoop finish after = left at turns
      obtain ⟨recurse,after⟩ := left
      cases recurse with
      | true =>
        obtain rfl := Option.some.inj turns
        rfl
      | false => simp at turns

/-- A turn that is the last one returns, or does not because the turn itself does not. -/
theorem handleRead_last {env : Env} {results : List ReadResult} {c : Connection}
    (last : turned env results c = none) (drains : List (List ReadResult)) :
    (∃ fault, pass env results c = .error fault ∧
        handleRead env (results :: drains) c = .error fault) ∨
      ∃ finish left, pass env results c = .ok (.leave finish left) ∧
        handleRead env (results :: drains) c = .ok (afterLoop finish left).2 := by
  rw [handleRead]
  unfold turned at last
  cases passed : pass env results c with
  | error fault => exact .inl ⟨fault,rfl,rfl⟩
  | ok stage =>
    cases stage with
    | go after => simp [passed] at last
    | leave finish after =>
      refine .inr ⟨finish,after,rfl,?_⟩
      simp only [passed] at last
      simp only [bind,Except.bind]
      generalize afterLoop finish after = left at last
      obtain ⟨recurse,after⟩ := left
      cases recurse with
      | true => simp at last
      | false => rfl

theorem handleRead_once {env : Env} {results : List ReadResult} {c d : Connection} {finish : Bool}
    (passed : pass env results c = .ok (.leave finish d))
    (last : (afterLoop finish d).1 = false) (drains : List (List ReadResult)) :
    handleRead env (results :: drains) c = .ok (afterLoop finish d).2 := by
  rw [handleRead,passed]
  simp only [bind,Except.bind]
  generalize afterLoop finish d = left at last
  obtain ⟨recurse,after⟩ := left
  obtain rfl := last
  rfl

theorem handleRead_recalled {env : Env} {before : List (List ReadResult)} {c middle : Connection}
    (calls : recalled env before c = some middle) (after : List (List ReadResult)) :
    handleRead env (before ++ after) c = handleRead env after middle := by
  induction before generalizing c with
  | nil =>
    obtain rfl := Option.some.inj calls
    rfl
  | cons results drains ih =>
    obtain ⟨next,turns,later⟩ := Option.bind_eq_some_iff.mp calls
    rw [List.cons_append,handleRead_turned turns]
    exact ih later

theorem handleWrite_running {c : Connection} (running : c.err = false)
    (connected : c.isConnecting = true) : handleWrite c =
      {c with
        writes := c.writes.tail
        sent := c.sent ++ (writen (c.writes.headD []) c.outputBuffer).accepted
        outputBuffer := (writen (c.writes.headD []) c.outputBuffer).sbuff
        err := decide ((writen (c.writes.headD []) c.outputBuffer).ret < 0)
        blocked := c.blocked ||
          decide ((writen (c.writes.headD []) c.outputBuffer).stopped = .again)
        events := if (writen (c.writes.headD []) c.outputBuffer).sbuff ≠ [] then
          c.events ||| epollOut else c.events} := by
  unfold handleWrite
  rw [running,connected]
  generalize writen (c.writes.headD []) c.outputBuffer = out
  by_cases empty : out.sbuff = []
  · simp [empty]
  · simp [empty]

theorem handleWrite_fine {c : Connection} (fine : (handleWrite c).err = false) : c.err = false := by
  cases failed : c.err with
  | false => rfl
  | true =>
    have stays : handleWrite c = c := by simp [handleWrite,failed]
    rw [stays,failed] at fine
    exact fine

theorem handleWrite_unparsed (c : Connection) : (handleWrite c).state = c.state ∧
    (handleWrite c).hState = c.hState ∧ (handleWrite c).request = c.request := by
  unfold handleWrite
  dsimp only
  split_ifs <;> exact ⟨rfl,rfl,rfl⟩

/-- What waits in the output buffer behind the loop is written first. -/
def flushed (c : Connection) : Connection := if c.outputBuffer ≠ [] then handleWrite c else c

theorem flushed_state (d : Connection) : (flushed d).state = d.state := by
  unfold flushed
  split
  · exact (handleWrite_unparsed d).1
  · rfl

/-- What `handleRead` does after its loop. -/
inductive Follows (c : Connection) : Bool → Bool × Connection → Prop
  | failed (finish) (error : c.err = true) : Follows c finish (false,c)
  | waits (fine : c.err = false) : Follows c true
      (false,{flushed c with events := (flushed c).events ||| epollIn})
  | clears (fine : c.err = false) (sent : (flushed c).err = false)
      (finished : (flushed c).state = .finish) : Follows c false
        ((initParse (flushed c)).isConnecting && (initParse (flushed c)).inputBuffer ≠ [],
          initParse (flushed c))
  | stays (fine : c.err = false) (left : (flushed c).err = true ∨ (flushed c).state ≠ .finish) :
      Follows c false (false,flushed c)

theorem afterLoop_follows (finish : Bool) (c : Connection) :
    Follows c finish (afterLoop finish c) := by
  by_cases failed : c.err = true
  · have none : afterLoop finish c = (false,c) := if_pos failed
    rw [none]
    exact .failed finish failed
  · have fine : c.err = false := by simpa using failed
    have parts : afterLoop finish c =
        if finish then (false,{flushed c with events := (flushed c).events ||| epollIn})
        else if !(flushed c).err && (flushed c).state = .finish then
          ((initParse (flushed c)).isConnecting && (initParse (flushed c)).inputBuffer ≠ [],
            initParse (flushed c))
        else (false,flushed c) := if_neg failed
    rw [parts]
    cases finish with
    | true => exact .waits fine
    | false =>
      simp only [Bool.false_eq_true,if_false]
      split_ifs with done
      · obtain ⟨sent,finished⟩ := Bool.and_eq_true_iff.mp done
        exact .clears fine (by simpa using sent) (of_decide_eq_true finished)
      · refine .stays fine ?_
        cases sent : (flushed c).err with
        | true => exact .inl rfl
        | false => exact .inr fun finished => done (by simp [sent,finished])

theorem flushed_keeps {inv : Connection → Prop} {c : Connection} (held : inv c)
    (written : inv (handleWrite c)) : inv (flushed c) := by
  unfold flushed
  split
  · exact written
  · exact held

/-- The rule for what `handleRead` preserves after its loop. -/
theorem afterLoop_keeps {inv : Connection → Prop} {c : Connection} (failed : c.err = true → inv c)
    (written : c.err = false → inv (flushed c))
    (listens : ∀ d, inv d → inv {d with events := d.events ||| epollIn})
    (clears : ∀ d, inv d → inv (initParse d)) (finish : Bool) : inv (afterLoop finish c).2 := by
  have follows := afterLoop_follows finish c
  generalize afterLoop finish c = after at follows
  cases follows with
  | failed _ error => exact failed error
  | waits fine => exact listens _ (written fine)
  | clears fine => exact clears _ (written fine)
  | stays fine => exact written fine

theorem afterLoop_true (d : Connection) :
    (afterLoop true d).1 = false ∧ (afterLoop true d).2.state = d.state := by
  have follows := afterLoop_follows true d
  generalize afterLoop true d = after at follows
  cases follows with
  | failed => exact ⟨rfl,rfl⟩
  | waits => exact ⟨rfl,flushed_state d⟩

/-- A call that it makes of itself: nothing has failed, and a request is finished. -/
theorem afterLoop_recalls {finish : Bool} {d : Connection} (recalls : (afterLoop finish d).1 = true) :
    (finish = false ∧ d.err = false ∧ d.state = .finish) ∧ (afterLoop finish d).2.err = false := by
  have follows := afterLoop_follows finish d
  generalize afterLoop finish d = after at follows recalls
  cases follows with
  | failed => cases recalls
  | waits => cases recalls
  | clears fine sent finished =>
    exact ⟨⟨rfl,fine,(flushed_state d).symm.trans finished⟩,sent⟩
  | stays => cases recalls

/-- The poller dispatches an event to a channel that it still maps, and the
handlers return. -/
def Dispatched (c : Connection) (event : Event) (c' : Connection) : Prop :=
  c.channels = .held ∧ handleEvents event c = .ok c'

/-- The connection before `handleRegister`, which ends every dispatch. -/
theorem Dispatched.passes {event : Event} (inv : Connection → Prop)
    (turn : ∀ c results stage, inv c → pass event.env results c = .ok stage →
      match stage with
      | .go c' => inv c'
      | .leave finish c' => inv (afterLoop finish c').2)
    (write : ∀ c, inv c → inv (handleWrite c))
    {c c' : Connection} (start : inv {c with writes := event.writes})
    (dispatched : Dispatched c event c') :
    ∃ middle, inv middle ∧ c' = handleRegister event.env middle := by
  have handled := dispatched.2
  unfold handleEvents at handled
  obtain ⟨read,handled,next⟩ := bind_success handled
  have kept : inv read := by
    split at handled
    · refine handleRead_returns inv inv ?_ start handled
      intro c results stage held passed
      have kept := turn c results stage held passed
      cases stage with
      | go d => exact kept
      | leave finish d => exact ⟨kept,fun _ => kept⟩
    · obtain rfl := Except.ok.inj handled
      exact start
  obtain rfl := Except.ok.inj next
  refine ⟨_,?_,rfl⟩
  split
  · exact write read kept
  · exact kept

theorem Dispatched.keeps {event : Event} (inv : Connection → Prop)
    (turn : ∀ c stage, inv c → Leaves event.env c stage →
      match stage with
      | .go c' => inv c'
      | .leave finish c' => inv (afterLoop finish c').2)
    (write : ∀ c, inv c → inv (handleWrite c))
    {c c' : Connection} (start : inv {c with writes := event.writes})
    (dispatched : Dispatched c event c') :
    ∃ middle, inv middle ∧ c' = handleRegister event.env middle :=
  dispatched.passes inv (fun c _ stage held passed => turn c stage held (pass_leaves passed)) write
    start

/-- The connection behind an event that is dispatched and returns. -/
def next (c : Connection) (event : Event) : Option Connection :=
  if c.channels = .held then (handleEvents event c).toOption else none

theorem next_dispatched (c : Connection) (event : Event) (c' : Connection)
    (done : next c event = some c') : Dispatched c event c' := by
  obtain ⟨registered,done⟩ := Option.ite_none_right_eq_some.mp done
  exact ⟨registered,toOption_success.mp done⟩

/-- A root with one readable file of three bytes, and memory that is zero. -/
def sampleEnv : Env where
  stat := fun name => if name = bytes "a" then some ⟨true,true,3⟩ else none
  opens := fun name => name = bytes "a"
  mmap := fun _ _ => some fun _ => 120
  below := fun _ => 0
  ctl := true

def sampleRequest : Bytes := bytes "GET /a HTTP/1.1\r\nHost: d\r\n\r\n"

def sampleStart : Connection := registerHttp sampleEnv (Connection.fresh [] mimeType)

/-- A request arrives, and the first `write` of its response takes ten bytes. -/
def shortWrite : Event :=
  ⟨sampleEnv,epollIn,[[.received sampleRequest]],[[.accepted 10,.failed .eagain]]⟩

end Deon.Http
