import Deon.Http.Steps

/-! What leaves the handlers other than by a return. The two parsers never do: every
position they hand to `substr` and every range they copy lies in the buffer. The
only exception that input can raise is that of `stoi` on the value of the
`Content-length` header, which nothing catches; and the raw `writen` of an error response
does not return while its `write` fails. -/
namespace Deon.Http
open Library

/-- Mapping a file that is not empty succeeds, as every allocation does. -/
def Maps (env : Env) : Prop := ∀ name size, size ≠ 0 → env.mmap name size ≠ none

/-- After white space and a sign there is a digit, and the number is an `int`. -/
def Convertible (value : Bytes) : Prop :=
  let (negative,rest) := sign (value.dropWhile isSpace)
  rest.takeWhile isDigit ≠ [] ∧
    decimal (rest.takeWhile isDigit) < if negative then 2^31 + 1 else 2^31

theorem stoi_convertible (value : Bytes) : (∃ n, stoi value = .ok n) ↔ Convertible value := by
  unfold stoi Convertible
  generalize sign (value.dropWhile isSpace) = signed
  obtain ⟨negative,rest⟩ := signed
  dsimp only
  by_cases empty : rest.takeWhile isDigit = []
  · simp [empty]
  · simp only [empty,if_false,ne_eq,not_false_eq_true,true_and]
    cases negative with
    | true =>
      simp only [if_true]
      split_ifs with outside
      · simp only [exists_false,false_iff]
        omega
      · simp only [Except.ok.injEq,exists_eq',true_iff]
        omega
    | false =>
      simp only [Bool.false_eq_true,if_false]
      split_ifs with outside
      · simp only [exists_false,false_iff]
        omega
      · simp only [Except.ok.injEq,exists_eq',true_iff]
        omega

theorem lineStage_ok (env : Env) (c : Connection) : ∃ stage, lineStage env c = .ok stage := by
  unfold lineStage
  split
  · obtain ⟨rc,rest,request,parsed⟩ := parseRequestLine_ok c.inputBuffer c.request
    rw [parsed]
    cases rc <;> exact ⟨_,rfl⟩
  · exact ⟨_,rfl⟩

theorem headerStage_ok (env : Env) (c : Connection) : ∃ stage, headerStage env c = .ok stage := by
  unfold headerStage
  split
  · rw [parseRequestHeader_reads]
    generalize ((Reading.fresh c.hState c.request.headers).run c.inputBuffer).outcome
      c.inputBuffer c.request = out
    obtain ⟨rc,rest,hState,request⟩ := out
    cases rc <;> exact ⟨_,rfl⟩
  · exact ⟨_,rfl⟩

theorem analysisRequest_ok {env : Env} (maps : Maps env) (c : Connection) :
    ∃ out, analysisRequest env c = .ok out := by
  unfold analysisRequest
  dsimp only
  split
  · split
    · exact ⟨_,rfl⟩
    · split
      · exact ⟨_,rfl⟩
      · rename_i sbuf _
        split
        · exact ⟨_,rfl⟩
        · split
          · exact ⟨_,rfl⟩
          · unfold appendFile
            split
            · exact ⟨_,rfl⟩
            · split
              · rename_i unmapped
                have empty : sbuf.size = 0 := by
                  by_contra some
                  exact maps _ _ some unmapped
                rw [if_pos empty]
                exact ⟨_,rfl⟩
              · exact ⟨_,rfl⟩
  · exact ⟨_,rfl⟩

theorem analysisStage_ok {env : Env} (maps : Maps env) (c : Connection) :
    ∃ stage, analysisStage env c = .ok stage := by
  unfold analysisStage
  split
  · obtain ⟨⟨rc,c'⟩,answered⟩ := analysisRequest_ok maps c
    rw [answered]
    simp only [bind,Except.bind]
    split <;> exact ⟨_,rfl⟩
  · exact ⟨_,rfl⟩

/-- The fields of a POST request that are complete with this text. What came of the request
before is in the state: the block it is in, `hState_` and what has been entered. -/
inductive Posts : HttpRequestParseState → HeaderParseState → HttpRequest → Bytes → Headers → Prop
  | complete (hState request text) : Posts .checkContentLength hState request text request.headers
  | fields {hState request text headers rest} (posted : request.method = .post)
      (block : (Reading.fresh hState request.headers).run text = .done headers rest) :
      Posts .parseHeaders hState request text headers
  | line {hState request text headers line block after} (cut : text = line ++ crlf ++ block)
      (first : find crlf text = some line.length)
      (accepted : parseLine line request = .ok (.success,after))
      (later : Posts .parseHeaders hState after block headers) :
      Posts .parseRequestLine hState request text headers

/-- If a POST request has its fields complete with this text and they tell its length, they tell it
by a number. -/
def TellsNumber (c : Connection) (text : Bytes) : Prop :=
  ∀ headers value, Posts c.state c.hState c.request text headers →
    headers.lookup (bytes "Content-length") = some value → Convertible value

theorem lengthStage_ok (env : Env) (c : Connection) : (∃ stage, lengthStage env c = .ok stage) ↔
    (c.state = .checkContentLength →
      ∀ value, c.request.headers.lookup (bytes "Content-length") = some value → Convertible value) := by
  unfold lengthStage
  by_cases checking : c.state = .checkContentLength
  · simp only [checking,if_true,true_implies]
    cases looked : c.request.headers.lookup (bytes "Content-length") with
    | none => simp
    | some value =>
      simp only [Option.some.injEq,forall_eq']
      rw [← stoi_convertible]
      cases stoi value with
      | error fault => simp [bind,Except.bind]
      | ok n =>
        simp only [bind,Except.bind]
        split <;> simp [pure,Except.pure]
  · simp [checking,pure,Except.pure]

/-- A block hands on to what never fails, or leaves the loop. -/
theorem andThen_returns {first : Except Fault Stage} {next : Connection → Except Fault Stage}
    (rest : ∀ c, ∃ stage, next c = .ok stage) :
    (∃ stage, (first >>= fun stage => stage.andThen next) = .ok stage) ↔
      ∃ stage, first = .ok stage := by
  cases first with
  | error fault => simp [bind,Except.bind]
  | ok stage =>
    cases stage with
    | go c => simpa [bind,Except.bind,Stage.andThen] using rest c
    | leave finish c => simp [bind,Except.bind,Stage.andThen]

/-- The blocks behind that of the request line. -/
def laterStages (env : Env) (c : Connection) : Except Fault Stage := do
  let stage ← headerStage env c
  let stage ← stage.andThen (lengthStage env)
  stage.andThen (analysisStage env)

theorem laterStages_ok {env : Env} (maps : Maps env) {c : Connection}
    (behind : c.state ≠ .parseRequestLine) :
    (∃ stage, laterStages env c = .ok stage) ↔ TellsNumber c c.inputBuffer := by
  have blocks : laterStages env c =
      (headerStage env c >>= fun stage => stage.andThen (lengthStage env)) >>=
        fun stage => stage.andThen (analysisStage env) := (bind_assoc ..).symm
  rw [blocks,andThen_returns (analysisStage_ok maps)]
  by_cases reading : c.state = .parseHeaders
  · rw [headerStage_reads reading]
    cases block : (Reading.fresh c.hState c.request.headers).run c.inputBuffer with
    | again r =>
      refine iff_of_true ⟨_,rfl⟩ ?_
      intro headers value posts
      rw [reading] at posts
      cases posts with
      | fields _ read => simp [block] at read
    | failed hState headers =>
      refine iff_of_true ⟨_,rfl⟩ ?_
      intro headers value posts
      rw [reading] at posts
      cases posts with
      | fields _ read => simp [block] at read
    | done headers rest =>
      simp only [bind,Except.bind,Stage.andThen]
      rw [lengthStage_ok]
      unfold TellsNumber
      rw [reading]
      by_cases posted : c.request.method = .post
      · simp only [posted,if_true,true_implies]
        constructor
        · intro converts other value posts named
          cases posts with
          | fields _ read =>
            rw [block] at read
            obtain ⟨rfl,_⟩ := ReadEnd.done.inj read
            exact converts value named
        · exact fun tells value named => tells headers value (.fields posted block) named
      · simp only [posted,if_false,reduceCtorEq,false_implies,true_iff]
        intro other value posts
        cases posts with
        | fields same => exact absurd same posted
  · rw [headerStage,if_neg reading]
    simp only [bind,Except.bind,pure,Except.pure,Stage.andThen]
    rw [lengthStage_ok]
    constructor
    · intro converts headers value posts named
      generalize state : c.state = place at posts
      generalize known : c.request = request at posts
      cases posts with
      | complete => exact converts state value (known ▸ named)
      | fields => exact absurd state reading
      | line => exact absurd state behind
    · intro tells checking value named
      refine tells _ value ?_ named
      rw [checking]
      exact .complete _ _ _

theorem stages_ok {env : Env} (maps : Maps env) (c : Connection) :
    (∃ stage, stages env c = .ok stage) ↔ TellsNumber c c.inputBuffer := by
  by_cases state : c.state = .parseRequestLine
  · cases found : find crlf c.inputBuffer with
    | none =>
      refine iff_of_true ⟨.leave true c,?_⟩ ?_
      · rw [stages,lineStage_waits state found]
        rfl
      · intro headers value posts
        rw [state] at posts
        cases posts with
        | line _ first => simp [found] at first
    | some pos =>
      obtain ⟨rc,after,parsed⟩ := parseLine_ok (c.inputBuffer.take pos) c.request
      have parts := (find_crlf found).1
      have cut : ∀ {line block : Bytes}, c.inputBuffer = line ++ crlf ++ block →
          find crlf c.inputBuffer = some line.length →
          line = c.inputBuffer.take pos ∧ block = c.inputBuffer.drop (pos + 2) := by
        intro line block whole first
        obtain rfl := Option.some.inj (found.symm.trans first)
        rw [whole]
        simp [crlf]
      have lined := @lineStage_line env c pos rc after state found parsed
      cases rc with
      | again => exact absurd rfl (parseLine_result parsed).1
      | error =>
        refine iff_of_true ⟨_,by rw [stages,lined]; rfl⟩ ?_
        intro headers value posts
        rw [state] at posts
        cases posts with
        | line whole first accepted =>
          obtain ⟨rfl,_⟩ := cut whole first
          rw [parsed] at accepted
          cases accepted
      | success =>
        have same : stages env c = laterStages env {c with
            inputBuffer := c.inputBuffer.drop (pos + 2),request := after,state := .parseHeaders} := by
          rw [stages,lined]
          rfl
        rw [same,laterStages_ok maps (by simp)]
        unfold TellsNumber
        rw [state]
        constructor
        · intro tells headers value posts named
          cases posts with
          | line whole first accepted later =>
            obtain ⟨rfl,rfl⟩ := cut whole first
            rw [parsed] at accepted
            cases accepted
            exact tells headers value later named
        · intro tells headers value later named
          refine tells headers value (.line parts ?_ parsed later) named
          rw [found,List.length_take,Nat.min_eq_left (by have := find_bound found; omega)]
  · have same : stages env c = laterStages env c := by
      rw [stages,lineStage,if_neg state]
      rfl
    rw [same]
    exact laterStages_ok maps state

/-- A turn of the loop in `handleRead`, from its `readn` on: what that adds to the buffer, if the
parsers then see it. -/
def TurnTells (results : List ReadResult) (c : Connection) : Prop :=
  ∀ received, received ≠ [] → Drains results received .again →
    TellsNumber c (c.inputBuffer ++ received)

theorem pass_ok {env : Env} (maps : Maps env) (results : List ReadResult) (c : Connection) :
    (∃ stage, pass env results c = .ok stage) ↔ TurnTells results c := by
  obtain ⟨received,ending,drains⟩ := drains_total results
  have asked : TurnTells results c ↔
      (ending = .again → received ≠ [] → TellsNumber c (c.inputBuffer ++ received)) := by
    constructor
    · rintro tells rfl some
      exact tells received some drains
    · intro tells other some again
      obtain ⟨rfl,same⟩ := drains.unique again
      exact tells same.symm some
  rw [asked]
  unfold pass
  rw [readn_drains drains]
  cases ending with
  | error => simp
  | eof =>
    have counted : ¬ ((received.length : Int) < 0) := by omega
    simp [counted]
  | again =>
    by_cases none : received = []
    · simp [none]
    · have some : received.length ≠ 0 := fun zero => none (List.length_eq_zero_iff.mp zero)
      simp only [reduceCtorEq,if_false,decide_false,Bool.false_eq_true,Int.natCast_eq_zero,some,
        true_implies,ne_eq,none,not_false_eq_true]
      rw [if_neg (by omega)]
      exact stages_ok maps {c with inputBuffer := c.inputBuffer ++ received}

theorem handleRead_ok {env : Env} (maps : Maps env) (drains : List (List ReadResult))
    (c : Connection) : (∃ c', handleRead env drains c = .ok c') ↔
      ∀ before results after middle, drains = before ++ results :: after →
        recalled env before c = some middle → TurnTells results middle := by
  induction drains generalizing c with
  | nil => simp [handleRead]
  | cons results drains ih =>
    cases turns : turned env results c with
    | some next =>
      have passes : ∃ stage, pass env results c = .ok stage := by
        unfold turned at turns
        cases passed : pass env results c with
        | error fault => simp [passed] at turns
        | ok stage => exact ⟨stage,rfl⟩
      rw [handleRead_turned turns,ih]
      constructor
      · intro tells before other after middle split calls
        cases before with
        | nil =>
          obtain ⟨rfl,rfl⟩ := List.cons.inj split
          obtain rfl := Option.some.inj calls
          exact (pass_ok maps _ _).mp passes
        | cons head before =>
          obtain ⟨rfl,rfl⟩ := List.cons.inj split
          obtain ⟨again,same,calls⟩ := Option.bind_eq_some_iff.mp calls
          obtain rfl := Option.some.inj (turns.symm.trans same)
          exact tells before other after middle rfl calls
      · intro tells before other after middle split calls
        refine tells (results :: before) other after middle (by rw [split]; rfl) ?_
        exact Option.bind_eq_some_iff.mpr ⟨next,turns,calls⟩
    | none =>
      have first : (∃ c', handleRead env (results :: drains) c = .ok c') ↔
          ∃ stage, pass env results c = .ok stage := by
        rcases handleRead_last turns drains with ⟨fault,raised,same⟩ | ⟨finish,left,passed,same⟩
        · simp [raised,same]
        · simp [passed,same]
      rw [first,pass_ok maps]
      constructor
      · intro tells before other after middle split calls
        cases before with
        | nil =>
          obtain ⟨rfl,rfl⟩ := List.cons.inj split
          obtain rfl := Option.some.inj calls
          exact tells
        | cons head before =>
          obtain ⟨rfl,rfl⟩ := List.cons.inj split
          obtain ⟨again,same,_⟩ := Option.bind_eq_some_iff.mp calls
          exact absurd (turns.symm.trans same) (by simp)
      · exact fun tells => tells [] results drains c rfl rfl

/-- In the course of these events a turn of the loop begins with the connection `d`, and its
`readn` gets these results. -/
def Turns (events : List Event) (c : Connection) (results : List ReadResult) (d : Connection) :
    Prop :=
  ∃ before event after middle, events = before ++ event :: after ∧ Run Dispatched c before middle ∧
    middle.channels = .held ∧ readable event.revents = true ∧
    ∃ turns later, event.drains = turns ++ results :: later ∧
      recalled event.env turns {middle with writes := event.writes} = some d

theorem handleEvents_ok {event : Event} (maps : Maps event.env) (c : Connection) :
    (∃ c', handleEvents event c = .ok c') ↔ (readable event.revents = true →
      ∀ turns results later d, event.drains = turns ++ results :: later →
        recalled event.env turns {c with writes := event.writes} = some d → TurnTells results d) := by
  unfold handleEvents
  cases reads : readable event.revents with
  | false => simp [bind,Except.bind,pure,Except.pure]
  | true =>
    simp only [if_true,true_implies]
    rw [← handleRead_ok maps]
    cases handleRead event.env event.drains {c with writes := event.writes} with
    | error fault => simp [bind,Except.bind]
    | ok read => simp [bind,Except.bind,pure,Except.pure]

/-- One event, and whether each `write` of an error response fails, with more than `EINTR`, once
the results that are ready for it are used up. -/
structure Occasion extends Event where
  broken : Bool

/-- How the handling of events comes to its end, if it does. -/
inductive Course
  | returned (c : Connection)
  | raised (fault : Fault)
  | endless

/-- The poller hands the events in order to the channel, as long as it maps it. -/
def dispatch : List Occasion → Connection → Course
  | [], c => .returned c
  | occasion :: later, c =>
    if c.channels = .held then
      match handleEvents occasion.toEvent c with
      | .error fault => .raised fault
      | .ok next =>
        if occasion.broken && c.exhausted < next.exhausted then .endless else dispatch later next
    else .returned c

/-- Every turn of the run tells a length by a number, if it tells one. -/
def RunTells (events : List Event) (c : Connection) : Prop :=
  ∀ results d, Turns events c results d → TurnTells results d

theorem runTells_cons {event : Event} {events : List Event} {c : Connection} (maps : Maps event.env)
    (registered : c.channels = .held) : RunTells (event :: events) c ↔
      (∃ c', handleEvents event c = .ok c') ∧
        ∀ next, handleEvents event c = .ok next → RunTells events next := by
  rw [handleEvents_ok maps]
  constructor
  · intro tells
    refine ⟨fun reads turns results later d split calls => ?_,?_⟩
    · exact tells results d
        ⟨[],event,events,c,rfl,.nil c,registered,reads,turns,later,split,calls⟩
    · rintro next handled results d ⟨before,again,after,middle,split,run,rest⟩
      refine tells results d ⟨event :: before,again,after,middle,by rw [split]; rfl,?_,rest⟩
      exact .cons ⟨registered,handled⟩ run
  · rintro ⟨first,later⟩ results d ⟨before,again,after,middle,split,run,held,reads,turns,more,rest⟩
    cases run with
    | nil =>
      obtain ⟨rfl,rfl⟩ := List.cons.inj split
      exact first reads turns results more d rest.1 rest.2
    | cons one run =>
      obtain ⟨rfl,same⟩ := List.cons.inj split
      exact later _ one.2 results d ⟨_,again,after,middle,same,run,held,reads,turns,more,rest⟩

theorem dispatch_ok {occasions : List Occasion}
    (maps : ∀ occasion ∈ occasions, Maps occasion.env)
    (ends : ∀ occasion ∈ occasions, occasion.broken = false) (c : Connection) :
    (∃ c', dispatch occasions c = .returned c') ↔ RunTells (occasions.map Occasion.toEvent) c := by
  induction occasions generalizing c with
  | nil =>
    refine iff_of_true ⟨c,rfl⟩ ?_
    rintro results d ⟨before,event,after,middle,split,_⟩
    exact absurd split (by simp)
  | cons occasion later ih =>
    have here : occasion.broken = false := ends occasion (by simp)
    have rest := ih (fun other member => maps other (by simp [member]))
      (fun other member => ends other (by simp [member]))
    by_cases registered : c.channels = .held
    · rw [List.map_cons,runTells_cons (maps occasion (by simp)) registered]
      simp only [dispatch,registered,if_true,here,Bool.false_and,Bool.false_eq_true,if_false]
      cases handled : handleEvents occasion.toEvent c with
      | error fault => simp
      | ok next => simp [rest]
    · refine iff_of_true ⟨c,if_neg registered⟩ ?_
      rintro results d ⟨before,event,after,middle,_,run,held,_⟩
      cases run with
      | nil => exact absurd held registered
      | cons one => exact absurd one.1 registered

/-- No other fault than those of `stoi` can come of a computation. -/
def OnlyStoi {α : Type} (result : Except Fault α) : Prop :=
  ∀ fault, result = .error fault → fault = .stoiInvalidArgument ∨ fault = .stoiOutOfRange

theorem OnlyStoi.of_ok {α : Type} {result : Except Fault α} (returns : ∃ value, result = .ok value) :
    OnlyStoi result := by
  obtain ⟨value,rfl⟩ := returns
  intro fault raised
  contradiction

theorem OnlyStoi.bind {α β : Type} {first : Except Fault α} {next : α → Except Fault β}
    (one : OnlyStoi first) (two : ∀ value, OnlyStoi (next value)) : OnlyStoi (first >>= next) := by
  intro fault raised
  cases first with
  | error other =>
    obtain rfl := Except.error.inj raised
    exact one other rfl
  | ok value => exact two value fault raised

theorem lengthStage_onlyStoi (env : Env) (c : Connection) : OnlyStoi (lengthStage env c) := by
  unfold lengthStage
  split
  · split
    · exact .of_ok ⟨_,rfl⟩
    · refine .bind (fun fault raised => stoi_fault raised) fun n => ?_
      split <;> exact .of_ok ⟨_,rfl⟩
  · exact .of_ok ⟨_,rfl⟩

theorem andThen_onlyStoi {stage : Stage} {next : Connection → Except Fault Stage}
    (only : ∀ c, OnlyStoi (next c)) : OnlyStoi (stage.andThen next) := by
  cases stage with
  | go c => exact only c
  | leave finish c => exact .of_ok ⟨_,rfl⟩

theorem pass_onlyStoi {env : Env} (maps : Maps env) (results : List ReadResult) (c : Connection) :
    OnlyStoi (pass env results c) := by
  unfold pass
  dsimp only
  split_ifs
  · exact .of_ok ⟨_,rfl⟩
  · exact .of_ok ⟨_,rfl⟩
  · exact .of_ok ⟨_,rfl⟩
  · refine .bind (.of_ok (lineStage_ok env _)) fun line => ?_
    refine .bind (andThen_onlyStoi fun c => .of_ok (headerStage_ok env c)) fun header => ?_
    refine .bind (andThen_onlyStoi (lengthStage_onlyStoi env)) fun length => ?_
    exact andThen_onlyStoi fun c => .of_ok (analysisStage_ok maps c)

theorem handleRead_onlyStoi {env : Env} (maps : Maps env) (drains : List (List ReadResult))
    (c : Connection) : OnlyStoi (handleRead env drains c) := by
  induction drains generalizing c with
  | nil => exact .of_ok ⟨_,rfl⟩
  | cons results drains ih =>
    cases turns : turned env results c with
    | some next =>
      rw [handleRead_turned turns]
      exact ih next
    | none =>
      rcases handleRead_last turns drains with ⟨fault,raised,same⟩ | ⟨finish,left,_,same⟩
      · have only := pass_onlyStoi maps results c fault raised
        intro other again
        obtain rfl := Except.error.inj (same.symm.trans again)
        exact only
      · exact .of_ok ⟨_,same⟩

theorem handleEvents_onlyStoi {event : Event} (maps : Maps event.env) (c : Connection) :
    OnlyStoi (handleEvents event c) := by
  unfold handleEvents
  refine .bind ?_ fun read => .of_ok ⟨_,rfl⟩
  split
  · exact handleRead_onlyStoi maps _ _
  · exact .of_ok ⟨_,rfl⟩

theorem dispatch_onlyStoi {occasions : List Occasion}
    (maps : ∀ occasion ∈ occasions, Maps occasion.env) (c : Connection) :
    ∀ fault, dispatch occasions c = .raised fault →
      fault = .stoiInvalidArgument ∨ fault = .stoiOutOfRange := by
  induction occasions generalizing c with
  | nil => simp [dispatch]
  | cons occasion later ih =>
    have rest := ih fun other member => maps other (by simp [member])
    intro fault raised
    unfold dispatch at raised
    split at raised
    · cases handled : handleEvents occasion.toEvent c with
      | error other =>
        rw [handled] at raised
        obtain rfl := Course.raised.inj raised
        exact handleEvents_onlyStoi (maps occasion (by simp)) c other handled
      | ok next =>
        rw [handled] at raised
        dsimp only at raised
        split at raised
        · cases raised
        · exact rest next fault raised
    · cases raised

/-- Whatever the peer sends to a connection in whatever state, as long as the raw writes of its
error responses end: the handlers return from all events exactly when no turn of their loop
completes the fields of a POST request whose length is not a number, and what `stoi` throws is the
only exception. -/
theorem events_return {occasions : List Occasion} (maps : ∀ occasion ∈ occasions, Maps occasion.env)
    (ends : ∀ occasion ∈ occasions, occasion.broken = false) (c : Connection) :
    ((∃ c', dispatch occasions c = .returned c') ↔ RunTells (occasions.map Occasion.toEvent) c) ∧
      ∀ fault, dispatch occasions c = .raised fault →
        fault = .stoiInvalidArgument ∨ fault = .stoiOutOfRange :=
  ⟨dispatch_ok maps ends c,dispatch_onlyStoi maps c⟩

theorem sampleEnv_maps : Maps sampleEnv := fun _ _ _ => by simp [sampleEnv]

def posted (contentLength : String) : Occasion where
  env := sampleEnv
  revents := epollIn
  drains := [[.received (bytes "POST /a HTTP/1.1\r\nContent-length: " ++ bytes contentLength ++
    bytes "\r\n\r\n")]]
  writes := []
  broken := false

theorem events_return_number : (∃ c', dispatch [posted "0"] sampleStart = .returned c') ∧
    RunTells [(posted "0").toEvent] sampleStart := by
  have done : ((handleEvents (posted "0").toEvent sampleStart).toOption.map fun c => c.err) =
      some true := by decide
  have returned : ∃ c', dispatch [posted "0"] sampleStart = .returned c' := by
    obtain ⟨c,handled,_⟩ := Option.map_eq_some_iff.mp done
    have held : sampleStart.channels = .held := rfl
    refine ⟨c,?_⟩
    rw [dispatch,if_pos held,toOption_success.mp handled]
    rfl
  refine ⟨returned,(@events_return [posted "0"] ?_ ?_ sampleStart).1.mp returned⟩
  · intro occasion member
    obtain rfl := List.mem_singleton.mp member
    exact sampleEnv_maps
  · intro occasion member
    obtain rfl := List.mem_singleton.mp member
    rfl

/-- A line that is refused, on a socket that takes nothing of the error response. -/
def refused : Occasion where
  env := sampleEnv
  revents := epollIn
  drains := [[.received (bytes "x\r\n")]]
  writes := [[.failed .other]]
  broken := true

/-- A POST request whose length is not a number ends the program; and the loop does not come back
from a request that is refused while its error response cannot be written. -/
theorem length_not_a_number : (¬ ∀ (env : Env) (root : Bytes) (mime : MimeType)
    (occasions : List Occasion), (∀ occasion ∈ occasions, Maps occasion.env) →
    (∀ occasion ∈ occasions, occasion.broken = false) →
    ∃ c', dispatch occasions (registerHttp env (Connection.fresh root mime)) = .returned c') ∧
    dispatch [refused] sampleStart = .endless := by
  have held : sampleStart.channels = .held := rfl
  constructor
  · intro always
    obtain ⟨c',returned⟩ := always sampleEnv [] mimeType [posted "abc"] (by
      intro occasion member
      obtain rfl := List.mem_singleton.mp member
      exact sampleEnv_maps) (by
      intro occasion member
      obtain rfl := List.mem_singleton.mp member
      rfl)
    have raised : (handleEvents (posted "abc").toEvent sampleStart).toOption.isNone = true := by
      decide
    change dispatch [posted "abc"] sampleStart = .returned c' at returned
    rw [dispatch,if_pos held] at returned
    cases handled : handleEvents (posted "abc").toEvent sampleStart with
    | error fault => simp [handled] at returned
    | ok next => simp [handled,Except.toOption] at raised
  · have writes : ((handleEvents refused.toEvent sampleStart).toOption.map fun c => c.exhausted) =
        some 2 := by decide +kernel
    obtain ⟨c,handled,more⟩ := Option.map_eq_some_iff.mp writes
    have start : sampleStart.exhausted = 0 := rfl
    have waits : (refused.broken && decide (sampleStart.exhausted < c.exhausted)) = true := by
      rw [start,more]
      rfl
    rw [dispatch,if_pos held,toOption_success.mp handled]
    exact if_pos waits

end Deon.Http
