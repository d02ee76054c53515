import Deon.Http.Complete
import Deon.Http.KeepAlive

/-! Two connections that differ in the names of their headers only. The names are looked up in
two places: for the length of a POST, and for keeping the connection of a GET or a HEAD. -/
namespace Deon.Http
open Library

/-- The decision that `analysisRequest` makes for a request. -/
def keeps (request : HttpRequest) : Bool :=
  decide (request.method = .get ∨ request.method = .head) && asks request

def HttpRequest.nameless (request : HttpRequest) : HttpRequest := {request with headers := ∅}

/-- A connection without the places that names are kept in: what has not been read, and the
headers of the requests. -/
def Connection.nameless (c : Connection) : Connection :=
  {c with
    inputBuffer := []
    request := c.request.nameless
    analysed := c.analysed.map HttpRequest.nameless}

/-- What is compared: the states, the status and all that is sent, the flags, the masks and the
history, and the decision for every request. -/
def Connection.view (c : Connection) : Connection × List Bool := (c.nameless,c.analysed.map keeps)

def SameCourse (out out' : Except Fault Connection) : Prop :=
  out.map Connection.view = out'.map Connection.view

/-- The check of the content length: there is none, or it is larger than what is there, or not. -/
def lengthCheck (headers : Headers) (size : Nat) : Except Fault (Option Bool) :=
  match headers.lookup (bytes "Content-length") with
  | none => .ok none
  | some value => (stoi value).map fun contentLength => some (decide ((size : Int) < contentLength))

/-- The file of the request can be read and cannot be mapped: reading it ends the program. -/
def Crashes (env : Env) (root : Bytes) (request : HttpRequest) : Prop :=
  request.method = .get ∧ root ++ request.uri ≠ bytes "hello" ∧
    ∃ size, env.stat (cStr (root ++ request.uri)) = some ⟨true,true,size⟩ ∧
      env.opens (cStr (root ++ request.uri)) = true ∧
      env.mmap (cStr (root ++ request.uri)) size = none ∧ size ≠ 0

/-- The two header maps are taken alike: in a POST by the check, in a GET or a HEAD by the
decision to keep the connection. -/
structure Agrees (env : Env) (root : Bytes) (request : HttpRequest) (headers headers' : Headers)
    (size : Nat) : Prop where
  length : request.method = .post → lengthCheck headers size = lengthCheck headers' size
  keepAlive : request.method = .get ∨ request.method = .head → ¬ Crashes env root request →
    asksKeepAlive headers = asksKeepAlive headers'

section Renamed

variable (c : Connection) (headers : Headers) (analysed : List HttpRequest)

theorem view_renamed (nameless : analysed.map HttpRequest.nameless = c.analysed.map HttpRequest.nameless)
    (decided : analysed.map keeps = c.analysed.map keeps) :
    (c.renamed headers analysed).view = c.view := by
  unfold Connection.view Connection.nameless Connection.renamed HttpRequest.nameless
  dsimp only
  rw [decided]
  unfold HttpRequest.nameless at nameless
  rw [nameless]

theorem handleWrite_renamed :
    handleWrite (c.renamed headers analysed) = (handleWrite c).renamed headers analysed := by
  unfold handleWrite Connection.renamed
  dsimp only
  split_ifs <;> rfl

theorem flushed_renamed :
    flushed (c.renamed headers analysed) = (flushed c).renamed headers analysed := by
  have both : ∀ d : Connection, flushed d = if d.outputBuffer ≠ [] then handleWrite d else d :=
    fun _ => rfl
  have same : (c.renamed headers analysed).outputBuffer = c.outputBuffer := rfl
  rw [both,both,same,handleWrite_renamed]
  split <;> rfl

theorem afterLoop_renamed (finish : Bool) : ∃ headers', afterLoop finish (c.renamed headers analysed) =
    ((afterLoop finish c).1,(afterLoop finish c).2.renamed headers' analysed) := by
  have parts : ∀ d : Connection, afterLoop finish d = if d.err then (false,d)
      else if finish then (false,{flushed d with events := (flushed d).events ||| epollIn})
      else if !(flushed d).err && (flushed d).state = .finish then
        ((initParse (flushed d)).isConnecting && (initParse (flushed d)).inputBuffer ≠ [],
          initParse (flushed d))
      else (false,flushed d) := fun d => rfl
  have err : (c.renamed headers analysed).err = c.err := rfl
  have left : ((flushed c).renamed headers analysed).err = (flushed c).err ∧
    ((flushed c).renamed headers analysed).state = (flushed c).state := ⟨rfl,rfl⟩
  rw [parts,parts,flushed_renamed,err,left.1,left.2]
  split_ifs
  · exact ⟨headers,rfl⟩
  · exact ⟨headers,rfl⟩
  · exact ⟨∅,rfl⟩
  · exact ⟨headers,rfl⟩

end Renamed

theorem settled_failed {d : Connection} (failed : d.err = true) (finish : Bool) :
    (Stage.leave finish d).settled = d := by
  have stays : afterLoop finish d = (false,d) := if_pos failed
  rw [settled_leave,stays]
  rfl

theorem settled_renamed (d : Connection) (headers : Headers) (analysed : List HttpRequest)
    (finish : Bool) : ∃ headers', (Stage.leave finish (d.renamed headers analysed)).settled =
      (Stage.leave finish d).settled.renamed headers' analysed := by
  obtain ⟨middle,first⟩ := afterLoop_renamed d headers analysed finish
  rw [settled_leave,settled_leave,first]
  dsimp only
  split
  · obtain ⟨last,second⟩ := afterLoop_renamed (afterLoop finish d).2 middle analysed true
    exact ⟨last,by rw [second]⟩
  · exact ⟨middle,rfl⟩

theorem mapped_alike {α : Type} {f : HttpRequest → α} {earlier : List HttpRequest}
    {one other : HttpRequest} (same : f one = f other) :
    (earlier ++ [one]).map f = (earlier ++ [other]).map f := by
  rw [List.map_append,List.map_append,List.map_singleton,List.map_singleton,same]

theorem settled_view {d : Connection} {headers : Headers} {analysed : List HttpRequest}
    (nameless : analysed.map HttpRequest.nameless = d.analysed.map HttpRequest.nameless)
    (decided : analysed.map keeps = d.analysed.map keeps) (finish : Bool) :
    (Stage.leave finish (d.renamed headers analysed)).settled.view =
      (Stage.leave finish d).settled.view := by
  obtain ⟨headers',same⟩ := settled_renamed d headers analysed finish
  rw [same]
  apply view_renamed
  · rw [(settled_parsed finish d).2.1]
    exact nameless
  · rw [(settled_parsed finish d).2.1]
    exact decided

theorem badRequest_view (env : Env) (shortMsg : Bytes) (d : Connection) (inputBuffer : Bytes)
    (headers : Headers) :
    (badRequest env shortMsg {d.renamed headers d.analysed with inputBuffer := inputBuffer}).settled.view =
      (badRequest env shortMsg d).settled.view := by
  unfold badRequest
  rw [settled_failed rfl,settled_failed rfl]
  rfl

/-- Where the check of the content length leads, behind which a POST is dropped. -/
def checked (env : Env) (d : Connection) : Option Bool → Stage
  | none => badRequest env (bytes "Bad Request: Lack of (Content-length)") d
  | some true => .leave true d
  | some false => .leave false {d.noted d.keepAlive d.mime with state := .analysis,err := true}

theorem lengthStage_checked {env : Env} {d : Connection} (state : d.state = .checkContentLength)
    (posted : d.request.method = .post) :
    (lengthStage env d >>= fun stage => stage.andThen (analysisStage env)) =
      (lengthCheck d.request.headers d.inputBuffer.length).map (checked env d) := by
  unfold lengthStage lengthCheck
  rw [if_pos state]
  cases d.request.headers.lookup (bytes "Content-length") with
  | none => rfl
  | some value =>
    dsimp only
    cases stoi value with
    | error fault => rfl
    | ok contentLength =>
      simp only [bind,Except.bind,Except.map]
      by_cases waits : (d.inputBuffer.length : Int) < contentLength
      · rw [if_pos waits,decide_eq_true waits]
        rfl
      · rw [if_neg waits,decide_eq_false waits]
        have dropped := analysisRequest_post (c := {d with state := .analysis}) posted env
        simp only [pure,Except.pure,Stage.andThen,analysisStage,if_true,dropped,bind,Except.bind]
        rfl

/-- The verdict of the check shows in the history: an error response is decided, or the request
is dropped, or neither. -/
def verdictIn (d : Connection) (view : Connection × List Bool) : Option Bool :=
  if view.1.responses.length = d.responses.length then some (decide (view.2.length = d.analysed.length))
  else none

theorem verdict_shows (env : Env) (d : Connection) (verdict : Option Bool) :
    verdictIn d (checked env d verdict).settled.view = verdict := by
  have lengths : ∀ e : Connection, e.view.1.responses.length = e.responses.length ∧
      e.view.2.length = e.analysed.length := fun e => ⟨rfl,List.length_map _⟩
  unfold verdictIn
  rw [(lengths _).1,(lengths _).2]
  cases verdict with
  | none =>
    have refused : (checked env d none).settled.responses.length = d.responses.length + 1 := by
      unfold checked badRequest
      rw [settled_failed rfl]
      exact List.length_append
    rw [if_neg (by omega)]
  | some waits =>
    cases waits with
    | true =>
      obtain ⟨responses,analysed,_⟩ := settled_parsed true d
      unfold checked
      rw [responses,analysed,if_pos rfl,decide_eq_true rfl]
    | false =>
      unfold checked
      rw [settled_failed rfl]
      have more : (d.analysed ++ [d.request]).length ≠ d.analysed.length := by simp
      exact (if_pos rfl).trans (congrArg some (decide_eq_false more))

theorem checked_view {env : Env} {d : Connection} (posted : d.request.method = .post)
    (headers : Headers) (verdict : Option Bool) :
    (checked env (d.renamed headers d.analysed) verdict).settled.view =
      (checked env d verdict).settled.view := by
  cases verdict with
  | none => exact badRequest_view env _ d d.inputBuffer headers
  | some waits =>
    cases waits with
    | true => exact settled_view rfl rfl true
    | false =>
      have never : ∀ request : HttpRequest, request.method = .post → keeps request = false := by
        intro request method
        simp [keeps,method]
      exact @settled_view {d.noted d.keepAlive d.mime with state := .analysis,err := true} headers
        (d.analysed ++ [{d.request with headers := headers}]) (mapped_alike rfl)
        (mapped_alike ((never {d.request with headers := headers} posted).trans
          (never d.request posted).symm)) false

theorem posted_course {env : Env} {d : Connection} (posted : d.request.method = .post)
    (headers : Headers) (size : Nat) :
    SameCourse ((lengthCheck d.request.headers size).map fun verdict => (checked env d verdict).settled)
      ((lengthCheck headers size).map fun verdict =>
        (checked env (d.renamed headers d.analysed) verdict).settled) ↔
      lengthCheck d.request.headers size = lengthCheck headers size := by
  have shown : ∀ check : Except Fault (Option Bool),
      ((check.map fun verdict => (checked env d verdict).settled).map Connection.view).map
        (verdictIn d) = check := by
    intro check
    cases check with
    | error fault => rfl
    | ok verdict => exact congrArg Except.ok (verdict_shows env d verdict)
  have named : ∀ check : Except Fault (Option Bool),
      (check.map fun verdict => (checked env (d.renamed headers d.analysed) verdict).settled).map
        Connection.view = (check.map fun verdict => (checked env d verdict).settled).map
          Connection.view := by
    intro check
    cases check with
    | error fault => rfl
    | ok verdict => exact congrArg Except.ok (checked_view posted headers verdict)
  unfold SameCourse
  rw [named]
  constructor
  · intro same
    rw [← shown (lengthCheck d.request.headers size),same,shown]
  · intro same
    rw [same]

section Answering

variable {env : Env} {d : Connection}

theorem appendFile_returns {fileName header : Bytes} {size : Nat}
    (readable : env.opens (cStr fileName) = true → env.mmap (cStr fileName) size = none → size = 0) :
    ∃ out, appendFile env fileName header size d = .ok out := by
  unfold appendFile
  cases opened : env.opens (cStr fileName) with
  | false => exact ⟨_,rfl⟩
  | true =>
    cases mapped : env.mmap (cStr fileName) size with
    | none =>
      obtain rfl := readable opened mapped
      exact ⟨_,rfl⟩
    | some memory => exact ⟨_,rfl⟩

theorem analysisRequest_returns (fine : ¬ Crashes env d.root d.request) :
    ∃ out, analysisRequest env d = .ok out := by
  unfold analysisRequest
  dsimp only
  split
  · rename_i answers
    split
    · exact ⟨_,rfl⟩
    · rename_i hello
      cases found : env.stat (cStr (d.root ++ d.request.uri)) with
      | none => exact ⟨_,rfl⟩
      | some sbuf =>
        dsimp only
        split
        · exact ⟨_,rfl⟩
        · rename_i allowed
          split
          · exact ⟨_,rfl⟩
          · rename_i head
            apply appendFile_returns
            intro opened unmapped
            by_contra some
            obtain ⟨regular,userRead,size⟩ := sbuf
            have both : regular = true ∧ userRead = true := by simpa using allowed
            obtain ⟨rfl,rfl⟩ := both
            exact fine ⟨answers.resolve_right head,hello,size,found,opened,unmapped,some⟩
  · exact ⟨_,rfl⟩

theorem analysisRequest_crashes (crashes : Crashes env d.root d.request) :
    analysisRequest env d = .error .badAddress := by
  obtain ⟨get,hello,size,found,opened,unmapped,some⟩ := crashes
  unfold analysisRequest
  dsimp only
  rw [if_pos (.inl get),if_neg hello,found]
  dsimp only
  have allowed : ¬ (!true || !true) = true := Bool.false_ne_true
  rw [if_neg allowed,if_neg (by simp [get])]
  unfold appendFile
  rw [opened,unmapped]
  exact if_neg some

def concluded (out : Int × Connection) : Stage :=
  if out.1 = 0 then .leave false {out.2 with state := .finish}
  else .leave false {out.2 with err := true}

theorem analysisStage_concluded (state : d.state = .analysis) :
    analysisStage env d = (analysisRequest env d).map concluded := by
  unfold analysisStage
  rw [if_pos state]
  cases analysisRequest env d with
  | error fault => rfl
  | ok out =>
    unfold concluded
    simp only [bind,Except.bind,Except.map]
    split <;> rfl

theorem concluded_analysed (out : Int × Connection) :
    (concluded out).settled.analysed = out.2.analysed := by
  unfold concluded
  split
  · exact (settled_parsed false _).2.1
  · exact (settled_parsed false _).2.1

theorem concluded_view {out : Int × Connection} {headers : Headers} {analysed : List HttpRequest}
    (nameless : analysed.map HttpRequest.nameless = out.2.analysed.map HttpRequest.nameless)
    (decided : analysed.map keeps = out.2.analysed.map keeps) :
    (concluded (out.1,out.2.renamed headers analysed)).settled.view = (concluded out).settled.view := by
  unfold concluded
  dsimp only
  split
  · exact @settled_view {out.2 with state := .finish} headers analysed nameless decided false
  · exact @settled_view {out.2 with err := true} headers analysed nameless decided false

theorem answered_course (answers : d.request.method = .get ∨ d.request.method = .head)
    (headers : Headers) :
    SameCourse ((analysisRequest env d).map fun out => (concluded out).settled)
      ((analysisRequest env (d.renamed headers d.analysed)).map fun out => (concluded out).settled) ↔
      (¬ Crashes env d.root d.request → asksKeepAlive d.request.headers = asksKeepAlive headers) := by
  have noted : ∀ {e : Connection} {out}, analysisRequest env e = .ok out →
      (concluded out).settled.view.2 = (e.analysed ++ [e.request]).map keeps := by
    intro e out answered
    show ((concluded out).settled.analysed).map keeps = _
    rw [concluded_analysed,(analysisRequest_cases answered).notes.1]
  have decision : ∀ names : Headers,
      keeps {d.request with headers := names} = asksKeepAlive names := fun names => by
    unfold keeps asks
    rw [decide_eq_true answers,Bool.true_and]
  constructor
  · intro same fine
    obtain ⟨out,answered⟩ := analysisRequest_returns fine
    obtain ⟨out',answered'⟩ := analysisRequest_returns (d := d.renamed headers d.analysed) fine
    rw [answered,answered'] at same
    have views : (concluded out).settled.view = (concluded out').settled.view := Except.ok.inj same
    have lists := congrArg Prod.snd views
    rw [noted answered,noted answered'] at lists
    have last : keeps d.request = keeps {d.request with headers := headers} := by
      have split : (d.analysed ++ [d.request]).map keeps =
          (d.analysed ++ [{d.request with headers := headers}]).map keeps := lists
      rw [List.map_append,List.map_append] at split
      exact List.singleton_inj.mp (List.append_cancel_left split)
    rw [← decision headers,← last,← decision d.request.headers]
  · intro alike
    by_cases crashes : Crashes env d.root d.request
    · have both : Crashes env (d.renamed headers d.analysed).root
          (d.renamed headers d.analysed).request := crashes
      rw [analysisRequest_crashes crashes,analysisRequest_crashes both]
      rfl
    · have asked := alike crashes
      rw [analysisRequest_renamed env d headers asked.symm]
      obtain ⟨out,answered⟩ := analysisRequest_returns crashes
      have analysed := (analysisRequest_cases answered).notes.1
      rw [answered]
      refine congrArg Except.ok (concluded_view ?_ ?_).symm
      · rw [analysed]
        exact mapped_alike rfl
      · rw [analysed]
        exact mapped_alike (by rw [decision,asked.symm,← decision d.request.headers])

end Answering

end Deon.Http
