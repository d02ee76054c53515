import Deon.Http.Complete
import Deon.Http.Interest
import Deon.Http.Response

/-! Errors end a connection. Whatever raises one, the call that it is raised in sends nothing
more of the output buffer and removes the connection, so that there is no second error
response. -/
namespace Deon.Http
open Library

abbrev okLine : Bytes := bytes "HTTP/1.1 200 OK\r\n"

/-- The error responses that have been started, over the whole life of the connection. -/
def errorResponses (c : Connection) : List Bytes := c.responses.filter fun r => ¬ okLine <+: r

/-- An error, or the end of the connection. -/
def Stopped (c : Connection) : Prop := c.err = true ∨ c.isConnecting = false

theorem handleWrite_stopped {c : Connection} (stopped : Stopped c) : handleWrite c = c := by
  unfold handleWrite
  rcases stopped with failed | closed
  · simp [failed]
  · simp [closed]

theorem flushed_stopped {c : Connection} (stopped : Stopped c) : flushed c = c := by
  unfold flushed
  rw [handleWrite_stopped stopped,ite_self]

theorem handleRegister_stopped (env : Env) {c : Connection} (stopped : Stopped c) :
    handleRegister env c = deleteChannel env {c with timer := none} := by
  unfold handleRegister
  rcases stopped with failed | closed
  · simp [failed]
  · simp [closed]

theorem afterLoop_stopped (finish : Bool) {d : Connection} (stopped : Stopped d) :
    Stopped (afterLoop finish d).2 ∧ (afterLoop finish d).2.outputBuffer = d.outputBuffer ∧
      (afterLoop finish d).2.sent = d.sent := by
  have same := flushed_stopped stopped
  have follows := afterLoop_follows finish d
  generalize afterLoop finish d = after at follows
  cases follows with
  | failed => exact ⟨stopped,rfl,rfl⟩
  | waits => rw [same]; exact ⟨stopped,rfl,rfl⟩
  | clears => rw [same]; exact ⟨stopped,rfl,rfl⟩
  | stays => rw [same]; exact ⟨stopped,rfl,rfl⟩

theorem afterLoop_returns {finish : Bool} {d : Connection} (stopped : Stopped (afterLoop finish d).2) :
    (afterLoop finish d).1 = false := by
  have follows := afterLoop_follows finish d
  generalize afterLoop finish d = after at follows stopped
  cases follows with
  | failed => rfl
  | waits => rfl
  | stays => rfl
  | clears _ sent =>
    rcases stopped with failed | closed
    · exact absurd failed (Bool.eq_false_iff.mp sent)
    · rw [closed]
      rfl

/-- The first half of `handleEvents`. -/
def readCallback (event : Event) (c : Connection) : Except Fault Connection :=
  if readable event.revents then handleRead event.env event.drains {c with writes := event.writes}
  else .ok {c with writes := event.writes}

/-- A turn of the loop, in the call of `handleRead` or in one that it makes of itself. -/
def Turn (event : Event) (c : Connection) (stage : Stage) : Prop :=
  readable event.revents = true ∧ ∃ before results after middle,
    event.drains = before ++ results :: after ∧
      recalled event.env before {c with writes := event.writes} = some middle ∧
      pass event.env results middle = .ok stage

/-- The moments of a call of `handleEvents`: where an error is raised in front of its
response, behind each loop and what follows it, and behind each of the two callbacks. -/
inductive Moment (event : Event) (c : Connection) : Connection → Prop
  | refuses {shortMsg d} (turn : Turn event c (badRequest event.env shortMsg d)) :
      Moment event c {d with err := true}
  | leaves {finish d} (turn : Turn event c (.leave finish d)) : Moment event c d
  | follows {finish d} (turn : Turn event c (.leave finish d)) : Moment event c (afterLoop finish d).2
  | reads {d} (read : readCallback event c = .ok d) : Moment event c d
  | writes {d} (writes : writable event.revents = true) (read : readCallback event c = .ok d) :
      Moment event c (handleWrite d)

/-- What may still be sent behind a moment: nothing, or the error response that is begun. -/
def Ends (env : Env) (d after : Connection) : Prop :=
  after.outputBuffer = d.outputBuffer ∧
    (after.sent = d.sent ∨ ∃ errNum shortMsg, after.sent = (handleError env errNum shortMsg d).sent)

theorem Turn.last {event : Event} {c d : Connection} {finish : Bool}
    (turn : Turn event c (.leave finish d)) (stopped : Stopped (afterLoop finish d).2) :
    readCallback event c = .ok (afterLoop finish d).2 := by
  obtain ⟨reads,before,results,after,middle,drains,calls,passed⟩ := turn
  have returns := afterLoop_returns stopped
  rw [readCallback,if_pos reads,drains,handleRead_recalled calls,handleRead,passed]
  simp only [bind,Except.bind]
  generalize afterLoop finish d = left at returns
  obtain ⟨recurse,left⟩ := left
  dsimp only at returns
  subst returns
  rfl

theorem handleEvents_read {event : Event} {c c' : Connection} (handled : handleEvents event c = .ok c') :
    ∃ e, readCallback event c = .ok e ∧
      c' = handleRegister event.env (if writable event.revents then handleWrite e else e) := by
  unfold handleEvents at handled
  obtain ⟨e,read,last⟩ := bind_success handled
  exact ⟨e,read,(Except.ok.inj last).symm⟩

/-- Behind a moment at which the connection is stopped there is the end of the dispatch. -/
theorem Moment.stops {event : Event} {c d c' : Connection} (moment : Moment event c d)
    (stopped : Stopped d) (handled : handleEvents event c = .ok c') :
    ∃ e, Stopped e ∧ Ends event.env d e ∧ c' = deleteChannel event.env {e with timer := none} := by
  obtain ⟨left,read,rfl⟩ := handleEvents_read handled
  have finishes : ∀ {e}, readCallback event c = .ok e → Stopped e →
      handleRegister event.env (if writable event.revents then handleWrite left else left) =
        deleteChannel event.env {e with timer := none} := by
    intro e returned stopped
    obtain rfl := Except.ok.inj (read.symm.trans returned)
    rw [handleWrite_stopped stopped,ite_self,handleRegister_stopped _ stopped]
  cases moment with
  | @refuses shortMsg d turn =>
    -- the error response is sent directly, with the error already set
    have failed : Stopped (handleError event.env 400 shortMsg {d with err := true}) := .inl rfl
    obtain ⟨after,output,sent⟩ := afterLoop_stopped false failed
    exact ⟨_,after,⟨output,.inr ⟨400,shortMsg,sent⟩⟩,finishes (turn.last after) after⟩
  | @leaves finish d turn =>
    obtain ⟨after,output,sent⟩ := afterLoop_stopped finish stopped
    exact ⟨_,after,⟨output,.inl sent⟩,finishes (turn.last after) after⟩
  | follows turn => exact ⟨_,stopped,⟨rfl,.inl rfl⟩,finishes (turn.last stopped) stopped⟩
  | reads returned => exact ⟨_,stopped,⟨rfl,.inl rfl⟩,finishes returned stopped⟩
  | @writes d writes returned =>
    obtain rfl := Except.ok.inj (read.symm.trans returned)
    refine ⟨_,stopped,⟨rfl,.inl rfl⟩,?_⟩
    rw [if_pos writes,handleRegister_stopped _ stopped]

section Count

variable {env : Env} {c d : Connection}

theorem errorResponses_congr (same : d.responses = c.responses) : errorResponses d = errorResponses c := by
  rw [errorResponses,same]
  rfl

theorem handleError_counts (errNum : Nat) (shortMsg : Bytes) :
    (errorResponses (handleError env errNum shortMsg c)).length ≤ (errorResponses c).length + 1 := by
  have history : (handleError env errNum shortMsg c).responses =
      c.responses ++ [errorHeader errNum shortMsg ++ errorBody errNum shortMsg] := rfl
  rw [errorResponses,history,List.filter_append,List.length_append]
  exact Nat.add_le_add_left (List.length_filter_le _ _) _

theorem responded_counts {size : Nat} : errorResponses (c.responded env size) = errorResponses c := by
  have ok : okLine <+: responseTo env c.mime c.root c.request size := by
    unfold responseTo responseHeader statusLine
    split
    · decide
    · simp only [List.append_assoc]
      exact List.prefix_append _ _
  rw [errorResponses,responded_responses,List.filter_append]
  simp [ok,errorResponses]

/-- In front of a turn: neither an error nor an error response. -/
def Clean (c : Connection) : Prop := c.err = false ∧ errorResponses c = []

/-- One error response at most, and none without an error. -/
def Counted (c : Connection) : Prop :=
  (errorResponses c).length ≤ 1 ∧ (c.err = false → errorResponses c = [])

theorem Clean.counted (clean : Clean c) : Counted c :=
  ⟨by rw [clean.2]; exact Nat.zero_le _,fun _ => clean.2⟩

theorem handleError_counted (errNum : Nat) (shortMsg : Bytes) (none : errorResponses c = [])
    (failed : d = {handleError env errNum shortMsg c with err := true}) : Counted d := by
  have bound := @handleError_counts env c errNum shortMsg
  subst failed
  rw [none] at bound
  exact ⟨bound,fun fine => Bool.noConfusion (show true = false from fine)⟩

theorem badRequest_counted {shortMsg : Bytes} (clean : Clean c) :
    Through Clean (fun _ => Counted) (badRequest env shortMsg c) :=
  @handleError_counted env {c with err := true} _ 400 shortMsg clean.2 rfl

theorem lineStage_counts {stage : Stage} (clean : Clean c) (ok : lineStage env c = .ok stage) :
    Through Clean (fun _ => Counted) stage := by
  rcases lineStage_cases ok with ⟨b,s,q,rfl⟩ | ⟨b,q,rfl⟩ | ⟨b,q,rfl⟩
  · exact clean
  · exact Clean.counted (c := c.parsed b c.state c.hState q) clean
  · exact badRequest_counted (c := c.parsed b c.state c.hState q) clean

theorem headerStage_counts {stage : Stage} (clean : Clean c) (ok : headerStage env c = .ok stage) :
    Through Clean (fun _ => Counted) stage := by
  rcases headerStage_cases ok with ⟨b,s,h,q,rfl⟩ | ⟨b,h,q,rfl⟩ | ⟨b,h,q,rfl⟩
  · exact clean
  · exact Clean.counted (c := c.parsed b c.state h q) clean
  · exact badRequest_counted (c := c.parsed b c.state h q) clean

theorem lengthStage_counts {stage : Stage} (clean : Clean c) (ok : lengthStage env c = .ok stage) :
    Through Clean (fun _ => Counted) stage := by
  rcases lengthStage_cases ok with ⟨s,rfl⟩ | rfl | rfl
  · exact clean
  · exact clean.counted
  · exact badRequest_counted clean

theorem analysisStage_counts {stage : Stage} (clean : Clean c) (ok : analysisStage env c = .ok stage) :
    Through Clean (fun _ => Counted) stage := by
  unfold analysisStage at ok
  split_ifs at ok
  · obtain ⟨⟨rc,c'⟩,called,next⟩ := bind_success ok
    dsimp only at next
    split_ifs at next with zero
    · obtain rfl := Except.ok.inj next
      subst zero
      obtain ⟨size,_,rfl⟩ := analysisRequest_zero_iff.mp called
      have none : errorResponses {c.responded env size with state := .finish} = [] :=
        responded_counts.trans clean.2
      exact ⟨by rw [none]; exact Nat.zero_le _,fun _ => none⟩
    · obtain rfl := Except.ok.inj next
      cases analysisRequest_cases called with
      | answers => exact absurd rfl zero
      | hello => exact absurd rfl zero
      | fails keepAlive mime part errNum shortMsg =>
        exact handleError_counted errNum shortMsg (c := {c.noted keepAlive mime with
          outputBuffer := c.outputBuffer ++ part}) clean.2 rfl
      | drops =>
        have none : errorResponses {c.noted c.keepAlive c.mime with err := true} = [] := clean.2
        exact ⟨by rw [none]; exact Nat.zero_le _,fun _ => none⟩
  · obtain rfl := Except.ok.inj ok
    exact clean

theorem pass_counts {results : List ReadResult} {stage : Stage} (clean : Clean c)
    (ok : pass env results c = .ok stage) : Through Clean (fun _ => Counted) stage := by
  unfold pass at ok
  dsimp only at ok
  have same : Clean {c with inputBuffer := (readn results c.inputBuffer false).inBuffer} := clean
  split_ifs at ok
  · obtain rfl := Except.ok.inj ok
    exact badRequest_counted same
  · obtain rfl := Except.ok.inj ok
    exact ⟨same.counted.1,same.counted.2⟩
  · obtain rfl := Except.ok.inj ok
    exact same.counted
  · exact stages_through (fun _ => lineStage_counts same) (fun _ _ => headerStage_counts)
      (fun _ _ => lengthStage_counts) (fun _ _ => analysisStage_counts) ok

end Count

theorem afterLoop_counts {finish : Bool} {d : Connection} (counted : Counted d) :
    Counted (afterLoop finish d).2 := by
  have same := errorResponses_congr (afterLoop_parsed finish d).1
  refine ⟨same ▸ counted.1,fun fine => same.trans (counted.2 (afterLoop_err fine))⟩

theorem handleRegister_counts {env : Env} {c : Connection} (counted : Counted c) :
    Counted (handleRegister env c) := by
  unfold handleRegister
  dsimp only
  split
  · unfold updateChannel update
    split <;> exact counted
  · exact counted

theorem readCallback_counts {event : Event} {c e : Connection} (clean : Clean c)
    (read : readCallback event c = .ok e) : Counted e := by
  unfold readCallback at read
  split at read
  · refine handleRead_returns Clean Counted ?_ (c := {c with writes := event.writes}) clean read
    intro d results stage now passed
    have counts := pass_counts now passed
    cases stage with
    | go f => exact counts
    | leave finish f =>
      have after := @afterLoop_counts finish f counts
      refine ⟨after,fun recalls => ?_⟩
      have fine := (afterLoop_recalls recalls).2
      exact ⟨fine,after.2 fine⟩
  · obtain rfl := Except.ok.inj read
    exact clean.counted

/-- Between two dispatches. -/
def Lives (c : Connection) : Prop := Registered c ∧ Counted c

theorem Dispatched.lives {c c' : Connection} {event : Event} (held : Lives c)
    (dispatched : Dispatched c event c') : Lives c' := by
  refine ⟨dispatched.registered held.1,?_⟩
  have fine := (held.1.2 dispatched.1).1
  obtain ⟨e,read,rfl⟩ := handleEvents_read dispatched.2
  have counted := readCallback_counts ⟨fine,held.2.2 fine⟩ read
  apply handleRegister_counts
  split
  · have same := errorResponses_congr (handleWrite_parsed e).1
    exact ⟨same ▸ counted.1,fun running => same.trans (counted.2 (handleWrite_fine running))⟩
  · exact counted

/-- In every run a connection begins one error response at most. Behind every moment of a
dispatch at which an error is set nothing more of the output buffer is sent; and where an
error is set or the connection is closed, the dispatch ends with its removal. -/
theorem errors_terminal {env : Env} {root : Bytes} {mime : MimeType} {events : List Event}
    {c c' : Connection} {event : Event}
    (run : Run Dispatched (registerHttp env (Connection.fresh root mime)) events c)
    (dispatched : Dispatched c event c') :
    (errorResponses c').length ≤ 1 ∧
    (∀ d, Moment event c d → d.err = true → Ends event.env d c') ∧
    ∀ d, Moment event c d → d.err = true ∨ d.isConnecting = false →
      c'.timer = none ∧ c'.channels = .null ∧ c'.https = .null := by
  have start : Lives (registerHttp env (Connection.fresh root mime)) := by
    unfold registerHttp addChannel update
    split
    · simp [Lives,Registered,Pending,Counted,errorResponses,Connection.fresh]
    · simp [Lives,Registered,Pending,Counted,errorResponses,Connection.fresh]
  have lives := run.invariant Lives (fun _ _ _ held one => one.lives held) start
  refine ⟨(dispatched.lives lives).2.1,?_,?_⟩
  · intro d moment failed
    obtain ⟨e,_,ends,rfl⟩ := moment.stops (.inl failed) dispatched.2
    exact ends
  · intro d moment stopped
    obtain ⟨e,_,_,rfl⟩ := moment.stops stopped dispatched.2
    exact ⟨rfl,rfl,rfl⟩

/-- A request line without a method, on an event for input and output. -/
def badLine : Event := ⟨sampleEnv,epollIn ||| epollOut,[[.received (bytes "bad\r\n")]],[]⟩

theorem errors_terminal_sample : ∃ c', Dispatched sampleStart badLine c' ∧
    (errorResponses c').length ≤ 1 ∧ c'.timer = none ∧ c'.channels = .null ∧ c'.https = .null := by
  have played : (next sampleStart badLine).isSome = true := by decide
  obtain ⟨c',done⟩ := Option.isSome_iff_exists.mp played
  have dispatched := next_dispatched _ _ _ done
  have failed : ((readCallback badLine sampleStart).toOption.map fun d => d.err) = some true := by
    decide
  obtain ⟨d,read,error⟩ := Option.map_eq_some_iff.mp failed
  obtain ⟨one,_,removed⟩ := @errors_terminal sampleEnv [] mimeType [] sampleStart c' badLine (.nil _)
    dispatched
  exact ⟨c',dispatched,one,removed d (.reads (toOption_success.mp read)) (.inl error)⟩

end Deon.Http
