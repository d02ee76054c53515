import Deon.Http.Complete
import Deon.Http.Interest
import Deon.Http.LineAccepted

/-! The parser between two events. Behind every exit from the loop a connection without an
error is at the beginning of a request, in its headers or in front of its body; so a call
makes one turn of the loop, and it calls itself only where it has read something. -/
namespace Deon.Http
open Library

/-- Where a call of `handleRead` may leave the parser. -/
def Paused (c : Connection) : Prop :=
  match c.state with
  | .parseRequestLine => c.hState = .start ∧ c.request = requestInit
  | .parseHeaders =>
    c.request.method = .get ∨ c.request.method = .post ∨ c.request.method = .head
  | .checkContentLength => c.request.method = .post ∧
    c.request.headers.lookup (bytes "Content-length") ≠ none
  | .analysis | .finish => False

/-- Behind the header block. -/
def Headed (c : Connection) : Prop :=
  c.state = .checkContentLength ∧ c.request.method = .post ∨ c.state = .analysis

/-- What a turn leaves: a failure, a parser at rest or a finished request. -/
def Rests (finish : Bool) (d : Connection) : Prop :=
  d.err = true ∨ Paused d ∨ finish = false ∧ d.state = .finish

theorem badRequest_rests {env : Env} {shortMsg : Bytes} {c : Connection} {leads : Connection → Prop} :
    Through leads Rests (badRequest env shortMsg c) := .inl rfl

theorem parseLine_known {line : Bytes} {request after : HttpRequest}
    (parsed : parseLine line request = .ok (.success,after)) :
    after.method = .get ∨ after.method = .post ∨ after.method = .head := by
  unfold parseLine at parsed
  cases looked : findMethod line with
  | none => simp [looked] at parsed
  | some place =>
    obtain ⟨method,pos⟩ := place
    rw [looked] at parsed
    obtain ⟨_,_,_,rfl⟩ := parseTarget_sets parsed
    have known := (findMethod_iff.mp looked).1.1
    cases method with
    | invalid => exact absurd rfl known
    | get => exact .inl rfl
    | post => exact .inr (.inl rfl)
    | head => exact .inr (.inr rfl)

theorem lineStage_rests {env : Env} {c : Connection} {stage : Stage} (rest : Paused c)
    (ok : lineStage env c = .ok stage) :
    Through (fun d => Paused d ∧ d.state ≠ .parseRequestLine) Rests stage := by
  by_cases state : c.state = .parseRequestLine
  · cases found : find crlf c.inputBuffer with
    | none =>
      obtain rfl := Except.ok.inj ((lineStage_waits state found).symm.trans ok)
      exact .inr (.inl rest)
    | some pos =>
      obtain ⟨rc,request,parsed⟩ := parseLine_ok (c.inputBuffer.take pos) c.request
      obtain rfl := Except.ok.inj ((lineStage_line state found parsed).symm.trans ok)
      cases rc with
      | again => exact absurd rfl (parseLine_result parsed).1
      | error => exact badRequest_rests
      | success => exact ⟨parseLine_known parsed,by simp⟩
  · rw [lineStage,if_neg state] at ok
    obtain rfl := Except.ok.inj ok
    exact ⟨rest,state⟩

theorem headerStage_rests {env : Env} {c : Connection} {stage : Stage} (rest : Paused c)
    (begun : c.state ≠ .parseRequestLine) (ok : headerStage env c = .ok stage) :
    Through Headed Rests stage := by
  by_cases reading : c.state = .parseHeaders
  · have known : c.request.method = .get ∨ c.request.method = .post ∨ c.request.method = .head := by
      simpa only [Paused,reading] using rest
    rw [headerStage_reads reading] at ok
    obtain rfl := Except.ok.inj ok
    cases (Reading.fresh c.hState c.request.headers).run c.inputBuffer with
    | again r =>
      refine .inr (.inl ?_)
      simpa only [Paused,reading] using known
    | failed hState headers => exact badRequest_rests
    | done headers left =>
      by_cases post : c.request.method = .post
      · exact .inl ⟨if_pos post,post⟩
      · exact .inr (if_neg post)
  · rw [headerStage,if_neg reading] at ok
    obtain rfl := Except.ok.inj ok
    unfold Paused at rest
    cases state : c.state with
    | parseRequestLine => exact absurd state begun
    | parseHeaders => exact absurd state reading
    | checkContentLength =>
      simp only [state] at rest
      exact .inl ⟨state,rest.1⟩
    | analysis => simp [state] at rest
    | finish => simp [state] at rest

theorem lengthStage_rests {env : Env} {c : Connection} {stage : Stage} (headed : Headed c)
    (ok : lengthStage env c = .ok stage) : Through (·.state = .analysis) Rests stage := by
  unfold lengthStage at ok
  rcases headed with ⟨state,post⟩ | state
  · rw [if_pos state] at ok
    split at ok
    · obtain rfl := Except.ok.inj ok
      exact badRequest_rests
    · rename_i value present
      obtain ⟨contentLength,_,next⟩ := bind_success ok
      split_ifs at next
      · obtain rfl := Except.ok.inj next
        refine .inr (.inl ?_)
        simp only [Paused,state,present]
        exact ⟨post,by simp⟩
      · obtain rfl := Except.ok.inj next
        rfl
  · have other : c.state ≠ .checkContentLength := by
      rw [state]
      decide
    rw [if_neg other] at ok
    obtain rfl := Except.ok.inj ok
    exact state

theorem analysisStage_rests {env : Env} {c : Connection} {stage : Stage} (state : c.state = .analysis)
    (ok : analysisStage env c = .ok stage) : Through (fun _ => False) Rests stage := by
  rcases analysisStage_cases ok with ⟨_,other⟩ | ⟨rc,c',_,⟨_,rfl⟩ | ⟨_,rfl⟩⟩
  · exact absurd state other
  · exact .inr (.inr ⟨rfl,rfl⟩)
  · exact .inl rfl

theorem pass_rests {env : Env} {results : List ReadResult} {c : Connection} {stage : Stage}
    (rest : Paused c) (ok : pass env results c = .ok stage) :
    Through (fun _ => False) Rests stage := by
  unfold pass at ok
  dsimp only at ok
  split_ifs at ok
  · obtain rfl := Except.ok.inj ok
    exact badRequest_rests
  · obtain rfl := Except.ok.inj ok
    exact .inr (.inl rest)
  · obtain rfl := Except.ok.inj ok
    exact .inr (.inl rest)
  · have same : Paused {c with inputBuffer := (readn results c.inputBuffer false).inBuffer} := rest
    exact stages_through (fun _ => lineStage_rests same)
      (fun _ _ begun => headerStage_rests begun.1 begun.2) (fun _ _ => lengthStage_rests)
      (fun _ _ => analysisStage_rests) ok

theorem Paused.congr {c d : Connection} (rest : Paused c) (state : d.state = c.state)
    (hState : d.hState = c.hState) (request : d.request = c.request) : Paused d := by
  unfold Paused
  rw [state,hState,request]
  exact rest

theorem flushed_rests {d : Connection} (rest : Paused d) : Paused (flushed d) := by
  obtain ⟨state,hState,request⟩ := handleWrite_unparsed d
  unfold flushed
  split
  · exact rest.congr state hState request
  · exact rest

theorem afterLoop_rests {finish : Bool} {d : Connection} (rests : Rests finish d)
    (fine : (afterLoop finish d).2.err = false) : Paused (afterLoop finish d).2 := by
  have follows := afterLoop_follows finish d
  generalize afterLoop finish d = after at follows fine
  cases follows with
  | failed _ error => exact absurd error (Bool.eq_false_iff.mp fine)
  | clears => exact ⟨rfl,rfl⟩
  | waits running =>
    rcases rests.resolve_left (Bool.eq_false_iff.mp running) with rest | ⟨again,_⟩
    · exact flushed_rests rest
    · cases again
  | stays running left =>
    rcases rests.resolve_left (Bool.eq_false_iff.mp running) with rest | ⟨_,done⟩
    · exact flushed_rests rest
    · exact absurd ((flushed_state d).trans done) (left.resolve_left (Bool.eq_false_iff.mp fine))

theorem turned_rests {env : Env} {results : List ReadResult} {c next : Connection} (rest : Paused c)
    (turns : turned env results c = some next) : Paused next := by
  unfold turned at turns
  cases passed : pass env results c with
  | error fault => simp [passed] at turns
  | ok stage =>
    have rests := pass_rests rest passed
    cases stage with
    | go d => exact rests.elim
    | leave finish d =>
      simp only [passed] at turns
      split_ifs at turns with recalls
      obtain rfl := Option.some.inj turns
      exact afterLoop_rests rests (afterLoop_recalls recalls).2

/-- The bytes that are read in some drains. -/
def bytesRead (drains : List (List ReadResult)) : Nat :=
  (drains.flatMap fun results => (readn results [] false).inBuffer).length

theorem turned_reads {env : Env} {results : List ReadResult} {c next : Connection} (rest : Paused c)
    (turns : turned env results c = some next) : 0 < (readn results [] false).inBuffer.length := by
  obtain ⟨received,ending,drains⟩ := drains_total results
  rw [readn_drains drains,List.nil_append]
  apply List.length_pos_of_ne_nil
  rintro rfl
  have ended : ∃ finish d, pass env results c = .ok (.leave finish d) ∧
      (finish = true ∨ d.err = true ∨ d.state ≠ .finish) := by
    unfold pass
    rw [readn_drains drains]
    cases ending with
    | again => exact ⟨true,_,rfl,.inl rfl⟩
    | eof =>
      refine ⟨false,_,rfl,.inr (.inr ?_)⟩
      intro done
      have never : c.state = .finish := done
      simp [Paused,never] at rest
    | error => exact ⟨false,_,rfl,.inr (.inl rfl)⟩
  obtain ⟨finish,d,passed,stops⟩ := ended
  simp only [turned,passed] at turns
  split_ifs at turns with recalls
  obtain ⟨⟨again,fine,done⟩,_⟩ := afterLoop_recalls recalls
  rcases stops with waits | failed | other
  · exact absurd waits (by simp [again])
  · exact absurd failed (by simp [fine])
  · exact other done

theorem recalled_rests {env : Env} {before : List (List ReadResult)} : ∀ {c middle : Connection},
    Paused c → recalled env before c = some middle → Paused middle ∧ before.length ≤ bytesRead before := by
  induction before with
  | nil =>
    intro c middle rest calls
    obtain rfl := Option.some.inj calls
    exact ⟨rest,Nat.le_refl _⟩
  | cons results before ih =>
    intro c middle rest calls
    obtain ⟨next,turns,later⟩ := Option.bind_eq_some_iff.mp calls
    obtain ⟨rests,bound⟩ := ih (turned_rests rest turns) later
    have some := turned_reads rest turns
    refine ⟨rests,?_⟩
    simp only [bytesRead,List.flatMap_cons,List.length_append,List.length_cons] at bound ⊢
    omega

theorem handleRead_rests {env : Env} {drains : List (List ReadResult)} {c c' : Connection}
    (rest : Paused c) (handled : handleRead env drains c = .ok c') : c'.err = false → Paused c' := by
  refine handleRead_returns Paused (fun d => d.err = false → Paused d) ?_ rest handled
  intro d results stage start passed
  have rests := pass_rests start passed
  cases stage with
  | go e => exact rests.elim
  | leave finish e =>
    exact ⟨afterLoop_rests rests,fun recalls => afterLoop_rests rests (afterLoop_recalls recalls).2⟩

/-- Between two dispatches: the parser of a registered connection is at rest. -/
def Resting (c : Connection) : Prop := Registered c ∧ (c.channels = .held → Paused c)

theorem handleRegister_unparsed (env : Env) (c : Connection) :
    (handleRegister env c).state = c.state ∧ (handleRegister env c).hState = c.hState ∧
      (handleRegister env c).request = c.request ∧ (handleRegister env c).err = c.err := by
  unfold handleRegister
  dsimp only
  split
  · unfold updateChannel update
    split <;> exact ⟨rfl,rfl,rfl,rfl⟩
  · exact ⟨rfl,rfl,rfl,rfl⟩

theorem Dispatched.resting {c c' : Connection} {event : Event} (held : Resting c)
    (dispatched : Dispatched c event c') : Resting c' := by
  have kept := dispatched.registered held.1
  obtain ⟨registered,handled⟩ := dispatched
  refine ⟨kept,fun mapped => ?_⟩
  have fine := (kept.2 mapped).1
  have start : Paused {c with writes := event.writes} := held.2 registered
  unfold handleEvents at handled
  obtain ⟨read,called,last⟩ := bind_success handled
  obtain rfl := Except.ok.inj last
  obtain ⟨state,hState,request,error⟩ :=
    handleRegister_unparsed event.env (if writable event.revents then handleWrite read else read)
  rw [error] at fine
  refine Paused.congr ?_ state hState request
  have rests : read.err = false → Paused read := by
    intro running
    split at called
    · exact handleRead_rests start called running
    · obtain rfl := Except.ok.inj called
      exact start
  split at fine
  · rename_i writes
    rw [if_pos writes]
    obtain ⟨state,hState,request⟩ := handleWrite_unparsed read
    exact (rests (handleWrite_fine fine)).congr state hState request
  · rename_i quiet
    rw [if_neg quiet]
    exact rests fine

/-- In every state of every run: a call of `handleRead` that leaves no error leaves the
parser at rest. Every call makes one turn of its loop, and it calls itself at most once for
each byte that it reads. -/
theorem parser_at_rest {env : Env} {root : Bytes} {mime : MimeType} {events : List Event}
    {c : Connection} (run : Run Dispatched (registerHttp env (Connection.fresh root mime)) events c)
    (registered : c.channels = .held) (event : Event) :
    (∀ c', handleRead event.env event.drains {c with writes := event.writes} = .ok c' →
      c'.err = false → Paused c') ∧
    ∀ before middle, recalled event.env before {c with writes := event.writes} = some middle →
      (∀ results after, pass event.env results middle ≠ .ok (.go after)) ∧
        before.length ≤ bytesRead before := by
  have begins : Resting (registerHttp env (Connection.fresh root mime)) := by
    unfold registerHttp addChannel update
    split
    · simp [Resting,Registered,Pending,Paused,Connection.fresh]
    · simp [Resting,Registered,Pending,Connection.fresh]
  have held := run.invariant Resting (fun _ _ _ held one => one.resting held) begins
  have start : Paused {c with writes := event.writes} := held.2 registered
  refine ⟨fun c' handled fine => handleRead_rests start handled fine,?_⟩
  intro before middle calls
  obtain ⟨rests,bound⟩ := recalled_rests start calls
  exact ⟨fun results after passed => pass_rests rests passed,bound⟩

def postedHeaders : List ReadResult :=
  [.received (bytes "POST /a HTTP/1.1\r\nContent-length: 5\r\n\r\n")]

theorem parser_at_rest_sample : ∃ c', handleRead sampleEnv [postedHeaders] sampleStart = .ok c' ∧
    c'.state = .checkContentLength ∧ Paused c' := by
  have handled : ((handleRead sampleEnv [postedHeaders] sampleStart).toOption.map
      fun c => (c.err,c.state)) = some (false,.checkContentLength) := by decide
  obtain ⟨c',read,same⟩ := Option.map_eq_some_iff.mp handled
  obtain ⟨fine,state⟩ := Prod.mk.inj same
  have returned := toOption_success.mp read
  have rests := (@parser_at_rest sampleEnv [] mimeType [] sampleStart (.nil _) rfl
    ⟨sampleEnv,epollIn,[postedHeaders],[]⟩).1
  exact ⟨c',returned,state,rests c' returned fine⟩

end Deon.Http
