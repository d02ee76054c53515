import Deon.Http.Complete

/-! Calls of `handleRead` with one drain each. A connection that has refused a request, or
has answered one and then reads more, does not come to rest with one request answered. -/
namespace Deon.Http
open Library

/-- Successive calls of `handleRead`, each of which gets one drain. -/
def deliver (env : Env) (drains : List (List ReadResult)) (c : Connection) :
    Except Fault Connection :=
  drains.foldlM (fun c results => handleRead env [results] c) c

/-- Nothing of an earlier request or response is left. -/
structure Idle (c : Connection) : Prop where
  fine : c.err = false
  silent : c.outputBuffer = []
  empty : c.inputBuffer = []
  state : c.state = .parseRequestLine
  hState : c.hState = .start
  request : c.request = requestInit

/-- What the pieces of a request may not change: the requests at the moment of analysis,
the responses, the left-over input and the parser's state. -/
def settled (c : Connection) : List HttpRequest × List Bytes × Bytes × HttpRequestParseState ×
    HeaderParseState × HttpRequest :=
  (c.analysed,c.responses,c.inputBuffer,c.state,c.hState,c.request)

/-- What a call with one drain makes of the stage that its turn ends in: the call that
it makes of itself finds nothing to read. -/
def called : Stage → Connection
  | .go d => (afterLoop true d).2
  | .leave finish d =>
    if (afterLoop finish d).1 then (afterLoop true (afterLoop finish d).2).2
    else (afterLoop finish d).2

theorem handleRead_call {env : Env} {results : List ReadResult} {piece : Bytes}
    (arrives : Drains results piece .again) (some : piece ≠ []) (c : Connection) :
    handleRead env [results] c = (stages env (c.more piece)).map called := by
  rw [handleRead,pass_stages arrives some]
  cases stages env (c.more piece) with
  | error fault => rfl
  | ok stage =>
    cases stage with
    | go d => rfl
    | leave finish d =>
      simp only [bind,Except.bind,Except.map,called]
      generalize afterLoop finish d = after
      obtain ⟨recurse,next⟩ := after
      cases recurse <;> rfl

theorem called_parsed (stage : Stage) : (called stage).responses = stage.connection.responses ∧
    (called stage).analysed = stage.connection.analysed ∧
      (called stage).inputBuffer = stage.connection.inputBuffer := by
  cases stage with
  | go d => exact afterLoop_parsed true d
  | leave finish d =>
    obtain ⟨responses,analysed,input⟩ := afterLoop_parsed finish d
    obtain ⟨responses',analysed',input'⟩ := afterLoop_parsed true (afterLoop finish d).2
    dsimp only [called,Stage.connection]
    split_ifs
    · exact ⟨responses'.trans responses,analysed'.trans analysed,input'.trans input⟩
    · exact ⟨responses,analysed,input⟩

theorem called_failed {stage : Stage} (failed : stage.connection.err = true) :
    called stage = stage.connection := by
  have stays : ∀ finish, afterLoop finish stage.connection = (false,stage.connection) := by
    intro finish
    simp [afterLoop,failed]
  cases stage with
  | go d => exact congrArg Prod.snd (stays true)
  | leave finish d =>
    have same : afterLoop finish d = (false,d) := stays finish
    simp [called,same,Stage.connection]

theorem Parses.grows {env : Env} {c : Connection} {stage : Stage} (parses : Parses env c stage) :
    c.analysed.length ≤ stage.connection.analysed.length ∧
      (c.err = true → stage.connection.err = true) := by
  cases parses with
  | waits => exact ⟨le_rfl,id⟩
  | refuses => exact ⟨le_rfl,fun _ => rfl⟩
  | answers _ _ _ _ _ _ _ analysed =>
    obtain ⟨noted,_,_,_,error⟩ := analysed.notes
    exact ⟨(congrArg List.length noted).symm ▸ by simp [Connection.parsed],fun failed => error.trans failed⟩
  | fails _ _ _ _ _ _ _ analysed =>
    obtain ⟨noted,_⟩ := analysed.notes
    exact ⟨(congrArg List.length noted).symm ▸ by simp [Connection.parsed],fun _ => rfl⟩
  | loops => exact ⟨le_rfl,id⟩

section Spoiled

variable {base c c' : Connection}

/-- A request was answered. -/
def Answered (base c : Connection) : Prop :=
  base.analysed.length < c.analysed.length ∧ base.responses.length < c.responses.length

/-- The connection will not come to rest with one request answered. -/
def Spoiled (base c : Connection) : Prop :=
  base.responses.length + 1 < c.responses.length ∨
    base.analysed.length + 1 < c.analysed.length ∨
    (c.state ≠ .parseRequestLine ∧ c.err = true) ∨
    (Answered base c ∧ (c.state ≠ .parseRequestLine ∨ c.inputBuffer ≠ []))

theorem Spoiled.unsettled {request : HttpRequest} {response : Bytes} {hState : HeaderParseState}
    {last : HttpRequest} (spoiled : Spoiled base c) :
    settled c ≠ (base.analysed ++ [request],base.responses ++ [response],[],.parseRequestLine,
      hState,last) := by
  intro same
  simp only [settled,Prod.mk.injEq] at same
  obtain ⟨analysed,responses,input,state,_⟩ := same
  rcases spoiled with more | more | ⟨moved,_⟩ | ⟨_,moved | left⟩
  · simp [responses] at more
  · simp [analysed] at more
  · exact moved state
  · exact moved state
  · exact left input

theorem called_true_state (d : Connection) : (called (.leave true d)).state = d.state := by
  obtain ⟨stops,state⟩ := afterLoop_true d
  simp [called,stops,state]

theorem Answered.call {env : Env} {piece : Bytes} {stage : Stage} (some : piece ≠ [])
    (one : Answered base c) (parses : Parses env c stage) (moves : Moves (c.more piece) stage) :
    Spoiled base (called stage) := by
  obtain ⟨analysed,responses⟩ := one
  obtain ⟨sameResponses,sameAnalysed,input⟩ := called_parsed stage
  cases parses with
  | waits b s h q =>
    refine .inr (.inr (.inr ⟨⟨?_,?_⟩,?_⟩))
    · rw [sameAnalysed]
      exact analysed
    · rw [sameResponses]
      exact responses
    · rcases moves with moved | ⟨same,_⟩
      · exact .inl ((called_true_state _).trans_ne moved)
      · right
        rw [input]
        show (c.parsed b s h q).inputBuffer ≠ []
        rw [same]
        simp [Connection.more,some]
  | refuses =>
    left
    rw [sameResponses]
    have grown : ∀ response, base.responses.length + 1 < (c.responses ++ [response]).length := by
      intro response
      simp only [List.length_append,List.length_singleton]
      omega
    exact grown _
  | answers _ _ _ _ _ _ _ answered =>
    right
    left
    rw [sameAnalysed]
    have noted := congrArg List.length answered.notes.1
    simp only [List.length_append,List.length_singleton] at noted
    exact (Nat.succ_lt_succ analysed).trans_eq noted.symm
  | fails _ _ _ _ _ _ _ answered =>
    right
    left
    rw [sameAnalysed]
    have noted := congrArg List.length answered.notes.1
    simp only [List.length_append,List.length_singleton] at noted
    exact (Nat.succ_lt_succ analysed).trans_eq noted.symm
  | loops =>
    refine .inr (.inr (.inr ⟨⟨?_,?_⟩,.inl ?_⟩))
    · rw [sameAnalysed]
      exact analysed
    · rw [sameResponses]
      exact responses
    · exact (afterLoop_true _).2.trans_ne moves

theorem Spoiled.call {env : Env} {results : List ReadResult} {piece : Bytes}
    (arrives : Drains results piece .again) (some : piece ≠ [])
    (before : Spoiled base c ∨ Answered base c)
    (handled : handleRead env [results] c = .ok c') : Spoiled base c' := by
  rw [handleRead_call arrives some] at handled
  cases staged : stages env (c.more piece) with
  | error fault => simp [staged,Except.map] at handled
  | ok stage =>
    rw [staged] at handled
    obtain rfl := Except.ok.inj handled
    have moves := stages_moves staged
    have parses : Parses env c stage := stages_parses staged
    obtain ⟨responses,analysed,input⟩ := called_parsed stage
    have answered := parses.adds.length
    obtain ⟨noted,error⟩ := parses.grows
    rw [← responses] at answered
    rw [← analysed] at noted
    rcases before with (more | more | ⟨moved,failed⟩ | ⟨one,_⟩) | one
    · exact .inl (by omega)
    · exact .inr (.inl (by omega))
    · have fails := error failed
      refine .inr (.inr (.inl ?_))
      rw [called_failed fails]
      refine ⟨?_,fails⟩
      cases stage with
      | go d => exact moves
      | leave finish d =>
        cases finish with
        | true => exact moves.elim id fun same => absurd same.2 moved
        | false => exact moves.elim id fun same => absurd same moved
    · exact one.call some parses moves
    · exact one.call some parses moves

theorem Spoiled.deliver {env : Env} {drains : List (List ReadResult)} {pieces : List Bytes}
    (arrives : List.Forall₂ (fun results piece => Drains results piece .again ∧ piece ≠ []) drains
      pieces) : ∀ {c c' : Connection}, Spoiled base c → deliver env drains c = .ok c' →
    Spoiled base c' := by
  induction arrives with
  | nil =>
    intro c c' spoiled delivered
    obtain rfl := Except.ok.inj delivered
    exact spoiled
  | cons first _ ih =>
    intro c c' spoiled delivered
    obtain ⟨next,handled,later⟩ := bind_success delivered
    exact ih (Spoiled.call first.1 first.2 (.inl spoiled) handled) later

end Spoiled

section Events

theorem handleWrite_events (c : Connection) (events : EventMask) :
    ∃ after, handleWrite {c with events := events} = {handleWrite c with events := after} := by
  unfold handleWrite
  dsimp only
  by_cases guard : (!c.err && c.isConnecting) = true
  · rw [if_pos guard,if_pos guard]
    split_ifs <;> exact ⟨_,rfl⟩
  · rw [if_neg guard,if_neg guard]
    exact ⟨_,rfl⟩

theorem afterLoop_events (finish : Bool) (c : Connection) (events : EventMask) :
    ∃ after, afterLoop finish {c with events := events} =
      ((afterLoop finish c).1,{(afterLoop finish c).2 with events := after}) := by
  obtain ⟨written,same⟩ := handleWrite_events c events
  unfold afterLoop
  dsimp only
  by_cases failed : c.err = true
  · rw [if_pos failed,if_pos failed]
    exact ⟨events,rfl⟩
  · rw [if_neg failed,if_neg failed]
    by_cases some : c.outputBuffer ≠ []
    · simp only [if_pos some,same]
      split_ifs <;> exact ⟨_,rfl⟩
    · simp only [if_neg some]
      split_ifs <;> exact ⟨_,rfl⟩

theorem called_events (finish : Bool) (c : Connection) (events : EventMask) :
    settled (called (.leave finish {c with events := events})) = settled (called (.leave finish c)) := by
  obtain ⟨once,same⟩ := afterLoop_events finish c events
  obtain ⟨twice,again⟩ := afterLoop_events true (afterLoop finish c).2 once
  simp only [called,same]
  split_ifs
  · rw [again]
    rfl
  · rfl

end Events

end Deon.Http
