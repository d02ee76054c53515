import Deon.Http.Complete

/-! What becomes of a connection whose peer closes its side. `readn` reports the
bytes and the end of the stream together, and `handleRead` looks at the end first:
it neither parses what came before nor lets `handleWrite` send what is waiting. -/
namespace Deon.Http
open Library

/-- What the peer has been sent or, unless the channel was deleted, is going to be sent. -/
def promised (c : Connection) : Bytes :=
  c.sent ++ if c.channels = .null then [] else c.outputBuffer

/-- One dispatch sends what was waiting and the response. -/
def Answers (event : Event) (c : Connection) (response : Bytes) : Prop :=
  ∃ c', handleEvents event c = .ok c' ∧ c.sent ++ c.outputBuffer ++ response <+: c'.sent

/-- After one dispatch everything in front of the end of the output buffer of `middle`
is sent or is still going to be sent. -/
def Keeps (event : Event) (c middle : Connection) : Prop :=
  ∃ c', handleEvents event c = .ok c' ∧ middle.sent ++ middle.outputBuffer <+: promised c'

theorem handleWrite_closed {c : Connection} (closed : c.isConnecting = false) : handleWrite c = c := by
  simp [handleWrite,closed]

theorem handleRegister_closed {env : Env} {c : Connection} (closed : c.isConnecting = false) :
    (handleRegister env c).sent = c.sent ∧ (handleRegister env c).channels = .null := by
  simp [handleRegister,closed,deleteChannel]

theorem afterLoop_closed {c : Connection} (closed : c.isConnecting = false) (finish : Bool) :
    (afterLoop finish c).1 = false ∧ (afterLoop finish c).2.sent = c.sent ∧
      (afterLoop finish c).2.isConnecting = false := by
  unfold afterLoop
  rw [handleWrite_closed closed,ite_self]
  dsimp only [initParse]
  split_ifs <;> simp [closed]

theorem handleRead_eof {env : Env} {results : List ReadResult} {text : Bytes}
    (ended : Drains results text .eof) (drains : List (List ReadResult)) (c : Connection) :
    ∃ c', handleRead env (results :: drains) c = .ok c' ∧ c'.sent = c.sent ∧
      c'.isConnecting = false := by
  have passed : pass env results c = .ok (.leave false
      {c with inputBuffer := c.inputBuffer ++ text,isConnecting := false}) := by
    simp [pass,readn_drains ended]
  have left := afterLoop_closed
    (c := {c with inputBuffer := c.inputBuffer ++ text,isConnecting := false}) rfl false
  exact ⟨_,handleRead_once passed left.1 drains,left.2⟩

/-- An event whose `handleRead`, or a call that it makes of itself, reads up to the end
of the stream: nothing more is sent, and the channel is removed. -/
theorem handleEvents_eof {event : Event} {before after : List (List ReadResult)}
    {results : List ReadResult} {text : Bytes} {c middle : Connection}
    (reads : readable event.revents = true) (drains : event.drains = before ++ results :: after)
    (calls : recalled event.env before {c with writes := event.writes} = some middle)
    (ended : Drains results text .eof) :
    ∃ c', handleEvents event c = .ok c' ∧ c'.sent = middle.sent ∧ c'.channels = .null := by
  obtain ⟨read,handled,sent,closed⟩ := @handleRead_eof event.env _ _ ended after middle
  rw [← handleRead_recalled calls,← drains] at handled
  obtain ⟨same,removed⟩ := @handleRegister_closed event.env _ closed
  refine ⟨handleRegister event.env read,?_,same.trans sent,removed⟩
  unfold handleEvents
  simp only [reads,if_true,handled,bind,Except.bind,handleWrite_closed closed,ite_self]
  rfl

theorem handleWrite_accepted {c : Connection} (running : c.err = false)
    (connected : c.isConnecting = true)
    (accepts : (writen (c.writes.headD []) c.outputBuffer).stopped ≠ .failed) :
    (handleWrite c).sent ++ (handleWrite c).outputBuffer = c.sent ++ c.outputBuffer ∧
      (handleWrite c).err = false ∧ (handleWrite c).isConnecting = true ∧
      (handleWrite c).channels = c.channels := by
  obtain ⟨_,failed,splits,_,_⟩ := writen_spec (c.writes.headD []) c.outputBuffer
  have kept := splits accepts
  have fine : ¬ (writen (c.writes.headD []) c.outputBuffer).ret < 0 :=
    fun negative => accepts (failed.mpr negative)
  rw [handleWrite_running running connected]
  exact ⟨by rw [List.append_assoc,kept],decide_eq_false fine,connected,rfl⟩

theorem handleRegister_alive {env : Env} {c : Connection} (running : c.err = false)
    (connected : c.isConnecting = true) (registered : c.channels = .held) :
    promised (handleRegister env c) = c.sent ++ c.outputBuffer := by
  unfold handleRegister updateChannel update
  simp only [running,connected,Bool.not_false,Bool.and_self,if_true]
  cases env.ctl <;> simp [promised,registered]

/-- While the socket accepts writes, an event that does not run the read callback loses
nothing that is waiting. -/
theorem handleEvents_unread {event : Event} {c : Connection} (running : c.err = false)
    (connected : c.isConnecting = true) (registered : c.channels = .held)
    (accepts : (writen (event.writes.headD []) c.outputBuffer).stopped ≠ .failed)
    (unread : readable event.revents = false) :
    ∃ c', handleEvents event c = .ok c' ∧ promised c' = c.sent ++ c.outputBuffer := by
  unfold handleEvents
  simp only [unread,Bool.false_eq_true,if_false,pure_bind]
  refine ⟨_,rfl,?_⟩
  split
  · obtain ⟨kept,fine,alive,same⟩ :=
      handleWrite_accepted (c := {c with writes := event.writes}) running connected accepts
    rw [handleRegister_alive fine alive (same.trans registered)]
    exact kept
  · exact handleRegister_alive (c := {c with writes := event.writes}) running connected registered

/-- A request that the end of the stream follows in the same drain is never answered,
and what is waiting survives exactly as long as the end of the stream is not read:
the event does not run the read callback, or nothing is waiting in the call of
`handleRead` that reads it. -/
theorem half_close (event : Event) (c : Connection) :
    (∀ (text response : Bytes) (request : HttpRequest) (results : List ReadResult)
      (later : List (List ReadResult)),
      Complete event.env c text request response → readable event.revents = true →
      event.drains = results :: later → Drains results text .eof → ¬ Answers event c response) ∧
    (∀ (middle : Connection) (before later : List (List ReadResult)) (results : List ReadResult)
      (text : Bytes),
      event.drains = before ++ results :: later → Drains results text .eof →
      recalled event.env before {c with writes := event.writes} = some middle →
      readable event.revents = true → (Keeps event c middle ↔ middle.outputBuffer = [])) ∧
    (c.err = false → c.isConnecting = true → c.channels = .held →
      (writen (event.writes.headD []) c.outputBuffer).stopped ≠ .failed →
      readable event.revents = false → Keeps event c c) := by
  refine ⟨?_,?_,?_⟩
  · intro text response request results later complete reads first ended
    rintro ⟨c',handled,answered⟩
    obtain ⟨after,returned,sent,_⟩ := @handleEvents_eof event [] _ _ _ c _ reads first rfl ended
    obtain rfl := Except.ok.inj (handled.symm.trans returned)
    have some := complete.response_ne
    have longer : 0 < response.length := List.length_pos_iff.mpr some
    have short := answered.length_le
    rw [sent] at short
    simp only [List.length_append] at short
    omega
  · intro middle before later results text drains ended calls reads
    obtain ⟨after,returned,sent,removed⟩ := handleEvents_eof reads drains calls ended
    constructor
    · rintro ⟨c',handled,kept⟩
      obtain rfl := Except.ok.inj (handled.symm.trans returned)
      have short := kept.length_le
      simp only [promised,removed,if_true,sent,List.append_nil,List.length_append] at short
      exact List.length_eq_zero_iff.mp (by omega)
    · intro empty
      exact ⟨after,returned,by simp [promised,removed,sent,empty]⟩
  · intro running connected registered accepts unread
    obtain ⟨c',handled,same⟩ := handleEvents_unread running connected registered accepts unread
    exact ⟨c',handled,same ▸ List.prefix_rfl⟩

/-- The request and the end of the stream. -/
def closedBehind : Event := ⟨sampleEnv,epollIn,[[.received sampleRequest,.received []]],[]⟩

/-- A request and the first byte of another, a short write of the response, and the end
of the stream. -/
def closedWaiting : Event :=
  ⟨sampleEnv,epollIn,[[.received (sampleRequest ++ bytes "G")],[.received []]],
    [[.accepted 10,.failed .eagain]]⟩

theorem half_close_sample : ¬ Answers closedBehind sampleStart sampleResponse :=
  (half_close closedBehind sampleStart).1 sampleRequest sampleResponse sampleParsed
    [.received sampleRequest,.received []] [] sample_complete rfl rfl
    (.chunk 71 _ (.eof []))

theorem waiting_recalled : ∃ middle,
    recalled sampleEnv [[.received (sampleRequest ++ bytes "G")]]
      {sampleStart with writes := closedWaiting.writes} = some middle ∧ middle.outputBuffer ≠ [] := by
  have calls : ((recalled sampleEnv [[.received (sampleRequest ++ bytes "G")]]
      {sampleStart with writes := closedWaiting.writes}).map fun c => decide (c.outputBuffer ≠ [])) =
      some true := by decide
  obtain ⟨middle,calls,some⟩ := Option.map_eq_some_iff.mp calls
  exact ⟨middle,calls,of_decide_eq_true some⟩

/-- Neither the request in front of the end of the stream is answered, nor is the rest of
a response sent that is waiting when the end of the stream is read. -/
theorem lost_on_half_close :
    (¬ ∀ (event : Event) (c : Connection) (text response : Bytes) (request : HttpRequest)
      (results : List ReadResult) (later : List (List ReadResult)),
      Complete event.env c text request response → readable event.revents = true →
      event.drains = results :: later → Drains results text .eof → Answers event c response) ∧
    ¬ ∀ (event : Event) (c middle : Connection) (before later : List (List ReadResult))
      (results : List ReadResult) (text : Bytes),
      event.drains = before ++ results :: later → Drains results text .eof →
      recalled event.env before {c with writes := event.writes} = some middle →
      readable event.revents = true → middle.outputBuffer ≠ [] → Keeps event c middle := by
  constructor
  · intro always
    have answered := always closedBehind sampleStart sampleRequest sampleResponse sampleParsed
      [.received sampleRequest,.received []] [] sample_complete rfl rfl (.chunk 71 _ (.eof []))
    obtain ⟨c',handled,answered⟩ := answered
    obtain ⟨after,returned,sent,_⟩ := @handleEvents_eof closedBehind [] _ _ _ sampleStart _ rfl rfl rfl
      (.chunk 71 _ (.eof []))
    obtain rfl := Except.ok.inj (handled.symm.trans returned)
    rw [sent] at answered
    exact absurd answered (by decide)
  · intro always
    obtain ⟨middle,calls,some⟩ := waiting_recalled
    obtain ⟨c',handled,kept⟩ := always closedWaiting sampleStart middle
      [[.received (sampleRequest ++ bytes "G")]] [] [.received []] [] rfl (.eof []) calls rfl some
    obtain ⟨after,returned,sent,removed⟩ := @handleEvents_eof closedWaiting _ _ _ _ sampleStart _ rfl rfl
      calls (.eof [])
    obtain rfl := Except.ok.inj (handled.symm.trans returned)
    have short := kept.length_le
    simp only [promised,removed,if_true,sent,List.append_nil,List.length_append] at short
    exact some (List.length_eq_zero_iff.mp (by omega))

end Deon.Http
