import Deon.Http.Steps

/-! The socket carries the responses in order. A connection has two ways to send:
the output buffer, which `handleWrite` empties as far as the socket takes it, and
the direct `writen` of an error response. The first keeps the order by itself; the
second does only while nothing of an earlier response is waiting, and so does the
hello response, which replaces the output buffer. -/
namespace Deon.Http
open Library

/-- What the kernel took is a prefix of the responses decided so far, and without
an error the output buffer is exactly the rest. -/
def InOrder (c : Connection) : Prop :=
  c.overtook = false → c.miswrote = false →
    c.sent <+: c.responses.flatten ∧ (c.err = false → c.sent ++ c.outputBuffer = c.responses.flatten)

theorem sendRaw_complete {env : Env} {buff : Bytes} {c : Connection}
    (fine : (sendRaw env buff c).miswrote = false) :
    c.miswrote = false ∧ (sendRaw env buff c).sent = c.sent ++ buff := by
  obtain ⟨before,now⟩ : c.miswrote = false ∧
      (writenRaw env.below (c.writes.headD []) buff).failed = false := by
    simpa [sendRaw] using fine
  exact ⟨before,congrArg (c.sent ++ ·) (writenRaw_complete env.below _ buff now)⟩

theorem decideApart_idle {response : Bytes} {c : Connection}
    (apart : (decideApart response c).overtook = false) : c.sent = c.responses.flatten := by
  have both := Bool.or_eq_false_iff.mp apart
  exact Classical.not_not.mp (of_decide_eq_false both.2)

/-- An error response decided with nothing waiting is sent whole, behind all others. -/
theorem handleError_complete {env : Env} {errNum : Nat} {shortMsg : Bytes} {c : Connection}
    (apart : (handleError env errNum shortMsg c).overtook = false)
    (fine : (handleError env errNum shortMsg c).miswrote = false) :
    (handleError env errNum shortMsg c).sent = (handleError env errNum shortMsg c).responses.flatten := by
  have idle : c.sent = c.responses.flatten := @decideApart_idle [] c apart
  unfold handleError at fine ⊢
  dsimp only at fine ⊢
  obtain ⟨headerFine,body⟩ := sendRaw_complete fine
  obtain ⟨_,header⟩ := sendRaw_complete headerFine
  rw [body,header]
  simp [sendRaw,decideApart,idle]

theorem handleWrite_inOrder {c : Connection} (held : InOrder c) : InOrder (handleWrite c) := by
  unfold handleWrite
  split
  · rename_i guard
    have running : c.err = false := by simpa using (Bool.and_eq_true_iff.mp guard).1
    obtain ⟨taken,failed,splits,_,_⟩ := writen_spec (c.writes.headD []) c.outputBuffer
    dsimp only
    generalize writen (c.writes.headD []) c.outputBuffer = out at taken failed splits
    have written : InOrder {c with
        writes := c.writes.tail
        sent := c.sent ++ out.accepted
        outputBuffer := out.sbuff
        err := decide (out.ret < 0)
        blocked := c.blocked || decide (out.stopped = .again)} := by
      intro apart fine
      have whole := (held apart fine).2 running
      refine ⟨?_,fun noError => ?_⟩
      · rw [← whole]
        exact (List.prefix_append_right_inj c.sent).mpr taken
      · have kept := splits (fun ended => by simp [failed.mp ended] at noError)
        rw [← whole,← kept]
        exact List.append_assoc ..
    split
    · exact written
    · exact written
  · exact held

theorem Analysed.inOrder {env : Env} {c : Connection} {out : Int × Connection}
    (analysed : Analysed env c out) (held : InOrder c) :
    (out.1 = 0 → InOrder out.2) ∧ (out.1 ≠ 0 → InOrder {out.2 with err := true}) := by
  cases analysed with
  | answers keepAlive mime response some =>
    refine ⟨fun _ apart fine => ?_,fun nonzero => absurd rfl nonzero⟩
    obtain ⟨before,whole⟩ := held apart fine
    have joined : (c.responses ++ [response]).flatten = c.responses.flatten ++ response := by simp
    refine ⟨?_,fun noError => ?_⟩
    · exact (before.trans (List.prefix_append _ response)).trans (by rw [joined])
    · have kept := whole noError
      calc c.sent ++ (c.outputBuffer ++ response) = c.responses.flatten ++ response := by
            rw [← List.append_assoc,kept]
        _ = (c.responses ++ [response]).flatten := joined.symm
  | hello keepAlive mime =>
    refine ⟨fun _ apart _ => ?_,fun nonzero => absurd rfl nonzero⟩
    have idle : c.sent = c.responses.flatten := @decideApart_idle [] c apart
    have joined : c.sent ++ helloResponse = (c.responses ++ [helloResponse]).flatten := by
      simp [idle]
    refine ⟨?_,fun _ => joined⟩
    exact (List.prefix_append c.sent helloResponse).trans (by rw [joined]; exact List.prefix_rfl)
  | fails keepAlive mime part errNum shortMsg =>
    refine ⟨fun zero => absurd zero (by simp),fun _ apart fine => ?_⟩
    have complete := @handleError_complete env errNum shortMsg _ apart fine
    refine ⟨?_,fun noError => absurd noError (by simp)⟩
    exact complete ▸ List.prefix_rfl
  | drops =>
    refine ⟨fun zero => absurd zero (by simp),fun _ apart fine => ?_⟩
    exact ⟨(held apart fine).1,fun noError => absurd noError (by simp)⟩

/-- The step lemma: every way through a turn of the loop keeps the order. -/
theorem Parses.inOrder {env : Env} {c : Connection} {stage : Stage} (parses : Parses env c stage)
    (held : InOrder c) : InOrder stage.connection := by
  cases parses with
  | waits => exact held
  | refuses =>
    intro apart fine
    have complete := handleError_complete apart fine
    refine ⟨?_,fun noError => ?_⟩
    · exact complete ▸ List.prefix_rfl
    · exact Bool.noConfusion (show true = false from noError)
  | answers _ _ _ _ _ rc answer analysed => exact (analysed.inOrder held).1 answer
  | fails _ _ _ _ _ rc failure analysed => exact (analysed.inOrder held).2 failure
  | loops => exact held

theorem Leaves.inOrder {env : Env} {c : Connection} {stage : Stage} (leaves : Leaves env c stage)
    (held : InOrder c) : InOrder stage.connection := by
  cases leaves with
  | ends => exact held
  | parses parsed => exact parsed.inOrder held

theorem afterLoop_inOrder {c : Connection} (finish : Bool) (held : InOrder c) :
    InOrder (afterLoop finish c).2 := by
  have written : InOrder (flushed c) := flushed_keeps held (handleWrite_inOrder held)
  exact afterLoop_keeps (fun _ => held) (fun _ => written) (fun _ kept => kept) (fun _ kept => kept) finish

theorem handleRegister_inOrder {env : Env} {c : Connection} (held : InOrder c) :
    InOrder (handleRegister env c) := by
  unfold handleRegister
  dsimp only
  split
  · unfold updateChannel update
    split <;> exact held
  · exact held

theorem Dispatched.inOrder {c c' : Connection} {event : Event} (held : InOrder c)
    (dispatched : Dispatched c event c') : InOrder c' := by
  obtain ⟨middle,kept,rfl⟩ := dispatched.keeps InOrder
    (fun c stage before leaves => by
      have after := leaves.inOrder before
      cases stage with
      | go => exact after
      | leave finish => exact afterLoop_inOrder finish after)
    (fun _ => handleWrite_inOrder) held
  exact handleRegister_inOrder kept

/-- In every state of every run in which no error or hello response was decided with
an earlier response waiting, and no `write` of an error response failed, the socket
has received a prefix of the responses, and what is missing is what will be sent. -/
theorem sent_in_order {env : Env} {root : Bytes} {mime : MimeType} {events : List Event}
    {c : Connection}
    (run : Run Dispatched (registerHttp env (Connection.fresh root mime)) events c)
    (apart : c.overtook = false) (fine : c.miswrote = false) :
    c.sent <+: c.responses.flatten ∧
      (c.err = false → c.sent ++ c.outputBuffer = c.responses.flatten) := by
  have start : InOrder (registerHttp env (Connection.fresh root mime)) := by
    intro _ _
    unfold registerHttp addChannel update
    split <;> simp [Connection.fresh]
  exact run.invariant InOrder (fun _ _ _ held one => one.inOrder held) start apart fine

/-- A response that is cut short, and then a second request. -/
theorem sent_in_order_pipelined : ∃ c, Run Dispatched sampleStart
      [shortWrite,⟨sampleEnv,epollOut,[],[]⟩,
        ⟨sampleEnv,epollIn,[[.received sampleRequest]],[]⟩] c ∧
      c.sent <+: c.responses.flatten ∧ c.responses.length = 2 := by
  have played : ((perform next sampleStart [shortWrite,⟨sampleEnv,epollOut,[],[]⟩,
        ⟨sampleEnv,epollIn,[[.received sampleRequest]],[]⟩]).map
      fun c => (c.overtook,c.miswrote,c.responses.length)) = some (false,false,2) := by
    decide
  obtain ⟨c,played,same⟩ := Option.map_eq_some_iff.mp played
  simp only [Prod.mk.injEq] at same
  obtain ⟨apart,fine,two⟩ := same
  refine ⟨c,perform_run next_dispatched played,?_,two⟩
  exact (@sent_in_order sampleEnv _ _ _ _ (perform_run next_dispatched played) apart fine).1

/-- A bad request behind a response that is cut short: ten bytes of the response,
then the error response. -/
theorem error_overtakes_response : ¬ ∀ (env : Env) (root : Bytes) (mime : MimeType)
    (events : List Event) (c : Connection),
    Run Dispatched (registerHttp env (Connection.fresh root mime)) events c →
    c.sent <+: c.responses.flatten := by
  intro always
  have played : ((perform next sampleStart [⟨sampleEnv,epollIn,
        [[.received (sampleRequest ++ bytes "bad")],[.received crlf]],
        [[.accepted 10,.failed .eagain]]⟩]).map
      fun c => decide (c.sent <+: c.responses.flatten)) = some false := by decide +kernel
  obtain ⟨c,played,same⟩ := Option.map_eq_some_iff.mp played
  exact of_decide_eq_false same (always sampleEnv [] mimeType _ c (perform_run next_dispatched played))

end Deon.Http
