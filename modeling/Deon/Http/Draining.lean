import Deon.Http.Interest

/-! A connection whose output the socket did not take at once. It is armed for output, and a kernel
that reports what it is armed for lets it write the rest; but it is never armed for input again, so
that whatever its peer sends stays in the socket. -/
namespace Deon.Http
open Library

def epollErr : EventMask := 0x8#32
def epollHup : EventMask := 0x10#32

/-- What `epoll_wait` reports for a descriptor: the events it is armed for, and errors. -/
def Reports (c : Connection) (event : Event) : Prop :=
  ∃ mask, c.interest = some mask ∧ event.revents &&& ~~~(mask ||| epollErr ||| epollHup) = 0

/-- A dispatch of what the kernel reported. -/
def Reported (c : Connection) (event : Event) (c' : Connection) : Prop :=
  event.env.ctl = true ∧ Reports c event ∧ Dispatched c event c'

/-- The socket is writable, and the first `write` that is not interrupted takes something. -/
def yields (event : Event) : Bool :=
  writable event.revents && (writen (event.writes.headD []) [0]).stopped = .finished

/-- A registered connection that waits for output alone. -/
structure Deaf (c : Connection) : Prop where
  registered : c.channels = .held
  fine : c.err = false
  connected : c.isConnecting = true
  events : c.events = epollEt ||| epollOut
  interest : c.interest = some (epollEt ||| epollOut)

theorem writenLoop_grows (size : Nat) (results : List WriteResult) :
    ∀ writeSum, writeSum ≤ (writenLoop size results writeSum).2 ∨
      size ≤ (writenLoop size results writeSum).2 := by
  induction results with
  | nil => exact fun _ => .inr (Nat.le_refl _)
  | cons result results ih =>
    intro writeSum
    cases result with
    | accepted count =>
      rw [writenLoop]
      split
      · exact .inl (Nat.le_refl _)
      · exact (ih (writeSum + min count (size - writeSum))).imp_left
          (Nat.le_trans (Nat.le_add_right ..))
    | failed errno =>
      cases errno with
      | eintr =>
        rw [writenLoop]
        split
        · exact .inl (Nat.le_refl _)
        · exact ih writeSum
      | eagain =>
        rw [writenLoop]
        split <;> exact .inl (Nat.le_refl _)
      | other =>
        rw [writenLoop]
        split <;> exact .inl (Nat.le_refl _)

/-- What takes one byte takes at least one of more. -/
theorem writenLoop_takes {size : Nat} (some : 0 < size) {results : List WriteResult}
    (takes : (writenLoop 1 results 0).1 = .finished) : 0 < (writenLoop size results 0).2 := by
  induction results with
  | nil => exact some
  | cons result results ih =>
    cases result with
    | accepted count =>
      rw [writenLoop,if_neg (by decide)] at takes
      rw [writenLoop,if_neg (by omega)]
      rcases Nat.eq_zero_or_pos count with rfl | positive
      · simp only [Nat.zero_min,Nat.add_zero] at takes ⊢
        exact ih takes
      · have grows := writenLoop_grows size results (0 + min count (size - 0))
        omega
    | failed errno =>
      cases errno with
      | eintr =>
        rw [writenLoop,if_neg (by decide)] at takes
        rw [writenLoop,if_neg (by omega)]
        exact ih takes
      | eagain =>
        rw [writenLoop,if_neg (by decide)] at takes
        cases takes
      | other =>
        rw [writenLoop,if_neg (by decide)] at takes
        cases takes

theorem yields_takes {event : Event} (given : yields event = true) {sbuff : Bytes} (some : sbuff ≠ []) :
    (writen (event.writes.headD []) sbuff).sbuff.length < sbuff.length ∨
      (writen (event.writes.headD []) sbuff).ret < 0 := by
  obtain ⟨_,takes⟩ := Bool.and_eq_true_iff.mp given
  have finished : (writenLoop 1 (event.writes.headD []) 0).1 = .finished := by
    have one := of_decide_eq_true takes
    unfold writen at one
    rw [List.length_singleton] at one
    generalize writenLoop 1 (event.writes.headD []) 0 = out at one
    obtain ⟨stopped,writeSum⟩ := out
    cases stopped <;> first | rfl | cases one
  have size : 0 < sbuff.length := List.length_pos_iff.mpr some
  have taken := writenLoop_takes size finished
  unfold writen
  generalize writenLoop sbuff.length (event.writes.headD []) 0 = out at taken
  obtain ⟨stopped,writeSum⟩ := out
  cases stopped with
  | failed => exact .inr (by simp)
  | _ =>
    left
    dsimp only at taken ⊢
    split
    · exact size
    · rw [List.length_drop]
      omega

variable {c c' : Connection} {event : Event}

/-- The kernel reports no input to a connection that is not armed for it. -/
theorem Deaf.unread (deaf : Deaf c) (reports : Reports c event) : readable event.revents = false := by
  obtain ⟨mask,interest,within⟩ := reports
  obtain rfl := Option.some.inj (deaf.interest.symm.trans interest)
  have outside : epollIn ||| epollPri ||| epollRdhup =
      ~~~(epollEt ||| epollOut ||| epollErr ||| epollHup) &&& (epollIn ||| epollPri ||| epollRdhup) := by
    decide
  have none : event.revents &&& (epollIn ||| epollPri ||| epollRdhup) = 0 := by
    rw [outside,← BitVec.and_assoc,within]
    exact BitVec.zero_and
  unfold readable
  rw [none]
  decide

/-- What was read and answered is not touched; what is to be sent goes on in order, and the
connection stays as deaf as it was or a `write` has failed. `n` events in between have yielded. -/
structure Emptying (c : Connection) (n : Nat) (c' : Connection) : Prop where
  analysed : c'.analysed = c.analysed
  input : c'.inputBuffer = c.inputBuffer
  responses : c'.responses = c.responses
  sent : c'.sent <+: c.sent ++ c.outputBuffer
  goes : c'.err = false → Deaf c' ∧ c'.sent ++ c'.outputBuffer = c.sent ++ c.outputBuffer ∧
    (c'.outputBuffer = [] ∨ c'.outputBuffer.length + n ≤ c.outputBuffer.length)
  closed : c'.err = true → c'.channels = .null

theorem Emptying.stays (deaf : Deaf c) : Emptying c 0 c where
  analysed := rfl
  input := rfl
  responses := rfl
  sent := List.prefix_append _ _
  goes _ := ⟨deaf,rfl,.inr (Nat.le_refl _)⟩
  closed failed := by simp [deaf.fine] at failed

theorem Emptying.trans {d : Connection} {n m : Nat} (one : Emptying c n c') (fine : c'.err = false)
    (other : Emptying c' m d) : Emptying c (n + m) d := by
  obtain ⟨_,whole,shorter⟩ := one.goes fine
  refine ⟨other.analysed.trans one.analysed,other.input.trans one.input,
    other.responses.trans one.responses,whole ▸ other.sent,fun running => ?_,other.closed⟩
  obtain ⟨deaf,rest,further⟩ := other.goes running
  refine ⟨deaf,rest.trans whole,?_⟩
  rcases further with empty | less
  · exact .inl empty
  · rcases shorter with none | before
    · rw [none,List.length_nil] at less
      exact .inl (List.eq_nil_of_length_eq_zero (by omega))
    · exact .inr (by omega)

/-- Re-registering for output alone, or closing. -/
theorem handleRegister_deaf {env : Env} {d : Connection} (ctl : env.ctl = true)
    (registered : d.channels = .held) (connected : d.isConnecting = true)
    (armed : d.events &&& epollOut ≠ 0) :
    (d.err = false → Deaf (handleRegister env d)) ∧
      (d.err = true → (handleRegister env d).channels = .null) := by
  constructor
  · intro fine
    unfold handleRegister updateChannel update
    simp only [fine,connected,armed,ctl,Bool.not_false,Bool.and_self,if_true,ne_eq,
      not_false_eq_true]
    exact ⟨registered,rfl,rfl,rfl,rfl⟩
  · intro failed
    simp [handleRegister,failed,deleteChannel]

theorem handleRegister_parsed (env : Env) (d : Connection) :
    (handleRegister env d).analysed = d.analysed ∧ (handleRegister env d).inputBuffer = d.inputBuffer ∧
      (handleRegister env d).responses = d.responses ∧ (handleRegister env d).sent = d.sent ∧
      (handleRegister env d).outputBuffer = d.outputBuffer ∧ (handleRegister env d).err = d.err := by
  unfold handleRegister updateChannel update deleteChannel
  dsimp only
  split
  · split <;> exact ⟨rfl,rfl,rfl,rfl,rfl,rfl⟩
  · exact ⟨rfl,rfl,rfl,rfl,rfl,rfl⟩

theorem Emptying.register {env : Env} {d : Connection} {n : Nat} (ctl : env.ctl = true)
    (registered : d.channels = .held) (connected : d.isConnecting = true)
    (armed : d.events &&& epollOut ≠ 0) (analysed : d.analysed = c.analysed)
    (input : d.inputBuffer = c.inputBuffer) (responses : d.responses = c.responses)
    (sent : d.sent <+: c.sent ++ c.outputBuffer)
    (goes : d.err = false → d.sent ++ d.outputBuffer = c.sent ++ c.outputBuffer ∧
      (d.outputBuffer = [] ∨ d.outputBuffer.length + n ≤ c.outputBuffer.length)) :
    Emptying c n (handleRegister env d) := by
  obtain ⟨sameAnalysed,sameInput,sameResponses,sameSent,sameOutput,sameErr⟩ :=
    handleRegister_parsed env d
  obtain ⟨stays,closes⟩ := handleRegister_deaf ctl registered connected armed
  refine ⟨sameAnalysed.trans analysed,sameInput.trans input,sameResponses.trans responses,
    sameSent ▸ sent,fun fine => ?_,fun failed => closes (sameErr ▸ failed)⟩
  have running : d.err = false := sameErr ▸ fine
  rw [sameSent,sameOutput]
  exact ⟨stays running,goes running⟩

theorem Deaf.dispatched (deaf : Deaf c) (reported : Reported c event c') :
    Emptying c (if yields event then 1 else 0) c' := by
  obtain ⟨ctl,reports,_,handled⟩ := reported
  have armed : (epollEt ||| epollOut) &&& epollOut ≠ 0 := by decide
  unfold handleEvents at handled
  dsimp only at handled
  rw [if_neg (by simp [deaf.unread reports])] at handled
  obtain rfl := Except.ok.inj handled
  by_cases writes : writable event.revents = true
  · rw [if_pos writes,@handleWrite_running {c with writes := event.writes} deaf.fine deaf.connected]
    obtain ⟨taken,failed,splits,_,_⟩ := writen_spec (event.writes.headD []) c.outputBuffer
    refine .register ctl deaf.registered deaf.connected ?_ rfl rfl rfl ?_ ?_
    · dsimp only
      rw [deaf.events]
      split
      · exact addEvents_out _
      · exact armed
    · exact (List.prefix_append_right_inj c.sent).mpr taken
    · intro fine
      have running : ¬ (writen (event.writes.headD []) c.outputBuffer).ret < 0 :=
        of_decide_eq_false fine
      have whole := splits fun ended => running (failed.mp ended)
      refine ⟨?_,?_⟩
      · dsimp only
        rw [List.append_assoc,whole]
      · dsimp only
        by_cases empty : c.outputBuffer = []
        · rw [empty] at whole ⊢
          exact .inl (List.append_eq_nil_iff.mp whole).2
        · right
          split
          · rename_i given
            have less := (yields_takes given empty).resolve_right running
            omega
          · have lengths := congrArg List.length whole
            rw [List.length_append] at lengths
            omega
  · have quiet : yields event = false := by simp [yields,writes]
    rw [if_neg writes,quiet]
    refine .register ctl deaf.registered deaf.connected ?_ rfl rfl rfl (List.prefix_append _ _) ?_
    · dsimp only
      rw [deaf.events]
      exact armed
    · exact fun _ => ⟨rfl,.inr (Nat.le_refl _)⟩

theorem Deaf.run {events : List Event} (deaf : Deaf c) (run : Run Reported c events c') :
    Emptying c (events.countP yields) c' := by
  induction run with
  | nil => exact .stays deaf
  | @cons c middle c' event events first rest ih =>
    have one := deaf.dispatched first
    cases running : middle.err with
    | false =>
      have counted : (event :: events).countP yields =
          (if yields event then 1 else 0) + events.countP yields := by
        rw [List.countP_cons,Nat.add_comm]
      rw [counted]
      exact one.trans running (ih (one.goes running).1)
    | true =>
      -- a closed connection is dispatched no more
      have closed := one.closed running
      cases rest with
      | nil => exact ⟨one.analysed,one.input,one.responses,one.sent,
          fun fine => absurd (running.symm.trans fine) nofun,one.closed⟩
      | cons next _ =>
        have registered := next.2.2.1
        rw [closed] at registered
        cases registered

/-- Once a `write` of the output buffer has answered `EAGAIN`, in every run of what the kernel
reports: no request is read or answered any more; the rest of the output goes out in order, and is
gone at the latest when as many writes as it has bytes have taken something, unless one fails. -/
theorem blocked_drains {env : Env} {root : Bytes} {mime : MimeType} {before after : List Event}
    (ctl : env.ctl = true) (ctls : ∀ event ∈ before, event.env.ctl = true)
    (run : Run Dispatched (registerHttp env (Connection.fresh root mime)) before c)
    (registered : c.channels = .held) (blocked : c.blocked = true)
    (later : Run Reported c after c') :
    c'.analysed = c.analysed ∧ c'.inputBuffer = c.inputBuffer ∧ c'.responses = c.responses ∧
      c'.sent <+: c.sent ++ c.outputBuffer ∧
      (c'.err = false → ¬ Listening c' ∧ c'.sent ++ c'.outputBuffer = c.sent ++ c.outputBuffer ∧
        (c.outputBuffer.length ≤ after.countP yields → c'.outputBuffer = [])) := by
  have start : Registered (registerHttp env (Connection.fresh root mime)) := by
    simp [Registered,Pending,registerHttp,addChannel,update,ctl,Connection.fresh]
  obtain ⟨_,running⟩ := run.invariant Registered (fun _ _ _ held one => one.registered held) start
  obtain ⟨fine,connected⟩ := running registered
  obtain ⟨_,armed⟩ := run_armed ctl ctls run
  obtain ⟨interest,out,_⟩ := armed registered
  have deaf : Deaf c := ⟨registered,fine,connected,out blocked,(out blocked) ▸ interest⟩
  obtain ⟨analysed,input,responses,sent,goes,_⟩ := deaf.run later
  refine ⟨analysed,input,responses,sent,fun alive => ?_⟩
  obtain ⟨still,whole,shorter⟩ := goes alive
  refine ⟨?_,whole,fun enough => shorter.elim id fun less => ?_⟩
  · rintro ⟨mask,same,hears,_⟩
    obtain rfl := Option.some.inj (same.symm.trans still.interest)
    exact absurd hears (by decide)
  · exact List.eq_nil_of_length_eq_zero (by omega)

/-- The rest of the response is taken while the peer has sent a second request. -/
def restWrite : Event := ⟨sampleEnv,epollOut ||| epollErr,[[.received sampleRequest]],[[.accepted 200]]⟩

theorem blocked_drains_sample : ∃ c c', Run Dispatched sampleStart [shortWrite] c ∧
    Run Reported c [restWrite] c' ∧ c'.analysed = c.analysed ∧
    c'.sent <+: c.sent ++ c.outputBuffer ∧ (c'.err = false → ¬ Listening c') := by
  have both : (perform next sampleStart [shortWrite,restWrite]).isSome = true := by decide
  obtain ⟨c',done⟩ := Option.isSome_iff_exists.mp both
  obtain ⟨c,first,rest⟩ := Option.bind_eq_some_iff.mp done
  obtain ⟨d,second,same⟩ := Option.bind_eq_some_iff.mp rest
  cases same
  have seen : (next sampleStart shortWrite).map (fun c => (c.channels,c.blocked,c.interest)) =
      some (.held,true,some (epollEt ||| epollOut)) := by decide
  rw [first,Option.map_some,Option.some.injEq,Prod.mk.injEq,Prod.mk.injEq] at seen
  obtain ⟨registered,blocked,interest⟩ := seen
  have run : Run Dispatched sampleStart [shortWrite] c := .cons (next_dispatched _ _ _ first) (.nil c)
  have later : Run Reported c [restWrite] c' :=
    .cons ⟨rfl,⟨_,interest,by decide⟩,next_dispatched _ _ _ second⟩ (.nil c')
  obtain ⟨analysed,_,_,sent,deaf⟩ :=
    @blocked_drains c c' sampleEnv [] mimeType [shortWrite] [restWrite] rfl (by simp [shortWrite,sampleEnv])
      run registered blocked later
  exact ⟨c,c',run,later,analysed,sent,fun fine => (deaf fine).1⟩

end Deon.Http
