import Deon.Http.Steps

/-! Which events a connection that stays registered is armed for. The mask that
`handleRegister` arms depends on one bit of `events_`, the write interest, and
nothing ever takes that bit away: it is set by the first `write` of the output
buffer that answers `EAGAIN`, and it stays. -/
namespace Deon.Http
open Library

/-- The mask armed in the poller asks for input and not for output. -/
def Listening (c : Connection) : Prop :=
  ∃ mask, c.interest = some mask ∧ mask &&& epollIn ≠ 0 ∧ mask &&& epollOut = 0

/-- While there is no error, `events_` has the write interest exactly when a
`write` of the output buffer has answered `EAGAIN`. -/
def WriteInterest (c : Connection) : Prop :=
  c.err = false → (c.events &&& epollOut ≠ 0 ↔ c.blocked = true)

theorem addEvents_in (events : EventMask) :
    (events ||| epollIn) &&& epollOut = events &&& epollOut := by
  rw [BitVec.and_or_distrib_right]
  have none : epollIn &&& epollOut = 0#32 := by decide
  rw [none,BitVec.or_zero]

theorem addEvents_out (events : EventMask) : (events ||| epollOut) &&& epollOut ≠ 0 := by
  rw [BitVec.and_or_distrib_right,BitVec.and_self]
  intro zero
  have clear := (BitVec.or_eq_zero_iff.mp zero).2
  exact absurd clear (by decide)

theorem handleWrite_interest {c : Connection} (held : WriteInterest c) :
    WriteInterest (handleWrite c) := by
  unfold handleWrite
  split
  · rename_i guard
    have fine : c.err = false := by simpa using (Bool.and_eq_true_iff.mp guard).1
    have before := held fine
    obtain ⟨_,failed,_,finished,again⟩ := writen_spec (c.writes.headD []) c.outputBuffer
    dsimp only
    generalize writen (c.writes.headD []) c.outputBuffer = out at failed finished again
    cases ended : out.stopped with
    | finished =>
      simp only [finished ended,ne_eq,not_true_eq_false,if_false]
      intro _
      simpa [ended] using before
    | again =>
      simp only [again ended,ne_eq,not_false_eq_true,if_true]
      intro _
      exact ⟨fun _ => by simp,fun _ => addEvents_out c.events⟩
    | failed =>
      have negative := failed.mp ended
      split <;> intro noError <;> simp [negative] at noError
  · exact held

theorem Parses.interest {env : Env} {c : Connection} {stage : Stage} (parses : Parses env c stage)
    (held : WriteInterest c) : WriteInterest stage.connection := by
  cases parses with
  | waits => exact held
  | refuses => exact fun noError => Bool.noConfusion (show true = false from noError)
  | answers _ _ _ _ _ rc answer analysed => cases analysed <;> exact held
  | fails => exact fun noError => Bool.noConfusion (show true = false from noError)
  | loops => exact held

theorem Leaves.interest {env : Env} {c : Connection} {stage : Stage} (leaves : Leaves env c stage)
    (held : WriteInterest c) : WriteInterest stage.connection := by
  cases leaves with
  | ends => exact held
  | parses parsed => exact parsed.interest held

theorem afterLoop_interest {c : Connection} (finish : Bool) (held : WriteInterest c) :
    WriteInterest (afterLoop finish c).2 := by
  have written : WriteInterest (flushed c) := flushed_keeps held (handleWrite_interest held)
  refine afterLoop_keeps (fun _ => held) (fun _ => written) ?_ (fun _ kept => kept) finish
  intro d kept noError
  have same := kept noError
  simpa only [addEvents_in] using same

/-- What a registered connection is armed for, between two dispatches. -/
def Armed (c : Connection) : Prop :=
  WriteInterest c ∧ (c.channels = .held → c.interest = some c.events ∧
    (c.blocked = true → c.events = epollEt ||| epollOut) ∧
    (c.blocked = false → c.events = epollIn ||| epollEt ||| epollOneshot ∨
      c.events = epollEt ||| epollIn))

theorem registerHttp_armed (env : Env) (ctl : env.ctl = true) (root : Bytes) (mime : MimeType) :
    Armed (registerHttp env (Connection.fresh root mime)) := by
  have clear : (epollIn ||| epollEt ||| epollOneshot) &&& epollOut = 0 := by decide
  simp [Armed,WriteInterest,registerHttp,addChannel,update,ctl,Connection.fresh,clear]

/-- The mask is rebuilt from the write interest alone. -/
theorem handleRegister_armed {env : Env} {c : Connection} (ctl : env.ctl = true)
    (held : WriteInterest c) : Armed (handleRegister env c) := by
  unfold handleRegister
  dsimp only
  split
  · rename_i guard
    have fine : c.err = false := by simpa using (Bool.and_eq_true_iff.mp guard).1
    have bit := held fine
    simp only [Armed,WriteInterest,updateChannel,update,ctl,if_true]
    cases seen : c.blocked with
    | true =>
      have set := bit.mpr seen
      simp only [ne_eq,set,not_false_eq_true,if_true]
      exact ⟨fun _ => by decide,by simp⟩
    | false =>
      have clear : ¬ c.events &&& epollOut ≠ 0 := fun set => by simp [bit.mp set] at seen
      simp only [clear,if_false]
      exact ⟨fun _ => by decide,by simp⟩
  · exact ⟨held,by simp [deleteChannel]⟩

theorem Dispatched.armed {c c' : Connection} {event : Event} (ctl : event.env.ctl = true)
    (held : Armed c) (dispatched : Dispatched c event c') : Armed c' := by
  obtain ⟨middle,kept,rfl⟩ := dispatched.keeps WriteInterest
    (fun c stage before leaves => by
      have after := leaves.interest before
      cases stage with
      | go => exact after
      | leave finish => exact afterLoop_interest finish after)
    (fun _ => handleWrite_interest) held.1
  exact handleRegister_armed ctl kept

theorem run_armed {env : Env} {root : Bytes} {mime : MimeType} {events : List Event}
    {c : Connection} (ctl : env.ctl = true) (ctls : ∀ event ∈ events, event.env.ctl = true)
    (run : Run Dispatched (registerHttp env (Connection.fresh root mime)) events c) : Armed c :=
  run.invariant_of Armed (fun event => event.env.ctl = true)
    (fun _ _ _ held ctl one => one.armed ctl held) ctls (registerHttp_armed env ctl root mime)

/-- A connection that is still registered, with bytes left to send or without,
listens for input exactly as long as no `write` of its output buffer has answered
`EAGAIN`. -/
theorem listening_iff {env : Env} {root : Bytes} {mime : MimeType} {events : List Event}
    {c : Connection} (ctl : env.ctl = true) (ctls : ∀ event ∈ events, event.env.ctl = true)
    (run : Run Dispatched (registerHttp env (Connection.fresh root mime)) events c)
    (registered : c.channels = .held) :
    Listening c ↔ c.blocked = false := by
  obtain ⟨_,armed⟩ := run_armed ctl ctls run
  obtain ⟨interest,blocked,clear⟩ := armed registered
  constructor
  · rintro ⟨mask,same,input,output⟩
    obtain rfl := Option.some.inj (same.symm.trans interest)
    by_contra seen
    rw [blocked (by simpa using seen)] at input
    exact absurd input (by decide)
  · intro none
    refine ⟨c.events,interest,?_⟩
    rcases clear none with mask | mask <;> rw [mask] <;> decide

theorem listening_after_request : ∃ c, Run Dispatched sampleStart
      [⟨sampleEnv,epollIn,[[.received sampleRequest]],[]⟩] c ∧ Listening c := by
  have played : ((perform next sampleStart [⟨sampleEnv,epollIn,[[.received sampleRequest]],[]⟩]).map
      fun c => (c.channels,c.blocked)) = some (.held,false) := by decide
  obtain ⟨c,played,same⟩ := Option.map_eq_some_iff.mp played
  obtain ⟨registered,clear⟩ := Prod.mk.inj same
  refine ⟨c,perform_run next_dispatched played,?_⟩
  exact (@listening_iff sampleEnv _ _ _ _ rfl (by simp [sampleEnv]) (perform_run next_dispatched played)
    registered).mpr clear

/-- After the rest of the response is written on the next event, the connection is
armed for output only. -/
theorem deaf_after_short_write : ¬ ∀ (env : Env) (root : Bytes) (mime : MimeType)
    (events : List Event) (c : Connection), env.ctl = true →
    (∀ event ∈ events, event.env.ctl = true) →
    Run Dispatched (registerHttp env (Connection.fresh root mime)) events c →
    c.channels = .held → c.outputBuffer = [] → Listening c := by
  intro always
  have played : ((perform next sampleStart [shortWrite,⟨sampleEnv,epollOut,[],[]⟩]).map
      fun c => (c.channels,c.outputBuffer,c.interest)) =
      some (.held,[],some (epollEt ||| epollOut)) := by decide
  obtain ⟨c,played,same⟩ := Option.map_eq_some_iff.mp played
  simp only [Prod.mk.injEq] at same
  obtain ⟨registered,empty,interest⟩ := same
  obtain ⟨mask,armed,input,_⟩ := always sampleEnv [] mimeType _ c rfl
    (by simp [shortWrite,sampleEnv]) (perform_run next_dispatched played) registered empty
  obtain rfl := Option.some.inj (armed.symm.trans interest)
  exact absurd input (by decide)

/-- The mask armed in the poller asks for output, once it becomes possible. -/
def AwaitsOutput (c : Connection) : Prop :=
  ∃ mask, c.interest = some mask ∧ mask &&& epollOut ≠ 0 ∧ mask &&& epollEt ≠ 0

/-- What is left to send has set the write interest. -/
def Pending (c : Connection) : Prop :=
  c.err = false → c.isConnecting = true → c.outputBuffer ≠ [] → c.events &&& epollOut ≠ 0

/-- Wherever a write stops, it leaves the interest in the rest. -/
theorem handleWrite_pending (c : Connection) : Pending (handleWrite c) := by
  unfold handleWrite
  split
  · dsimp only
    split
    · exact fun _ _ _ => addEvents_out c.events
    · rename_i sent
      exact fun _ _ left => absurd left sent
  · rename_i stopped
    intro running connected _
    simp [running,connected] at stopped

/-- Behind the loop there is a write, or nothing to write. -/
theorem afterLoop_pending (finish : Bool) (c : Connection) : Pending (afterLoop finish c).2 := by
  have written : Pending (flushed c) := by
    unfold flushed
    split
    · exact handleWrite_pending c
    · rename_i empty
      exact fun _ _ left => absurd left empty
  refine afterLoop_keeps ?_ (fun _ => written) ?_ (fun _ kept => kept) finish
  · intro failed running
    simp [failed] at running
  · intro d kept running connected left
    simpa only [addEvents_in] using kept running connected left

theorem Leaves.pending {env : Env} {c c' : Connection} (leaves : Leaves env c (.go c'))
    (held : Pending c) : Pending c' := by
  cases leaves with
  | parses parsed =>
    cases parsed with
    | loops => exact held

/-- Between two dispatches: a registered connection is neither closed nor in error. -/
def Registered (c : Connection) : Prop :=
  Pending c ∧ (c.channels = .held → c.err = false ∧ c.isConnecting = true)

theorem handleRegister_registered {env : Env} {c : Connection} (held : Pending c) :
    Registered (handleRegister env c) := by
  unfold handleRegister
  dsimp only
  split
  · rename_i guard
    obtain ⟨running,connected⟩ := Bool.and_eq_true_iff.mp guard
    refine ⟨fun _ _ left => ?_,fun _ => ?_⟩
    · have set : c.events &&& epollOut ≠ 0 := by
        have before := held (by simpa using running) connected
        revert left
        unfold updateChannel update
        split <;> exact before
      have both : (epollEt ||| epollOut) &&& epollOut ≠ 0 := by decide
      unfold updateChannel update
      simp only [ne_eq,set,not_false_eq_true,if_true]
      split <;> exact both
    · unfold updateChannel update
      split <;> exact ⟨by simpa using running,connected⟩
  · exact ⟨held,by simp [deleteChannel]⟩

theorem Dispatched.registered {c c' : Connection} {event : Event} (held : Registered c)
    (dispatched : Dispatched c event c') : Registered c' := by
  obtain ⟨middle,kept,rfl⟩ := dispatched.keeps Pending
    (fun _ stage before leaves => by
      cases stage with
      | go => exact leaves.pending before
      | leave finish => exact afterLoop_pending finish _)
    (fun c _ => handleWrite_pending c) held.1
  exact handleRegister_registered kept

/-- A connection that is registered with something left to send is armed for output, in
every state of every run. -/
theorem pending_armed {env : Env} {root : Bytes} {mime : MimeType} {events : List Event}
    {c : Connection} (ctl : env.ctl = true) (ctls : ∀ event ∈ events, event.env.ctl = true)
    (run : Run Dispatched (registerHttp env (Connection.fresh root mime)) events c)
    (registered : c.channels = .held) (left : c.outputBuffer ≠ []) : AwaitsOutput c := by
  have start : Registered (registerHttp env (Connection.fresh root mime)) := by
    simp [Registered,Pending,registerHttp,addChannel,update,ctl,Connection.fresh]
  obtain ⟨pending,running⟩ :=
    run.invariant Registered (fun _ _ _ held one => one.registered held) start
  obtain ⟨interested,armed⟩ := run_armed ctl ctls run
  obtain ⟨fine,connected⟩ := running registered
  obtain ⟨interest,blocked,_⟩ := armed registered
  have seen := (interested fine).mp (pending fine connected left)
  refine ⟨c.events,interest,?_⟩
  rw [blocked seen]
  decide

theorem pending_armed_sample : ∃ c, Run Dispatched sampleStart [shortWrite] c ∧
    c.outputBuffer ≠ [] ∧ AwaitsOutput c := by
  have played : ((perform next sampleStart [shortWrite]).map
      fun c => (c.channels,decide (c.outputBuffer = []))) = some (.held,false) := by decide
  obtain ⟨c,played,same⟩ := Option.map_eq_some_iff.mp played
  obtain ⟨registered,left⟩ := Prod.mk.inj same
  refine ⟨c,perform_run next_dispatched played,of_decide_eq_false left,?_⟩
  exact @pending_armed sampleEnv _ _ _ _ rfl (by simp [shortWrite,sampleEnv])
    (perform_run next_dispatched played) registered (of_decide_eq_false left)

end Deon.Http
