import Deon.Http.Response

/-! `keepAlive_` over the requests of a connection. `analysisRequest` sets it, nothing clears it,
and `handleRegister` reads it. -/
namespace Deon.Http
open Library

def asks (request : HttpRequest) : Bool := asksKeepAlive request.headers

/-- The timeout for a connection whose last request is this one. -/
def timeoutFor (last : HttpRequest) : Nat :=
  if asks last then defaultKeepAliveTime else defaultExpiredTime

/-- `keepAlive_` stands for all requests that were answered; one that is not sets `err_`. -/
structure Sticks (c : Connection) : Prop where
  methods : c.err = false → ∀ one ∈ c.analysed, one.method = .get ∨ one.method = .head
  asked : c.err = false → c.keepAlive = c.analysed.any asks

/-- What `handleRegister` leaves, if it has registered the connection again. -/
structure Registers (c : Connection) : Prop where
  sticks : Sticks c
  timer : c.err = false → c.isConnecting = true →
    c.timer = some (if c.keepAlive then defaultKeepAliveTime else defaultExpiredTime)

theorem Sticks.unnoted {c d : Connection} (sticks : Sticks c) (analysed : d.analysed = c.analysed)
    (keepAlive : d.keepAlive = c.keepAlive) (fine : d.err = false → c.err = false) : Sticks d where
  methods := fun none => analysed ▸ sticks.methods (fine none)
  asked := fun none => by
    rw [analysed,keepAlive]
    exact sticks.asked (fine none)

theorem Sticks.failed {c : Connection} (failed : c.err = true) : Sticks c where
  methods := fun none => by
    rw [failed] at none
    cases none
  asked := fun none => by
    rw [failed] at none
    cases none

theorem Sticks.parsed {c : Connection} (sticks : Sticks c) (inputBuffer : Bytes)
    (state : HttpRequestParseState) (hState : HeaderParseState) (request : HttpRequest) :
    Sticks (c.parsed inputBuffer state hState request) := sticks.unnoted rfl rfl id

theorem Sticks.handleWrite {c : Connection} (sticks : Sticks c) : Sticks (handleWrite c) := by
  have same : (Http.handleWrite c).analysed = c.analysed ∧
      (Http.handleWrite c).keepAlive = c.keepAlive := by
    unfold Http.handleWrite
    dsimp only
    split_ifs <;> exact ⟨rfl,rfl⟩
  exact sticks.unnoted same.1 same.2 handleWrite_fine

theorem Sticks.answers {env : Env} {c c' : Connection} (sticks : Sticks c)
    (answered : analysisRequest env c = .ok (0,c')) : Sticks {c' with state := .finish} := by
  obtain ⟨_,⟨method,_⟩,_⟩ := analysisRequest_zero_iff.mp answered
  obtain ⟨analysed,_,_,_,err⟩ := (analysisRequest_cases answered).notes
  obtain ⟨keepAlive,_⟩ := (analysisRequest_notes answered).1 method
  dsimp only at analysed err keepAlive
  constructor
  · intro fine one member
    dsimp only at member
    rw [analysed] at member
    obtain before | last := List.mem_append.mp member
    · exact sticks.methods (err.symm.trans fine) one before
    · obtain rfl := List.mem_singleton.mp last
      exact method
  · intro fine
    dsimp only
    rw [keepAlive,analysed,List.any_append,sticks.asked (err.symm.trans fine)]
    rw [List.any_cons,List.any_nil,Bool.or_false]
    rfl

theorem badRequest_sticks (env : Env) (shortMsg : Bytes) (c : Connection) :
    Through Sticks (fun _ => Sticks) (badRequest env shortMsg c) := Sticks.failed rfl

theorem stages_sticks {env : Env} {c : Connection} {stage : Stage} (sticks : Sticks c)
    (ok : stages env c = .ok stage) : Through Sticks (fun _ => Sticks) stage := by
  refine @stages_through env c stage Sticks Sticks Sticks Sticks (fun _ => Sticks) ?_ ?_ ?_ ?_ ok
  · intro stage lined
    obtain ⟨b,s,q,rfl⟩ | ⟨b,q,rfl⟩ | ⟨b,q,rfl⟩ := lineStage_cases lined
    · exact sticks.parsed b s c.hState q
    · exact sticks.parsed b c.state c.hState q
    · exact badRequest_sticks env _ _
  · intro d stage sticks headed
    obtain ⟨b,s,h,q,rfl⟩ | ⟨b,h,q,rfl⟩ | ⟨b,h,q,rfl⟩ := headerStage_cases headed
    · exact sticks.parsed b s h q
    · exact sticks.parsed b d.state h q
    · exact badRequest_sticks env _ _
  · intro d stage sticks measured
    obtain ⟨s,rfl⟩ | rfl | rfl := lengthStage_cases measured
    · exact sticks.parsed d.inputBuffer s d.hState d.request
    · exact sticks
    · exact badRequest_sticks env _ d
  · intro d stage sticks last
    unfold analysisStage at last
    split_ifs at last
    · obtain ⟨⟨rc,d'⟩,answered,next⟩ := bind_success last
      dsimp only at next
      split_ifs at next with zero
      · subst zero
        obtain rfl := Except.ok.inj next
        exact sticks.answers answered
      · obtain rfl := Except.ok.inj next
        exact Sticks.failed rfl
    · obtain rfl := Except.ok.inj last
      exact sticks

theorem pass_sticks {env : Env} {results : List ReadResult} {c : Connection} {stage : Stage}
    (sticks : Sticks c) (passed : pass env results c = .ok stage) :
    Through Sticks (fun _ => Sticks) stage := by
  unfold pass at passed
  dsimp only at passed
  split_ifs at passed
  · obtain rfl := Except.ok.inj passed
    exact badRequest_sticks env _ _
  · obtain rfl := Except.ok.inj passed
    exact sticks.unnoted rfl rfl id
  · obtain rfl := Except.ok.inj passed
    exact sticks.unnoted rfl rfl id
  · refine stages_sticks ?_ passed
    exact sticks.unnoted rfl rfl id

theorem afterLoop_sticks {c : Connection} (sticks : Sticks c) (finish : Bool) :
    Sticks (afterLoop finish c).2 := by
  apply afterLoop_keeps
  · exact fun _ => sticks
  · exact fun _ => flushed_keeps sticks sticks.handleWrite
  · exact fun d sticks => sticks.unnoted rfl rfl id
  · exact fun d sticks => sticks.unnoted rfl rfl id

theorem update_same (env : Env) (c : Connection) : (update env c).analysed = c.analysed ∧
    (update env c).keepAlive = c.keepAlive ∧ (update env c).err = c.err ∧
    (update env c).timer = c.timer := by
  unfold update
  split
  · exact ⟨rfl,rfl,rfl,rfl⟩
  · exact ⟨rfl,rfl,rfl,rfl⟩

theorem handleRegister_registers {env : Env} {c : Connection} (sticks : Sticks c) :
    Registers (handleRegister env c) := by
  unfold handleRegister
  dsimp only
  split
  · unfold updateChannel
    obtain ⟨analysed,keepAlive,err,timer⟩ := update_same env _
    refine ⟨sticks.unnoted analysed keepAlive (fun none => err ▸ none),fun _ _ => ?_⟩
    rw [timer,keepAlive]
  · rename_i closes
    refine ⟨sticks.unnoted rfl rfl id,fun fine connected => absurd ?_ closes⟩
    exact Bool.and_eq_true_iff.mpr ⟨congrArg not fine,connected⟩

theorem registerHttp_registers (env : Env) (root : Bytes) (mime : MimeType) :
    Registers (registerHttp env (Connection.fresh root mime)) := by
  have sticks : Sticks (Connection.fresh root mime) :=
    ⟨fun _ one none => absurd none List.not_mem_nil,fun _ => rfl⟩
  unfold registerHttp addChannel
  obtain ⟨analysed,keepAlive,err,timer⟩ := update_same env _
  refine ⟨sticks.unnoted analysed keepAlive (fun none => err ▸ none),fun _ _ => ?_⟩
  rw [timer,keepAlive]
  rfl

theorem Dispatched.registers {c c' : Connection} {event : Event} (registers : Registers c)
    (dispatched : Dispatched c event c') : Registers c' := by
  have passed : ∃ middle, Sticks middle ∧ c' = handleRegister event.env middle := by
    apply dispatched.passes Sticks
    · intro c results stage sticks passed
      have through := pass_sticks sticks passed
      cases stage with
      | go d => exact through
      | leave finish d => exact afterLoop_sticks through finish
    · exact fun _ => Sticks.handleWrite
    · exact registers.sticks.unnoted rfl rfl id
  obtain ⟨middle,sticks,rfl⟩ := passed
  exact handleRegister_registers sticks

theorem timeouts_differ {one other : Bool} :
    some (if one then defaultKeepAliveTime else defaultExpiredTime) =
      some (if other then defaultKeepAliveTime else defaultExpiredTime) ↔ one = other := by
  revert one other
  decide

/-- Over any run of a connection, the timeout with which it is registered again is the one for
its last request exactly when this one asks to be kept alive, or none before it has asked. -/
theorem timeout_last_iff {env : Env} {root : Bytes} {mime : MimeType} {events : List Event}
    {c : Connection} (run : Run Dispatched (registerHttp env (Connection.fresh root mime)) events c)
    (fine : c.err = false) (connected : c.isConnecting = true) {earlier : List HttpRequest}
    {last : HttpRequest} (answered : c.analysed = earlier ++ [last]) :
    c.timer = some (timeoutFor last) ↔ asks last = true ∨ ∀ one ∈ earlier, asks one = false := by
  have registers := run.invariant Registers (fun _ _ _ held one => one.registers held)
    (registerHttp_registers env root mime)
  have flag := registers.sticks.asked fine
  rw [answered,List.any_append,List.any_cons,List.any_nil,Bool.or_false] at flag
  rw [registers.timer fine connected,flag]
  unfold timeoutFor
  rw [timeouts_differ]
  cases asked : asks last with
  | true =>
    rw [Bool.or_true]
    exact iff_of_true rfl (.inl rfl)
  | false =>
    rw [Bool.or_false,or_iff_right Bool.false_ne_true,List.any_eq_false]
    simp only [Bool.not_eq_true]

/-- A request that asks to keep the connection, and one that does not. -/
def keepEvent : Event :=
  ⟨sampleEnv,epollIn,[[.received (bytes "GET /a HTTP/1.1\r\nConnection: Keep-Alive\r\n\r\n")]],[]⟩

def plainEvent : Event := ⟨sampleEnv,epollIn,[[.received sampleRequest]],[]⟩

theorem timeout_last_sample : ∃ c, Run Dispatched sampleStart [plainEvent,keepEvent] c ∧
    ∃ earlier last, c.analysed = earlier ++ [last] ∧ c.timer = some (timeoutFor last) := by
  have played : ((perform next sampleStart [plainEvent,keepEvent]).map fun c =>
      ((c.err,c.isConnecting),(c.analysed.map asks))) = some ((false,true),[false,true]) := by
    decide
  obtain ⟨c,done,same⟩ := Option.map_eq_some_iff.mp played
  simp only [Prod.mk.injEq] at same
  obtain ⟨⟨fine,connected⟩,asked⟩ := same
  obtain ⟨earlier,last,answered,_,both⟩ := List.map_eq_append_iff.mp
    (show c.analysed.map asks = [false] ++ [true] from asked)
  obtain ⟨request,rfl,asked⟩ := List.map_eq_singleton_iff.mp both
  have run := perform_run next_dispatched done
  exact ⟨c,run,earlier,request,answered,
    (@timeout_last_iff sampleEnv [] mimeType _ c run fine connected earlier request answered).mpr
      (.inl asked)⟩

/-- The second request does not ask, and the connection is kept for five minutes. -/
theorem keepAlive_sticks : ∃ c, Run Dispatched sampleStart [keepEvent,plainEvent] c ∧
    c.err = false ∧ c.isConnecting = true ∧ ∃ earlier last, c.analysed = earlier ++ [last] ∧
      asks last = false ∧ c.timer = some defaultKeepAliveTime ∧ c.timer ≠ some (timeoutFor last) := by
  have played : ((perform next sampleStart [keepEvent,plainEvent]).map fun c =>
      ((c.err,c.isConnecting),(c.timer,c.analysed.map asks))) =
      some ((false,true),(some defaultKeepAliveTime,[true,false])) := by
    decide +kernel
  obtain ⟨c,done,same⟩ := Option.map_eq_some_iff.mp played
  simp only [Prod.mk.injEq] at same
  obtain ⟨⟨fine,connected⟩,timer,asked⟩ := same
  obtain ⟨earlier,last,answered,_,both⟩ := List.map_eq_append_iff.mp
    (show c.analysed.map asks = [true] ++ [false] from asked)
  obtain ⟨request,rfl,plain⟩ := List.map_eq_singleton_iff.mp both
  have differ : some defaultKeepAliveTime ≠ some (timeoutFor request) := by
    unfold timeoutFor
    rw [plain]
    decide
  exact ⟨c,perform_run next_dispatched done,fine,connected,earlier,request,answered,plain,timer,
    fun claimed => differ (timer.symm.trans claimed)⟩

end Deon.Http
