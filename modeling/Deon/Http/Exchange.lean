import Deon.Http.Reply
import Deon.Http.RequestLine
import Deon.Http.Reuse
import Deon.WritenRaw

/-! A client and the server over one connection. The client writes a request when it has the reply
to the one before; what it reads from the socket is what the files say, up to the first request
that is refused. -/
namespace Deon.Http
open Library

/-- Every `write` takes something or was interrupted. -/
def Obliging (writes : List (List WriteResult)) : Prop :=
  ∀ results ∈ writes, ∀ errno, .failed errno ∈ results → errno = .eintr

section Writes

variable {results : List WriteResult} {writes : List (List WriteResult)}

theorem writenLoop_obliging (calm : ∀ errno, .failed errno ∈ results → errno = .eintr) (size : Nat) :
    ∀ writeSum, (writenLoop size results writeSum).1 = .finished := by
  induction results with
  | nil => exact fun _ => rfl
  | cons result results ih =>
    intro writeSum
    have later := ih fun errno member => calm errno (List.mem_cons_of_mem _ member)
    cases result with
    | accepted count =>
      rw [writenLoop]
      split
      · rfl
      · exact later _
    | failed errno =>
      obtain rfl := calm errno List.mem_cons_self
      rw [writenLoop]
      split
      · rfl
      · exact later _

theorem writen_obliging (calm : ∀ errno, .failed errno ∈ results → errno = .eintr) (sbuff : Bytes) :
    (writen results sbuff).stopped = .finished := by
  have ended := writenLoop_obliging calm sbuff.length 0
  unfold writen
  generalize writenLoop sbuff.length results 0 = out at ended
  obtain ⟨stopped,writeSum⟩ := out
  cases ended
  rfl

theorem writenRaw_obliging (calm : ∀ errno, .failed errno ∈ results → errno = .eintr)
    (below : Nat → UInt8) (buff : Bytes) : (writenRaw below results buff).accepted = buff := by
  apply writenRaw_complete
  have undisturbed : Undisturbed results buff.length := by
    intro before errno after same other
    exact absurd (calm errno (by simp [same])) other
  have start : Sending buff.length buff.length ⟨0,[],[],false⟩ :=
    ⟨by simp,Nat.le_refl _,Int.zero_add _,rfl⟩
  exact (start.run below buff undisturbed).fine

theorem Obliging.accepts (obliging : Obliging writes) : AcceptsAll writes :=
  fun results member => writen_obliging (obliging results member)

theorem Obliging.head (obliging : Obliging writes) :
    ∀ errno, .failed errno ∈ writes.headD [] → errno = .eintr := by
  cases writes with
  | nil => simp
  | cons results writes => exact obliging results List.mem_cons_self

theorem Obliging.tail (obliging : Obliging writes) : Obliging writes.tail :=
  fun results member => obliging results (List.mem_of_mem_tail member)

theorem handleError_obliging {c : Connection} (obliging : Obliging c.writes) (env : Env)
    (errNum : Nat) (shortMsg : Bytes) : (handleError env errNum shortMsg c).sent =
      c.sent ++ (errorReply errNum shortMsg).text := by
  unfold handleError sendRaw decideApart
  dsimp only
  rw [writenRaw_obliging obliging.head,writenRaw_obliging obliging.tail.head,errorReply_text,
    List.append_assoc]

end Writes

/-- A request as a client writes it, which the server reads as it is meant. -/
structure Ask where
  line : RequestLine
  fields : Fields
  reads : line.method = .get ∨ line.method = .head
  plain : Unmistakable line
  some : fields ≠ []
  names : ∀ one ∈ fields, FieldName one.1
  values : ∀ one ∈ fields, FieldValue one.2

theorem RequestLine.accepted {line : RequestLine} (plain : Unmistakable line) :
    Accepts line.text ⟨line.method,line.version,line.uri,∅⟩ := by
  obtain ⟨before,behind,clear,parts,fits⟩ := line.tail_parts
  obtain ⟨keywords,version⟩ := plain
  have read := line.parseRequestLine_text [] requestInit
  rw [List.append_nil,line.parseLine_own requestInit keywords,line.parseTarget_text _ clear parts,
    fits.mpr version] at read
  rw [Accepts,read]
  cases which : line.version with
  | unknown => exact absurd which line.known.2
  | http10 => rfl
  | http11 => rfl

namespace Ask

def text (ask : Ask) : Bytes := ask.line.text ++ crlf ++ headerBlock ask.fields

def head (ask : Ask) : Bool := ask.line.method = .head

def request (ask : Ask) : HttpRequest :=
  ⟨ask.line.method,ask.line.version,ask.line.uri,enter ∅ ask.fields⟩

def fileName (root : Bytes) (ask : Ask) : Bytes := root ++ ask.line.uri

/-- Why the file is not given out, if it is not. -/
def refusal (env : Env) (root : Bytes) (ask : Ask) : Option (Nat × Bytes) :=
  match env.stat (cStr (ask.fileName root)) with
  | none => Option.some (404,bytes "Not Found!")
  | Option.some sbuf =>
    if !sbuf.regular || !sbuf.userRead then Option.some (403,bytes "Forbidden")
    else if ask.head || env.opens (cStr (ask.fileName root)) then none
    else Option.some (404,bytes "Not Found")

def size (env : Env) (root : Bytes) (ask : Ask) : Nat :=
  ((env.stat (cStr (ask.fileName root))).map Stat.size).getD 0

/-- What the files say to the request. -/
def reply (env : Env) (root : Bytes) (ask : Ask) : Reply :=
  match ask.refusal env root with
  | Option.some (errNum,shortMsg) => errorReply errNum shortMsg
  | none => ⟨bytes "HTTP/1.1 200 OK",
      responseFields (asksKeepAlive ask.request.headers) (fileTypeOf mimeType (ask.fileName root)).1
        (ask.size env root),
      if ask.head then [] else fileBytes env (ask.fileName root) (ask.size env root)⟩

/-- What the client takes for the reply. -/
def seen (env : Env) (root : Bytes) (ask : Ask) : Reply :=
  {ask.reply env root with body := if ask.head then [] else (ask.reply env root).body}

/-- What it leaves: an error has a body even when it answers a HEAD. -/
def unread (env : Env) (root : Bytes) (ask : Ask) : Bytes :=
  if ask.head then (ask.reply env root).body else []

variable {env env' : Env} {root : Bytes} {ask : Ask} {c e : Connection}

theorem text_ne (ask : Ask) : ask.text ≠ [] := by simp [text,crlf]

theorem parts (env : Env) (root : Bytes) (ask : Ask) :
    (ask.reply env root).text = (ask.seen env root).text ++ ask.unread env root := by
  unfold seen unread Reply.text
  split <;> simp

/-- The blocks of the loop lead from the text of the request to its analysis. -/
theorem leads (ask : Ask) (env : Env) (waiting : Waiting e) :
    stages env (e.more ask.text) = analysisStage env (e.parsed [] .analysis .endCr ask.request) := by
  have lined := @lineStage_accepts env e _ _ waiting (RequestLine.accepted ask.plain)
    (headerBlock ask.fields)
  have read := @whole_block_read _ ask.some ask.names ask.values
    ⟨ask.line.method,ask.line.version,ask.line.uri,∅⟩ rfl
  have other : ¬ ask.line.method = .post := by
    rcases ask.reads with same | same <;> simp [same]
  rw [stages,text,lined]
  simp only [bind,Except.bind,Stage.andThen,headerStage,Connection.parsed,if_true,read,other,if_false]
  rfl

theorem refusal_clear {errNum : Nat} {shortMsg : Bytes}
    (refused : ask.refusal env root = Option.some (errNum,shortMsg)) :
    cr ∉ (errorReply errNum shortMsg).status := by
  unfold refusal at refused
  split at refused
  · cases refused
    decide
  · split at refused
    · cases refused
      decide
    · split at refused
      · cases refused
      · cases refused
        decide

/-- Every reply says how long it is. -/
theorem framed (env : Env) (root : Bytes) (ask : Ask)
    (maps : ∀ size, env.mmap (cStr (ask.fileName root)) size ≠ none ∨ size = 0) :
    cr ∉ (ask.reply env root).status ∧ ∃ size, Frames (ask.reply env root).fields size ∧
      (ask.head = false → (ask.reply env root).body.length = size) := by
  unfold reply
  cases refused : ask.refusal env root with
  | none =>
    have clear : cr ∉ bytes "HTTP/1.1 200 OK" := by decide
    refine ⟨clear,_,responseFields_frames _ _ (Grown.same.lines _),fun get => ?_⟩
    simp only [get,Bool.false_eq_true,if_false]
    exact fileBytes_length (maps _)
  | some error =>
    obtain ⟨errNum,shortMsg⟩ := error
    refine ⟨?_,_,errorReply_frames errNum shortMsg,fun _ => rfl⟩
    exact refusal_clear refused

theorem seen_taken (env : Env) (root : Bytes) (ask : Ask)
    (maps : ∀ size, env.mmap (cStr (ask.fileName root)) size ≠ none ∨ size = 0) :
    Takes (readReply ask.head) (ask.seen env root).text (ask.seen env root) := by
  obtain ⟨clear,size,frames,whole⟩ := ask.framed env root maps
  refine readReply_takes clear frames ?_
  cases head : ask.head with
  | true => rfl
  | false => simpa using whole head

theorem unread_kept (kept : ask.refusal env root = none) : ask.unread env root = [] := by
  unfold unread reply
  rw [kept]
  split <;> rfl

theorem refusal_files (files : SameFiles env env') (root : Bytes) (ask : Ask) :
    ask.refusal env root = ask.refusal env' root := by
  unfold refusal
  rw [files.stat,files.opens]

/-- A file that is given out can be answered with, where a mapping does not fail. -/
theorem answerable (kept : ask.refusal env root = none)
    (maps : ∀ size, env.mmap (cStr (ask.fileName root)) size ≠ none ∨ size = 0) :
    Answerable env root ask.request (ask.size env root) := by
  unfold refusal at kept
  refine ⟨ask.reads,.inr ?_⟩
  unfold size
  cases found : env.stat (cStr (ask.fileName root)) with
  | none =>
    rw [found] at kept
    cases kept
  | some sbuf =>
    rw [found] at kept
    obtain ⟨regular,userRead,size⟩ := sbuf
    dsimp only at kept
    split at kept
    · cases kept
    · rename_i allowed
      rw [Bool.not_eq_true,Bool.or_eq_false_iff,Bool.not_eq_false',Bool.not_eq_false'] at allowed
      obtain ⟨rfl,rfl⟩ := allowed
      split at kept
      · rename_i given
        refine ⟨found,?_⟩
        rcases Bool.or_eq_true_iff.mp given with head | opened
        · exact .inl (of_decide_eq_true head)
        · exact .inr ⟨opened,maps size⟩
      · cases kept

theorem replied (kept : ask.refusal env root = none)
    (other : ask.fileName root ≠ bytes "hello") :
    responseTo env mimeType root ask.request (ask.size env root) = (ask.reply env root).text := by
  have body : responseBody env root ask.request (ask.size env root) =
      if ask.head then [] else fileBytes env (ask.fileName root) (ask.size env root) := by
    unfold responseBody head
    simp only [decide_eq_true_eq]
    rfl
  have named : root ++ ask.request.uri ≠ bytes "hello" := other
  rw [responseTo,if_neg named,responseHeader_framed,body,reply,kept]
  rfl

/-- What `analysisRequest` does with a file that is not given out. -/
theorem refused {errNum : Nat} {shortMsg : Bytes} (refused : ask.refusal env root = Option.some (errNum,shortMsg))
    (other : ask.fileName root ≠ bytes "hello") (same : c.root = root) (asked : c.request = ask.request) :
    ∃ d, analysisRequest env c = .ok (-1,handleError env errNum shortMsg d) ∧ d.sent = c.sent ∧
      d.writes = c.writes := by
  have named : c.root ++ c.request.uri = ask.fileName root := by rw [same,asked]; rfl
  have reads : c.request.method = .get ∨ c.request.method = .head := by rw [asked]; exact ask.reads
  unfold analysisRequest
  dsimp only
  rw [if_pos reads,named,if_neg other]
  unfold refusal at refused
  cases found : env.stat (cStr (ask.fileName root)) with
  | none =>
    rw [found] at refused
    cases refused
    exact ⟨_,rfl,rfl,rfl⟩
  | some sbuf =>
    rw [found] at refused
    dsimp only at refused ⊢
    split at refused
    · rename_i forbidden
      cases refused
      rw [if_pos forbidden]
      exact ⟨_,rfl,rfl,rfl⟩
    · rename_i allowed
      split at refused
      · cases refused
      · rename_i closed
        cases refused
        obtain ⟨get,unopened⟩ := Bool.or_eq_false_iff.mp (Bool.eq_false_iff.mpr closed)
        have noHead : ¬ c.request.method = .head := by
          rw [asked]
          exact of_decide_eq_false get
        rw [if_neg allowed,if_neg noHead,appendFile,unopened]
        exact ⟨_,rfl,rfl,rfl⟩

end Ask

/-- A connection that has refused a request. -/
structure Refused (sent : Bytes) (c : Connection) : Prop where
  err : c.err = true
  sent : c.sent = sent

theorem handleRead_refuses {env : Env} {root : Bytes} {ask : Ask} {table : MimeType}
    {c : Connection} {results : List ReadResult} {errNum : Nat} {shortMsg : Bytes}
    (reusable : Reusable root table c) (obliging : Obliging c.writes)
    (arrives : Drains results ask.text .again)
    (refused : ask.refusal env root = some (errNum,shortMsg))
    (other : ask.fileName root ≠ bytes "hello") (drains : List (List ReadResult)) :
    ∃ c', handleRead env (results :: drains) c = .ok c' ∧
      Refused (c.sent ++ (errorReply errNum shortMsg).text) c' := by
  obtain ⟨d,analysed,sent,writes⟩ := @Ask.refused env root ask
    (c.parsed [] .analysis .endCr ask.request) errNum shortMsg refused other reusable.root rfl
  have analysing : (c.parsed [] .analysis .endCr ask.request).state = .analysis := rfl
  have staged : analysisStage env (c.parsed [] .analysis .endCr ask.request) =
      .ok (.leave false {handleError env errNum shortMsg d with err := true}) := by
    rw [analysisStage,if_pos analysing,analysed]
    rfl
  have passed := (pass_stages arrives ask.text_ne c).trans ((ask.leads env reusable.waiting).trans staged)
  refine ⟨_,handleRead_once passed rfl drains,rfl,?_⟩
  show (handleError env errNum shortMsg d).sent = _
  rw [handleError_obliging (writes ▸ obliging),sent]
  rfl

/-- An event that delivers a request, and what other connections look up before it. -/
structure Delivery where
  event : Event
  others : List Bytes
  ask : Ask

def delivered (c : Connection) (delivery : Delivery) : Except Fault Connection :=
  handleEvents delivery.event {c with mime := lookedUp c.mime delivery.others}

/-- The files are these and can be mapped, the request is there as a whole, and its file is not the
hello page. -/
structure Delivery.Fits (env : Env) (root : Bytes) (delivery : Delivery) : Prop where
  files : SameFiles env delivery.event.env
  reads : readable delivery.event.revents = true
  obliging : Obliging delivery.event.writes
  arrives : ∃ results later, delivery.event.drains = results :: later ∧
    Drains results delivery.ask.text .again
  other : delivery.ask.fileName root ≠ bytes "hello"
  maps : ∀ size, env.mmap (cStr (delivery.ask.fileName root)) size ≠ none ∨ size = 0

section Deliveries

variable {env : Env} {root : Bytes} {delivery : Delivery} {c : Connection}

/-- What comes behind the read callback of an event. -/
theorem handleEvents_reading {event : Event} {read : Connection} (reads : readable event.revents = true)
    (returned : handleRead event.env event.drains {c with writes := event.writes} = .ok read) :
    handleEvents event c = .ok (handleRegister event.env
      (if writable event.revents then handleWrite read else read)) := by
  unfold handleEvents
  dsimp only
  rw [if_pos reads,returned]
  rfl

theorem Reusable.delivered (reusable : Reusable root mimeType c) (delivery : Delivery) :
    Reusable root mimeType {c with
      mime := lookedUp c.mime delivery.others,writes := delivery.event.writes} :=
  ⟨⟨reusable.waiting.state,reusable.waiting.hState,reusable.waiting.request,reusable.waiting.empty⟩,
    reusable.fine,reusable.connected,reusable.silent,reusable.root,reusable.grown.lookedUp _⟩

theorem delivered_kept (fits : delivery.Fits env root) (reusable : Reusable root mimeType c)
    (kept : delivery.ask.refusal env root = none) : ∃ c', delivered c delivery = .ok c' ∧
      Reusable root mimeType c' ∧ c'.sent = c.sent ++ (delivery.ask.reply env root).text := by
  obtain ⟨files,reads,obliging,⟨results,later,drains,arrives⟩,other,maps⟩ := fits
  have start := reusable.delivered delivery
  have answerable := Ask.answerable kept maps
  obtain ⟨read,returned,ready,left,sent⟩ := handleRead_reusable start obliging.accepts arrives
    delivery.ask.text_ne (delivery.ask.leads delivery.event.env start.waiting)
    (answerable.files files) later
  rw [responseTo_grown start.grown,← responseTo_files files,Ask.replied kept other] at sent
  rw [← drains] at returned
  obtain ⟨registered,same⟩ : Reusable root mimeType (if writable delivery.event.revents then
      handleWrite read else read) ∧ (if writable delivery.event.revents then handleWrite read
      else read).sent = read.sent := by
    split
    · exact handleWrite_reusable ready left
    · exact ⟨ready,rfl⟩
  obtain ⟨next,unchanged⟩ := handleRegister_reusable delivery.event.env registered
  exact ⟨_,handleEvents_reading reads returned,next,unchanged.trans (same.trans sent)⟩

theorem handleWrite_refused {sent : Bytes} (refused : Refused sent c) : handleWrite c = c := by
  simp [handleWrite,refused.err]

theorem handleRegister_refused {sent : Bytes} (refused : Refused sent c) (env : Env) :
    Refused sent (handleRegister env c) := by
  have closes : handleRegister env c = deleteChannel env {c with timer := none} := by
    simp [handleRegister,refused.err]
  rw [closes]
  exact ⟨refused.err,refused.sent⟩

theorem delivered_refused (fits : delivery.Fits env root) (reusable : Reusable root mimeType c)
    {errNum : Nat} {shortMsg : Bytes}
    (refused : delivery.ask.refusal env root = some (errNum,shortMsg)) :
    ∃ c', delivered c delivery = .ok c' ∧
      Refused (c.sent ++ (delivery.ask.reply env root).text) c' := by
  have start := reusable.delivered delivery
  obtain ⟨results,later,drains,arrives⟩ := fits.arrives
  obtain ⟨read,returned,closed⟩ := handleRead_refuses start fits.obliging arrives
    ((Ask.refusal_files fits.files root delivery.ask) ▸ refused) fits.other later
  rw [← drains] at returned
  have reply : delivery.ask.reply env root = errorReply errNum shortMsg := by
    rw [Ask.reply,refused]
  refine ⟨_,handleEvents_reading fits.reads returned,?_⟩
  rw [handleWrite_refused closed,ite_self,reply]
  exact handleRegister_refused closed _

theorem deliveries_kept {deliveries : List Delivery}
    (fits : ∀ delivery ∈ deliveries, delivery.Fits env root)
    (kept : ∀ delivery ∈ deliveries, delivery.ask.refusal env root = none) : ∀ {c : Connection},
    Reusable root mimeType c → ∃ c', deliveries.foldlM delivered c = .ok c' ∧
      Reusable root mimeType c' ∧
      c'.sent = c.sent ++ deliveries.flatMap fun delivery => (delivery.ask.reply env root).text := by
  induction deliveries with
  | nil =>
    intro c reusable
    exact ⟨c,rfl,reusable,by simp⟩
  | cons delivery deliveries ih =>
    intro c reusable
    obtain ⟨first,others⟩ := List.forall_mem_cons.mp fits
    obtain ⟨given,rest⟩ := List.forall_mem_cons.mp kept
    obtain ⟨middle,answered,ready,sent⟩ := delivered_kept first reusable given
    obtain ⟨c',later,last,more⟩ := ih others rest ready
    refine ⟨c',?_,last,?_⟩
    · rw [List.foldlM_cons,answered]
      exact later
    · rw [more,sent,List.flatMap_cons,List.append_assoc]

end Deliveries

/-- For every way in which the requests arrive and the replies are taken off: the client reads one
reply for each request, as the files say, and nothing is left but the body of an error that answers
a HEAD; and the connection is closed exactly by a request that is refused. -/
theorem exchange_read {env started : Env} {root : Bytes} {mime : MimeType}
    {earlier : List Delivery} {last : Delivery} (grown : Grown mimeType mime)
    (fits : ∀ delivery ∈ earlier ++ [last], delivery.Fits env root)
    (kept : ∀ delivery ∈ earlier, delivery.ask.refusal env root = none) :
    ∃ c, (earlier ++ [last]).foldlM delivered
        (registerHttp started (Connection.fresh root mime)) = .ok c ∧
      readEach readReply ((earlier ++ [last]).map fun delivery => delivery.ask.head) c.sent =
        some ((earlier ++ [last]).map fun delivery => delivery.ask.seen env root,
          last.ask.unread env root) ∧
      (c.err = true ↔ last.ask.refusal env root ≠ none) := by
  have first : ready started root mime [] = registerHttp started (Connection.fresh root mime) := by
    unfold ready registerHttp addChannel update
    split <;> rfl
  have start := first ▸ ready_reusable started root grown []
  have unsent := first ▸ (ready_fields started root mime []).2.1
  obtain ⟨before,final⟩ := List.forall_mem_append.mp fits
  have fitting := final last (List.mem_singleton.mpr rfl)
  obtain ⟨middle,answered,ready,sent⟩ := deliveries_kept before kept start
  have whole : (earlier.flatMap fun delivery => (delivery.ask.reply env root).text) ++
      (last.ask.reply env root).text =
        ((earlier ++ [last]).flatMap fun delivery => (delivery.ask.seen env root).text) ++
          last.ask.unread env root := by
    have seen : earlier.flatMap (fun delivery => (delivery.ask.reply env root).text) =
        earlier.flatMap fun delivery => (delivery.ask.seen env root).text := by
      refine List.flatMap_congr fun delivery member => ?_
      rw [Ask.parts,Ask.unread_kept (kept delivery member),List.append_nil]
    rw [List.flatMap_append,List.flatMap_singleton,List.append_assoc,← Ask.parts,seen]
  have taken : Takes (readEach readReply ((earlier ++ [last]).map fun delivery => delivery.ask.head))
      _ _ := Takes.each fun delivery member =>
    delivery.ask.seen_taken env root (fits delivery member).maps
  have total : middle.sent ++ (last.ask.reply env root).text =
      ((earlier ++ [last]).flatMap fun delivery => (delivery.ask.seen env root).text) ++
          last.ask.unread env root := by
    rw [sent,unsent,List.nil_append,whole]
  cases refused : last.ask.refusal env root with
  | none =>
    obtain ⟨c,ended,after,more⟩ := delivered_kept fitting ready refused
    refine ⟨c,?_,?_,?_⟩
    · rw [List.foldlM_append,answered]
      simp only [List.foldlM_cons,List.foldlM_nil,bind,Except.bind,ended]
      rfl
    · rw [more,total]
      exact taken _
    · simp [after.fine]
  | some error =>
    obtain ⟨errNum,shortMsg⟩ := error
    obtain ⟨c,ended,after⟩ := delivered_refused fitting ready refused
    refine ⟨c,?_,?_,?_⟩
    · rw [List.foldlM_append,answered]
      simp only [List.foldlM_cons,List.foldlM_nil,bind,Except.bind,ended]
      rfl
    · rw [after.sent,total]
      exact taken _
    · simp [after.err]

end Deon.Http
