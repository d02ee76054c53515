import Deon.Http.Steps

/-! The response that `analysisRequest` puts together, as a function of the files, the table
of content types, the root and the request, and when it does so. -/
namespace Deon.Http
open Library

/-- The bytes of a file of this size, as its mapping shows them. -/
def fileBytes (env : Env) (fileName : Bytes) (size : Nat) : Bytes :=
  match env.mmap (cStr fileName) size with
  | none => []
  | some memory => (List.range size).map memory

def responseHeader (mime : MimeType) (root : Bytes) (request : HttpRequest) (size : Nat) : Bytes :=
  statusLine (asksKeepAlive request.headers) ++
    entityHeader (fileTypeOf mime (root ++ request.uri)).1 size

def responseBody (env : Env) (root : Bytes) (request : HttpRequest) (size : Nat) : Bytes :=
  if request.method = .head then [] else fileBytes env (root ++ request.uri) size

def responseTo (env : Env) (mime : MimeType) (root : Bytes) (request : HttpRequest) (size : Nat) :
    Bytes :=
  if root ++ request.uri = bytes "hello" then helloResponse
  else responseHeader mime root request size ++ responseBody env root request size

/-- The request is a GET or a HEAD of the hello page or of a file of this size that can be
read. An empty file need not be mapped. -/
def Answerable (env : Env) (root : Bytes) (request : HttpRequest) (size : Nat) : Prop :=
  (request.method = .get ∨ request.method = .head) ∧
    (root ++ request.uri = bytes "hello" ∨
      env.stat (cStr (root ++ request.uri)) = some ⟨true,true,size⟩ ∧
        (request.method = .head ∨ env.opens (cStr (root ++ request.uri)) = true ∧
          (env.mmap (cStr (root ++ request.uri)) size ≠ none ∨ size = 0)))

/-- The connection with its request answered. -/
def Connection.responded (env : Env) (size : Nat) (c : Connection) : Connection :=
  let response := responseTo env c.mime c.root c.request size
  let noted := c.noted (c.keepAlive || asksKeepAlive c.request.headers)
    (fileTypeOf c.mime (c.root ++ c.request.uri)).2
  if c.root ++ c.request.uri = bytes "hello" then
    {decideApart response noted with outputBuffer := response}
  else {noted with
    outputBuffer := c.outputBuffer ++ response
    responses := c.responses ++ [response]}

theorem appendFile_zero_iff {env : Env} {fileName header : Bytes} {size : Nat} {c c' : Connection} :
    appendFile env fileName header size c = .ok (0,c') ↔
      (env.opens (cStr fileName) = true ∧ (env.mmap (cStr fileName) size ≠ none ∨ size = 0)) ∧
        c' = answered (header ++ fileBytes env fileName size)
          {c with outputBuffer := c.outputBuffer ++ fileBytes env fileName size} := by
  unfold appendFile fileBytes
  cases env.opens (cStr fileName) with
  | false => simp
  | true =>
    cases env.mmap (cStr fileName) size with
    | none =>
      by_cases empty : size = 0
      · simp [empty,eq_comm]
      · simp [empty]
    | some memory => simp [eq_comm]

/-- When `analysisRequest` returns 0, and the connection that it leaves. -/
theorem analysisRequest_zero_iff {env : Env} {c c' : Connection} :
    analysisRequest env c = .ok (0,c') ↔
      ∃ size, Answerable env c.root c.request size ∧ c' = c.responded env size := by
  have same : ∀ d : Connection, Except.ok (0,d) = (.ok (0,c') : Except Fault (Int × Connection)) ↔
      c' = d := by
    intro d
    rw [Except.ok.injEq,Prod.mk.injEq,eq_comm (a := d)]
    exact and_iff_right rfl
  have fails : ∀ d : Connection,
      ¬ Except.ok (-1,d) = (.ok (0,c') : Except Fault (Int × Connection)) := by
    intro d
    simp
  unfold analysisRequest Answerable Connection.responded responseTo responseHeader responseBody
  dsimp only
  by_cases method : c.request.method = .get ∨ c.request.method = .head
  · rw [if_pos method]
    generalize fileTypeOf c.mime (c.root ++ c.request.uri) = looked
    obtain ⟨fileType,mime⟩ := looked
    by_cases hello : c.root ++ c.request.uri = bytes "hello"
    · simp only [hello,if_true,same,method,true_or,and_self,true_and,exists_const]
      rfl
    · simp only [hello,if_false,method,true_and,false_or]
      cases env.stat (cStr (c.root ++ c.request.uri)) with
      | none => simp [fails]
      | some sbuf =>
        obtain ⟨regular,userRead,size⟩ := sbuf
        cases readable : regular && userRead with
        | false =>
          have refused : (!regular || !userRead) = true := by
            rw [← Bool.not_and,readable]
            rfl
          simp only [refused,if_true,fails,false_iff,Option.some.injEq,Stat.mk.injEq]
          rintro ⟨n,⟨⟨rfl,rfl,_⟩,_⟩,_⟩
          cases readable
        | true =>
          obtain ⟨rfl,rfl⟩ := Bool.and_eq_true_iff.mp readable
          simp only [Bool.not_true,Bool.or_self,Bool.false_eq_true,if_false,Option.some.injEq,
            Stat.mk.injEq,true_and,exists_eq_left',and_assoc]
          by_cases head : c.request.method = .head
          · simp only [head,if_true,true_or,true_and,same,List.append_nil]
            rfl
          · simp only [head,if_false,false_or,appendFile_zero_iff,and_assoc,List.append_assoc]
            rfl
  · rw [if_neg method]
    simp [method,fails]

/-- What `analysisRequest` notes in the connection, whatever it answers: a GET or a HEAD may
keep the connection alive, and looks its type up. -/
theorem analysisRequest_notes {env : Env} {c : Connection} {out : Int × Connection}
    (ok : analysisRequest env c = .ok out) :
    (c.request.method = .get ∨ c.request.method = .head →
      out.2.keepAlive = (c.keepAlive || asksKeepAlive c.request.headers) ∧
      out.2.mime = (fileTypeOf c.mime (c.root ++ c.request.uri)).2) ∧
    (¬ (c.request.method = .get ∨ c.request.method = .head) →
      out.2.keepAlive = c.keepAlive ∧ out.2.mime = c.mime) := by
  unfold analysisRequest at ok
  dsimp only at ok
  by_cases method : c.request.method = .get ∨ c.request.method = .head
  · refine ⟨fun _ => ?_,fun other => absurd method other⟩
    rw [if_pos method] at ok
    split at ok
    · obtain rfl := Except.ok.inj ok
      exact ⟨rfl,rfl⟩
    · split at ok
      · obtain rfl := Except.ok.inj ok
        exact ⟨rfl,rfl⟩
      · split at ok
        · obtain rfl := Except.ok.inj ok
          exact ⟨rfl,rfl⟩
        · split at ok
          · obtain rfl := Except.ok.inj ok
            exact ⟨rfl,rfl⟩
          · obtain ⟨body,rfl⟩ | rfl := appendFile_cases ok
            · exact ⟨rfl,rfl⟩
            · exact ⟨rfl,rfl⟩
  · refine ⟨fun answers => absurd answers method,fun _ => ?_⟩
    rw [if_neg method] at ok
    obtain rfl := Except.ok.inj ok
    exact ⟨rfl,rfl⟩

theorem analysisStage_answers {env : Env} {c : Connection} {size : Nat} (state : c.state = .analysis)
    (answerable : Answerable env c.root c.request size) :
    analysisStage env c = .ok (.leave false {c.responded env size with state := .finish}) := by
  rw [analysisStage,if_pos state,analysisRequest_zero_iff.mpr ⟨size,answerable,rfl⟩]
  rfl

theorem responded_keeps (env : Env) (size : Nat) (c : Connection) :
    (c.responded env size).err = c.err ∧ (c.responded env size).isConnecting = c.isConnecting ∧
      (c.responded env size).inputBuffer = c.inputBuffer ∧
      (c.responded env size).writes = c.writes ∧ (c.responded env size).sent = c.sent := by
  unfold Connection.responded
  dsimp only
  split_ifs <;> exact ⟨rfl,rfl,rfl,rfl,rfl⟩

theorem responded_responses (env : Env) (size : Nat) (c : Connection) :
    (c.responded env size).responses =
      c.responses ++ [responseTo env c.mime c.root c.request size] := by
  unfold Connection.responded
  dsimp only
  split_ifs <;> rfl

theorem responded_output (env : Env) (size : Nat) {c : Connection} (idle : c.outputBuffer = []) :
    (c.responded env size).outputBuffer = responseTo env c.mime c.root c.request size := by
  unfold Connection.responded
  dsimp only
  split_ifs
  · rfl
  · simp [idle]

theorem responseTo_ne (env : Env) (mime : MimeType) (root : Bytes) (request : HttpRequest)
    (size : Nat) : responseTo env mime root request size ≠ [] := by
  unfold responseTo responseHeader
  split_ifs
  · decide
  · rw [List.append_assoc]
    exact statusLine_append_ne _ _

/-- What follows the loop when its request is answered and nothing else was read. -/
theorem afterLoop_answered {d : Connection} (running : d.err = false)
    (connected : d.isConnecting = true) (some : d.outputBuffer ≠ []) (finished : d.state = .finish)
    (consumed : d.inputBuffer = []) : afterLoop false d =
      (false,if (handleWrite d).err then handleWrite d else initParse (handleWrite d)) := by
  have written := handleWrite_running running connected
  have state : (handleWrite d).state = .finish := by rw [written]; exact finished
  have input : (handleWrite d).inputBuffer = [] := by rw [written]; exact consumed
  unfold afterLoop
  rw [running,if_neg Bool.false_ne_true,if_pos some,if_neg Bool.false_ne_true]
  cases failed : (handleWrite d).err with
  | true => simp
  | false => simp [state,initParse,input]

end Deon.Http
