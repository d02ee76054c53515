import Deon.Decimal
import Deon.Http.HeaderBlock
import Deon.Http.MimeType
import Deon.Http.Response

/-! The framing of a response: a header block with one length, and a body of that length. The
hello page has no length and takes the place of what waits in the output buffer. -/
namespace Deon.Http
open Library

abbrev contentLength : Bytes := bytes "Content-Length"

/-- The same uri and headers, asked for with another method. -/
def Connection.asking (method : Method) (c : Connection) : Connection :=
  {c with request := {c.request with method := method}}

/-- One line for each field, and one field that tells this length. -/
structure Frames (fields : Fields) (size : Nat) : Prop where
  names : ∀ one ∈ fields, FieldName one.1
  values : ∀ one ∈ fields, cr ∉ one.2 ∧ lf ∉ one.2
  length : fields.filter (·.1 = contentLength) = [(contentLength,stdToString size)]

/-- A status line, the header block and the body. -/
def framed (fields : Fields) (body : Bytes) : Bytes :=
  bytes "HTTP/1.1 200 OK" ++ crlf ++ headerBlock fields ++ body

/-- What is answered to a GET and to a HEAD has the same header block and is framed by it. -/
def Framed (env : Env) (c : Connection) : Prop :=
  ∃ fields size, Frames fields size ∧
    (∀ c', analysisRequest env (c.asking .get) = .ok (0,c') → ∃ body, body.length = size ∧
      body = fileBytes env (c.root ++ c.request.uri) size ∧
      c'.outputBuffer = c.outputBuffer ++ framed fields body) ∧
    ∀ c', analysisRequest env (c.asking .head) = .ok (0,c') →
      c'.outputBuffer = c.outputBuffer ++ framed fields []

/-- The fields of a response for a file. -/
def responseFields (keep : Bool) (fileType : Bytes) (size : Nat) : Fields :=
  (if keep then [(bytes "Connection",bytes "Keep-Alive"),
      (bytes "Keep-Alive",bytes "timeout=" ++ stdToString defaultKeepAliveTime)] else []) ++
    [(bytes "Server",bytes "Answerhua's Web Server"),(bytes "Content-Type",fileType),
      (contentLength,stdToString size)]

theorem responseHeader_framed (mime : MimeType) (root : Bytes) (request : HttpRequest) (size : Nat)
    (body : Bytes) : responseHeader mime root request size ++ body =
      framed (responseFields (asksKeepAlive request.headers)
        (fileTypeOf mime (root ++ request.uri)).1 size) body := by
  have status : bytes "HTTP/1.1 200 OK\r\n" = bytes "HTTP/1.1 200 OK" ++ crlf := by decide
  have connection : bytes "Connection: Keep-Alive\r\n" =
      bytes "Connection" ++ bytes ": " ++ bytes "Keep-Alive" ++ crlf := by decide
  have keepAlive : bytes "Keep-Alive: timeout=" =
      bytes "Keep-Alive" ++ bytes ": " ++ bytes "timeout=" := by decide
  have server : bytes "Server: Answerhua's Web Server\r\n" =
      bytes "Server" ++ bytes ": " ++ bytes "Answerhua's Web Server" ++ crlf := by decide
  have type : bytes "Content-Type: " = bytes "Content-Type" ++ bytes ": " := by decide
  have length : bytes "Content-Length: " = contentLength ++ bytes ": " := by decide
  unfold responseHeader statusLine entityHeader framed responseFields headerBlock
  rw [status,connection,keepAlive,server,type,length]
  cases asksKeepAlive request.headers <;>
    simp only [headerLine,List.flatMap_cons,List.flatMap_nil,List.append_assoc,List.nil_append,
      List.cons_append,if_true,Bool.false_eq_true,if_false]

theorem stdToString_lines (n : Nat) : cr ∉ stdToString n ∧ lf ∉ stdToString n :=
  ⟨fun member => absurd (stdToString_digits member) (by decide),
    fun member => absurd (stdToString_digits member) (by decide)⟩

theorem responseFields_frames (keep : Bool) {fileType : Bytes} (size : Nat)
    (lines : cr ∉ fileType ∧ lf ∉ fileType) : Frames (responseFields keep fileType size) size := by
  have timeout := stdToString_lines defaultKeepAliveTime
  have length := stdToString_lines size
  have text : cr ∉ bytes "timeout=" ∧ lf ∉ bytes "timeout=" ∧ cr ∉ bytes "Keep-Alive" ∧
      lf ∉ bytes "Keep-Alive" ∧ cr ∉ bytes "Answerhua's Web Server" ∧
      lf ∉ bytes "Answerhua's Web Server" := by decide
  have one_length : bytes "Connection" ≠ contentLength ∧ bytes "Keep-Alive" ≠ contentLength ∧
      bytes "Server" ≠ contentLength ∧ bytes "Content-Type" ≠ contentLength := by decide
  refine ⟨?_,?_,?_⟩
  · cases keep <;> simp only [responseFields,FieldName,Bool.false_eq_true,if_false,if_true,
      List.cons_append,List.nil_append,List.forall_mem_cons] <;> decide
  · cases keep <;> simp [responseFields,timeout,length,text,lines]
  · cases keep <;> simp [responseFields,one_length]

theorem responded_framed {env : Env} {c : Connection} {size : Nat}
    (other : c.root ++ c.request.uri ≠ bytes "hello") :
    (c.responded env size).outputBuffer = c.outputBuffer ++
      framed (responseFields (asksKeepAlive c.request.headers)
        (fileTypeOf c.mime (c.root ++ c.request.uri)).1 size)
        (responseBody env c.root c.request size) := by
  unfold Connection.responded responseTo
  rw [if_neg other,if_neg other,responseHeader_framed]

theorem fileBytes_length {env : Env} {fileName : Bytes} {size : Nat}
    (mapped : env.mmap (cStr fileName) size ≠ none ∨ size = 0) :
    (fileBytes env fileName size).length = size := by
  unfold fileBytes
  cases memory : env.mmap (cStr fileName) size with
  | none =>
    rcases mapped with some | empty
    · exact absurd memory some
    · exact empty.symm
  | some memory => simp

theorem hello_unframed {fields : Fields} {size : Nat} (frames : Frames fields size)
    (before body : Bytes) : helloResponse ≠ before ++ framed fields body := by
  intro same
  have member : (contentLength,stdToString size) ∈ fields := by
    have inside : (contentLength,stdToString size) ∈ fields.filter (·.1 = contentLength) := by
      rw [frames.length]
      exact List.mem_singleton.mpr rfl
    exact (List.mem_filter.mp inside).1
  obtain ⟨front,behind,rfl⟩ := List.append_of_mem member
  have told : contentLength <:+: helloResponse := by
    refine ⟨before ++ bytes "HTTP/1.1 200 OK" ++ crlf ++ front.flatMap headerLine,
      bytes ": " ++ stdToString size ++ crlf ++ behind.flatMap headerLine ++ crlf ++ body,?_⟩
    rw [same]
    simp [framed,headerBlock,headerLine]
  exact absurd told (by decide)

/-- The length that is told is the one that the file system reports. -/
def toldSize (env : Env) (c : Connection) : Nat :=
  ((env.stat (cStr (c.root ++ c.request.uri))).map Stat.size).getD 0

theorem answered_told {env : Env} {c c' : Connection}
    (other : c.root ++ c.request.uri ≠ bytes "hello")
    (answered : analysisRequest env c = .ok (0,c')) :
    (c.request.method ≠ .head →
      (fileBytes env (c.root ++ c.request.uri) (toldSize env c)).length = toldSize env c) ∧
      c'.outputBuffer = c.outputBuffer ++ framed (responseFields (asksKeepAlive c.request.headers)
        (fileTypeOf c.mime (c.root ++ c.request.uri)).1 (toldSize env c))
        (responseBody env c.root c.request (toldSize env c)) := by
  obtain ⟨size,⟨_,hello | ⟨found,mapped⟩⟩,rfl⟩ := analysisRequest_zero_iff.mp answered
  · exact absurd hello other
  · have told : toldSize env c = size := by
      rw [toldSize,found]
      rfl
    rw [told]
    refine ⟨fun get => ?_,responded_framed other⟩
    rcases mapped with head | ⟨_,mapped⟩
    · exact absurd head get
    · exact fileBytes_length mapped

theorem hello_not_framed {env : Env} {c : Connection} (hello : c.root ++ c.request.uri = bytes "hello") :
    ¬ Framed env c := by
  rintro ⟨fields,size,frames,_,heads⟩
  have answers : analysisRequest env (c.asking .head) = .ok (0,(c.asking .head).responded env 0) :=
    analysisRequest_zero_iff.mpr ⟨0,⟨.inr rfl,.inl hello⟩,rfl⟩
  have output : ((c.asking .head).responded env 0).outputBuffer = helloResponse := by
    unfold Connection.responded responseTo
    simp only [Connection.asking,hello,if_true]
  exact hello_unframed frames _ _ (output.symm.trans (heads _ answers))

/-- The responses to a GET and to a HEAD are framed exactly when the name is not that of the
hello page. -/
theorem response_framed_iff {env : Env} {c : Connection} (grown : Grown mimeType c.mime) :
    Framed env c ↔ c.root ++ c.request.uri ≠ bytes "hello" := by
  refine ⟨fun frames hello => hello_not_framed hello frames,fun other => ?_⟩
  refine ⟨_,toldSize env c,responseFields_frames (asksKeepAlive c.request.headers) (toldSize env c)
    (grown.lines (c.root ++ c.request.uri)),?_,?_⟩
  · intro c' answered
    obtain ⟨length,output⟩ := @answered_told env (c.asking .get) c' other answered
    exact ⟨_,length (show Method.get ≠ .head by decide),rfl,output⟩
  · intro c' answered
    exact (@answered_told env (c.asking .head) c' other answered).2

theorem response_framed_sample : Framed sampleEnv
    {Connection.fresh [] mimeType with request := ⟨.get,.http11,bytes "a",∅⟩} :=
  (response_framed_iff .same).mpr (show [] ++ bytes "a" ≠ bytes "hello" by decide)

/-- Something waits to be sent, and the hello page is asked for. -/
def waitingHello : Connection :=
  {Connection.fresh [] mimeType with
    outputBuffer := bytes "waiting"
    request := ⟨.get,.http11,bytes "hello",∅⟩}

/-- What waits is lost, and no length is told. -/
theorem hello_desynchronises : Grown mimeType waitingHello.mime ∧
    waitingHello.request.method = .get ∧ (∃ c',
      analysisRequest sampleEnv waitingHello = .ok (0,c') ∧ c'.outputBuffer = helloResponse) ∧
      ¬ Framed sampleEnv waitingHello := by
  have answers : analysisRequest sampleEnv waitingHello = .ok (0,waitingHello.responded sampleEnv 0) :=
    analysisRequest_zero_iff.mpr ⟨0,⟨.inl rfl,.inl rfl⟩,rfl⟩
  exact ⟨.same,rfl,⟨_,answers,rfl⟩,hello_not_framed rfl⟩

end Deon.Http
