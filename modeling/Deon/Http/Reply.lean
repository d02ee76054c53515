import Deon.Http.Framing
import Deon.Library.Delimited

/-! The replies as a client reads them from the socket: a status line, fields up to the empty line,
and as many bytes as the length tells, or none when it asked with HEAD. -/
namespace Deon.Http
open Library

structure Reply where
  status : Bytes
  fields : Fields
  body : Bytes
  deriving DecidableEq

def Reply.text (reply : Reply) : Bytes :=
  reply.status ++ crlf ++ headerBlock reply.fields ++ reply.body

def readLine : Reader UInt8 Bytes := fun text =>
  (find crlf text).map fun pos => (text.take pos,text.drop (pos + 2))

def readField : Reader UInt8 (Option (Bytes × Bytes)) := fun text => do
  let (line,rest) ← readLine text
  if line = [] then return (none,rest)
  else do
    let pos ← find (bytes ": ") line
    return (some (line.take pos,line.drop (pos + 2)),rest)

def toldLength (fields : Fields) : Option Nat :=
  (fields.find? fun one => one.1 = contentLength).map fun one => decimal one.2

def bodySize (head : Bool) (fields : Fields) : Option Nat :=
  if head then some 0 else toldLength fields

/-- The reply to a request, that of a HEAD without a body. -/
def readReply (head : Bool) : Reader UInt8 Reply := fun text => do
  let (status,rest) ← readLine text
  let (fields,rest) ← readUntil readField rest.length rest
  let size ← bodySize head fields
  if rest.length < size then none
  else return (⟨status,fields,rest.take size⟩,rest.drop size)

theorem readLine_takes {line : Bytes} (clear : cr ∉ line) : Takes readLine (line ++ crlf) line := by
  intro rest
  have found : find crlf (line ++ crlf ++ rest) = some line.length := find_first clear [lf] rest
  rw [readLine,found,Option.map_some,List.append_assoc,List.take_left' rfl,
    ← List.drop_drop,List.drop_left' rfl]
  rfl

theorem readField_takes {one : Bytes × Bytes} (name : FieldName one.1) (value : cr ∉ one.2) :
    Takes readField (headerLine one) (some one) := by
  obtain ⟨some,noColon,noCr,_⟩ := name
  have clear : cr ∉ one.1 ++ bytes ": " ++ one.2 := by
    have colon : cr ∉ bytes ": " := by decide
    simp only [List.mem_append,not_or]
    exact ⟨⟨noCr,colon⟩,value⟩
  have filled : one.1 ++ bytes ": " ++ one.2 ≠ [] := by simp [some]
  have colon : find (bytes ": ") (one.1 ++ bytes ": " ++ one.2) = Option.some one.1.length :=
    find_first noColon [space] one.2
  intro rest
  rw [readField,headerLine,readLine_takes clear rest]
  simp only [bind,Option.bind,if_neg filled,colon]
  rw [List.append_assoc,List.take_left' rfl,← List.drop_drop,List.drop_left' rfl]
  rfl

theorem readField_stops : Takes readField crlf none := by
  intro rest
  have taken := @readLine_takes [] List.not_mem_nil rest
  rw [List.nil_append] at taken
  rw [readField,taken]
  rfl

theorem headerBlock_takes {fields : Fields} (names : ∀ one ∈ fields, FieldName one.1)
    (values : ∀ one ∈ fields, cr ∉ one.2) {fuel : Nat} (enough : fields.length < fuel) :
    Takes (readUntil readField fuel) (headerBlock fields) fields := by
  have each : ∀ one ∈ fields, Takes readField (headerLine one) (some (id one)) :=
    fun one member => readField_takes (names one member) (values one member)
  have taken := Takes.until each readField_stops enough
  rwa [List.map_id] at taken

theorem headerBlock_length (fields : Fields) : fields.length < (headerBlock fields).length := by
  induction fields with
  | nil => decide
  | cons one fields ih =>
    have block : headerBlock (one :: fields) = headerLine one ++ headerBlock fields := by
      simp [headerBlock]
    rw [block,List.length_append,List.length_cons,headerLine]
    simp only [List.length_append]
    have two : crlf.length = 2 := rfl
    omega

theorem Frames.told {fields : Fields} {size : Nat} (frames : Frames fields size) :
    toldLength fields = some size := by
  rw [toldLength,← List.head?_filter,frames.length]
  simp [decimal_stdToString]

/-- A reply that is written in full, or to a HEAD without its body, is read back. -/
theorem readReply_takes {head : Bool} {status : Bytes} {fields : Fields} {size : Nat} {body : Bytes}
    (clear : cr ∉ status) (frames : Frames fields size)
    (whole : body.length = if head then 0 else size) :
    Takes (readReply head) (⟨status,fields,body⟩ : Reply).text ⟨status,fields,body⟩ := by
  intro rest
  have line := readLine_takes clear (headerBlock fields ++ (body ++ rest))
  have enough : fields.length < (headerBlock fields ++ (body ++ rest)).length := by
    have := headerBlock_length fields
    rw [List.length_append]
    omega
  have block := headerBlock_takes frames.names (fun one member => (frames.values one member).1) enough
    (body ++ rest)
  have size : bodySize head fields = some body.length := by
    rw [bodySize,whole,frames.told]
    split <;> rfl
  have inside : ¬ (body ++ rest).length < body.length := by simp
  rw [readReply,Reply.text]
  simp only [List.append_assoc] at line ⊢
  simp only [line,block,size,bind,Option.bind,if_neg inside,List.take_left' rfl,List.drop_left' rfl]
  rfl

/-- What is sent for an error, where the status is not parted from the reason. -/
def errorReply (errNum : Nat) (shortMsg : Bytes) : Reply where
  status := bytes "HTTP/1.1 " ++ stdToString errNum ++ shortMsg
  fields := [(bytes "Server",bytes "Answerhua's Web Server"),(bytes "Content-Type",bytes "text/html"),
    (bytes "Connection",bytes "Close"),
    (contentLength,stdToString (errorBody errNum shortMsg).length)]
  body := errorBody errNum shortMsg

theorem errorReply_text (errNum : Nat) (shortMsg : Bytes) :
    (errorReply errNum shortMsg).text = errorHeader errNum shortMsg ++ errorBody errNum shortMsg := by
  have server : bytes "Server: Answerhua's Web Server\r\n" =
      bytes "Server" ++ bytes ": " ++ bytes "Answerhua's Web Server" ++ crlf := by decide
  have type : bytes "Content-Type: text/html\r\n" =
      bytes "Content-Type" ++ bytes ": " ++ bytes "text/html" ++ crlf := by decide
  have connection : bytes "Connection: Close\r\n" =
      bytes "Connection" ++ bytes ": " ++ bytes "Close" ++ crlf := by decide
  have length : bytes "Content-Length: " = contentLength ++ bytes ": " := by decide
  unfold Reply.text errorReply errorHeader headerBlock
  rw [server,type,connection,length]
  simp only [headerLine,List.flatMap_cons,List.flatMap_nil,List.append_assoc,List.append_nil]

theorem errorReply_frames (errNum : Nat) (shortMsg : Bytes) :
    Frames (errorReply errNum shortMsg).fields (errorReply errNum shortMsg).body.length := by
  have length := stdToString_lines (errorBody errNum shortMsg).length
  have one_length : bytes "Server" ≠ contentLength ∧ bytes "Content-Type" ≠ contentLength ∧
      bytes "Connection" ≠ contentLength := by decide
  have text : (cr ∉ bytes "Answerhua's Web Server" ∧ lf ∉ bytes "Answerhua's Web Server") ∧
      (cr ∉ bytes "text/html" ∧ lf ∉ bytes "text/html") ∧
      cr ∉ bytes "Close" ∧ lf ∉ bytes "Close" := by decide
  refine ⟨?_,?_,?_⟩
  · simp only [errorReply,FieldName,List.forall_mem_cons]
    decide
  · simp [errorReply,length,text]
  · simp [errorReply,one_length]

end Deon.Http
