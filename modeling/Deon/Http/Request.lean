import Deon.Library.Find
import Deon.Strings
import Mathlib.Data.Finmap

/-! `HttpRequest.h` and the request line: the fields a request is parsed into and
`Http::parseRequestLine`, with the defaults and the partial updates that its
error returns leave behind. -/
namespace Deon.Http
open Library

inductive Method
  | invalid
  | post
  | get
  | head
  deriving DecidableEq, Repr

inductive Version
  | unknown
  | http10
  | http11
  deriving DecidableEq, Repr

/-- `std::map<std::string, std::string>`. -/
abbrev Headers := Finmap (fun _ : Bytes => Bytes)

structure HttpRequest where
  method : Method
  version : Version
  uri : Bytes
  headers : Headers
  deriving DecidableEq

/-- `HttpRequest::requestInit`, also the state of a new request. -/
def requestInit : HttpRequest := ⟨.invalid,.unknown,[],∅⟩

def HttpRequest.setHeader (request : HttpRequest) (key value : Bytes) : HttpRequest :=
  {request with headers := request.headers.insert key value}

inductive LineState
  | success
  | again
  | error
  deriving DecidableEq, Repr

/-- `text.find(pattern, pos)`. -/
def findFrom (pattern text : Bytes) (pos : Nat) : Option Nat :=
  (find pattern (text.drop pos)).map (pos + ·)

/-- The keyword that is found, in the order the source looks for them, and where. -/
def findMethod (requestLine : Bytes) : Option (Method × Nat) :=
  match find (bytes "GET") requestLine, find (bytes "POST") requestLine,
    find (bytes "HEAD") requestLine with
  | some pos, _, _ => some (.get,pos)
  | none, some pos, _ => some (.post,pos)
  | none, none, some pos => some (.head,pos)
  | none, none, none => none

/-- The file name between the first slash, at `pos`, and the next space. -/
def parseUri (requestLine : Bytes) (pos endUriPos : Nat) : Except Fault Bytes := do
  let tmpFileName ← substrN requestLine (pos + 1) (endUriPos - pos - 1)
  let tmpFileName ← match find [63] tmpFileName with
    | some endUriPos => substrN tmpFileName 0 endUriPos
    | none => pure tmpFileName
  pure (if tmpFileName = [] then bytes "index.html" else tmpFileName)

/-- The request line after its keyword, which stands at `pos`. -/
def parseTarget (requestLine : Bytes) (pos : Nat) (request : HttpRequest) :
    Except Fault (LineState × HttpRequest) :=
  match findFrom [47] requestLine pos with
  | none => .ok (.success,{request with version := .http11,uri := bytes "index.html"})
  | some pos =>
    match findFrom [space] requestLine pos with
    | none => .ok (.error,request)
    | some endUriPos => do
      let uri ← parseUri requestLine pos endUriPos
      let request := {request with uri := uri}
      match findFrom [47] requestLine (pos + 1) with
      | none => .ok (.error,request)
      | some pos => do
        let version ← substrN requestLine (pos + 1) 3
        if version = bytes "1.0" then .ok (.success,{request with version := .http10})
        else if version = bytes "1.1" then .ok (.success,{request with version := .http11})
        else .ok (.error,request)

/-- `Http::parseRequestLine` on the line it has cut off. -/
def parseLine (requestLine : Bytes) (request : HttpRequest) :
    Except Fault (LineState × HttpRequest) :=
  match findMethod requestLine with
  | none => .ok (.error,request)
  | some (method,pos) => parseTarget requestLine pos {request with method := method}

/-- `Http::parseRequestLine`: its result, the buffer and `request_` after it. -/
def parseRequestLine (httpRequest : Bytes) (request : HttpRequest) :
    Except Fault (LineState × Bytes × HttpRequest) :=
  match find crlf httpRequest with
  | none => .ok (.again,httpRequest,request)
  | some pos => do
    let requestLine ← substrN httpRequest 0 pos
    let httpRequest ←
      (if pos + 2 < httpRequest.length then substr httpRequest (pos + 2) else pure [])
    let (rc,request) ← parseLine requestLine request
    return (rc,httpRequest,request)

theorem findFrom_bound {pattern text : Bytes} {pos i : Nat}
    (found : findFrom pattern text pos = some i) : pos ≤ i ∧ i + pattern.length ≤ max pos text.length := by
  obtain ⟨j,inside,rfl⟩ := Option.map_eq_some_iff.mp found
  have bound := find_bound inside
  simp only [List.length_drop] at bound
  omega

theorem parseUri_ok (requestLine : Bytes) {pos : Nat} (endUriPos : Nat)
    (inside : pos < requestLine.length) : ∃ uri, parseUri requestLine pos endUriPos = .ok uri := by
  unfold parseUri
  rw [substrN_take _ (by omega)]
  simp only [bind,Except.bind]
  split
  · rename_i stop found
    rw [substrN_take _ (Nat.zero_le _)]
    exact ⟨_,rfl⟩
  · exact ⟨_,rfl⟩

/-- No position that the request line parser hands to `substr` is out of range. -/
theorem parseTarget_ok (requestLine : Bytes) (pos : Nat) (request : HttpRequest) :
    ∃ rc after, parseTarget requestLine pos request = .ok (rc,after) := by
  unfold parseTarget
  split
  · exact ⟨_,_,rfl⟩
  · rename_i slash found
    have inside := findFrom_bound found
    simp only [List.length_cons,List.length_nil] at inside
    split
    · exact ⟨_,_,rfl⟩
    · rename_i stop _
      by_cases within : slash < requestLine.length
      · obtain ⟨uri,parsed⟩ := parseUri_ok requestLine stop within
        rw [parsed]
        simp only [bind,Except.bind]
        split
        · exact ⟨_,_,rfl⟩
        · rename_i second again
          have next := findFrom_bound again
          simp only [List.length_cons,List.length_nil] at next
          rw [substrN_take _ (by omega)]
          dsimp only
          split_ifs <;> exact ⟨_,_,rfl⟩
      · exfalso
        obtain ⟨j,at_j,rfl⟩ := Option.map_eq_some_iff.mp found
        have bound := find_bound at_j
        simp only [List.length_drop,List.length_cons,List.length_nil] at bound
        omega

theorem parseLine_ok (requestLine : Bytes) (request : HttpRequest) :
    ∃ rc after, parseLine requestLine request = .ok (rc,after) := by
  unfold parseLine
  split
  · exact ⟨_,_,rfl⟩
  · exact parseTarget_ok _ _ _

/-- The line parser asks for no more bytes, and behind the keyword it sets two fields. -/
theorem parseTarget_sets {requestLine : Bytes} {pos : Nat} {request after : HttpRequest}
    {rc : LineState} (parsed : parseTarget requestLine pos request = .ok (rc,after)) :
    rc ≠ .again ∧ ∃ version uri, after = {request with version := version,uri := uri} := by
  unfold parseTarget at parsed
  split at parsed
  · obtain ⟨rfl,rfl⟩ := Prod.mk.inj (Except.ok.inj parsed)
    exact ⟨by decide,_,_,rfl⟩
  · split at parsed
    · obtain ⟨rfl,rfl⟩ := Prod.mk.inj (Except.ok.inj parsed)
      exact ⟨by decide,_,_,rfl⟩
    · rename_i slash _ _ stop _
      cases named : parseUri requestLine slash stop with
      | error fault => simp [named,bind,Except.bind] at parsed
      | ok uri =>
        simp only [named,bind,Except.bind] at parsed
        split at parsed
        · obtain ⟨rfl,rfl⟩ := Prod.mk.inj (Except.ok.inj parsed)
          exact ⟨by decide,_,_,rfl⟩
        · rename_i second _
          cases cut : substrN requestLine (second + 1) 3 with
          | error fault => simp [cut] at parsed
          | ok version =>
            simp only [cut] at parsed
            split_ifs at parsed <;> obtain ⟨rfl,rfl⟩ := Prod.mk.inj (Except.ok.inj parsed) <;>
              exact ⟨by decide,_,_,rfl⟩

theorem parseTarget_result {requestLine : Bytes} {pos : Nat} {request after : HttpRequest}
    {rc : LineState} (parsed : parseTarget requestLine pos request = .ok (rc,after)) :
    rc ≠ .again ∧ after.headers = request.headers := by
  obtain ⟨answered,_,_,rfl⟩ := parseTarget_sets parsed
  exact ⟨answered,rfl⟩

theorem parseLine_result {requestLine : Bytes} {request after : HttpRequest} {rc : LineState}
    (parsed : parseLine requestLine request = .ok (rc,after)) :
    rc ≠ .again ∧ after.headers = request.headers := by
  unfold parseLine at parsed
  split at parsed
  · obtain ⟨rfl,rfl⟩ := Prod.mk.inj (Except.ok.inj parsed)
    exact ⟨by decide,rfl⟩
  · rename_i method pos _
    exact @parseTarget_result requestLine pos {request with method := method} after rc parsed

theorem find_crlf {buffer : Bytes} {pos : Nat} (found : find crlf buffer = some pos) :
    buffer = buffer.take pos ++ crlf ++ buffer.drop (pos + 2) ∧
      ¬crlf <:+: buffer.take pos ++ [cr] := by
  obtain ⟨rest,same⟩ := find_at found
  have behind : buffer.drop (pos + 2) = rest := by
    rw [← List.drop_drop,← same]
    rfl
  have byte : buffer[pos]? = some cr := by
    rw [← List.head?_drop,← same]
    rfl
  obtain ⟨within,here⟩ := List.getElem?_eq_some_iff.mp byte
  have front : buffer.take pos ++ [cr] = buffer.take (pos + 1) := by
    rw [List.take_succ_eq_append_getElem within,here]
  constructor
  · rw [behind,List.append_assoc,same,List.take_append_drop]
  · rw [front]
    exact find_earliest found (Nat.add_lt_add_left (by decide) pos)

theorem parseRequestLine_found {buffer : Bytes} {pos : Nat} (request : HttpRequest)
    (found : find crlf buffer = some pos) :
    parseRequestLine buffer request =
      (parseLine (buffer.take pos) request).map (fun out => (out.1,buffer.drop (pos + 2),out.2)) := by
  have bound : pos + 2 ≤ buffer.length := by simpa [crlf] using find_bound found
  have rest : (if pos + 2 < buffer.length then substr buffer (pos + 2) else pure []) =
      Except.ok (buffer.drop (pos + 2)) := by
    split_ifs with more
    · exact substr_drop bound
    · rw [List.drop_eq_nil_of_le (by omega)]
      rfl
  unfold parseRequestLine
  rw [found]
  dsimp only
  rw [substrN_take pos (Nat.zero_le _),rest]
  rfl

theorem parseRequestLine_ok (buffer : Bytes) (request : HttpRequest) :
    ∃ rc rest after, parseRequestLine buffer request = .ok (rc,rest,after) := by
  cases found : find crlf buffer with
  | none => exact ⟨.again,buffer,request,by simp [parseRequestLine,found]⟩
  | some pos =>
    obtain ⟨rc,after,parsed⟩ := parseLine_ok (buffer.take pos) request
    exact ⟨rc,buffer.drop (pos + 2),after,by rw [parseRequestLine_found request found,parsed]; rfl⟩

end Deon.Http
