import Deon.Http.Request
import Deon.Library.Fallible
import Deon.Logging.FixedBuffer

/-! `Http::parseRequestLine` with the ints of the source: what a search returns is cut down to an
int, `npos` too, and what is computed from it goes to `substr` with its sign. For a buffer that
fits an int no position leaves its string, no length is negative, and the line is consumed
exactly. -/
namespace Deon.Http
open Library Logging

/-- `std::string::npos` -/
def npos : Nat := 2^64 - 1

/-- The `size_t` that an int is converted to. -/
def toSize (n : Int) : Nat := (n % 2^64).toNat

/-- `int pos = text.find(pattern, start)` -/
def findInt (pattern text : Bytes) (start : Int) : Int :=
  toInt ((findFrom pattern text (toSize start)).getD npos)

/-- `s.substr(pos, n)`, refused where it does not begin within the string or `n` is negative. -/
def cutInt (s : Bytes) (pos n : Int) : Except Fault Bytes :=
  if pos < 0 ∨ s.length < pos then .error .substrOutOfRange
  else if n < 0 then .error .lengthError
  else substrN s (toSize pos) (toSize n)

/-- `s.substr(pos)`, refused where it does not begin within the string. -/
def cutFromInt (s : Bytes) (pos : Int) : Except Fault Bytes :=
  if pos < 0 ∨ s.length < pos then .error .substrOutOfRange else substr s (toSize pos)

def parseUriInt (requestLine : Bytes) (pos endUriPos : Int) : Except Fault Bytes := do
  let tmpFileName ← cutInt requestLine (pos + 1) (endUriPos - pos - 1)
  let endUriPos := findInt [63] tmpFileName 0
  let tmpFileName ← (if endUriPos ≥ 0 then cutInt tmpFileName 0 endUriPos else pure tmpFileName)
  pure (if tmpFileName = [] then bytes "index.html" else tmpFileName)

def parseTargetInt (requestLine : Bytes) (pos : Int) (request : HttpRequest) :
    Except Fault (LineState × HttpRequest) :=
  let pos := findInt [47] requestLine pos
  if pos < 0 then .ok (.success,{request with version := .http11,uri := bytes "index.html"})
  else
    let endUriPos := findInt [space] requestLine pos
    if endUriPos < 0 then .ok (.error,request)
    else do
      let uri ← parseUriInt requestLine pos endUriPos
      let request := {request with uri := uri}
      let pos := findInt [47] requestLine (pos + 1)
      if pos < 0 then .ok (.error,request)
      else do
        let version ← cutInt requestLine (pos + 1) 3
        if version = bytes "1.0" then .ok (.success,{request with version := .http10})
        else if version = bytes "1.1" then .ok (.success,{request with version := .http11})
        else .ok (.error,request)

def parseLineInt (requestLine : Bytes) (request : HttpRequest) :
    Except Fault (LineState × HttpRequest) :=
  let posGet := findInt (bytes "GET") requestLine 0
  let posPost := findInt (bytes "POST") requestLine 0
  let posHead := findInt (bytes "HEAD") requestLine 0
  if posGet ≥ 0 then parseTargetInt requestLine posGet {request with method := .get}
  else if posPost ≥ 0 then parseTargetInt requestLine posPost {request with method := .post}
  else if posHead ≥ 0 then parseTargetInt requestLine posHead {request with method := .head}
  else .ok (.error,request)

def parseRequestLineInt (httpRequest : Bytes) (request : HttpRequest) :
    Except Fault (LineState × Bytes × HttpRequest) :=
  let pos := findInt crlf httpRequest 0
  if pos < 0 then .ok (.again,httpRequest,request)
  else do
    let requestLine ← cutInt httpRequest 0 pos
    let httpRequest ←
      (if toInt httpRequest.length > pos + 2 then cutFromInt httpRequest (pos + 2) else pure [])
    let (rc,request) ← parseLineInt requestLine request
    return (rc,httpRequest,request)

theorem findFrom_zero (pattern text : Bytes) : findFrom pattern text 0 = find pattern text := by
  rw [findFrom,List.drop_zero]
  simp

theorem toSize_small {n : Nat} (small : n < 2^31) : toSize n = n := by
  unfold toSize
  omega

section

variable {s text : Bytes} {pos n start : Nat}

/-- A search from within the text answers -1 or the position that it has found. -/
theorem findInt_cases (pattern : Bytes) (small : text.length < 2^31) (inside : start ≤ text.length) :
    (findFrom pattern text start = none ∧ findInt pattern text start = -1) ∨
      ∃ i : Nat, findFrom pattern text start = some i ∧ findInt pattern text start = i ∧
        start ≤ i ∧ i + pattern.length ≤ text.length := by
  unfold findInt
  rw [toSize_small (by omega)]
  cases found : findFrom pattern text start with
  | none => exact .inl ⟨rfl,rfl⟩
  | some i =>
    have bound := findFrom_bound found
    exact .inr ⟨i,rfl,toInt_small (by rw [Option.getD_some]; omega),bound.1,by omega⟩

theorem findInt_zero_cases (pattern : Bytes) (small : text.length < 2^31) :
    (find pattern text = none ∧ findInt pattern text 0 = -1) ∨
      ∃ i : Nat, find pattern text = some i ∧ findInt pattern text 0 = i ∧
        i + pattern.length ≤ text.length := by
  have cases := findInt_cases pattern small (Nat.zero_le _)
  rw [findFrom_zero] at cases
  rcases cases with ⟨absent,answer⟩ | ⟨i,found,answer,_,bound⟩
  · exact .inl ⟨absent,answer⟩
  · exact .inr ⟨i,found,answer,bound⟩

theorem cutInt_substrN (small : s.length < 2^31) (inside : pos ≤ s.length) (fits : n < 2^31) :
    cutInt s pos n = substrN s pos n := by
  unfold cutInt
  rw [if_neg (by omega),if_neg (by omega),toSize_small (by omega),toSize_small fits]

theorem cutFromInt_substr (small : s.length < 2^31) (inside : pos ≤ s.length) :
    cutFromInt s pos = substr s pos := by
  unfold cutFromInt
  rw [if_neg (by omega),toSize_small (by omega)]

theorem findFrom_element {c : UInt8} {i : Nat} (found : findFrom [c] text pos = some i) :
    text[i]? = some c := by
  obtain ⟨j,inside,rfl⟩ := Option.map_eq_some_iff.mp found
  obtain ⟨after,same⟩ := find_at inside
  have head := congrArg List.head? same
  rw [List.drop_drop,List.head?_drop] at head
  exact head.symm

end

variable {requestLine : Bytes} {pos endUriPos : Nat}

theorem parseUri_exact (small : requestLine.length < 2^31) (ordered : pos < endUriPos)
    (inside : endUriPos ≤ requestLine.length) :
    parseUriInt requestLine pos endUriPos = parseUri requestLine pos endUriPos := by
  have start : (pos : Int) + 1 = (pos + 1 : Nat) := by omega
  have length : (endUriPos : Int) - pos - 1 = (endUriPos - pos - 1 : Nat) := by omega
  have behind : pos + 1 ≤ requestLine.length := by omega
  have fits : endUriPos - pos - 1 < 2^31 := by omega
  unfold parseUriInt parseUri
  rw [start,length,cutInt_substrN small behind fits,substrN_take _ behind]
  rw [ok_bind,ok_bind]
  generalize cut : (requestLine.drop (pos + 1)).take (endUriPos - pos - 1) = name
  have shorter : name.length < 2^31 := by
    rw [← cut,List.length_take,List.length_drop]
    omega
  rcases findInt_zero_cases [63] shorter with ⟨absent,answer⟩ | ⟨i,found,answer,bound⟩
  · rw [absent,answer]
    dsimp only
    rw [if_neg (by omega)]
  · have second : cutInt name (0 : Nat) i = substrN name 0 i :=
      cutInt_substrN shorter (Nat.zero_le _) (by omega)
    rw [Int.natCast_zero] at second
    rw [found,answer]
    dsimp only
    rw [if_pos (by omega),second]

theorem parseTarget_exact (small : requestLine.length < 2^31) (inside : pos ≤ requestLine.length)
    (request : HttpRequest) :
    parseTargetInt requestLine pos request = parseTarget requestLine pos request := by
  unfold parseTargetInt parseTarget
  rcases findInt_cases [47] small inside with ⟨absent,answer⟩ | ⟨slash,found,answer,_,bound⟩
  · rw [absent,answer,if_pos (by decide)]
  have within : slash < requestLine.length := by
    rw [List.length_singleton] at bound
    omega
  rw [found,answer,if_neg (by omega)]
  dsimp only
  rcases findInt_cases [space] small within.le with ⟨absent,answer⟩ | ⟨stop,ended,answer,after,bound'⟩
  · rw [absent,answer,if_pos (by decide)]
  -- the slash is not the space behind it, so that the name's length is not negative
  have ordered : slash < stop := by
    refine Nat.lt_of_le_of_ne after fun same => ?_
    have first := findFrom_element found
    rw [same,findFrom_element ended] at first
    cases first
  rw [ended,answer,if_neg (by omega),parseUri_exact small ordered (by omega)]
  dsimp only
  refine congrArg (Bind.bind _) (funext fun uri => ?_)
  have start : (slash : Int) + 1 = (slash + 1 : Nat) := by omega
  rw [start]
  rcases findInt_cases [47] small within with ⟨absent,answer⟩ | ⟨second,again,answer,_,bound''⟩
  · rw [absent,answer,if_pos (by decide)]
  · have start' : (second : Int) + 1 = (second + 1 : Nat) := by omega
    rw [List.length_singleton] at bound''
    have cut := cutInt_substrN (n := 3) small bound'' (by omega)
    rw [again,answer,if_neg (by omega),start']
    rw [Int.cast_ofNat_Int] at cut
    rw [cut]

theorem parseLine_exact (small : requestLine.length < 2^31) (request : HttpRequest) :
    parseLineInt requestLine request = parseLine requestLine request := by
  unfold parseLineInt parseLine findMethod
  rcases findInt_zero_cases (bytes "GET") small with ⟨noGet,get⟩ | ⟨i,found,get,bound⟩
  · rcases findInt_zero_cases (bytes "POST") small with ⟨noPost,post⟩ | ⟨i,found,post,bound⟩
    · rcases findInt_zero_cases (bytes "HEAD") small with ⟨noHead,head⟩ | ⟨i,found,head,bound⟩
      · rw [noGet,noPost,noHead,get,post,head]
        dsimp only
        rw [if_neg (by omega),if_neg (by omega),if_neg (by omega)]
      · rw [noGet,noPost,found,get,post,head]
        dsimp only
        rw [if_neg (by omega),if_neg (by omega),if_pos (by omega)]
        exact parseTarget_exact small (by omega) _
    · rw [noGet,found,get,post]
      dsimp only
      rw [if_neg (by omega),if_pos (by omega)]
      exact parseTarget_exact small (by omega) _
  · rw [found,get]
    dsimp only
    rw [if_pos (by omega)]
    exact parseTarget_exact small (by omega) _

/-- With every cut checked, a call does what it does without the checks. -/
theorem parseRequestLineInt_exact {buffer : Bytes} (small : buffer.length < 2^31)
    (request : HttpRequest) : parseRequestLineInt buffer request = parseRequestLine buffer request := by
  unfold parseRequestLineInt parseRequestLine
  rcases findInt_zero_cases crlf small with ⟨absent,answer⟩ | ⟨pos,found,answer,bound⟩
  · rw [absent,answer]
    dsimp only
    rw [if_pos (by omega)]
  · have inside : pos ≤ buffer.length := by omega
    have first : cutInt buffer (0 : Nat) pos = substrN buffer 0 pos :=
      cutInt_substrN small (Nat.zero_le _) (by omega)
    have behind : (pos : Int) + 2 = (pos + 2 : Nat) := by omega
    have fits : (crlf : Bytes).length = 2 := rfl
    have second : cutFromInt buffer (pos + 2 : Nat) = substr buffer (pos + 2) :=
      cutFromInt_substr small (by omega)
    have shorter : (buffer.take pos).length < 2^31 := by
      rw [List.length_take]
      omega
    rw [Int.natCast_zero] at first
    rw [found,answer]
    dsimp only
    rw [if_neg (by omega),first,substrN_take pos (Nat.zero_le _),ok_bind,ok_bind,behind,second,
      toInt_small small,List.drop_zero,parseLine_exact shorter]
    simp only [gt_iff_lt,Int.ofNat_lt]

/-- A buffer is left as it is exactly when it holds no CRLF; otherwise what is taken from it ends
with the first one. -/
theorem parseRequestLine_exact (buffer : Bytes) (request : HttpRequest) (small : buffer.length < 2^31) :
    parseRequestLineInt buffer request = parseRequestLine buffer request ∧
    ∃ rc rest after, parseRequestLineInt buffer request = .ok (rc,rest,after) ∧
      (rc = .again ↔ ¬crlf <:+: buffer) ∧
      (rc = .again → rest = buffer ∧ after = request) ∧
      (rc ≠ .again → ∃ line, buffer = line ++ crlf ++ rest ∧ ¬crlf <:+: line ++ [cr]) := by
  refine ⟨parseRequestLineInt_exact small request,?_⟩
  rw [parseRequestLineInt_exact small]
  cases found : find crlf buffer with
  | none =>
    have waits : parseRequestLine buffer request = .ok (.again,buffer,request) := by
      rw [parseRequestLine,found]
    refine ⟨_,_,_,waits,?_,fun _ => ⟨rfl,rfl⟩,fun other => absurd rfl other⟩
    exact iff_of_true rfl (find_eq_none_iff.mp found)
  | some pos =>
    obtain ⟨rc,after,parsed⟩ := parseLine_ok (buffer.take pos) request
    have answered := (parseLine_result parsed).1
    have present : crlf <:+: buffer := by
      by_contra absent
      rw [find_eq_none_iff.mpr absent] at found
      cases found
    refine ⟨rc,buffer.drop (pos + 2),after,?_,?_,?_,?_⟩
    · rw [parseRequestLine_found request found,parsed]
      rfl
    · exact iff_of_false answered fun absent => absent present
    · exact fun again => absurd again answered
    · exact fun _ => ⟨buffer.take pos,find_crlf found⟩

theorem parseRequestLine_exact_empty_name :
    (bytes "GET /?a /1.1\r\nHost").length < 2^31 ∧
      parseRequestLineInt (bytes "GET /?a /1.1\r\nHost") requestInit =
        parseRequestLine (bytes "GET /?a /1.1\r\nHost") requestInit :=
  ⟨by decide,(parseRequestLine_exact (bytes "GET /?a /1.1\r\nHost") requestInit (by decide)).1⟩

end Deon.Http
