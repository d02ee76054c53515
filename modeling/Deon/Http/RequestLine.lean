import Deon.Http.Request

/-! The request line as a client writes it, and when `parseRequestLine` reads it back. The
parser searches for the keywords anywhere in the line, and for the version behind the
second slash. -/
namespace Deon.Http
open Library

abbrev slash : UInt8 := 47
abbrev question : UInt8 := 63

def keyword : Method → Bytes
  | .get => bytes "GET"
  | .post => bytes "POST"
  | .head => bytes "HEAD"
  | .invalid => []

def versionText : Version → Bytes
  | .http10 => bytes "1.0"
  | .http11 => bytes "1.1"
  | .unknown => []

structure RequestLine where
  method : Method
  path : Bytes
  query : Option Bytes
  version : Version
  known : method ≠ .invalid ∧ version ≠ .unknown
  pathFits : space ∉ path ∧ question ∉ path ∧ cr ∉ path ∧ lf ∉ path
  queryFits : ∀ q ∈ query, space ∉ q ∧ cr ∉ q ∧ lf ∉ q

namespace RequestLine

/-- What follows the leading slash. -/
def target (line : RequestLine) : Bytes :=
  line.path ++ match line.query with
    | none => []
    | some q => question :: q

def text (line : RequestLine) : Bytes :=
  keyword line.method ++ bytes " /" ++ line.target ++ bytes " HTTP/" ++ versionText line.version

def uri (line : RequestLine) : Bytes := if line.path = [] then bytes "index.html" else line.path

end RequestLine

/-- The keywords that the source looks for before that of the method. -/
def earlier : Method → List Method
  | .post => [.get]
  | .head => [.get,.post]
  | .get | .invalid => []

theorem earlier_known {method other : Method} (member : other ∈ earlier method) :
    other ≠ .invalid ∧ other ≠ method := by
  revert member
  cases method <;> cases other <;> decide

/-- The keyword that is found: no earlier one stands anywhere in the line. -/
theorem findMethod_iff {requestLine : Bytes} {method : Method} {pos : Nat} :
    findMethod requestLine = some (method,pos) ↔
      (method ≠ .invalid ∧ find (keyword method) requestLine = some pos) ∧
        ∀ other ∈ earlier method, ¬ keyword other <:+: requestLine := by
  unfold findMethod
  cases get : find (bytes "GET") requestLine <;> cases post : find (bytes "POST") requestLine <;>
    cases head : find (bytes "HEAD") requestLine <;> cases method <;>
    simp [keyword,earlier,get,post,head,← find_eq_none_iff]

theorem findMethod_some {requestLine : Bytes} {method : Method} {pos : Nat}
    (known : method ≠ .invalid) (found : find (keyword method) requestLine = some pos) :
    findMethod requestLine ≠ none := by
  unfold findMethod
  cases get : find (bytes "GET") requestLine <;> cases post : find (bytes "POST") requestLine <;>
    cases head : find (bytes "HEAD") requestLine <;> cases method <;> simp_all [keyword]

/-- No earlier keyword stands in the target, and behind its first slash, if it has one,
stands the version. -/
def Unmistakable (line : RequestLine) : Prop :=
  (∀ other ∈ earlier line.method, ¬ keyword other <:+: line.target) ∧
    ∀ pos, find [slash] line.target = some pos →
      versionText line.version <+: line.target.drop (pos + 1)

def ReadBack (line : RequestLine) (rest : Bytes) (request : HttpRequest) : Prop :=
  ∃ after, parseRequestLine (line.text ++ crlf ++ rest) request = .ok (.success,rest,after) ∧
    after.method = line.method ∧ after.uri = line.uri ∧ after.version = line.version

namespace RequestLine

theorem target_fits (line : RequestLine) : space ∉ line.target ∧ cr ∉ line.target := by
  obtain ⟨_,_,query,_,_,⟨noSpace,_,noCr,_⟩,queryFits⟩ := line
  cases query with
  | none => simp [target,noSpace,noCr]
  | some q =>
    obtain ⟨querySpace,queryCr,_⟩ := queryFits q rfl
    have apart : ¬ space = question ∧ ¬ cr = question := by decide
    simp [target,noSpace,noCr,querySpace,queryCr,apart]

theorem text_cr (line : RequestLine) : cr ∉ line.text := by
  have clear := line.target_fits.2
  have fixed : ∀ method version, cr ∉ keyword method ∧ cr ∉ versionText version ∧
      cr ∉ bytes " /" ∧ cr ∉ bytes " HTTP/" := by
    intro method version
    cases method <;> cases version <;> decide
  obtain ⟨one,two,three,four⟩ := fixed line.method line.version
  simp [text,clear,one,two,three,four]

theorem text_parts (line : RequestLine) : line.text =
    keyword line.method ++ space :: ([] ++ slash :: (line.target ++ space ::
      (bytes "HTTP" ++ slash :: versionText line.version))) := by
  have front : bytes " /" = [space,slash] := rfl
  have back : bytes " HTTP/" = space :: (bytes "HTTP" ++ [slash]) := rfl
  simp only [text,front,back,List.append_assoc,List.cons_append,List.nil_append]

/-- A keyword stands in the line where it stands in the target, or is the line's own. -/
theorem keyword_infix (line : RequestLine) {other : Method} (known : other ≠ .invalid) :
    keyword other <:+: line.text ↔ other = line.method ∨ keyword other <:+: line.target := by
  have clear : space ∉ keyword other ∧ slash ∉ keyword other := by
    cases other <;> first | exact absurd rfl known | decide
  have own : ∀ method, keyword other <:+: keyword method ↔ other = method := by
    intro method
    cases other <;> cases method <;> first | exact absurd rfl known | decide
  have back : ¬ keyword other <:+: bytes "HTTP" ∧ ¬ keyword other <:+: [] ∧
      ∀ version, ¬ keyword other <:+: versionText version := by
    refine ⟨?_,?_,?_⟩
    · cases other <;> first | exact absurd rfl known | decide
    · cases other <;> first | exact absurd rfl known | decide
    · intro version
      cases other <;> cases version <;> first | exact absurd rfl known | decide
  rw [text_parts,infix_across clear.1,infix_across clear.2,infix_across clear.1,infix_across clear.2,
    own]
  simp [back]

theorem keyword_first (line : RequestLine) : find (keyword line.method) line.text = some 0 := by
  apply find_front
  simp only [text,List.append_assoc]
  exact List.prefix_append _ _

theorem findMethod_own (line : RequestLine)
    (clear : ∀ other ∈ earlier line.method, ¬ keyword other <:+: line.target) :
    findMethod line.text = some (line.method,0) := by
  refine findMethod_iff.mpr ⟨⟨line.known.1,line.keyword_first⟩,?_⟩
  intro other member
  have known := earlier_known member
  rw [line.keyword_infix known.1]
  rintro (same | inside)
  · exact known.2 same
  · exact clear other member inside

/-- An earlier keyword anywhere in the target is taken for the method. -/
theorem findMethod_earlier (line : RequestLine) {other : Method} (member : other ∈ earlier line.method)
    (inside : keyword other <:+: line.target) :
    ∃ found pos, findMethod line.text = some (found,pos) ∧ found ≠ line.method := by
  have present := (line.keyword_infix (earlier_known member).1).mpr (.inr inside)
  obtain ⟨⟨found,pos⟩,looked⟩ :=
    Option.ne_none_iff_exists'.mp (findMethod_some line.known.1 line.keyword_first)
  refine ⟨found,pos,looked,?_⟩
  rintro rfl
  exact (findMethod_iff.mp looked).2 other member present

/-- The part of the line behind the leading slash. -/
def tail (line : RequestLine) : Bytes :=
  line.target ++ space :: (bytes "HTTP" ++ slash :: versionText line.version)

theorem text_tail (line : RequestLine) :
    line.text = (keyword line.method ++ [space]) ++ slash :: line.tail := by
  rw [text_parts,tail]
  simp

theorem parseUri_text (line : RequestLine) {pos : Nat} (leading : line.text.drop (pos + 1) = line.tail)
    (inside : pos < line.text.length) :
    parseUri line.text pos (pos + (line.target.length + 1)) = .ok line.uri := by
  have length : pos + (line.target.length + 1) - pos - 1 = line.target.length := by omega
  unfold parseUri
  rw [substrN_take _ inside,leading,length,tail,List.take_left' rfl]
  simp only [bind,Except.bind]
  cases asked : line.query with
  | none =>
    have whole : line.target = line.path := by simp [target,asked]
    have absent : find [63] line.path = none := by
      rw [find_eq_none_iff,List.singleton_infix_iff]
      exact line.pathFits.2.1
    rw [whole,absent]
    rfl
  | some q =>
    have whole : line.target = line.path ++ question :: q := by simp [target,asked]
    rw [whole,find_element line.pathFits.2.1]
    dsimp only
    rw [substrN_take _ (Nat.zero_le _),List.drop_zero,List.take_left' rfl]
    rfl

/-- The whole line, once its first slash is known: the version is what stands behind the
next slash. -/
theorem parseTarget_text (line : RequestLine) (request : HttpRequest) {before after : Bytes}
    (clear : slash ∉ before) (parts : line.tail = before ++ slash :: after) :
    parseTarget line.text 0 request =
      if after.take 3 = bytes "1.0" then .ok (.success,{request with uri := line.uri,version := .http10})
      else if after.take 3 = bytes "1.1" then
        .ok (.success,{request with uri := line.uri,version := .http11})
      else .ok (.error,{request with uri := line.uri}) := by
  have noSlash : slash ∉ keyword line.method ++ [space] := by
    cases line.method <;> decide
  have whole := line.text_tail
  generalize keyword line.method ++ [space] = front at noSlash whole
  have atSlash : line.text.drop front.length = slash :: line.tail := by
    rw [whole]
    exact List.drop_left' rfl
  have leading : line.text.drop (front.length + 1) = line.tail := by
    rw [← List.drop_drop,atSlash,List.drop_one,List.tail_cons]
  have rest : line.text.drop (front.length + 1 + before.length + 1) = after := by
    rw [← List.drop_drop,← List.drop_drop,leading,parts,List.drop_left' rfl,List.drop_one,List.tail_cons]
  have length : line.text.length = front.length + 1 + before.length + 1 + after.length := by
    rw [whole,parts]
    simp only [List.length_append,List.length_cons]
    omega
  have first : findFrom [47] line.text 0 = some front.length := by
    rw [findFrom,List.drop_zero,whole,find_element noSlash,Option.map_some,Nat.zero_add]
  have stop : findFrom [space] line.text front.length = some (front.length + (line.target.length + 1)) := by
    have noSpace : space ∉ slash :: line.target := by
      simp only [List.mem_cons,not_or]
      exact ⟨by decide,line.target_fits.1⟩
    rw [findFrom,atSlash,tail,← List.cons_append,find_element noSpace]
    rfl
  have second : findFrom [47] line.text (front.length + 1) = some (front.length + 1 + before.length) := by
    rw [findFrom,leading,parts,find_element clear]
    rfl
  unfold parseTarget
  rw [first]
  dsimp only
  rw [stop]
  dsimp only
  rw [line.parseUri_text leading (by omega)]
  simp only [bind,Except.bind]
  rw [second]
  dsimp only
  rw [substrN_take _ (by omega),rest]

/-- The version that is read, and when it is that of the line. -/
theorem tail_parts (line : RequestLine) : ∃ before after, slash ∉ before ∧
    line.tail = before ++ slash :: after ∧
      (after.take 3 = versionText line.version ↔ ∀ pos, find [slash] line.target = some pos →
        versionText line.version <+: line.target.drop (pos + 1)) := by
  have size : (versionText line.version).length = 3 ∧ space ∉ versionText line.version := by
    have known := line.known.2
    cases which : line.version with
    | unknown => exact absurd which known
    | http10 => decide
    | http11 => decide
  by_cases some : slash ∈ line.target
  · obtain ⟨before,after,parts,clear⟩ := List.eq_append_cons_of_mem some
    refine ⟨before,after ++ space :: (bytes "HTTP" ++ slash :: versionText line.version),clear,?_,?_⟩
    · rw [tail,parts,List.append_assoc,List.cons_append]
    · rw [parts,find_element clear]
      have behind : (before ++ slash :: after).drop (before.length + 1) = after := by
        rw [← List.drop_drop,List.drop_left' rfl,List.drop_one,List.tail_cons]
      simp only [Option.some.injEq,forall_eq',behind]
      rw [← prefix_across size.2 after,List.prefix_iff_eq_take,size.1,eq_comm]
  · refine ⟨line.target ++ space :: bytes "HTTP",versionText line.version,?_,?_,?_⟩
    · have fixed : slash ∉ space :: bytes "HTTP" := by decide
      simp only [List.mem_append,not_or]
      exact ⟨some,fixed⟩
    · simp [tail]
    · have absent : find [slash] line.target = none := by
        rw [find_eq_none_iff,List.singleton_infix_iff]
        exact some
      have whole : (versionText line.version).take 3 = versionText line.version := by
        rw [← size.1,List.take_length]
      simp [absent,whole]

/-- The line is cut off at its end, wherever the parser then looks. -/
theorem parseRequestLine_text (line : RequestLine) (rest : Bytes) (request : HttpRequest) :
    parseRequestLine (line.text ++ crlf ++ rest) request =
      (parseLine line.text request).map (fun out => (out.1,rest,out.2)) := by
  have found : find crlf (line.text ++ crlf ++ rest) = some line.text.length :=
    find_first line.text_cr [lf] rest
  rw [parseRequestLine_found request found,List.append_assoc,List.take_left' rfl,← List.drop_drop,
    List.drop_left' rfl]
  rfl

theorem parseLine_own (line : RequestLine) (request : HttpRequest)
    (clear : ∀ other ∈ earlier line.method, ¬ keyword other <:+: line.target) :
    parseLine line.text request = parseTarget line.text 0 {request with method := line.method} := by
  unfold parseLine
  rw [line.findMethod_own clear]

/-- The method that is read is right only without an earlier keyword in the target. -/
theorem parseLine_method (line : RequestLine) {request after : HttpRequest} {rc : LineState}
    (parsed : parseLine line.text request = .ok (rc,after)) (same : after.method = line.method) :
    ∀ other ∈ earlier line.method, ¬ keyword other <:+: line.target := by
  intro other member inside
  obtain ⟨found,pos,looked,different⟩ := line.findMethod_earlier member inside
  unfold parseLine at parsed
  rw [looked] at parsed
  obtain ⟨_,_,_,rfl⟩ := parseTarget_sets parsed
  exact different same

end RequestLine

/-- A request line of any path, query and version is read back exactly when no earlier
keyword stands in its target and its first slash stands in front of the version. -/
theorem read_back_iff (line : RequestLine) (rest : Bytes) (request : HttpRequest) :
    ReadBack line rest request ↔ Unmistakable line := by
  obtain ⟨before,behind,clear,parts,fits⟩ := line.tail_parts
  unfold ReadBack Unmistakable
  rw [line.parseRequestLine_text,← fits]
  constructor
  · rintro ⟨after,parsed,method,_,version⟩
    cases read : parseLine line.text request with
    | error fault => simp [read,Except.map] at parsed
    | ok out =>
      obtain ⟨rc,after⟩ := out
      simp only [read,Except.map,Except.ok.injEq,Prod.mk.injEq,true_and] at parsed
      obtain ⟨rfl,rfl⟩ := parsed
      have keywords := line.parseLine_method read method
      refine ⟨keywords,?_⟩
      rw [line.parseLine_own request keywords,line.parseTarget_text _ clear parts] at read
      split_ifs at read with ten eleven <;> simp only [Except.ok.injEq,Prod.mk.injEq,reduceCtorEq,
        false_and,true_and] at read
      · rw [ten,← version,← read]
        rfl
      · rw [eleven,← version,← read]
        rfl
  · rintro ⟨keywords,version⟩
    rw [line.parseLine_own request keywords,line.parseTarget_text _ clear parts,version]
    cases which : line.version with
    | unknown => exact absurd which line.known.2
    | http10 => exact ⟨_,rfl,rfl,rfl,rfl⟩
    | http11 => exact ⟨_,rfl,rfl,rfl,rfl⟩

/-- `GET /a/b HTTP/1.1`. -/
def nestedPath : RequestLine where
  method := .get
  path := bytes "a/b"
  query := none
  version := .http11
  known := by decide
  pathFits := by decide
  queryFits := by simp

/-- `POST /WIDGETS HTTP/1.1`. -/
def namedLikeMethod : RequestLine where
  method := .post
  path := bytes "WIDGETS"
  query := none
  version := .http11
  known := by decide
  pathFits := by decide
  queryFits := by simp

/-- A path of two parts is refused, and so is a POST of a path that holds GET: its slash is
looked for behind the GET. -/
theorem nested_path_refused :
    ¬ ReadBack nestedPath [] requestInit ∧ ¬ ReadBack namedLikeMethod [] requestInit := by
  have nested : parseRequestLine (nestedPath.text ++ crlf ++ []) requestInit =
      .ok (.error,[],{requestInit with method := .get,uri := bytes "a/b"}) := by decide
  have mistaken : parseRequestLine (namedLikeMethod.text ++ crlf ++ []) requestInit =
      .ok (.error,[],{requestInit with method := .get}) := by decide
  constructor
  · rintro ⟨after,parsed,_⟩
    rw [nested] at parsed
    cases parsed
  · rintro ⟨after,parsed,_⟩
    rw [mistaken] at parsed
    cases parsed

end Deon.Http
