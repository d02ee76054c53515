import Deon.Http.RequestLine
import Deon.Library.Fallible
import Mathlib.Data.List.DropRight

/-! The request lines that `parseRequestLine` accepts: what it takes for the method, for the
uri and for the version. -/
namespace Deon.Http
open Library

/-- The uri that the text between the first slash and the next space stands for. -/
def uriOf (target : Bytes) : Bytes :=
  if target.takeWhile (· ≠ question) = [] then bytes "index.html"
  else target.takeWhile (· ≠ question)

/-- Behind the first slash of a line: up to the next space the uri, and behind the next
slash the version. -/
structure Behind (rest : Bytes) (request after : HttpRequest) : Prop where
  target : ∃ target beyond, rest = target ++ space :: beyond ∧ space ∉ target ∧
    after.uri = uriOf target
  version : ∃ path digits, rest = path ++ slash :: digits ∧ slash ∉ path ∧
    digits.take 3 = versionText after.version
  known : after.version ≠ .unknown
  others : after.method = request.method ∧ after.headers = request.headers

theorem findFrom_cut {c : UInt8} {text : Bytes} {pos i : Nat} (found : findFrom [c] text pos = some i) :
    ∃ front rest, text.drop pos = front ++ c :: rest ∧ c ∉ front ∧ i = pos + front.length ∧
      text.drop i = c :: rest ∧ text.drop (i + 1) = rest ∧ i < text.length := by
  obtain ⟨j,inside,rfl⟩ := Option.map_eq_some_iff.mp found
  obtain ⟨front,rest,parts,clear,rfl⟩ := find_element_some inside
  have here : text.drop (pos + front.length) = c :: rest := by
    rw [← List.drop_drop,parts,List.drop_left' rfl]
  refine ⟨front,rest,parts,clear,rfl,here,?_,?_⟩
  · rw [← List.drop_drop,here,List.drop_one,List.tail_cons]
  · by_contra outside
    rw [List.drop_eq_nil_of_le (by omega)] at here
    cases here

theorem findFrom_none {c : UInt8} {text : Bytes} {pos : Nat} :
    findFrom [c] text pos = none ↔ c ∉ text.drop pos := by
  rw [findFrom,Option.map_eq_none_iff,find_element_none]

theorem parseUri_cut {line rest target beyond : Bytes} {pos endUriPos : Nat}
    (inside : pos < line.length) (behind : line.drop (pos + 1) = rest)
    (parts : rest = target ++ space :: beyond) (stop : endUriPos = pos + 1 + target.length) :
    parseUri line pos endUriPos = .ok (uriOf target) := by
  have length : endUriPos - pos - 1 = target.length := by omega
  unfold parseUri
  rw [substrN_take _ inside,behind,length,parts,List.take_left' rfl]
  simp only [bind,Except.bind]
  cases asked : find [63] target with
  | none =>
    have absent : question ∉ target := find_element_none.mp asked
    rw [uriOf,takeWhile_absent absent]
    rfl
  | some i =>
    obtain ⟨path,query,rfl,clear,rfl⟩ := find_element_some asked
    rw [uriOf,takeWhile_before clear]
    dsimp only
    rw [substrN_take _ (Nat.zero_le _),List.drop_zero,List.take_left' rfl]
    rfl

/-- A line without a slash behind the keyword has its defaults; another one has a space and
a second slash. -/
theorem parseTarget_success {line : Bytes} {pos : Nat} {request after : HttpRequest}
    (parsed : parseTarget line pos request = .ok (.success,after)) :
    (slash ∉ line.drop pos ∧
      after = {request with version := .http11,uri := bytes "index.html"}) ∨
    ∃ front rest, line.drop pos = front ++ slash :: rest ∧ slash ∉ front ∧
      Behind rest request after := by
  unfold parseTarget at parsed
  cases first : findFrom [47] line pos with
  | none =>
    rw [first] at parsed
    obtain ⟨_,rfl⟩ := Prod.mk.inj (Except.ok.inj parsed)
    exact .inl ⟨findFrom_none.mp first,rfl⟩
  | some p =>
    obtain ⟨front,rest,parts,clear,_,here,behind,inside⟩ := findFrom_cut first
    refine .inr ⟨front,rest,parts,clear,?_⟩
    rw [first] at parsed
    dsimp only at parsed
    cases stop : findFrom [space] line p with
    | none => simp [stop] at parsed
    | some endUriPos =>
      obtain ⟨text,beyond,cut,noSpace,at_space,_⟩ := findFrom_cut stop
      -- the slash itself stands in front of the space
      obtain ⟨target,rfl⟩ : ∃ target, text = slash :: target := by
        rw [here] at cut
        cases text with
        | nil => exact absurd (List.cons.inj cut).1 (by decide)
        | cons c target => exact ⟨target,congrArg (· :: target) (List.cons.inj cut).1.symm⟩
      rw [here,List.cons_append,List.cons_inj_right] at cut
      have length : endUriPos = p + 1 + target.length := by
        rw [at_space,List.length_cons]
        omega
      have named := parseUri_cut inside behind cut length
      rw [stop] at parsed
      dsimp only at parsed
      rw [named] at parsed
      simp only [bind,Except.bind] at parsed
      cases second : findFrom [47] line (p + 1) with
      | none => simp [second] at parsed
      | some q =>
        obtain ⟨path,digits,apart,noSlash,_,_,last,within⟩ := findFrom_cut second
        rw [behind] at apart
        rw [second] at parsed
        dsimp only at parsed
        rw [substrN_take _ within,last] at parsed
        dsimp only at parsed
        have target_clear := (List.ne_and_not_mem_of_not_mem_cons noSpace).2
        split_ifs at parsed with ten eleven <;>
          simp only [Except.ok.injEq,Prod.mk.injEq,reduceCtorEq,false_and,true_and] at parsed
        · subst parsed
          exact ⟨⟨target,beyond,cut,target_clear,rfl⟩,⟨path,digits,apart,noSlash,ten⟩,by simp,rfl,rfl⟩
        · subst parsed
          exact ⟨⟨target,beyond,cut,target_clear,rfl⟩,⟨path,digits,apart,noSlash,eleven⟩,by simp,rfl,rfl⟩

theorem parseRequestLine_success {buffer rest : Bytes} {request after : HttpRequest}
    (accepted : parseRequestLine buffer request = .ok (.success,rest,after)) :
    ∃ line method pos, buffer = line ++ crlf ++ rest ∧ find crlf buffer = some line.length ∧
      findMethod line = some (method,pos) ∧
      parseTarget line pos {request with method := method} = .ok (.success,after) := by
  cases found : find crlf buffer with
  | none => simp [parseRequestLine,found] at accepted
  | some stop =>
    have bound := find_bound found
    rw [parseRequestLine_found _ found] at accepted
    obtain ⟨⟨rc,result⟩,parsed,same⟩ := map_success accepted
    simp only [Prod.mk.injEq] at same
    obtain ⟨rfl,rfl,rfl⟩ := same
    unfold parseLine at parsed
    cases looked : findMethod (buffer.take stop) with
    | none => simp [looked] at parsed
    | some place =>
      obtain ⟨method,pos⟩ := place
      rw [looked] at parsed
      refine ⟨buffer.take stop,method,pos,?_,?_,looked,parsed⟩
      · exact (find_crlf found).1
      · rw [List.length_take,Nat.min_eq_left (by omega)]

/-- The text up to the first space. -/
def firstToken (line : Bytes) : Bytes := line.takeWhile (· ≠ space)

/-- The text behind the last space. -/
def lastToken (line : Bytes) : Bytes := line.rtakeWhile (· ≠ space)

/-- The text behind the first slash. -/
def behindSlash (text : Bytes) : Bytes := (text.dropWhile (· ≠ slash)).drop 1

/-- The method and, if the line has a slash, the version are those that the line names. -/
def AsWritten (line : Bytes) (request : HttpRequest) : Prop :=
  firstToken line = keyword request.method ∧
    (slash ∈ line → lastToken line = bytes "HTTP/" ++ versionText request.version)

/-- The line begins with a keyword and holds no earlier one. If it has a slash it ends in a
version, which also stands behind its second slash. -/
def Plainly (line : Bytes) : Prop :=
  (∃ method, method ≠ .invalid ∧ firstToken line = keyword method ∧
    ∀ other ∈ earlier method, ¬ keyword other <:+: line) ∧
  (slash ∈ line → ∃ version, version ≠ .unknown ∧
    lastToken line = bytes "HTTP/" ++ versionText version ∧
    versionText version <+: behindSlash (behindSlash line))

theorem behindSlash_cut {front : Bytes} (clear : slash ∉ front) (rest : Bytes) :
    behindSlash (front ++ slash :: rest) = rest := by
  rw [behindSlash,List.dropWhile_append_of_pos (ne_of_absent clear),List.dropWhile_cons_of_neg (by simp),
    List.drop_one,List.tail_cons]

/-- With the keyword at the beginning the version is read behind the second slash. -/
theorem second_slash {line : Bytes} {request after : HttpRequest}
    (parsed : parseTarget line 0 request = .ok (.success,after)) (has : slash ∈ line) :
    (behindSlash (behindSlash line)).take 3 = versionText after.version ∧
      after.version ≠ .unknown := by
  rcases parseTarget_success parsed with ⟨absent,_⟩ | ⟨front,rest,parts,clear,behind⟩
  · exact absurd has absent
  · obtain ⟨path,digits,apart,noSlash,read⟩ := behind.version
    rw [List.drop_zero] at parts
    rw [parts,behindSlash_cut clear,apart,behindSlash_cut noSlash]
    exact ⟨read,behind.known⟩

theorem versionText_length {version : Version} (known : version ≠ .unknown) :
    (versionText version).length = 3 := by
  cases version with
  | unknown => exact absurd rfl known
  | http10 => rfl
  | http11 => rfl

theorem versionText_inj {one two : Version} (same : versionText one = versionText two) :
    one = two := by
  revert same
  cases one <;> cases two <;> decide

/-- The method and the version that are read are those of the line exactly when the line
names them plainly. -/
theorem line_as_written_iff {buffer rest : Bytes} {request after : HttpRequest}
    (accepted : parseRequestLine buffer request = .ok (.success,rest,after)) :
    ∃ line, buffer = line ++ crlf ++ rest ∧ find crlf buffer = some line.length ∧
      (AsWritten line after ↔ Plainly line) := by
  obtain ⟨line,method,pos,parts,ends,looked,parsed⟩ := parseRequestLine_success accepted
  refine ⟨line,parts,ends,?_⟩
  obtain ⟨_,_,_,same⟩ := parseTarget_sets parsed
  have read : after.method = method := by rw [same]
  constructor
  · rintro ⟨token,written⟩
    obtain ⟨⟨known,found⟩,clear⟩ := findMethod_iff.mp looked
    refine ⟨⟨method,known,read ▸ token,clear⟩,fun has => ?_⟩
    -- the keyword is the first token, so that it is found at the beginning
    have first : keyword method <+: line := by
      rw [← read,← token]
      exact List.takeWhile_prefix _
    obtain rfl : 0 = pos := Option.some.inj ((find_front first).symm.trans found)
    obtain ⟨digits,some⟩ := second_slash parsed has
    refine ⟨after.version,some,written has,?_⟩
    rw [← digits]
    exact List.take_prefix _ _
  · rintro ⟨⟨own,known,token,clear⟩,plainly⟩
    have first : keyword own <+: line := by
      rw [← token]
      exact List.takeWhile_prefix _
    have place := findMethod_iff.mpr ⟨⟨known,find_front first⟩,clear⟩
    obtain ⟨rfl,rfl⟩ := Prod.mk.inj (Option.some.inj (place.symm.trans looked))
    refine ⟨read ▸ token,fun has => ?_⟩
    obtain ⟨version,some,written,front⟩ := plainly has
    obtain ⟨digits,_⟩ := second_slash parsed has
    have whole := List.prefix_iff_eq_take.mp front
    rw [versionText_length some,digits] at whole
    rw [written,versionText_inj whole]

theorem line_as_written_sample : ∃ line,
    bytes "HEAD /a HTTP/1.0\r\n" = line ++ crlf ++ [] ∧
      find crlf (bytes "HEAD /a HTTP/1.0\r\n") = some line.length ∧
      (AsWritten line ⟨.head,.http10,bytes "a",∅⟩ ↔ Plainly line) :=
  line_as_written_iff (by decide : parseRequestLine (bytes "HEAD /a HTTP/1.0\r\n") requestInit =
    .ok (.success,[],⟨.head,.http10,bytes "a",∅⟩))

/-- A keyword inside the first token, and a path that goes on behind a version. -/
theorem line_mistaken :
    (∃ after, parseRequestLine (bytes "XGET /a HTTP/1.1" ++ crlf) requestInit =
      .ok (.success,[],after) ∧ ¬ AsWritten (bytes "XGET /a HTTP/1.1") after) ∧
    ∃ after, parseRequestLine (bytes "GET /a/1.0 HTTP/1.1" ++ crlf) requestInit =
      .ok (.success,[],after) ∧ ¬ AsWritten (bytes "GET /a/1.0 HTTP/1.1") after := by
  have first : parseRequestLine (bytes "XGET /a HTTP/1.1" ++ crlf) requestInit =
      .ok (.success,[],⟨.get,.http11,bytes "a",∅⟩) := by decide
  have second : parseRequestLine (bytes "GET /a/1.0 HTTP/1.1" ++ crlf) requestInit =
      .ok (.success,[],⟨.get,.http10,bytes "a/1.0",∅⟩) := by decide
  refine ⟨⟨_,first,?_⟩,⟨_,second,?_⟩⟩
  · rintro ⟨token,_⟩
    exact absurd token (by decide)
  · rintro ⟨_,version⟩
    exact absurd (version (by decide)) (by decide)

end Deon.Http
