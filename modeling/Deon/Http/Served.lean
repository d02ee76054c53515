import Deon.Http.LineAccepted
import Deon.Http.Connection
import Deon.Library.Paths

/-! The name that is handed to `stat` and `open`: the root with the uri behind it, up to the
first NUL. No path is checked, so that it stays below the root only as far as the uri does. -/
namespace Deon.Http
open Library

abbrev dot : UInt8 := 46

/-- The root as `main` leaves it, which is the text of an argument. -/
structure Configured (root : Bytes) : Prop where
  closed : root = [] ∨ ∃ front, root = front ++ [slash]
  text : 0 ∉ root

/-- The file system answers for this name alike. -/
structure Alike (env env' : Env) (name : Bytes) : Prop where
  stat : env.stat name = env'.stat name
  opens : env.opens name = env'.opens name
  mmap : env.mmap name = env'.mmap name
  below : env.below = env'.below

/-- Of the file system `analysisRequest` sees only the root with the uri behind it. -/
theorem analysisRequest_asks {env env' : Env} (c : Connection)
    (alike : Alike env env' (cStr (c.root ++ c.request.uri))) :
    analysisRequest env c = analysisRequest env' c := by
  have errors : ∀ errNum shortMsg d,
      handleError env errNum shortMsg d = handleError env' errNum shortMsg d := by
    intro errNum shortMsg d
    simp only [handleError,sendRaw,alike.below]
  simp only [analysisRequest,appendFile,errors,alike.stat,alike.opens,alike.mmap]

theorem cStr_append {root : Bytes} (text : 0 ∉ root) (uri : Bytes) :
    cStr (root ++ uri) = root ++ cStr uri :=
  List.takeWhile_append_of_pos (ne_of_absent text)

theorem uriOf_slash {target : Bytes} (has : slash ∈ uriOf target) :
    uriOf target = target.takeWhile (· ≠ question) := by
  unfold uriOf at has ⊢
  split_ifs at has ⊢ with empty
  · exact absurd has (by decide)
  · rfl

theorem target_goes_on (target beyond : Bytes) : ∃ b more,
    target ++ space :: beyond = target.takeWhile (· ≠ question) ++ b :: more ∧
      (b = question ∨ b = space) := by
  by_cases asked : question ∈ target
  · obtain ⟨path,query,rfl,clear⟩ := List.eq_append_cons_of_mem asked
    refine ⟨question,query ++ space :: beyond,?_,.inl rfl⟩
    rw [takeWhile_before clear,List.append_assoc,List.cons_append]
  · refine ⟨space,beyond,?_,.inr rfl⟩
    rw [takeWhile_absent asked]

/-- A uri with a slash: directly behind its first one stands the version. -/
theorem Behind.uri_slash {rest : Bytes} {request after : HttpRequest}
    (behind : Behind rest request after) (has : slash ∈ after.uri) :
    ∃ before digits, slash ∉ before ∧ after.uri = before ++ slash :: digits ∧
      versionText after.version <+: digits := by
  obtain ⟨target,beyond,parts,_,named⟩ := behind.target
  obtain ⟨path,digits,apart,noSlash,read⟩ := behind.version
  have name := named.trans (uriOf_slash (named ▸ has))
  obtain ⟨b,more,goes,ends⟩ := target_goes_on target beyond
  rw [← name] at goes
  obtain ⟨before,after_slash,cut,clear⟩ := List.eq_append_cons_of_mem has
  have same : before ++ slash :: (after_slash ++ b :: more) = path ++ slash :: digits := by
    rw [← apart,parts,goes,cut,List.append_assoc,List.cons_append]
  have rests := congrArg behindSlash same
  rw [behindSlash_cut clear,behindSlash_cut noSlash] at rests
  refine ⟨before,after_slash,clear,cut,?_⟩
  have version : versionText after.version <+: after_slash ++ b :: more := by
    rw [rests,← read]
    exact List.take_prefix _ _
  have absent : b ∉ versionText after.version := by
    have known := behind.known
    rcases ends with rfl | rfl <;> revert known <;> cases after.version <;> decide
  exact (prefix_across absent after_slash more).mp version

theorem accepted_uri_slash {buffer rest : Bytes} {request after : HttpRequest}
    (accepted : parseRequestLine buffer request = .ok (.success,rest,after))
    (has : slash ∈ after.uri) : ∃ before digits, slash ∉ before ∧
      after.uri = before ++ slash :: digits ∧ versionText after.version <+: digits := by
  obtain ⟨line,method,pos,_,_,_,parsed⟩ := parseRequestLine_success accepted
  rcases parseTarget_success parsed with ⟨_,rfl⟩ | ⟨_,_,_,_,behind⟩
  · have plainName : slash ∉ bytes "index.html" := by decide
    exact absurd has plainName
  · exact behind.uri_slash has

/-- The name that is served stays below the root exactly when the uri is not absolute in an
empty root and its segments never lead up more often than down, unless there is nothing
above the root. The version behind the first slash of the uri is all that the line parser
asks of its segments. -/
theorem served_inside_iff {buffer rest root : Bytes} {request after : HttpRequest}
    (accepted : parseRequestLine buffer request = .ok (.success,rest,after))
    (configured : Configured root) :
    (∀ (env env' : Env) (c : Connection), c.root = root → c.request.uri = after.uri →
      Alike env env' (cStr (root ++ after.uri)) → analysisRequest env c = analysisRequest env' c) ∧
    (StaysInside slash dot root (cStr (root ++ after.uri)) ↔
      (root = [] → (cStr after.uri).head? ≠ some slash) ∧ ((place slash dot root).Top ∨
        Place.NeverAbove dot ((cStr after.uri).splitOn slash))) ∧
    (slash ∈ after.uri → ∃ before digits, slash ∉ before ∧
      after.uri = before ++ slash :: digits ∧ versionText after.version <+: digits) := by
  refine ⟨?_,?_,accepted_uri_slash accepted⟩
  · intro env env' c sameRoot sameUri alike
    apply analysisRequest_asks
    rw [sameRoot,sameUri]
    exact alike
  · rw [cStr_append configured.text]
    exact staysInside_iff configured.closed (cStr after.uri)

theorem sampleRoot_configured : Configured (bytes "/srv/www/") where
  closed := .inr ⟨bytes "/srv/www",by decide⟩
  text := by decide

theorem served_inside_sample : StaysInside slash dot (bytes "/srv/www/")
    (cStr (bytes "/srv/www/" ++ bytes "a/1.1/../b")) :=
  ((served_inside_iff (by decide : parseRequestLine (bytes "GET /a/1.1/../b HTTP/1.1\r\n")
    requestInit = .ok (.success,[],⟨.get,.http11,bytes "a/1.1/../b",∅⟩))
    sampleRoot_configured).2.1).mpr ⟨by decide,by decide⟩

/-- A uri that leaves its root, and one that is absolute in the empty root. -/
theorem served_outside :
    (parseRequestLine (bytes "GET /../1.0/../../etc/passwd HTTP/1.1\r\n") requestInit =
        .ok (.success,[],⟨.get,.http10,bytes "../1.0/../../etc/passwd",∅⟩) ∧
      Configured (bytes "/srv/www/") ∧ ¬ StaysInside slash dot (bytes "/srv/www/")
        (cStr (bytes "/srv/www/" ++ bytes "../1.0/../../etc/passwd"))) ∧
    parseRequestLine (bytes "GET //1.1 HTTP/1.1\r\n") requestInit =
        .ok (.success,[],⟨.get,.http11,bytes "/1.1",∅⟩) ∧
      Configured [] ∧ ¬ StaysInside slash dot [] (cStr ([] ++ bytes "/1.1")) := by
  have empty : Configured [] := ⟨.inl rfl,List.not_mem_nil⟩
  refine ⟨⟨by decide,sampleRoot_configured,?_⟩,by decide,empty,?_⟩
  · rw [cStr_append sampleRoot_configured.text,staysInside_iff sampleRoot_configured.closed]
    decide
  · rw [cStr_append empty.text,staysInside_iff empty.closed]
    decide

end Deon.Http
