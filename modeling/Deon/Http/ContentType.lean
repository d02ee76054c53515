import Deon.Http.MimeType
import Deon.Http.Response
import Deon.Http.Served

/-! The content type of a response. It is looked up from the first dot of the whole file name
on, root and directories included, in the table that all connections share, and `operator[]`
enters what it does not find. -/
namespace Deon.Http
open Library

def lastName (fileName : Bytes) : Bytes := fileName.rtakeWhile (· ≠ slash)

/-- What a name ends with, from its last dot on. -/
def suffixOf (name : Bytes) : Option Bytes :=
  if dot ∈ name then some (dot :: name.rtakeWhile (· ≠ dot)) else none

/-- The type that the program's table has for the suffix of the last component, or else its
default. -/
def expectedType (fileName : Bytes) : Bytes :=
  (((suffixOf (lastName fileName)).bind fun suffix => mimeType.lookup suffix).orElse fun _ =>
    mimeType.lookup (bytes "default")).getD []

/-- The name has no dot at all, or the table knows what follows from its first one on. -/
def FirstDotKnown (fileName : Bytes) : Prop :=
  match find [dot] fileName with
  | none => True
  | some dotPos => (mimeType.lookup (fileName.drop dotPos)).isSome

instance (fileName : Bytes) : Decidable (FirstDotKnown fileName) := by
  unfold FirstDotKnown
  split <;> infer_instance

/-- The response that was put into the output buffer tells this content type. -/
def Tells (fileType : Bytes) (c c' : Connection) : Prop :=
  ∃ size body, c'.outputBuffer = c.outputBuffer ++
    (statusLine (asksKeepAlive c.request.headers) ++ entityHeader fileType size ++ body)

/-- A key of the table, apart from the default, is a dot and what follows the last one. -/
def Suffix (key : Bytes) : Prop := key.head? = some dot ∧ dot ∉ key.tail ∧ slash ∉ key.tail

instance : DecidablePred Suffix := fun _ => inferInstanceAs (Decidable (_ ∧ _))

theorem mimeType_entries (key value : Bytes) (found : mimeType.lookup key = some value) :
    (key = bytes "default" ∨ Suffix key) ∧ value ≠ [] := by
  revert key value
  apply MimeType.lookup_filled
  · decide
  · intro key value found
    simp at found

theorem default_known : mimeType.lookup (bytes "default") = some (bytes "text/html") := by decide

theorem expectedType_known {fileName suffix value : Bytes}
    (named : suffixOf (lastName fileName) = some suffix) (found : mimeType.lookup suffix = some value) :
    expectedType fileName = value := by
  unfold expectedType
  rw [named,Option.bind_some,found]
  rfl

theorem expectedType_unnamed {fileName : Bytes} (unnamed : suffixOf (lastName fileName) = none) :
    expectedType fileName = bytes "text/html" := by
  unfold expectedType
  rw [unnamed,Option.bind_none,default_known]
  rfl

theorem expectedType_ne (fileName : Bytes) : expectedType fileName ≠ [] := by
  cases named : suffixOf (lastName fileName) with
  | none =>
    rw [expectedType_unnamed named]
    decide
  | some suffix =>
    cases found : mimeType.lookup suffix with
    | some value =>
      rw [expectedType_known named found]
      exact (mimeType_entries suffix value found).2
    | none =>
      unfold expectedType
      rw [named,Option.bind_some,found,default_known]
      decide

theorem expectedType_lines (fileName : Bytes) :
    cr ∉ expectedType fileName ∧ lf ∉ expectedType fileName := by
  have entry : ∀ {key value}, mimeType.lookup key = some value → cr ∉ value ∧ lf ∉ value := by
    intro key value found
    have lines := mimeType_lines key
    rw [MimeType.at_value,found] at lines
    exact lines
  cases named : suffixOf (lastName fileName) with
  | none =>
    rw [expectedType_unnamed named]
    decide
  | some suffix =>
    cases found : mimeType.lookup suffix with
    | some value =>
      rw [expectedType_known named found]
      exact entry found
    | none =>
      unfold expectedType
      rw [named,Option.bind_some,found,default_known]
      decide

/-- A name that goes on from its first dot like a key has this key as its suffix. -/
theorem suffixOf_first {before key : Bytes} (suffix : Suffix key) :
    suffixOf (lastName (before ++ key)) = some key := by
  obtain ⟨first,noDot,noSlash⟩ := suffix
  cases key with
  | nil => cases first
  | cons c rest =>
    obtain rfl := Option.some.inj first
    have apart : slash ∉ dot :: rest := by
      rw [List.mem_cons,not_or]
      exact ⟨by decide,noSlash⟩
    have clear : dot ∉ rest := noDot
    unfold lastName suffixOf
    rw [rtakeWhile_append apart,if_pos (by simp),rtakeWhile_behind clear]

theorem fileTypeOf_none {fileName : Bytes} (absent : find [dot] fileName = none) (table : MimeType) :
    fileTypeOf table fileName = table.at (bytes "default") := by
  unfold fileTypeOf
  rw [absent]

theorem fileTypeOf_some {fileName : Bytes} {dotPos : Nat} (found : find [dot] fileName = some dotPos)
    (table : MimeType) : fileTypeOf table fileName = table.at (fileName.drop dotPos) := by
  unfold fileTypeOf
  rw [found]

/-- The type that the code looks up is the expected one exactly when there is no dot, or the
name goes on from the first one like a key. -/
theorem fileTypeOf_expected (fileName : Bytes) :
    (fileTypeOf mimeType fileName).1 = expectedType fileName ↔ FirstDotKnown fileName := by
  unfold FirstDotKnown
  cases found : find [dot] fileName with
  | none =>
    have absent : dot ∉ lastName fileName := fun member =>
      find_element_none.mp found ((List.rtakeWhile_suffix _ _).subset member)
    rw [fileTypeOf_none found,MimeType.at_value,default_known,expectedType_unnamed (if_neg absent)]
    exact iff_of_true rfl trivial
  | some dotPos =>
    rw [fileTypeOf_some found,MimeType.at_value]
    obtain ⟨before,after,parts,clear,length⟩ := find_element_some found
    have key : fileName.drop dotPos = dot :: after := by
      rw [parts,← length,List.drop_left]
    dsimp only
    rw [key]
    cases known : mimeType.lookup (dot :: after) with
    | none => exact iff_of_false (fun same => expectedType_ne fileName same.symm) Bool.false_ne_true
    | some value =>
      have suffix : Suffix (dot :: after) := by
        obtain ⟨default | suffix,_⟩ := mimeType_entries _ _ known
        · exact absurd (List.cons.inj default).1 (by decide)
        · exact suffix
      rw [parts,expectedType_known (suffixOf_first suffix) known]
      exact iff_of_true rfl rfl

theorem fileTypeOf_table (fileName : Bytes) :
    (fileTypeOf mimeType fileName).2 = mimeType ↔ FirstDotKnown fileName := by
  have kept : ∀ key, (mimeType.at key).2 = mimeType ↔ (mimeType.lookup key).isSome := by
    intro key
    unfold MimeType.at
    cases found : mimeType.lookup key with
    | some value => exact iff_of_true rfl rfl
    | none =>
      refine iff_of_false (fun same => ?_) Bool.false_ne_true
      have entered := Finmap.lookup_insert mimeType (a := key) (b := [])
      dsimp only at same
      rw [same,found] at entered
      cases entered
  unfold FirstDotKnown
  cases found : find [dot] fileName with
  | none =>
    rw [fileTypeOf_none found,kept,default_known]
    exact iff_of_true rfl trivial
  | some dotPos =>
    rw [fileTypeOf_some found]
    exact kept (fileName.drop dotPos)

theorem entityHeader_type {fileType other : Bytes} (lines : cr ∉ fileType) (lines' : cr ∉ other)
    {size size' : Nat} {body body' : Bytes}
    (same : entityHeader fileType size ++ body = entityHeader other size' ++ body') :
    fileType = other := by
  have parts : ∀ (text : Bytes) (told : Nat) (rest : Bytes), entityHeader text told ++ rest =
      (bytes "Server: Answerhua's Web Server\r\n" ++ bytes "Content-Type: ") ++ (text ++ cr ::
        (lf :: ((bytes "Content-Length: " ++ stdToString told ++ crlf) ++ crlf ++ rest))) := by
    intro text told rest
    unfold entityHeader
    simp only [List.append_assoc]
    rfl
  rw [parts,parts] at same
  have cut := congrArg (List.takeWhile (· ≠ cr)) (List.append_cancel_left same)
  rwa [takeWhile_before lines,takeWhile_before lines'] at cut

theorem root_not_hello {front root : Bytes} (closed : root = front ++ [slash]) (uri : Bytes) :
    root ++ uri ≠ bytes "hello" := by
  intro hello
  have member : slash ∈ bytes "hello" := by
    rw [← hello,closed]
    simp
  exact absurd member (by decide)

theorem tells_iff {env : Env} {c c' : Connection} {front : Bytes} (closed : c.root = front ++ [slash])
    (answered : analysisRequest env c = .ok (0,c')) {fileType : Bytes} (lines : cr ∉ fileType)
    (lines' : cr ∉ (fileTypeOf c.mime (c.root ++ c.request.uri)).1) :
    Tells fileType c c' ↔ (fileTypeOf c.mime (c.root ++ c.request.uri)).1 = fileType := by
  obtain ⟨size,_,rfl⟩ := analysisRequest_zero_iff.mp answered
  have other := root_not_hello closed c.request.uri
  have output : (c.responded env size).outputBuffer = c.outputBuffer ++
      (responseHeader c.mime c.root c.request size ++ responseBody env c.root c.request size) := by
    unfold Connection.responded responseTo
    dsimp only
    rw [if_neg other,if_neg other]
  unfold Tells
  rw [output]
  unfold responseHeader
  constructor
  · rintro ⟨told,body,same⟩
    have same := List.append_cancel_left same
    rw [List.append_assoc,List.append_assoc] at same
    exact entityHeader_type lines' lines (List.append_cancel_left same)
  · rintro rfl
    exact ⟨size,responseBody env c.root c.request size,rfl⟩

/-- A successful response tells the type of the last suffix exactly when the file name has no
dot at all, the root included, or goes on from its first one like a key of the table. -/
theorem contentType_iff {env : Env} {c c' : Connection} {front : Bytes}
    (closed : c.root = front ++ [slash]) (grown : Grown mimeType c.mime)
    (answered : analysisRequest env c = .ok (0,c')) :
    Tells (expectedType (c.root ++ c.request.uri)) c c' ↔ FirstDotKnown (c.root ++ c.request.uri) := by
  have lines := (grown.lines (c.root ++ c.request.uri)).1
  rw [tells_iff closed answered (expectedType_lines _).1 lines,grown.type_value]
  exact fileTypeOf_expected (c.root ++ c.request.uri)

/-- One call of `analysisRequest`, of any connection, with the table as it is. -/
def tableAfter (table : MimeType) (one : Env × Connection) : Except Fault MimeType :=
  (analysisRequest one.1 {one.2 with mime := table}).map fun out => out.2.mime

/-- The request looks nothing up, or only what the table has. -/
def LooksUpKnown (c : Connection) : Prop :=
  c.request.method = .get ∨ c.request.method = .head → FirstDotKnown (c.root ++ c.request.uri)

instance (c : Connection) : Decidable (LooksUpKnown c) := inferInstanceAs (Decidable (_ → _))

theorem tableAfter_unchanged {one : Env × Connection} {table : MimeType}
    (returned : tableAfter mimeType one = .ok table) : table = mimeType ↔ LooksUpKnown one.2 := by
  obtain ⟨out,analysed,rfl⟩ := map_success returned
  obtain ⟨looks,ignores⟩ := analysisRequest_notes analysed
  unfold LooksUpKnown
  by_cases method : one.2.request.method = .get ∨ one.2.request.method = .head
  · rw [(looks method).2,imp_iff_right method]
    exact fileTypeOf_table (one.2.root ++ one.2.request.uri)
  · exact iff_of_true (ignores method).2 fun other => absurd other method

/-- Over any sequence of calls of any connections, the table stays as the program starts with it
exactly when every call finds what it looks up. -/
theorem table_unchanged_iff {calls : List (Env × Connection)} {table : MimeType}
    (returned : calls.foldlM tableAfter mimeType = .ok table) :
    (∀ before after, calls = before ++ after → before.foldlM tableAfter mimeType = .ok mimeType) ↔
      ∀ one ∈ calls, LooksUpKnown one.2 := by
  induction calls generalizing table with
  | nil =>
    refine iff_of_true (fun before after split => ?_) fun one none => absurd none List.not_mem_nil
    rw [(List.append_eq_nil_iff.mp split.symm).1]
    rfl
  | cons one rest ih =>
    rw [List.foldlM_cons] at returned
    obtain ⟨middle,first,later⟩ := bind_success returned
    rw [List.forall_mem_cons,← tableAfter_unchanged first]
    constructor
    · intro unchanged
      have same : middle = mimeType := by
        have after := unchanged [one] rest rfl
        rw [List.foldlM_cons,first] at after
        exact Except.ok.inj after
      rw [same] at first later
      refine ⟨same,(ih later).mp fun before after split => ?_⟩
      have whole := unchanged (one :: before) after (by rw [split,List.cons_append])
      rwa [List.foldlM_cons,first] at whole
    · rintro ⟨rfl,known⟩ before after split
      cases before with
      | nil => rfl
      | cons other before =>
        rw [List.cons_append] at split
        obtain ⟨rfl,tails⟩ := List.cons.inj split
        rw [List.foldlM_cons,first]
        exact (ih later).mpr known before after tails

def filesEnv : Env := {sampleEnv with stat := fun _ => some ⟨true,true,3⟩,opens := fun _ => true}

/-- A request for a page, to a server with this root. -/
def pageAsked (root : Bytes) : Connection :=
  {Connection.fresh root mimeType with request := ⟨.head,.http11,bytes "index.html",∅⟩}

theorem pageAsked_answered (root : Bytes) :
    analysisRequest filesEnv (pageAsked root) = .ok (0,(pageAsked root).responded filesEnv 3) :=
  analysisRequest_zero_iff.mpr ⟨3,⟨.inr rfl,.inr ⟨rfl,.inl rfl⟩⟩,rfl⟩

theorem contentType_sample : Tells (expectedType (bytes "/srv/www/" ++ bytes "index.html"))
    (pageAsked (bytes "/srv/www/")) ((pageAsked (bytes "/srv/www/")).responded filesEnv 3) :=
  (contentType_iff (c := pageAsked (bytes "/srv/www/"))
    (by decide : bytes "/srv/www/" = bytes "/srv/www" ++ [slash]) .same
    (pageAsked_answered (bytes "/srv/www/"))).mpr (by decide)

theorem table_unchanged_sample : [(filesEnv,pageAsked (bytes "/srv/www/"))].foldlM tableAfter mimeType =
    .ok mimeType := by
  have returned : [(filesEnv,pageAsked (bytes "/srv/www/"))].foldlM tableAfter mimeType =
      .ok (fileTypeOf mimeType (bytes "/srv/www/" ++ bytes "index.html")).2 := by
    rw [List.foldlM_cons,tableAfter,show ({pageAsked (bytes "/srv/www/") with mime := mimeType} :
      Connection) = pageAsked (bytes "/srv/www/") from rfl,pageAsked_answered]
    rfl
  refine (table_unchanged_iff returned).mpr ?_ _ [] rfl
  simp only [List.forall_mem_cons]
  exact ⟨by decide,fun _ none => absurd none List.not_mem_nil⟩

/-- The root of the start command has dots: the type of a page is empty. -/
theorem dotted_root_untyped :
    expectedType (bytes "../../../test/" ++ bytes "index.html") = bytes "text/html" ∧
    ∃ c', analysisRequest filesEnv (pageAsked (bytes "../../../test/")) = .ok (0,c') ∧
      Tells [] (pageAsked (bytes "../../../test/")) c' ∧
      ¬ Tells (expectedType (bytes "../../../test/" ++ bytes "index.html"))
        (pageAsked (bytes "../../../test/")) c' := by
  have closed : (pageAsked (bytes "../../../test/")).root = bytes "../../../test" ++ [slash] := by decide
  have answered := pageAsked_answered (bytes "../../../test/")
  have lines := (Grown.same.lines (bytes "../../../test/" ++ bytes "index.html")).1
  have untyped : (fileTypeOf mimeType (bytes "../../../test/" ++ bytes "index.html")).1 = [] := by decide
  refine ⟨by decide,_,answered,(tells_iff closed answered List.not_mem_nil lines).mpr untyped,?_⟩
  rw [tells_iff closed answered (expectedType_lines _).1 lines]
  intro typed
  exact expectedType_ne _ (typed.symm.trans untyped)

/-- A page that is answered with the table of the root's dots has entered it. -/
theorem dotted_root_enters : ¬ ∀ before after,
    [(filesEnv,pageAsked (bytes "../../../test/"))] = before ++ after →
      before.foldlM tableAfter mimeType = .ok mimeType := by
  intro unchanged
  have same := unchanged [(filesEnv,pageAsked (bytes "../../../test/"))] [] rfl
  rw [List.foldlM_cons,tableAfter,show ({pageAsked (bytes "../../../test/") with mime := mimeType} :
    Connection) = pageAsked (bytes "../../../test/") from rfl,pageAsked_answered] at same
  have table : (fileTypeOf mimeType (bytes "../../../test/" ++ bytes "index.html")).2 = mimeType :=
    Except.ok.inj same
  exact absurd ((fileTypeOf_table _).mp table) (by decide)

end Deon.Http
