import Deon.Http.Answered
import Deon.Http.Renamed
import Deon.Http.Resting

/-! Two requests whose header names are spelled in upper and lower case differently. The names
are stored as they are, and looked up in one spelling. -/
namespace Deon.Http
open Library

def isLetter (c : UInt8) : Bool := (65 ≤ c && c ≤ 90) || (97 ≤ c && c ≤ 122)

/-- The same character up to letter case. -/
def SameLetter (c d : UInt8) : Prop := c = d ∨ isLetter c = true ∧ isLetter d = true ∧ c ||| 32 = d ||| 32

instance (c d : UInt8) : Decidable (SameLetter c d) := inferInstanceAs (Decidable (_ ∨ _))

def fieldLine (one : Bytes × Bytes) : Bytes := one.1 ++ colon :: one.2 ++ crlf

/-- A request line, the fields, each a name and what stands behind its colon, and what follows
the empty line. -/
def requestText (line : Bytes) (fields : Fields) (rest : Bytes) : Bytes :=
  line ++ crlf ++ (fields.flatMap fieldLine ++ crlf ++ rest)

structure Written (line : Bytes) (fields : Fields) : Prop where
  line : find crlf (line ++ crlf) = some line.length
  names : ∀ one ∈ fields, FieldName one.1
  tails : ∀ one ∈ fields, cr ∉ one.2

/-- Only the letter case of names is changed. -/
def Recased (fields fields' : Fields) : Prop :=
  List.Forall₂ (fun one other => List.Forall₂ SameLetter one.1 other.1 ∧ one.2 = other.2)
    fields fields'

/-- The header automaton wants one space behind the colon, and something behind it. -/
def Readable (tail : Bytes) : Prop := tail.head? = some space ∧ tail.tail ≠ []

instance : DecidablePred Readable := fun _ => inferInstanceAs (Decidable (_ ∧ _))

def valued (fields : Fields) : Fields := fields.map fun one => (one.1,one.2.tail)

theorem SameLetter.mark {c d : UInt8} (same : SameLetter c d) (mark : isLetter d = false) : c = d := by
  obtain same | ⟨_,letter,_⟩ := same
  · exact same
  · rw [mark] at letter
    cases letter

theorem letters_mem {name other : Bytes} (same : List.Forall₂ SameLetter name other) {d : UInt8}
    (mark : isLetter d = false) (member : d ∈ other) : d ∈ name := by
  induction same with
  | nil => exact member
  | cons first _ ih =>
    obtain rfl | later := List.mem_cons.mp member
    · rw [first.mark mark]
      exact List.mem_cons_self
    · exact List.mem_cons_of_mem _ (ih later)

theorem FieldName.recased {name other : Bytes} (named : FieldName name)
    (same : List.Forall₂ SameLetter name other) : FieldName other := by
  obtain ⟨some,noColon,noCr,noLf⟩ := named
  refine ⟨?_,?_,?_,?_⟩
  · rintro rfl
    cases same
    exact some rfl
  · exact fun member => noColon (letters_mem same (by decide) member)
  · exact fun member => noCr (letters_mem same (by decide) member)
  · exact fun member => noLf (letters_mem same (by decide) member)

theorem Recased.tails {fields fields' : Fields} (recased : Recased fields fields') :
    fields'.map Prod.snd = fields.map Prod.snd := by
  induction recased with
  | nil => rfl
  | cons first _ ih => rw [List.map_cons,List.map_cons,ih,first.2]

theorem Recased.written {fields fields' : Fields} (recased : Recased fields fields') {line : Bytes}
    (written : Written line fields) : Written line fields' := by
  obtain ⟨found,names,tails⟩ := written
  refine ⟨found,?_,?_⟩
  · clear tails
    induction recased with
    | nil => exact names
    | cons first _ ih =>
      rw [List.forall_mem_cons] at names ⊢
      exact ⟨names.1.recased first.1,ih names.2⟩
  · intro one member
    have inside : one.2 ∈ fields.map Prod.snd := recased.tails ▸ List.mem_map_of_mem member
    obtain ⟨other,old,same⟩ := List.mem_map.mp inside
    rw [← same]
    exact tails other old

section Reading

def Opens (r : Reading) (headers : Headers) : Prop :=
  ∀ name, FieldName name → ∃ value line, r.run name = .again ⟨.key,name,value,line,headers⟩

theorem opens_start (headers : Headers) : Opens (Reading.fresh .start headers) headers := by
  rintro name ⟨some,noColon,noCr,noLf⟩
  obtain ⟨c,rest,rfl⟩ := List.exists_cons_of_ne_nil some
  have first : ¬ (c = lf ∨ c = cr) := by
    rintro (rfl | rfl)
    · exact noLf List.mem_cons_self
    · exact noCr List.mem_cons_self
  have one : (Reading.fresh .start headers).step c = .next ⟨.key,[c],[],[c],headers⟩ := if_neg first
  refine ⟨[],c :: rest,?_⟩
  simp only [Reading.run,one]
  exact name_run fun member => noColon (List.mem_cons_of_mem _ member)

theorem opens_lf (key value : Bytes) (headers : Headers) :
    Opens ⟨.lf,key,value,[lf],headers⟩ headers := by
  rintro name ⟨some,noColon,noCr,_⟩
  obtain ⟨c,rest,rfl⟩ := List.exists_cons_of_ne_nil some
  have first : c ≠ cr := by
    rintro rfl
    exact noCr List.mem_cons_self
  exact ⟨_,_,line_name_run first fun member => noColon (List.mem_cons_of_mem _ member)⟩

def refusal (tail : Bytes) : HeaderParseState :=
  if tail.head? = some space then .cr else .spacesAfterColon

def refusedIn (tails : List Bytes) : HeaderParseState :=
  ((tails.find? fun tail => ¬ Readable tail).map refusal).getD .start

theorem refused_run {tail : Bytes} (unreadable : ¬ Readable tail) {key : Bytes} (some : key ≠ [])
    (value line : Bytes) (headers : Headers) (more : Bytes) :
    (⟨.key,key,value,line,headers⟩ : Reading).run (colon :: tail ++ crlf ++ more) =
      .failed (refusal tail) headers := by
  have named : (⟨.key,key,value,line,headers⟩ : Reading).step colon =
      .next ⟨.spacesAfterColon,key,value,line ++ [colon],headers⟩ := by
    simp [Reading.step,some]
  rw [List.append_assoc,List.cons_append,Reading.run,named]
  unfold refusal
  cases tail with
  | nil => rfl
  | cons c tail =>
    by_cases blank : c = space
    · subst blank
      have none : tail = [] := by
        by_contra more
        exact unreadable ⟨rfl,more⟩
      subst none
      rfl
    · have refuses : (⟨.spacesAfterColon,key,value,line ++ [colon],headers⟩ : Reading).step c =
          .failed .spacesAfterColon headers := if_neg blank
      rw [List.head?_cons,if_neg (by simpa using blank)]
      simp only [List.cons_append,Reading.run,refuses]

theorem fieldLine_readable {name tail : Bytes} (readable : Readable tail) :
    fieldLine (name,tail) = name ++ field tail.tail := by
  obtain ⟨first,_⟩ := readable
  cases tail with
  | nil => cases first
  | cons c rest =>
    obtain rfl := Option.some.inj first
    unfold fieldLine field
    rw [List.append_assoc]
    rfl

theorem fields_refused {fields : Fields} (names : ∀ one ∈ fields, FieldName one.1)
    (tails : ∀ one ∈ fields, cr ∉ one.2) (refused : ¬ ∀ one ∈ fields, Readable one.2) (more : Bytes)
    {r : Reading} {headers : Headers} (opens : Opens r headers) : ∃ headers',
      r.run (fields.flatMap fieldLine ++ more) = .failed (refusedIn (fields.map Prod.snd)) headers' := by
  induction fields generalizing r headers with
  | nil => exact absurd (fun one none => absurd none List.not_mem_nil) refused
  | cons one fields ih =>
    rw [List.forall_mem_cons] at names tails refused
    obtain ⟨value,line,named⟩ := opens one.1 names.1
    rw [List.flatMap_cons,List.append_assoc]
    by_cases readable : Readable one.2
    · have later := ih names.2 tails.2 (fun all => refused ⟨readable,all⟩)
        (opens_lf one.1 one.2.tail (headers.insert one.1 one.2.tail))
      have absent : cr ∉ one.2.tail := fun member => tails.1 (List.mem_of_mem_tail member)
      have whole : r.run (fieldLine one) =
          .again ⟨.lf,one.1,one.2.tail,[lf],headers.insert one.1 one.2.tail⟩ := by
        rw [show fieldLine one = fieldLine (one.1,one.2) from rfl,fieldLine_readable readable,
          Reading.run_again named]
        exact field_run names.1.1 ⟨readable.2,absent⟩
      have skips : refusedIn ((one :: fields).map Prod.snd) = refusedIn (fields.map Prod.snd) := by
        unfold refusedIn
        rw [List.map_cons,List.find?_cons_of_neg (by simpa using readable)]
      rw [Reading.run_again whole,skips]
      exact later
    · have stops : refusedIn ((one :: fields).map Prod.snd) = refusal one.2 := by
        unfold refusedIn
        rw [List.map_cons,List.find?_cons_of_pos (by simpa using readable)]
        rfl
      refine ⟨headers,?_⟩
      unfold fieldLine
      rw [List.append_assoc,List.append_assoc,Reading.run_again named,stops,← List.append_assoc]
      exact refused_run readable names.1.1 value line headers _

end Reading

theorem valued_block {fields : Fields} (readable : ∀ one ∈ fields, Readable one.2) :
    fields.flatMap fieldLine = (valued fields).flatMap headerLine := by
  induction fields with
  | nil => rfl
  | cons one fields ih =>
    rw [List.forall_mem_cons] at readable
    have first : fieldLine one = headerLine (one.1,one.2.tail) := by
      rw [headerLine_field]
      exact fieldLine_readable readable.1
    unfold valued at ih ⊢
    rw [List.flatMap_cons,List.map_cons,List.flatMap_cons,first,ih readable.2]

theorem valued_read {fields : Fields} (some : fields ≠ []) {line : Bytes}
    (written : Written line fields) (readable : ∀ one ∈ fields, Readable one.2) (rest : Bytes) :
    (Reading.fresh .start ∅).run (fields.flatMap fieldLine ++ crlf ++ rest) =
      .done (enter ∅ (valued fields)) rest := by
  rw [valued_block readable]
  apply block_run
  · simpa [valued] using some
  · intro one member
    obtain ⟨other,old,rfl⟩ := List.mem_map.mp member
    exact written.names other old
  · intro one member
    obtain ⟨other,old,rfl⟩ := List.mem_map.mp member
    exact ⟨(readable other old).2,fun inside => written.tails other old (List.mem_of_mem_tail inside)⟩

section Course

variable {env : Env} {c : Connection} {line rest : Bytes} {fields : Fields} {request : HttpRequest}

/-- What is behind the line is read, and measured, and answered. -/
def behindLine (env : Env) (d : Connection) : Except Fault Stage := do
  let stage ← headerStage env d
  let stage ← stage.andThen (lengthStage env)
  stage.andThen (analysisStage env)

theorem handleRead_written {results : List ReadResult} {rc : LineState} (waiting : Waiting c)
    (written : Written line fields) (arrives : Drains results (requestText line fields rest) .again)
    (parsed : parseLine line requestInit = .ok (rc,request)) :
    handleRead env [results] c = ((lineLeads env (c.parsed (fields.flatMap fieldLine ++ crlf ++ rest)
      .parseRequestLine .start request) rc).andThen (behindLine env)).map Stage.settled := by
  have some : requestText line fields rest ≠ [] := by simp [requestText,crlf]
  rw [handleRead_settled,pass_stages arrives some,stages]
  unfold requestText
  rw [lineStage_waiting waiting written.line parsed]
  cases rc <;> rfl

theorem handleRead_lined {results : List ReadResult} (waiting : Waiting c)
    (written : Written line fields) (arrives : Drains results (requestText line fields rest) .again)
    (parsed : parseLine line requestInit = .ok (.success,request)) :
    handleRead env [results] c = (behindLine env (c.parsed (fields.flatMap fieldLine ++ crlf ++ rest)
      .parseHeaders .start request)).map Stage.settled :=
  handleRead_written waiting written arrives parsed

theorem behindLine_refused (written : Written line fields)
    (refused : ¬ ∀ one ∈ fields, Readable one.2) (empty : request.headers = ∅) : ∃ headers,
      behindLine env (c.parsed (fields.flatMap fieldLine ++ crlf ++ rest) .parseHeaders .start request) =
        .ok (badRequest env (bytes "Bad Request")
          (c.parsed (fields.flatMap fieldLine ++ crlf ++ rest) .parseHeaders
            (refusedIn (fields.map Prod.snd)) {request with headers := headers})) := by
  obtain ⟨headers,failed⟩ := fields_refused written.names written.tails refused (crlf ++ rest)
    (opens_start ∅)
  refine ⟨headers,?_⟩
  unfold behindLine
  rw [headerStage_reads rfl]
  simp only [Connection.parsed,empty,List.append_assoc,failed]
  rfl

theorem headerStage_valued (some : fields ≠ []) (written : Written line fields)
    (readable : ∀ one ∈ fields, Readable one.2) (empty : request.headers = ∅) :
    headerStage env (c.parsed (fields.flatMap fieldLine ++ crlf ++ rest) .parseHeaders .start request) =
      .ok (.go (c.parsed rest (if request.method = .post then .checkContentLength else .analysis)
        .endCr {request with headers := enter ∅ (valued fields)})) := by
  rw [headerStage_reads rfl]
  simp only [Connection.parsed,empty,valued_read some written readable rest]
  rfl

theorem behindLine_posted (some : fields ≠ []) (written : Written line fields)
    (readable : ∀ one ∈ fields, Readable one.2) (empty : request.headers = ∅)
    (posted : request.method = .post) :
    behindLine env (c.parsed (fields.flatMap fieldLine ++ crlf ++ rest) .parseHeaders .start request) =
      (lengthCheck (enter ∅ (valued fields)) rest.length).map (checked env
        (c.parsed rest .checkContentLength .endCr {request with headers := enter ∅ (valued fields)})) := by
  unfold behindLine
  rw [headerStage_valued some written readable empty,if_pos posted]
  exact lengthStage_checked rfl posted

theorem behindLine_answered (some : fields ≠ []) (written : Written line fields)
    (readable : ∀ one ∈ fields, Readable one.2) (empty : request.headers = ∅)
    (other : request.method ≠ .post) :
    behindLine env (c.parsed (fields.flatMap fieldLine ++ crlf ++ rest) .parseHeaders .start request) =
      (analysisRequest env (c.parsed rest .analysis .endCr
        {request with headers := enter ∅ (valued fields)})).map concluded := by
  unfold behindLine
  rw [headerStage_valued some written readable empty,if_neg other]
  have unmeasured : lengthStage env (c.parsed rest .analysis .endCr
      {request with headers := enter ∅ (valued fields)}) = .ok (.go (c.parsed rest .analysis .endCr
        {request with headers := enter ∅ (valued fields)})) := rfl
  simp only [bind,Except.bind,Stage.andThen,unmeasured]
  exact analysisStage_concluded rfl

end Course

theorem Recased.some {fields fields' : Fields} (recased : Recased fields fields') (any : fields ≠ []) :
    fields' ≠ [] := by
  cases recased with
  | nil => exact absurd rfl any
  | cons _ _ => exact List.cons_ne_nil _ _

theorem Recased.readable {fields fields' : Fields} (recased : Recased fields fields') :
    (∀ one ∈ fields', Readable one.2) ↔ ∀ one ∈ fields, Readable one.2 := by
  have tails : ∀ list : Fields,
      (∀ one ∈ list, Readable one.2) ↔ ∀ tail ∈ list.map Prod.snd, Readable tail :=
    fun list => List.forall_mem_map.symm
  rw [tails,tails,recased.tails]

theorem valued_course {env : Env} {c : Connection} {line rest : Bytes} {fields fields' : Fields}
    {request : HttpRequest} (any : fields ≠ []) (written : Written line fields)
    (recased : Recased fields fields') (readable : ∀ one ∈ fields, Readable one.2)
    (parsed : parseLine line requestInit = .ok (.success,request)) :
    SameCourse
      ((behindLine env (c.parsed (fields.flatMap fieldLine ++ crlf ++ rest) .parseHeaders .start
        request)).map Stage.settled)
      ((behindLine env (c.parsed (fields'.flatMap fieldLine ++ crlf ++ rest) .parseHeaders .start
        request)).map Stage.settled) ↔
      Agrees env c.root request (enter ∅ (valued fields)) (enter ∅ (valued fields')) rest.length := by
  have empty : request.headers = ∅ := (parseLine_result parsed).2
  have written' := recased.written written
  have readable' := recased.readable.mpr readable
  have any' := recased.some any
  by_cases posted : request.method = .post
  · rw [behindLine_posted any written readable empty posted,
      behindLine_posted any' written' readable' empty posted,map_twice,map_twice]
    refine (@posted_course env (c.parsed rest .checkContentLength .endCr
      {request with headers := enter ∅ (valued fields)}) posted (enter ∅ (valued fields'))
      rest.length).trans ?_
    constructor
    · intro same
      exact ⟨fun _ => same,fun answers => by simp [posted] at answers⟩
    · exact fun agrees => agrees.length posted
  · rw [behindLine_answered any written readable empty posted,
      behindLine_answered any' written' readable' empty posted,map_twice,map_twice]
    have answers : request.method = .get ∨ request.method = .head := by
      obtain get | post | head := parseLine_known parsed
      · exact .inl get
      · exact absurd post posted
      · exact .inr head
    refine (@answered_course env (c.parsed rest .analysis .endCr
      {request with headers := enter ∅ (valued fields)}) answers (enter ∅ (valued fields'))).trans ?_
    constructor
    · intro same
      exact ⟨fun post => absurd post posted,fun _ => same⟩
    · exact fun agrees => agrees.keepAlive answers

/-- Two requests in one read that differ in the letter case of header names only take the same
course exactly when the line or a header is refused, or what is looked up is found in both. -/
theorem spelling_iff {env : Env} {c : Connection} {line rest : Bytes} {fields fields' : Fields}
    {results results' : List ReadResult} (waiting : Waiting c) (written : Written line fields)
    (recased : Recased fields fields')
    (arrives : Drains results (requestText line fields rest) .again)
    (arrives' : Drains results' (requestText line fields' rest) .again) :
    SameCourse (handleRead env [results] c) (handleRead env [results'] c) ↔
      ∀ request, parseLine line requestInit = .ok (.success,request) →
        (∀ one ∈ fields, Readable one.2) →
          Agrees env c.root request (enter ∅ (valued fields)) (enter ∅ (valued fields')) rest.length := by
  obtain ⟨rc,request,parsed⟩ := parseLine_ok line requestInit
  have written' := recased.written written
  cases rc with
  | again => exact absurd rfl (parseLine_result parsed).1
  | error =>
    rw [handleRead_written waiting written arrives parsed,
      handleRead_written waiting written' arrives' parsed]
    refine iff_of_true ?_ fun other success => ?_
    · exact congrArg Except.ok (badRequest_view env _ (c.parsed (fields.flatMap fieldLine ++ crlf ++ rest)
        .parseRequestLine .start request) (fields'.flatMap fieldLine ++ crlf ++ rest)
        request.headers).symm
    · rw [parsed] at success
      cases success
  | success =>
    have empty : request.headers = ∅ := (parseLine_result parsed).2
    have only : ∀ {P : HttpRequest → Prop},
        (∀ other, parseLine line requestInit = .ok (.success,other) → P other) ↔ P request := by
      intro P
      constructor
      · exact fun all => all request parsed
      · intro held other success
        rw [parsed] at success
        cases success
        exact held
    rw [only,handleRead_lined waiting written arrives parsed,
      handleRead_lined waiting written' arrives' parsed]
    by_cases readable : ∀ one ∈ fields, Readable one.2
    · rw [imp_iff_right readable]
      by_cases any : fields = []
      · subst any
        cases recased
        exact iff_of_true rfl ⟨fun _ => rfl,fun _ _ => rfl⟩
      · exact valued_course any written recased readable parsed
    · have refused' : ¬ ∀ one ∈ fields', Readable one.2 := fun all => readable (recased.readable.mp all)
      obtain ⟨headers,first⟩ := @behindLine_refused env c line rest fields request written readable empty
      obtain ⟨headers',second⟩ :=
        @behindLine_refused env c line rest fields' request written' refused' empty
      refine iff_of_true ?_ fun all => absurd all readable
      rw [first,second,recased.tails]
      exact congrArg Except.ok (badRequest_view env _ (c.parsed
        (fields.flatMap fieldLine ++ crlf ++ rest) .parseHeaders (refusedIn (fields.map Prod.snd))
        {request with headers := headers}) (fields'.flatMap fieldLine ++ crlf ++ rest) headers').symm

theorem drains_one {text : Bytes} (some : text ≠ []) : Drains [.received text] text .again := by
  obtain ⟨c,rest,rfl⟩ := List.exists_cons_of_ne_nil some
  have one := Drains.chunk c rest .exhausted
  rwa [List.append_nil] at one

theorem spelling_sample :
    SameCourse
      (handleRead sampleEnv [[.received (requestText (bytes "GET /a HTTP/1.1")
        [(bytes "Host",bytes " d")] [])]] sampleStart)
      (handleRead sampleEnv [[.received (requestText (bytes "GET /a HTTP/1.1")
        [(bytes "HOST",bytes " d")] [])]] sampleStart) := by
  have written : Written (bytes "GET /a HTTP/1.1") [(bytes "Host",bytes " d")] := by
    refine ⟨by decide,?_,?_⟩
    · simp only [List.forall_mem_singleton,FieldName]
      decide
    · simp only [List.forall_mem_singleton]
      decide
  have recased : Recased [(bytes "Host",bytes " d")] [(bytes "HOST",bytes " d")] := by
    refine .cons ⟨?_,rfl⟩ .nil
    decide
  apply (@spelling_iff sampleEnv sampleStart _ [] _ _ _ _ ⟨rfl,rfl,rfl,rfl⟩ written recased
    (drains_one (by decide)) (drains_one (by decide))).mpr
  intro request parsed _
  have line : parseLine (bytes "GET /a HTTP/1.1") requestInit =
    .ok (.success,⟨.get,.http11,bytes "a",∅⟩) := by decide
  rw [line] at parsed
  obtain ⟨_,rfl⟩ := Prod.mk.inj (Except.ok.inj parsed)
  constructor
  · intro post
    cases post
  · intro _ _
    decide

/-- The names differ in one letter's case: the first POST waits for its body, the second is
answered with the error for a missing length. -/
theorem content_length_unseen :
    Written (bytes "POST /a HTTP/1.1") [(bytes "Content-length",bytes " 5")] ∧
      Recased [(bytes "Content-length",bytes " 5")] [(bytes "Content-Length",bytes " 5")] ∧
      ¬ SameCourse
        (handleRead sampleEnv [[.received (requestText (bytes "POST /a HTTP/1.1")
          [(bytes "Content-length",bytes " 5")] [])]] sampleStart)
        (handleRead sampleEnv [[.received (requestText (bytes "POST /a HTTP/1.1")
          [(bytes "Content-Length",bytes " 5")] [])]] sampleStart) := by
  refine ⟨⟨by decide,?_,?_⟩,.cons ⟨by decide,rfl⟩ .nil,?_⟩
  · simp only [List.forall_mem_singleton,FieldName]
    decide
  · simp only [List.forall_mem_singleton]
    decide
  · intro same
    have told := congrArg (fun out => out.toOption.map fun view => (view.1.err,view.1.responses)) same
    have waits : (((handleRead sampleEnv [[.received (requestText (bytes "POST /a HTTP/1.1")
        [(bytes "Content-length",bytes " 5")] [])]] sampleStart).map Connection.view).toOption.map
        fun view => (view.1.err,view.1.responses)) = some (false,[]) := by decide
    have refuses : (((handleRead sampleEnv [[.received (requestText (bytes "POST /a HTTP/1.1")
        [(bytes "Content-Length",bytes " 5")] [])]] sampleStart).map Connection.view).toOption.map
        fun view => (view.1.err,view.1.responses)) = some (true,
          [errorHeader 400 (bytes "Bad Request: Lack of (Content-length)") ++
            errorBody 400 (bytes "Bad Request: Lack of (Content-length)")]) := by decide +kernel
    rw [waits,refuses] at told
    cases told

end Deon.Http
