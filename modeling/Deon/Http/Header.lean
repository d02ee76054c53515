import Deon.Http.Request

/-! `Http::parseRequestHeader`. The automaton of the source works with positions
in the buffer, which are local to a call, and with `hState_`, which is not. Below
it stands the same automaton over the texts those positions delimit: it shows
what a call that resumes in the middle of a header line really reads. -/
namespace Deon.Http

inductive HeaderState
  | success
  | again
  | error
  deriving DecidableEq, Repr

inductive HeaderParseState
  | start
  | key
  | spacesAfterColon
  | value
  | cr
  | lf
  | endCr
  deriving DecidableEq, Repr

/-- The locals of `parseRequestHeader` and the members that it changes. -/
structure HeaderScan where
  hState : HeaderParseState
  request : HttpRequest
  finish : Bool
  keyStart : Nat
  keyEnd : Nat
  valueStart : Nat
  valueEnd : Nat
  readLinePos : Nat

/-- One turn of the loop: on to the next byte, or `return PARSE_HEADER_ERROR`. -/
inductive Scanned
  | next (scan : HeaderScan)
  | failed (scan : HeaderScan)

/-- The `switch` on `hState_`, for the byte `c` at position `i`. -/
def scanStep (httpRequest : Bytes) (i : Nat) (c : UInt8) (scan : HeaderScan) :
    Except Fault Scanned :=
  match scan.hState with
  | .start =>
    if c = lf ∨ c = cr then .ok (.next scan)
    else .ok (.next {scan with hState := .key,keyStart := i,readLinePos := i})
  | .key =>
    if c = colon then
      if i ≤ scan.keyStart then .ok (.failed {scan with keyEnd := i})
      else .ok (.next {scan with keyEnd := i,hState := .spacesAfterColon})
    else .ok (.next scan)
  | .spacesAfterColon =>
    if c = space then .ok (.next {scan with hState := .value,valueStart := i + 1})
    else .ok (.failed scan)
  | .value =>
    if c = cr then
      if i ≤ scan.valueStart then .ok (.failed {scan with hState := .cr,valueEnd := i})
      else .ok (.next {scan with hState := .cr,valueEnd := i})
    else .ok (.next scan)
  | .cr =>
    if c = lf then do
      let key ← slice httpRequest scan.keyStart scan.keyEnd
      let value ← slice httpRequest scan.valueStart scan.valueEnd
      return .next {scan with
        hState := .lf
        request := scan.request.setHeader key value
        readLinePos := i}
    else .ok (.failed scan)
  | .lf =>
    if c = cr then .ok (.next {scan with hState := .endCr})
    else .ok (.next {scan with keyStart := i,hState := .key})
  | .endCr =>
    -- without a line feed the case falls out of the switch and the scan goes on
    if c = lf then .ok (.next {scan with finish := true,readLinePos := i})
    else .ok (.next scan)

inductive ScanEnd
  | stopped (i : Nat) (scan : HeaderScan)
  | failed (scan : HeaderScan)

/-- The `for` loop, with what is left of the buffer from position `i` on. -/
def scanLoop (httpRequest : Bytes) : Bytes → Nat → HeaderScan → Except Fault ScanEnd
  | [], i, scan => .ok (.stopped i scan)
  | c :: rest, i, scan =>
    if scan.finish then .ok (.stopped i scan)
    else do
      match ← scanStep httpRequest i c scan with
      | .next scan => scanLoop httpRequest rest (i + 1) scan
      | .failed scan => return .failed scan

/-- `Http::parseRequestHeader`: its result, the buffer, `hState_` and `request_`. -/
def parseRequestHeader (httpRequest : Bytes) (hState : HeaderParseState) (request : HttpRequest) :
    Except Fault (HeaderState × Bytes × HeaderParseState × HttpRequest) := do
  match ← scanLoop httpRequest httpRequest 0 ⟨hState,request,false,0,0,0,0,0⟩ with
  | .failed scan => return (.error,httpRequest,scan.hState,scan.request)
  | .stopped i scan =>
    if scan.finish then
      return (.success,← substr httpRequest i,scan.hState,scan.request)
    else
      return (.again,← substr httpRequest scan.readLinePos,scan.hState,scan.request)

/-- The automaton over texts: the name and the value read so far, and the text
since `read_line_pos`, which is what a call that returns AGAIN keeps. -/
structure Reading where
  hState : HeaderParseState
  key : Bytes
  value : Bytes
  line : Bytes
  headers : Headers

/-- A call begins with `hState_` and `headers_` as they are and all positions zero. -/
def Reading.fresh (hState : HeaderParseState) (headers : Headers) : Reading :=
  ⟨hState,[],[],[],headers⟩

inductive Progress
  | next (reading : Reading)
  | failed (hState : HeaderParseState) (headers : Headers)
  | done (headers : Headers)

def Reading.step (r : Reading) (c : UInt8) : Progress :=
  match r.hState with
  | .start =>
    if c = lf ∨ c = cr then .next {r with line := r.line ++ [c]}
    else .next {r with hState := .key,key := [c],line := [c]}
  | .key =>
    if c = colon then
      if r.key = [] then .failed .key r.headers
      else .next {r with hState := .spacesAfterColon,line := r.line ++ [c]}
    else .next {r with key := r.key ++ [c],line := r.line ++ [c]}
  | .spacesAfterColon =>
    if c = space then .next {r with hState := .value,value := [],line := r.line ++ [c]}
    else .failed .spacesAfterColon r.headers
  | .value =>
    if c = cr then
      if r.value = [] then .failed .cr r.headers
      else .next {r with hState := .cr,line := r.line ++ [c]}
    else .next {r with value := r.value ++ [c],line := r.line ++ [c]}
  | .cr =>
    if c = lf then .next {r with hState := .lf,headers := r.headers.insert r.key r.value,line := [c]}
    else .failed .cr r.headers
  | .lf =>
    if c = cr then .next {r with hState := .endCr,line := r.line ++ [c]}
    else .next {r with hState := .key,key := [c],line := r.line ++ [c]}
  | .endCr =>
    if c = lf then .done r.headers
    else .next {r with line := r.line ++ [c]}

inductive ReadEnd
  | again (reading : Reading)
  | failed (hState : HeaderParseState) (headers : Headers)
  | done (headers : Headers) (rest : Bytes)

def Reading.run (r : Reading) : Bytes → ReadEnd
  | [] => .again r
  | c :: rest =>
    match r.step c with
    | .next r => r.run rest
    | .failed hState headers => .failed hState headers
    | .done headers => .done headers rest

theorem Reading.run_again {r r' : Reading} {text : Bytes} (stopped : r.run text = .again r')
    (more : Bytes) : r.run (text ++ more) = r'.run more := by
  induction text generalizing r with
  | nil =>
    obtain rfl := ReadEnd.again.inj stopped
    rfl
  | cons c text ih =>
    simp only [List.cons_append,Reading.run] at stopped ⊢
    cases turn : r.step c with
    | next next =>
      simp only [turn] at stopped
      exact ih stopped
    | failed hState headers => simp [turn] at stopped
    | done headers => simp [turn] at stopped

theorem Reading.run_done {r : Reading} {text rest : Bytes} {headers : Headers}
    (finished : r.run text = .done headers rest) (more : Bytes) :
    r.run (text ++ more) = .done headers (rest ++ more) := by
  induction text generalizing r with
  | nil => simp [Reading.run] at finished
  | cons c text ih =>
    simp only [List.cons_append,Reading.run] at finished ⊢
    cases turn : r.step c with
    | next next =>
      simp only [turn] at finished
      exact ih finished
    | failed hState headers => simp [turn] at finished
    | done headers =>
      simp only [turn,ReadEnd.done.injEq] at finished
      obtain ⟨rfl,rfl⟩ := finished
      rfl

/-- What a call of `parseRequestHeader` returns for an end of the reading. -/
def ReadEnd.outcome (buffer : Bytes) (request : HttpRequest) :
    ReadEnd → HeaderState × Bytes × HeaderParseState × HttpRequest
  | .again r => (.again,r.line,r.hState,{request with headers := r.headers})
  | .failed hState headers => (.error,buffer,hState,{request with headers := headers})
  | .done headers rest => (.success,rest,.endCr,{request with headers := headers})

/-- The positions of a scan that has consumed `read` delimit the texts of `r`. -/
structure Delimits (request : HttpRequest) (read : Bytes) (scan : HeaderScan) (r : Reading) :
    Prop where
  running : scan.finish = false
  state : scan.hState = r.hState
  parsed : scan.request = {request with headers := r.headers}
  line : scan.readLinePos ≤ read.length ∧ r.line = read.drop scan.readLinePos
  key : r.hState = .key → scan.keyStart ≤ read.length ∧ r.key = read.drop scan.keyStart
  named : r.hState = .spacesAfterColon ∨ r.hState = .value ∨ r.hState = .cr →
    scan.keyStart ≤ scan.keyEnd ∧ scan.keyEnd ≤ read.length ∧
      r.key = (read.take scan.keyEnd).drop scan.keyStart
  value : r.hState = .value → scan.valueStart ≤ read.length ∧ r.value = read.drop scan.valueStart
  valued : r.hState = .cr → scan.valueStart ≤ scan.valueEnd ∧ scan.valueEnd ≤ read.length ∧
    r.value = (read.take scan.valueEnd).drop scan.valueStart

theorem Delimits.fresh (request : HttpRequest) (hState : HeaderParseState) :
    Delimits request [] ⟨hState,request,false,0,0,0,0,0⟩ (Reading.fresh hState request.headers) := by
  constructor <;> simp [Reading.fresh]

private theorem drop_grow {read : Bytes} {a : Nat} (c : UInt8) (inside : a ≤ read.length) :
    (read ++ [c]).drop a = read.drop a ++ [c] := List.drop_append_of_le_length inside

private theorem take_grow {read : Bytes} {b : Nat} (more : Bytes) (inside : b ≤ read.length) :
    (read ++ more).take b = read.take b := List.take_append_of_le_length inside

/-- What a turn of the loop does to the positions, where the reading does this to the texts. -/
def Matches (request : HttpRequest) (read : Bytes) (c : UInt8) (scanned : Except Fault Scanned) :
    Progress → Prop
  | .next r => ∃ scan, scanned = .ok (.next scan) ∧ Delimits request (read ++ [c]) scan r
  | .failed hState headers => ∃ scan, scanned = .ok (.failed scan) ∧ scan.hState = hState ∧
      scan.request = {request with headers := headers}
  | .done headers => ∃ scan, scanned = .ok (.next scan) ∧ scan.finish = true ∧
      scan.hState = .endCr ∧ scan.request = {request with headers := headers}

section Turn

variable {request : HttpRequest} {read name text line : Bytes} {scan : HeaderScan} {headers : Headers}

theorem start_reads (delimits : Delimits request read scan ⟨.start,name,text,line,headers⟩) (c : UInt8)
    (rest : Bytes) : Matches request read c (scanStep (read ++ c :: rest) read.length c scan)
      (Reading.step ⟨.start,name,text,line,headers⟩ c) := by
  obtain ⟨running,state,parsed,⟨lineBound,lineText⟩,key,named,value,valued⟩ := delimits
  dsimp only at *
  subst lineText
  have whole : (read ++ [c]).length = read.length + 1 := by simp
  by_cases blank : c = lf ∨ c = cr
  · simp only [Reading.step,scanStep,state,blank,if_true]
    refine ⟨scan,rfl,?_⟩
    constructor <;> simp_all [drop_grow]
    omega
  · simp only [Reading.step,scanStep,state,blank,if_false]
    refine ⟨_,rfl,?_⟩
    constructor <;> simp_all

theorem key_reads (delimits : Delimits request read scan ⟨.key,name,text,line,headers⟩) (c : UInt8)
    (rest : Bytes) : Matches request read c (scanStep (read ++ c :: rest) read.length c scan)
      (Reading.step ⟨.key,name,text,line,headers⟩ c) := by
  obtain ⟨running,state,parsed,⟨lineBound,lineText⟩,key,named,value,valued⟩ := delimits
  dsimp only at *
  subst lineText
  have whole : (read ++ [c]).length = read.length + 1 := by simp
  obtain ⟨keyBound,keyText⟩ := key rfl
  subst keyText
  by_cases ends : c = colon
  · by_cases empty : read.length ≤ scan.keyStart
    · simp only [Reading.step,scanStep,state,ends,if_true,empty,
        List.drop_eq_nil_of_le empty]
      exact ⟨_,rfl,rfl,parsed⟩
    · have some : read.drop scan.keyStart ≠ [] := by simpa using empty
      simp only [Reading.step,scanStep,state,ends,if_true,empty,some,if_false]
      refine ⟨_,rfl,?_⟩
      constructor <;> simp_all [drop_grow]
      omega
  · simp only [Reading.step,scanStep,state,ends,if_false]
    refine ⟨scan,rfl,?_⟩
    constructor <;> simp_all [drop_grow]
    · omega
    · omega

theorem spaces_reads
    (delimits : Delimits request read scan ⟨.spacesAfterColon,name,text,line,headers⟩) (c : UInt8)
    (rest : Bytes) : Matches request read c (scanStep (read ++ c :: rest) read.length c scan)
      (Reading.step ⟨.spacesAfterColon,name,text,line,headers⟩ c) := by
  obtain ⟨running,state,parsed,⟨lineBound,lineText⟩,key,named,value,valued⟩ := delimits
  dsimp only at *
  subst lineText
  have whole : (read ++ [c]).length = read.length + 1 := by simp
  obtain ⟨ordered,keyBound,keyText⟩ := named (by simp)
  subst keyText
  by_cases blank : c = space
  · simp only [Reading.step,scanStep,state,blank,if_true]
    refine ⟨_,rfl,?_⟩
    constructor <;> simp_all [drop_grow,take_grow]
    · omega
    · omega
  · simp only [Reading.step,scanStep,state,blank,if_false]
    exact ⟨scan,rfl,state,parsed⟩

theorem value_reads (delimits : Delimits request read scan ⟨.value,name,text,line,headers⟩) (c : UInt8)
    (rest : Bytes) : Matches request read c (scanStep (read ++ c :: rest) read.length c scan)
      (Reading.step ⟨.value,name,text,line,headers⟩ c) := by
  obtain ⟨running,state,parsed,⟨lineBound,lineText⟩,key,named,value,valued⟩ := delimits
  dsimp only at *
  subst lineText
  have whole : (read ++ [c]).length = read.length + 1 := by simp
  obtain ⟨ordered,keyBound,keyText⟩ := named (by simp)
  obtain ⟨valueBound,valueText⟩ := value rfl
  subst keyText valueText
  by_cases ends : c = cr
  · by_cases empty : read.length ≤ scan.valueStart
    · simp only [Reading.step,scanStep,state,ends,if_true,empty,
        List.drop_eq_nil_of_le empty]
      exact ⟨_,rfl,rfl,parsed⟩
    · have some : read.drop scan.valueStart ≠ [] := by simpa using empty
      simp only [Reading.step,scanStep,state,ends,if_true,empty,some,if_false]
      refine ⟨_,rfl,?_⟩
      constructor <;> simp_all [drop_grow,take_grow]
      · omega
      · omega
  · simp only [Reading.step,scanStep,state,ends,if_false]
    refine ⟨scan,rfl,?_⟩
    constructor <;> simp_all [drop_grow,take_grow]
    · omega
    · omega
    · omega

theorem cr_reads (delimits : Delimits request read scan ⟨.cr,name,text,line,headers⟩) (c : UInt8)
    (rest : Bytes) : Matches request read c (scanStep (read ++ c :: rest) read.length c scan)
      (Reading.step ⟨.cr,name,text,line,headers⟩ c) := by
  obtain ⟨running,state,parsed,⟨lineBound,lineText⟩,key,named,value,valued⟩ := delimits
  dsimp only at *
  subst lineText
  have whole : (read ++ [c]).length = read.length + 1 := by simp
  obtain ⟨ordered,keyBound,keyText⟩ := named (by simp)
  obtain ⟨valueOrdered,valueBound,valueText⟩ := valued rfl
  subst keyText valueText
  by_cases ends : c = lf
  · have keySlice : slice (read ++ c :: rest) scan.keyStart scan.keyEnd =
        .ok ((read.take scan.keyEnd).drop scan.keyStart) := by
      simp [slice,ordered,take_grow,keyBound]
      omega
    have valueSlice : slice (read ++ c :: rest) scan.valueStart scan.valueEnd =
        .ok ((read.take scan.valueEnd).drop scan.valueStart) := by
      simp [slice,valueOrdered,take_grow,valueBound]
      omega
    simp only [Reading.step,scanStep,state,ends,if_true] at keySlice valueSlice ⊢
    rw [keySlice,valueSlice]
    refine ⟨_,rfl,?_⟩
    constructor <;> simp_all [HttpRequest.setHeader]
  · simp only [Reading.step,scanStep,state,ends,if_false]
    exact ⟨scan,rfl,state,parsed⟩

theorem lf_reads (delimits : Delimits request read scan ⟨.lf,name,text,line,headers⟩) (c : UInt8)
    (rest : Bytes) : Matches request read c (scanStep (read ++ c :: rest) read.length c scan)
      (Reading.step ⟨.lf,name,text,line,headers⟩ c) := by
  obtain ⟨running,state,parsed,⟨lineBound,lineText⟩,key,named,value,valued⟩ := delimits
  dsimp only at *
  subst lineText
  have whole : (read ++ [c]).length = read.length + 1 := by simp
  by_cases ends : c = cr
  · simp only [Reading.step,scanStep,state,ends,if_true]
    refine ⟨_,rfl,?_⟩
    constructor <;> simp_all [drop_grow]
    omega
  · simp only [Reading.step,scanStep,state,ends,if_false]
    refine ⟨_,rfl,?_⟩
    constructor <;> simp_all [drop_grow]
    omega

theorem endCr_reads (delimits : Delimits request read scan ⟨.endCr,name,text,line,headers⟩) (c : UInt8)
    (rest : Bytes) : Matches request read c (scanStep (read ++ c :: rest) read.length c scan)
      (Reading.step ⟨.endCr,name,text,line,headers⟩ c) := by
  obtain ⟨running,state,parsed,⟨lineBound,lineText⟩,key,named,value,valued⟩ := delimits
  dsimp only at *
  subst lineText
  have whole : (read ++ [c]).length = read.length + 1 := by simp
  by_cases ends : c = lf
  · simp only [Reading.step,scanStep,state,ends,if_true]
    exact ⟨_,rfl,rfl,rfl,parsed⟩
  · simp only [Reading.step,scanStep,state,ends,if_false]
    refine ⟨scan,rfl,?_⟩
    constructor <;> simp_all [drop_grow]
    omega

end Turn

/-- The step lemma: a turn of the loop does to the positions what the reading does
to the texts, and none of its two `std::string` ranges is out of order. -/
theorem scanStep_reads {request : HttpRequest} {read : Bytes} {scan : HeaderScan} {r : Reading}
    (delimits : Delimits request read scan r) (c : UInt8) (rest : Bytes) :
    Matches request read c (scanStep (read ++ c :: rest) read.length c scan) (r.step c) := by
  obtain ⟨hState,name,text,line,headers⟩ := r
  cases hState with
  | start => exact start_reads delimits c rest
  | key => exact key_reads delimits c rest
  | spacesAfterColon => exact spaces_reads delimits c rest
  | value => exact value_reads delimits c rest
  | cr => exact cr_reads delimits c rest
  | lf => exact lf_reads delimits c rest
  | endCr => exact endCr_reads delimits c rest

/-- The loop, from any point of the buffer on. -/
theorem scanLoop_reads {request : HttpRequest} (rest : Bytes) :
    ∀ {read : Bytes} {scan : HeaderScan} {r : Reading}, Delimits request read scan r →
      match r.run rest with
      | .again r' => ∃ scan', scanLoop (read ++ rest) rest read.length scan =
          .ok (.stopped (read ++ rest).length scan') ∧ Delimits request (read ++ rest) scan' r'
      | .failed hState headers => ∃ scan',
          scanLoop (read ++ rest) rest read.length scan = .ok (.failed scan') ∧
          scan'.hState = hState ∧ scan'.request = {request with headers := headers}
      | .done headers after => ∃ scan' i,
          scanLoop (read ++ rest) rest read.length scan = .ok (.stopped i scan') ∧
          scan'.finish = true ∧ scan'.hState = .endCr ∧ i ≤ (read ++ rest).length ∧
          (read ++ rest).drop i = after ∧ scan'.request = {request with headers := headers} := by
  induction rest with
  | nil =>
    intro read scan r delimits
    simp only [Reading.run,scanLoop,List.append_nil]
    exact ⟨scan,rfl,delimits⟩
  | cons c rest ih =>
    intro read scan r delimits
    have one := scanStep_reads delimits c rest
    have running := delimits.running
    simp only [Reading.run,scanLoop,running,Bool.false_eq_true,if_false]
    cases turn : r.step c with
    | next r' =>
      simp only [turn,Matches] at one
      obtain ⟨scan',stepped,later⟩ := one
      have more := ih later
      simp only [List.append_assoc,List.singleton_append,List.length_append,
        List.length_singleton] at more
      simp only [stepped,bind,Except.bind]
      simpa only [List.length_append] using more
    | failed hState headers =>
      simp only [turn,Matches] at one
      obtain ⟨scan',stepped,state,parsed⟩ := one
      simp only [stepped,bind,Except.bind]
      exact ⟨scan',rfl,state,parsed⟩
    | done headers =>
      simp only [turn,Matches] at one
      obtain ⟨scan',stepped,finished,state,parsed⟩ := one
      simp only [stepped,bind,Except.bind]
      refine ⟨scan',read.length + 1,?_,finished,state,by simp,?_,parsed⟩
      · cases rest <;> simp [scanLoop,finished]
      · rw [List.append_cons]
        exact List.drop_left' (by simp)

/-- `parseRequestHeader` is the reading of its buffer from the state it resumes in. -/
theorem parseRequestHeader_reads (buffer : Bytes) (hState : HeaderParseState)
    (request : HttpRequest) : parseRequestHeader buffer hState request =
      .ok (((Reading.fresh hState request.headers).run buffer).outcome buffer request) := by
  have loop := scanLoop_reads buffer (Delimits.fresh request hState)
  unfold parseRequestHeader
  cases ended : (Reading.fresh hState request.headers).run buffer with
  | again r =>
    simp only [ended,List.nil_append,List.length_nil] at loop
    obtain ⟨scan,looped,delimits⟩ := loop
    rw [looped]
    simp [bind,Except.bind,delimits.running,delimits.line,delimits.state,delimits.parsed,
      ReadEnd.outcome,pure,Except.pure]
  | failed hState headers =>
    simp only [ended,List.nil_append,List.length_nil] at loop
    obtain ⟨scan,looped,state,parsed⟩ := loop
    rw [looped]
    simp [bind,Except.bind,state,parsed,ReadEnd.outcome,pure,Except.pure]
  | done headers rest =>
    simp only [ended,List.nil_append,List.length_nil] at loop
    obtain ⟨scan,i,looped,finished,state,bound,rest,parsed⟩ := loop
    rw [looped]
    simp [bind,Except.bind,finished,bound,rest,state,parsed,ReadEnd.outcome,pure,Except.pure]

end Deon.Http
