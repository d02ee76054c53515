import Deon.Http.Cuts

/-! A header block as a client writes it is read back: `parseRequestHeader` returns the
fields, in their order, and leaves what stands behind the block. -/
namespace Deon.Http

/-- What a client may put in front of the colon. -/
def FieldName (name : Bytes) : Prop := name ≠ [] ∧ colon ∉ name ∧ cr ∉ name ∧ lf ∉ name

def headerLine (one : Bytes × Bytes) : Bytes := one.1 ++ bytes ": " ++ one.2 ++ crlf

def headerBlock (fields : Fields) : Bytes := fields.flatMap headerLine ++ crlf

theorem headerBlock_cons (one : Bytes × Bytes) (fields : Fields) (rest : Bytes) :
    headerBlock (one :: fields) ++ rest = headerLine one ++ (headerBlock fields ++ rest) := by
  simp [headerBlock]

theorem headerLine_field (name value : Bytes) : headerLine (name,value) = name ++ field value := by
  have separator : bytes ": " = [colon,space] := rfl
  simp [headerLine,field,separator]

section Lines

variable {key value name text : Bytes} {headers : Headers}

theorem line_run (named : FieldName name) (valued : FieldValue text) :
    (⟨.lf,key,value,[lf],headers⟩ : Reading).run (headerLine (name,text)) =
      .again ⟨.lf,name,text,[lf],headers.insert name text⟩ := by
  obtain ⟨some,noColon,noCr,_⟩ := named
  obtain ⟨c,rest,rfl⟩ := List.exists_cons_of_ne_nil some
  have first : c ≠ cr := fun same => noCr (by simp [same])
  have later : colon ∉ rest := fun member => noColon (by simp [member])
  rw [headerLine_field,Reading.run_again (line_name_run first later)]
  exact field_run (by simp) valued

theorem first_line_run (named : FieldName name) (valued : FieldValue text) :
    (Reading.fresh .start headers).run (headerLine (name,text)) =
      .again ⟨.lf,name,text,[lf],headers.insert name text⟩ := by
  obtain ⟨some,noColon,noCr,noLf⟩ := named
  obtain ⟨c,rest,rfl⟩ := List.exists_cons_of_ne_nil some
  have first : ¬ (c = lf ∨ c = cr) := by
    rintro (same | same)
    · exact noLf (by simp [same])
    · exact noCr (by simp [same])
  have later : colon ∉ rest := fun member => noColon (by simp [member])
  have start : (Reading.fresh .start headers).run (c :: rest) =
      .again ⟨.key,c :: rest,[],c :: rest,headers⟩ := by
    have one : (Reading.fresh .start headers).step c = .next ⟨.key,[c],[],[c],headers⟩ := if_neg first
    simp only [Reading.run,one]
    exact name_run later
  rw [headerLine_field,Reading.run_again start]
  exact field_run (by simp) valued

end Lines

theorem lines_run {fields : Fields} (names : ∀ one ∈ fields, FieldName one.1)
    (values : ∀ one ∈ fields, FieldValue one.2) (rest : Bytes) :
    ∀ (key value : Bytes) (headers : Headers),
      (⟨.lf,key,value,[lf],headers⟩ : Reading).run (headerBlock fields ++ rest) =
        .done (enter headers fields) rest := by
  induction fields with
  | nil =>
    intro key value headers
    rfl
  | cons one fields ih =>
    intro key value headers
    have read := @line_run key value one.1 one.2 headers (names one (by simp)) (values one (by simp))
    have later := ih (fun other member => names other (by simp [member]))
      (fun other member => values other (by simp [member])) one.1 one.2 (headers.insert one.1 one.2)
    rw [headerBlock_cons,Reading.run_again read,later,enter_cons]

theorem block_run {fields : Fields} (some : fields ≠ []) (names : ∀ one ∈ fields, FieldName one.1)
    (values : ∀ one ∈ fields, FieldValue one.2) (rest : Bytes) :
    (Reading.fresh .start ∅).run (headerBlock fields ++ rest) = .done (enter ∅ fields) rest := by
  obtain ⟨one,fields,rfl⟩ := List.exists_cons_of_ne_nil some
  have read := @first_line_run one.1 one.2 ∅ (names one (by simp)) (values one (by simp))
  have later := @lines_run fields (fun other member => names other (by simp [member]))
    (fun other member => values other (by simp [member])) rest one.1 one.2
    ((∅ : Headers).insert one.1 one.2)
  rw [headerBlock_cons,Reading.run_again read,later,enter_cons]

theorem whole_block_read {fields : Fields} (some : fields ≠ [])
    (names : ∀ one ∈ fields, FieldName one.1) (values : ∀ one ∈ fields, FieldValue one.2)
    {request : HttpRequest} (empty : request.headers = ∅) :
    parseRequestHeader (headerBlock fields) .start request =
      .ok (.success,[],.endCr,{request with headers := enter ∅ fields}) := by
  have run := block_run some names values []
  rw [List.append_nil] at run
  rw [parseRequestHeader_reads,empty,run]
  rfl

/-- The header map of the block is that of its pairs, entered in order. -/
theorem header_block_read {fields : Fields} (some : fields ≠ [])
    (names : ∀ one ∈ fields, FieldName one.1) (values : ∀ one ∈ fields, FieldValue one.2)
    (rest : Bytes) (request : HttpRequest) (empty : request.headers = ∅) :
    parseRequestHeader (headerBlock fields ++ rest) .start request =
      .ok (.success,rest,.endCr,{request with headers := enter ∅ fields}) := by
  rw [parseRequestHeader_reads,empty,block_run some names values rest]
  rfl

/-- A name is repeated, a value holds a colon, and what follows looks like a header. -/
theorem header_block_read_sample :
    parseRequestHeader (bytes "A: 1\r\nB: c: d\r\nA: 2\r\n\r\nC: 3\r\n") .start requestInit =
      .ok (.success,bytes "C: 3\r\n",.endCr,{requestInit with
        headers := enter ∅ [(bytes "A",bytes "1"),(bytes "B",bytes "c: d"),(bytes "A",bytes "2")]}) :=
  @header_block_read [(bytes "A",bytes "1"),(bytes "B",bytes "c: d"),(bytes "A",bytes "2")]
    (by simp) (by simp only [List.forall_mem_cons,FieldName]; decide)
    (by simp only [List.forall_mem_cons,FieldValue]; decide) (bytes "C: 3\r\n") requestInit rfl

end Deon.Http
