import Deon.Http.Header
import Mathlib.Data.List.ReduceOption

/-! A header block that arrives in pieces. A call that returns AGAIN keeps `hState_`
and the bytes since `read_line_pos`, and the next call reads these bytes once more in
the state in which the first one stopped. The grammar below says where a block may be
cut so that it is still read to its end, and which fields are then read. -/
namespace Deon.Http

/-- Bytes with marks: `none` stands where a call ends and the next one begins. -/
abbrev Marked := List (Option UInt8)

abbrev plain (text : Bytes) : Marked := text.map some

/-- The next call reads the bytes that were kept. -/
def Reading.resume (r : Reading) : ReadEnd := (Reading.fresh r.hState r.headers).run r.line

/-- The block is read to its end, which is the end of the text. -/
inductive Finishes : Reading → Marked → Headers → Prop
  | last {r c rest headers} (ends : r.step c = .done headers) (all : rest = []) :
      Finishes r (some c :: rest) headers
  | byte {r r' c rest headers} (reads : r.step c = .next r') (later : Finishes r' rest headers) :
      Finishes r (some c :: rest) headers
  | mark {r r' rest headers} (resumes : r.resume = .again r') (later : Finishes r' rest headers) :
      Finishes r (none :: rest) headers

/-- What follows the name of a header. -/
def field (value : Bytes) : Bytes := colon :: space :: value ++ crlf

def FieldValue (value : Bytes) : Prop := value ≠ [] ∧ cr ∉ value

abbrev Fields := List (Bytes × Bytes)

def enter (headers : Headers) (fields : Fields) : Headers :=
  fields.foldl (fun headers one => headers.insert one.1 one.2) headers

/-- The header lines behind the first, and the end of the block. A mark in front of a
name puts a line feed into the name, and so does a mark inside it. -/
inductive Lines : Marked → Fields → Prop
  | ends {junk} (closed : lf ∉ junk) : Lines (plain (cr :: junk ++ [lf])) []
  | whole {c name value rest fields} (first : c ≠ cr) (named : colon ∉ name)
      (valued : FieldValue value) (later : Lines rest fields) :
      Lines (plain (c :: name ++ field value) ++ rest) ((c :: name,value) :: fields)
  | split {name : Marked} {value rest fields} (named : colon ∉ name.reduceOption)
      (valued : FieldValue value) (later : Lines rest fields) :
      Lines (none :: name ++ plain (field value) ++ rest) ((lf :: name.reduceOption,value) :: fields)
  | moved {c name rest fields} (first : c ≠ cr) (named : colon ∉ name) (more : rest ≠ [])
      (front : Lines (none :: plain (c :: name) ++ rest) fields) :
      Lines (plain (c :: name) ++ none :: rest) fields

/-- A header block: blank lines, the first header, the others. Marks do no harm among
the blank lines and inside the first name, unless it begins with a colon. -/
inductive Block : Marked → Fields → Prop
  | intro {blank name : Marked} {c value rest fields}
      (blanks : ∀ b ∈ blank.reduceOption, b = cr ∨ b = lf) (first : ¬ (c = lf ∨ c = cr))
      (named : colon ∉ name.reduceOption) (cut : none ∈ name → c ≠ colon)
      (valued : FieldValue value) (later : Lines rest fields) :
      Block (blank ++ some c :: name ++ plain (field value) ++ rest)
        ((c :: name.reduceOption,value) :: fields)

theorem finishes_byte {r : Reading} {c : UInt8} {rest : Marked} {headers : Headers} :
    Finishes r (some c :: rest) headers ↔
      match r.step c with
      | .next r' => Finishes r' rest headers
      | .failed _ _ => False
      | .done found => found = headers ∧ rest = [] := by
  cases turn : r.step c with
  | next r' =>
    constructor
    · intro finishes
      cases finishes with
      | last ends => simp [turn] at ends
      | byte reads later =>
        obtain rfl := Progress.next.inj (reads.symm.trans turn)
        exact later
    · exact .byte turn
  | failed hState found =>
    simp only [iff_false]
    intro finishes
    cases finishes with
    | last ends => simp [turn] at ends
    | byte reads => simp [turn] at reads
  | done found =>
    constructor
    · intro finishes
      cases finishes with
      | last ends all => exact ⟨Progress.done.inj (turn.symm.trans ends),all⟩
      | byte reads => simp [turn] at reads
    · rintro ⟨rfl,all⟩
      exact .last turn all

theorem finishes_run {r : Reading} {text : Bytes} {rest : Marked} {headers : Headers} :
    Finishes r (plain text ++ rest) headers ↔
      match r.run text with
      | .again r' => Finishes r' rest headers
      | .failed _ _ => False
      | .done found left => found = headers ∧ left = [] ∧ rest = [] := by
  induction text generalizing r with
  | nil => exact Iff.rfl
  | cons c text ih =>
    rw [plain,List.map_cons,List.cons_append,finishes_byte,Reading.run]
    cases r.step c with
    | next r' => exact ih
    | failed hState found => exact Iff.rfl
    | done found => simp

theorem finishes_again {r r' : Reading} {text : Bytes} {rest : Marked} {headers : Headers}
    (read : r.run text = .again r') :
    Finishes r (plain text ++ rest) headers ↔ Finishes r' rest headers := by
  rw [finishes_run,read]

theorem finishes_mark {r : Reading} {rest : Marked} {headers : Headers} :
    Finishes r (none :: rest) headers ↔ ∃ r', r.resume = .again r' ∧ Finishes r' rest headers := by
  constructor
  · intro finishes
    cases finishes with
    | mark resumes later => exact ⟨_,resumes,later⟩
  · rintro ⟨r',resumes,later⟩
    exact .mark resumes later

section Runs

variable {key value line : Bytes} {headers : Headers}

theorem name_run {name : Bytes} (named : colon ∉ name) :
    (⟨.key,key,value,line,headers⟩ : Reading).run name =
      .again ⟨.key,key ++ name,value,line ++ name,headers⟩ := by
  induction name generalizing key line with
  | nil => simp [Reading.run]
  | cons c name ih =>
    obtain ⟨other,later⟩ := List.ne_and_not_mem_of_not_mem_cons named
    have stays : ¬ c = colon := fun same => other same.symm
    simp [Reading.run,Reading.step,stays,ih later]

theorem value_run {text : Bytes} (valued : cr ∉ text) :
    (⟨.value,key,value,line,headers⟩ : Reading).run text =
      .again ⟨.value,key,value ++ text,line ++ text,headers⟩ := by
  induction text generalizing value line with
  | nil => simp [Reading.run]
  | cons c text ih =>
    obtain ⟨other,later⟩ := List.ne_and_not_mem_of_not_mem_cons valued
    have stays : ¬ c = cr := fun same => other same.symm
    simp [Reading.run,Reading.step,stays,ih later]

theorem blank_run {blank : Bytes} (blanks : ∀ b ∈ blank, b = cr ∨ b = lf) :
    (⟨.start,key,value,line,headers⟩ : Reading).run blank =
      .again ⟨.start,key,value,line ++ blank,headers⟩ := by
  induction blank generalizing line with
  | nil => simp [Reading.run]
  | cons c blank ih =>
    have stays : c = lf ∨ c = cr := (blanks c (by simp)).symm
    have later : ∀ b ∈ blank, b = cr ∨ b = lf := fun b member => blanks b (by simp [member])
    simp only [Reading.run,Reading.step,if_pos stays]
    rw [ih later,List.append_assoc]
    rfl

theorem endCr_run {junk : Bytes} (closed : lf ∉ junk) :
    (⟨.endCr,key,value,line,headers⟩ : Reading).run junk =
      .again ⟨.endCr,key,value,line ++ junk,headers⟩ := by
  induction junk generalizing line with
  | nil => simp [Reading.run]
  | cons c junk ih =>
    obtain ⟨other,later⟩ := List.ne_and_not_mem_of_not_mem_cons closed
    have stays : ¬ c = lf := fun same => other same.symm
    simp [Reading.run,Reading.step,stays,ih later]

theorem line_name_run {c : UInt8} {name : Bytes} (first : c ≠ cr) (named : colon ∉ name) :
    (⟨.lf,key,value,[lf],headers⟩ : Reading).run (c :: name) =
      .again ⟨.key,c :: name,value,lf :: c :: name,headers⟩ := by
  have one : (⟨.lf,key,value,[lf],headers⟩ : Reading).step c =
      .next ⟨.key,[c],value,[lf,c],headers⟩ := by
    simp [Reading.step,first]
  simp only [Reading.run,one]
  exact name_run named

theorem field_run {text : Bytes} (some : key ≠ []) (valued : FieldValue text) :
    (⟨.key,key,value,line,headers⟩ : Reading).run (field text) =
      .again ⟨.lf,key,text,[lf],headers.insert key text⟩ := by
  have spaced : (⟨.key,key,value,line,headers⟩ : Reading).run (colon :: space :: text ++ crlf) =
      (⟨.value,key,[],line ++ [colon] ++ [space],headers⟩ : Reading).run (text ++ crlf) := by
    simp [Reading.run,Reading.step,some]
  rw [field,spaced,Reading.run_again (value_run valued.2)]
  simp [Reading.run,Reading.step,crlf,valued.1]

theorem name_resume {c : UInt8} {name : Bytes} (first : c ≠ colon) (named : colon ∉ name) :
    (⟨.key,key,value,c :: name,headers⟩ : Reading).resume =
      .again ⟨.key,c :: name,[],c :: name,headers⟩ := by
  have one : (Reading.fresh .key headers).run (c :: name) =
      (⟨.key,[c],[],[c],headers⟩ : Reading).run name := by
    simp [Reading.fresh,Reading.run,Reading.step,first]
  rw [Reading.resume,one,name_run named]
  rfl

theorem line_resume : (⟨.lf,key,value,[lf],headers⟩ : Reading).resume =
    .again ⟨.key,[lf],[],[lf],headers⟩ := rfl

theorem blank_resume (blanks : ∀ b ∈ line, b = cr ∨ b = lf) :
    (⟨.start,key,value,line,headers⟩ : Reading).resume = .again ⟨.start,[],[],line,headers⟩ := by
  rw [Reading.resume,Reading.fresh,blank_run blanks]
  rfl

end Runs

section Sound

variable {headers found : Headers}

theorem marked_name_finishes {c : UInt8} {name rest : Marked} (cut : none ∈ name → c ≠ colon)
    (named : colon ∉ name.reduceOption) : ∀ {k value : Bytes}, colon ∉ k →
    (∀ value, Finishes ⟨.key,c :: k ++ name.reduceOption,value,c :: k ++ name.reduceOption,headers⟩
      rest found) →
    Finishes ⟨.key,c :: k,value,c :: k,headers⟩ (name ++ rest) found := by
  induction name with
  | nil =>
    intro k value _ later
    simpa using later value
  | cons symbol name ih =>
    intro k value before later
    cases symbol with
    | none =>
      refine .mark (name_resume (cut (by simp)) before) ?_
      exact ih (fun member => cut (by simp [member])) named before later
    | some d =>
      rw [List.reduceOption_cons_of_some] at named later
      obtain ⟨other,named⟩ := List.ne_and_not_mem_of_not_mem_cons named
      have stays : ¬ d = colon := fun same => other same.symm
      have longer : colon ∉ k ++ [d] := by
        simp only [List.mem_append,List.mem_singleton,not_or]
        exact ⟨before,other⟩
      have next : (⟨.key,c :: k,value,c :: k,headers⟩ : Reading).step d =
          .next ⟨.key,c :: (k ++ [d]),value,c :: (k ++ [d]),headers⟩ := by
        simp [Reading.step,stays]
      refine .byte next (ih (fun member => cut (by simp [member])) named longer ?_)
      intro value
      simpa using later value

theorem enter_cons (headers : Headers) (key value : Bytes) (fields : Fields) :
    enter headers ((key,value) :: fields) = enter (headers.insert key value) fields := rfl

theorem lines_finish {marked : Marked} {fields : Fields} (lines : Lines marked fields) :
    ∀ (key value : Bytes) (headers : Headers),
      Finishes ⟨.lf,key,value,[lf],headers⟩ marked (enter headers fields) := by
  induction lines with
  | @ends junk closed =>
    intro key value headers
    have first : (⟨.lf,key,value,[lf],headers⟩ : Reading).step cr =
        .next ⟨.endCr,key,value,[lf,cr],headers⟩ := rfl
    rw [plain,List.cons_append,List.map_cons,List.map_append]
    refine .byte first ((finishes_again (endCr_run closed)).mpr ?_)
    exact .last rfl rfl
  | @whole c name text rest fields first named valued later ih =>
    intro key value headers
    have start := Reading.run_again
      (@line_name_run key value headers c name first named) (field text)
    rw [enter_cons]
    exact (finishes_again (start.trans (field_run (by simp) valued))).mpr (ih ..)
  | @split name text rest fields named valued later ih =>
    intro key value headers
    rw [enter_cons,List.append_assoc]
    refine .mark line_resume (marked_name_finishes (fun _ => by decide) named (by simp) ?_)
    intro value
    exact (finishes_again (field_run (by simp) valued)).mpr (ih ..)
  | @moved c name rest fields first named more front ih =>
    intro key value headers
    obtain ⟨r,resumes,later⟩ := finishes_mark.mp (ih key value headers)
    obtain rfl := ReadEnd.again.inj (line_resume.symm.trans resumes)
    rw [finishes_again (line_name_run first named),finishes_mark]
    have again : (⟨.key,c :: name,value,lf :: c :: name,headers⟩ : Reading).resume =
        (⟨.key,[lf],[],[lf],headers⟩ : Reading).run (c :: name) := rfl
    rw [again]
    have read := finishes_run.mp later
    cases ended : (⟨.key,[lf],[],[lf],headers⟩ : Reading).run (c :: name) with
    | again r =>
      rw [ended] at read
      exact ⟨r,rfl,read⟩
    | failed => simp [ended] at read
    | done =>
      rw [ended] at read
      exact absurd read.2.2 more

theorem marked_blank_finishes {blank rest : Marked}
    (blanks : ∀ b ∈ blank.reduceOption, b = cr ∨ b = lf) : ∀ {key value line : Bytes},
    (∀ b ∈ line, b = cr ∨ b = lf) →
    (∀ key value, Finishes ⟨.start,key,value,line ++ blank.reduceOption,headers⟩ rest found) →
    Finishes ⟨.start,key,value,line,headers⟩ (blank ++ rest) found := by
  induction blank with
  | nil =>
    intro key value line _ later
    simpa using later key value
  | cons symbol blank ih =>
    intro key value line before later
    cases symbol with
    | none => exact .mark (blank_resume before) (ih blanks before later)
    | some b =>
      rw [List.reduceOption_cons_of_some] at blanks later
      have here := blanks b (by simp)
      have next : (⟨.start,key,value,line,headers⟩ : Reading).step b =
          .next ⟨.start,key,value,line ++ [b],headers⟩ := if_pos here.symm
      refine .byte next (ih (fun d member => blanks d (by simp [member])) ?_ ?_)
      · intro d member
        rcases List.mem_append.mp member with old | new
        · exact before d old
        · obtain rfl := List.mem_singleton.mp new
          exact here
      · intro key value
        simpa using later key value

theorem block_finishes {marked : Marked} {fields : Fields} (block : Block marked fields) :
    Finishes (Reading.fresh .start ∅) marked (enter ∅ fields) := by
  cases block with
  | @intro blank name c text rest fields blanks first named cut valued later =>
    rw [List.append_assoc,List.append_assoc,List.cons_append]
    refine marked_blank_finishes blanks (by simp) fun key value => ?_
    have next : (⟨.start,key,value,[] ++ blank.reduceOption,∅⟩ : Reading).step c =
        .next ⟨.key,[c],value,[c],∅⟩ := if_neg first
    refine .byte next (marked_name_finishes cut named (by simp) fun value => ?_)
    rw [enter_cons]
    exact (finishes_again (field_run (by simp) valued)).mpr (lines_finish later ..)

end Sound

end Deon.Http
