import Deon.Http.CutsExact
import Deon.Http.HeaderBlock
import Deon.Library.Cut

/-! What the header automaton accepts: blank lines in front, names that run over the ends of
lines, and bytes between the last CR and its LF. Which buffers it accepts as header blocks. -/
namespace Deon.Http
open Library

/-- The bytes in front of `rest` are a header block of named lines, and the map is theirs. -/
def Sound (buffer rest : Bytes) (headers : Headers) : Prop :=
  ∃ fields, buffer = headerBlock fields ++ rest ∧ headers = enter ∅ fields ∧
    ∀ one ∈ fields, (one.1 ≠ [] ∧ cr ∉ one.1 ∧ lf ∉ one.1) ∧ FieldValue one.2

/-- Behind the first byte stands a colon, and up to it neither CR nor LF. -/
def Names : Bytes → Prop
  | [] => False
  | c :: line => (c ≠ cr ∧ c ≠ lf) ∧ colon ∈ line ∧
      cr ∉ line.takeWhile (· ≠ colon) ∧ lf ∉ line.takeWhile (· ≠ colon)

instance (line : Bytes) : Decidable (Names line) := by
  cases line <;> unfold Names <;> infer_instance

/-- The lines, which end at CRLF, in front of the first empty one. -/
def headLines (buffer : Bytes) : List Bytes := (cut cr lf buffer).takeWhile (· ≠ [])

/-- There are lines in front of the empty one, and each of them has a name. -/
def WellNamed (buffer : Bytes) : Prop :=
  headLines buffer ≠ [] ∧ ∀ line ∈ headLines buffer, Names line

/-- What stands in front of the colon of a header that is accepted. -/
def LooseName (name : Bytes) : Prop := ∃ c later, name = c :: later ∧ c ≠ cr ∧ colon ∉ later

theorem LooseName.ne {name : Bytes} (loose : LooseName name) : name ≠ [] := by
  obtain ⟨_,_,rfl,_⟩ := loose
  simp

theorem reduceOption_plain {name : Marked} (whole : none ∉ name) : plain name.reduceOption = name := by
  induction name with
  | nil => rfl
  | cons symbol name ih =>
    obtain ⟨other,later⟩ := List.ne_and_not_mem_of_not_mem_cons whole
    cases symbol with
    | none => exact absurd rfl other
    | some c =>
      rw [List.reduceOption_cons_of_some]
      exact congrArg (some c :: ·) (ih later)

theorem none_plain (text : Bytes) : none ∉ plain text := by simp [plain]

theorem plain_inj {one two : Bytes} (same : plain one = plain two) : one = two :=
  List.map_injective_iff.mpr (Option.some_injective _) same

theorem plain_append (one two : Bytes) : plain (one ++ two) = plain one ++ plain two := List.map_append

theorem lines_plain {marked : Marked} {fields : Fields} (lines : Lines marked fields) :
    ∀ text, marked = plain text → ∃ junk, lf ∉ junk ∧
      text = fields.flatMap headerLine ++ (cr :: junk ++ [lf]) ∧
      ∀ one ∈ fields, LooseName one.1 ∧ FieldValue one.2 := by
  induction lines with
  | @ends junk closed =>
    intro text same
    exact ⟨junk,closed,(plain_inj same).symm,by simp⟩
  | @whole c name value rest fields first named valued later ih =>
    intro text same
    have inside : none ∉ rest := fun member =>
      none_plain text (same ▸ List.mem_append_right _ member)
    rw [← reduceOption_plain inside,← plain_append] at same
    obtain ⟨junk,closed,parts,loose⟩ := ih _ (reduceOption_plain inside).symm
    refine ⟨junk,closed,?_,?_⟩
    · rw [← plain_inj same,parts,List.flatMap_cons,headerLine_field]
      simp only [List.append_assoc]
    · rw [List.forall_mem_cons]
      exact ⟨⟨⟨c,name,rfl,first,named⟩,valued⟩,loose⟩
  | split =>
    intro text same
    exact absurd (same ▸ by simp) (none_plain text)
  | moved =>
    intro text same
    exact absurd (same ▸ by simp) (none_plain text)

theorem block_plain {marked : Marked} {fields : Fields} (block : Block marked fields) (text : Bytes)
    (same : marked = plain text) : ∃ blank junk,
      text = blank ++ (fields.flatMap headerLine ++ (cr :: junk ++ [lf])) ∧
      (∀ b ∈ blank, b = cr ∨ b = lf) ∧ lf ∉ junk ∧ fields ≠ [] ∧
      ∀ one ∈ fields, LooseName one.1 ∧ FieldValue one.2 := by
  cases block with
  | @intro blank name c value rest fields blanks first named cut valued later =>
    have outside : none ∉ blank ∧ none ∉ name ∧ none ∉ rest := by
      have absent := same ▸ none_plain text
      simp only [List.mem_append,List.mem_cons,not_or] at absent
      exact ⟨absent.1.1.1,absent.1.1.2.2,absent.2⟩
    obtain ⟨inBlank,inName,inRest⟩ := outside
    obtain ⟨junk,closed,parts,loose⟩ := lines_plain later _ (reduceOption_plain inRest).symm
    have whole : blank ++ some c :: name ++ plain (field value) ++ rest = plain (blank.reduceOption ++
        (c :: name.reduceOption) ++ field value ++ rest.reduceOption) := by
      have cons : plain (c :: name.reduceOption) = some c :: plain name.reduceOption := rfl
      rw [plain_append,plain_append,plain_append,cons,reduceOption_plain inBlank,
        reduceOption_plain inName,reduceOption_plain inRest]
    refine ⟨blank.reduceOption,junk,?_,blanks,closed,by simp,?_⟩
    · rw [← plain_inj (whole.symm.trans same),parts,List.flatMap_cons,headerLine_field]
      simp only [List.append_assoc]
    · rw [List.forall_mem_cons]
      exact ⟨⟨⟨c,_,rfl,fun same => first (.inr same),named⟩,valued⟩,loose⟩

theorem run_done_finishes {text rest : Bytes} {headers : Headers} : ∀ {r : Reading},
    r.run text = .done headers rest → ∃ read, text = read ++ rest ∧ Finishes r (plain read) headers := by
  induction text with
  | nil =>
    intro r finished
    cases finished
  | cons c text ih =>
    intro r finished
    simp only [Reading.run] at finished
    cases turn : r.step c with
    | next r' =>
      simp only [turn] at finished
      obtain ⟨read,rfl,later⟩ := ih finished
      exact ⟨c :: read,rfl,.byte turn later⟩
    | failed => simp [turn] at finished
    | done found =>
      simp only [turn,ReadEnd.done.injEq] at finished
      obtain ⟨rfl,rfl⟩ := finished
      exact ⟨[c],rfl,.last turn rfl⟩

/-- The language that the automaton accepts, and the map it makes of it. -/
theorem accepted_shape {buffer rest : Bytes} {request after : HttpRequest}
    {hState : HeaderParseState} (empty : request.headers = ∅)
    (accepted : parseRequestHeader buffer .start request = .ok (.success,rest,hState,after)) :
    ∃ blank fields junk, buffer = blank ++ (fields.flatMap headerLine ++ (cr :: junk ++ lf :: rest)) ∧
      (∀ b ∈ blank, b = cr ∨ b = lf) ∧ lf ∉ junk ∧ fields ≠ [] ∧
      (∀ one ∈ fields, LooseName one.1 ∧ FieldValue one.2) ∧ after.headers = enter ∅ fields := by
  rw [parseRequestHeader_reads,empty] at accepted
  cases ended : (Reading.fresh .start ∅).run buffer with
  | again => simp [ended,ReadEnd.outcome] at accepted
  | failed => simp [ended,ReadEnd.outcome] at accepted
  | done headers left =>
    simp only [ended,ReadEnd.outcome,Except.ok.injEq,Prod.mk.injEq,true_and] at accepted
    obtain ⟨rfl,_,rfl⟩ := accepted
    have nameable := Reading.Named.run_done ⟨Finmap.notMem_empty,by simp [Reading.fresh]⟩ ended
    obtain ⟨read,rfl,finishes⟩ := run_done_finishes ended
    obtain ⟨fields,block,same⟩ := finishes_iff.mp ⟨finishes,nameable⟩
    obtain ⟨blank,junk,parts,blanks,closed,some,loose⟩ := block_plain block read rfl
    refine ⟨blank,fields,junk,?_,blanks,closed,some,loose,same.symm⟩
    rw [parts]
    simp

/-- The text up to the first colon, which is not the first byte. -/
theorem names_prefix {c : UInt8} {later more line : Bytes} (named : colon ∉ later)
    (names : Names line) (front : line <+: c :: (later ++ colon :: more)) :
    (c ≠ cr ∧ c ≠ lf) ∧ cr ∉ later ∧ lf ∉ later := by
  cases line with
  | nil => exact names.elim
  | cons d line =>
    obtain ⟨first,inside,noCr,noLf⟩ := names
    obtain ⟨rfl,behind,whole⟩ := List.cons_prefix_cons.mp front
    obtain ⟨before,after,parts,absent⟩ := List.eq_append_cons_of_mem inside
    have same := congrArg (List.takeWhile (· ≠ colon)) whole
    rw [parts,List.append_assoc,List.cons_append,takeWhile_before absent,
      takeWhile_before named] at same
    rw [parts,takeWhile_before absent,same] at noCr noLf
    exact ⟨first,noCr,noLf⟩

theorem headerLine_lines {name value : Bytes} (named : cr ∉ name) (valued : cr ∉ value)
    (rest : Bytes) : cut cr lf (headerLine (name,value) ++ rest) =
      (name ++ bytes ": " ++ value) :: cut cr lf rest := by
  have clear : cr ∉ name ++ bytes ": " ++ value := by
    have fixed : cr ∉ bytes ": " := by decide
    simp [named,valued,fixed]
  have parts : headerLine (name,value) ++ rest = name ++ bytes ": " ++ value ++ cr :: lf :: rest := by
    simp [headerLine,crlf]
  rw [parts,cut_append clear]

theorem headLines_cons {name value : Bytes} (some : name ≠ []) (named : cr ∉ name)
    (valued : cr ∉ value) (rest : Bytes) : headLines (headerLine (name,value) ++ rest) =
      (name ++ bytes ": " ++ value) :: headLines rest := by
  unfold headLines
  rw [headerLine_lines named valued,List.takeWhile_cons_of_pos (by simp [some])]

theorem headLines_crlf (rest : Bytes) : headLines (crlf ++ rest) = [] := by
  have empty := cut_separator cr lf rest
  simp only [headLines,crlf,List.cons_append,List.nil_append]
  rw [empty]
  simp

theorem headLines_first {c : UInt8} {rest : Bytes} (apart : c = cr → ∀ more, rest ≠ lf :: more) :
    ∃ line, c :: line ∈ headLines (c :: rest) ∧ c :: line <+: c :: rest := by
  obtain ⟨line,lines,same⟩ := @cut_cons _ _ cr lf _ _ apart
  obtain ⟨piece,pieces,again,front⟩ := cut_head cr lf (c :: rest)
  obtain ⟨rfl,_⟩ := List.cons.inj (again.symm.trans same)
  refine ⟨line,?_,front⟩
  simp [headLines,same]

/-- In a buffer with a well named head the names of the headers end in their lines, and
nothing stands between the last CR and its LF. -/
theorem named_lines {junk rest : Bytes} (closed : lf ∉ junk) {fields : Fields} :
    (∀ one ∈ fields, LooseName one.1 ∧ FieldValue one.2) →
    (∀ line ∈ headLines (fields.flatMap headerLine ++ (cr :: junk ++ lf :: rest)), Names line) →
    (∀ one ∈ fields, cr ∉ one.1 ∧ lf ∉ one.1) ∧ junk = [] := by
  induction fields with
  | nil =>
    intro _ names
    refine ⟨by simp,?_⟩
    cases junk with
    | nil => rfl
    | cons j junk =>
      obtain ⟨other,_⟩ := List.ne_and_not_mem_of_not_mem_cons closed
      have apart : cr = cr → ∀ more, j :: junk ++ lf :: rest ≠ lf :: more := by
        intro _ more same
        exact other (List.cons.inj same).1.symm
      obtain ⟨line,member,_⟩ := headLines_first apart
      exact absurd rfl (names _ member).1.1
  | cons one fields ih =>
    intro loose names
    obtain ⟨⟨⟨c,later,same,first,named⟩,valued⟩,others⟩ := List.forall_mem_cons.mp loose
    obtain ⟨name,value⟩ := one
    dsimp only at same valued
    subst same
    have whole : (⟨c :: later,value⟩ :: fields : Fields).flatMap headerLine ++
        (cr :: junk ++ lf :: rest) = headerLine (c :: later,value) ++
          (fields.flatMap headerLine ++ (cr :: junk ++ lf :: rest)) := by
      rw [List.flatMap_cons,List.append_assoc]
    rw [whole] at names
    -- the first line begins as the name does
    obtain ⟨line,member,front⟩ := @headLines_first c (later ++ colon :: (space :: value ++ crlf ++
      (fields.flatMap headerLine ++ (cr :: junk ++ lf :: rest)))) (fun same => absurd same first)
    have shape : headerLine (c :: later,value) ++
        (fields.flatMap headerLine ++ (cr :: junk ++ lf :: rest)) =
        c :: (later ++ colon :: (space :: value ++ crlf ++
          (fields.flatMap headerLine ++ (cr :: junk ++ lf :: rest)))) := by
      simp [headerLine_field,field]
    obtain ⟨⟨_,other⟩,noCr,noLf⟩ := names_prefix named (names _ (shape ▸ member)) front
    have clear : cr ∉ c :: later := List.not_mem_cons_of_ne_of_not_mem (Ne.symm first) noCr
    rw [headLines_cons (List.cons_ne_nil _ _) clear valued.2,List.forall_mem_cons] at names
    obtain ⟨rests,closes⟩ := ih others names.2
    refine ⟨?_,closes⟩
    rw [List.forall_mem_cons]
    exact ⟨⟨clear,List.not_mem_cons_of_ne_of_not_mem (Ne.symm other) noLf⟩,rests⟩

theorem headLines_block {fields : Fields}
    (clear : ∀ one ∈ fields, (one.1 ≠ [] ∧ cr ∉ one.1 ∧ lf ∉ one.1) ∧ FieldValue one.2)
    (rest : Bytes) :
    headLines (headerBlock fields ++ rest) = fields.map fun one => one.1 ++ bytes ": " ++ one.2 := by
  induction fields with
  | nil => exact headLines_crlf rest
  | cons one fields ih =>
    obtain ⟨⟨⟨some,named,_⟩,_,valued⟩,others⟩ := List.forall_mem_cons.mp clear
    rw [headerBlock_cons,headLines_cons some named valued,ih others,List.map_cons]

/-- A line with a clean name is well named, also when the name holds a colon. -/
theorem names_line {name value : Bytes} (some : name ≠ []) (named : cr ∉ name) (clean : lf ∉ name) :
    Names (name ++ bytes ": " ++ value) := by
  obtain ⟨c,later,rfl⟩ := List.exists_cons_of_ne_nil some
  have parts : c :: later ++ bytes ": " ++ value = c :: (later ++ colon :: space :: value) := by
    have separator : bytes ": " = [colon,space] := rfl
    simp [separator]
  have front := takeWhile_front (c := colon) later (space :: value)
  obtain ⟨one,noCr⟩ := List.ne_and_not_mem_of_not_mem_cons named
  obtain ⟨two,noLf⟩ := List.ne_and_not_mem_of_not_mem_cons clean
  rw [parts]
  exact ⟨⟨one.symm,two.symm⟩,by simp,fun member => noCr (front.mem member),
    fun member => noLf (front.mem member)⟩

theorem WellNamed.front {blank text : Bytes} (named : WellNamed (blank ++ text))
    (blanks : ∀ b ∈ blank, b = cr ∨ b = lf) : blank = [] := by
  obtain ⟨some,names⟩ := named
  cases blank with
  | nil => rfl
  | cons b blank =>
    obtain ⟨piece,pieces,same,front⟩ := cut_head cr lf (b :: blank ++ text)
    cases piece with
    | nil => exact absurd (by rw [headLines,same]; simp) some
    | cons d piece =>
      have member : d :: piece ∈ headLines (b :: blank ++ text) := by
        rw [headLines,same]
        simp
      obtain ⟨rfl,_⟩ := List.cons_prefix_cons.mp front
      have first := (names _ member).1
      exact ((blanks d (by simp)).elim first.1 first.2).elim

/-- The head of a sound block that is accepted: there is at least one line. -/
theorem Sound.well_named {buffer rest : Bytes} {request after : HttpRequest}
    {hState : HeaderParseState} (empty : request.headers = ∅)
    (accepted : parseRequestHeader buffer .start request = .ok (.success,rest,hState,after))
    (sound : Sound buffer rest after.headers) : WellNamed buffer := by
  obtain ⟨blank,fields,junk,parts,_,_,filled,_,_⟩ := accepted_shape empty accepted
  obtain ⟨others,text,_,clear⟩ := sound
  have heads : headLines buffer = others.map fun one => one.1 ++ bytes ": " ++ one.2 :=
    text ▸ headLines_block clear rest
  constructor
  · -- the block is longer than the CRLF at its end
    intro none
    have nothing : others = [] := List.map_eq_nil_iff.mp (heads.symm.trans none)
    obtain ⟨one,fields,rfl⟩ := List.exists_cons_of_ne_nil filled
    have long := congrArg List.length (parts.symm.trans text)
    simp [nothing,headerBlock,headerLine,crlf] at long
    omega
  · intro line member
    rw [heads] at member
    obtain ⟨one,among,rfl⟩ := List.mem_map.mp member
    obtain ⟨⟨some,named,clean⟩,_⟩ := clear one among
    exact names_line some named clean

/-- A header block that is accepted is a sound one exactly when its head is well named. -/
theorem header_sound_iff {buffer rest : Bytes} {request after : HttpRequest}
    {hState : HeaderParseState} (empty : request.headers = ∅)
    (accepted : parseRequestHeader buffer .start request = .ok (.success,rest,hState,after)) :
    Sound buffer rest after.headers ↔ WellNamed buffer := by
  refine ⟨fun sound => sound.well_named empty accepted,fun named => ?_⟩
  obtain ⟨blank,fields,junk,parts,blanks,closed,_,loose,same⟩ := accepted_shape empty accepted
  have front : blank = [] := (parts ▸ named).front blanks
  rw [front,List.nil_append] at parts
  obtain ⟨clean,rfl⟩ := named_lines closed loose (parts ▸ named.2)
  refine ⟨fields,?_,same,?_⟩
  · rw [parts]
    simp [headerBlock,crlf]
  · intro one member
    exact ⟨⟨(loose one member).1.ne,clean one member⟩,(loose one member).2⟩

theorem header_sound_sample : Sound (bytes "Host: a\r\n\r\nGET") (bytes "GET")
    (enter ∅ [(bytes "Host",bytes "a")]) := by
  have accepted : parseRequestHeader (bytes "Host: a\r\n\r\nGET") .start requestInit =
      .ok (.success,bytes "GET",.endCr,{requestInit with
        headers := enter ∅ [(bytes "Host",bytes "a")]}) := by
    rw [parseRequestHeader_reads]
    rfl
  exact (header_sound_iff rfl accepted).mpr (by unfold WellNamed; decide)

/-- A line without a colon is taken for the beginning of the next name, and bytes between the
last CR and its LF are read over. -/
theorem header_smuggled :
    (∃ hState after, parseRequestHeader (bytes "Garbage\r\nHost: a\r\n\r\n") .start requestInit =
      .ok (.success,[],hState,after) ∧
        ¬ Sound (bytes "Garbage\r\nHost: a\r\n\r\n") [] after.headers) ∧
    ∃ hState after, parseRequestHeader (bytes "Host: a\r\n\rGarbage\n") .start requestInit =
      .ok (.success,[],hState,after) ∧
        ¬ Sound (bytes "Host: a\r\n\rGarbage\n") [] after.headers := by
  have unsound : ∀ {buffer : Bytes} (key : Bytes), ¬ WellNamed buffer →
      parseRequestHeader buffer .start requestInit = .ok (.success,[],.endCr,
        {requestInit with headers := enter ∅ [(key,bytes "a")]}) →
      ∃ hState after, parseRequestHeader buffer .start requestInit =
        .ok (.success,[],hState,after) ∧ ¬ Sound buffer [] after.headers :=
    fun key loose accepted => ⟨_,_,accepted,fun sound => loose (sound.well_named rfl accepted)⟩
  constructor
  · exact unsound (bytes "Garbage\r\nHost") (by unfold WellNamed; decide)
      ((parseRequestHeader_reads _ _ _).trans rfl)
  · exact unsound (bytes "Host") (by unfold WellNamed; decide)
      ((parseRequestHeader_reads _ _ _).trans rfl)

end Deon.Http
