import Deon.Http.Cuts

/-! The other half of the grammar of cuts: a block that is read to its end has its
marks where the grammar allows them. A call that resumes behind the name of a header
has lost the name, and what it reads ends in the map under the empty name. -/
namespace Deon.Http

section Complete

variable {headers found : Headers} {key value line : Bytes}

/-- A call that resumes behind the name of a header has lost the name. -/
def Nameless (r : Reading) : Prop :=
  [] ∈ r.headers ∨ r.key = [] ∧
    (r.hState = .spacesAfterColon ∨ r.hState = .value ∨ r.hState = .cr)

theorem Nameless.step {r r' : Reading} {c : UInt8} (nameless : Nameless r)
    (reads : r.step c = .next r') : Nameless r' := by
  obtain ⟨hState,key,value,line,headers⟩ := r
  by_cases state : hState = .cr
  · subst state
    simp only [Reading.step] at reads
    split_ifs at reads
    obtain rfl := Progress.next.inj reads
    refine .inl (Finmap.mem_insert.mpr ?_)
    rcases nameless with inside | ⟨lost,_⟩
    · exact .inr inside
    · exact .inl lost.symm
  · cases hState <;> simp only [Reading.step] at reads <;> split_ifs at reads <;>
      obtain rfl := Progress.next.inj reads <;> simp_all [Nameless]

theorem Nameless.run {text : Bytes} : ∀ {r r' : Reading}, Nameless r →
    r.run text = .again r' → Nameless r' := by
  induction text with
  | nil =>
    intro r r' nameless stopped
    obtain rfl := ReadEnd.again.inj stopped
    exact nameless
  | cons c text ih =>
    intro r r' nameless stopped
    simp only [Reading.run] at stopped
    cases turn : r.step c with
    | next next =>
      simp only [turn] at stopped
      exact ih (nameless.step turn) stopped
    | failed => simp [turn] at stopped
    | done => simp [turn] at stopped

theorem Nameless.fresh {r : Reading} (nameless : Nameless r) :
    Nameless (Reading.fresh r.hState r.headers) := by
  rcases nameless with inside | ⟨_,state⟩
  · exact .inl inside
  · exact .inr ⟨rfl,state⟩

theorem Nameless.finishes {r : Reading} {marked : Marked} (nameless : Nameless r)
    (finishes : Finishes r marked found) : [] ∈ found := by
  induction finishes with
  | @last r c rest headers ends all =>
    obtain ⟨hState,key,value,line,before⟩ := r
    cases hState <;> simp only [Reading.step] at ends <;> split_ifs at ends
    obtain rfl := Progress.done.inj ends
    simpa [Nameless] using nameless
  | byte reads later ih => exact ih (nameless.step reads)
  | mark resumes later ih => exact ih (nameless.fresh.run resumes)

/-- No mark stands between the colon of a header and the end of its line. -/
theorem mark_nameless {r : Reading} {rest : Marked}
    (state : r.hState = .spacesAfterColon ∨ r.hState = .value ∨ r.hState = .cr)
    (finishes : Finishes r (none :: rest) found) : [] ∈ found := by
  obtain ⟨r',resumes,later⟩ := finishes_mark.mp finishes
  have nameless : Nameless (Reading.fresh r.hState r.headers) := .inr ⟨rfl,state⟩
  exact (nameless.run resumes).finishes later

theorem cr_finishes {marked : Marked} (finishes : Finishes ⟨.cr,key,value,line,headers⟩ marked found)
    (nameable : [] ∉ found) : ∃ rest, marked = some lf :: rest ∧
      Finishes ⟨.lf,key,value,[lf],headers.insert key value⟩ rest found := by
  cases marked with
  | nil => cases finishes
  | cons symbol rest =>
    cases symbol with
    | none => exact absurd (mark_nameless (.inr (.inr rfl)) finishes) nameable
    | some c =>
      have read := finishes_byte.mp finishes
      simp only [Reading.step] at read
      split_ifs at read with same
      · subst same
        exact ⟨rest,rfl,read⟩
      · exact read.elim

theorem value_finishes {marked : Marked} : ∀ {value line : Bytes},
    Finishes ⟨.value,key,value,line,headers⟩ marked found → [] ∉ found →
    ∃ more rest, marked = plain (more ++ crlf) ++ rest ∧ cr ∉ more ∧ value ++ more ≠ [] ∧
      Finishes ⟨.lf,key,value ++ more,[lf],headers.insert key (value ++ more)⟩ rest found := by
  induction marked with
  | nil =>
    intro value line finishes
    cases finishes
  | cons symbol rest ih =>
    intro value line finishes nameable
    cases symbol with
    | none => exact absurd (mark_nameless (.inr (.inl rfl)) finishes) nameable
    | some c =>
      have read := finishes_byte.mp finishes
      simp only [Reading.step] at read
      by_cases ends : c = cr
      · subst ends
        by_cases empty : value = []
        · simp [empty] at read
        · simp only [if_true,empty,if_false] at read
          obtain ⟨after,rfl,later⟩ := cr_finishes read nameable
          refine ⟨[],after,rfl,by simp,by simpa using empty,?_⟩
          rw [List.append_nil]
          exact later
      · simp only [ends,if_false] at read
        obtain ⟨more,after,rfl,valued,some,later⟩ := ih read nameable
        have other : ¬ cr = c := fun same => ends same.symm
        rw [List.append_assoc] at later some
        refine ⟨c :: more,after,rfl,?_,some,later⟩
        simp only [List.mem_cons,not_or]
        exact ⟨other,valued⟩

theorem field_finishes {marked : Marked}
    (finishes : Finishes ⟨.spacesAfterColon,key,value,line,headers⟩ marked found)
    (nameable : [] ∉ found) : ∃ text rest, FieldValue text ∧
      marked = plain (space :: text ++ crlf) ++ rest ∧
      Finishes ⟨.lf,key,text,[lf],headers.insert key text⟩ rest found := by
  cases marked with
  | nil => cases finishes
  | cons symbol rest =>
    cases symbol with
    | none => exact absurd (mark_nameless (.inl rfl) finishes) nameable
    | some c =>
      have read := finishes_byte.mp finishes
      simp only [Reading.step] at read
      split_ifs at read with same
      · subst same
        obtain ⟨text,after,rfl,valued,some,later⟩ := value_finishes read nameable
        exact ⟨text,after,⟨some,valued⟩,rfl,later⟩
      · exact read.elim

theorem marked_name_read {c : UInt8} {marked : Marked} : ∀ {k value : Bytes}, colon ∉ k →
    Finishes ⟨.key,c :: k,value,c :: k,headers⟩ marked found →
    ∃ name rest value line, marked = name ++ some colon :: rest ∧ colon ∉ name.reduceOption ∧
      (none ∈ name → c ≠ colon) ∧
      Finishes ⟨.spacesAfterColon,c :: k ++ name.reduceOption,value,line,headers⟩ rest found := by
  induction marked with
  | nil =>
    intro k value _ finishes
    cases finishes
  | cons symbol marked ih =>
    intro k value before finishes
    cases symbol with
    | none =>
      obtain ⟨r,resumes,later⟩ := finishes_mark.mp finishes
      have first : c ≠ colon := by
        rintro rfl
        simp [Reading.resume,Reading.fresh,Reading.run,Reading.step] at resumes
      obtain rfl := ReadEnd.again.inj ((name_resume first before).symm.trans resumes)
      obtain ⟨name,rest,value,line,rfl,named,_,later⟩ := ih before later
      exact ⟨none :: name,rest,value,line,rfl,named,fun _ => first,later⟩
    | some d =>
      have read := finishes_byte.mp finishes
      simp only [Reading.step] at read
      by_cases ends : d = colon
      · subst ends
        refine ⟨[],marked,value,c :: k ++ [colon],rfl,by simp,by simp,?_⟩
        simpa using read
      · simp only [ends,if_false] at read
        have other : ¬ colon = d := fun same => ends same.symm
        have longer : colon ∉ k ++ [d] := by
          simp only [List.mem_append,List.mem_singleton,not_or]
          exact ⟨before,other⟩
        obtain ⟨name,rest,value,line,rfl,named,cut,later⟩ := ih longer read
        refine ⟨some d :: name,rest,value,line,rfl,?_,?_,?_⟩
        · simp only [List.reduceOption_cons_of_some,List.mem_cons,not_or]
          exact ⟨other,named⟩
        · intro member
          exact cut (by simpa using member)
        · simpa using later

theorem name_read {c : UInt8} {marked : Marked} : ∀ {k line : Bytes},
    Finishes ⟨.key,c :: k,value,line,headers⟩ marked found → ∃ name rest, colon ∉ name ∧
      ((marked = plain name ++ some colon :: rest ∧ ∃ line,
          Finishes ⟨.spacesAfterColon,c :: k ++ name,value,line,headers⟩ rest found) ∨
        (marked = plain name ++ none :: rest ∧
          Finishes ⟨.key,c :: k ++ name,value,line ++ name,headers⟩ (none :: rest) found)) := by
  induction marked with
  | nil =>
    intro k line finishes
    cases finishes
  | cons symbol marked ih =>
    intro k line finishes
    cases symbol with
    | none => exact ⟨[],marked,by simp,.inr ⟨rfl,by simpa using finishes⟩⟩
    | some d =>
      have read := finishes_byte.mp finishes
      simp only [Reading.step] at read
      by_cases ends : d = colon
      · subst ends
        exact ⟨[],marked,by simp,.inl ⟨rfl,line ++ [colon],by simpa using read⟩⟩
      · simp only [ends,if_false] at read
        have other : ¬ colon = d := fun same => ends same.symm
        obtain ⟨name,rest,named,cases⟩ := ih read
        refine ⟨d :: name,rest,?_,?_⟩
        · simp only [List.mem_cons,not_or]
          exact ⟨other,named⟩
        · rcases cases with ⟨rfl,line,later⟩ | ⟨rfl,later⟩
          · exact .inl ⟨rfl,line,by simpa using later⟩
          · exact .inr ⟨rfl,by simpa using later⟩

theorem endCr_finishes {marked : Marked} : ∀ {line : Bytes},
    Finishes ⟨.endCr,key,value,lf :: line,headers⟩ marked found →
    ∃ junk, lf ∉ junk ∧ marked = plain (junk ++ [lf]) ∧ headers = found := by
  induction marked with
  | nil =>
    intro line finishes
    cases finishes
  | cons symbol marked ih =>
    intro line finishes
    cases symbol with
    | none =>
      obtain ⟨r,resumes,_⟩ := finishes_mark.mp finishes
      cases resumes
    | some d =>
      have read := finishes_byte.mp finishes
      simp only [Reading.step] at read
      by_cases ends : d = lf
      · subst ends
        simp only [if_true] at read
        obtain ⟨rfl,rfl⟩ := read
        exact ⟨[],by simp,rfl,rfl⟩
      · simp only [ends,if_false] at read
        obtain ⟨junk,closed,rfl,same⟩ := ih read
        have other : ¬ lf = d := fun same => ends same.symm
        refine ⟨d :: junk,?_,rfl,same⟩
        simp only [List.mem_cons,not_or]
        exact ⟨other,closed⟩

theorem after_name_read {n : Nat} {marked : Marked}
    (shorter : ∀ (rest : Marked) key value headers, rest.length ≤ n →
      Finishes ⟨.lf,key,value,[lf],headers⟩ rest found →
      ∃ fields, Lines rest fields ∧ enter headers fields = found)
    (nameable : [] ∉ found) (bound : marked.length ≤ n)
    (finishes : Finishes ⟨.spacesAfterColon,key,value,line,headers⟩ marked found) :
    ∃ text rest fields, FieldValue text ∧ some colon :: marked = plain (field text) ++ rest ∧
      Lines rest fields ∧ enter headers ((key,text) :: fields) = found := by
  obtain ⟨text,rest,valued,rfl,later⟩ := field_finishes finishes nameable
  have less : rest.length ≤ n := by
    simp only [List.length_append] at bound
    omega
  obtain ⟨fields,lines,same⟩ := shorter rest key text _ less later
  exact ⟨text,rest,fields,valued,rfl,lines,same⟩

theorem split_read {n : Nat} {marked : Marked}
    (shorter : ∀ (rest : Marked) key value headers, rest.length ≤ n →
      Finishes ⟨.lf,key,value,[lf],headers⟩ rest found →
      ∃ fields, Lines rest fields ∧ enter headers fields = found)
    (nameable : [] ∉ found) (bound : marked.length ≤ n)
    (finishes : Finishes ⟨.lf,key,value,[lf],headers⟩ (none :: marked) found) :
    ∃ fields, Lines (none :: marked) fields ∧ enter headers fields = found := by
  obtain ⟨r,resumes,later⟩ := finishes_mark.mp finishes
  obtain rfl := ReadEnd.again.inj (line_resume.symm.trans resumes)
  obtain ⟨name,rest,value,line,rfl,named,_,later⟩ := marked_name_read (by simp) later
  have less : rest.length ≤ n := by
    simp only [List.length_append,List.length_cons] at bound
    omega
  obtain ⟨text,after,fields,valued,same,lines,entered⟩ :=
    after_name_read shorter nameable less later
  refine ⟨(lf :: name.reduceOption,text) :: fields,?_,entered⟩
  have split := @Lines.split name _ _ _ named valued lines
  rw [List.append_assoc,← same] at split
  exact split

/-- Lines that are read to their end fit the grammar. The induction is on the length; a
mark inside a name is moved to its front, where the same bytes are read. -/
theorem lines_read (nameable : [] ∉ found) (n : Nat) : ∀ (marked : Marked) key value headers,
    marked.length ≤ n → Finishes ⟨.lf,key,value,[lf],headers⟩ marked found →
    ∃ fields, Lines marked fields ∧ enter headers fields = found := by
  induction n with
  | zero =>
    intro marked key value headers bound finishes
    obtain rfl := List.length_eq_zero_iff.mp (Nat.le_zero.mp bound)
    cases finishes
  | succ n ih =>
    intro marked key value headers bound finishes
    cases marked with
    | nil => cases finishes
    | cons symbol marked =>
      have less : marked.length ≤ n := Nat.le_of_succ_le_succ bound
      cases symbol with
      | none => exact split_read ih nameable less finishes
      | some c =>
        have read := finishes_byte.mp finishes
        simp only [Reading.step] at read
        by_cases ends : c = cr
        · subst ends
          obtain ⟨junk,closed,rfl,same⟩ := endCr_finishes read
          exact ⟨[],.ends closed,same⟩
        · simp only [ends,if_false] at read
          obtain ⟨name,rest,named,⟨rfl,line,later⟩ | ⟨rfl,later⟩⟩ := name_read read
          · have lesser : rest.length ≤ n := by
              simp only [List.length_append,List.length_cons] at less
              omega
            obtain ⟨text,after,fields,valued,same,lines,entered⟩ :=
              after_name_read ih nameable lesser later
            refine ⟨(c :: name,text) :: fields,?_,entered⟩
            have whole := Lines.whole ends named valued lines
            rw [plain,List.map_append,List.append_assoc,← same] at whole
            exact whole
          · obtain ⟨r,resumes,later⟩ := finishes_mark.mp later
            have again : (⟨.key,[lf],[],[lf],headers⟩ : Reading).run (c :: name) = .again r :=
              resumes
            have front : Finishes ⟨.lf,key,value,[lf],headers⟩
                (none :: (plain (c :: name) ++ rest)) found :=
              .mark line_resume ((finishes_again again).mpr later)
            have more : rest ≠ [] := by
              rintro rfl
              cases later
            have bounded : (plain (c :: name) ++ rest).length ≤ n := by
              simp only [List.length_append,List.length_cons,List.length_map] at less ⊢
              omega
            obtain ⟨fields,lines,entered⟩ := split_read ih nameable bounded front
            exact ⟨fields,.moved ends named more lines,entered⟩

theorem Block.blank {symbol : Option UInt8} {marked : Marked} {fields : Fields}
    (skipped : ∀ b ∈ symbol, b = cr ∨ b = lf) (block : Block marked fields) :
    Block (symbol :: marked) fields := by
  cases block with
  | @intro blank name c text rest fields blanks first named cut valued later =>
    refine @Block.intro (symbol :: blank) _ _ _ _ _ ?_ first named cut valued later
    cases symbol with
    | none => exact blanks
    | some b =>
      intro d member
      rw [List.reduceOption_cons_of_some] at member
      rcases List.mem_cons.mp member with rfl | inside
      · exact skipped d rfl
      · exact blanks d inside

theorem block_read (nameable : [] ∉ found) {marked : Marked} : ∀ {key value line : Bytes},
    (∀ b ∈ line, b = cr ∨ b = lf) → Finishes ⟨.start,key,value,line,∅⟩ marked found →
    ∃ fields, Block marked fields ∧ enter ∅ fields = found := by
  induction marked with
  | nil =>
    intro key value line _ finishes
    cases finishes
  | cons symbol marked ih =>
    intro key value line blanks finishes
    cases symbol with
    | none =>
      obtain ⟨r,resumes,later⟩ := finishes_mark.mp finishes
      obtain rfl := ReadEnd.again.inj ((blank_resume blanks).symm.trans resumes)
      obtain ⟨fields,block,same⟩ := ih blanks later
      exact ⟨fields,block.blank (by simp),same⟩
    | some c =>
      have read := finishes_byte.mp finishes
      simp only [Reading.step] at read
      by_cases blank : c = lf ∨ c = cr
      · simp only [blank,if_true] at read
        have longer : ∀ b ∈ line ++ [c], b = cr ∨ b = lf := by
          intro b member
          rcases List.mem_append.mp member with old | new
          · exact blanks b old
          · obtain rfl := List.mem_singleton.mp new
            exact blank.symm
        obtain ⟨fields,block,same⟩ := ih longer read
        refine ⟨fields,block.blank ?_,same⟩
        intro b member
        obtain rfl := Option.some.inj member
        exact blank.symm
      · simp only [blank,if_false] at read
        obtain ⟨name,rest,value,line,rfl,named,cut,later⟩ := marked_name_read (by simp) read
        obtain ⟨text,after,fields,valued,same,lines,entered⟩ :=
          after_name_read (lines_read nameable rest.length · · · ·) nameable le_rfl later
        refine ⟨(c :: name.reduceOption,text) :: fields,?_,entered⟩
        have block := @Block.intro [] _ _ _ _ _ (by simp) blank named cut valued lines
        rw [List.append_assoc,← same] at block
        exact block

theorem Lines.named {marked : Marked} {fields : Fields} (lines : Lines marked fields) :
    ∀ one ∈ fields, one.1 ≠ [] := by
  induction lines with
  | ends => simp
  | whole _ _ _ _ ih => simpa using ih
  | split _ _ _ ih => simpa using ih
  | moved _ _ _ _ ih => exact ih

theorem Block.named {marked : Marked} {fields : Fields} (block : Block marked fields) :
    ∀ one ∈ fields, one.1 ≠ [] := by
  cases block with
  | intro _ _ _ _ _ later => simpa using later.named

theorem enter_named {fields : Fields} (named : ∀ one ∈ fields, one.1 ≠ []) :
    ∀ {headers : Headers}, [] ∉ headers → [] ∉ enter headers fields := by
  induction fields with
  | nil => exact id
  | cons one fields ih =>
    intro headers before
    apply ih (fun other member => named other (by simp [member]))
    rw [Finmap.mem_insert,not_or]
    exact ⟨fun same => named one (by simp) same.symm,before⟩

/-- The grammar is exact: marks in the places that it allows are the ones with which a
block is read to its end without a header whose name was lost. -/
theorem finishes_iff {marked : Marked} {headers : Headers} :
    (Finishes (Reading.fresh .start ∅) marked headers ∧ [] ∉ headers) ↔
      ∃ fields, Block marked fields ∧ enter ∅ fields = headers := by
  constructor
  · rintro ⟨finishes,nameable⟩
    exact block_read nameable (by simp) finishes
  · rintro ⟨fields,block,rfl⟩
    exact ⟨block_finishes block,enter_named block.named Finmap.notMem_empty⟩

/-- In one call no header has an empty name. -/
def Reading.Named (r : Reading) : Prop :=
  [] ∉ r.headers ∧ (r.hState = .key ∨ r.hState = .spacesAfterColon ∨ r.hState = .value ∨
    r.hState = .cr → r.key ≠ [])

theorem Reading.Named.step {r r' : Reading} {c : UInt8} (named : r.Named)
    (reads : r.step c = .next r') : r'.Named := by
  obtain ⟨hState,key,value,line,headers⟩ := r
  obtain ⟨entered,some⟩ := named
  by_cases state : hState = .cr
  · subst state
    simp only [Reading.step] at reads
    split_ifs at reads
    obtain rfl := Progress.next.inj reads
    refine ⟨?_,by simp⟩
    rw [Finmap.mem_insert,not_or]
    exact ⟨fun same => some (by simp) same.symm,entered⟩
  · cases hState <;> simp only [Reading.step] at reads <;> split_ifs at reads <;>
      obtain rfl := Progress.next.inj reads <;> simp_all [Reading.Named]

theorem Reading.Named.run_done {text rest : Bytes} {headers : Headers} : ∀ {r : Reading}, r.Named →
    r.run text = .done headers rest → [] ∉ headers := by
  induction text with
  | nil =>
    intro r _ finished
    cases finished
  | cons c text ih =>
    intro r named finished
    simp only [Reading.run] at finished
    cases turn : r.step c with
    | next r' =>
      simp only [turn] at finished
      exact ih (named.step turn) finished
    | failed => simp [turn] at finished
    | done found =>
      simp only [turn,ReadEnd.done.injEq] at finished
      obtain ⟨rfl,_⟩ := finished
      obtain ⟨hState,key,value,line,before⟩ := r
      cases hState <;> simp only [Reading.step] at turn <;> split_ifs at turn
      obtain rfl := Progress.done.inj turn
      exact named.1

end Complete

end Deon.Http
