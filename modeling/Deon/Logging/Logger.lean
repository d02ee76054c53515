import Deon.Logging.LogStream

/-! `Logger`: a record begins with the time, and `~Logger` ends it with the place of the
statement. Each of the trailer's insertions is dropped by itself where there is no room for it. -/
namespace Deon.Logging

/-- What `~Logger` inserts: `"--" << basename_ << ":" << line_ << '\n'`. -/
def trailer (basename : Bytes) (line : Integer) : List Insertion :=
  [.cString (some (bytes "--")),.string basename,.cString (some (bytes ":")),.integer line,
    .character lf]

/-- What the buffer holds when `~Logger` starts; `formatTime` inserts an array of 26 characters. -/
def stream (time : Bytes) (insertions : List Insertion) : Option (FixedBuffer kSmallBuffer) :=
  insertAll FixedBuffer.empty (.cString (some time) :: insertions)

/-- What `~Logger` passes to `output`. -/
def record (time : Bytes) (insertions : List Insertion) (basename : Bytes) (line : Integer) :
    Option Bytes := do
  let b ← stream time insertions
  let b ← insertAll b (trailer basename line)
  return b.data

def trailerText (basename : Bytes) (line : Integer) : Bytes :=
  (trailer basename line).flatMap Insertion.text

/-- The bytes of those insertions that there is room for. -/
def fitting (room : Int) : List Insertion → Bytes
  | [] => []
  | one :: rest =>
    if (one.room : Int) ≤ room then one.text ++ fitting (room - one.text.length) rest
    else fitting room rest

/-- The part of the trailer that there is no room for comes before all of the rest, and is what
the message happens to end with. -/
def Coincides (message basename : Bytes) (line : Integer) (room : Int) : Prop :=
  ∃ front, front ≠ [] ∧ trailerText basename line = front ++ fitting room (trailer basename line) ∧
    front <:+ message

theorem Insertion.room_text (one : Insertion) : one.text.length < one.room := by
  cases one with
  | integer v => exact v.short
  | double text short => exact short
  | bool v => exact Nat.lt_succ_self _
  | character v => exact Nat.lt_succ_self _
  | cString str => exact Nat.lt_succ_self _
  | string v => exact Nat.lt_succ_self _

theorem fitting_inside (insertions : List Insertion) {room : Int} (positive : 0 ≤ room) :
    ((fitting room insertions).length : Int) ≤ room := by
  induction insertions generalizing room with
  | nil => exact positive
  | cons one rest ih =>
    have larger := one.room_text
    unfold fitting
    split_ifs with fits
    · rw [List.length_append,Int.natCast_add]
      have later := @ih (room - one.text.length) (by omega)
      omega
    · exact ih positive

theorem fitting_cons (room : Int) (one : Insertion) (rest : List Insertion) :
    fitting room (one :: rest) = if (one.room : Int) ≤ room
      then one.text ++ fitting (room - one.text.length) rest else fitting room rest := rfl

theorem avail_append {SIZE : Nat} {b c : FixedBuffer SIZE} {text : Bytes}
    (data : c.data = b.data ++ text) : c.avail = b.avail - text.length := by
  unfold FixedBuffer.avail
  rw [data,List.length_append,Int.natCast_add]
  omega

theorem insertAll_fitting {SIZE : Nat} (insertions : List Insertion) (b : FixedBuffer SIZE)
    (short : ∀ one ∈ insertions, one.text.length < 2^31) :
    ∃ c, insertAll b insertions = some c ∧ c.data = b.data ++ fitting b.avail insertions := by
  induction insertions generalizing b with
  | nil => exact ⟨b,rfl,(List.append_nil _).symm⟩
  | cons one rest ih =>
    obtain ⟨c,inserted,data⟩ := insert_inserts b (short one List.mem_cons_self)
    obtain ⟨d,run,whole⟩ := ih c fun other member => short other (List.mem_cons_of_mem _ member)
    refine ⟨d,?_,?_⟩
    · unfold insertAll
      rw [List.foldlM_cons,inserted]
      exact run
    · unfold Inserts at data
      rw [fitting_cons,whole,avail_append data,data,List.append_assoc]
      split_ifs with fits
      · rfl
      · rw [List.nil_append,List.length_nil,Int.natCast_zero,Int.sub_zero]

/-- How a shorter text can complete another one to what ends with a given one. -/
theorem suffix_completed {message kept whole : Bytes} (less : kept.length < whole.length) :
    whole <:+ message ++ kept ↔
      ∃ front, front ≠ [] ∧ whole = front ++ kept ∧ front <:+ message := by
  constructor
  · rintro ⟨before,same⟩
    obtain ⟨front,parts,ends⟩ | ⟨rest,_,parts⟩ := List.append_eq_append_iff.mp same
    · refine ⟨front,?_,ends,before,parts.symm⟩
      rintro rfl
      rw [ends] at less
      exact Nat.lt_irrefl _ less
    · rw [parts,List.length_append] at less
      omega
  · rintro ⟨front,_,rfl,before,rfl⟩
    exact ⟨before,(List.append_assoc ..).symm⟩

section Trailer
variable (basename : Bytes) (line : Integer)

theorem trailer_parts : trailerText basename line =
    bytes "--" ++ (basename ++ (bytes ":" ++ ((Insertion.integer line).text ++ [lf]))) := rfl

theorem line_length : 0 < (Insertion.integer line).text.length ∧
    (Insertion.integer line).text.length + 1 < kMaxNumericSize := by
  have short := text_length line.fits line.narrow
  obtain ⟨digits,parts,some,_⟩ := (text_represents line.value).digits
  have positive := List.length_pos_iff.mpr some
  constructor
  · change 0 < List.length ((if line.value < 0 then bytes "-" else []) ++
      stdToString line.value.natAbs)
    rw [parts,List.length_append]
    omega
  · exact Nat.lt_of_le_of_lt (Nat.succ_le_succ short) (by decide)

/-- With room for the line number the trailer is whole, and with less it is not. -/
theorem trailer_fitting (room : Int) :
    (35 + (basename.length : Int) ≤ room →
      fitting room (trailer basename line) = trailerText basename line) ∧
    (room < 35 + (basename.length : Int) →
      (fitting room (trailer basename line)).length < (trailerText basename line).length) := by
  obtain ⟨positive,short⟩ := line_length line
  have dashes : (bytes "--").length = 2 := rfl
  have colons : (bytes ":").length = 1 := rfl
  have first : (Insertion.cString (some (bytes "--"))).text = bytes "--" := rfl
  have second : (Insertion.string basename).text = basename := rfl
  have third : (Insertion.cString (some (bytes ":"))).text = bytes ":" := rfl
  have last : (Insertion.character lf).text = [lf] := rfl
  have first' : (Insertion.cString (some (bytes "--"))).room = 3 := rfl
  have second' : (Insertion.string basename).room = basename.length + 1 := rfl
  have third' : (Insertion.cString (some (bytes ":"))).room = 2 := rfl
  have fourth' : (Insertion.integer line).room = 32 := rfl
  have last' : (Insertion.character lf).room = 2 := rfl
  rw [trailer_parts]
  unfold kMaxNumericSize at short
  simp only [trailer,fitting,first,second,third,last,first',second',third',fourth',last',dashes,
    colons]
  constructor
  · intro room
    rw [if_pos (by omega),if_pos (by omega),if_pos (by omega),if_pos (by omega),if_pos (by omega),
      List.append_nil]
  · intro room
    split_ifs <;> simp only [List.length_append,List.length_nil,List.length_singleton,dashes,colons] <;>
      omega

end Trailer

theorem stream_written {time : Bytes} (stamp : time.length < 26) {insertions : List Insertion}
    (short : ∀ one ∈ insertions, one.text.length < 2^31) :
    ∃ b, stream time insertions = some b := by
  have all : ∀ one ∈ Insertion.cString (some time) :: insertions, one.text.length < 2^31 := by
    intro one member
    obtain rfl | inside := List.mem_cons.mp member
    · have less : (cStr time).length ≤ time.length := (List.takeWhile_sublist _).length_le
      exact Nat.lt_of_le_of_lt less (by omega)
    · exact short one inside
  obtain ⟨b,run,_⟩ := insertAll_fitting (Insertion.cString (some time) :: insertions)
    FixedBuffer.empty all
  exact ⟨b,run⟩

theorem trailer_short {basename : Bytes} (short : basename.length < 2^31) (line : Integer) :
    ∀ one ∈ trailer basename line, one.text.length < 2^31 := by
  unfold trailer
  simp only [List.forall_mem_cons]
  have digits := (line_length line).2
  unfold kMaxNumericSize at digits
  exact ⟨by decide,short,by decide,by omega,by decide,fun _ none => absurd none List.not_mem_nil⟩

theorem record_fitting {time : Bytes} {insertions : List Insertion} {b : FixedBuffer kSmallBuffer}
    (written : stream time insertions = some b) {basename : Bytes} (short : basename.length < 2^31)
    (line : Integer) : record time insertions basename line =
      some (b.data ++ fitting b.avail (trailer basename line)) := by
  obtain ⟨c,run,data⟩ := insertAll_fitting (trailer basename line) b (trailer_short short line)
  unfold record
  rw [written,Option.bind_eq_bind,Option.bind_some,run,Option.bind_some,data]
  rfl

theorem record_inside {time : Bytes} {insertions : List Insertion} {basename out : Bytes}
    {line : Integer} (recorded : record time insertions basename line = some out) :
    out.length ≤ kSmallBuffer := by
  unfold record at recorded
  simp only [Option.bind_eq_bind,Option.bind_eq_some_iff] at recorded
  obtain ⟨b,_,c,_,passed⟩ := recorded
  obtain rfl := Option.some.inj passed
  exact c.inside

theorem long_name {time : Bytes} {insertions : List Insertion} {basename : Bytes} (line : Integer)
    (long : 2^31 ≤ basename.length) {b : FixedBuffer kSmallBuffer} :
    (¬ ∃ out, record time insertions basename line = some out ∧ trailerText basename line <:+ out) ∧
    ¬ Coincides b.data basename line b.avail := by
  have larger : kSmallBuffer < basename.length := Nat.lt_of_lt_of_le (by decide) long
  have trailing : basename.length ≤ (trailerText basename line).length := by
    rw [trailer_parts,List.length_append,List.length_append]
    omega
  constructor
  · rintro ⟨out,recorded,ends⟩
    have inside := record_inside recorded
    have less := ends.length_le
    omega
  · rintro ⟨front,_,parts,ends⟩
    have inside := b.inside
    have avail : b.avail = kSmallBuffer - b.data.length := rfl
    have positive : 0 ≤ b.avail := by omega
    have kept := fitting_inside (trailer basename line) positive
    have less := ends.length_le
    have whole := congrArg List.length parts
    rw [List.length_append] at whole
    omega

/-- The trailer stands whole behind the message exactly when 35 bytes more than the file name
takes are left when `~Logger` starts; and a record ends like a whole trailer only then, or when
the message happens to end with the part that is dropped. -/
theorem record_ends_iff (time : Bytes) (insertions : List Insertion) (basename : Bytes)
    (line : Integer) (stamp : time.length < 26)
    (short : ∀ one ∈ insertions, one.text.length < 2^31) :
    ∃ b : FixedBuffer kSmallBuffer, stream time insertions = some b ∧
      (record time insertions basename line = some (b.data ++ trailerText basename line) ↔
        35 + (basename.length : Int) ≤ b.avail) ∧
      ((∃ out, record time insertions basename line = some out ∧
          trailerText basename line <:+ out) ↔
        35 + (basename.length : Int) ≤ b.avail ∨ Coincides b.data basename line b.avail) := by
  obtain ⟨b,written⟩ := stream_written stamp short
  refine ⟨b,written,?_⟩
  obtain ⟨enough,less⟩ := trailer_fitting basename line b.avail
  by_cases small : basename.length < 2^31
  · rw [record_fitting written small line]
    by_cases room : 35 + (basename.length : Int) ≤ b.avail
    · rw [enough room]
      refine ⟨iff_of_true rfl room,iff_of_true ?_ (.inl room)⟩
      exact ⟨_,rfl,List.suffix_append _ _⟩
    · have less := less (Int.lt_of_not_ge room)
      constructor
      · refine iff_of_false (fun same => ?_) room
        have same := List.append_cancel_left (Option.some.inj same)
        rw [same] at less
        exact Nat.lt_irrefl _ less
      · rw [or_iff_right room]
        unfold Coincides
        rw [← suffix_completed less]
        constructor
        · rintro ⟨out,recorded,ends⟩
          obtain rfl := Option.some.inj recorded
          exact ends
        · exact fun ends => ⟨_,rfl,ends⟩
  · have long := Nat.le_of_not_lt small
    obtain ⟨unended,different⟩ := @long_name time insertions basename line long b
    have inside := b.inside
    have full : ¬ 35 + (basename.length : Int) ≤ b.avail := by
      have larger : kSmallBuffer < basename.length := Nat.lt_of_lt_of_le (by decide) long
      unfold FixedBuffer.avail
      omega
    constructor
    · refine iff_of_false (fun recorded => unended ?_) full
      exact ⟨_,recorded,List.suffix_append _ _⟩
    · exact iff_of_false unended (not_or.mpr ⟨full,different⟩)

def sampleTime : Bytes := bytes "2019-05-01 12:00:00\n"

def sampleLine : Integer := ⟨⟨true,32⟩,by decide,64,by decide⟩

theorem record_ends_iff_sample : ∃ b : FixedBuffer kSmallBuffer,
    stream sampleTime [.string (bytes "Request from fd:"),.integer sampleLine] = some b ∧
    (record sampleTime [.string (bytes "Request from fd:"),.integer sampleLine] (bytes "Http.cpp")
        sampleLine = some (b.data ++ trailerText (bytes "Http.cpp") sampleLine) ↔
      35 + ((bytes "Http.cpp").length : Int) ≤ b.avail) ∧
    ((∃ out, record sampleTime [.string (bytes "Request from fd:"),.integer sampleLine]
        (bytes "Http.cpp") sampleLine = some out ∧
        trailerText (bytes "Http.cpp") sampleLine <:+ out) ↔
      35 + ((bytes "Http.cpp").length : Int) ≤ b.avail ∨
        Coincides b.data (bytes "Http.cpp") sampleLine b.avail) :=
  record_ends_iff sampleTime [.string (bytes "Request from fd:"),.integer sampleLine]
    (bytes "Http.cpp") sampleLine (by decide) (by decide)

theorem record_dropped {message : Bytes} (size : message.length = 3960) :
    ¬ ∃ out, record sampleTime [.string message] (bytes "Http.cpp") sampleLine = some out ∧
      trailerText (bytes "Http.cpp") sampleLine <:+ out := by
  have first : (Insertion.cString (some sampleTime)).text.length = 20 := by decide
  have second : (Insertion.string message).text.length = 3960 := size
  have first' : (Insertion.cString (some sampleTime)).room = 21 := congrArg Nat.succ first
  have second' : (Insertion.string message).room = 3961 := congrArg Nat.succ second
  have short : ∀ one ∈ [Insertion.cString (some sampleTime),.string message],
      one.text.length < 2^31 := by
    simp only [List.forall_mem_cons]
    exact ⟨by omega,by omega,fun _ none => absurd none List.not_mem_nil⟩
  obtain ⟨b,written,data⟩ := insertAll_fitting _ (FixedBuffer.empty : FixedBuffer kSmallBuffer) short
  have room : (FixedBuffer.empty : FixedBuffer kSmallBuffer).avail = 4000 := by decide
  have left : b.avail = 20 := by
    rw [avail_append data,room,fitting_cons,first',first,if_pos (by decide),fitting_cons,second',
      if_pos (by decide),List.length_append,List.length_append,first,second]
    rfl
  have kept : fitting 20 (trailer (bytes "Http.cpp") sampleLine) = bytes "--Http.cpp:\n" := by decide
  rintro ⟨out,recorded,ends⟩
  rw [record_fitting written (by decide) sampleLine,left,kept] at recorded
  obtain rfl := Option.some.inj recorded
  have inside := List.suffix_of_suffix_length_le (List.suffix_append b.data _) ends (by decide)
  exact absurd inside (by decide)

/-- A message that leaves twenty bytes: the line number is dropped. -/
theorem line_number_dropped : ¬ ∃ out,
    record sampleTime [.string (List.replicate 3960 65)] (bytes "Http.cpp") sampleLine = some out ∧
      trailerText (bytes "Http.cpp") sampleLine <:+ out :=
  record_dropped List.length_replicate

end Deon.Logging
