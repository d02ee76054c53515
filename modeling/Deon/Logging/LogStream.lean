import Deon.Library.Fallible
import Deon.Logging.Convert
import Deon.Logging.FixedBuffer

/-! `LogStream`. Bytes go in through `append`, which compares the length as an `int`; the text
of a number is written behind a comparison of its own. -/
namespace Deon.Logging
open Library

def kSmallBuffer : Nat := 4000

def kMaxNumericSize : Nat := 32

variable {SIZE : Nat}

namespace FixedBuffer

/-- `static_cast<int>(cur_ - data_)`. -/
def length (b : FixedBuffer SIZE) : Int := toInt b.data.length

/-- A text and a NUL that are written to `current()`, and `add`; `none` stands for a byte past
the end of the array. -/
def add (b : FixedBuffer SIZE) (text : Bytes) : Option (FixedBuffer SIZE) :=
  if room : b.data.length + text.length < SIZE then
    some ⟨b.data ++ text,by rw [List.length_append]; exact Nat.le_of_lt room⟩
  else none

end FixedBuffer

/-- A value with its type, `int` or a longer one. -/
structure Integer where
  type : IntType
  narrow : type.width ≤ 64
  value : Int
  fits : type.Fits value

/-- The overloads of `operator<<`. A `bool`, a `char`, a C string, which may be a null pointer,
and a `std::string` go to `append`. For a `double` it is given what `snprintf` makes of it,
which is cut at the size that it is told. -/
inductive Insertion
  | bool (v : Bool)
  | integer (v : Integer)
  | double (text : Bytes) (short : text.length < kMaxNumericSize)
  | character (v : UInt8)
  | cString (str : Option Bytes)
  | string (v : Bytes)

def formatInteger (b : FixedBuffer SIZE) (v : Integer) : Option (FixedBuffer SIZE) :=
  if (kMaxNumericSize : Int) ≤ b.avail then do
    let text ← convert v.value
    b.add text
  else some b

def insert (b : FixedBuffer SIZE) : Insertion → Option (FixedBuffer SIZE)
  | .bool v => b.append (bytes (if v then "1" else "0"))
  | .integer v => formatInteger b v
  | .double text _ => if (kMaxNumericSize : Int) ≤ b.avail then b.add text else some b
  | .character v => b.append [v]
  | .cString (some str) => b.append (cStr str)
  | .cString none => b.append (bytes "(null)")
  | .string v => b.append v

/-- The insertions of one statement; `none` stands for an access past the end of the array. -/
def insertAll (b : FixedBuffer SIZE) (insertions : List Insertion) : Option (FixedBuffer SIZE) :=
  insertions.foldlM insert b

namespace Insertion

def text : Insertion → Bytes
  | .bool v => bytes (if v then "1" else "0")
  | .integer v => (if v.value < 0 then bytes "-" else []) ++ stdToString v.value.natAbs
  | .double text _ => text
  | .character v => [v]
  | .cString (some str) => cStr str
  | .cString none => bytes "(null)"
  | .string v => v

/-- The room without which an insertion is dropped. -/
def room : Insertion → Nat
  | .integer _ => kMaxNumericSize
  | .double _ _ => kMaxNumericSize
  | other => other.text.length + 1

/-- What the comparison in `append` guards. -/
def Guarded (b : FixedBuffer SIZE) (one : Insertion) : Prop :=
  one.text.length < 2^31 ∨ b.avail ≤ toInt one.text.length

end Insertion

theorem Integer.short (v : Integer) : (Insertion.integer v).text.length < kMaxNumericSize :=
  Nat.lt_of_le_of_lt (text_length v.fits v.narrow) (by decide)

/-- The bytes go behind the others if there is room for them, and else they are dropped. -/
def Inserts (b c : FixedBuffer SIZE) (one : Insertion) : Prop :=
  c.data = b.data ++ if (one.room : Int) ≤ b.avail then one.text else []

theorem append_inserts {b : FixedBuffer SIZE} {buf : Bytes} (small : buf.length < 2^31) :
    ∃ c, b.append buf = some c ∧
      c.data = b.data ++ if ((buf.length + 1 : Nat) : Int) ≤ b.avail then buf else [] := by
  by_cases room : (buf.length : Int) < b.avail
  · obtain ⟨c,appended,data⟩ := FixedBuffer.append_fits small room
    rw [if_pos (by omega)]
    exact ⟨c,appended,data⟩
  · rw [if_neg (by omega),List.append_nil]
    exact ⟨b,FixedBuffer.append_full small room,rfl⟩

theorem number_inserts {b : FixedBuffer SIZE} {text : Bytes} (short : text.length < kMaxNumericSize) :
    ∃ c, (if (kMaxNumericSize : Int) ≤ b.avail then b.add text else some b) = some c ∧
      c.data = b.data ++ if (kMaxNumericSize : Int) ≤ b.avail then text else [] := by
  by_cases room : (kMaxNumericSize : Int) ≤ b.avail
  · have inside : b.data.length + text.length < SIZE := by
      unfold FixedBuffer.avail at room
      omega
    rw [if_pos room,if_pos room]
    exact ⟨_,dif_pos inside,rfl⟩
  · rw [if_neg room,if_neg room,List.append_nil]
    exact ⟨b,rfl,rfl⟩

/-- An insertion that `append` takes for what it is. -/
theorem insert_inserts (b : FixedBuffer SIZE) {one : Insertion} (small : one.text.length < 2^31) :
    ∃ c, insert b one = some c ∧ Inserts b c one := by
  unfold Inserts
  cases one with
  | bool v => exact append_inserts small
  | integer v =>
    have formats : insert b (.integer v) = if (kMaxNumericSize : Int) ≤ b.avail then
        b.add (Insertion.integer v).text else some b := by
      unfold insert formatInteger
      dsimp only
      rw [convert_text]
      rfl
    rw [formats]
    exact number_inserts v.short
  | double text short => exact number_inserts short
  | character v => exact append_inserts small
  | cString str =>
    cases str with
    | some str => exact append_inserts small
    | none => exact append_inserts small
  | string v => exact append_inserts small

theorem append_guarded {b : FixedBuffer SIZE} {buf : Bytes} (size : SIZE < 2^31)
    (large : 2^31 ≤ buf.length) :
    (∃ c, b.append buf = some c) ↔ b.avail ≤ toInt buf.length := by
  have outside : ¬ b.data.length + buf.length ≤ SIZE := by omega
  unfold FixedBuffer.append
  by_cases copied : toInt buf.length < b.avail
  · rw [if_pos copied,dif_neg outside]
    refine iff_of_false ?_ (Int.not_le.mpr copied)
    rintro ⟨c,none⟩
    cases none
  · rw [if_neg copied]
    exact iff_of_true ⟨b,rfl⟩ (Int.not_lt.mp copied)

theorem insert_guarded (size : SIZE < 2^31) (b : FixedBuffer SIZE) (one : Insertion) :
    (∃ c, insert b one = some c) ↔ one.Guarded b := by
  unfold Insertion.Guarded
  by_cases small : one.text.length < 2^31
  · obtain ⟨c,inserted,_⟩ := insert_inserts b small
    exact iff_of_true ⟨c,inserted⟩ (.inl small)
  · have large := Nat.le_of_not_lt small
    rw [or_iff_right small]
    have numeric : ∀ {n}, n < kMaxNumericSize → ¬ 2^31 ≤ n := fun less => by
      unfold kMaxNumericSize at less
      omega
    cases one with
    | bool v => exact append_guarded size large
    | integer v => exact absurd large (numeric v.short)
    | double text short => exact absurd large (numeric short)
    | character v => exact append_guarded size large
    | cString str =>
      cases str with
      | some str => exact append_guarded size large
      | none => exact append_guarded size large
    | string v => exact append_guarded size large

theorem length_inside (size : SIZE < 2^31) (b : FixedBuffer SIZE) : 0 ≤ b.length ∧ b.length ≤ SIZE := by
  have inside := b.inside
  unfold FixedBuffer.length
  rw [toInt_small (by omega)]
  omega

/-- The insertions of a statement stay inside the buffer exactly when each of them is shorter
than 2^31 bytes, or what its length is as an `int` is no less than what is left. -/
theorem insertions_inside (insertions : List Insertion) :
    (∀ before after, insertions = before ++ after →
      ∃ b : FixedBuffer kSmallBuffer, insertAll FixedBuffer.empty before = some b ∧
        0 ≤ b.length ∧ b.length ≤ kSmallBuffer) ↔
    ∀ before one after, insertions = before ++ one :: after → ∀ b : FixedBuffer kSmallBuffer,
      insertAll FixedBuffer.empty before = some b → one.Guarded b := by
  have size : kSmallBuffer < 2^31 := by decide
  constructor
  · intro inside before one after split b reached
    obtain ⟨c,run,_⟩ := inside (before ++ [one]) after (by rw [split,List.append_cons])
    apply (insert_guarded size b one).mp
    apply foldlM_defined.mp ⟨c,run⟩ before one [] rfl b reached
  · intro guarded before after split
    have defined : ∃ b : FixedBuffer kSmallBuffer, insertAll FixedBuffer.empty before = some b := by
      apply foldlM_defined.mpr
      intro first one last parts b reached
      apply (insert_guarded size b one).mpr
      exact guarded first one (last ++ after) (by rw [split,parts,List.append_assoc,List.cons_append])
        b reached
    obtain ⟨b,run⟩ := defined
    exact ⟨b,run,length_inside size b⟩

/-- A string of 2^31 bytes has a negative length as an `int`, and is copied. -/
theorem large_string_copied : ¬ ∀ insertions : List Insertion, ∀ before after,
    insertions = before ++ after → ∃ b : FixedBuffer kSmallBuffer,
      insertAll FixedBuffer.empty before = some b ∧ 0 ≤ b.length ∧ b.length ≤ kSmallBuffer := by
  intro inside
  obtain ⟨b,run,_⟩ := inside [.string (List.replicate (2^31) 65)] _ [] (List.append_nil _).symm
  have inserted : ∃ c, insert FixedBuffer.empty (.string (List.replicate (2^31) 65)) = some c :=
    foldlM_defined.mp ⟨b,run⟩ [] _ [] rfl FixedBuffer.empty rfl
  have guarded := (insert_guarded (by decide) FixedBuffer.empty _).mp inserted
  unfold Insertion.Guarded Insertion.text at guarded
  rw [List.length_replicate] at guarded
  exact absurd guarded (by decide)

end Deon.Logging
