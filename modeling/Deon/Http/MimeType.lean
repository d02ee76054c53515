import Deon.Http.Connection

/-! The table of content types belongs to all connections, and every lookup of a missing key
enters it. What a lookup returns does not change by that. -/
namespace Deon.Http

/-- The tables that lookups make of a table. -/
inductive Grown (start : MimeType) : MimeType → Prop
  | same : Grown start start
  | looked {table : MimeType} (grown : Grown start table) (key : Bytes) :
      Grown start (table.at key).2

/-- The table behind these lookups. -/
def lookedUp (table : MimeType) (keys : List Bytes) : MimeType :=
  keys.foldl (fun table key => (table.at key).2) table

namespace MimeType

theorem at_value (table : MimeType) (key : Bytes) :
    (table.at key).1 = (table.lookup key).getD [] := by
  unfold MimeType.at
  cases table.lookup key <;> rfl

theorem lookup_at (table : MimeType) (first key : Bytes) :
    ((table.at first).2.lookup key).getD [] = (table.lookup key).getD [] := by
  cases found : table.lookup first with
  | some value => simp only [MimeType.at,found]
  | none =>
    simp only [MimeType.at,found]
    by_cases same : key = first
    · subst same
      rw [Finmap.lookup_insert,found]
      rfl
    · rw [Finmap.lookup_insert_of_ne _ same]

/-- The entries of a table that is filled are those it is filled with, or were there. -/
theorem lookup_filled {P : Bytes → Bytes → Prop} {entries : List (String × String)}
    (fits : ∀ entry ∈ entries, P (bytes entry.1) (bytes entry.2)) : ∀ {table : MimeType},
    (∀ key value, table.lookup key = some value → P key value) →
    ∀ key value, (entries.foldl (fun table entry => table.insert (bytes entry.1) (bytes entry.2))
      table).lookup key = some value → P key value := by
  induction entries with
  | nil =>
    intro table held
    exact held
  | cons entry entries ih =>
    intro table held
    rw [List.forall_mem_cons] at fits
    refine ih fits.2 fun key value found => ?_
    by_cases same : key = bytes entry.1
    · subst same
      rw [Finmap.lookup_insert] at found
      exact Option.some.inj found ▸ fits.1
    · rw [Finmap.lookup_insert_of_ne _ same] at found
      exact held key value found

end MimeType

namespace Grown

variable {start table : MimeType}

theorem at_value (grown : Grown start table) (key : Bytes) :
    (table.at key).1 = (start.at key).1 := by
  induction grown with
  | same => rfl
  | looked _ first ih => rw [← ih,MimeType.at_value,MimeType.at_value,MimeType.lookup_at]

theorem type_value (grown : Grown start table) (fileName : Bytes) :
    (fileTypeOf table fileName).1 = (fileTypeOf start fileName).1 := by
  unfold fileTypeOf
  split
  · exact grown.at_value _
  · exact grown.at_value _

theorem next (grown : Grown start table) (fileName : Bytes) :
    Grown start (fileTypeOf table fileName).2 := by
  unfold fileTypeOf
  split
  · exact grown.looked _
  · exact grown.looked _

theorem lookedUp (grown : Grown start table) (keys : List Bytes) :
    Grown start (Http.lookedUp table keys) := by
  induction keys generalizing table with
  | nil => exact grown
  | cons key keys ih => exact ih (grown.looked key)

theorem keys (grown : Grown start table) : ∃ keys, table = Http.lookedUp start keys := by
  induction grown with
  | same => exact ⟨[],rfl⟩
  | looked _ key ih =>
    obtain ⟨keys,rfl⟩ := ih
    exact ⟨keys ++ [key],by simp [Http.lookedUp]⟩

end Grown

/-- No content type of the program breaks a header line. -/
theorem mimeType_lines (key : Bytes) : cr ∉ (mimeType.at key).1 ∧ lf ∉ (mimeType.at key).1 := by
  have entries : ∀ key value, mimeType.lookup key = some value → cr ∉ value ∧ lf ∉ value := by
    apply MimeType.lookup_filled
    · decide
    · intro key value found
      simp at found
  rw [MimeType.at_value]
  cases found : mimeType.lookup key with
  | none => simp
  | some value => exact entries key value found

theorem Grown.lines {table : MimeType} (grown : Grown mimeType table) (fileName : Bytes) :
    cr ∉ (fileTypeOf table fileName).1 ∧ lf ∉ (fileTypeOf table fileName).1 := by
  rw [grown.type_value]
  unfold fileTypeOf
  split
  · exact mimeType_lines _
  · exact mimeType_lines _

end Deon.Http
