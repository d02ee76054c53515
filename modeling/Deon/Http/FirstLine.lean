import Deon.Http.Cuts

/-! The request line of a text with marks: wherever it is cut, what stands behind its
CRLF is the same. -/
namespace Deon.Http
open Library

/-- A mark in front of what each call reads. -/
def marks (pieces : List Bytes) : Marked := pieces.flatMap fun piece => none :: plain piece

/-- What stands behind the first CRLF; `seen` tells that a CR stands in front. -/
def afterLine : Bool → Marked → Option Marked
  | _, [] => none
  | seen, none :: rest => afterLine seen rest
  | seen, some c :: rest => if seen ∧ c = lf then some rest else afterLine (c = cr) rest

theorem afterLine_cr {c : UInt8} {rest : Marked} (other : c ≠ lf) :
    afterLine true (some c :: rest) = afterLine false (some c :: rest) := by
  simp [afterLine,other]

/-- Up to its end the line may be cut anywhere. -/
theorem afterLine_mark {text : Bytes} {rest : Marked} : ∀ {seen : Bool},
    afterLine seen (plain text) = none →
    afterLine seen (plain text ++ none :: rest) = afterLine seen (plain text ++ rest) := by
  induction text with
  | nil =>
    intro seen _
    rfl
  | cons c text ih =>
    intro seen unfinished
    simp only [List.map_cons,afterLine] at unfinished
    simp only [List.map_cons,List.cons_append,afterLine]
    split_ifs at unfinished with ends
    rw [if_neg ends,if_neg ends]
    exact ih unfinished

/-- A CR counts only in front of a line feed. -/
theorem afterLine_step {c : UInt8} {text : Bytes} (apart : ¬ crlf.isPrefixOf (c :: text))
    (some : text ≠ []) (rest : Marked) :
    afterLine false (plain (c :: text) ++ rest) = afterLine false (plain text ++ rest) := by
  have skips : afterLine false (plain (c :: text) ++ rest) =
      afterLine (c = cr) (plain text ++ rest) := by
    simp [afterLine]
  rw [skips]
  by_cases same : c = cr
  · subst same
    obtain ⟨d,text,rfl⟩ := List.exists_cons_of_ne_nil some
    have other : d ≠ lf := by
      rintro rfl
      exact apart (by simp [crlf])
    exact afterLine_cr other
  · rw [decide_eq_false same]

theorem afterLine_found {text : Bytes} {pos : Nat} (found : find crlf text = some pos)
    (rest : Marked) :
    afterLine false (plain text ++ rest) = some (plain (text.drop (pos + 2)) ++ rest) := by
  induction text generalizing pos with
  | nil => simp [find,crlf] at found
  | cons c text ih =>
    simp only [find] at found
    split_ifs at found with here
    · obtain ⟨after,same⟩ := List.isPrefixOf_iff_prefix.mp here
      obtain rfl := Option.some.inj found
      rw [← same]
      rfl
    · obtain ⟨j,later,rfl⟩ := Option.map_eq_some_iff.mp found
      have some : text ≠ [] := by
        rintro rfl
        simp [find,crlf] at later
      rw [afterLine_step here some,ih later]
      rfl

theorem afterLine_absent {text : Bytes} (absent : find crlf text = none) :
    afterLine false (plain text) = none := by
  induction text with
  | nil => rfl
  | cons c text ih =>
    simp only [find] at absent
    split_ifs at absent with here
    by_cases empty : text = []
    · subst empty
      simp [afterLine]
    · have stepped := afterLine_step here empty []
      rw [List.append_nil,List.append_nil] at stepped
      rw [stepped]
      exact ih (Option.map_eq_none_iff.mp absent)

theorem afterLine_piece {read piece : Bytes} (absent : find crlf read = none) (rest : Marked) :
    afterLine false (plain read ++ none :: (plain piece ++ rest)) =
      afterLine false (plain (read ++ piece) ++ rest) := by
  rw [afterLine_mark (afterLine_absent absent),plain,plain,plain,List.map_append,List.append_assoc]

end Deon.Http
