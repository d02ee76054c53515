import Mathlib.Data.List.DropRight
import Mathlib.Data.List.Infix
import Mathlib.Data.List.TakeWhile

/-! The first occurrence of a pattern in a list, and how it behaves when the
list grows at its end. -/
namespace Deon.Library

variable {α : Type*} [DecidableEq α]

/-- Index of the first place at which the pattern is a prefix of what follows. -/
def find (pattern : List α) : List α → Option Nat
  | [] => if pattern = [] then some 0 else none
  | c :: rest => if pattern.isPrefixOf (c :: rest) then some 0 else (find pattern rest).map (· + 1)

theorem find_bound {pattern text : List α} {i : Nat} (found : find pattern text = some i) :
    i + pattern.length ≤ text.length := by
  induction text generalizing i with
  | nil =>
    by_cases empty : pattern = []
    · simp [find,empty] at found ⊢
      omega
    · simp [find,empty] at found
  | cons c text ih =>
    simp only [find] at found
    split at found
    · rename_i here
      obtain rfl := Option.some.inj found
      simpa using (List.isPrefixOf_iff_prefix.mp here).length_le
    · obtain ⟨j,later,rfl⟩ := Option.map_eq_some_iff.mp found
      have bound := ih later
      simp only [List.length_cons]
      omega

theorem find_append {pattern text : List α} {i : Nat} (more : List α)
    (found : find pattern text = some i) : find pattern (text ++ more) = some i := by
  induction text generalizing i with
  | nil =>
    by_cases empty : pattern = []
    · subst empty
      obtain rfl : 0 = i := by simpa [find] using found
      cases more <;> simp [find]
    · simp [find,empty] at found
  | cons c text ih =>
    simp only [find] at found
    simp only [List.cons_append,find]
    split at found
    · rename_i here
      have longer : pattern.isPrefixOf (c :: (text ++ more)) := by
        have grown := (List.isPrefixOf_iff_prefix.mp here).trans (List.prefix_append _ more)
        exact List.isPrefixOf_iff_prefix.mpr grown
      simpa [longer] using found
    · rename_i absent
      obtain ⟨j,later,rfl⟩ := Option.map_eq_some_iff.mp found
      have short : ¬ pattern.isPrefixOf (c :: (text ++ more)) := by
        intro here
        have bound := find_bound later
        have inside : pattern <+: c :: text := by
          have whole := List.isPrefixOf_iff_prefix.mp here
          apply List.prefix_of_prefix_length_le whole
          · exact List.prefix_append (c :: text) more
          · simp only [List.length_cons]
            omega
        exact absent (List.isPrefixOf_iff_prefix.mpr inside)
      simp [short,ih later]

theorem find_eq_none_iff {pattern text : List α} : find pattern text = none ↔ ¬ pattern <:+: text := by
  induction text with
  | nil => simp [find]
  | cons c text ih =>
    rw [find,List.infix_cons_iff,← List.isPrefixOf_iff_prefix]
    split_ifs with here
    · simp [here]
    · simp [here,ih]

/-- Short of its end the place that is found holds no earlier one. -/
theorem find_earliest {pattern text : List α} {i : Nat} (found : find pattern text = some i)
    {short : Nat} (before : short < i + pattern.length) : ¬ pattern <:+: text.take short := by
  intro inside
  cases earlier : find pattern (text.take short) with
  | none => exact find_eq_none_iff.mp earlier inside
  | some j =>
    have same := find_append (text.drop short) earlier
    rw [List.take_append_drop,found] at same
    obtain rfl := Option.some.inj same
    have bound := find_bound earlier
    rw [List.length_take] at bound
    omega

theorem find_at {pattern text : List α} {i : Nat} (found : find pattern text = some i) :
    pattern <+: text.drop i := by
  induction text generalizing i with
  | nil =>
    by_cases empty : pattern = []
    · exact empty ▸ List.nil_prefix
    · simp [find,empty] at found
  | cons c text ih =>
    simp only [find] at found
    split_ifs at found with here
    · obtain rfl := Option.some.inj found
      exact List.isPrefixOf_iff_prefix.mp here
    · obtain ⟨j,later,rfl⟩ := Option.map_eq_some_iff.mp found
      exact ih later

theorem find_front {pattern text : List α} (front : pattern <+: text) : find pattern text = some 0 := by
  cases text with
  | nil => simp [find,List.prefix_nil.mp front]
  | cons c text => exact if_pos (List.isPrefixOf_iff_prefix.mpr front)

theorem find_first {c : α} {before : List α} (absent : c ∉ before) (pattern after : List α) :
    find (c :: pattern) (before ++ c :: pattern ++ after) = some before.length := by
  induction before with
  | nil => exact find_front (List.prefix_append (c :: pattern) after)
  | cons d before ih =>
    obtain ⟨other,absent⟩ := List.ne_and_not_mem_of_not_mem_cons absent
    have apart : ¬ (c :: pattern).isPrefixOf (d :: (before ++ c :: pattern ++ after)) := by
      intro here
      exact other (List.cons_prefix_cons.mp (List.isPrefixOf_iff_prefix.mp here)).1
    simp only [List.cons_append,find] at apart ih ⊢
    rw [if_neg apart,ih absent]
    rfl

theorem find_element {c : α} {before : List α} (absent : c ∉ before) (after : List α) :
    find [c] (before ++ c :: after) = some before.length := by
  simpa using find_first absent [] after

theorem find_element_none {c : α} {text : List α} : find [c] text = none ↔ c ∉ text := by
  rw [find_eq_none_iff,List.singleton_infix_iff]

theorem find_element_some {c : α} {text : List α} {i : Nat} (found : find [c] text = some i) :
    ∃ before after, text = before ++ c :: after ∧ c ∉ before ∧ before.length = i := by
  have member : c ∈ text := by
    by_contra absent
    rw [find_element_none.mpr absent] at found
    cases found
  obtain ⟨before,after,rfl,clear⟩ := List.eq_append_cons_of_mem member
  rw [find_element clear] at found
  exact ⟨before,after,rfl,clear,Option.some.inj found⟩

theorem ne_of_absent {c : α} {text : List α} (absent : c ∉ text) :
    ∀ d ∈ text, decide (d ≠ c) = true :=
  fun _ member => decide_eq_true fun same => absent (same ▸ member)

theorem takeWhile_absent {c : α} {text : List α} (absent : c ∉ text) :
    text.takeWhile (· ≠ c) = text := List.takeWhile_eq_self_iff.mpr (ne_of_absent absent)

theorem takeWhile_before {c : α} {before : List α} (absent : c ∉ before) (after : List α) :
    (before ++ c :: after).takeWhile (· ≠ c) = before := by
  rw [List.takeWhile_append_of_pos (ne_of_absent absent),List.takeWhile_cons_of_neg (by simp),
    List.append_nil]

/-- The part behind the last occurrence of an element. -/
theorem rtakeWhile_append {c : α} {after : List α} (absent : c ∉ after) (before : List α) :
    (before ++ after).rtakeWhile (· ≠ c) = before.rtakeWhile (· ≠ c) ++ after := by
  have clear : c ∉ after.reverse := fun member => absent (List.mem_reverse.mp member)
  unfold List.rtakeWhile
  rw [List.reverse_append,List.takeWhile_append_of_pos (ne_of_absent clear),List.reverse_append,
    List.reverse_reverse]

theorem rtakeWhile_behind {c : α} {after : List α} (absent : c ∉ after) (before : List α) :
    (before ++ c :: after).rtakeWhile (· ≠ c) = after := by
  rw [List.append_cons,rtakeWhile_append absent,List.rtakeWhile_concat_neg,List.nil_append]
  simp

theorem takeWhile_front {c : α} (before after : List α) :
    (before ++ c :: after).takeWhile (· ≠ c) <+: before := by
  induction before with
  | nil => simp
  | cons d before ih =>
    rw [List.cons_append]
    by_cases here : d = c
    · simp [here]
    · rw [List.takeWhile_cons_of_pos (by simp [here])]
      exact (List.prefix_cons_inj d).mpr ih

omit [DecidableEq α] in
/-- A prefix does not reach over an element that it does not hold. -/
theorem prefix_across {c : α} {pattern : List α} (absent : c ∉ pattern) (before after : List α) :
    pattern <+: before ++ c :: after ↔ pattern <+: before := by
  constructor
  · intro front
    by_cases short : pattern.length ≤ before.length
    · exact List.prefix_of_prefix_length_le front (List.prefix_append before (c :: after)) short
    · have reaches : before ++ [c] <+: pattern := by
        apply List.prefix_of_prefix_length_le _ front
        · simp only [List.length_append,List.length_singleton]
          omega
        · exact ⟨after,by simp⟩
      exact absurd (reaches.mem (by simp)) absent
  · exact fun front => front.trans (List.prefix_append before (c :: after))

omit [DecidableEq α] in
theorem infix_across {c : α} {pattern : List α} (absent : c ∉ pattern) (before after : List α) :
    pattern <:+: before ++ c :: after ↔ pattern <:+: before ∨ pattern <:+: after := by
  induction before with
  | nil =>
    rw [List.nil_append,List.infix_cons_iff,← List.nil_append (c :: after),prefix_across absent,
      List.prefix_nil,List.infix_nil]
  | cons d before ih =>
    rw [List.cons_append,List.infix_cons_iff,ih,List.infix_cons_iff,← List.cons_append,
      prefix_across absent,or_assoc]

end Deon.Library
