import Mathlib.Data.List.Basic

/-! A list cut at the places where two given elements stand behind one another. -/
namespace Deon.Library

variable {α : Type*} [DecidableEq α] {first second : α}

/-- The pieces between the separators, which are left out. -/
def cut (first second : α) : List α → List (List α)
  | [] => [[]]
  | [c] => [[c]]
  | c :: d :: rest =>
    if c = first ∧ d = second then [] :: cut first second rest
    else (cut first second (d :: rest)).modifyHead (c :: ·)

theorem cut_head (first second : α) (text : List α) :
    ∃ piece pieces, cut first second text = piece :: pieces ∧ piece <+: text := by
  fun_induction cut first second text with
  | case1 => exact ⟨[],[],rfl,List.prefix_rfl⟩
  | case2 c => exact ⟨[c],[],rfl,List.prefix_rfl⟩
  | case3 c d rest here ih => exact ⟨[],_,rfl,List.nil_prefix⟩
  | case4 c d rest other ih =>
    obtain ⟨piece,pieces,same,front⟩ := ih
    rw [same]
    exact ⟨c :: piece,pieces,rfl,(List.prefix_cons_inj c).mpr front⟩

theorem cut_separator (first second : α) (rest : List α) :
    cut first second (first :: second :: rest) = [] :: cut first second rest :=
  if_pos ⟨rfl,rfl⟩

theorem cut_cons {c : α} {rest : List α} (apart : c = first → ∀ more, rest ≠ second :: more) :
    ∃ piece pieces, cut first second (c :: rest) = (c :: piece) :: pieces := by
  cases rest with
  | nil => exact ⟨[],[],rfl⟩
  | cons d rest =>
    have other : ¬ (c = first ∧ d = second) := by
      rintro ⟨rfl,rfl⟩
      exact apart rfl rest rfl
    obtain ⟨piece,pieces,same,_⟩ := cut_head first second (d :: rest)
    rw [cut,if_neg other,same]
    exact ⟨piece,pieces,rfl⟩

theorem cut_append {piece : List α} (absent : first ∉ piece) (rest : List α) :
    cut first second (piece ++ first :: second :: rest) = piece :: cut first second rest := by
  induction piece with
  | nil => exact cut_separator first second rest
  | cons c piece ih =>
    obtain ⟨other,absent⟩ := List.ne_and_not_mem_of_not_mem_cons absent
    have stays : ∀ d : α, ¬ (c = first ∧ d = second) := fun d same => other same.1.symm
    have later := ih absent
    cases piece with
    | nil =>
      rw [List.nil_append] at later
      rw [List.cons_append,List.nil_append,cut,if_neg (stays first),later]
      rfl
    | cons d piece =>
      rw [List.cons_append] at later
      rw [List.cons_append,List.cons_append,cut,if_neg (stays d),later]
      rfl

end Deon.Library
