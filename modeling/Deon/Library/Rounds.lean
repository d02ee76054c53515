import Mathlib.Data.Int.CardIntervalMod

/-! Taking turns: in round `i` it is the turn of number `i % n`. After any number of rounds no
two of the `n` have had numbers of turns that differ by more than one. -/
namespace Deon.Library

variable {α : Type*}

/-- Whose turn it was in the first `m` rounds. -/
def rounds (turn : Nat → α) (n m : Nat) : List α := (List.range m).map fun i => turn (i % n)

variable {turn : Nat → α} {n m : Nat}

theorem rounds_succ : rounds turn n (m + 1) = rounds turn n m ++ [turn (m % n)] := by
  simp [rounds,List.range_succ]

theorem rounds_length : (rounds turn n m).length = m := by
  simp [rounds]

theorem rounds_get {i : Nat} (inside : i < m) : (rounds turn n m)[i]? = some (turn (i % n)) := by
  simp [rounds,inside]

/-- The items that come when it is the turn of number `k`. -/
def share (n k : Nat) (items : List α) : List α :=
  (items.zipIdx.filter fun one => one.2 % n = k).map Prod.fst

theorem share_append (k : Nat) (items : List α) (item : α) :
    share n k (items ++ [item]) = share n k items ++ if items.length % n = k then [item] else [] := by
  unfold share
  rw [List.zipIdx_append,List.filter_append,List.map_append]
  congr 1
  by_cases turn : items.length % n = k
  · simp [turn]
  · simp [turn]

theorem flatMap_own {k : Nat} (below : k < n) (item : α) :
    ((List.range n).flatMap fun j => if k = j then [item] else []) = [item] := by
  have split : List.range n = List.range k ++ k :: List.range' (k + 1) (n - (k + 1)) := by
    rw [List.range_eq_range',List.range_eq_range',← List.range'_succ]
    have lengths : n = k + (n - (k + 1) + 1) := by omega
    conv_lhs => rw [lengths]
    rw [← List.range'_append_1,Nat.zero_add]
  have before : (List.range k).flatMap (fun j => if k = j then [item] else []) = [] := by
    rw [List.flatMap_eq_nil_iff]
    intro j inside
    have := List.mem_range.mp inside
    exact if_neg (by omega)
  have after : (List.range' (k + 1) (n - (k + 1))).flatMap
      (fun j => if k = j then [item] else []) = [] := by
    rw [List.flatMap_eq_nil_iff]
    intro j inside
    have := (List.mem_range'_1.mp inside).1
    exact if_neg (by omega)
  rw [split,List.flatMap_append,List.flatMap_cons,before,after]
  simp

/-- Every item is in one share, and as often as it comes. -/
theorem shares_perm (positive : 0 < n) (items : List α) :
    ((List.range n).flatMap fun k => share n k items).Perm items := by
  induction items using List.reverseRecOn with
  | nil => simp [share]
  | append_singleton items last ih =>
    have turn : items.length % n < n := Nat.mod_lt _ positive
    have own : ((List.range n).flatMap fun k => if items.length % n = k then [last] else []) =
        [last] := flatMap_own turn last
    simp only [share_append]
    refine (List.flatMap_append_perm _ _ _).symm.trans ?_
    rw [own]
    exact ih.append_right _

variable [DecidableEq α]

theorem count_rounds (distinct : ∀ i < n, ∀ j < n, turn i = turn j → i = j) {k : Nat}
    (below : k < n) (m : Nat) :
    (rounds turn n m).count (turn k) = m / n + if k < m % n then 1 else 0 := by
  have positive : 0 < n := Nat.zero_lt_of_lt below
  have counted : (rounds turn n m).count (turn k) = Nat.count (fun i => i ≡ k [MOD n]) m := by
    induction m with
    | zero => rfl
    | succ m ih =>
      have same : turn (m % n) = turn k ↔ m ≡ k [MOD n] := by
        rw [Nat.ModEq,Nat.mod_eq_of_lt below]
        exact ⟨distinct _ (Nat.mod_lt m positive) _ below,congrArg turn⟩
      rw [rounds_succ,List.count_append,ih,Nat.count_succ,List.count_singleton]
      simp only [beq_iff_eq,same]
  rw [counted,Nat.count_modEq_card _ positive,Nat.mod_eq_of_lt below]

theorem rounds_fair (distinct : ∀ i < n, ∀ j < n, turn i = turn j → i = j) {j k : Nat}
    (first : j < n) (second : k < n) (m : Nat) :
    (rounds turn n m).count (turn j) ≤ (rounds turn n m).count (turn k) + 1 := by
  rw [count_rounds distinct first,count_rounds distinct second]
  split <;> omega

end Deon.Library
