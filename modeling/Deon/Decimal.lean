import Deon.Strings
import Mathlib.Tactic.IntervalCases

/-! The decimal text of a natural number, as `std::to_string` writes it and a reader of digits
reads it back. -/
namespace Deon

theorem stdToString_digits {n : Nat} {c : UInt8} (member : c ∈ stdToString n) :
    isDigit c = true := by
  obtain ⟨digit,inside,rfl⟩ := List.mem_map.mp member
  have shown := Nat.isDigit_of_mem_toDigits (by decide) (by decide) inside
  have bounds : 48 ≤ digit.toNat ∧ digit.toNat ≤ 57 := by
    simpa [Char.isDigit,UInt32.le_iff_toNat_le] using shown
  have digits : ∀ value < 58, 48 ≤ value → isDigit (Nat.toUInt8 value) = true := by decide
  exact digits digit.toNat (by omega) bounds.1

theorem digitChar_digit {n : Nat} (small : n < 10) :
    n.digitChar.toNat.toUInt8 = (48 + n).toUInt8 := by
  interval_cases n <;> rfl

theorem stdToString_last (n : Nat) : stdToString n =
    (if n < 10 then [] else stdToString (n / 10)) ++ [(48 + n % 10).toUInt8] := by
  unfold stdToString
  rw [Nat.toDigits_eq_if (by decide)]
  split_ifs with single
  · rw [List.map_singleton,digitChar_digit single,Nat.mod_eq_of_lt single]
    rfl
  · rw [List.map_append,List.map_singleton,digitChar_digit (Nat.mod_lt n (by decide))]

theorem decimal_last (digits : Bytes) (c : UInt8) :
    decimal (digits ++ [c]) = 10 * decimal digits + (c.toNat - 48) := by
  unfold decimal
  rw [List.foldl_append]
  rfl

theorem decimal_stdToString (n : Nat) : decimal (stdToString n) = n := by
  induction n using Nat.strong_induction_on with
  | _ n ih =>
    have digit : (48 + n % 10).toUInt8.toNat = 48 + n % 10 := by
      have small : 48 + n % 10 < 256 := by omega
      exact Nat.mod_eq_of_lt small
    rw [stdToString_last,decimal_last,digit]
    split_ifs with single
    · rw [Nat.mod_eq_of_lt single,Nat.add_sub_cancel_left]
      exact Nat.zero_add n
    · rw [ih (n / 10) (by omega)]
      omega

/-- The first digit is not a sign, and it is a zero only for zero itself. -/
theorem stdToString_head (n : Nat) : ∃ c rest, stdToString n = c :: rest ∧ c ≠ 45 ∧ c ≠ 43 ∧
    (c = 48 → n = 0) := by
  induction n using Nat.strong_induction_on with
  | _ n ih =>
    rw [stdToString_last]
    by_cases single : n < 10
    · rw [if_pos single]
      refine ⟨_,[],rfl,?_⟩
      interval_cases n <;> decide
    · obtain ⟨c,rest,found,minus,plus,first⟩ := ih (n / 10) (by omega)
      rw [if_neg single,found]
      refine ⟨c,_,List.cons_append,minus,plus,fun zero => ?_⟩
      have none := first zero
      omega

theorem stdToString_length {n k : Nat} (positive : 0 < k) (small : n < 10^k) :
    (stdToString n).length ≤ k := by
  unfold stdToString
  rw [List.length_map]
  exact (Nat.length_toDigits_le_iff (by decide) positive).mpr small

theorem sign_digit {c : UInt8} (minus : c ≠ 45) (plus : c ≠ 43) (rest : Bytes) :
    sign (c :: rest) = (false,c :: rest) := by
  unfold sign
  split
  · rename_i same
    exact absurd (List.cons.inj same).1 minus
  · rename_i same
    exact absurd (List.cons.inj same).1 plus
  · rfl

end Deon
