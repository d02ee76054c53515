import Deon.Decimal
import Mathlib.Tactic.IntervalCases

/-! `convert` of `LogStream.cpp`. The loop divides the value itself, which may be negative, and
takes the digits from a table that goes down from nine to zero and up again. -/
namespace Deon.Logging

structure IntType where
  signed : Bool
  width : Nat

def IntType.Fits (t : IntType) (value : Int) : Prop :=
  if t.signed then -2^(t.width - 1) ≤ value ∧ value < 2^(t.width - 1)
  else 0 ≤ value ∧ value < 2^t.width

instance (t : IntType) (value : Int) : Decidable (t.Fits value) :=
  inferInstanceAs (Decidable (ite _ _ _))

def digits : Bytes := bytes "9876543210123456789"

/-- `zero[lsd]`, where `zero` is `digits + 9`; `none` stands for a read outside the table. -/
def zero (lsd : Int) : Option UInt8 := if 0 ≤ lsd + 9 then digits[(lsd + 9).toNat]? else none

theorem natAbs_tdiv_ten (i : Int) : (i.tdiv 10).natAbs = i.natAbs / 10 := Int.natAbs_tdiv i 10

theorem tdiv_less {i : Int} (more : i.tdiv 10 ≠ 0) : (i.tdiv 10).natAbs < i.natAbs := by
  have next := natAbs_tdiv_ten i
  omega

/-- The turns of the loop: `lsd`, and `i` behind the division. -/
def convertTurns (i : Int) : List (Int × Int) :=
  let lsd := i.tmod 10
  let next := i.tdiv 10
  (lsd,next) :: if next ≠ 0 then convertTurns next else []
termination_by i.natAbs
decreasing_by
  rename_i more
  exact tdiv_less more

/-- What is written to `buf`, without the NUL behind it. -/
def convert (value : Int) : Option Bytes := do
  let buf ← (convertTurns value).mapM fun turn => zero turn.1
  let buf := if value < 0 then buf ++ bytes "-" else buf
  return buf.reverse

def readInteger (text : Bytes) : Int :=
  let (negative,digits) := sign text
  if negative then -(decimal digits : Int) else decimal digits

def Toward (i x : Int) : Prop := 0 ≤ x ∧ x ≤ i ∨ i ≤ x ∧ x ≤ 0

theorem Toward.trans {i j x : Int} (first : Toward i j) (second : Toward j x) : Toward i x := by
  unfold Toward at *
  omega

theorem toward_tdiv (i : Int) : Toward i (i.tdiv 10) := by
  obtain ⟨n,rfl | rfl⟩ := i.eq_nat_or_neg
  · left
    rw [Int.tdiv_eq_ediv_of_nonneg (Int.natCast_nonneg n)]
    omega
  · right
    rw [Int.neg_tdiv,Int.tdiv_eq_ediv_of_nonneg (Int.natCast_nonneg n)]
    omega

theorem toward_tmod (i : Int) : Toward i (i.tmod 10) := by
  obtain ⟨n,rfl | rfl⟩ := i.eq_nat_or_neg
  · left
    rw [Int.tmod_eq_emod_of_nonneg (Int.natCast_nonneg n)]
    omega
  · right
    rw [Int.neg_tmod,Int.tmod_eq_emod_of_nonneg (Int.natCast_nonneg n)]
    omega

theorem IntType.Fits.toward {t : IntType} {i x : Int} (fits : t.Fits i) (toward : Toward i x) :
    t.Fits x := by
  have powers : (0 : Int) < 2^(t.width - 1) ∧ (0 : Int) < 2^t.width :=
    ⟨Int.pow_pos (by decide),Int.pow_pos (by decide)⟩
  unfold IntType.Fits Toward at *
  split_ifs at * <;> omega

theorem zero_digit {lsd : Int} (small : lsd.natAbs < 10) :
    zero lsd = some (48 + lsd.natAbs).toUInt8 := by
  have lower : -9 ≤ lsd := by omega
  have upper : lsd ≤ 9 := by omega
  interval_cases lsd <;> rfl

theorem natAbs_tmod_ten (i : Int) : (i.tmod 10).natAbs = i.natAbs % 10 := Int.natAbs_tmod i 10

theorem tmod_small (i : Int) : (i.tmod 10).natAbs < 10 := by
  rw [natAbs_tmod_ten]
  exact Nat.mod_lt _ (by decide)

/-- The loop writes the digits of the absolute value, the last one first. -/
theorem convertTurns_digits (i : Int) :
    (convertTurns i).mapM (fun turn => zero turn.1) = some (stdToString i.natAbs).reverse := by
  induction i using convertTurns.induct with
  | case1 i next ih =>
    have less := natAbs_tdiv_ten i
    rw [convertTurns,List.mapM_cons,zero_digit (tmod_small i),natAbs_tmod_ten,
      stdToString_last i.natAbs,List.reverse_append]
    by_cases more : i.tdiv 10 ≠ 0
    · have large : ¬ i.natAbs < 10 := by omega
      rw [if_pos more,if_neg large,ih more,less]
      rfl
    · have single : i.natAbs < 10 := by omega
      rw [if_neg more,if_pos single]
      rfl

theorem convertTurns_toward {i : Int} {turn : Int × Int} (member : turn ∈ convertTurns i) :
    turn.1.natAbs < 10 ∧ Toward i turn.1 ∧ Toward i turn.2 := by
  induction i using convertTurns.induct with
  | case1 i next ih =>
    rw [convertTurns,List.mem_cons] at member
    obtain rfl | later := member
    · exact ⟨tmod_small i,toward_tmod i,toward_tdiv i⟩
    · by_cases more : i.tdiv 10 ≠ 0
      · rw [if_pos more] at later
        obtain ⟨small,first,second⟩ := ih more later
        exact ⟨small,(toward_tdiv i).trans first,(toward_tdiv i).trans second⟩
      · rw [if_neg more] at later
        cases later

theorem readInteger_digits (n : Nat) : readInteger (stdToString n) = n := by
  obtain ⟨c,rest,found,minus,plus,_⟩ := stdToString_head n
  have value := decimal_stdToString n
  unfold readInteger
  rw [found] at value ⊢
  rw [sign_digit minus plus]
  dsimp only
  rw [if_neg Bool.false_ne_true,value]

theorem readInteger_minus (n : Nat) : readInteger (bytes "-" ++ stdToString n) = -(n : Int) := by
  have minus : sign (bytes "-" ++ stdToString n) = (true,stdToString n) := rfl
  unfold readInteger
  rw [minus]
  dsimp only
  rw [if_pos rfl,decimal_stdToString]

/-- A text is the decimal representation of a value. -/
structure Represents (text : Bytes) (value : Int) : Prop where
  reads : readInteger text = value
  minus : text.head? = some 45 ↔ value < 0
  digits : ∃ digits, text = (if value < 0 then bytes "-" else []) ++ digits ∧ digits ≠ [] ∧
    (∀ c ∈ digits, isDigit c = true) ∧ (digits.head? = some 48 → digits = [48])

theorem convert_text (value : Int) : convert value =
    some ((if value < 0 then bytes "-" else []) ++ stdToString value.natAbs) := by
  unfold convert
  rw [convertTurns_digits]
  by_cases negative : value < 0
  · rw [if_pos negative]
    exact congrArg some (by rw [if_pos negative,List.reverse_append,List.reverse_reverse]; rfl)
  · rw [if_neg negative]
    exact congrArg some (by rw [if_neg negative,List.reverse_reverse]; rfl)

theorem text_represents (value : Int) :
    Represents ((if value < 0 then bytes "-" else []) ++ stdToString value.natAbs) value := by
  obtain ⟨c,rest,found,minus,_,first⟩ := stdToString_head value.natAbs
  refine ⟨?_,?_,stdToString value.natAbs,rfl,?_,fun _ => stdToString_digits,?_⟩
  · by_cases negative : value < 0
    · rw [if_pos negative,readInteger_minus]
      omega
    · rw [if_neg negative,List.nil_append,readInteger_digits]
      omega
  · by_cases negative : value < 0
    · rw [if_pos negative]
      exact iff_of_true rfl negative
    · rw [if_neg negative,List.nil_append,found]
      exact iff_of_false (fun same => minus (Option.some.inj same)) negative
  · rw [found]
    exact List.cons_ne_nil c rest
  · rw [found]
    intro zero
    have none := first (Option.some.inj zero)
    rw [none] at found
    exact found.symm

theorem IntType.Fits.small {t : IntType} {value : Int} (fits : t.Fits value)
    (narrow : t.width ≤ 64) : value.natAbs < 2^64 := by
  have power : ∀ {n k : Nat}, n ≤ k → (2 : Int)^n ≤ 2^k := fun less => by
    exact_mod_cast Nat.pow_le_pow_right (by decide) less
  have signed := power (Nat.sub_le_sub_right narrow 1)
  have unsigned := power narrow
  unfold IntType.Fits at fits
  split_ifs at fits <;> omega

theorem text_length {t : IntType} {value : Int} (fits : t.Fits value) (narrow : t.width ≤ 64) :
    ((if value < 0 then bytes "-" else []) ++ stdToString value.natAbs).length ≤ 21 := by
  have small : value.natAbs < 10^20 := Nat.lt_trans (fits.small narrow) (by decide)
  have digits := stdToString_length (by decide) small
  rw [List.length_append]
  split_ifs
  · exact Nat.add_le_add (Nat.le_refl 1) digits
  · exact Nat.add_le_add (Nat.zero_le 1) digits

/-- Every value of a type is written as it is read: no index leaves the table, no intermediate
value leaves the type, and what `formatInteger` has made sure of is room enough. -/
theorem convert_exact (t : IntType) (value : Int) (fits : t.Fits value) :
    ∃ text, convert value = some text ∧ Represents text value ∧
      (∀ turn ∈ convertTurns value, (0 ≤ turn.1 + 9 ∧ turn.1 + 9 ≤ 18) ∧
        t.Fits turn.1 ∧ t.Fits turn.2) ∧
      (t.width ≤ 64 → text.length + 1 < 32) := by
  refine ⟨_,convert_text value,text_represents value,?_,?_⟩
  · intro turn member
    obtain ⟨small,first,second⟩ := convertTurns_toward member
    exact ⟨by omega,fits.toward first,fits.toward second⟩
  · intro narrow
    have small : value.natAbs < 10^20 := Nat.lt_trans (fits.small narrow) (by decide)
    have digits := stdToString_length (by decide) small
    have minus : (if value < 0 then bytes "-" else []).length ≤ 1 := by
      split_ifs
      · exact Nat.le_refl 1
      · exact Nat.zero_le 1
    rw [List.length_append]
    omega

/-- The most negative value of a `long`, which has no absolute value in it. -/
theorem convert_exact_least : ∃ text, convert (-2^63) = some text ∧
    Represents text (-2^63) ∧
    (∀ turn ∈ convertTurns (-2^63), (0 ≤ turn.1 + 9 ∧ turn.1 + 9 ≤ 18) ∧
      (IntType.mk true 64).Fits turn.1 ∧ (IntType.mk true 64).Fits turn.2) ∧
    (64 ≤ 64 → text.length + 1 < 32) :=
  convert_exact ⟨true,64⟩ (-2^63) (by decide)

end Deon.Logging
