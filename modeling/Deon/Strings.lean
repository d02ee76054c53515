import Mathlib.Algebra.Group.Int.Defs
import Mathlib.Algebra.Group.Nat.Defs
import Mathlib.Data.List.Basic

/-! The parts of `std::string` and `std::stoi` that the server uses, over bytes.
Positions are natural numbers: the source keeps some of them in an `int`, which
is the same value as long as a buffer is shorter than `2^31` bytes. -/
namespace Deon

abbrev Bytes := List UInt8

/-- The bytes of an ASCII literal. -/
def bytes (literal : String) : Bytes := literal.toList.map (fun c => c.toNat.toUInt8)

abbrev cr : UInt8 := 13
abbrev lf : UInt8 := 10
abbrev space : UInt8 := 32
abbrev colon : UInt8 := 58

def crlf : Bytes := [cr,lf]

/-- What leaves a handler other than a return: an exception of the standard
library, or a read through the address `mmap` returns when it fails. -/
inductive Fault
  | stoiInvalidArgument
  | stoiOutOfRange
  | substrOutOfRange
  | lengthError
  | badAddress
  deriving DecidableEq, Repr

/-- `s.substr(pos)`. -/
def substr (s : Bytes) (pos : Nat) : Except Fault Bytes :=
  if pos ≤ s.length then .ok (s.drop pos) else .error .substrOutOfRange

/-- `s.substr(pos, n)`. -/
def substrN (s : Bytes) (pos n : Nat) : Except Fault Bytes :=
  if pos ≤ s.length then .ok ((s.drop pos).take n) else .error .substrOutOfRange

/-- `std::string(s.begin() + first, s.begin() + last)`. -/
def slice (s : Bytes) (first last : Nat) : Except Fault Bytes :=
  if first ≤ last ∧ last ≤ s.length then .ok ((s.take last).drop first) else .error .lengthError

/-- `s.c_str()` as a C function reads it: up to the first NUL. -/
def cStr (s : Bytes) : Bytes := s.takeWhile (· ≠ 0)

/-- `std::to_string`. -/
def stdToString (n : Nat) : Bytes := (Nat.toDigits 10 n).map (fun c => c.toNat.toUInt8)

def isSpace (c : UInt8) : Bool := c = space || (9 ≤ c && c ≤ 13)

def isDigit (c : UInt8) : Bool := 48 ≤ c && c ≤ 57

/-- The optional sign that `strtol` reads: whether it negates, and what follows. -/
def sign : Bytes → Bool × Bytes
  | 45 :: rest => (true,rest)
  | 43 :: rest => (false,rest)
  | rest => (false,rest)

def decimal (digits : Bytes) : Nat := digits.foldl (fun n c => 10 * n + (c.toNat - 48)) 0

/-- `std::stoi` in base ten: leading white space and a sign are skipped, what
follows the digits is ignored. -/
def stoi (s : Bytes) : Except Fault Int :=
  let (negative,rest) := sign (s.dropWhile isSpace)
  let digits := rest.takeWhile isDigit
  let value : Int := if negative then -(decimal digits : Int) else decimal digits
  if digits = [] then .error .stoiInvalidArgument
  else if value < -2^31 ∨ 2^31 ≤ value then .error .stoiOutOfRange
  else .ok value

@[simp] theorem substr_drop {s : Bytes} {pos : Nat} (inside : pos ≤ s.length) :
    substr s pos = .ok (s.drop pos) := if_pos inside

@[simp] theorem substrN_take {s : Bytes} {pos : Nat} (n : Nat) (inside : pos ≤ s.length) :
    substrN s pos n = .ok ((s.drop pos).take n) := if_pos inside

theorem stoi_fault {s : Bytes} {fault : Fault} (raised : stoi s = .error fault) :
    fault = .stoiInvalidArgument ∨ fault = .stoiOutOfRange := by
  unfold stoi at raised
  split at raised
  dsimp only at raised
  split_ifs at raised <;> simp_all

end Deon
