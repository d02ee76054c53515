import Mathlib.Algebra.Order.Ring.Nat

/-! Times that are read modulo a period, and a delay that is added behind the reduction. -/
namespace Deon.Library

/-- How often a clock passes the end of its period between two times. -/
def wraps (period start now : Nat) : Nat := now / period - start / period

/-- The reduced clock reaches the reduced start with the delay added when the clock has made
up for every wrap in between. -/
theorem mod_add_le_mod_iff {period start now delay : Nat} (later : start ≤ now) :
    start % period + delay ≤ now % period ↔ start + delay + wraps period start now * period ≤ now := by
  have turns : start / period ≤ now / period := Nat.div_le_div_right later
  have whole : wraps period start now * period + start / period * period = now / period * period := by
    rw [← Nat.add_mul,wraps,Nat.sub_add_cancel turns]
  have first := Nat.div_add_mod start period
  have second := Nat.div_add_mod now period
  rw [Nat.mul_comm] at first second
  omega

end Deon.Library
