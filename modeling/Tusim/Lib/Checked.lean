import Mathlib.Algebra.Order.Ring.Nat

/-!
# Checked arithmetic

Operations on `w`-bit unsigned numbers that give no result where the exact one does not fit.  A computation in these that
gives a result at all has overflowed nowhere, and its result is the exact one.
-/

namespace Checked

variable {w a b : Nat}

def add (w a b : Nat) : Option Nat := if a + b < 2 ^ w then some (a + b) else none

def mul (w a b : Nat) : Option Nat := if a * b < 2 ^ w then some (a * b) else none

def sub (a b : Nat) : Option Nat := if b ≤ a then some (a - b) else none

/-- A conversion to `w` bits that loses nothing. -/
def narrow (w a : Nat) : Option Nat := if a < 2 ^ w then some a else none

theorem add_eq_some (h : a + b < 2 ^ w) : add w a b = some (a + b) := if_pos h

theorem mul_eq_some (h : a * b < 2 ^ w) : mul w a b = some (a * b) := if_pos h

theorem sub_eq_some (h : b ≤ a) : sub a b = some (a - b) := if_pos h

theorem narrow_eq_some (h : a < 2 ^ w) : narrow w a = some a := if_pos h

/-- Products of numbers of half the width fit. -/
theorem mul_eq_some_of_lt {v : Nat} (ha : a < 2 ^ v) (hb : b < 2 ^ v) (hw : v + v ≤ w) : mul w a b = some (a * b) := by
  have hlt : a * b < 2 ^ v * 2 ^ v := Nat.mul_lt_mul'' ha hb
  rw [← Nat.pow_add] at hlt
  exact mul_eq_some (hlt.trans_le (Nat.pow_le_pow_right (by omega) hw))

end Checked
