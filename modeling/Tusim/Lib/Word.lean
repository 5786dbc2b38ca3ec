import Mathlib.Algebra.Order.Group.Nat

/-!
# Machine words as natural numbers

Unsigned 32- and 64-bit arithmetic on natural numbers: `u32` and `u64` are the wrap-around of a result, `satAdd64`
and `satMul64` the operations that stop at the largest 64-bit value.  As long as nothing wraps or saturates these are
the operations of `Nat` (`u64_of_lt`, `satAdd64_of_le`).  The last section does the same for the type `UInt32`.
-/

namespace Word

/-- The largest unsigned 64-bit value. -/
def uint64Max : Nat := 2 ^ 64 - 1

def u32 (x : Nat) : Nat := x % 2 ^ 32

def u64 (x : Nat) : Nat := x % 2 ^ 64

/-- Addition that stops at `uint64Max`. -/
def satAdd64 (a b : Nat) : Nat := if uint64Max - a < b then uint64Max else a + b

/-- Multiplication that stops at `uint64Max`. -/
def satMul64 (a b : Nat) : Nat := if b ≠ 0 ∧ a > uint64Max / b then uint64Max else a * b

theorem u32_le (x : Nat) : u32 x ≤ x := Nat.mod_le _ _

theorem u64_le (x : Nat) : u64 x ≤ x := Nat.mod_le _ _

theorem u32_of_lt {x : Nat} (h : x < 2 ^ 32) : u32 x = x := Nat.mod_eq_of_lt h

theorem u64_of_lt {x : Nat} (h : x < 2 ^ 64) : u64 x = x := Nat.mod_eq_of_lt h

/-- Wrapping an operand first does not change a wrapped sum. -/
theorem u64_u64_add (a b : Nat) : u64 (u64 a + b) = u64 (a + b) := by
  simp [u64, Nat.mod_add_mod]

theorem satAdd64_of_le {a b : Nat} (h : a + b ≤ uint64Max) : satAdd64 a b = a + b := by
  unfold satAdd64
  split <;> omega

theorem satAdd64_le (a b : Nat) : satAdd64 a b ≤ a + b := by
  unfold satAdd64
  split <;> omega

theorem satMul64_le (a b : Nat) : satMul64 a b ≤ a * b := by
  unfold satMul64
  split
  · rename_i h
    have := (Nat.div_lt_iff_lt_mul (Nat.pos_of_ne_zero h.1)).1 h.2
    omega
  · exact Nat.le_refl _

theorem satMul64_of_le {a b : Nat} (h : a * b ≤ uint64Max) : satMul64 a b = a * b := by
  unfold satMul64
  rw [if_neg]
  rintro ⟨hb, ha⟩
  have := (Nat.le_div_iff_mul_le (Nat.pos_of_ne_zero hb)).2 h
  omega

theorem satAdd64_eq_min {a : Nat} (b : Nat) (ha : a ≤ uint64Max) : satAdd64 a b = min uint64Max (a + b) := by
  unfold satAdd64
  split <;> omega

theorem satMul64_eq_min (a b : Nat) : satMul64 a b = min uint64Max (a * b) := by
  by_cases h : a * b ≤ uint64Max
  · rw [satMul64_of_le h, Nat.min_eq_right h]
  · have hb : b ≠ 0 := by
      rintro rfl
      exact h (Nat.zero_le _)
    have hdiv : a > uint64Max / b := (Nat.div_lt_iff_lt_mul (Nat.pos_of_ne_zero hb)).2 (Nat.lt_of_not_le h)
    unfold satMul64
    rw [if_pos ⟨hb, hdiv⟩, Nat.min_eq_left (Nat.le_of_lt (Nat.lt_of_not_le h))]

/-- Saturating additions of `b` one after another. -/
theorem satAdd64_iterate {a : Nat} (b m : Nat) (ha : a ≤ uint64Max) :
    (satAdd64 · b)^[m] a = min uint64Max (a + m * b) := by
  induction m generalizing a with
  | zero => rw [Nat.zero_mul, Nat.add_zero, Nat.min_eq_right ha, Function.iterate_zero, id]
  | succ m ih =>
    have hstep := satAdd64_eq_min b ha
    rw [Function.iterate_succ_apply, hstep, ih (Nat.min_le_left _ _), Nat.succ_mul]
    omega

/-- A 64-bit amount is reached by saturating additions of a saturated product when it is reached without saturation. -/
theorem le_satAdd64_iterate_iff {x : Nat} (a b c m : Nat) (hx : x ≤ uint64Max) :
    x ≤ (satAdd64 · (satMul64 b c))^[m] a ↔ x ≤ min uint64Max (a + m * (b * c)) := by
  rw [satMul64_eq_min]
  generalize b * c = g
  induction m generalizing a with
  | zero =>
    rw [Function.iterate_zero, id, Nat.zero_mul, Nat.add_zero]
    omega
  | succ m ih =>
    rw [Function.iterate_succ_apply, ih, Nat.succ_mul]
    generalize m * g = y
    unfold satAdd64
    split <;> omega

/-! ### The type `UInt32`

32-bit operations whose exact result fits give that result. -/

section

variable {a b : UInt32} {x y : Nat}

theorem toNat_mul_of_lt (ha : a.toNat = x) (hb : b.toNat = y) (h : x * y < 2 ^ 32) : (a * b).toNat = x * y := by
  rw [UInt32.toNat_mul, ha, hb, Nat.mod_eq_of_lt h]

theorem toNat_add_of_lt (ha : a.toNat = x) (hb : b.toNat = y) (h : x + y < 2 ^ 32) : (a + b).toNat = x + y := by
  rw [UInt32.toNat_add, ha, hb, Nat.mod_eq_of_lt h]

theorem toNat_sub_of_le (ha : a.toNat = x) (hb : b.toNat = y) (h : y ≤ x) : (a - b).toNat = x - y := by
  rw [UInt32.toNat_sub_of_le, ha, hb]
  rwa [UInt32.le_iff_toNat_le, ha, hb]

theorem toNat_div_eq (ha : a.toNat = x) (hb : b.toNat = y) : (a / b).toNat = x / y := by
  rw [UInt32.toNat_div, ha, hb]

theorem toNat_mod_eq (ha : a.toNat = x) (hb : b.toNat = y) : (a % b).toNat = x % y := by
  rw [UInt32.toNat_mod, ha, hb]

theorem toNat_pos (h : a ≠ 0) : 0 < a.toNat := by
  rw [ne_eq, ← UInt32.toNat_inj] at h
  exact Nat.pos_of_ne_zero h

theorem toNat_eq_of_ofNat (h : a = UInt32.ofNat x) (hx : x < 2 ^ 32) : a.toNat = x := by
  rw [h]
  exact UInt32.toNat_ofNat_of_lt' hx

theorem ofNat_div (hx : x < 2 ^ 32) (c : UInt32) : UInt32.ofNat x / c = UInt32.ofNat (x / c.toNat) := by
  have hle := Nat.div_le_self x c.toNat
  rw [← UInt32.toNat_inj, UInt32.toNat_div, toNat_eq_of_ofNat rfl hx, toNat_eq_of_ofNat rfl (hle.trans_lt hx)]

theorem ofNat_mod (hx : x < 2 ^ 32) (c : UInt32) : UInt32.ofNat x % c = UInt32.ofNat (x % c.toNat) := by
  have hle := Nat.mod_le x c.toNat
  rw [← UInt32.toNat_inj, UInt32.toNat_mod, toNat_eq_of_ofNat rfl hx, toNat_eq_of_ofNat rfl (hle.trans_lt hx)]

end

theorem toNat16_pos {a : UInt16} (h : a ≠ 0) : 0 < a.toNat := by
  rw [ne_eq, ← UInt16.toNat_inj] at h
  exact Nat.pos_of_ne_zero h

end Word
