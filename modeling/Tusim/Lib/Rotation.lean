import Mathlib.Algebra.Order.Ring.Nat
import Mathlib.Data.Finset.Card
import Mathlib.Data.Finset.Range
import Mathlib.Data.Nat.ModEq
import Mathlib.Order.Interval.Finset.Nat
import Mathlib.Tactic.Common

/-!
# Rotating positions

A cursor goes round `n` places.  `dist n pos c` is the number of places from `pos` to `c`; advancing the cursor to the
place behind one that comes before `c` brings it closer to `c` (`dist_advance`).  `turn n i j pos` tells which of two
places is reached first: it changes only when one of them is passed (`turn_next_self`, `turn_next_other`,
`turn_next_of_ne`).
-/

namespace Rotation

/-- The number of places from `pos` forward to `c`. -/
def dist (n pos c : Nat) : Nat := if pos ≤ c then c - pos else c + n - pos

section

variable {n pos c : Nat}

private theorem mod_of_lt_two_mul {a : Nat} (h : a < 2 * n) : a % n = if a < n then a else a - n := by
  split
  · rename_i hlt
    exact Nat.mod_eq_of_lt hlt
  · rename_i hge
    rw [Nat.mod_eq_sub_mod (by omega), Nat.mod_eq_of_lt (by omega)]

theorem dist_lt (hp : pos < n) (hc : c < n) : dist n pos c < n := by
  unfold dist
  split <;> omega

theorem dist_self : dist n pos pos = 0 := by
  unfold dist
  rw [if_pos (Nat.le_refl pos), Nat.sub_self]

/-- The place `q` behind the cursor. -/
theorem dist_add {q : Nat} (hp : pos < n) (hq : q < n) : dist n pos ((pos + q) % n) = q := by
  have hmod : (pos + q) % n = if pos + q < n then pos + q else pos + q - n := mod_of_lt_two_mul (by omega)
  rw [hmod]
  unfold dist
  split <;> split <;> omega

theorem add_dist (hp : pos < n) (hc : c < n) : (pos + dist n pos c) % n = c := by
  unfold dist
  split
  · rw [show pos + (c - pos) = c by omega, Nat.mod_eq_of_lt hc]
  · rw [show pos + (c + n - pos) = c + n by omega, Nat.add_mod_right, Nat.mod_eq_of_lt hc]

/-- Passing a place that comes before `c`. -/
theorem dist_advance {q : Nat} (hp : pos < n) (hc : c < n) (hq : q < dist n pos c) :
    dist n (((pos + q) % n + 1) % n) c + q + 1 = dist n pos c := by
  have hlt := dist_lt hp hc
  have hmod : (pos + q) % n = if pos + q < n then pos + q else pos + q - n := mod_of_lt_two_mul (by omega)
  have hnext : ((pos + q) % n + 1) % n = if (pos + q) % n + 1 < n then (pos + q) % n + 1 else (pos + q) % n + 1 - n := by
    have := Nat.mod_lt (pos + q) (by omega : 0 < n)
    exact mod_of_lt_two_mul (by omega)
  rw [hnext, hmod]
  unfold dist at hq ⊢
  split at hq <;> split <;> split <;> split <;> omega

theorem dist_next (hp : pos < n) (hc : c < n) (h : c ≠ pos) : dist n ((pos + 1) % n) c + 1 = dist n pos c := by
  have hmod : (pos + 1) % n = if pos + 1 < n then pos + 1 else pos + 1 - n := mod_of_lt_two_mul (by omega)
  rw [hmod]
  unfold dist
  split <;> split <;> split <;> omega

theorem dist_next_self (hp : pos < n) : dist n ((pos + 1) % n) pos + 1 = n := by
  have hmod : (pos + 1) % n = if pos + 1 < n then pos + 1 else pos + 1 - n := mod_of_lt_two_mul (by omega)
  rw [hmod]
  unfold dist
  split <;> split <;> omega

end

/-- `1` when `j` is reached before `i`, else `0`. -/
def turn (n i j pos : Nat) : Nat := if dist n pos j < dist n pos i then 1 else 0

section

variable {n i j pos : Nat}

theorem turn_le_one : turn n i j pos ≤ 1 := by
  unfold turn
  split <;> omega

theorem turn_self : turn n i j i = 0 := by
  unfold turn
  rw [dist_self, if_neg (Nat.not_lt_zero _)]

theorem turn_other (hj : j < n) (hij : i ≠ j) : turn n i j j = 1 := by
  unfold turn
  have hpos : 0 < dist n j i := by
    unfold dist
    split <;> omega
  rw [dist_self, if_pos hpos]

/-- Behind `i` the next of the two is `j`. -/
theorem turn_next_self (hi : i < n) (hj : j < n) (hij : i ≠ j) : turn n i j ((i + 1) % n) = 1 := by
  unfold turn
  have hself := dist_next_self hi
  have hother := dist_next hi hj (Ne.symm hij)
  have hlt := dist_lt hi hj
  rw [if_pos (by omega)]

/-- Behind `j` the next of the two is `i`. -/
theorem turn_next_other (hi : i < n) (hj : j < n) (hij : i ≠ j) : turn n i j ((j + 1) % n) = 0 := by
  unfold turn
  have hself := dist_next_self hj
  have hother := dist_next hj hi hij
  have hlt := dist_lt hj hi
  rw [if_neg (by omega)]

/-- Passing a third place does not change whose turn it is. -/
theorem turn_next_of_ne (hp : pos < n) (hi : i < n) (hj : j < n) (hpi : pos ≠ i) (hpj : pos ≠ j) :
    turn n i j ((pos + 1) % n) = turn n i j pos := by
  unfold turn
  have hnexti := dist_next hp hi (Ne.symm hpi)
  have hnextj := dist_next hp hj (Ne.symm hpj)
  by_cases h : dist n pos j < dist n pos i
  · rw [if_pos h, if_pos (by omega)]
  · rw [if_neg h, if_neg (by omega)]

end

end Rotation

/-!
### Numbered items in a ring of slots

Items are numbered from zero on and item `j` is put into slot `j % n`.  As long as at most `n` consecutive items are
held at once, they have slots of their own (`mod_inj`), so that as many slots are taken as items are held
(`card_slots`), and the slot of the next item is free as long as fewer than `n` are held (`next_free`).
-/

namespace RingWindow

variable {n a b i j k : Nat}

/-- The slots of the items `a`, ..., `b - 1`. -/
def slots (n a b : Nat) : Finset Nat := (Finset.Ico a b).image (· % n)

theorem mem_slots : k ∈ slots n a b ↔ ∃ j, a ≤ j ∧ j < b ∧ j % n = k := by
  simp [slots, and_assoc]

theorem mod_inj (hb : b ≤ a + n) (hi : a ≤ i) (hi' : i < b) (hj : a ≤ j) (hj' : j < b) (h : i % n = j % n) : i = j := by
  rcases Nat.le_total i j with hle | hle
  · have hdvd : n ∣ j - i := (Nat.modEq_iff_dvd' hle).1 h
    have hzero : j - i = 0 := Nat.eq_zero_of_dvd_of_lt hdvd (by omega)
    omega
  · have hdvd : n ∣ i - j := (Nat.modEq_iff_dvd' hle).1 h.symm
    have hzero : i - j = 0 := Nat.eq_zero_of_dvd_of_lt hdvd (by omega)
    omega

/-- Items held at once are in slots apart. -/
theorem card_slots (hb : b ≤ a + n) : (slots n a b).card = b - a := by
  unfold slots
  rw [Finset.card_image_of_injOn, Nat.card_Ico]
  intro i hi j hj h
  rw [Finset.coe_Ico, Set.mem_Ico] at hi hj
  exact mod_inj hb hi.1 hi.2 hj.1 hj.2 h

/-- The next item has a slot of its own as long as fewer than `n` items are held. -/
theorem next_free (hab : a ≤ b) (hb : b < a + n) : b % n ∉ slots n a b := by
  rw [mem_slots]
  rintro ⟨j, hj, hjb, h⟩
  have heq : j = b := mod_inj (show b + 1 ≤ a + n by omega) hj (by omega) hab (by omega) h
  omega

/-- A full ring has no free slot. -/
theorem full (hn : 0 < n) (hb : b = a + n) (hk : k < n) : k ∈ slots n a b := by
  have hsub : slots n a b ⊆ Finset.range n := by
    intro k hk
    obtain ⟨j, -, -, rfl⟩ := mem_slots.1 hk
    exact Finset.mem_range.2 (Nat.mod_lt j hn)
  have hall : slots n a b = Finset.range n := by
    apply Finset.eq_of_subset_of_card_le hsub
    rw [card_slots hb.le, Finset.card_range]
    omega
  rw [hall]
  exact Finset.mem_range.2 hk

end RingWindow
