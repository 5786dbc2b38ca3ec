import Mathlib.Algebra.Order.Group.Nat
import Mathlib.Data.List.Range

/-!
# Numbers in mixed radix

A number `n * q + r` with `r < n` has the digit `r` and the rest `q`.  Counting through the numbers below a bound is
counting through their digits, the last one fastest: a loop over `range (m * n)` that splits its index is two nested
loops (`flatMap_range_mul`).  `range_chunks` is the same for a bound that the radix does not divide: the last chunk is
clipped.
-/

namespace Digits

variable {α : Type}

theorem mul_add_div_of_lt {n q r : Nat} (h : r < n) : (n * q + r) / n = q := by
  rw [Nat.mul_add_div (Nat.zero_lt_of_lt h), Nat.div_eq_of_lt h, Nat.add_zero]

theorem rest_of_digit {n q r : Nat} (h : r < n) : (q * n + r) / n = q := by
  rw [Nat.mul_comm, mul_add_div_of_lt h]

theorem digit_of_digit {n q r : Nat} (h : r < n) : (q * n + r) % n = r := by
  rw [Nat.mul_add_mod', Nat.mod_eq_of_lt h]

theorem mul_add_lt {m n q r : Nat} (hq : q < m) (hr : r < n) : q * n + r < m * n :=
  calc q * n + r < (q + 1) * n := by rw [Nat.succ_mul]; omega
    _ ≤ m * n := Nat.mul_le_mul_right n hq

private theorem range_split (s N : Nat) :
    List.range N = List.range (min s N) ++ (List.range (N - s)).map (s + ·) := by
  rcases Nat.le_total s N with h | h
  · obtain ⟨k, rfl⟩ := Nat.exists_eq_add_of_le h
    rw [Nat.min_eq_left h, Nat.add_sub_cancel_left, List.range_add]
  · simp [Nat.min_eq_right h, Nat.sub_eq_zero_of_le h]

/-- The numbers below `N` in `m` chunks of `s`, the last ones clipped. -/
theorem range_chunks {m s N : Nat} (h : N ≤ m * s) :
    List.range N = (List.range m).flatMap fun k => (List.range (min s (N - k * s))).map (k * s + ·) := by
  induction m generalizing N with
  | zero =>
    have hN : N = 0 := by omega
    simp [hN]
  | succ m ih =>
    have hrest : N - s ≤ m * s := by
      rw [Nat.succ_mul] at h
      omega
    rw [range_split s N, ih hrest, List.range_succ_eq_map, List.flatMap_cons, List.flatMap_map, List.map_flatMap]
    have hchunk : ∀ k, (List.range (min s (N - s - k * s))).map (fun j => s + (k * s + j)) =
        (List.range (min s (N - (k + 1) * s))).map ((k + 1) * s + ·) := by
      intro k
      have hstart : (k + 1) * s = s + k * s := by rw [Nat.succ_mul, Nat.add_comm]
      simp [hstart, Nat.sub_sub, Nat.add_assoc]
    have hrest' : (List.range m).flatMap (fun k => ((List.range (min s (N - s - k * s))).map (k * s + ·)).map (s + ·)) =
        (List.range m).flatMap fun k => (List.range (min s (N - (k + 1) * s))).map ((k + 1) * s + ·) := by
      apply List.flatMap_congr
      intro k _
      rw [List.map_map]
      exact hchunk k
    rw [hrest']
    simp

/-- A loop over `m * n` numbers is a loop over the rest with a loop over the last digit inside. -/
theorem flatMap_range_mul (m n : Nat) (f : Nat → Nat → List α) :
    (List.range (m * n)).flatMap (fun i => f (i / n) (i % n)) =
      (List.range m).flatMap fun q => (List.range n).flatMap (f q) := by
  rw [range_chunks (Nat.le_refl (m * n)), List.flatMap_assoc]
  apply List.flatMap_congr
  intro k hk
  rw [List.mem_range] at hk
  have hfull : min n (m * n - k * n) = n := by
    rw [← Nat.sub_mul]
    apply Nat.min_eq_left
    exact Nat.le_mul_of_pos_left n (by omega)
  rw [hfull, List.flatMap_map]
  apply List.flatMap_congr
  intro j hj
  rw [List.mem_range] at hj
  rw [Nat.mul_comm k n, mul_add_div_of_lt hj, Nat.mul_add_mod, Nat.mod_eq_of_lt hj]

theorem map_range_mul (m n : Nat) (f : Nat → Nat → α) :
    (List.range (m * n)).map (fun i => f (i / n) (i % n)) =
      (List.range m).flatMap fun q => (List.range n).map (f q) := by
  have h := flatMap_range_mul m n fun q r => [f q r]
  simpa [← List.map_eq_flatMap] using h

/-- Three digits. -/
theorem map_range_mul_mul (d r c : Nat) (f : Nat → Nat → Nat → α) :
    (List.range (d * r * c)).map (fun i => f (i / (r * c)) (i / c % r) (i % c)) =
      (List.range d).flatMap fun z => (List.range r).flatMap fun y => (List.range c).map (f z y) := by
  have hdiv : ∀ i, i / (r * c) = i / c / r := by
    intro i
    rw [Nat.div_div_eq_div_mul, Nat.mul_comm]
  simp only [hdiv]
  rw [map_range_mul (d * r) c fun q x => f (q / r) (q % r) x]
  exact flatMap_range_mul d r fun z y => (List.range c).map (f z y)

/-! ### Tiles -/

/-- The number of tiles of `t` that cover `n`. -/
def numTiles (n t : Nat) : Nat := n / t + if n % t ≠ 0 then 1 else 0

/-- Start and extent of the tiles of `t` that cover `n`, the last one clipped. -/
def tileSpans (n t : Nat) : List (Nat × Nat) :=
  (List.range (numTiles n t)).map fun k => (k * t, min t (n - k * t))

/-- The numbers below `n` in tiles of `t`. -/
def tiles (n t : Nat) : List (List Nat) := (tileSpans n t).map fun p => (List.range p.2).map (p.1 + ·)

theorem le_numTiles_mul (n : Nat) {t : Nat} (ht : 0 < t) : n ≤ numTiles n t * t := by
  have hdiv := Nat.div_add_mod n t
  have hlt := Nat.mod_lt n ht
  rw [Nat.mul_comm] at hdiv
  unfold numTiles
  split
  · rw [Nat.succ_mul]
    omega
  · rw [Nat.add_zero]
    omega

/-- The tiles cover every number once, in order. -/
theorem tiles_flatten (n : Nat) {t : Nat} (ht : 0 < t) : (tiles n t).flatten = List.range n := by
  rw [range_chunks (le_numTiles_mul n ht), List.flatMap_def]
  simp [tiles, tileSpans, Function.comp_def]

theorem mem_tiles {n t x : Nat} (ht : 0 < t) : (∃ l ∈ tiles n t, x ∈ l) ↔ x < n := by
  rw [← List.mem_flatten, tiles_flatten n ht, List.mem_range]

/-- A tile larger than the axis is the axis. -/
theorem tileSpans_min {n t : Nat} (hn : 0 < n) (ht : 0 < t) : tileSpans n (min t n) = tileSpans n t := by
  rcases Nat.le_total t n with h | h
  · rw [Nat.min_eq_left h]
  · rcases Nat.eq_or_lt_of_le h with rfl | hlt
    · rw [Nat.min_self]
    · have hself : numTiles n n = 1 := by simp [numTiles, Nat.div_self hn]
      have hlarge : numTiles n t = 1 := by
        simp [numTiles, Nat.div_eq_of_lt hlt, Nat.mod_eq_of_lt hlt, Nat.ne_of_gt hn]
      simp [tileSpans, Nat.min_eq_right h, hself, hlarge]

/-- A loop over `n * w` numbers that splits off the tile of `t * w` numbers is a loop over the tiles. -/
theorem map_range_tiles {n t w : Nat} (ht : 0 < t) (f : Nat → Nat → Nat → α) :
    (List.range (n * w)).map (fun i => f (i / (t * w) * t) (min t (n - i / (t * w) * t)) (i % (t * w))) =
      (tileSpans n t).flatMap fun p => (List.range (p.2 * w)).map (f p.1 p.2) := by
  have hcover : n * w ≤ numTiles n t * (t * w) := by
    rw [← Nat.mul_assoc]
    exact Nat.mul_le_mul_right w (le_numTiles_mul n ht)
  rw [range_chunks hcover, List.map_flatMap]
  unfold tileSpans
  rw [List.flatMap_map]
  apply List.flatMap_congr
  intro k _
  have hextent : min (t * w) (n * w - k * (t * w)) = min t (n - k * t) * w := by
    rw [← Nat.mul_assoc, ← Nat.sub_mul, Nat.mul_min_mul_right]
  rw [hextent, List.map_map]
  apply List.map_congr_left
  intro j hj
  rw [List.mem_range] at hj
  have hlt : j < t * w := hj.trans_le (Nat.mul_le_mul_right w (Nat.min_le_left _ _))
  rw [Function.comp_apply, Nat.mul_comm k (t * w), mul_add_div_of_lt hlt, Nat.mul_add_mod, Nat.mod_eq_of_lt hlt]

/-- The tile of `t * w` numbers that holds a number below `n * w`. -/
theorem tile_bounds {n t w i : Nat} (ht : 0 < t) (hi : i < n * w) :
    i / (t * w) * t < n ∧ 0 < min t (n - i / (t * w) * t) ∧
      i / (t * w) * t + min t (n - i / (t * w) * t) ≤ n ∧ i % (t * w) < min t (n - i / (t * w) * t) * w := by
  have hw : 0 < w := Nat.pos_of_ne_zero fun h => by simp [h] at hi
  have hrow : i / w < n := Nat.div_lt_of_lt_mul (by rwa [Nat.mul_comm])
  have hstart : i / (t * w) * t ≤ i / w := by
    rw [Nat.mul_comm t w, ← Nat.div_div_eq_div_mul]
    exact Nat.div_mul_le_self _ t
  have hmod := Nat.mod_lt i (Nat.mul_pos ht hw)
  have hsplit : i / (t * w) * t * w + i % (t * w) = i := by
    rw [Nat.mul_assoc, Nat.mul_comm (i / (t * w))]
    exact Nat.div_add_mod i (t * w)
  refine ⟨by omega, by omega, by omega, ?_⟩
  rcases Nat.le_total t (n - i / (t * w) * t) with h | h
  · rw [Nat.min_eq_left h]
    exact hmod
  · rw [Nat.min_eq_right h, Nat.sub_mul]
    omega

end Digits
