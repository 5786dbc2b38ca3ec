import Mathlib.Algebra.Order.Ring.Nat
import Mathlib.Order.Monotone.Basic
import Mathlib.Tactic.Ring

/-!
# Rounding on the ladder of a floating-point format

The patterns of a binary floating-point format, without the sign, count its magnitudes in order: `magnitude t k` is the
magnitude of pattern `k` in a format whose significand has `t` stored bits, in units of the smallest positive one.  One
pattern further is `gap t k` more (`magnitude_succ`), and the first pattern of the top binade stands for infinity.

`Nearest v top x k` says that rung `k` of the ladder `v`, among the rungs up to `top`, is nearest to `x`, and even at
a tie.  With infinity as the topmost rung this is rounding to nearest, ties to even, with overflow.  Dropping `s` bits
of a pattern with `roundShift` rounds to nearest in the shorter format (`nearest_roundShift`).
-/

namespace FloatLadder

def magnitude (t k : Nat) : Nat := if k / 2 ^ t = 0 then k else (2 ^ t + k % 2 ^ t) * 2 ^ (k / 2 ^ t - 1)

/-- The distance of the next pattern. -/
def gap (t k : Nat) : Nat := 2 ^ (k / 2 ^ t - 1)

theorem gap_pos (t k : Nat) : 0 < gap t k := Nat.two_pow_pos _

/-- Binade and fraction of a pattern. -/
theorem div_mod_of_lt {t r : Nat} (q : Nat) (hr : r < 2 ^ t) :
    (2 ^ t * q + r) / 2 ^ t = q ∧ (2 ^ t * q + r) % 2 ^ t = r :=
  (Nat.div_mod_unique (Nat.two_pow_pos t)).2 ⟨Nat.add_comm _ _, hr⟩

theorem magnitude_of_lt {t k : Nat} (h : k < 2 ^ t) : magnitude t k = k := if_pos (Nat.div_eq_of_lt h)

theorem magnitude_binade {t r : Nat} (q : Nat) (hr : r < 2 ^ t) :
    magnitude t (2 ^ t * (q + 1) + r) = (2 ^ t + r) * 2 ^ q := by
  obtain ⟨hdiv, hmod⟩ := div_mod_of_lt (q + 1) hr
  unfold magnitude
  rw [hdiv, hmod, if_neg (Nat.succ_ne_zero q), Nat.add_sub_cancel]

theorem gap_binade {t r : Nat} (q : Nat) (hr : r < 2 ^ t) : gap t (2 ^ t * q + r) = 2 ^ (q - 1) := by
  unfold gap
  rw [(div_mod_of_lt q hr).1]

theorem magnitude_succ (t k : Nat) : magnitude t (k + 1) = magnitude t k + gap t k := by
  have hpos : 0 < 2 ^ t := Nat.two_pow_pos t
  have hr : k % 2 ^ t < 2 ^ t := Nat.mod_lt k hpos
  rw [← Nat.div_add_mod k (2 ^ t), gap_binade _ hr]
  generalize k / 2 ^ t = q, k % 2 ^ t = r at *
  by_cases hlast : r + 1 < 2 ^ t
  · rw [Nat.add_assoc]
    cases q with
    | zero => rw [Nat.mul_zero, Nat.zero_add, Nat.zero_add, magnitude_of_lt hlast, magnitude_of_lt hr, Nat.zero_sub]; rfl
    | succ q =>
      rw [magnitude_binade q hlast, magnitude_binade q hr, Nat.add_sub_cancel, ← Nat.add_assoc]
      ring
  · have hnext : 2 ^ t * q + r + 1 = 2 ^ t * (q + 1) + 0 := by
      rw [Nat.mul_succ]
      omega
    rw [hnext, magnitude_binade q hpos]
    cases q with
    | zero =>
      rw [Nat.mul_zero, Nat.zero_add, magnitude_of_lt hr, Nat.zero_sub, Nat.pow_zero]
      omega
    | succ q =>
      have hfull : 2 ^ t = r + 1 := by omega
      rw [magnitude_binade q hr, Nat.add_sub_cancel, hfull, Nat.pow_succ]
      ring

theorem magnitude_strictMono (t : Nat) : StrictMono (magnitude t) := by
  apply strictMono_nat_of_lt_succ
  intro k
  rw [magnitude_succ]
  exact Nat.lt_add_of_pos_right (gap_pos t k)

/-- The magnitudes in units that are finer by `c` bits. -/
def rung (c t k : Nat) : Nat := 2 ^ c * magnitude t k

theorem rung_strictMono (c t : Nat) : StrictMono (rung c t) :=
  fun _ _ h => Nat.mul_lt_mul_of_pos_left (magnitude_strictMono t h) (Nat.two_pow_pos c)

theorem rung_succ (c t k : Nat) : rung c t (k + 1) = rung c t k + 2 ^ c * gap t k := by
  unfold rung
  rw [magnitude_succ, Nat.mul_add]

/-- The magnitude of a pattern of binade `q`, with `s` more stored bits and `d` more binades below, from the pattern cut
to `t` stored bits. -/
theorem magnitude_cut {t s d q f r : Nat} (hd : d = 0 ∨ d < q) (hf : f < 2 ^ t) (hr : r < 2 ^ s) :
    magnitude (t + s) (2 ^ (t + s) * q + (2 ^ s * f + r)) =
      rung (d + s) t (2 ^ t * (q - d) + f) + r * (2 ^ d * gap t (2 ^ t * (q - d) + f)) := by
  have hfrac : 2 ^ s * f + r < 2 ^ (t + s) := by
    have hle : 2 ^ s * (f + 1) ≤ 2 ^ s * 2 ^ t := Nat.mul_le_mul_left _ hf
    rw [Nat.add_comm t s, Nat.pow_add]
    rw [Nat.mul_succ] at hle
    omega
  unfold rung
  rw [gap_binade _ hf]
  cases q with
  | zero =>
    obtain rfl : d = 0 := hd.resolve_right (Nat.not_lt_zero d)
    rw [Nat.sub_zero, Nat.mul_zero, Nat.mul_zero, Nat.zero_add, Nat.zero_add, Nat.zero_add, magnitude_of_lt hfrac,
      magnitude_of_lt hf]
    show 2 ^ s * f + r = 2 ^ s * f + r * 1
    rw [Nat.mul_one]
  | succ q =>
    have hle : d ≤ q := hd.elim (fun h => h ▸ Nat.zero_le q) Nat.le_of_lt_succ
    have hq : q = d + (q - d) := (Nat.add_sub_of_le hle).symm
    have hsucc : q + 1 - d = q - d + 1 := Nat.succ_sub hle
    rw [hsucc, magnitude_binade q hfrac, magnitude_binade (q - d) hf, Nat.add_sub_cancel]
    generalize q - d = n at hq
    subst hq
    rw [Nat.pow_add, Nat.pow_add, Nat.pow_add]
    ring

/-! ### Rounding to nearest -/

/-- The distance of two magnitudes. -/
def distance (x y : Nat) : Nat := ((x : Int) - y).natAbs

/-- Rung `k` is nearest to `x` among the rungs up to `top`, and even at a tie. -/
structure Nearest (v : Nat → Nat) (top x k : Nat) : Prop where
  le_top : k ≤ top
  near : ∀ j ≤ top, distance (v k) x ≤ distance (v j) x
  even : ∀ j ≤ top, j ≠ k → distance (v j) x = distance (v k) x → k % 2 = 0

variable {v : Nat → Nat} {top x k : Nat}

theorem nearest_of_le (hv : StrictMono v) (h : v top ≤ x) : Nearest v top x top where
  le_top := Nat.le_refl top
  near := by
    intro j hj
    have hle : v j ≤ v top := hv.monotone hj
    unfold distance
    omega
  even := by
    intro j hj hne hdist
    have hlt : v j < v top := hv (Nat.lt_of_le_of_ne hj hne)
    unfold distance at hdist
    omega

/-- Of the two rungs around `x`, the nearer one, or the even one. -/
def roundBetween (v : Nat → Nat) (x k : Nat) : Nat :=
  if 2 * x > v k + v (k + 1) ∨ 2 * x = v k + v (k + 1) ∧ k % 2 = 1 then k + 1 else k

theorem nearest_roundBetween (hv : StrictMono v) (htop : k + 1 ≤ top) (hlo : v k ≤ x) (hhi : x ≤ v (k + 1)) :
    Nearest v top x (roundBetween v x k) := by
  have hstep : v k < v (k + 1) := hv (Nat.lt_succ_self k)
  have hside : ∀ j, j = k ∨ j = k + 1 ∨ v j < v k ∨ v (k + 1) < v j := by
    intro j
    rcases Nat.lt_trichotomy j k with h | h | h
    · exact Or.inr (Or.inr (Or.inl (hv h)))
    · exact Or.inl h
    · rcases Nat.eq_or_lt_of_le h with h | h
      · exact Or.inr (Or.inl h.symm)
      · exact Or.inr (Or.inr (Or.inr (hv h)))
  unfold roundBetween
  split
  · rename_i hup
    refine ⟨htop, fun j _ => ?_, fun j _ hne hdist => ?_⟩
    · unfold distance
      rcases hside j with rfl | rfl | h | h <;> omega
    · unfold distance at hdist
      rcases hside j with rfl | rfl | h | h <;> omega
  · rename_i hdown
    refine ⟨by omega, fun j _ => ?_, fun j _ hne hdist => ?_⟩
    · unfold distance
      rcases hside j with rfl | rfl | h | h <;> omega
    · unfold distance at hdist
      rcases hside j with rfl | rfl | h | h <;> omega

/-- A rung is nearest to itself. -/
theorem nearest_self (hv : StrictMono v) (htop : k ≤ top) : Nearest v top (v k) k where
  le_top := htop
  near := by
    intro j _
    unfold distance
    omega
  even := by
    intro j _ hne hdist
    have hdiff : v j ≠ v k := fun h => hne (hv.injective h)
    unfold distance at hdist
    omega

/-- There is one nearest rung only. -/
theorem Nearest.unique (hv : StrictMono v) {k' : Nat} (h : Nearest v top x k) (h' : Nearest v top x k') : k = k' := by
  have hle : ∀ {k k' : Nat}, Nearest v top x k → Nearest v top x k' → ¬ k < k' := by
    intro k k' h h' hlt
    have hdist : distance (v k) x = distance (v k') x :=
      Nat.le_antisymm (h.near k' h'.le_top) (h'.near k h.le_top)
    have hk : k % 2 = 0 := h.even k' h'.le_top (by omega) hdist.symm
    have hk' : k' % 2 = 0 := h'.even k h.le_top (by omega) hdist
    -- an odd rung in between is nearer than both
    have hlo : v k < v (k + 1) := hv (Nat.lt_succ_self k)
    have hhi : v (k + 1) < v k' := hv (by omega)
    have hmid := h.near (k + 1) (by have := h'.le_top; omega)
    unfold distance at hdist hmid
    omega
  rcases Nat.lt_trichotomy k k' with hlt | heq | hlt
  · exact absurd hlt (hle h h')
  · exact heq
  · exact absurd hlt (hle h' h)

/-- When an even rung between two others is the nearest one. -/
theorem nearest_succ_iff_of_odd (hv : StrictMono v) (hk : k % 2 = 1) (htop : k + 2 ≤ top) :
    Nearest v top x (k + 1) ↔ v k + v (k + 1) ≤ 2 * x ∧ 2 * x ≤ v (k + 1) + v (k + 1 + 1) := by
  have hlo : v k < v (k + 1) := hv (Nat.lt_succ_self k)
  have hhi : v (k + 1) < v (k + 1 + 1) := hv (Nat.lt_succ_self (k + 1))
  constructor
  · intro h
    have hbelow := h.near k (by omega)
    have habove := h.near (k + 1 + 1) htop
    unfold distance at hbelow habove
    omega
  · rintro ⟨hbelow, habove⟩
    rcases Nat.le_total x (v (k + 1)) with hx | hx
    · have hround : roundBetween v x k = k + 1 := if_pos (by omega)
      exact hround ▸ nearest_roundBetween hv (by omega) (by omega) hx
    · have hround : roundBetween v x (k + 1) = k + 1 := if_neg (by omega)
      exact hround ▸ nearest_roundBetween hv htop hx (by omega)

/-! ### Dropping the low bits of a pattern -/

/-- `m / 2 ^ s` rounded to nearest, ties to even. -/
def roundShift (s m : Nat) : Nat :=
  if 2 * (m % 2 ^ s) > 2 ^ s ∨ 2 * (m % 2 ^ s) = 2 ^ s ∧ m / 2 ^ s % 2 = 1 then m / 2 ^ s + 1 else m / 2 ^ s

theorem roundShift_split {s r : Nat} (f : Nat) (hr : r < 2 ^ s) :
    roundShift s (2 ^ s * f + r) = if 2 * r > 2 ^ s ∨ 2 * r = 2 ^ s ∧ f % 2 = 1 then f + 1 else f := by
  obtain ⟨hdiv, hmod⟩ := div_mod_of_lt f hr
  unfold roundShift
  rw [hdiv, hmod]

theorem div_le_roundShift (s m : Nat) : m / 2 ^ s ≤ roundShift s m := by
  unfold roundShift
  split
  · exact Nat.le_succ _
  · exact Nat.le_refl _

theorem roundShift_le (s m : Nat) : roundShift s m ≤ m / 2 ^ s + 1 := by
  unfold roundShift
  split
  · exact Nat.le_refl _
  · exact Nat.le_succ _

theorem roundShift_mono (s : Nat) : Monotone (roundShift s) := by
  intro m m' h
  rcases Nat.eq_or_lt_of_le (Nat.div_le_div_right (c := 2 ^ s) h) with heq | hlt
  · have hm := Nat.div_add_mod m (2 ^ s)
    have hm' := Nat.div_add_mod m' (2 ^ s)
    rw [← heq] at hm'
    unfold roundShift
    rw [← heq]
    split <;> split <;> omega
  · exact Nat.le_trans (roundShift_le s m) (Nat.le_trans hlt (div_le_roundShift s m'))

theorem two_pow_mul_add_mod_two {t : Nat} (ht : 0 < t) (q f : Nat) : (2 ^ t * q + f) % 2 = f % 2 := by
  obtain ⟨n, rfl⟩ := Nat.exists_eq_succ_of_ne_zero (Nat.ne_of_gt ht)
  rw [Nat.pow_succ, Nat.mul_comm (2 ^ n), Nat.mul_assoc]
  exact Nat.mul_add_mod ..

/-- The binade of a pattern is kept apart from the rounding of its fraction. -/
theorem roundShift_binade {t : Nat} (s q m : Nat) (ht : 0 < t) :
    roundShift s (2 ^ (t + s) * q + m) = 2 ^ t * q + roundShift s m := by
  have hsplit : 2 ^ (t + s) * q + m = 2 ^ s * (2 ^ t * q + m / 2 ^ s) + m % 2 ^ s := by
    rw [Nat.mul_add, ← Nat.mul_assoc, Nat.add_assoc, Nat.div_add_mod, Nat.add_comm t s, Nat.pow_add]
  have heven : (2 ^ t * q + m / 2 ^ s) % 2 = m / 2 ^ s % 2 := two_pow_mul_add_mod_two ht _ _
  rw [hsplit, roundShift_split _ (Nat.mod_lt m (Nat.two_pow_pos s)), heven]
  unfold roundShift
  split <;> omega

/-- Dropping `s` stored bits and `d` binades of a pattern rounds to the nearest rung of the shorter format. -/
theorem nearest_roundShift {t s d q f r : Nat} (ht : 0 < t) (hd : d = 0 ∨ d < q) (hf : f < 2 ^ t) (hr : r < 2 ^ s)
    (htop : 2 ^ t * (q - d) + f + 1 ≤ top) :
    Nearest (rung (d + s) t) top (magnitude (t + s) (2 ^ (t + s) * q + (2 ^ s * f + r)))
      (2 ^ t * (q - d) + roundShift s (2 ^ s * f + r)) := by
  have hcut := magnitude_cut hd hf hr
  have hnext : rung (d + s) t (2 ^ t * (q - d) + f + 1) =
      rung (d + s) t (2 ^ t * (q - d) + f) + 2 ^ s * (2 ^ d * gap t (2 ^ t * (q - d) + f)) := by
    rw [rung_succ, Nat.pow_add]
    ring
  have hodd : (2 ^ t * (q - d) + f) % 2 = f % 2 := two_pow_mul_add_mod_two ht _ _
  have hgap : 0 < 2 ^ d * gap t (2 ^ t * (q - d) + f) := Nat.mul_pos (Nat.two_pow_pos d) (gap_pos _ _)
  generalize hk : 2 ^ t * (q - d) + f = k, 2 ^ d * gap t (2 ^ t * (q - d) + f) = g at *
  have habove : 2 ^ s < 2 * r ↔ 2 ^ s * g < 2 * (r * g) := by rw [← Nat.mul_assoc 2, Nat.mul_lt_mul_right hgap]
  have htie : 2 * r = 2 ^ s ↔ 2 * (r * g) = 2 ^ s * g := by
    rw [← Nat.mul_assoc 2]
    exact (Nat.mul_left_inj (Nat.ne_of_gt hgap)).symm
  have hin : r * g ≤ 2 ^ s * g := Nat.mul_le_mul_right g (Nat.le_of_lt hr)
  have hround : 2 ^ t * (q - d) + roundShift s (2 ^ s * f + r) =
      roundBetween (rung (d + s) t) (magnitude (t + s) (2 ^ (t + s) * q + (2 ^ s * f + r))) k := by
    rw [roundShift_split f hr]
    unfold roundBetween
    rw [hcut, hnext, hodd]
    split <;> split <;> omega
  rw [hround]
  apply nearest_roundBetween (rung_strictMono _ t) htop
  · omega
  · omega

/-! ### Signed values -/

/-- A magnitude with a sign, one for negative. -/
def signed (sign m : Nat) : Int := if sign = 1 then -m else m

/-- A monotone change of the patterns that keeps zero is monotone on the signed values. -/
theorem signed_mono {w g : Nat → Nat} (hv : StrictMono v) (hzero : v 0 = 0) (hw : Monotone w) (hwzero : w 0 = 0)
    (hg : Monotone g) (hgzero : g 0 = 0) {s s' k k' : Nat} (h : signed s (v k) ≤ signed s' (v k')) :
    signed s (w (g k)) ≤ signed s' (w (g k')) := by
  unfold signed at *
  by_cases hs : s = 1
  · by_cases hs' : s' = 1
    · rw [if_pos hs, if_pos hs'] at h ⊢
      have hle : k' ≤ k := hv.le_iff_le.1 (by omega)
      have hout := hw (hg hle)
      omega
    · rw [if_pos hs, if_neg hs']
      omega
  · by_cases hs' : s' = 1
    · rw [if_neg hs, if_pos hs'] at h ⊢
      have hk : k = 0 := hv.injective (by omega)
      have hk' : k' = 0 := hv.injective (by omega)
      rw [hk, hk', hgzero, hwzero]
      omega
    · rw [if_neg hs, if_neg hs'] at h ⊢
      have hle : k ≤ k' := hv.le_iff_le.1 (by omega)
      have hout := hw (hg hle)
      omega

end FloatLadder
