import Mathlib.Algebra.BigOperators.Field
import Mathlib.Algebra.Order.BigOperators.Ring.Finset
import Mathlib.Analysis.SpecialFunctions.Exp
import Mathlib.Data.EReal.Operations
import Mathlib.Order.CompletePartialOrder

/-!
# Softmax of a row that arrives in pieces

A row of scores, some of them masked, whose weighted sums are kept relative to the largest score seen so far.  A weight
below `exp (-δ)` is dropped.  If the scores that count lie within `δ` of one another and the others further below, the
sums after a piece are those before it, rescaled, and what the piece adds (`part_add`), and in the end their quotient is
the softmax of the scores that count (`part_div`).
-/

namespace StreamedSoftmax

open Finset

/-- The largest of the first `c` scores. -/
noncomputable def high (x : Nat → EReal) (c : Nat) : EReal := (range c).sup x

/-- The weight of a score when the largest one is `h`. -/
noncomputable def weight (δ : ℝ) (h y : EReal) : ℝ :=
  if h = ⊥ ∨ y - h < ((-δ : ℝ) : EReal) then 0 else Real.exp (y - h).toReal

/-- The weighted sum of `f` over the first `c` scores. -/
noncomputable def part (δ : ℝ) (x : Nat → EReal) (f : Nat → ℝ) (c : Nat) : ℝ :=
  ∑ j ∈ range c, weight δ (high x c) (x j) * f j

/-- The scores that count lie within `δ` of one another; the others lie further below, or are `-∞` as long as no score
counts. -/
structure Separated (δ : ℝ) (x : Nat → EReal) (n : Nat) (kept : Nat → Prop) : Prop where
  finite : ∀ j < n, kept j → x j ≠ ⊥ ∧ x j ≠ ⊤
  near : ∀ i < n, ∀ j < n, kept i → kept j → x i ≤ x j + δ
  far : ∀ i < n, ∀ j < n, kept i → ¬ kept j → x j + δ < x i
  first : ∀ c ≤ n, (∀ j < c, ¬ kept j) → ∀ j < c, x j = ⊥

variable {δ : ℝ} {x : Nat → EReal} {n c : Nat} {kept : Nat → Prop} {f : Nat → ℝ}

theorem high_add (x : Nat → EReal) (c m : Nat) : high x (c + m) = max (high x c) (high (fun j => x (c + j)) m) := by
  induction m with
  | zero => simp [high]
  | succ m ih =>
    have hlast : ∀ (y : Nat → EReal) (k : Nat), high y (k + 1) = max (high y k) (y k) := by
      intro y k
      unfold high
      rw [range_add_one, sup_insert, max_comm]
    rw [← Nat.add_assoc, hlast, ih, hlast, max_assoc]

theorem weight_coe {a b : ℝ} : weight δ b a = if a - b < -δ then 0 else Real.exp (a - b) := by
  unfold weight
  simp only [← EReal.coe_sub, EReal.toReal_coe, EReal.coe_lt_coe_iff, EReal.coe_ne_bot, false_or]

theorem weight_bot (δ : ℝ) (h : EReal) : weight δ h ⊥ = 0 := by
  unfold weight
  rw [EReal.bot_sub, if_pos (Or.inr (EReal.bot_lt_coe _))]

namespace Separated

variable (hs : Separated δ x n kept)
include hs

theorem coe_toReal {j : Nat} (hj : j < n) (hk : kept j) : ((x j).toReal : EReal) = x j :=
  EReal.coe_toReal (hs.finite j hj hk).2 (hs.finite j hj hk).1

/-- The largest score is one that counts, unless none does yet. -/
theorem high_cases (hδ : 0 ≤ δ) (hc : c ≤ n) :
    (high x c = ⊥ ∧ ∀ j < c, x j = ⊥ ∧ ¬ kept j) ∨ ∃ u < c, kept u ∧ high x c = x u := by
  by_cases hnone : ∀ j < c, ¬ kept j
  · left
    have hbot := hs.first c hc hnone
    refine ⟨?_, fun j hj => ⟨hbot j hj, hnone j hj⟩⟩
    unfold high
    rw [Finset.sup_eq_bot_iff]
    intro j hj
    exact hbot j (mem_range.1 hj)
  · right
    push Not at hnone
    obtain ⟨i, hi, hki⟩ := hnone
    obtain ⟨u, hu, hsup⟩ := exists_mem_eq_sup (range c) ⟨i, mem_range.2 hi⟩ x
    have huc := mem_range.1 hu
    refine ⟨u, huc, ?_, hsup⟩
    by_contra hku
    have hfar := hs.far i (by omega) u (by omega) hki hku
    have hle : x i ≤ x u := by
      rw [← hsup]
      exact le_sup (f := x) (mem_range.2 hi)
    have hadd : x u ≤ x u + (δ : EReal) := le_add_of_nonneg_right (by exact_mod_cast hδ)
    exact absurd (hadd.trans_lt hfar) (not_lt.2 hle)

/-- A row with a score that counts has no score `+∞`. -/
theorem ne_top (hsome : ∃ i < n, kept i) {j : Nat} (hj : j < n) : x j ≠ ⊤ := by
  obtain ⟨i, hi, hki⟩ := hsome
  by_cases hkj : kept j
  · exact (hs.finite j hj hkj).2
  · have hfar := hs.far i hi j hj hki hkj
    rintro htop
    rw [htop, EReal.top_add_coe] at hfar
    exact not_top_lt hfar

/-- The largest score of a row with a score that counts is a real number. -/
theorem high_ne_bot (hδ : 0 ≤ δ) (hsome : ∃ i < n, kept i) : high x n ≠ ⊥ := by
  obtain ⟨i, hi, hki⟩ := hsome
  rcases hs.high_cases hδ le_rfl with ⟨-, hmasked⟩ | ⟨u, hu, hku, hhigh⟩
  · exact absurd hki (hmasked i hi).2
  · rw [hhigh]
    exact (hs.finite u hu hku).1

/-- Relative to a score that counts, a weight is the exponential of the distance, or nothing for a masked score. -/
theorem weight_kept {u j : Nat} (hu : u < n) (hj : j < n) (hku : kept u) (hkj : kept j) :
    weight δ (x u) (x j) = Real.exp ((x j).toReal - (x u).toReal) := by
  have hnear := hs.near u hu j hj hku hkj
  rw [← hs.coe_toReal hu hku, ← hs.coe_toReal hj hkj, ← EReal.coe_add, EReal.coe_le_coe_iff] at hnear
  conv_lhs => rw [← hs.coe_toReal hu hku, ← hs.coe_toReal hj hkj]
  rw [weight_coe, if_neg (by linarith)]

theorem weight_masked {u j : Nat} (hu : u < n) (hj : j < n) (hku : kept u) (hkj : ¬ kept j) :
    weight δ (x u) (x j) = 0 := by
  have hfar := hs.far u hu j hj hku hkj
  rw [← hs.coe_toReal hu hku] at hfar ⊢
  induction hx : x j with
  | bot => exact weight_bot δ _
  | coe y =>
    rw [hx, ← EReal.coe_add, EReal.coe_lt_coe_iff] at hfar
    rw [weight_coe, if_pos (by linarith)]
  | top =>
    rw [hx, EReal.top_add_coe] at hfar
    exact absurd hfar not_top_lt

/-- A sum of weights relative to a score that counts. -/
theorem sum_weight [DecidablePred kept] {u : Nat} (hu : u < n) (hku : kept u) (hc : c ≤ n) (f : Nat → ℝ) :
    ∑ j ∈ range c, weight δ (x u) (x j) * f j =
      Real.exp (-(x u).toReal) * ∑ j ∈ range c with kept j, Real.exp (x j).toReal * f j := by
  rw [sum_filter, mul_sum]
  apply sum_congr rfl
  intro j hj
  have hjn : j < n := (mem_range.1 hj).trans_le hc
  by_cases hkj : kept j
  · rw [if_pos hkj, hs.weight_kept hu hjn hku hkj, sub_eq_add_neg, add_comm, Real.exp_add, mul_assoc]
  · rw [if_neg hkj, hs.weight_masked hu hjn hku hkj, zero_mul, mul_zero]

/-- A piece of `m` scores: what came before is rescaled to the new largest score. -/
theorem part_add (hδ : 0 ≤ δ) {m : Nat} (hm : c + m ≤ n) (f : Nat → ℝ) :
    part δ x f (c + m) =
      (if part δ x (fun _ => 1) c = 0 then 0 else Real.exp (high x c - high x (c + m)).toReal) * part δ x f c +
        ∑ j ∈ range m, weight δ (high x (c + m)) (x (c + j)) * f (c + j) := by
  classical
  have hsplit : part δ x f (c + m) = ∑ j ∈ range c, weight δ (high x (c + m)) (x j) * f j +
      ∑ j ∈ range m, weight δ (high x (c + m)) (x (c + j)) * f (c + j) := by
    unfold part
    rw [sum_range_add]
  rw [hsplit]
  congr 1
  rcases hs.high_cases hδ (show c ≤ n by omega) with ⟨hhigh, hmasked⟩ | ⟨u, hu, hku, hhigh⟩
  · -- nothing counted so far
    have hzero : ∀ (h : EReal) (g : Nat → ℝ), ∑ j ∈ range c, weight δ h (x j) * g j = 0 := by
      intro h g
      apply sum_eq_zero
      intro j hj
      rw [(hmasked j (mem_range.1 hj)).1, weight_bot, zero_mul]
    have hpart : ∀ g, part δ x g c = 0 := fun g => hzero _ g
    rw [hzero, hpart, hpart, if_pos rfl, mul_zero]
  · obtain ⟨u', hu', hku', hhigh'⟩ : ∃ u' < c + m, kept u' ∧ high x (c + m) = x u' := by
      rcases hs.high_cases hδ hm with ⟨-, hmasked⟩ | h
      · exact absurd hku (hmasked u (by omega)).2
      · exact h
    have hpart : ∀ g, part δ x g c = ∑ j ∈ range c, weight δ (x u) (x j) * g j := by
      intro g
      unfold part
      rw [hhigh]
    have hpos : 0 < ∑ j ∈ range c with kept j, Real.exp (x j).toReal * 1 := by
      apply sum_pos
      · intro j _
        rw [mul_one]
        exact Real.exp_pos _
      · exact ⟨u, mem_filter.2 ⟨mem_range.2 hu, hku⟩⟩
    have hone : part δ x (fun _ => 1) c ≠ 0 := by
      rw [hpart, hs.sum_weight (by omega) hku (by omega)]
      exact (mul_pos (Real.exp_pos _) hpos).ne'
    rw [if_neg hone, hpart, hhigh, hhigh', hs.sum_weight (by omega) hku (by omega),
      hs.sum_weight (by omega) hku' (by omega), ← mul_assoc]
    congr 1
    rw [← hs.coe_toReal (show u < n by omega) hku, ← hs.coe_toReal (show u' < n by omega) hku', ← EReal.coe_sub,
      EReal.toReal_coe, EReal.toReal_coe, EReal.toReal_coe, ← Real.exp_add]
    congr 1
    ring

/-- The quotient of the sums over the whole row is the softmax of the scores that count. -/
theorem part_div [DecidablePred kept] (hδ : 0 ≤ δ) (hsome : ∃ j < n, kept j) (f : Nat → ℝ) :
    part δ x (fun _ => 1) n ≠ 0 ∧
      part δ x f n / part δ x (fun _ => 1) n =
        (∑ j ∈ range n with kept j, Real.exp (x j).toReal * f j) / ∑ j ∈ range n with kept j, Real.exp (x j).toReal := by
  obtain ⟨i, hi, hki⟩ := hsome
  obtain ⟨u, hu, hku, hhigh⟩ : ∃ u < n, kept u ∧ high x n = x u := by
    rcases hs.high_cases hδ le_rfl with ⟨-, hmasked⟩ | h
    · exact absurd hki (hmasked i hi).2
    · exact h
  have hpart : ∀ g, part δ x g n =
      Real.exp (-(x u).toReal) * ∑ j ∈ range n with kept j, Real.exp (x j).toReal * g j := by
    intro g
    unfold part
    rw [hhigh]
    exact hs.sum_weight hu hku le_rfl g
  have hexp := Real.exp_pos (-(x u).toReal)
  have hpos : 0 < ∑ j ∈ range n with kept j, Real.exp (x j).toReal := by
    apply sum_pos fun j _ => Real.exp_pos _
    exact ⟨i, mem_filter.2 ⟨mem_range.2 hi, hki⟩⟩
  simp only [hpart, mul_one]
  exact ⟨(mul_pos hexp hpos).ne', mul_div_mul_left _ _ hexp.ne'⟩

end Separated

end StreamedSoftmax
