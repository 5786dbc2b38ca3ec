import Tusim.Attention.Rows

/-!
# Tiles of scores in exact arithmetic

A tile is normalised row by row.  A streamed tile leaves weights, new largest scores and sums, and rescaled accumulators
(`normalizeAttentionTile_streaming`); on a tile of whole rows both engines leave the same quotients (`softmaxTile_whole`).
-/

namespace Tusim.Attention

open NumberMemory StreamedSoftmax Word

variable {g : EReal} {size : Nat} (hsize : size < 2 ^ 32) {mem : Nat → NumByte EReal} {areas : TileAreas}
  {rows cols dim : Nat} {y : Nat → Nat → EReal}
include hsize

/-- The rows of a streamed tile. -/
theorem normalizeAttentionTile_streaming (hapart : areas.Apart size rows cols dim)
    (hscore : HoldsTable 4 g mem areas.scoreOff rows cols y) (hy : ∀ r < rows, ∀ j < cols, y r j ≠ ⊤)
    {h : Nat → EReal} {l : Nat → ℝ} {o : Nat → Nat → ℝ}
    (hmax : HoldsTable 4 g mem areas.maxOff rows 1 fun r _ => h r) (hh : ∀ r < rows, h r ≠ ⊤)
    (hsum : HoldsTable 4 g mem areas.sumOff rows 1 fun r _ => l r) (hl : ∀ r < rows, l r ≠ 0 → h r ≠ ⊥)
    (hout : HoldsTable 4 g mem areas.outputOff rows dim fun r a => o r a) :
    let h' r := max (h r) (high (y r) cols)
    let alpha r : ℝ := if l r = 0 then 0 else Real.exp (h r - h' r).toReal
    ∃ mem', normalizeAttentionTile (exactReals g) size mem rows cols dim areas true = (mem', true) ∧
      HoldsTable 4 g mem' areas.scoreOff rows cols (fun r j => (weight cutoff (h' r) (y r j) : ℝ)) ∧
      HoldsTable 4 g mem' areas.maxOff rows 1 (fun r _ => h' r) ∧
      HoldsTable 4 g mem' areas.sumOff rows 1
        (fun r _ => (alpha r * l r + ∑ j ∈ Finset.range cols, weight cutoff (h' r) (y r j) : ℝ)) ∧
      HoldsTable 4 g mem' areas.outputOff rows dim (fun r a => (o r a * alpha r : ℝ)) := by
  intro h' alpha
  let y' r j : EReal := (weight cutoff (h' r) (y r j) : ℝ)
  let l' r : EReal := (alpha r * l r + ∑ j ∈ Finset.range cols, weight cutoff (h' r) (y r j) : ℝ)
  let o' r a : EReal := (o r a * alpha r : ℝ)
  -- the first `k` rows are done
  let P (k : Nat) (s : (Nat → NumByte EReal) × Bool) : Prop := s.2 = true ∧
    HoldsTable 4 g s.1 areas.scoreOff rows cols (fun r j => if r < k then y' r j else y r j) ∧
    HoldsTable 4 g s.1 areas.maxOff rows 1 (fun r _ => if r < k then h' r else h r) ∧
    HoldsTable 4 g s.1 areas.sumOff rows 1 (fun r _ => if r < k then l' r else l r) ∧
    HoldsTable 4 g s.1 areas.outputOff rows dim (fun r a => if r < k then o' r a else o r a)
  have hrun : P rows (normalizeAttentionTile (exactReals g) size mem rows cols dim areas true) := by
    apply foldl_range_rec (P := P)
    · exact ⟨rfl, hscore.congr fun r _ j _ => (if_neg (Nat.not_lt_zero r)).symm,
        hmax.congr fun r _ j _ => (if_neg (Nat.not_lt_zero r)).symm,
        hsum.congr fun r _ j _ => (if_neg (Nat.not_lt_zero r)).symm,
        hout.congr fun r _ j _ => (if_neg (Nat.not_lt_zero r)).symm⟩
    · rintro k hk ⟨m, ok⟩ ⟨hok, htScore, htMax, htSum, htOut⟩
      dsimp only at hok htScore htMax htSum htOut ⊢
      have hone : ∀ {v v' : Nat → EReal} {a : Nat}, HoldsTable 4 g m a rows 1 (fun r _ => if r < k then v r else v' r) →
          load 4 g m (a + 4 * k) = v' k := by
        intro v v' a htable
        have hcell := htable k hk 0 (by omega)
        rw [Nat.mul_one, Nat.add_zero] at hcell
        exact hcell.trans (if_neg (Nat.lt_irrefl k))
      have hrow := normalizeRow_streaming hsize hapart hk
        (fun j hj => (htScore k hk j hj).trans (if_neg (Nat.lt_irrefl k))) (hy k hk) (hone htMax) (hh k hk) (hone htSum)
        (hl k hk) (fun a ha => (htOut k hk a ha).trans (if_neg (Nat.lt_irrefl k)))
      rw [hok, if_pos rfl, hrow]
      obtain ⟨hscoreEnd, houtputEnd, hmaxEnd, hsumEnd⟩ := hapart
      have hrowScore : (k + 1) * cols ≤ rows * cols := Nat.mul_le_mul_right cols hk
      have hrowOut : (k + 1) * dim ≤ rows * dim := Nat.mul_le_mul_right dim hk
      rw [Nat.succ_mul] at hrowScore hrowOut
      refine ⟨rfl, ?_, ?_, ?_, ?_⟩
      · apply HoldsTable.of_fill_ne (by omega) _ (by omega)
        apply HoldsTable.of_fill_ne (by omega) _ (by omega)
        apply HoldsTable.of_fill_ne (by omega) _ (by omega)
        exact htScore.fill_row (by omega) y' hk
      · apply HoldsTable.of_fill_ne (by omega) _ (by omega)
        apply HoldsTable.of_fill_ne (by omega) _ (by omega)
        exact (htMax.of_fill_ne (by omega) (by omega)).fill_row (by omega) (fun r _ => h' r) hk
      · apply HoldsTable.of_fill_ne (by omega) _ (by omega)
        exact ((htSum.of_fill_ne (by omega) (by omega)).of_fill_ne (by omega) (by omega)).fill_row (by omega)
          (fun r _ => l' r) hk
      · exact (((htOut.of_fill_ne (by omega) (by omega)).of_fill_ne (by omega) (by omega)).of_fill_ne (by omega)
          (by omega)).fill_row (by omega) o' hk
  obtain ⟨hok, htScore, htMax, htSum, htOut⟩ := hrun
  generalize normalizeAttentionTile (exactReals g) size mem rows cols dim areas true = s at *
  obtain ⟨mem', ok⟩ := s
  dsimp only at hok htScore htMax htSum htOut
  subst hok
  exact ⟨mem', rfl, htScore.congr fun r hr j _ => if_pos hr, htMax.congr fun r hr j _ => if_pos hr,
    htSum.congr fun r hr j _ => if_pos hr, htOut.congr fun r hr j _ => if_pos hr⟩

/-- Whole rows, divided by their sums. -/
theorem normalizeAttentionTile_whole (h : areas.scoreOff + 4 * (rows * cols) ≤ size)
    (hscore : HoldsTable 4 g mem areas.scoreOff rows cols y) (hy : ∀ r < rows, ∀ j < cols, y r j ≠ ⊤) :
    ∃ mem', normalizeAttentionTile (exactReals g) size mem rows cols dim areas false = (mem', true) ∧
      HoldsTable 4 g mem' areas.scoreOff rows cols (fun r j => (weight cutoff (high (y r) cols) (y r j) /
        ∑ i ∈ Finset.range cols, weight cutoff (high (y r) cols) (y r i) : ℝ)) ∧
      ∀ b, b < areas.scoreOff ∨ areas.scoreOff + 4 * (rows * cols) ≤ b → mem' b = mem b := by
  let y' r j : EReal := (weight cutoff (high (y r) cols) (y r j) /
    ∑ i ∈ Finset.range cols, weight cutoff (high (y r) cols) (y r i) : ℝ)
  let P (k : Nat) (s : (Nat → NumByte EReal) × Bool) : Prop := s.2 = true ∧
    HoldsTable 4 g s.1 areas.scoreOff rows cols (fun r j => if r < k then y' r j else y r j) ∧
    ∀ b, b < areas.scoreOff ∨ areas.scoreOff + 4 * (rows * cols) ≤ b → s.1 b = mem b
  have hrun : P rows (normalizeAttentionTile (exactReals g) size mem rows cols dim areas false) := by
    apply foldl_range_rec (P := P)
    · exact ⟨rfl, hscore.congr fun r _ j _ => (if_neg (Nat.not_lt_zero r)).symm, fun _ _ => rfl⟩
    · rintro k hk ⟨m, ok⟩ ⟨hok, htable, hframe⟩
      dsimp only at hok htable hframe ⊢
      have hrow := normalizeRow_whole hsize dim h hk
        (fun j hj => (htable k hk j hj).trans (if_neg (Nat.lt_irrefl k))) (hy k hk)
      have hrowScore : (k + 1) * cols ≤ rows * cols := Nat.mul_le_mul_right cols hk
      rw [Nat.succ_mul] at hrowScore
      rw [hok, if_pos rfl, hrow]
      refine ⟨rfl, htable.fill_row (by omega) y' hk, ?_⟩
      intro b hb
      dsimp only
      rw [fill_outside (by omega)]
      exact hframe b hb
  obtain ⟨hok, htable, hframe⟩ := hrun
  generalize normalizeAttentionTile (exactReals g) size mem rows cols dim areas false = s at *
  obtain ⟨mem', ok⟩ := s
  dsimp only at hok htable hframe
  subst hok
  exact ⟨mem', rfl, htable.congr fun r hr j _ => if_pos hr, hframe⟩

/-- The softmax engine on whole rows, each with a real score. -/
theorem tuSoftmaxExecute_whole {off : Nat} (h : off + 4 * (rows * cols) ≤ size) (hrows : 0 < rows) (hcols : 0 < cols)
    (hscore : HoldsTable 4 g mem off rows cols y) (hy : ∀ r < rows, ∀ j < cols, y r j ≠ ⊤)
    (hbot : ∀ r < rows, high (y r) cols ≠ ⊥) :
    ∃ mem', tuSoftmaxExecute (exactReals g) size mem
        { mode := .standard, dataOffset := off, elemCount := rows * cols, axisDim := cols, mask := none
          maskIsAdditive := false, maskFill := (exactReals g).zero, scale := (exactReals g).zero, inPlace := true
          outOffset := 0 } = some mem' ∧
      HoldsTable 4 g mem' off rows cols (fun r j => (weight cutoff (high (y r) cols) (y r j) /
        ∑ i ∈ Finset.range cols, weight cutoff (high (y r) cols) (y r i) : ℝ)) ∧
      ∀ b, b < off ∨ off + 4 * (rows * cols) ≤ b → mem' b = mem b := by
  have hpos : 0 < rows * cols := Nat.mul_pos hrows hcols
  have hvalid : tuSoftmaxValidateDesc size (F := EReal)
      { mode := .standard, dataOffset := off, elemCount := rows * cols, axisDim := cols, mask := none
        maskIsAdditive := false, maskFill := (exactReals g).zero, scale := (exactReals g).zero, inPlace := true
        outOffset := 0 } = true := by
    have hle : cols ≤ rows * cols := Nat.le_mul_of_pos_left cols hrows
    unfold tuSoftmaxValidateDesc
    dsimp only
    rw [u32_inside hsize _ 0 (by omega), Nat.mul_mod_left]
    simp only [bne_self_eq_false, Bool.and_false, Bool.not_false, Bool.true_or, Bool.and_true, Bool.and_eq_true, bne_iff_ne,
      Bool.not_eq_true', decide_eq_false_iff_not]
    omega
  unfold tuSoftmaxExecute
  dsimp only
  rw [hvalid, Bool.not_true, if_neg (by decide), if_neg (by omega), Nat.mul_div_cancel _ hcols, if_pos rfl,
    if_neg (by omega)]
  refine ⟨_, rfl, foldl_rows (by omega) hscore ?_⟩
  intro r hr mem' _ hload
  have hrow : (r + 1) * cols ≤ rows * cols := Nat.mul_le_mul_right cols hr
  rw [Nat.succ_mul] at hrow
  have hoff : u32 (off + r * cols * 4) = off + 4 * (r * cols) := by
    rw [u32_inside hsize _ 0 (by omega)]
    omega
  rw [hoff]
  refine softmaxSingleRow_exact hsize (by omega) hcols ?_ (hy r hr) (hbot r hr)
  intro j hj
  rw [Nat.add_assoc, ← Nat.mul_add]
  exact hload j hj

end Tusim.Attention
