import Tusim.Attention.Phases
import Tusim.Lib.StreamedSoftmax

/-!
# Rows in exact arithmetic

What the engines make of a row of scores, none of them `+∞`.  A score turns into its weight relative to the largest score
(`weightOf_exact`); a streamed row keeps that score, the sum of the weights and rescaled accumulators
(`normalizeRow_streaming`), a whole row is divided by its sum at once (`normalizeRow_whole`, `softmaxSingleRow_exact`).
-/

namespace Tusim.Attention

open NumberMemory StreamedSoftmax Word

/-- `-87.0f`, without its sign. -/
noncomputable def cutoff : ℝ := 87

theorem cutoff_nonneg : 0 ≤ cutoff := by norm_num [cutoff]

variable {g : EReal}

@[simp] theorem exactReals_garbage : (exactReals g).garbage = g := rfl

theorem exactReals_cutoff : (exactReals g).lit (-87) 0 = ((-cutoff : ℝ) : EReal) := by
  simp [exactReals, cutoff]

/-- A difference that is not below the cutoff is a real number. -/
theorem expReal_sub {h y : EReal} (hh : h ≠ ⊤) (hh' : h ≠ ⊥) (hy : y ≠ ⊤) (hlow : ¬ y - h < ((-cutoff : ℝ) : EReal)) :
    expReal (y - h) = (Real.exp (y - h).toReal : ℝ) := by
  lift h to ℝ using ⟨hh, hh'⟩
  induction y with
  | bot =>
    rw [EReal.bot_sub] at hlow
    exact absurd (EReal.bot_lt_coe _) hlow
  | coe y => rfl
  | top => exact absurd rfl hy

theorem weightOf_exact {h y : EReal} (hh : h ≠ ⊤) (hy : y ≠ ⊤) :
    weightOf (exactReals g) h y = (weight cutoff h y : ℝ) := by
  unfold weightOf weight
  rw [exactReals_cutoff, exactReals_zero]
  show (if (decide (h = ⊥) || decide (y - h < ((-cutoff : ℝ) : EReal))) = true then (0 : EReal) else expReal (y - h)) = _
  simp only [Bool.or_eq_true, decide_eq_true_eq]
  by_cases hlow : h = ⊥ ∨ y - h < ((-cutoff : ℝ) : EReal)
  · rw [if_pos hlow, if_pos hlow, EReal.coe_zero]
  · rw [if_neg hlow, if_neg hlow]
    rw [not_or] at hlow
    exact expReal_sub hh hlow.1 hy hlow.2

theorem clampedExp_exact {h y : EReal} (hh : h ≠ ⊤) (hh' : h ≠ ⊥) (hy : y ≠ ⊤) :
    clampedExp (exactReals g) ((exactReals g).sub y h) = (weight cutoff h y : ℝ) := by
  unfold clampedExp weight
  rw [exactReals_cutoff, exactReals_zero]
  show (if decide (y - h < ((-cutoff : ℝ) : EReal)) = true then (0 : EReal) else expReal (y - h)) = _
  simp only [decide_eq_true_eq, hh', false_or]
  by_cases hlow : y - h < ((-cutoff : ℝ) : EReal)
  · rw [if_pos hlow, if_pos hlow, EReal.coe_zero]
  · rw [if_neg hlow, if_neg hlow]
    exact expReal_sub hh hh' hy hlow

/-- The largest score of a row. -/
theorem rowMax_exact (y : Nat → EReal) (cols : Nat) : rowMax (exactReals g) ((List.range cols).map y) = high y cols := by
  unfold rowMax
  rw [List.foldl_map]
  induction cols with
  | zero => simp [high, exactReals]
  | succ n ih =>
    have hhigh : high y (n + 1) = max (high y n) (y n) := by
      unfold high
      rw [Finset.range_add_one, Finset.sup_insert, max_comm]
    rw [List.range_succ, List.foldl_append, ih, hhigh]
    show (if decide (high y n < y n) = true then y n else high y n) = _
    simp only [decide_eq_true_eq]
    rcases lt_or_ge (high y n) (y n) with hlt | hle
    · rw [if_pos hlt, max_eq_right hlt.le]
    · rw [if_neg (not_lt.2 hle), max_eq_left hle]

theorem weight_nonneg (h y : EReal) : 0 ≤ weight cutoff h y := by
  unfold weight
  split
  · exact le_refl 0
  · exact (Real.exp_pos _).le

/-- The largest score weighs one. -/
theorem weight_self {h : EReal} (hh : h ≠ ⊤) (hh' : h ≠ ⊥) : weight cutoff h h = 1 := by
  lift h to ℝ using ⟨hh, hh'⟩
  rw [weight_coe, sub_self, Real.exp_zero, if_neg (by linarith [cutoff_nonneg])]

theorem foldl_add_coe (f : Nat → ℝ) (n : Nat) :
    (List.range n).foldl (fun (s : EReal) j => s + (f j : EReal)) 0 = ((∑ j ∈ Finset.range n, f j : ℝ) : EReal) := by
  induction n with
  | zero => simp
  | succ n ih => rw [List.range_succ, List.foldl_append, ih, Finset.sum_range_succ, EReal.coe_add]; rfl

variable {size : Nat} (hsize : size < 2 ^ 32) {mem : Nat → NumByte EReal}
include hsize

/-- The largest of the scores and `hi`. -/
theorem scoreMax_exact {off cols : Nat} (h : off + 4 * cols ≤ size) {y : Nat → EReal}
    (hload : ∀ j < cols, load 4 g mem (off + 4 * j) = y j) (hy : ∀ j < cols, y j ≠ ⊤) (hi : EReal) :
    scoreMax (exactReals g) size mem off cols hi = some (max hi (high y cols)) := by
  unfold scoreMax
  induction cols with
  | zero => simp [high]
  | succ n ih =>
    rw [List.range_succ, List.foldlM_append, ih (by omega) (fun j hj => hload j (by omega)) fun j hj => hy j (by omega)]
    have hread : tuSramRead (exactReals g) size mem (u32 (off + n * 4)) (exactReals g).garbage = y n := by
      rw [u32_inside hsize _ 4 (by omega), tuSramRead_inside _ _ (by omega), Nat.mul_comm]
      exact hload n (Nat.lt_succ_self n)
    have htop : y n ≠ ⊤ := hy n (Nat.lt_succ_self n)
    have hhigh : high y (n + 1) = max (high y n) (y n) := by
      unfold high
      rw [Finset.range_add_one, Finset.sup_insert, max_comm]
    simp only [List.foldlM_cons, List.foldlM_nil, hread, hhigh]
    show (if (false || decide (y n = ⊤)) = true then none else some (max (max hi (high y n)) (y n))).bind some = _
    rw [if_neg (by simpa using htop), max_assoc]
    rfl

/-- The sum of the weights of a row, and the row of weights. -/
theorem weighRow_exact {off cols : Nat} (h : off + 4 * cols ≤ size) {y : Nat → EReal}
    (hload : ∀ j < cols, load 4 g mem (off + 4 * j) = y j) (hy : ∀ j < cols, y j ≠ ⊤) {hi : EReal} (hhi : hi ≠ ⊤) :
    weighRow (exactReals g) size mem off cols hi =
      (fill 4 mem off (fun j => (weight cutoff hi (y j) : ℝ)) cols,
        ((∑ j ∈ Finset.range cols, weight cutoff hi (y j) : ℝ) : EReal)) := by
  have hweight : ∀ j < cols, weightOf (exactReals g) hi (load 4 g mem (off + 4 * j)) = (weight cutoff hi (y j) : ℝ) := by
    intro j hj
    rw [hload j hj, weightOf_exact hhi (hy j hj)]
  rw [weighRow_eq hsize _ _ h]
  congr 1
  · exact fill_congr hweight
  · rw [exactReals_zero, ← foldl_add_coe]
    apply List.foldl_ext
    intro s j hj
    exact congrArg (s + ·) (hweight j (List.mem_range.1 hj))

omit hsize in
theorem high_ne_top {y : Nat → EReal} {c : Nat} (hy : ∀ j < c, y j ≠ ⊤) : high y c ≠ ⊤ := by
  unfold high
  rw [← lt_top_iff_ne_top, Finset.sup_lt_iff bot_lt_top]
  intro j hj
  exact lt_top_iff_ne_top.2 (hy j (Finset.mem_range.1 hj))

omit hsize in
/-- The factor by which earlier sums are rescaled. -/
theorem rescale_exact {h h' : EReal} {l : ℝ} (hh : h ≠ ⊤) (hl : l ≠ 0 → h ≠ ⊥) (hle : h ≤ h') (hh' : h' ≠ ⊤) :
    (if (exactReals g).eq (l : EReal) (exactReals g).zero then (exactReals g).zero
      else (exactReals g).expf ((exactReals g).sub h h')) =
        ((if l = 0 then 0 else Real.exp (h - h').toReal : ℝ) : EReal) := by
  rw [exactReals_zero]
  show (if decide ((l : EReal) = 0) = true then (0 : EReal) else expReal (h - h')) = _
  simp only [decide_eq_true_eq, EReal.coe_eq_zero]
  by_cases hzero : l = 0
  · rw [if_pos hzero, if_pos hzero, EReal.coe_zero]
  · have hbot : h' ≠ ⊥ := fun h0 => hl hzero (le_bot_iff.1 (h0 ▸ hle))
    rw [if_neg hzero, if_neg hzero]
    lift h to ℝ using ⟨hh, hl hzero⟩
    lift h' to ℝ using ⟨hh', hbot⟩
    rfl

/-- The areas of `rows` rows of `cols` scores and `dim` accumulators do not meet. -/
structure TileAreas.Apart (areas : TileAreas) (size rows cols dim : Nat) : Prop where
  score : areas.scoreOff + 4 * (rows * cols) ≤ areas.outputOff
  output : areas.outputOff + 4 * (rows * dim) ≤ areas.maxOff
  max : areas.maxOff + 4 * rows ≤ areas.sumOff
  sum : areas.sumOff + 4 * rows ≤ size

section

variable {areas : TileAreas} {rows cols dim r : Nat} {y : Nat → EReal}

/-- A row of a tile is streamed: weights in place of its scores, the new largest score and sum, and rescaled
accumulators. -/
theorem normalizeRow_streaming (hapart : areas.Apart size rows cols dim) (hr : r < rows)
    (hscore : ∀ j < cols, load 4 g mem (areas.scoreOff + 4 * (r * cols + j)) = y j) (hy : ∀ j < cols, y j ≠ ⊤)
    {h : EReal} {l : ℝ} {o : Nat → ℝ} (hmax : load 4 g mem (areas.maxOff + 4 * r) = h) (hh : h ≠ ⊤)
    (hsum : load 4 g mem (areas.sumOff + 4 * r) = l) (hl : l ≠ 0 → h ≠ ⊥)
    (hout : ∀ a < dim, load 4 g mem (areas.outputOff + 4 * (r * dim + a)) = o a) :
    let h' := max h (high y cols)
    let alpha : ℝ := if l = 0 then 0 else Real.exp (h - h').toReal
    normalizeRow (exactReals g) size cols dim areas true mem r = some
      (fill 4 (fill 4 (fill 4 (fill 4 mem (areas.scoreOff + 4 * (r * cols)) (fun j => (weight cutoff h' (y j) : ℝ)) cols)
        (areas.maxOff + 4 * (r * 1)) (fun _ => h') 1)
        (areas.sumOff + 4 * (r * 1)) (fun _ => (alpha * l + ∑ j ∈ Finset.range cols, weight cutoff h' (y j) : ℝ)) 1)
        (areas.outputOff + 4 * (r * dim)) (fun a => (o a * alpha : ℝ)) dim) := by
  obtain ⟨hscoreEnd, houtputEnd, hmaxEnd, hsumEnd⟩ := hapart
  have hrowScore : (r + 1) * cols ≤ rows * cols := Nat.mul_le_mul_right cols hr
  have hrowOut : (r + 1) * dim ≤ rows * dim := Nat.mul_le_mul_right dim hr
  rw [Nat.succ_mul] at hrowScore hrowOut
  have hh' : max h (high y cols) ≠ ⊤ := by
    rw [← lt_top_iff_ne_top, max_lt_iff]
    exact ⟨lt_top_iff_ne_top.2 hh, lt_top_iff_ne_top.2 (high_ne_top hy)⟩
  have hload : ∀ j < cols, load 4 g mem (areas.scoreOff + r * cols * 4 + 4 * j) = y j := by
    intro j hj
    rw [← hscore j hj]
    congr 1
    omega
  have hoff : areas.scoreOff + r * cols * 4 = areas.scoreOff + 4 * (r * cols) := by omega
  have houtOff : areas.outputOff + r * dim * 4 = areas.outputOff + 4 * (r * dim) := by omega
  have hone : ∀ (m : Nat → NumByte EReal) (a : Nat) (v : EReal), store 4 m a v = fill 4 m a (fun _ => v) 1 :=
    fun _ _ _ => rfl
  have hrest : ∀ (v : Nat → EReal) (v' v'' : EReal), ∀ a < dim,
      load 4 g (store 4 (store 4 (fill 4 mem (areas.scoreOff + 4 * (r * cols)) v cols) (areas.maxOff + 4 * r) v')
        (areas.sumOff + 4 * r) v'') (areas.outputOff + 4 * (r * dim) + 4 * a) = o a := by
    intro v v' v'' a ha
    rw [load_store_ne (by omega) (by omega), load_store_ne (by omega) (by omega), load_fill_ne (by omega) (by omega),
      Nat.add_assoc, ← Nat.mul_add]
    exact hout a ha
  unfold normalizeRow
  dsimp only
  rw [if_pos rfl, if_pos rfl, u32_inside hsize (areas.maxOff + r * 4) 4 (by omega),
    u32_inside hsize (areas.sumOff + r * 4) 4 (by omega), tuSramRead_inside _ _ (by omega),
    tuSramRead_inside _ _ (by omega), Nat.mul_comm r 4]
  simp only [exactReals_garbage, hmax, hsum]
  rw [scoreMax_exact hsize (by omega) hload hy, Option.map_some, rescale_exact hh hl (le_max_left _ _) hh',
    weighRow_exact hsize (by omega) hload hy hh', hoff]
  dsimp only
  rw [if_pos trivial, tuSramWrite_inside _ (by omega), tuSramWrite_inside _ (by omega), sramUpdate_eq hsize _ _ (by omega),
    houtOff, Nat.mul_one, ← hone, ← hone, EReal.coe_add, EReal.coe_mul]
  apply congrArg some
  apply fill_congr
  intro a ha
  rw [exactReals_garbage, hrest _ _ _ a ha, EReal.coe_mul]
  rfl

/-- A whole row is replaced by its weights, divided by their sum. -/
theorem normalizeRow_whole (dim : Nat) (h : areas.scoreOff + 4 * (rows * cols) ≤ size) (hr : r < rows)
    (hscore : ∀ j < cols, load 4 g mem (areas.scoreOff + 4 * (r * cols + j)) = y j) (hy : ∀ j < cols, y j ≠ ⊤) :
    normalizeRow (exactReals g) size cols dim areas false mem r = some
      (fill 4 mem (areas.scoreOff + 4 * (r * cols)) (fun j => (weight cutoff (high y cols) (y j) /
        ∑ i ∈ Finset.range cols, weight cutoff (high y cols) (y i) : ℝ)) cols) := by
  have hrowScore : (r + 1) * cols ≤ rows * cols := Nat.mul_le_mul_right cols hr
  rw [Nat.succ_mul] at hrowScore
  have hload : ∀ j < cols, load 4 g mem (areas.scoreOff + r * cols * 4 + 4 * j) = y j := by
    intro j hj
    rw [← hscore j hj]
    congr 1
    omega
  have hoff : areas.scoreOff + r * cols * 4 = areas.scoreOff + 4 * (r * cols) := by omega
  have hmax : max ⊥ (high y cols) = high y cols := max_eq_right bot_le
  unfold normalizeRow
  dsimp only
  show Option.map _ (scoreMax _ _ _ _ _ ⊥) = _
  rw [scoreMax_exact hsize (by omega) hload hy, hmax, Option.map_some,
    weighRow_exact hsize (by omega) hload hy (high_ne_top hy), hoff]
  dsimp only
  rw [if_neg (by simp), sramUpdate_eq hsize _ _ (by omega), fill_fill (by omega)]
  apply congrArg some
  apply fill_congr
  intro j hj
  rw [exactReals_garbage, load_fill (by omega) hj, exactReals_zero]
  generalize ∑ i ∈ Finset.range cols, weight cutoff (high y cols) (y i) = total
  show (if decide ((total : EReal) = 0) = true then (0 : EReal) else _ / (total : EReal)) = _
  simp only [decide_eq_true_eq, EReal.coe_eq_zero]
  by_cases hzero : total = 0
  · rw [if_pos hzero, hzero, div_zero, EReal.coe_zero]
  · rw [if_neg hzero, EReal.coe_div]

omit hsize in
/-- The weights of a row with a real score add up to something. -/
theorem sum_weight_pos (hy : ∀ j < cols, y j ≠ ⊤) (hbot : high y cols ≠ ⊥) :
    0 < ∑ j ∈ Finset.range cols, weight cutoff (high y cols) (y j) := by
  have hne : (Finset.range cols).Nonempty := by
    rw [Finset.nonempty_iff_ne_empty]
    intro hempty
    apply hbot
    unfold high
    rw [hempty, Finset.sup_empty]
  obtain ⟨u, hu, hsup⟩ := Finset.exists_mem_eq_sup (Finset.range cols) hne y
  apply Finset.sum_pos' fun j _ => weight_nonneg _ _
  refine ⟨u, hu, ?_⟩
  have hself := weight_self (high_ne_top hy) hbot
  rw [show y u = high y cols from hsup.symm, hself]
  exact one_pos

/-- The numbers of a row are read. -/
theorem sramLoadFloats_exact {off : Nat} (h : off + 4 * cols ≤ size) (hload : ∀ j < cols, load 4 g mem (off + 4 * j) = y j) :
    sramLoadFloats (exactReals g) size mem off cols = (List.range cols).map y := by
  apply List.map_congr_left
  intro j hj
  rw [List.mem_range] at hj
  rw [u32_inside hsize _ 4 (by omega), tuSramRead_inside _ _ (by omega), Nat.mul_comm j 4]
  exact hload j hj

/-- The numbers of a row are written. -/
theorem sramStoreFloats_exact {off : Nat} (h : off + 4 * cols ≤ size) (y : Nat → EReal) :
    sramStoreFloats (exactReals g) size mem off ((List.range cols).map y) = fill 4 mem off y cols := by
  unfold sramStoreFloats
  rw [List.length_map, List.length_range]
  apply foldl_eq_fill'
  intro j hj
  rw [u32_inside hsize _ 4 (by omega), tuSramWrite_inside _ (by omega), Nat.mul_comm j 4]
  congr 1
  rw [List.getD_eq_getElem?_getD, List.getElem?_map, List.getElem?_range hj]
  rfl

/-- The softmax engine does the same to a row with a real score. -/
theorem softmaxSingleRow_exact {off : Nat} (h : off + 4 * cols ≤ size) (hcols : 0 < cols)
    (hload : ∀ j < cols, load 4 g mem (off + 4 * j) = y j) (hy : ∀ j < cols, y j ≠ ⊤) (hbot : high y cols ≠ ⊥) :
    softmaxSingleRow (exactReals g) size mem off off cols (exactReals g).zero .standard none false (exactReals g).zero =
      fill 4 mem off (fun j => (weight cutoff (high y cols) (y j) /
        ∑ i ∈ Finset.range cols, weight cutoff (high y cols) (y i) : ℝ)) cols := by
  have hpos := sum_weight_pos hy hbot
  have hrow := sramLoadFloats_exact hsize h hload
  have hrow' : (List.range cols).map y ≠ [] := by
    rw [Ne, List.map_eq_nil_iff, List.range_eq_nil]
    omega
  have hweights : ((List.range cols).map y).map (fun x => clampedExp (exactReals g) ((exactReals g).sub x (high y cols))) =
      (List.range cols).map fun j => ((weight cutoff (high y cols) (y j) : ℝ) : EReal) := by
    rw [List.map_map]
    apply List.map_congr_left
    intro j hj
    exact clampedExp_exact (high_ne_top hy) hbot (hy j (List.mem_range.1 hj))
  have hsum : ((List.range cols).map fun j => ((weight cutoff (high y cols) (y j) : ℝ) : EReal)).foldl (exactReals g).add
      (exactReals g).zero = ((∑ j ∈ Finset.range cols, weight cutoff (high y cols) (y j) : ℝ) : EReal) := by
    rw [List.foldl_map, exactReals_zero]
    exact foldl_add_coe _ cols
  have hzero : (exactReals g).eq (exactReals g).zero (exactReals g).zero = true := decide_eq_true rfl
  unfold softmaxSingleRow
  dsimp only
  rw [if_neg (by omega), hrow, hzero, Bool.not_true, if_neg (by decide), if_neg (by decide)]
  have hscale : scaleRow (exactReals g) (exactReals g).zero ((List.range cols).map y) = (List.range cols).map y := by
    unfold scaleRow
    rw [hzero, Bool.not_true, if_neg (by decide)]
  unfold softmaxRowTwoPass
  rw [if_neg hrow']
  dsimp only
  rw [hscale, rowMax_exact, hweights, hsum]
  generalize htotal : ∑ j ∈ Finset.range cols, weight cutoff (high y cols) (y j) = total at hpos ⊢
  have hne : ¬ (exactReals g).eq (total : EReal) (exactReals g).zero = true := by
    rw [exactReals_zero]
    show ¬ decide ((total : EReal) = 0) = true
    simp [hpos.ne']
  rw [if_neg hne, if_neg (by decide)]
  rw [List.map_map, sramStoreFloats_exact hsize h]
  apply fill_congr
  intro j _
  show (weight cutoff (high y cols) (y j) : EReal) * ((exactReals g).one / (total : EReal)) = _
  rw [exactReals_one, ← EReal.coe_one, ← EReal.coe_div, ← EReal.coe_mul, mul_one_div]

end

end Tusim.Attention
