import Mathlib.Algebra.BigOperators.Ring.List
import Tusim.Attention.Rows

/-!
# The two softmax algorithms on a row of real numbers

In exact arithmetic the streaming pass keeps the largest number so far and the sum of the exponentials relative to it
(`onlinePass_exact`), which the two passes compute one after the other (`rowMax_coe`, `weighted_sum`).  Both leave out an
exponential below `exp (-87)`, but only the two passes also leave it out of the sum.
-/

namespace Tusim.Attention

open StreamedSoftmax

/-- A row of real numbers. -/
def realRow (row : List ℝ) : List EReal := row.map Real.toEReal

/-- The row whose softmax is computed; a scale of zero stands for none. -/
noncomputable def scaledBy (scale : ℝ) (row : List ℝ) : List ℝ := if scale = 0 then row else row.map fun x => x * scale

/-- `Σ exp(x_j - max)` -/
noncomputable def expSum (max : ℝ) (row : List ℝ) : ℝ := (row.map fun x => Real.exp (x - max)).sum

/-- The numbers of a row lie within 87 of one another. -/
def Near (row : List ℝ) : Prop := ∀ x ∈ row, ∀ y ∈ row, x ≤ y + cutoff

variable {g : EReal}

theorem scaledBy_ne_nil {row : List ℝ} (hrow : row ≠ []) (scale : ℝ) : scaledBy scale row ≠ [] := by
  unfold scaledBy
  split
  · exact hrow
  · simpa using hrow

theorem realRow_ne_nil {row : List ℝ} (hrow : row ≠ []) : realRow row ≠ [] := by
  simpa [realRow] using hrow

theorem scaleRow_coe (scale : ℝ) (row : List ℝ) :
    scaleRow (exactReals g) (scale : EReal) (realRow row) = realRow (scaledBy scale row) := by
  have heq : (exactReals g).eq (scale : EReal) (exactReals g).zero = decide (scale = 0) := by
    rw [exactReals_zero]
    show decide ((scale : EReal) = 0) = _
    rw [decide_eq_decide, EReal.coe_eq_zero]
  unfold scaleRow scaledBy realRow
  rw [heq]
  by_cases hzero : scale = 0
  · simp [hzero]
  · rw [if_neg hzero, decide_eq_false hzero, Bool.not_false, if_pos rfl, List.map_map, List.map_map]
    rfl

/-! ### The streaming pass -/

theorem expSum_append (m x : ℝ) (row : List ℝ) : expSum m (row ++ [x]) = expSum m row + Real.exp (x - m) := by
  simp [expSum]

/-- The sum of a row relative to another largest number. -/
theorem expSum_rescale (m m' : ℝ) (row : List ℝ) : expSum m' row = expSum m row * Real.exp (m - m') := by
  unfold expSum
  rw [← List.sum_map_mul_right]
  congr 1
  apply List.map_congr_left
  intro x _
  rw [← Real.exp_add, sub_add_sub_cancel]

/-- One element keeps the largest number and the sum relative to it. -/
theorem onlineStep_coe (m s x : ℝ) :
    onlineStep (exactReals g) ((m : EReal), (s : EReal)) (x : EReal) =
      if m < x then ((x : EReal), ((s * Real.exp (m - x) + 1 : ℝ) : EReal))
      else ((m : EReal), ((s + Real.exp (x - m) : ℝ) : EReal)) := by
  have hbot : (exactReals g).eq (m : EReal) (exactReals g).negInfinity = false := by
    show decide ((m : EReal) = ⊥) = false
    simp
  unfold onlineStep
  dsimp only
  rw [hbot, if_neg Bool.false_ne_true, exactReals_one]
  show (if decide ((m : EReal) < (x : EReal)) = true then
      ((x : EReal), (s : EReal) * expReal ((m : EReal) - (x : EReal)) + 1)
    else ((m : EReal), (s : EReal) + expReal ((x : EReal) - (m : EReal)))) = _
  simp only [decide_eq_true_eq, EReal.coe_lt_coe_iff]
  by_cases hlt : m < x
  · rw [if_pos hlt, if_pos hlt]
    norm_cast
  · rw [if_neg hlt, if_neg hlt]
    norm_cast

theorem onlineStep_first (x : ℝ) :
    onlineStep (exactReals g) ((exactReals g).negInfinity, (exactReals g).zero) (x : EReal) = ((x : EReal), 1) := by
  unfold onlineStep
  dsimp only
  rw [exactReals_zero, exactReals_one]
  show (if decide ((⊥ : EReal) < (x : EReal)) = true then
      ((x : EReal), (0 : EReal) * (if decide ((⊥ : EReal) = ⊥) = true then 1 else _) + 1) else _) = _
  rw [if_pos (decide_eq_true (EReal.bot_lt_coe x)), zero_mul, zero_add]

/-- After a non-empty row the pass holds its largest number and the sum of the exponentials relative to it. -/
theorem onlinePass_exact {row : List ℝ} (hrow : row ≠ []) :
    ∃ m, IsGreatest {x | x ∈ row} m ∧
      (realRow row).foldl (onlineStep (exactReals g)) ((exactReals g).negInfinity, (exactReals g).zero) =
        ((m : EReal), (expSum m row : EReal)) := by
  induction row using List.reverseRecOn with
  | nil => exact absurd rfl hrow
  | append_singleton row x ih =>
    unfold realRow at ih ⊢
    rw [List.map_append, List.foldl_append]
    rcases eq_or_ne row [] with rfl | hne
    · refine ⟨x, by simp, ?_⟩
      show onlineStep (exactReals g) ((exactReals g).negInfinity, (exactReals g).zero) (x : EReal) = _
      rw [onlineStep_first]
      simp [expSum]
    · obtain ⟨m, hm, hfold⟩ := ih hne
      rw [hfold]
      show ∃ m', _ ∧ onlineStep (exactReals g) ((m : EReal), (expSum m row : EReal)) (x : EReal) = _
      rw [onlineStep_coe]
      by_cases hlt : m < x
      · -- a new largest number
        refine ⟨x, ⟨by simp, ?_⟩, ?_⟩
        · intro y hy
          rcases List.mem_append.1 hy with hmem | hmem
          · exact (hm.2 hmem).trans hlt.le
          · exact (List.mem_singleton.1 hmem).le
        · rw [if_pos hlt, expSum_append, expSum_rescale m x, sub_self, Real.exp_zero]
      · refine ⟨m, ⟨by simp [hm.1.out], ?_⟩, ?_⟩
        · intro y hy
          rcases List.mem_append.1 hy with hmem | hmem
          · exact hm.2 hmem
          · rw [List.mem_singleton.1 hmem]
            exact not_lt.1 hlt
        · rw [if_neg hlt, expSum_append]

/-! ### The two passes -/

/-- The larger of two numbers, as `rowMax` takes it. -/
theorem ite_lt_eq_max (a x : EReal) : (if (exactReals g).lt a x then x else a) = max a x := by
  show (if decide (a < x) = true then x else a) = _
  simp only [decide_eq_true_eq]
  rcases lt_or_ge a x with hlt | hle
  · rw [if_pos hlt, max_eq_right hlt.le]
  · rw [if_neg (not_lt.2 hle), max_eq_left hle]

theorem rowMax_append (row : List EReal) (x : EReal) :
    rowMax (exactReals g) (row ++ [x]) = max (rowMax (exactReals g) row) x := by
  unfold rowMax
  rw [List.foldl_append]
  exact ite_lt_eq_max _ x

/-- The largest number of a row is found. -/
theorem rowMax_coe {row : List ℝ} {m : ℝ} (hm : IsGreatest {x | x ∈ row} m) :
    rowMax (exactReals g) (realRow row) = (m : EReal) := by
  have hbound : ∀ (row : List EReal) (b : EReal), (∀ x ∈ row, x ≤ b) → rowMax (exactReals g) row ≤ b := by
    intro row b hrow
    induction row using List.reverseRecOn with
    | nil => exact bot_le
    | append_singleton row x ih =>
      rw [rowMax_append]
      exact max_le (ih fun y hy => hrow y (List.mem_append_left _ hy)) (hrow x (by simp))
  have hle : ∀ (row : List EReal), ∀ x ∈ row, x ≤ rowMax (exactReals g) row := by
    intro row
    induction row using List.reverseRecOn with
    | nil => simp
    | append_singleton row x ih =>
      intro y hy
      rw [rowMax_append]
      rcases List.mem_append.1 hy with hmem | hmem
      · exact (ih y hmem).trans (le_max_left _ _)
      · rw [List.mem_singleton.1 hmem]
        exact le_max_right _ _
  apply le_antisymm
  · apply hbound
    intro x hx
    obtain ⟨y, hy, rfl⟩ := List.mem_map.1 hx
    exact EReal.coe_le_coe_iff.2 (hm.2 hy)
  · exact hle _ _ (List.mem_map.2 ⟨m, hm.1, rfl⟩)

theorem sum_coe (row : List ℝ) :
    (realRow row).foldl (exactReals g).add (exactReals g).zero = (row.sum : EReal) := by
  rw [exactReals_zero]
  induction row using List.reverseRecOn with
  | nil => simp [realRow]
  | append_singleton row x ih =>
    unfold realRow at ih ⊢
    rw [List.map_append, List.foldl_append, ih, List.sum_append, List.sum_singleton, EReal.coe_add]
    rfl

theorem le_sum_of_mem {row : List ℝ} {f : ℝ → ℝ} (hf : ∀ x, 0 ≤ f x) {m : ℝ} (hm : m ∈ row) :
    f m ≤ (row.map f).sum := by
  apply List.single_le_sum
  · intro y hy
    obtain ⟨x, -, rfl⟩ := List.mem_map.1 hy
    exact hf x
  · exact List.mem_map.2 ⟨m, hm, rfl⟩

/-- The exponential of a number of the row relative to the largest one, or zero if it is too small. -/
noncomputable def rowWeight (m x : ℝ) : ℝ := if x - m < -cutoff then 0 else Real.exp (x - m)

theorem rowWeight_nonneg (m x : ℝ) : 0 ≤ rowWeight m x := by
  unfold rowWeight
  split
  · exact le_refl 0
  · exact (Real.exp_pos _).le

theorem rowWeight_self (m : ℝ) : rowWeight m m = 1 := by
  unfold rowWeight
  rw [sub_self, Real.exp_zero, if_neg (by linarith [cutoff_nonneg])]

theorem clampedExp_coe (m x : ℝ) :
    clampedExp (exactReals g) ((exactReals g).sub (x : EReal) (m : EReal)) = (rowWeight m x : EReal) := by
  rw [clampedExp_exact (EReal.coe_ne_top m) (EReal.coe_ne_bot m) (EReal.coe_ne_top x), weight_coe]
  rfl

/-- The sum of the weights of a row is at least one. -/
theorem sum_weights_pos {row : List ℝ} {m : ℝ} (hm : m ∈ row) :
    0 < (row.map (rowWeight m)).sum := by
  have hle := le_sum_of_mem (rowWeight_nonneg m) hm
  rw [rowWeight_self] at hle
  exact one_pos.trans_le hle

theorem expSum_pos {row : List ℝ} {m : ℝ} (hm : m ∈ row) : 0 < expSum m row := by
  have hle := le_sum_of_mem (fun x => (Real.exp_pos (x - m)).le) hm
  exact (Real.exp_pos _).trans_le hle

/-- What the two passes write for a number of the row. -/
noncomputable def twoPassOutput (mode : TuSoftmaxMode) (m s x : ℝ) : ℝ :=
  if mode = .log then (if 0 < rowWeight m x then Real.log (rowWeight m x) else -88.7228) - Real.log s
  else rowWeight m x * (1 / s)

theorem softmaxRowTwoPass_coe {row : List ℝ} (hrow : row ≠ []) (scale : ℝ) {m : ℝ}
    (hm : IsGreatest {x | x ∈ scaledBy scale row} m) (mode : TuSoftmaxMode) {s : ℝ}
    (hs : ((scaledBy scale row).map (rowWeight m)).sum = s) :
    softmaxRowTwoPass (exactReals g) (realRow row) (scale : EReal) mode =
      { row := realRow ((scaledBy scale row).map (twoPassOutput mode m s)), maxOut := (m : EReal), sumOut := (s : EReal) } := by
  have hpos : 0 < s := hs ▸ sum_weights_pos hm.1
  have hweights : (realRow (scaledBy scale row)).map (fun x => clampedExp (exactReals g) ((exactReals g).sub x (m : EReal))) =
      realRow ((scaledBy scale row).map (rowWeight m)) := by
    unfold realRow
    rw [List.map_map, List.map_map]
    apply List.map_congr_left
    intro x _
    exact clampedExp_coe m x
  have hzero : ¬ (exactReals g).eq (s : EReal) (exactReals g).zero = true := by
    rw [exactReals_zero]
    show ¬ decide ((s : EReal) = 0) = true
    simp [hpos.ne']
  have hlow : (exactReals g).lit (-887228) 4 = ((-88.7228 : ℝ) : EReal) := by
    show (((-887228 : ℤ) / 10 ^ 4 : ℝ) : EReal) = _
    norm_num
  have hinv : (exactReals g).div (exactReals g).one (s : EReal) = ((1 / s : ℝ) : EReal) := by
    rw [exactReals_one, EReal.coe_div, EReal.coe_one]
    rfl
  unfold softmaxRowTwoPass
  rw [if_neg (realRow_ne_nil hrow)]
  dsimp only
  rw [scaleRow_coe, rowMax_coe hm, hweights, sum_coe, hs, if_neg hzero]
  congr 1
  by_cases hlog : mode = .log
  · rw [if_pos hlog]
    unfold realRow
    rw [List.map_map, List.map_map, List.map_map]
    apply List.map_congr_left
    intro x _
    rw [Function.comp_apply, Function.comp_apply, Function.comp_apply, twoPassOutput, if_pos hlog, hlow, exactReals_zero]
    generalize rowWeight m x = w
    show (if decide ((0 : EReal) < (w : EReal)) = true then ((Real.log w : ℝ) : EReal) else ((-88.7228 : ℝ) : EReal)) -
      ((Real.log s : ℝ) : EReal) = _
    simp only [decide_eq_true_eq, EReal.coe_pos]
    split <;> exact (EReal.coe_sub _ _).symm
  · rw [if_neg hlog, hinv]
    unfold realRow
    rw [List.map_map, List.map_map, List.map_map]
    apply List.map_congr_left
    intro x _
    rw [Function.comp_apply, Function.comp_apply, Function.comp_apply, twoPassOutput, if_neg hlog]
    exact (EReal.coe_mul _ _).symm

/-- What the streaming algorithm writes for a number of the row. -/
noncomputable def onlineOutput (mode : TuSoftmaxMode) (m s x : ℝ) : ℝ :=
  if mode = .log then x - m - Real.log s else if x - m < -cutoff then 0 else Real.exp (x - m) * (1 / s)

theorem softmaxRowOnline_coe {row : List ℝ} (hrow : row ≠ []) (scale : ℝ) {m : ℝ}
    (hm : IsGreatest {x | x ∈ scaledBy scale row} m) (mode : TuSoftmaxMode) :
    softmaxRowOnline (exactReals g) (realRow row) (scale : EReal) mode =
      { row := realRow ((scaledBy scale row).map (onlineOutput mode m (expSum m (scaledBy scale row)))),
        maxOut := (m : EReal), sumOut := (expSum m (scaledBy scale row) : EReal) } := by
  obtain ⟨m', hm', hpass⟩ := onlinePass_exact (g := g) (scaledBy_ne_nil hrow scale)
  have hpos := expSum_pos hm.1
  generalize hs : expSum m (scaledBy scale row) = s at hpos ⊢
  rw [hm'.unique hm, hs] at hpass
  have hsum : (exactReals g).lt (exactReals g).zero (s : EReal) = true := by
    rw [exactReals_zero]
    exact decide_eq_true (EReal.coe_pos.2 hpos)
  have hinv : (exactReals g).div (exactReals g).one (s : EReal) = ((1 / s : ℝ) : EReal) := by
    rw [exactReals_one, EReal.coe_div, EReal.coe_one]
    rfl
  unfold softmaxRowOnline
  rw [if_neg (realRow_ne_nil hrow)]
  dsimp only
  rw [scaleRow_coe, hpass]
  dsimp only
  rw [hsum, if_pos rfl, hinv]
  congr 1
  unfold realRow
  by_cases hlog : mode = .log
  · rw [if_pos hlog, List.map_map, List.map_map]
    apply List.map_congr_left
    intro x _
    rw [Function.comp_apply, Function.comp_apply, onlineOutput, if_pos hlog, EReal.coe_sub, EReal.coe_sub]
    rfl
  · rw [if_neg hlog, List.map_map, List.map_map]
    apply List.map_congr_left
    intro x _
    rw [Function.comp_apply, Function.comp_apply, onlineOutput, if_neg hlog, exactReals_cutoff, exactReals_zero]
    show (if decide ((x : EReal) - (m : EReal) < ((-cutoff : ℝ) : EReal)) = true then (0 : EReal) else
      expReal ((x : EReal) - (m : EReal)) * ((1 / s : ℝ) : EReal)) = _
    rw [← EReal.coe_sub]
    simp only [decide_eq_true_eq, EReal.coe_lt_coe_iff]
    by_cases hlow : x - m < -cutoff
    · rw [if_pos hlow, if_pos hlow, EReal.coe_zero]
    · rw [if_neg hlow, if_neg hlow, EReal.coe_mul]
      rfl

/-! ### Rows of near numbers -/

theorem Near.below {row : List ℝ} (hnear : Near row) {m : ℝ} (hm : m ∈ row) {x : ℝ} (hx : x ∈ row) : ¬ x - m < -cutoff := by
  have hle := hnear m hm x hx
  linarith

/-- In such a row no exponential is left out. -/
theorem Near.rowWeight_eq {row : List ℝ} (hnear : Near row) {m : ℝ} (hm : m ∈ row) {x : ℝ} (hx : x ∈ row) :
    rowWeight m x = Real.exp (x - m) := if_neg (hnear.below hm hx)

theorem Near.sum_weights {row : List ℝ} (hnear : Near row) {m : ℝ} (hm : m ∈ row) :
    (row.map (rowWeight m)).sum = expSum m row := by
  unfold expSum
  congr 1
  apply List.map_congr_left
  intro x hx
  exact hnear.rowWeight_eq hm hx

theorem Near.twoPassOutput_eq {row : List ℝ} (hnear : Near row) {m : ℝ} (hm : m ∈ row) (s : ℝ) {x : ℝ} (hx : x ∈ row)
    (mode : TuSoftmaxMode) : twoPassOutput mode m s x = onlineOutput mode m s x := by
  unfold twoPassOutput onlineOutput
  rw [hnear.rowWeight_eq hm hx, if_neg (hnear.below hm hx), if_pos (Real.exp_pos _), Real.log_exp]

/-- The outputs add up to one, as shares of the sum. -/
theorem sum_div_expSum {row : List ℝ} {m : ℝ} (hm : m ∈ row) :
    (row.map fun x => Real.exp (x - m) / expSum m row).sum = 1 := by
  have hpos := expSum_pos hm
  simp only [div_eq_mul_inv]
  rw [List.sum_map_mul_right]
  exact mul_inv_cancel₀ hpos.ne'

/-- On a row whose scaled numbers lie within 87 of one another the streaming pass holds the sum of the exponentials after
each number, and both algorithms report the same maximum and sum and write the same softmax. -/
theorem softmaxRowOnline_twoPass {row : List ℝ} (hrow : row ≠ []) (scale : ℝ) (hnear : Near (scaledBy scale row)) :
    (∀ k < row.length, ∃ m, IsGreatest {x | x ∈ (scaledBy scale row).take (k + 1)} m ∧
      ((scaleRow (exactReals g) (scale : EReal) (realRow row)).take (k + 1)).foldl (onlineStep (exactReals g))
        ((exactReals g).negInfinity, (exactReals g).zero) =
          ((m : EReal), (expSum m ((scaledBy scale row).take (k + 1)) : EReal))) ∧
    ∃ m, IsGreatest {x | x ∈ scaledBy scale row} m ∧
      ∃ out : List ℝ, out = (scaledBy scale row).map (fun x => Real.exp (x - m) / expSum m (scaledBy scale row)) ∧
        (∀ y ∈ out, 0 < y) ∧ out.sum = 1 ∧
        ∀ mode, softmaxRowOnline (exactReals g) (realRow row) (scale : EReal) mode =
            softmaxRowTwoPass (exactReals g) (realRow row) (scale : EReal) mode ∧
          (softmaxRowOnline (exactReals g) (realRow row) (scale : EReal) mode).maxOut = (m : EReal) ∧
          (softmaxRowOnline (exactReals g) (realRow row) (scale : EReal) mode).sumOut =
            (expSum m (scaledBy scale row) : EReal) ∧
          (mode ≠ .log →
            (softmaxRowOnline (exactReals g) (realRow row) (scale : EReal) mode).row = realRow out) := by
  have hlength : (scaledBy scale row).length = row.length := by
    unfold scaledBy
    split
    · rfl
    · exact List.length_map _
  constructor
  · intro k hk
    have hne : (scaledBy scale row).take (k + 1) ≠ [] := by
      rw [← List.length_pos_iff_ne_nil, List.length_take]
      omega
    obtain ⟨m, hm, hpass⟩ := onlinePass_exact (g := g) hne
    refine ⟨m, hm, ?_⟩
    rw [scaleRow_coe]
    unfold realRow at hpass ⊢
    rw [← List.map_take]
    exact hpass
  · obtain ⟨m, hm, -⟩ := onlinePass_exact (g := g) (scaledBy_ne_nil hrow scale)
    have hpos := expSum_pos hm.1
    refine ⟨m, hm, _, rfl, ?_, sum_div_expSum hm.1, ?_⟩
    · intro y hy
      obtain ⟨x, -, rfl⟩ := List.mem_map.1 hy
      exact div_pos (Real.exp_pos _) hpos
    · intro mode
      rw [softmaxRowOnline_coe hrow scale hm, softmaxRowTwoPass_coe hrow scale hm mode (hnear.sum_weights hm.1)]
      refine ⟨?_, rfl, rfl, ?_⟩
      · congr 2
        apply List.map_congr_left
        intro x hx
        exact (hnear.twoPassOutput_eq hm.1 _ hx mode).symm
      · intro hlog
        show realRow _ = realRow _
        congr 1
        apply List.map_congr_left
        intro x hx
        unfold onlineOutput
        rw [if_neg hlog, if_neg (hnear.below hm.1 hx), mul_one_div]

/-- A row whose largest number comes twice, scaled by two. -/
theorem softmaxRowOnline_twoPass_repeated :
    Near (scaledBy 2 [3, 0, 3]) ∧
    ∀ mode, softmaxRowOnline (exactReals 0) (realRow [3, 0, 3]) ((2 : ℝ) : EReal) mode =
      softmaxRowTwoPass (exactReals 0) (realRow [3, 0, 3]) ((2 : ℝ) : EReal) mode := by
  have hnear : Near (scaledBy 2 [3, 0, 3]) := by
    intro x hx y hy
    have hrow : scaledBy 2 [3, 0, 3] = [6, 0, 6] := by norm_num [scaledBy]
    rw [hrow] at hx hy
    simp only [List.mem_cons, List.not_mem_nil, or_false] at hx hy
    rcases hx with rfl | rfl | rfl <;> rcases hy with rfl | rfl | rfl <;> norm_num [cutoff]
  obtain ⟨-, m, -, out, -, -, -, hall⟩ := softmaxRowOnline_twoPass (g := 0) (by simp) 2 hnear
  exact ⟨hnear, fun mode => (hall mode).1⟩

end Tusim.Attention
