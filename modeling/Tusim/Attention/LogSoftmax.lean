import Tusim.Attention.SoftmaxRows

/-!
# Logarithms of the softmax

The logarithmic mode recovers a shifted number from its exponential.  One below the cutoff has none, and counts as
`-88.7228`; it is missing in the sum as well, which every other output shows.  So the outputs are the logarithms of the
softmax exactly on rows whose scaled numbers lie within 87 of one another (`logRow_iff`).
-/

namespace Tusim.Attention

open NumberMemory StreamedSoftmax Word

/-- Number `i` after scaling. -/
noncomputable def scaledAt (scale : ℝ) (x : Nat → ℝ) (i : Nat) : ℝ := if scale = 0 then x i else x i * scale

/-- `out` holds `x_i - ln(Σ exp(x_j))` for a row `y`, and differences of outputs are those of the row. -/
def IsLogSoftmax (y : Nat → ℝ) (cols : Nat) (out : Nat → EReal) : Prop :=
  (∀ i < cols, out i = ((y i - Real.log (∑ j ∈ Finset.range cols, Real.exp (y j)) : ℝ) : EReal)) ∧
  ∀ i < cols, ∀ j < cols, out i - out j = ((y i - y j : ℝ) : EReal)

section

variable {F : Type} (desc : TuSoftmaxDesc F)

/-- Numbers of a row. -/
def TuSoftmaxDesc.cols : Nat := if desc.axisDim = 0 then desc.elemCount else desc.axisDim

def TuSoftmaxDesc.rows : Nat := desc.elemCount / desc.cols

def TuSoftmaxDesc.outOff : Nat := if desc.inPlace then desc.dataOffset else desc.outOffset

end

/-- An accepted request for logarithms, without masks, of numbers `x` that lie in the region; no row is overwritten before
it is read. -/
structure TuSoftmaxDesc.LogOf (desc : TuSoftmaxDesc EReal) (g : EReal) (size : Nat) (mem : Nat → NumByte EReal)
    (scale : ℝ) (x : Nat → ℝ) : Prop where
  accepted : tuSoftmaxValidateDesc size desc = true
  mode : desc.mode = .log
  mask : desc.mask = none
  maskFill : desc.maskFill = 0
  scale : desc.scale = scale
  data : desc.dataOffset + 4 * desc.elemCount ≤ size
  out : desc.outOff + 4 * desc.elemCount ≤ size
  apart : desc.outOff ≤ desc.dataOffset ∨ desc.dataOffset + 4 * desc.elemCount ≤ desc.outOff ∨ desc.rows = 1
  holds : ∀ i < desc.elemCount, load 4 g mem (desc.dataOffset + 4 * i) = x i

variable {g : EReal}

/-! ### One row -/

section

variable {y : Nat → ℝ} {cols : Nat} {m : ℝ}

theorem exists_top (hcols : 0 < cols) (y : Nat → ℝ) : ∃ u < cols, ∀ j < cols, y j ≤ y u := by
  obtain ⟨u, hu, hmax⟩ := Finset.exists_max_image (Finset.range cols) y ⟨0, Finset.mem_range.2 hcols⟩
  exact ⟨u, Finset.mem_range.1 hu, fun j hj => hmax j (Finset.mem_range.2 hj)⟩

theorem IsLogSoftmax.congr_iff {out out' : Nat → EReal} (h : ∀ i < cols, out i = out' i) :
    IsLogSoftmax y cols out ↔ IsLogSoftmax y cols out' := by
  unfold IsLogSoftmax
  apply and_congr
  · exact forall₂_congr fun i hi => by rw [h i hi]
  · exact forall₂_congr fun i hi => forall₂_congr fun j hj => by rw [h i hi, h j hj]

/-- The logarithm of a sum of exponentials, taken relative to `m`. -/
theorem log_sum_shift (hcols : 0 < cols) (y : Nat → ℝ) (m : ℝ) :
    Real.log (∑ j ∈ Finset.range cols, Real.exp (y j - m)) = Real.log (∑ j ∈ Finset.range cols, Real.exp (y j)) - m := by
  have hpos : 0 < ∑ j ∈ Finset.range cols, Real.exp (y j) :=
    Finset.sum_pos (fun j _ => Real.exp_pos _) ⟨0, Finset.mem_range.2 hcols⟩
  have hfactor : ∑ j ∈ Finset.range cols, Real.exp (y j - m) = (∑ j ∈ Finset.range cols, Real.exp (y j)) * Real.exp (-m) := by
    rw [Finset.sum_mul]
    apply Finset.sum_congr rfl
    intro j _
    rw [← Real.exp_add, sub_eq_add_neg]
  rw [hfactor, Real.log_mul hpos.ne' (Real.exp_pos _).ne', Real.log_exp, sub_eq_add_neg]

/-- A weight is at most the exponential, and less where the exponential is left out. -/
theorem rowWeight_le (m x : ℝ) : rowWeight m x ≤ Real.exp (x - m) := by
  unfold rowWeight
  split
  · exact (Real.exp_pos _).le
  · exact le_refl _

theorem rowWeight_lt {x : ℝ} (h : x - m < -cutoff) : rowWeight m x < Real.exp (x - m) := by
  unfold rowWeight
  rw [if_pos h]
  exact Real.exp_pos _

/-- The outputs for a row with largest number `y u` are right iff the numbers lie within 87 of one another. -/
theorem logRow_iff {u : Nat} (hu : u < cols) (hmax : ∀ j < cols, y j ≤ y u) :
    IsLogSoftmax y cols (fun i => (twoPassOutput .log (y u) (∑ j ∈ Finset.range cols, rowWeight (y u) (y j)) (y i) : EReal)) ↔
      ∀ i < cols, ∀ j < cols, y i ≤ y j + cutoff := by
  have hcols : 0 < cols := by omega
  have hshift := log_sum_shift hcols y (y u)
  constructor
  · rintro ⟨hout, -⟩
    have hself := EReal.coe_injective (hout u hu)
    unfold twoPassOutput at hself
    rw [if_pos rfl, rowWeight_self, if_pos one_pos, Real.log_one] at hself
    have hlog : Real.log (∑ j ∈ Finset.range cols, rowWeight (y u) (y j)) =
        Real.log (∑ j ∈ Finset.range cols, Real.exp (y j - y u)) := by
      rw [hshift]
      linarith
    have hpos : 0 < ∑ j ∈ Finset.range cols, rowWeight (y u) (y j) := by
      apply Finset.sum_pos' fun j _ => rowWeight_nonneg _ _
      exact ⟨u, Finset.mem_range.2 hu, (rowWeight_self (y u)).symm ▸ one_pos⟩
    have hpos' : 0 < ∑ j ∈ Finset.range cols, Real.exp (y j - y u) :=
      Finset.sum_pos (fun j _ => Real.exp_pos _) ⟨0, Finset.mem_range.2 hcols⟩
    have hsum := Real.log_injOn_pos (Set.mem_Ioi.2 hpos) (Set.mem_Ioi.2 hpos') hlog
    have hkept : ∀ j < cols, ¬ y j - y u < -cutoff := by
      intro j hj hlow
      have hlt : ∑ j ∈ Finset.range cols, rowWeight (y u) (y j) < ∑ j ∈ Finset.range cols, Real.exp (y j - y u) :=
        Finset.sum_lt_sum (fun i _ => rowWeight_le _ _) ⟨j, Finset.mem_range.2 hj, rowWeight_lt hlow⟩
      exact absurd hsum hlt.ne
    intro i hi j hj
    have hle := hmax i hi
    have hlow := hkept j hj
    linarith
  · intro hnear
    have hweight : ∀ j < cols, rowWeight (y u) (y j) = Real.exp (y j - y u) := by
      intro j hj
      have hle := hnear u hu j hj
      exact if_neg (by linarith)
    have hsum : ∑ j ∈ Finset.range cols, rowWeight (y u) (y j) = ∑ j ∈ Finset.range cols, Real.exp (y j - y u) :=
      Finset.sum_congr rfl fun j hj => hweight j (Finset.mem_range.1 hj)
    have hout : ∀ i < cols, twoPassOutput .log (y u) (∑ j ∈ Finset.range cols, rowWeight (y u) (y j)) (y i) =
        y i - Real.log (∑ j ∈ Finset.range cols, Real.exp (y j)) := by
      intro i hi
      unfold twoPassOutput
      rw [if_pos rfl, hweight i hi, if_pos (Real.exp_pos _), Real.log_exp, hsum, hshift]
      ring
    refine ⟨fun i hi => congrArg _ (hout i hi), ?_⟩
    intro i hi j hj
    dsimp only
    rw [hout i hi, hout j hj, ← EReal.coe_sub]
    congr 1
    ring

end

/-! ### Rows in a region -/

variable {size : Nat} (hsize : size < 2 ^ 32) {mem : Nat → NumByte EReal}
include hsize

/-- A row is read, and its outputs are written. -/
theorem softmaxSingleRow_log {inOffset outOffset cols : Nat} (hcols : 0 < cols) (hin : inOffset + 4 * cols ≤ size)
    (hout : outOffset + 4 * cols ≤ size) {x : Nat → ℝ} (hload : ∀ i < cols, load 4 g mem (inOffset + 4 * i) = x i)
    (scale : ℝ) {u : Nat} (hu : u < cols) (hmax : ∀ j < cols, scaledAt scale x j ≤ scaledAt scale x u) (additive : Bool) :
    softmaxSingleRow (exactReals g) size mem inOffset outOffset cols scale .log none additive 0 =
      fill 4 mem outOffset (fun i => (twoPassOutput .log (scaledAt scale x u)
        (∑ j ∈ Finset.range cols, rowWeight (scaledAt scale x u) (scaledAt scale x j)) (scaledAt scale x i) : EReal)) cols := by
  have hrow : sramLoadFloats (exactReals g) size mem inOffset cols = realRow ((List.range cols).map x) := by
    unfold realRow
    rw [List.map_map]
    exact sramLoadFloats_exact hsize hin hload
  have hscaled : scaledBy scale ((List.range cols).map x) = (List.range cols).map (scaledAt scale x) := by
    unfold scaledBy
    split
    · apply List.map_congr_left
      intro i _
      exact (if_pos ‹_›).symm
    · rw [List.map_map]
      apply List.map_congr_left
      intro i _
      exact (if_neg ‹_›).symm
  have hne : (List.range cols).map x ≠ [] := by
    rw [Ne, List.map_eq_nil_iff, List.range_eq_nil]
    omega
  have hgreatest : IsGreatest {z | z ∈ scaledBy scale ((List.range cols).map x)} (scaledAt scale x u) := by
    rw [hscaled]
    refine ⟨List.mem_map.2 ⟨u, List.mem_range.2 hu, rfl⟩, ?_⟩
    intro z hz
    obtain ⟨j, hj, rfl⟩ := List.mem_map.1 hz
    exact hmax j (List.mem_range.1 hj)
  have hsum : ((scaledBy scale ((List.range cols).map x)).map (rowWeight (scaledAt scale x u))).sum =
      ∑ j ∈ Finset.range cols, rowWeight (scaledAt scale x u) (scaledAt scale x j) := by
    rw [hscaled, List.map_map, ← List.toFinset_range, List.sum_toFinset _ List.nodup_range]
    rfl
  have hfill : (exactReals g).eq 0 (exactReals g).zero = true := by
    rw [exactReals_zero]
    exact decide_eq_true rfl
  unfold softmaxSingleRow
  dsimp only
  rw [if_neg (by omega), hrow, hfill, Bool.not_true, if_neg (by decide), if_neg (by decide),
    softmaxRowTwoPass_coe hne scale hgreatest .log hsum, hscaled]
  unfold realRow
  rw [List.map_map, List.map_map]
  exact sramStoreFloats_exact hsize hout _

variable {desc : TuSoftmaxDesc EReal} {scale : ℝ} {x : Nat → ℝ}

omit hsize in
/-- An accepted request names at least one row, and its rows are the whole array. -/
theorem rows_of_accepted (h : tuSoftmaxValidateDesc size desc = true) :
    0 < desc.cols ∧ 0 < desc.rows ∧ desc.rows * desc.cols = desc.elemCount := by
  unfold tuSoftmaxValidateDesc at h
  simp only [Bool.and_eq_true, bne_iff_ne, Bool.not_eq_true', Bool.and_eq_false_iff, decide_eq_false_iff_not] at h
  obtain ⟨⟨⟨⟨hcount, hdivides⟩, haxis⟩, -⟩, -⟩ := h
  unfold TuSoftmaxDesc.rows TuSoftmaxDesc.cols
  by_cases hzero : desc.axisDim = 0
  · rw [if_pos hzero, Nat.div_self (by omega)]
    omega
  · rw [if_neg hzero]
    have hmod : desc.elemCount % desc.axisDim = 0 := by
      rcases hdivides with hpos | hdvd
      · exact absurd (Nat.pos_of_ne_zero hzero) hpos
      · simpa using hdvd
    have hpos : 0 < desc.axisDim := by omega
    have hcover := Nat.div_add_mod desc.elemCount desc.axisDim
    refine ⟨hpos, Nat.div_pos (by omega) hpos, ?_⟩
    rw [Nat.mul_comm]
    omega

/-- What the engine writes. -/
theorem tuSoftmaxExecute_log (h : desc.LogOf g size mem scale x) {u : Nat → Nat}
    (hu : ∀ r < desc.rows, u r < desc.cols ∧
      ∀ j < desc.cols, scaledAt scale x (r * desc.cols + j) ≤ scaledAt scale x (r * desc.cols + u r)) :
    ∃ mem', tuSoftmaxExecute (exactReals g) size mem desc = some mem' ∧
      HoldsTable 4 g mem' desc.outOff desc.rows desc.cols fun r i =>
        (twoPassOutput .log (scaledAt scale x (r * desc.cols + u r))
          (∑ j ∈ Finset.range desc.cols, rowWeight (scaledAt scale x (r * desc.cols + u r)) (scaledAt scale x (r * desc.cols + j)))
          (scaledAt scale x (r * desc.cols + i)) : EReal) := by
  obtain ⟨hcols, hrows, hcount⟩ := rows_of_accepted h.accepted
  have hdata := h.data
  have hout := h.out
  rw [← hcount] at hdata hout
  have htable : HoldsTable 4 g mem desc.dataOffset desc.rows desc.cols fun r i => (x (r * desc.cols + i) : EReal) := by
    intro r hr j hj
    apply h.holds
    have hrow : (r + 1) * desc.cols ≤ desc.rows * desc.cols := Nat.mul_le_mul_right _ hr
    rw [Nat.succ_mul] at hrow
    omega
  have hapart : desc.outOff ≤ desc.dataOffset ∨ desc.dataOffset + 4 * (desc.rows * desc.cols) ≤ desc.outOff ∨
      desc.rows ≤ 1 := by
    rw [hcount]
    rcases h.apart with hlow | hhigh | hone
    · exact Or.inl hlow
    · exact Or.inr (Or.inl hhigh)
    · exact Or.inr (Or.inr hone.le)
  unfold tuSoftmaxExecute
  rw [h.accepted, Bool.not_true, if_neg (by decide)]
  refine ⟨_, rfl, ?_⟩
  rw [show (if desc.axisDim = 0 then desc.elemCount else desc.axisDim) = desc.cols from rfl,
    show (if desc.inPlace = true then desc.dataOffset else desc.outOffset) = desc.outOff from rfl,
    show desc.elemCount / desc.cols = desc.rows from rfl, if_neg hrows.ne', h.mask, h.mode, h.scale, h.maskFill]
  apply foldl_rows_to (by omega) htable hapart
  intro r hr mem' hload
  have hrow : (r + 1) * desc.cols ≤ desc.rows * desc.cols := Nat.mul_le_mul_right _ hr
  rw [Nat.succ_mul] at hrow
  have hoff : ∀ off, off + 4 * (desc.rows * desc.cols) ≤ size → u32 (off + r * desc.cols * 4) = off + 4 * (r * desc.cols) := by
    intro off hoff
    rw [u32_inside hsize _ 0 (by omega)]
    omega
  rw [hoff _ hdata, hoff _ hout]
  refine softmaxSingleRow_log hsize hcols (by omega) (by omega) (x := fun i => x (r * desc.cols + i)) ?_ scale (hu r hr).1
    (hu r hr).2 _
  intro i hi
  rw [Nat.add_assoc, ← Nat.mul_add]
  exact hload i hi

/-- The engine writes the logarithm of the softmax of every row exactly on requests whose rows have scaled numbers within
87 of one another. -/
theorem tuSoftmaxExecute_log_iff (h : desc.LogOf g size mem scale x) :
    (∃ mem', tuSoftmaxExecute (exactReals g) size mem desc = some mem' ∧
      ∀ r < desc.rows, IsLogSoftmax (fun i => scaledAt scale x (r * desc.cols + i)) desc.cols
        fun i => load 4 g mem' (desc.outOff + 4 * (r * desc.cols + i))) ↔
    ∀ r < desc.rows, ∀ i < desc.cols, ∀ j < desc.cols,
      scaledAt scale x (r * desc.cols + i) ≤ scaledAt scale x (r * desc.cols + j) + 87 := by
  obtain ⟨hcols, -, -⟩ := rows_of_accepted h.accepted
  have htop : ∀ r, ∃ u, r < desc.rows → u < desc.cols ∧
      ∀ j < desc.cols, scaledAt scale x (r * desc.cols + j) ≤ scaledAt scale x (r * desc.cols + u) := by
    intro r
    obtain ⟨u, hu⟩ := exists_top hcols fun i => scaledAt scale x (r * desc.cols + i)
    exact ⟨u, fun _ => hu⟩
  choose u hu using htop
  obtain ⟨mem', hrun, htable⟩ := tuSoftmaxExecute_log hsize h hu
  have hrow : ∀ r < desc.rows,
      (IsLogSoftmax (fun i => scaledAt scale x (r * desc.cols + i)) desc.cols
          (fun i => load 4 g mem' (desc.outOff + 4 * (r * desc.cols + i))) ↔
        ∀ i < desc.cols, ∀ j < desc.cols,
          scaledAt scale x (r * desc.cols + i) ≤ scaledAt scale x (r * desc.cols + j) + 87) := by
    intro r hr
    rw [IsLogSoftmax.congr_iff (htable r hr)]
    exact logRow_iff (y := fun i => scaledAt scale x (r * desc.cols + i)) (hu r hr).1 (hu r hr).2
  constructor
  · rintro ⟨mem'', hrun', hlog⟩ r hr
    rw [hrun, Option.some.injEq] at hrun'
    subst hrun'
    exact (hrow r hr).1 (hlog r hr)
  · intro hnear
    exact ⟨mem', hrun, fun r hr => (hrow r hr).2 (hnear r hr)⟩

omit hsize

/-! ### Two numbers -/

/-- The request for the logarithms of two numbers at the start of the region, in place. -/
noncomputable def pairRequest : TuSoftmaxDesc EReal :=
  { mode := .log, dataOffset := 0, elemCount := 2, axisDim := 0, mask := none, maskIsAdditive := true, maskFill := 0
    scale := 0, inPlace := true, outOffset := 0 }

noncomputable def pairMem (x : Nat → ℝ) : Nat → NumByte EReal := fill 4 (fun _ => ⟨0, 0, 0⟩) 0 (fun i => (x i : EReal)) 2

theorem pairRequest_logOf (x : Nat → ℝ) : pairRequest.LogOf g 8 (pairMem x) 0 x where
  accepted := by rfl
  mode := rfl
  mask := rfl
  maskFill := rfl
  scale := rfl
  data := by decide
  out := by decide
  apart := Or.inl (by decide)
  holds i hi := load_fill (by decide) hi

/-- Two numbers 1 apart. -/
theorem tuSoftmaxExecute_log_iff_near :
    ∃ mem', tuSoftmaxExecute (exactReals 0) 8 (pairMem fun i => i) pairRequest = some mem' ∧
      ∀ r < pairRequest.rows, IsLogSoftmax (fun i => scaledAt 0 (fun i => i) (r * pairRequest.cols + i)) pairRequest.cols
        fun i => load 4 0 mem' (pairRequest.outOff + 4 * (r * pairRequest.cols + i)) := by
  apply (tuSoftmaxExecute_log_iff (by decide) (pairRequest_logOf _)).2
  intro r _ i hi j hj
  have hi' : i < 2 := hi
  have hone : (i : ℝ) ≤ 1 := by exact_mod_cast (show i ≤ 1 by omega)
  have hnonneg : (0 : ℝ) ≤ (j : ℝ) := Nat.cast_nonneg j
  unfold scaledAt
  rw [if_pos rfl, if_pos rfl]
  push_cast
  linarith

/-- Of the numbers 0 and -100 the first one gets 0, as if the second one did not exist, and the second one -88.7228. -/
theorem tuSoftmaxExecute_log_far :
    ∃ x : Nat → ℝ, x 0 = 0 ∧ x 1 = -100 ∧ pairRequest.LogOf 0 8 (pairMem x) 0 x ∧
    ∃ mem', tuSoftmaxExecute (exactReals 0) 8 (pairMem x) pairRequest = some mem' ∧
      load 4 0 mem' 0 = 0 ∧ load 4 0 mem' 4 = ((-88.7228 : ℝ) : EReal) ∧
      ¬ IsLogSoftmax x 2 fun i => load 4 0 mem' (4 * i) := by
  let x : Nat → ℝ := fun i => if i = 0 then 0 else -100
  have hfirst : rowWeight 0 0 = 1 := rowWeight_self 0
  have hsecond : rowWeight 0 (-100) = 0 := if_pos (by norm_num [cutoff])
  have hscaled : ∀ i, scaledAt 0 x i = x i := fun i => if_pos rfl
  have hsum : ∑ j ∈ Finset.range 2, rowWeight 0 (x j) = 1 := by
    rw [Finset.sum_range_succ, Finset.sum_range_one, show x 0 = 0 from rfl, show x 1 = -100 from rfl, hfirst, hsecond,
      add_zero]
  obtain ⟨mem', hrun, htable⟩ := tuSoftmaxExecute_log (by decide) (pairRequest_logOf (g := 0) x) (u := fun _ => 0) (by
    intro r hr
    obtain rfl : r = 0 := Nat.lt_one_iff.1 hr
    refine ⟨by decide, fun j _ => ?_⟩
    rw [hscaled, hscaled]
    show (if 0 * 2 + j = 0 then (0 : ℝ) else -100) ≤ 0
    split <;> norm_num)
  simp only [hscaled] at htable
  have hzero : load 4 0 mem' 0 = 0 := by
    refine (htable 0 (by decide) 0 (by decide)).trans ?_
    show ((twoPassOutput .log 0 (∑ j ∈ Finset.range 2, rowWeight 0 (x (0 * 2 + j))) 0 : ℝ) : EReal) = 0
    simp only [Nat.zero_mul, Nat.zero_add]
    rw [hsum, twoPassOutput, if_pos rfl, hfirst, if_pos one_pos, Real.log_one, sub_zero, EReal.coe_zero]
  have hfour : load 4 0 mem' 4 = ((-88.7228 : ℝ) : EReal) := by
    refine (htable 0 (by decide) 1 (by decide)).trans ?_
    show ((twoPassOutput .log 0 (∑ j ∈ Finset.range 2, rowWeight 0 (x (0 * 2 + j))) (-100) : ℝ) : EReal) = _
    simp only [Nat.zero_mul, Nat.zero_add]
    rw [hsum, twoPassOutput, if_pos rfl, hsecond, if_neg (lt_irrefl 0), Real.log_one, sub_zero]
  refine ⟨x, rfl, rfl, pairRequest_logOf x, mem', hrun, hzero, hfour, ?_⟩
  rintro ⟨-, hdiff⟩
  have hgap := hdiff 0 (by decide) 1 (by decide)
  dsimp only at hgap
  rw [Nat.mul_zero, Nat.mul_one, hzero, hfour, show x 0 = 0 from rfl, show x 1 = -100 from rfl, ← EReal.coe_zero,
    ← EReal.coe_sub, EReal.coe_eq_coe_iff] at hgap
  norm_num at hgap

end Tusim.Attention
