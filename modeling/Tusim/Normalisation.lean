import Tusim.Attention.Rows
import Tusim.RowEngines

/-!
# The normalisation engine in exact arithmetic

`tu_norm_execute` and its wrappers on numbers in SRAM, with banks of one number a word.  A result is the memory and whether
the call returned stall cycles (`UINT64_MAX` else); allocations succeed, and what a new buffer holds is `garbage`.
-/

namespace Tusim.Norm

open Attention NumberMemory Rows Word

/-! ### The engine -/

/-- Where the scale or the bias is: nowhere, in the region of the data, or in another region. -/
inductive ParamSram (F : Type)
  | none
  | data
  | other (size : Nat) (mem : Nat → NumByte F)

/-- `tu_norm_desc_t` -/
structure TuNormDesc (F : Type) where
  mode : TuNormMode
  dataOffset : UInt32
  elemCount : UInt32
  gammaSram : ParamSram F := .none
  gammaOffset : UInt32 := 0
  betaSram : ParamSram F := .none
  betaOffset : UInt32 := 0
  epsilon : F
  normAxisDim : UInt32
  inPlace : Bool
  outOffset : UInt32

section

variable {F : Type} [DecidableEq F] (fp : FloatOps F) (size : Nat) (mem : Nat → NumByte F)

/-- `tu_norm_validate_desc` -/
def tuNormValidateDesc (desc : TuNormDesc F) : Bool :=
  desc.elemCount != 0 && !(desc.normAxisDim > desc.elemCount) &&
    !(u32 (desc.dataOffset.toNat + desc.elemCount.toNat * 4) > size)

/-- A scale or bias of `axis` numbers, as the rows use it. -/
def loadParam (param : ParamSram F) (offset : UInt32) (axis : Nat) : Option (Nat → F) :=
  match param with
  | .none => none
  | .data => some fun i => (Attention.sramLoadFloats fp size mem offset.toNat axis).getD i fp.garbage
  | .other size' mem' => some fun i => (Attention.sramLoadFloats fp size' mem' offset.toNat axis).getD i fp.garbage

/-- `normalize_row` -/
def normalizeRow (offset outOffset cols : Nat) (gamma beta : Option (Nat → F)) (epsilon : F) (mode : TuNormMode) :
    Nat → NumByte F :=
  if cols = 0 then mem
  else
    let row := Attention.sramLoadFloats fp size mem offset cols
    Attention.sramStoreFloats fp size mem outOffset (normalizeNumbers fp (some mode) gamma beta epsilon row)

/-- `tu_norm_execute` -/
def tuNormExecute (desc : TuNormDesc F) : (Nat → NumByte F) × Bool :=
  if !tuNormValidateDesc size desc then (mem, false)
  else
    let axis := (axisLength desc.normAxisDim desc.elemCount).toNat
    let rows := numRows desc.normAxisDim desc.elemCount
    let gamma := loadParam fp size mem desc.gammaSram desc.gammaOffset axis
    let beta := if desc.mode = .layerNorm then loadParam fp size mem desc.betaSram desc.betaOffset axis else none
    let outOff := if desc.inPlace then desc.dataOffset.toNat else desc.outOffset.toNat
    ((List.range rows).foldl (fun mem r =>
      let cols :=
        if r = rows - 1 ∧ u32 (axis * rows) > desc.elemCount.toNat then
          u32 (desc.elemCount.toNat + 2 ^ 32 - u32 (r * axis))
        else axis
      normalizeRow fp size mem (u32 (desc.dataOffset.toNat + r * axis * 4)) (u32 (outOff + r * axis * 4)) cols gamma beta
        desc.epsilon desc.mode) mem, true)

/-! ### The wrappers -/

/-- `total_size - count * params * sizeof(float)`, in 64 bits and then in 32 -/
def tempBase (params count : Nat) : Nat := u32 (size + 2 ^ 64 - u32 (count * params) * 4)

/-- Host numbers, stored in the region. -/
def stage (offset : Nat) (values : Option (Nat → F)) (count : Nat) : Nat → NumByte F :=
  match values with
  | none => mem
  | some values => Attention.sramStoreFloats fp size mem offset ((List.range count).map values)

/-- The descriptor with the parameters that are given, in the region of the data. -/
def TuNormDesc.withParams (desc : TuNormDesc F) (gamma beta : Bool) (gammaBase betaBase : Nat) : TuNormDesc F :=
  { desc with
    gammaSram := if gamma then .data else .none
    gammaOffset := UInt32.ofNat gammaBase
    betaSram := if beta then .data else .none
    betaOffset := UInt32.ofNat betaBase }

/-- The common part of the wrappers: parameters of `count` numbers are stored at the end of the region, with room for
`params` of them. -/
def executeStaged (desc : TuNormDesc F) (params count : Nat) (gamma beta : Option (Nat → F)) : (Nat → NumByte F) × Bool :=
  if gamma.isNone ∧ beta.isNone then tuNormExecute fp size mem desc
  else
    let tempBase := tempBase size params count
    if tempBase < desc.dataOffset.toNat + desc.elemCount.toNat * 4 then (mem, false)
    else
      let betaBase := u32 (tempBase + count * 4)
      let mem := stage fp size mem tempBase gamma count
      let mem := stage fp size mem betaBase beta count
      tuNormExecute fp size mem (desc.withParams gamma.isSome beta.isSome tempBase betaBase)

def tuLayernorm (offset elemCount : UInt32) (gamma beta : Option (Nat → F)) (epsilon : F) (inPlace : Bool) :
    (Nat → NumByte F) × Bool :=
  executeStaged fp size mem
    { mode := .layerNorm, dataOffset := offset, elemCount := elemCount, epsilon := epsilon, normAxisDim := 0
      inPlace := inPlace, outOffset := offset } 2 elemCount.toNat gamma beta

def tuRmsnorm (offset elemCount : UInt32) (gamma : Option (Nat → F)) (epsilon : F) (inPlace : Bool) :
    (Nat → NumByte F) × Bool :=
  executeStaged fp size mem
    { mode := .rmsNorm, dataOffset := offset, elemCount := elemCount, epsilon := epsilon, normAxisDim := 0
      inPlace := inPlace, outOffset := offset } 1 elemCount.toNat gamma none

def tuLayernorm2d (offset rows cols : UInt32) (gamma beta : Option (Nat → F)) (epsilon : F) : (Nat → NumByte F) × Bool :=
  executeStaged fp size mem
    { mode := .layerNorm, dataOffset := offset, elemCount := rows * cols, epsilon := epsilon, normAxisDim := cols
      inPlace := true, outOffset := offset } 2 cols.toNat gamma beta

def tuRmsnorm2d (offset rows cols : UInt32) (gamma : Option (Nat → F)) (epsilon : F) : (Nat → NumByte F) × Bool :=
  executeStaged fp size mem
    { mode := .rmsNorm, dataOffset := offset, elemCount := rows * cols, epsilon := epsilon, normAxisDim := cols
      inPlace := true, outOffset := offset } 1 cols.toNat gamma none

end

/-! ### The normalised value -/

/-- The mean of `n` numbers. -/
noncomputable def mean (n : Nat) (x : Nat → ℝ) : ℝ := (∑ i ∈ Finset.range n, x i) / n

/-- What a number of a row of `n` numbers is normalised to. -/
noncomputable def normalised (mode : TuNormMode) (gamma beta : Option (Nat → ℝ)) (epsilon : ℝ) (n : Nat) (x : Nat → ℝ)
    (i : Nat) : ℝ :=
  let scaled (y : ℝ) : ℝ := gamma.elim y fun gamma => y * gamma i
  if mode = .rmsNorm then scaled (x i * (1 / Real.sqrt (mean n (fun j => x j * x j) + epsilon)))
  else
    let centred (j : Nat) : ℝ := x j - mean n x
    let y := scaled (centred i * (1 / Real.sqrt (mean n (fun j => centred j * centred j) + epsilon)))
    beta.elim y fun beta => y + beta i

variable {g : EReal}

/-- A parameter that holds the real numbers `v`. -/
def HoldsParam (n : Nat) (param : Option (Nat → EReal)) (v : Option (Nat → ℝ)) : Prop :=
  match param, v with
  | none, none => True
  | some param, some v => ∀ i < n, param i = (v i : EReal)
  | _, _ => False

theorem exactReals_ofNat (n : Nat) : (exactReals g).ofNat n = ((n : ℝ) : EReal) := by
  unfold FloatOps.ofNat exactReals
  norm_num

theorem foldl_mean (n : Nat) (f : Nat → ℝ) :
    (exactReals g).div ((List.range n).foldl (fun (s : EReal) i => s + (f i : EReal)) 0) ((exactReals g).ofNat n) =
      (mean n f : EReal) := by
  rw [foldl_add_coe, exactReals_ofNat]
  exact (EReal.coe_div _ _).symm

theorem inv_sqrt_coe (v epsilon : ℝ) :
    (exactReals g).div (exactReals g).one ((exactReals g).sqrtf ((exactReals g).add (v : EReal) (epsilon : EReal))) =
      ((1 / Real.sqrt (v + epsilon) : ℝ) : EReal) := by
  rw [exactReals_one]
  show (1 : EReal) / ((Real.sqrt ((v : EReal) + (epsilon : EReal)).toReal : ℝ) : EReal) = _
  rw [← EReal.coe_add, EReal.toReal_coe, EReal.coe_div, EReal.coe_one]

/-! ### One row -/

theorem mapIdx_range {A B : Type} (n : Nat) (f : Nat → A) (h : Nat → A → B) :
    ((List.range n).map f).mapIdx h = (List.range n).map fun i => h i (f i) := by
  apply List.ext_getElem
  · simp
  · intro i hi hi'
    simp

section

variable {n : Nat} {gamma beta : Option (Nat → EReal)} {gammaV betaV : Option (Nat → ℝ)}

theorem scaled_exact (hgamma : HoldsParam n gamma gammaV) {i : Nat} (hi : i < n) (y : ℝ) :
    (gamma.elim (y : EReal) fun gamma => (exactReals g).mul (y : EReal) (gamma i)) =
      ((gammaV.elim y fun gamma => y * gamma i : ℝ) : EReal) := by
  cases gamma with
  | none =>
    cases gammaV with
    | none => rfl
    | some v => exact hgamma.elim
  | some param =>
    cases gammaV with
    | none => exact hgamma.elim
    | some v =>
      show (y : EReal) * param i = ((y * v i : ℝ) : EReal)
      rw [hgamma i hi, EReal.coe_mul]

theorem shifted_exact (hbeta : HoldsParam n beta betaV) {i : Nat} (hi : i < n) (y : ℝ) :
    (beta.elim (y : EReal) fun beta => (exactReals g).add (y : EReal) (beta i)) =
      ((betaV.elim y fun beta => y + beta i : ℝ) : EReal) := by
  cases beta with
  | none =>
    cases betaV with
    | none => rfl
    | some v => exact hbeta.elim
  | some param =>
    cases betaV with
    | none => exact hbeta.elim
    | some v =>
      show (y : EReal) + param i = ((y + v i : ℝ) : EReal)
      rw [hbeta i hi, EReal.coe_add]

theorem normalizeNumbers_exact (mode : TuNormMode) (hgamma : HoldsParam n gamma gammaV) (hbeta : HoldsParam n beta betaV)
    (epsilon : ℝ) (x : Nat → ℝ) :
    normalizeNumbers (exactReals g) (some mode) gamma beta (epsilon : EReal) ((List.range n).map fun i => (x i : EReal)) =
      (List.range n).map fun i => (normalised mode gammaV betaV epsilon n x i : EReal) := by
  unfold normalizeNumbers
  dsimp only
  rw [List.length_map, List.length_range, List.foldl_map, List.foldl_map, exactReals_zero]
  by_cases hmode : mode = .rmsNorm
  · rw [if_pos (congrArg some hmode), mapIdx_range]
    apply List.map_congr_left
    intro i hi
    have hsquares : (List.range n).foldl (fun (s : EReal) j => (exactReals g).add s ((exactReals g).mul (x j) (x j))) 0 =
        (List.range n).foldl (fun (s : EReal) j => s + ((x j * x j : ℝ) : EReal)) 0 := by
      apply List.foldl_ext
      intro s j _
      show s + (x j : EReal) * (x j : EReal) = _
      rw [EReal.coe_mul]
    unfold normalised
    rw [hsquares, foldl_mean, inv_sqrt_coe, if_pos hmode]
    show gamma.elim ((x i : EReal) * ((1 / Real.sqrt (mean n (fun j => x j * x j) + epsilon) : ℝ) : EReal)) _ = _
    rw [← EReal.coe_mul]
    exact scaled_exact hgamma (List.mem_range.1 hi) _
  · have hne : ¬ some mode = some TuNormMode.rmsNorm := fun h => hmode (Option.some.inj h)
    rw [if_neg hne, mapIdx_range]
    apply List.map_congr_left
    intro i hi
    have hmean : (exactReals g).div ((List.range n).foldl (fun (s : EReal) j => (exactReals g).add s (x j)) 0)
        ((exactReals g).ofNat n) = (mean n x : EReal) := foldl_mean n x
    unfold normalised
    rw [hmean, if_neg hmode, List.foldl_map]
    have hsquares : (List.range n).foldl (fun (s : EReal) j => (exactReals g).add s ((exactReals g).mul
        ((exactReals g).sub (x j) (mean n x : EReal)) ((exactReals g).sub (x j) (mean n x : EReal)))) 0 =
        (List.range n).foldl (fun (s : EReal) j => s + (((x j - mean n x) * (x j - mean n x) : ℝ) : EReal)) 0 := by
      apply List.foldl_ext
      intro s j _
      show s + ((x j : EReal) - (mean n x : EReal)) * ((x j : EReal) - (mean n x : EReal)) = _
      rw [EReal.coe_mul, EReal.coe_sub]
    rw [hsquares, foldl_mean, inv_sqrt_coe]
    generalize hs : 1 / Real.sqrt (mean n (fun j => (x j - mean n x) * (x j - mean n x)) + epsilon) = s
    have hvalue : (exactReals g).mul ((exactReals g).sub (x i : EReal) (mean n x : EReal)) (s : EReal) =
        (((x i - mean n x) * s : ℝ) : EReal) := by
      rw [EReal.coe_mul, EReal.coe_sub]
      rfl
    rw [hvalue, scaled_exact hgamma (List.mem_range.1 hi), shifted_exact hbeta (List.mem_range.1 hi)]
    subst hs
    rfl

/-! ### Rows in a region -/

variable {size : Nat} (hsize : size < 2 ^ 32) {mem : Nat → NumByte EReal}
include hsize

theorem normalizeRow_exact {mode : TuNormMode} (hgamma : HoldsParam n gamma gammaV) (hbeta : HoldsParam n beta betaV)
    {offset : Nat} (hn : 0 < n) (h : offset + 4 * n ≤ size) (epsilon : ℝ) {x : Nat → ℝ}
    (hload : ∀ i < n, load 4 g mem (offset + 4 * i) = x i) :
    normalizeRow (exactReals g) size mem offset offset n gamma beta (epsilon : EReal) mode =
      fill 4 mem offset (fun i => (normalised mode gammaV betaV epsilon n x i : EReal)) n := by
  unfold normalizeRow
  dsimp only
  rw [if_neg (by omega), sramLoadFloats_exact hsize h hload, normalizeNumbers_exact mode hgamma hbeta,
    sramStoreFloats_exact hsize h]

end

/-! ### The rows of a tensor -/

/-- A scale or bias that holds the real numbers `v`. -/
def ParamSram.Holds (param : ParamSram EReal) (g : EReal) (size : Nat) (mem : Nat → NumByte EReal) (offset n : Nat)
    (v : Option (Nat → ℝ)) : Prop :=
  match param, v with
  | .none, .none => True
  | .data, some v => offset + 4 * n ≤ size ∧ ∀ i < n, load 4 g mem (offset + 4 * i) = v i
  | .other size' mem', some v => size' < 2 ^ 32 ∧ offset + 4 * n ≤ size' ∧ ∀ i < n, load 4 g mem' (offset + 4 * i) = v i
  | _, _ => False

theorem loadParam_holds {size : Nat} (hsize : size < 2 ^ 32) {mem : Nat → NumByte EReal} {param : ParamSram EReal}
    {offset : UInt32} {n : Nat} {v : Option (Nat → ℝ)} (h : param.Holds g size mem offset.toNat n v) :
    HoldsParam n (loadParam (exactReals g) size mem param offset n) v := by
  have hread : ∀ {size : Nat} {mem : Nat → NumByte EReal} {v : Nat → ℝ}, size < 2 ^ 32 → offset.toNat + 4 * n ≤ size →
      (∀ i < n, load 4 g mem (offset.toNat + 4 * i) = v i) →
      ∀ i < n, (Attention.sramLoadFloats (exactReals g) size mem offset.toNat n).getD i (exactReals g).garbage = v i := by
    intro size mem v hsize hfits hload i hi
    rw [sramLoadFloats_exact hsize hfits hload, List.getD_eq_getElem?_getD, List.getElem?_map, List.getElem?_range hi]
    rfl
  cases v with
  | none =>
    cases param with
    | none => trivial
    | data => exact h.elim
    | other size' mem' => exact h.elim
  | some v =>
    cases param with
    | none => exact h.elim
    | data => exact hread hsize h.1 h.2
    | other size' mem' => exact hread h.1 h.2.1 h.2.2

section

variable (desc : TuNormDesc EReal)

/-- The length of a row. -/
def TuNormDesc.axis : Nat := (axisLength desc.normAxisDim desc.elemCount).toNat

/-- The number of whole rows. -/
def TuNormDesc.wholeRows : Nat := desc.elemCount.toNat / desc.axis

/-- The tensor of `desc` holds `x`, its parameters hold `gamma`, `beta` and `epsilon`, and its results replace it. -/
structure TuNormDesc.Of (g : EReal) (size : Nat) (mem : Nat → NumByte EReal) (gamma beta : Option (Nat → ℝ)) (epsilon : ℝ)
    (x : Nat → ℝ) : Prop where
  inPlace : desc.inPlace = true ∨ desc.outOffset = desc.dataOffset
  epsilon_eq : desc.epsilon = epsilon
  data : ∀ i < desc.elemCount.toNat, load 4 g mem (desc.dataOffset.toNat + 4 * i) = x i
  gamma_holds : desc.gammaSram.Holds g size mem desc.gammaOffset.toNat desc.axis gamma
  beta_holds : desc.betaSram.Holds g size mem desc.betaOffset.toNat desc.axis beta

variable {desc}

theorem axis_of_accepted {size : Nat} (h : tuNormValidateDesc size desc = true) :
    0 < desc.axis ∧ desc.axis ≤ desc.elemCount.toNat ∧ u32 (desc.dataOffset.toNat + desc.elemCount.toNat * 4) ≤ size := by
  unfold tuNormValidateDesc at h
  simp only [Bool.and_eq_true, bne_iff_ne, Bool.not_eq_true', decide_eq_false_iff_not, gt_iff_lt] at h
  obtain ⟨⟨hcount, haxis⟩, hend⟩ := h
  have hcount' : desc.elemCount.toNat ≠ 0 := fun hzero => hcount (UInt32.toNat_inj.1 hzero)
  have haxis' := UInt32.le_iff_toNat_le.1 (UInt32.not_lt.1 haxis)
  refine ⟨?_, ?_, Nat.le_of_not_gt hend⟩
  · unfold TuNormDesc.axis axisLength
    split
    · omega
    · exact Nat.pos_of_ne_zero fun hzero => ‹¬ desc.normAxisDim = 0› (UInt32.toNat_inj.1 hzero)
  · unfold TuNormDesc.axis axisLength
    split
    · exact le_refl _
    · exact haxis'

theorem numRows_eq (h : 0 < desc.axis) (h' : desc.axis ≤ desc.elemCount.toNat) :
    numRows desc.normAxisDim desc.elemCount = desc.wholeRows := by
  have hrows : (desc.elemCount / axisLength desc.normAxisDim desc.elemCount).toNat = desc.wholeRows := UInt32.toNat_div ..
  have hpos : 0 < desc.wholeRows := Nat.div_pos h' h
  unfold numRows
  dsimp only
  rw [if_neg, hrows]
  intro hzero
  rw [hzero] at hrows
  have hzero' : (0 : UInt32).toNat = 0 := rfl
  omega

/-- The bias that the engine adds: none in the third mode. -/
def addedBias (mode : TuNormMode) (beta : Option (Nat → ℝ)) : Option (Nat → ℝ) := if mode = .layerNorm then beta else none

/-- The whole rows are normalised, and nothing else is changed. -/
theorem tuNormExecute_exact {size : Nat} (hsize : size < 2 ^ 32) {mem : Nat → NumByte EReal}
    {gamma beta : Option (Nat → ℝ)} {epsilon : ℝ} {x : Nat → ℝ} (hacc : tuNormValidateDesc size desc = true)
    (h : desc.Of g size mem gamma beta epsilon x) (hfits : desc.dataOffset.toNat + 4 * desc.elemCount.toNat ≤ size) :
    (tuNormExecute (exactReals g) size mem desc).2 = true ∧
      HoldsTable 4 g (tuNormExecute (exactReals g) size mem desc).1 desc.dataOffset.toNat desc.wholeRows desc.axis
        (fun r i => (normalised desc.mode gamma (addedBias desc.mode beta) epsilon desc.axis (fun j => x (r * desc.axis + j)) i : EReal)) ∧
      ∀ b, b < desc.dataOffset.toNat ∨ desc.dataOffset.toNat + 4 * (desc.wholeRows * desc.axis) ≤ b →
        (tuNormExecute (exactReals g) size mem desc).1 b = mem b := by
  obtain ⟨haxis, hle, -⟩ := axis_of_accepted hacc
  have hwhole : desc.wholeRows * desc.axis ≤ desc.elemCount.toNat := Nat.div_mul_le_self _ _
  have hout : (if desc.inPlace = true then desc.dataOffset.toNat else desc.outOffset.toNat) = desc.dataOffset.toNat := by
    rcases h.inPlace with hin | hout
    · rw [if_pos hin]
    · rw [hout, ite_self]
  have hbeta : HoldsParam desc.axis (if desc.mode = .layerNorm then
      loadParam (exactReals g) size mem desc.betaSram desc.betaOffset desc.axis else none) (addedBias desc.mode beta) := by
    unfold addedBias
    split
    · exact loadParam_holds hsize h.beta_holds
    · trivial
  have htable : HoldsTable 4 g mem desc.dataOffset.toNat desc.wholeRows desc.axis fun r j => (x (r * desc.axis + j) : EReal) := by
    intro r hr j hj
    have hend := Nat.mul_le_mul_right desc.axis hr
    rw [Nat.succ_mul] at hend
    exact h.data _ (by omega)
  unfold tuNormExecute
  dsimp only
  rw [hacc, Bool.not_true, if_neg Bool.false_ne_true, numRows_eq haxis hle, hout, h.epsilon_eq]
  refine ⟨rfl, ?_⟩
  apply foldl_rows (by omega) htable
  intro r hr mem' _ hload
  have hend := Nat.mul_le_mul_right desc.axis hr
  rw [Nat.succ_mul] at hend
  have hrow : u32 (desc.dataOffset.toNat + r * desc.axis * 4) = desc.dataOffset.toNat + 4 * (r * desc.axis) := by
    rw [Nat.mul_comm (r * desc.axis)]
    exact u32_of_lt (by omega)
  -- the whole rows never reach past the tensor, so that no row is shortened
  have hcols : ¬ (r = desc.wholeRows - 1 ∧ u32 (desc.axis * desc.wholeRows) > desc.elemCount.toNat) := by
    rintro ⟨-, hgt⟩
    rw [Nat.mul_comm, u32_of_lt (by omega)] at hgt
    omega
  show normalizeRow (exactReals g) size mem' (u32 (desc.dataOffset.toNat + r * desc.axis * 4))
    (u32 (desc.dataOffset.toNat + r * desc.axis * 4)) (if r = desc.wholeRows - 1 ∧
      u32 (desc.axis * desc.wholeRows) > desc.elemCount.toNat then _ else desc.axis) _ _ _ _ = _
  rw [if_neg hcols, hrow]
  apply normalizeRow_exact hsize (loadParam_holds hsize h.gamma_holds) hbeta haxis (by omega)
  intro i hi
  have hnumber := hload i hi
  rw [Nat.mul_add, ← Nat.add_assoc] at hnumber
  exact hnumber

end

/-! ### Every element of the tensor -/

/-- What the element `i` of a tensor with rows of `axis` numbers is normalised to, the last row being shorter when `axis` does
not divide the count. -/
noncomputable def rowValue (mode : TuNormMode) (gamma beta : Option (Nat → ℝ)) (epsilon : ℝ) (axis count : Nat) (x : Nat → ℝ)
    (i : Nat) : ℝ :=
  normalised mode gamma beta epsilon (min axis (count - i / axis * axis)) (fun j => x (i / axis * axis + j)) (i % axis)

/-- The call failed and left the tensor unchanged, or it succeeded and the tensor holds `value`. -/
def Covers (g : EReal) (size : Nat) (mem : Nat → NumByte EReal) (out : (Nat → NumByte EReal) × Bool) (offset count : Nat)
    (value : Nat → ℝ) : Prop :=
  (out.2 = false ∧ ∀ b, offset ≤ b → b < offset + 4 * count → out.1 b = mem b) ∨
    (out.2 = true ∧ offset + 4 * count ≤ size ∧ ∀ i < count, load 4 g out.1 (offset + 4 * i) = value i)

theorem rowValue_of_whole {mode : TuNormMode} {gamma beta : Option (Nat → ℝ)} {epsilon : ℝ} {axis count : Nat} {x : Nat → ℝ}
    {r j : Nat} (hr : r < count / axis) (hj : j < axis) :
    rowValue mode gamma beta epsilon axis count x (r * axis + j) =
      normalised mode gamma beta epsilon axis (fun j => x (r * axis + j)) j := by
  have hend : (r + 1) * axis ≤ count / axis * axis := Nat.mul_le_mul_right axis hr
  have hle := Nat.div_mul_le_self count axis
  rw [Nat.succ_mul] at hend
  have hdiv : (r * axis + j) / axis = r := by
    rw [Nat.mul_comm, Nat.mul_add_div (by omega), Nat.div_eq_of_lt hj, Nat.add_zero]
  have hmod : (r * axis + j) % axis = j := by
    rw [Nat.mul_comm, Nat.mul_add_mod, Nat.mod_eq_of_lt hj]
  unfold rowValue
  rw [hdiv, hmod, Nat.min_eq_left (by omega)]

/-- The bias that is left out shows where it is not zero. -/
theorem normalised_addedBias {mode : TuNormMode} {gamma beta : Option (Nat → ℝ)} {epsilon : ℝ} {n : Nat} {x : Nat → ℝ}
    {i : Nat} :
    normalised mode gamma (addedBias mode beta) epsilon n x i = normalised mode gamma beta epsilon n x i ↔
      (mode = .batchNorm → ∀ v, beta = some v → v i = 0) := by
  cases mode with
  | layerNorm => exact ⟨nofun, fun _ => rfl⟩
  | rmsNorm => exact ⟨nofun, fun _ => rfl⟩
  | batchNorm =>
    cases beta with
    | none => exact ⟨nofun, fun _ => rfl⟩
    | some v =>
      unfold normalised addedBias
      simp

theorem tuNormExecute_snd (size : Nat) (mem : Nat → NumByte EReal) (desc : TuNormDesc EReal) :
    (tuNormExecute (exactReals g) size mem desc).2 = tuNormValidateDesc size desc := by
  unfold tuNormExecute
  cases tuNormValidateDesc size desc <;> rfl

theorem tuNormExecute_refused {size : Nat} {mem : Nat → NumByte EReal} {desc : TuNormDesc EReal}
    (h : tuNormValidateDesc size desc = false) : tuNormExecute (exactReals g) size mem desc = (mem, false) := by
  unfold tuNormExecute
  rw [h]
  rfl

/-- An accepted call covers the tensor if its rows are whole and its bias is added. -/
theorem covers_of_accepted {size : Nat} (hsize : size < 2 ^ 32) {mem : Nat → NumByte EReal} {desc : TuNormDesc EReal}
    {gamma beta : Option (Nat → ℝ)} {epsilon : ℝ} {x : Nat → ℝ} (hacc : tuNormValidateDesc size desc = true)
    (h : desc.Of g size mem gamma beta epsilon x) :
    Covers g size mem (tuNormExecute (exactReals g) size mem desc) desc.dataOffset.toNat desc.elemCount.toNat
        (rowValue desc.mode gamma beta epsilon desc.axis desc.elemCount.toNat x) ↔
      desc.dataOffset.toNat + 4 * desc.elemCount.toNat ≤ size ∧
        (desc.mode = .batchNorm → ∀ v, beta = some v → ∀ j < desc.axis, v j = 0) ∧
          ∀ i, desc.wholeRows * desc.axis ≤ i → i < desc.elemCount.toNat →
            x i = rowValue desc.mode gamma beta epsilon desc.axis desc.elemCount.toNat x i := by
  obtain ⟨haxis, hle, -⟩ := axis_of_accepted hacc
  have hsnd : (tuNormExecute (exactReals g) size mem desc).2 = true := by rw [tuNormExecute_snd, hacc]
  have hwhole : desc.wholeRows * desc.axis ≤ desc.elemCount.toNat := Nat.div_mul_le_self _ _
  unfold Covers
  rw [hsnd]
  constructor
  · rintro (⟨hfalse, -⟩ | ⟨-, hfits, hvalue⟩)
    · exact absurd hfalse (by decide)
    obtain ⟨-, htable, hkept⟩ := tuNormExecute_exact hsize hacc h hfits
    refine ⟨hfits, ?_, ?_⟩
    · intro hmode v hv j hj
      have hrows : 0 < desc.wholeRows := Nat.div_pos hle haxis
      have hstored := htable 0 hrows j hj
      have hwanted := hvalue (0 * desc.axis + j) (by omega)
      rw [rowValue_of_whole hrows hj, hstored, EReal.coe_eq_coe_iff] at hwanted
      exact normalised_addedBias.1 hwanted hmode v hv
    · intro i hi hi'
      have hload := load_congr (w := 4) (g := g) (by omega) fun k hk =>
        hkept (desc.dataOffset.toNat + 4 * i + k) (Or.inr (by omega))
      rw [← EReal.coe_eq_coe_iff, ← hvalue i hi', hload, h.data i hi']
  · rintro ⟨hfits, hbias, htail⟩
    obtain ⟨-, htable, hkept⟩ := tuNormExecute_exact hsize hacc h hfits
    refine Or.inr ⟨rfl, hfits, ?_⟩
    intro i hi
    by_cases hrow : i < desc.wholeRows * desc.axis
    · have hr : i / desc.axis < desc.wholeRows := (Nat.div_lt_iff_lt_mul haxis).2 hrow
      have hj := Nat.mod_lt i haxis
      have hsplit : i / desc.axis * desc.axis + i % desc.axis = i := by
        rw [Nat.mul_comm]
        exact Nat.div_add_mod i desc.axis
      have hstored := htable _ hr _ hj
      have hwanted : rowValue desc.mode gamma beta epsilon desc.axis desc.elemCount.toNat x (i / desc.axis * desc.axis + i % desc.axis) =
          normalised desc.mode gamma beta epsilon desc.axis (fun j => x (i / desc.axis * desc.axis + j)) (i % desc.axis) :=
        rowValue_of_whole hr hj
      rw [hsplit] at hstored hwanted
      rw [hstored, hwanted, EReal.coe_eq_coe_iff, normalised_addedBias]
      exact fun hmode v hv => hbias hmode v hv _ hj
    · have hload := load_congr (w := 4) (g := g) (by omega) fun k hk =>
        hkept (desc.dataOffset.toNat + 4 * i + k) (Or.inr (by omega))
      rw [hload, h.data i hi, ← htail i (by omega) hi]

/-! ### The wrappers -/

/-- Real numbers in the extended ones. -/
def coes (values : Option (Nat → ℝ)) : Option (Nat → EReal) := values.map fun v i => (v i : EReal)

section

variable {size : Nat} (hsize : size < 2 ^ 32) {mem : Nat → NumByte EReal} {offset count : Nat} (h : offset + 4 * count ≤ size)
include hsize h

theorem stage_outside (values : Option (Nat → EReal)) {b : Nat} (hb : b < offset ∨ offset + 4 * count ≤ b) :
    stage (exactReals g) size mem offset values count b = mem b := by
  cases values with
  | none => rfl
  | some values =>
    show sramStoreFloats (exactReals g) size mem offset ((List.range count).map values) b = mem b
    rw [sramStoreFloats_exact hsize h, fill_outside hb]

theorem load_stage (v : Nat → ℝ) {i : Nat} (hi : i < count) :
    load 4 g (stage (exactReals g) size mem offset (coes (some v)) count) (offset + 4 * i) = v i := by
  show load 4 g (sramStoreFloats (exactReals g) size mem offset ((List.range count).map fun i => (v i : EReal))) _ = _
  rw [sramStoreFloats_exact hsize h, load_fill (by omega) hi]

end

/-- The call of a wrapper on `n` numbers is refused before anything is stored, or neither the tensor nor the place of its
parameters wraps. -/
def WrapperFits (size offset n axisDim params count : Nat) (staged : Bool) : Prop :=
  if staged then tempBase size params count < offset + 4 * u32 n ∨ n < 2 ^ 32 ∧ 4 * (params * count) ≤ size
  else u32 n = 0 ∨ u32 n < axisDim ∨ size < u32 (offset + 4 * u32 n) ∨ offset + 4 * n ≤ size

/-- What the wrappers' descriptors have in common: `n` numbers in rows of `count`, and results in place. -/
structure TuNormDesc.WrapperOf (desc : TuNormDesc EReal) (n count : Nat) (epsilon : ℝ) : Prop where
  mode_ne : desc.mode ≠ .batchNorm
  elemCount_eq : desc.elemCount.toNat = u32 n
  inPlace : desc.inPlace = true ∨ desc.outOffset = desc.dataOffset
  noGamma : desc.gammaSram = .none
  noBeta : desc.betaSram = .none
  epsilon_eq : desc.epsilon = epsilon
  axis_eq : desc.axis = count
  divides : count ∣ n

section

variable {size : Nat} (hsize : size < 2 ^ 32) {mem : Nat → NumByte EReal} {desc : TuNormDesc EReal} {n count : Nat}
  {gamma beta : Option (Nat → ℝ)} {epsilon : ℝ} {x : Nat → ℝ}
include hsize

/-- An accepted call on whole rows covers the tensor. -/
theorem covers_of_divides (hmode : desc.mode ≠ .batchNorm) (hcount : desc.elemCount.toNat = n) (haxis : desc.axis ∣ n)
    (hacc : tuNormValidateDesc size desc = true) (h : desc.Of g size mem gamma beta epsilon x)
    (hfits : desc.dataOffset.toNat + 4 * n ≤ size) :
    (tuNormExecute (exactReals g) size mem desc).2 = true ∧
      ∀ i < n, load 4 g (tuNormExecute (exactReals g) size mem desc).1 (desc.dataOffset.toNat + 4 * i) =
        rowValue desc.mode gamma beta epsilon desc.axis n x i := by
  subst hcount
  have hwhole : desc.wholeRows * desc.axis = desc.elemCount.toNat := Nat.div_mul_cancel haxis
  have hcovers := (covers_of_accepted hsize hacc h).2 ⟨hfits, fun hbatch => absurd hbatch hmode, fun i hi hi' => by omega⟩
  rcases hcovers with ⟨hfalse, -⟩ | ⟨htrue, -, hvalue⟩
  · rw [tuNormExecute_snd, hacc] at hfalse
    exact absurd hfalse (by decide)
  · exact ⟨htrue, hvalue⟩

omit hsize in
/-- Without parameters a wrapper calls the engine. -/
theorem executeStaged_none (params : Nat) : executeStaged (exactReals g) size mem desc params count (coes none) (coes none) =
    tuNormExecute (exactReals g) size mem desc := by
  unfold executeStaged
  exact if_pos ⟨rfl, rfl⟩

omit hsize in
theorem normAxisDim_le_axis : desc.normAxisDim.toNat ≤ desc.axis := by
  unfold TuNormDesc.axis axisLength
  split
  · rw [‹desc.normAxisDim = 0›]
    exact Nat.zero_le _
  · exact le_refl _

/-- A call with parameters that are staged above the tensor. -/
theorem covers_of_staged {params : Nat} (hparams : params = 1 ∧ beta = none ∨ params = 2)
    (h : desc.WrapperOf n count epsilon) (hdata : ∀ i < n, load 4 g mem (desc.dataOffset.toNat + 4 * i) = x i)
    (hn : n < 2 ^ 32) (hroom : 4 * (params * count) ≤ size)
    (habove : desc.dataOffset.toNat + desc.elemCount.toNat * 4 ≤ tempBase size params count) :
    let base := tempBase size params count
    let mem' := stage (exactReals g) size (stage (exactReals g) size mem base (coes gamma) count) (u32 (base + count * 4))
      (coes beta) count
    Covers g size mem (tuNormExecute (exactReals g) size mem'
        (desc.withParams (coes gamma).isSome (coes beta).isSome base (u32 (base + count * 4))))
      desc.dataOffset.toNat n (rowValue desc.mode gamma beta epsilon count n x) := by
  have hcount : desc.elemCount.toNat = n := h.elemCount_eq.trans (u32_of_lt hn)
  have hbase : tempBase size params count = size - 4 * (params * count) := by
    have hsmall : count * params < 2 ^ 32 := by
      rw [Nat.mul_comm]
      omega
    unfold tempBase
    rw [u32_of_lt hsmall, Nat.mul_comm count, show size + 2 ^ 64 - params * count * 4 = size - 4 * (params * count) + 2 ^ 32 * 2 ^ 32 by omega]
    unfold u32
    rw [Nat.add_mul_mod_self_left, Nat.mod_eq_of_lt (by omega)]
  generalize tempBase size params count = base at hbase habove
  have hparam : base + 4 * count ≤ size ∧ (beta = none ∨ base + 4 * count + 4 * count ≤ size) := by
    rcases hparams with ⟨rfl, hnone⟩ | rfl
    · exact ⟨by omega, Or.inl hnone⟩
    · exact ⟨by omega, Or.inr (by omega)⟩
  obtain ⟨hgammaEnd, hbetaEnd⟩ := hparam
  have hbetaBase : u32 (base + count * 4) = base + 4 * count := by
    rw [Nat.mul_comm count]
    exact u32_of_lt (by omega)
  intro base' mem'
  have hmem : mem' = stage (exactReals g) size (stage (exactReals g) size mem base (coes gamma) count) (base + 4 * count)
      (coes beta) count := by
    rw [← hbetaBase]
  -- the second parameter is stored above the first one
  have hsecond : ∀ b < base + 4 * count, mem' b = stage (exactReals g) size mem base (coes gamma) count b := by
    intro b hb
    rw [hmem]
    rcases hbetaEnd with rfl | hend
    · rfl
    · exact stage_outside hsize hend _ (Or.inl hb)
  have hkept : ∀ b < base, mem' b = mem b := by
    intro b hb
    rw [hsecond b (by omega)]
    exact stage_outside hsize hgammaEnd _ (Or.inl hb)
  rw [hbetaBase]
  generalize hstaged : desc.withParams (coes gamma).isSome (coes beta).isSome base (base + 4 * count) = desc'
  have hsame : desc'.mode = desc.mode ∧ desc'.dataOffset = desc.dataOffset ∧ desc'.elemCount = desc.elemCount ∧
      desc'.axis = desc.axis := by
    subst hstaged
    exact ⟨rfl, rfl, rfl, rfl⟩
  obtain ⟨hmode, hoffset, helems, haxis⟩ := hsame
  by_cases hacc : tuNormValidateDesc size desc' = true
  · have hof : desc'.Of g size mem' gamma beta epsilon x := by
      subst hstaged
      refine ⟨h.inPlace, h.epsilon_eq, ?_, ?_, ?_⟩
      · intro i hi
        have hi' : i < n := hcount ▸ hi
        have hload := load_congr (w := 4) (g := g) (by omega) fun k hk => hkept (desc.dataOffset.toNat + 4 * i + k) (by omega)
        exact hload.trans (hdata i hi')
      · rw [haxis, h.axis_eq]
        cases gamma with
        | none => trivial
        | some v =>
          have hload : ∀ i < count, load 4 g mem' (base + 4 * i) = v i := by
            intro i hi
            rw [load_congr (w := 4) (g := g) (by omega) fun k hk => hsecond (base + 4 * i + k) (by omega)]
            exact load_stage hsize hgammaEnd v hi
          have hbaseLt : base < 2 ^ 32 := by omega
          have hoffset : (desc.withParams (coes (some v)).isSome (coes beta).isSome base (base + 4 * count)).gammaOffset.toNat =
              base := UInt32.toNat_ofNat_of_lt' hbaseLt
          rw [hoffset]
          exact ⟨hgammaEnd, hload⟩
      · rw [haxis, h.axis_eq]
        cases beta with
        | none => trivial
        | some v =>
          have hend : base + 4 * count + 4 * count ≤ size := hbetaEnd.resolve_left nofun
          have hbetaLt : base + 4 * count < 2 ^ 32 := by omega
          have hoffset : (desc.withParams (coes gamma).isSome (coes (some v)).isSome base (base + 4 * count)).betaOffset.toNat =
              base + 4 * count := UInt32.toNat_ofNat_of_lt' hbetaLt
          rw [hoffset, hmem]
          exact ⟨hend, fun i hi => load_stage hsize hend v hi⟩
    have hdivides : desc'.axis ∣ n := by
      rw [haxis, h.axis_eq]
      exact h.divides
    have hinside : desc.dataOffset.toNat + 4 * n ≤ size := by omega
    have hmode' : desc'.mode ≠ .batchNorm := by rw [hmode]; exact h.mode_ne
    have hcount' : desc'.elemCount.toNat = n := by rw [helems]; exact hcount
    have hinside' : desc'.dataOffset.toNat + 4 * n ≤ size := by rw [hoffset]; exact hinside
    obtain ⟨hok, hvalue⟩ := covers_of_divides hsize hmode' hcount' hdivides hacc hof hinside'
    rw [hmode, hoffset, haxis, h.axis_eq] at hvalue
    exact Or.inr ⟨hok, hinside, hvalue⟩
  · rw [Bool.not_eq_true] at hacc
    rw [tuNormExecute_refused hacc]
    exact Or.inl ⟨rfl, fun b _ hb => hkept b (by omega)⟩

theorem executeStaged_covers {params : Nat} (hparams : params = 1 ∧ beta = none ∨ params = 2)
    (h : desc.WrapperOf n count epsilon) (hdata : ∀ i < n, load 4 g mem (desc.dataOffset.toNat + 4 * i) = x i)
    (hfits : WrapperFits size desc.dataOffset.toNat n desc.normAxisDim.toNat params count (gamma.isSome || beta.isSome)) :
    Covers g size mem (executeStaged (exactReals g) size mem desc params count (coes gamma) (coes beta))
      desc.dataOffset.toNat n (rowValue desc.mode gamma beta epsilon count n x) := by
  by_cases hnone : gamma = none ∧ beta = none
  · -- no parameters: the call of the engine itself
    obtain ⟨rfl, rfl⟩ := hnone
    rw [executeStaged_none]
    by_cases hacc : tuNormValidateDesc size desc = true
    · obtain ⟨hpos, hle, hend⟩ := axis_of_accepted hacc
      have hdim : desc.normAxisDim.toNat ≤ desc.axis := normAxisDim_le_axis
      rw [h.elemCount_eq] at hle hend
      unfold WrapperFits at hfits
      rw [if_neg (by decide)] at hfits
      have hinside : desc.dataOffset.toNat + 4 * n ≤ size := by
        rcases hfits with hzero | hshort | hlong | hinside
        · omega
        · omega
        · rw [Nat.mul_comm] at hend
          omega
        · exact hinside
      have hcount : desc.elemCount.toNat = n := h.elemCount_eq.trans (u32_of_lt (by omega))
      have hof : desc.Of g size mem none none epsilon x := by
        refine ⟨h.inPlace, h.epsilon_eq, fun i hi => hdata i (hcount ▸ hi), ?_, ?_⟩
        · rw [h.noGamma]
          trivial
        · rw [h.noBeta]
          trivial
      obtain ⟨hok, hvalue⟩ := covers_of_divides hsize h.mode_ne hcount (h.axis_eq ▸ h.divides) hacc hof hinside
      rw [h.axis_eq] at hvalue
      exact Or.inr ⟨hok, hinside, hvalue⟩
    · rw [Bool.not_eq_true] at hacc
      rw [tuNormExecute_refused hacc]
      exact Or.inl ⟨rfl, fun _ _ _ => rfl⟩
  · have hstaged : ¬ ((coes gamma).isNone = true ∧ (coes beta).isNone = true) := by
      unfold coes
      simpa using hnone
    have hsome : (gamma.isSome || beta.isSome) = true := by
      cases gamma with
      | none =>
        cases beta with
        | none => exact absurd ⟨rfl, rfl⟩ hnone
        | some _ => rfl
      | some _ => rfl
    unfold WrapperFits at hfits
    rw [hsome, if_pos rfl] at hfits
    unfold executeStaged
    dsimp only
    rw [if_neg hstaged]
    by_cases hlow : tempBase size params count < desc.dataOffset.toNat + desc.elemCount.toNat * 4
    · rw [if_pos hlow]
      exact Or.inl ⟨rfl, fun _ _ _ => rfl⟩
    · rw [if_neg hlow]
      have hroom : n < 2 ^ 32 ∧ 4 * (params * count) ≤ size := by
        rcases hfits with hrefused | hroom
        · rw [h.elemCount_eq] at hlow
          omega
        · exact hroom
      exact covers_of_staged hsize hparams h hdata hroom.1 hroom.2 (Nat.le_of_not_lt hlow)

omit hsize in
/-- Without parameters a call that covers the tensor is refused or does not wrap. -/
theorem fits_of_covers {params : Nat} {value : Nat → ℝ} (h : desc.WrapperOf n count epsilon)
    (hcovers : Covers g size mem (executeStaged (exactReals g) size mem desc params count (coes none) (coes none))
      desc.dataOffset.toNat n value) :
    WrapperFits size desc.dataOffset.toNat n desc.normAxisDim.toNat params count false := by
  rw [executeStaged_none] at hcovers
  unfold WrapperFits
  rw [if_neg (by decide)]
  rcases hcovers with ⟨hrefused, -⟩ | ⟨-, hinside, -⟩
  · rw [tuNormExecute_snd] at hrefused
    unfold tuNormValidateDesc at hrefused
    simp only [Bool.and_eq_false_iff, bne_eq_false_iff_eq, Bool.not_eq_false', decide_eq_true_eq] at hrefused
    rw [← h.elemCount_eq]
    rcases hrefused with (hzero | haxis) | hlong
    · exact Or.inl (by rw [hzero]; rfl)
    · exact Or.inr (Or.inl (UInt32.lt_iff_toNat_lt.1 haxis))
    · rw [Nat.mul_comm] at hlong
      exact Or.inr (Or.inr (Or.inl hlong))
  · exact Or.inr (Or.inr (Or.inr hinside))

end

/-- The engine covers a tensor in place exactly if it refuses it, or the tensor lies in the region, no bias is left out and the
numbers past the last whole row are normalised already; the wrappers do if they refuse the call or nothing wraps, and without
parameters only then. -/
theorem tuNorm_covers_iff {size : Nat} (hsize : size < 2 ^ 32) (mem : Nat → NumByte EReal) (gamma beta : Option (Nat → ℝ))
    (epsilon : ℝ) (x : Nat → ℝ) :
    (∀ desc : TuNormDesc EReal, (tuNormValidateDesc size desc = true → desc.Of g size mem gamma beta epsilon x) →
      (Covers g size mem (tuNormExecute (exactReals g) size mem desc) desc.dataOffset.toNat desc.elemCount.toNat
          (rowValue desc.mode gamma beta epsilon desc.axis desc.elemCount.toNat x) ↔
        tuNormValidateDesc size desc = false ∨
          desc.dataOffset.toNat + 4 * desc.elemCount.toNat ≤ size ∧
            (desc.mode = .batchNorm → ∀ v, beta = some v → ∀ j < desc.axis, v j = 0) ∧
              ∀ i, desc.wholeRows * desc.axis ≤ i → i < desc.elemCount.toNat →
                x i = rowValue desc.mode gamma beta epsilon desc.axis desc.elemCount.toNat x i)) ∧
      (∀ (offset elemCount : UInt32) (inPlace : Bool), (∀ i < elemCount.toNat, load 4 g mem (offset.toNat + 4 * i) = x i) →
        let n := elemCount.toNat
        let layernorm := Covers g size mem
          (tuLayernorm (exactReals g) size mem offset elemCount (coes gamma) (coes beta) epsilon inPlace) offset.toNat n
          (rowValue .layerNorm gamma beta epsilon n n x)
        let rmsnorm := Covers g size mem (tuRmsnorm (exactReals g) size mem offset elemCount (coes gamma) epsilon inPlace)
          offset.toNat n (rowValue .rmsNorm gamma none epsilon n n x)
        (WrapperFits size offset.toNat n 0 2 n (gamma.isSome || beta.isSome) → layernorm) ∧
          (WrapperFits size offset.toNat n 0 1 n gamma.isSome → rmsnorm) ∧
          (gamma = none → beta = none → layernorm → WrapperFits size offset.toNat n 0 2 n false) ∧
          (gamma = none → rmsnorm → WrapperFits size offset.toNat n 0 1 n false)) ∧
      (∀ offset rows cols : UInt32, (∀ i < rows.toNat * cols.toNat, load 4 g mem (offset.toNat + 4 * i) = x i) →
        let n := rows.toNat * cols.toNat
        let layernorm := Covers g size mem
          (tuLayernorm2d (exactReals g) size mem offset rows cols (coes gamma) (coes beta) epsilon) offset.toNat n
          (rowValue .layerNorm gamma beta epsilon cols.toNat n x)
        let rmsnorm := Covers g size mem (tuRmsnorm2d (exactReals g) size mem offset rows cols (coes gamma) epsilon)
          offset.toNat n (rowValue .rmsNorm gamma none epsilon cols.toNat n x)
        (WrapperFits size offset.toNat n cols.toNat 2 cols.toNat (gamma.isSome || beta.isSome) → layernorm) ∧
          (WrapperFits size offset.toNat n cols.toNat 1 cols.toNat gamma.isSome → rmsnorm) ∧
          (gamma = none → beta = none → layernorm → WrapperFits size offset.toNat n cols.toNat 2 cols.toNat false) ∧
          (gamma = none → rmsnorm → WrapperFits size offset.toNat n cols.toNat 1 cols.toNat false)) := by
  refine ⟨?_, ?_, ?_⟩
  · intro desc hof
    by_cases hacc : tuNormValidateDesc size desc = true
    · rw [covers_of_accepted hsize hacc (hof hacc), hacc]
      simp only [Bool.true_eq_false, false_or]
    · rw [Bool.not_eq_true] at hacc
      rw [tuNormExecute_refused hacc, hacc]
      exact ⟨fun _ => Or.inl rfl, fun _ => Or.inl ⟨rfl, fun _ _ _ => rfl⟩⟩
  · intro offset elemCount inPlace hdata n
    have hwhole : ∀ mode ≠ TuNormMode.batchNorm, TuNormDesc.WrapperOf
        { mode := mode, dataOffset := offset, elemCount := elemCount, epsilon := (epsilon : EReal), normAxisDim := 0
          inPlace := inPlace, outOffset := offset } n n epsilon := fun mode hmode =>
      ⟨hmode, (u32_of_lt elemCount.toNat_lt).symm, Or.inr rfl, rfl, rfl, rfl, rfl, dvd_refl n⟩
    refine ⟨fun hfits => ?_, fun hfits => ?_, ?_, ?_⟩
    · exact executeStaged_covers hsize (Or.inr rfl) (hwhole .layerNorm (by decide)) hdata hfits
    · exact executeStaged_covers hsize (Or.inl ⟨rfl, rfl⟩) (hwhole .rmsNorm (by decide)) hdata
        (by rwa [Option.isSome_none, Bool.or_false])
    · rintro rfl rfl hcovers
      exact fits_of_covers (hwhole .layerNorm (by decide)) hcovers
    · rintro rfl hcovers
      exact fits_of_covers (hwhole .rmsNorm (by decide)) hcovers
  · intro offset rows cols hdata n
    have hrows : ∀ mode ≠ TuNormMode.batchNorm, TuNormDesc.WrapperOf
        { mode := mode, dataOffset := offset, elemCount := rows * cols, epsilon := (epsilon : EReal), normAxisDim := cols
          inPlace := true, outOffset := offset } n cols.toNat epsilon := by
      intro mode hmode
      refine ⟨hmode, UInt32.toNat_mul .., Or.inl rfl, rfl, rfl, rfl, ?_, Nat.dvd_mul_left ..⟩
      unfold TuNormDesc.axis axisLength
      dsimp only
      split
      · rw [‹cols = 0›]
        rw [UInt32.mul_zero]
      · rfl
    refine ⟨fun hfits => ?_, fun hfits => ?_, ?_, ?_⟩
    · exact executeStaged_covers hsize (Or.inr rfl) (hrows .layerNorm (by decide)) hdata hfits
    · exact executeStaged_covers hsize (Or.inl ⟨rfl, rfl⟩) (hrows .rmsNorm (by decide)) hdata
        (by rwa [Option.isSome_none, Bool.or_false])
    · rintro rfl rfl hcovers
      exact fits_of_covers (hrows .layerNorm (by decide)) hcovers
    · rintro rfl hcovers
      exact fits_of_covers (hrows .rmsNorm (by decide)) hcovers

/-- Three ones in rows of two. -/
noncomputable def raggedDesc : TuNormDesc EReal :=
  { mode := .layerNorm, dataOffset := 0, elemCount := 3, epsilon := ((1 : ℝ) : EReal), normAxisDim := 2, inPlace := true
    outOffset := 0 }

noncomputable def threeOnes : Nat → NumByte EReal := fill 4 (fun _ => ⟨0, 0, 0⟩) 0 (fun _ => ((1 : ℝ) : EReal)) 3

theorem load_threeOnes {i : Nat} (hi : i < 3) : load 4 0 threeOnes (0 + 4 * i) = ((1 : ℝ) : EReal) :=
  load_fill (by omega) hi

/-- Three ones: in one row of three, and the first of them with a scale and a bias staged above it. -/
theorem tuNorm_covers_ones :
    Covers 0 12 threeOnes (tuNormExecute (exactReals 0) 12 threeOnes { raggedDesc with normAxisDim := 0 }) 0 3
        (rowValue .layerNorm none none 1 3 3 fun _ => 1) ∧
      Covers 0 12 threeOnes (tuLayernorm (exactReals 0) 12 threeOnes 0 1 (coes (some fun _ => 2)) (coes (some fun _ => 3))
        ((1 : ℝ) : EReal) true) 0 1 (rowValue .layerNorm (some fun _ => 2) (some fun _ => 3) 1 1 1 fun _ => 1) := by
  constructor
  · apply ((tuNorm_covers_iff (by decide) threeOnes none none 1 fun _ => 1).1 { raggedDesc with normAxisDim := 0 } ?_).2
    · refine Or.inr ⟨by decide, nofun, ?_⟩
      intro i hi hi'
      have hwhole : TuNormDesc.wholeRows { raggedDesc with normAxisDim := 0 } *
          TuNormDesc.axis { raggedDesc with normAxisDim := 0 } = 3 := rfl
      have hcount : i < 3 := hi'
      omega
    · exact fun _ => ⟨Or.inl rfl, rfl, fun i hi => load_threeOnes hi, trivial, trivial⟩
  · apply ((tuNorm_covers_iff (by decide) threeOnes (some fun _ => 2) (some fun _ => 3) 1 fun _ => 1).2.1 0 1 true ?_).1
    · exact Or.inr ⟨by decide, by decide⟩
    · intro i hi
      have hi' : i < 1 := hi
      exact load_threeOnes (by omega)

/-- The last of three ones in rows of two is not normalised: it stays 1, where a row of one number becomes 0. -/
theorem ragged_not_covered :
    tuNormValidateDesc 12 raggedDesc = true ∧ raggedDesc.Of 0 12 threeOnes none none 1 (fun _ => 1) ∧
      ¬ Covers 0 12 threeOnes (tuNormExecute (exactReals 0) 12 threeOnes raggedDesc) 0 3
        (rowValue .layerNorm none none 1 2 3 fun _ => 1) := by
  have hof : raggedDesc.Of 0 12 threeOnes none none 1 (fun _ => 1) :=
    ⟨Or.inl rfl, rfl, fun i hi => load_threeOnes hi, trivial, trivial⟩
  refine ⟨by decide, hof, ?_⟩
  intro hcovers
  have htail := ((covers_of_accepted (by decide) (by decide) hof).1 hcovers).2.2 2 (by decide) (by decide)
  have hvalue : rowValue .layerNorm none none 1 2 3 (fun _ => 1) 2 = 0 := by
    simp [rowValue, normalised, mean]
  exact one_ne_zero (htail.trans hvalue)

end Tusim.Norm
