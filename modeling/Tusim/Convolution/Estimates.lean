import Mathlib.Data.Int.ModEq
import Mathlib.Tactic.GCongr
import Tusim.Agen.AddressGenerator
import Tusim.Compute.Dataflow
import Tusim.Convolution.Lowering

/-!
# Shapes and estimates of a convolution

What the driver computes about a convolution before it runs: the shape of the output and the number of cycles.
-/

/-!
### The shape of a convolution

`tu_conv_compute_dims` divides before it looks at the sign, and the division truncates: an axis is refused only if the
kernel exceeds the padded input by the stride or more (`outDim_pos`).  The extent of the kernel is computed in 32 bits,
and so is the result narrowed; the two errors cancel where the stride divides what the product lost (`u32_outDim_iff`).
-/

namespace Tusim.Conv

open Word

/-! ### Axes -/

/-- What the shape of an output axis depends on. -/
structure ConvAxis where
  size : Nat
  padBefore : Nat
  padAfter : Nat
  dilation : Nat
  kernel : Nat
  stride : Nat

namespace ConvAxis

variable (a : ConvAxis)

/-- What the dilated kernel leaves of the padded input. -/
def room : Int := a.size + a.padBefore + a.padAfter - (a.dilation * ((a.kernel : Int) - 1) + 1)

/-- The dilated kernel fits the padded input. -/
def Fits : Prop := 0 < a.kernel ∧ 0 ≤ a.room

/-- The extent of the output. -/
def extent : Int := a.room / a.stride + 1

/-- How often the extent of the kernel wraps around. -/
def wraps : Int := a.dilation * ((a.kernel : Int) - 1) / 2 ^ 32

/-- The room as 32 bits have it is more than one stride short of none. -/
def Admitted : Prop := -(a.stride : Int) < a.room + 2 ^ 32 * a.wraps

instance : Decidable a.Fits := inferInstanceAs (Decidable (_ ∧ _))

instance : Decidable a.Admitted := inferInstanceAs (Decidable (_ < _))

/-- The number of output positions as the source computes it. -/
def computed : Int := outDim a.size a.padBefore a.padAfter a.dilation a.kernel a.stride

theorem computed_eq : a.computed = (a.room + 2 ^ 32 * a.wraps).tdiv a.stride + 1 := by
  have hkernel : ((u32 (a.kernel + 2 ^ 32 - 1) : Nat) : Int) = ((a.kernel : Int) - 1) % 2 ^ 32 := by
    unfold u32
    omega
  have hproduct : ((u32 (a.dilation * u32 (a.kernel + 2 ^ 32 - 1)) : Nat) : Int) =
      a.dilation * ((a.kernel : Int) - 1) % 2 ^ 32 := by
    conv_lhs => unfold u32
    rw [Int.natCast_mod, Int.natCast_mul, show ((a.kernel + 2 ^ 32 - 1) % 2 ^ 32 : Nat) = u32 (a.kernel + 2 ^ 32 - 1) from rfl,
      hkernel]
    rw [Nat.cast_pow, Nat.cast_ofNat, Int.mul_emod, Int.emod_emod_of_dvd _ (dvd_refl _), ← Int.mul_emod]
  have hdiv := Int.emod_add_mul_ediv (a.dilation * ((a.kernel : Int) - 1)) (2 ^ 32)
  unfold computed outDim room wraps
  rw [hproduct]
  congr 2
  omega

variable {a}

theorem computed_pos (hstride : 0 < a.stride) : 0 < a.computed ↔ a.Admitted := by
  rw [computed_eq]
  unfold Admitted
  generalize a.room + 2 ^ 32 * a.wraps = x
  rcases lt_or_ge x 0 with hneg | hpos
  · have hquot : x.tdiv a.stride = -((-x) / a.stride) := by
      rw [← Int.tdiv_eq_ediv_of_nonneg (by omega), Int.neg_tdiv, neg_neg]
    have hlt : (-x) / (a.stride : Int) < 1 ↔ -x < 1 * (a.stride : Int) := Int.ediv_lt_iff_lt_mul (by omega)
    rw [hquot]
    omega
  · have hquot : 0 ≤ x.tdiv a.stride := Int.tdiv_nonneg hpos (by omega)
    omega

/-- A refused axis does not fit. -/
theorem not_fits (hstride : 0 < a.stride) (h : ¬ a.Admitted) : ¬ a.Fits := by
  rintro ⟨hkernel, hroom⟩
  have hwraps : 0 ≤ a.wraps :=
    Int.ediv_nonneg (Int.mul_nonneg (Int.natCast_nonneg _) (by omega)) (by norm_num)
  unfold Admitted at h
  omega

theorem wraps_nonneg (h : a.Fits) : 0 ≤ a.wraps :=
  Int.ediv_nonneg (Int.mul_nonneg (Int.natCast_nonneg _) (by have := h.1; omega)) (by norm_num)

/-- A quotient of a number that has lost multiples of `2 ^ 32`, narrowed to 32 bits. -/
theorem narrowed_eq_iff {n w s : Nat} (hs : 0 < s) (hs' : s < 2 ^ 32) :
    u32 ((n + 2 ^ 32 * w) / s + 1) = n / s + 1 ↔ s ∣ w ∧ n / s + 1 < 2 ^ 32 := by
  constructor
  · intro h
    have hlt : n / s + 1 < 2 ^ 32 := by
      rw [← h]
      exact Nat.mod_lt _ (by decide)
    have hle : n / s ≤ (n + 2 ^ 32 * w) / s := Nat.div_le_div_right (Nat.le_add_right _ _)
    obtain ⟨t, ht⟩ : ∃ t, (n + 2 ^ 32 * w) / s = n / s + 2 ^ 32 * t := by
      unfold u32 at h
      exact ⟨((n + 2 ^ 32 * w) / s + 1) / 2 ^ 32, by omega⟩
    have hlow := Nat.mul_div_le n s
    have hhigh := Nat.lt_mul_div_succ n hs
    have hlow' := Nat.mul_div_le (n + 2 ^ 32 * w) s
    have hhigh' := Nat.lt_mul_div_succ (n + 2 ^ 32 * w) hs
    have hsplit : s * (n / s + 2 ^ 32 * t) = s * (n / s) + 2 ^ 32 * (s * t) := by ring
    rw [ht, Nat.mul_add_one, hsplit] at hhigh'
    rw [ht, hsplit] at hlow'
    rw [Nat.mul_add_one] at hhigh
    exact ⟨⟨t, by omega⟩, hlt⟩
  · rintro ⟨⟨t, rfl⟩, hlt⟩
    have hquot : (n + 2 ^ 32 * (s * t)) / s = n / s + 2 ^ 32 * t := by
      rw [show n + 2 ^ 32 * (s * t) = n + s * (2 ^ 32 * t) by ring, Nat.add_mul_div_left _ _ hs]
    rw [hquot]
    generalize n / s = q at hlt ⊢
    unfold u32
    omega

/-- What the source stores as the extent of an axis that fits. -/
theorem u32_computed_iff (hstride : 0 < a.stride) (hstride' : a.stride < 2 ^ 32) (h : a.Fits) :
    (u32 a.computed.toNat : Int) = a.extent ↔ (a.stride : Int) ∣ a.wraps ∧ a.extent < 2 ^ 32 := by
  obtain ⟨w, hw⟩ := Int.eq_ofNat_of_zero_le (wraps_nonneg h)
  obtain ⟨n, hn⟩ := Int.eq_ofNat_of_zero_le h.2
  have hquot : (a.room + 2 ^ 32 * a.wraps).tdiv a.stride + 1 = (((n + 2 ^ 32 * w) / a.stride + 1 : Nat) : Int) := by
    rw [Int.tdiv_eq_ediv_of_nonneg (by omega), hn, hw]
    push_cast
    rfl
  have hextent : a.extent = ((n / a.stride + 1 : Nat) : Int) := by
    unfold extent
    rw [hn]
    push_cast
    rfl
  rw [computed_eq, hquot, hextent, Int.toNat_natCast, Int.natCast_inj, narrowed_eq_iff hstride hstride', hw,
    Int.natCast_dvd_natCast]
  norm_cast

/-- The extent in natural numbers, with the same padding at both ends. -/
theorem extent_symmetric (hsym : a.padBefore = a.padAfter) (h : a.Fits) :
    ¬ a.size + 2 * a.padBefore < (a.kernel - 1) * a.dilation + 1 ∧
      a.extent = ((a.size + 2 * a.padBefore - ((a.kernel - 1) * a.dilation + 1)) / a.stride + 1 : Nat) := by
  obtain ⟨hkernel, hroom⟩ := h
  have hproduct : (a.dilation : Int) * ((a.kernel : Int) - 1) = (((a.kernel - 1) * a.dilation : Nat) : Int) := by
    rw [Nat.cast_mul, Nat.cast_sub hkernel, mul_comm]
    rfl
  have hroom' : a.room = (a.size + 2 * a.padBefore : Nat) - ((a.kernel - 1) * a.dilation + 1 : Nat) := by
    unfold room
    rw [hproduct]
    omega
  have hfits : (a.kernel - 1) * a.dilation + 1 ≤ a.size + 2 * a.padBefore := by omega
  refine ⟨Nat.not_lt.2 hfits, ?_⟩
  unfold extent
  rw [hroom', ← Nat.cast_sub hfits]
  push_cast
  rfl

/-- The axis fits and the arithmetic of the source gives its extent. -/
structure Exact (a : ConvAxis) : Prop where
  fits : a.Fits
  wraps : (a.stride : Int) ∣ a.wraps
  extent : a.extent < 2 ^ 32

end ConvAxis

/-! ### Descriptors -/

namespace TuConvDesc

variable (d : TuConvDesc)

def rows : ConvAxis := ⟨d.inHeight, d.padT, d.padB, d.dilationH, d.kernelH, d.strideH⟩

def cols : ConvAxis := ⟨d.inWidth, d.padL, d.padR, d.dilationW, d.kernelW, d.strideW⟩

/-- The fields of the two axes are 32-bit numbers. -/
structure AxesAre32 : Prop where
  inHeight : d.inHeight < 2 ^ 32
  inWidth : d.inWidth < 2 ^ 32
  kernelH : d.kernelH < 2 ^ 32
  kernelW : d.kernelW < 2 ^ 32
  strideH : d.strideH < 2 ^ 32
  strideW : d.strideW < 2 ^ 32
  padT : d.padT < 2 ^ 32
  padL : d.padL < 2 ^ 32
  dilationH : d.dilationH < 2 ^ 32
  dilationW : d.dilationW < 2 ^ 32

/-- The descriptors that are to be accepted. -/
def Valid : Prop := d.rows.Fits ∧ d.cols.Fits ∧ d.groups ∣ d.inChannels ∧ d.groups ∣ d.outChannels

/-- Both axes are padded alike at their two ends. -/
def Symmetric : Prop := d.padT = d.padB ∧ d.padL = d.padR

/-- The same shape for the address generator. -/
def toIm2col (inputC elemSize : UInt32) : TuAgenIm2col where
  inputH := UInt32.ofNat d.inHeight
  inputW := UInt32.ofNat d.inWidth
  inputC := inputC
  kernelH := UInt32.ofNat d.kernelH
  kernelW := UInt32.ofNat d.kernelW
  padH := UInt32.ofNat d.padT
  padW := UInt32.ofNat d.padL
  strideH := UInt32.ofNat d.strideH
  strideW := UInt32.ofNat d.strideW
  dilationH := UInt32.ofNat d.dilationH
  dilationW := UInt32.ofNat d.dilationW
  elemSize := elemSize

/-- The valid descriptors are accepted, with the extents of both axes, which are those of the address generator where it
can express them. -/
def ShapeCorrect : Prop :=
  match tuConvComputeDims d with
  | .ok out => d.Valid ∧ (out.outHeight : Int) = d.rows.extent ∧ (out.outWidth : Int) = d.cols.extent ∧
      (d.Symmetric → ∀ inputC elemSize,
        tuAgenIm2colDims (d.toIm2col inputC elemSize) = (UInt32.ofNat out.outHeight, UInt32.ofNat out.outWidth))
  | .error .rejected => ¬ d.Valid
  | .error .undefined => False

/-- The descriptors that are treated as they should be. -/
def ShapeCondition : Prop :=
  0 < d.strideH ∧ 0 < d.strideW ∧
    (d.rows.Admitted → d.cols.Admitted → 0 < d.groups ∧
      (d.groups ∣ d.inChannels → d.groups ∣ d.outChannels → d.rows.Exact ∧ d.cols.Exact ∧
        (d.Symmetric → 0 < d.inHeight ∧ 0 < d.inWidth ∧ 0 < d.dilationH ∧ 0 < d.dilationW)))

variable {d}

/-- The address generator knows the shape exactly if the input is not empty and the kernel is dilated at all. -/
theorem im2colDims_iff (h32 : d.AxesAre32) (hH : 0 < d.strideH) (hW : 0 < d.strideW) (hsym : d.Symmetric)
    (hrows : d.rows.Exact) (hcols : d.cols.Exact) {oh ow : Nat} (hoh : (oh : Int) = d.rows.extent)
    (how : (ow : Int) = d.cols.extent) (inputC elemSize : UInt32) :
    tuAgenIm2colDims (d.toIm2col inputC elemSize) = (UInt32.ofNat oh, UInt32.ofNat ow) ↔
      0 < d.inHeight ∧ 0 < d.inWidth ∧ 0 < d.dilationH ∧ 0 < d.dilationW := by
  obtain ⟨hfitH, hextH⟩ := ConvAxis.extent_symmetric (a := d.rows) hsym.1 hrows.fits
  obtain ⟨hfitW, hextW⟩ := ConvAxis.extent_symmetric (a := d.cols) hsym.2 hcols.fits
  have hoh' : oh = (d.inHeight + 2 * d.padT - ((d.kernelH - 1) * d.dilationH + 1)) / d.strideH + 1 := by
    rw [hextH] at hoh
    exact_mod_cast hoh
  have how' : ow = (d.inWidth + 2 * d.padL - ((d.kernelW - 1) * d.dilationW + 1)) / d.strideW + 1 := by
    rw [hextW] at how
    exact_mod_cast how
  have hlt : oh < 2 ^ 32 ∧ ow < 2 ^ 32 := by
    have h1 := hrows.extent
    have h2 := hcols.extent
    omega
  have hohpos : 0 < oh := by
    rw [hoh']
    exact Nat.succ_pos _
  have howpos : 0 < ow := by
    rw [how']
    exact Nat.succ_pos _
  have hkH : 0 < d.kernelH := hrows.fits.1
  have hkW : 0 < d.kernelW := hcols.fits.1
  have hne : ∀ {n : Nat}, n < 2 ^ 32 → (UInt32.ofNat n = 0 ↔ n = 0) := by
    intro n hn
    rw [← UInt32.toNat_inj, UInt32.toNat_ofNat_of_lt' hn]
    rfl
  have hpos : ∀ {n : Nat}, n < 2 ^ 32 → 0 < n → UInt32.ofNat n ≠ 0 := fun hn h => (hne hn).not.2 h.ne'
  unfold tuAgenIm2colDims im2colOutputDims toIm2col
  dsimp only
  simp only [hne h32.kernelH, hne h32.kernelW, hne h32.strideH, hne h32.strideW, hne h32.dilationH, hne h32.dilationW,
    hne h32.inHeight, hne h32.inWidth, UInt32.toNat_ofNat_of_lt' h32.kernelH, UInt32.toNat_ofNat_of_lt' h32.kernelW,
    UInt32.toNat_ofNat_of_lt' h32.strideH, UInt32.toNat_ofNat_of_lt' h32.strideW,
    UInt32.toNat_ofNat_of_lt' h32.dilationH, UInt32.toNat_ofNat_of_lt' h32.dilationW,
    UInt32.toNat_ofNat_of_lt' h32.inHeight, UInt32.toNat_ofNat_of_lt' h32.inWidth,
    UInt32.toNat_ofNat_of_lt' h32.padT, UInt32.toNat_ofNat_of_lt' h32.padL]
  have hfitH' : ¬ d.inHeight + 2 * d.padT < (d.kernelH - 1) * d.dilationH + 1 := hfitH
  have hfitW' : ¬ d.inWidth + 2 * d.padL < (d.kernelW - 1) * d.dilationW + 1 := hfitW
  by_cases hdil : d.dilationH = 0 ∨ d.dilationW = 0
  · rw [if_pos (by omega)]
    constructor
    · intro h
      have hzero : UInt32.ofNat oh = 0 := (Prod.ext_iff.1 h).1.symm
      exact absurd hzero (hpos hlt.1 hohpos)
    · intro h
      omega
  · rw [if_neg (by omega), ← hoh', ← how']
    simp only [hfitH', hfitW', or_false]
    have hmax : uint32Max.toNat = 2 ^ 32 - 1 := rfl
    constructor
    · intro h
      rw [if_neg (by split <;> split <;> omega)] at h
      obtain ⟨h1, h2⟩ := Prod.ext_iff.1 h
      refine ⟨Nat.pos_of_ne_zero fun hz => ?_, Nat.pos_of_ne_zero fun hz => ?_, by omega, by omega⟩
      · rw [if_pos hz] at h1
        exact absurd h1.symm (hpos hlt.1 hohpos)
      · rw [if_pos hz] at h2
        exact absurd h2.symm (hpos hlt.2 howpos)
    · rintro ⟨h1, h2, -, -⟩
      rw [if_neg (by omega : ¬ d.inHeight = 0), if_neg (by omega : ¬ d.inWidth = 0), if_neg (by omega)]
      rfl

/-- What the call returns, by cases. -/
theorem tuConvComputeDims_cases (hH : 0 < d.strideH) (hW : 0 < d.strideW) :
    (¬ (d.rows.Admitted ∧ d.cols.Admitted) ∧ tuConvComputeDims d = .error .rejected) ∨
      d.rows.Admitted ∧ d.cols.Admitted ∧
        (d.groups = 0 ∧ tuConvComputeDims d = .error .undefined ∨
          0 < d.groups ∧ ¬ (d.groups ∣ d.inChannels ∧ d.groups ∣ d.outChannels) ∧
            tuConvComputeDims d = .error .rejected ∨
          0 < d.groups ∧ d.groups ∣ d.inChannels ∧ d.groups ∣ d.outChannels ∧
            ∃ out, tuConvComputeDims d = .ok out ∧ out.outHeight = u32 d.rows.computed.toNat ∧
              out.outWidth = u32 d.cols.computed.toNat) := by
  have hrows := ConvAxis.computed_pos (a := d.rows) hH
  have hcols := ConvAxis.computed_pos (a := d.cols) hW
  have hoh : outDim d.inHeight d.padT d.padB d.dilationH d.kernelH d.strideH = d.rows.computed := rfl
  have how : outDim d.inWidth d.padL d.padR d.dilationW d.kernelW d.strideW = d.cols.computed := rfl
  unfold tuConvComputeDims
  dsimp only
  rw [if_neg (by omega), hoh, how]
  by_cases hadmitted : d.rows.Admitted ∧ d.cols.Admitted
  · right
    refine ⟨hadmitted.1, hadmitted.2, ?_⟩
    have hposH := hrows.2 hadmitted.1
    have hposW := hcols.2 hadmitted.2
    rw [if_neg (by omega)]
    by_cases hgroups : d.groups = 0
    · left
      exact ⟨hgroups, if_pos hgroups⟩
    · right
      rw [if_neg hgroups]
      have hpos := Nat.pos_of_ne_zero hgroups
      by_cases hin : d.inChannels % d.groups = 0
      · rw [if_neg (not_not.2 hin)]
        by_cases hout : d.outChannels % d.groups = 0
        · right
          rw [if_neg (not_not.2 hout)]
          exact ⟨hpos, Nat.dvd_of_mod_eq_zero hin, Nat.dvd_of_mod_eq_zero hout, _, rfl, rfl, rfl⟩
        · left
          exact ⟨hpos, fun h => hout (Nat.mod_eq_zero_of_dvd h.2), if_pos hout⟩
      · left
        exact ⟨hpos, fun h => hin (Nat.mod_eq_zero_of_dvd h.1), if_pos hin⟩
  · left
    refine ⟨hadmitted, if_pos ?_⟩
    rw [not_and_or] at hadmitted
    rcases hadmitted with h | h
    · left
      have := hrows.not.2 h
      omega
    · right
      have := hcols.not.2 h
      omega

theorem shapeCorrect_iff (h32 : d.AxesAre32) : d.ShapeCorrect ↔ d.ShapeCondition := by
  by_cases hstrides : 0 < d.strideH ∧ 0 < d.strideW
  swap
  · -- a division by zero
    have hresult : tuConvComputeDims d = .error .undefined := if_pos (by omega)
    unfold ShapeCorrect ShapeCondition
    rw [hresult]
    exact ⟨False.elim, fun h => hstrides ⟨h.1, h.2.1⟩⟩
  obtain ⟨hH, hW⟩ := hstrides
  unfold ShapeCorrect ShapeCondition
  simp only [hH, hW, true_and]
  rcases tuConvComputeDims_cases hH hW with ⟨hrefused, hresult⟩ | ⟨hrows, hcols, hcases⟩
  · rw [hresult]
    refine iff_of_true ?_ fun h1 h2 => absurd ⟨h1, h2⟩ hrefused
    rintro ⟨h1, h2, -⟩
    rw [not_and_or] at hrefused
    rcases hrefused with h | h
    · exact ConvAxis.not_fits hH h h1
    · exact ConvAxis.not_fits hW h h2
  simp only [hrows, hcols, forall_const]
  rcases hcases with ⟨hgroups, hresult⟩ | ⟨hgroups, hdiv, hresult⟩ | ⟨hgroups, hin, hout, out, hresult, hoh, how⟩
  · rw [hresult]
    exact ⟨False.elim, fun h => absurd hgroups h.1.ne'⟩
  · rw [hresult]
    exact iff_of_true (fun h => hdiv ⟨h.2.2.1, h.2.2.2⟩) ⟨hgroups, fun h1 h2 => absurd ⟨h1, h2⟩ hdiv⟩
  rw [hresult]
  simp only [hgroups, hin, hout, true_and, forall_const, hoh, how]
  have hexact : ∀ {a : ConvAxis}, 0 < a.stride → a.stride < 2 ^ 32 →
      (a.Fits ∧ (u32 a.computed.toNat : Int) = a.extent ↔ a.Exact) := by
    intro a h1 h2
    constructor
    · rintro ⟨hfits, heq⟩
      obtain ⟨h3, h4⟩ := (ConvAxis.u32_computed_iff h1 h2 hfits).1 heq
      exact ⟨hfits, h3, h4⟩
    · rintro ⟨hfits, h3, h4⟩
      exact ⟨hfits, (ConvAxis.u32_computed_iff h1 h2 hfits).2 ⟨h3, h4⟩⟩
  have hexactH := hexact (a := d.rows) hH h32.strideH
  have hexactW := hexact (a := d.cols) hW h32.strideW
  constructor
  · rintro ⟨⟨hfitsH, hfitsW, -⟩, hextH, hextW, hagree⟩
    have h1 := hexactH.1 ⟨hfitsH, hextH⟩
    have h2 := hexactW.1 ⟨hfitsW, hextW⟩
    exact ⟨h1, h2, fun hsym => (im2colDims_iff h32 hH hW hsym h1 h2 hextH hextW 0 0).1 (hagree hsym 0 0)⟩
  · rintro ⟨h1, h2, hagree⟩
    obtain ⟨hfitsH, hextH⟩ := hexactH.2 h1
    obtain ⟨hfitsW, hextW⟩ := hexactW.2 h2
    exact ⟨⟨hfitsH, hfitsW, hin, hout⟩, hextH, hextW, fun hsym inputC elemSize =>
      (im2colDims_iff h32 hH hW hsym h1 h2 hextH hextW inputC elemSize).2 (hagree hsym)⟩

/-- A kernel of four rows in an input of three. -/
def tallKernel : TuConvDesc where
  batch := 1
  inChannels := 1
  inHeight := 3
  inWidth := 4
  outChannels := 1
  kernelH := 4
  kernelW := 4
  strideH := 2
  strideW := 2
  padT := 0
  padB := 0
  padL := 0
  padR := 0
  dilationH := 1
  dilationW := 1
  groups := 1
  activation := .none

/-- With stride two a kernel of four rows is accepted on three rows of input. -/
theorem not_shapeCorrect : ¬ tallKernel.ShapeCorrect := by
  intro h
  have hroom : ¬ (0 : Int) ≤ tallKernel.rows.room := by decide
  exact hroom h.1.1.2

/-- The same kernel on four rows. -/
theorem shapeCorrect_iff_square :
    { tallKernel with inHeight := 4 }.AxesAre32 ∧ { tallKernel with inHeight := 4 }.ShapeCondition ∧
      { tallKernel with inHeight := 4 }.ShapeCorrect := by
  have h32 : { tallKernel with inHeight := 4 }.AxesAre32 := by constructor <;> decide
  have hcond : { tallKernel with inHeight := 4 }.ShapeCondition :=
    ⟨by decide, by decide, fun _ _ => ⟨by decide, fun _ _ => ⟨⟨by decide, by decide, by decide⟩,
      ⟨by decide, by decide, by decide⟩, fun _ => by decide⟩⟩⟩
  exact ⟨h32, hcond, (shapeCorrect_iff h32).2 hcond⟩

end TuConvDesc

end Tusim.Conv

/-!
### The cycle estimate of a convolution

`tu_conv_estimate_cycles` counts tiles in 16 bits.  Every wrap-around makes a number smaller, so the estimate is at most
the formula over unbounded integers, and it is the formula exactly if no part of it wraps around
(`tuConvEstimateCycles_iff`).
-/

namespace Tusim.Conv

open Word

/-- `TU_DMA_BUS_WIDTH_BYTES` -/
def tuDmaBusWidthBytes : Nat := 32

def u16 (x : Nat) : Nat := x % 2 ^ 16

namespace TuConvDesc

variable (d : TuConvDesc) (peRows peCols : UInt16)

/-- The tiles that cover `x` rows, in the arithmetic of the source. -/
def tiles16 (x : Nat) (pe : UInt16) : Nat := u16 (u32 (x + pe.toNat - 1) / pe.toNat)

/-- `tu_conv_estimate_cycles`, or `none` where it divides by zero. -/
def tuConvEstimateCycles : Option Nat :=
  if d.groups = 0 ∨ peRows = 0 ∨ peCols = 0 then none
  else
    let im2colK := u32 (d.cPerG * d.kernelH * d.kernelW)
    let im2colN := u32 (d.outHeight * d.outWidth)
    let im2colCycles := u64 (d.inChannels * d.inHeight * d.inWidth * 4) / tuDmaBusWidthBytes
    let mt := tiles16 d.kPerG peRows
    let nt := tiles16 im2colN peCols
    let kt := tiles16 im2colK peCols
    let perGroup := u64 (mt * nt * kt * (tuPePipelineDepth * peCols.toNat + peCols.toNat))
    let biasActCycles := u64 (d.outChannels * im2colN)
    some (u64 (im2colCycles + u64 (perGroup * d.groups) + biasActCycles))

/-! ### The formula over unbounded integers -/

/-- The tiles that cover `x` rows. -/
def tiles (x : Nat) (pe : UInt16) : Nat := (x + pe.toNat - 1) / pe.toNat

/-- The number of output positions. -/
def positions : Nat := d.outHeight * d.outWidth

/-- The number of terms of an output element. -/
def reduction : Nat := d.cPerG * d.kernelH * d.kernelW

/-- The bytes of an input tensor. -/
def inputBytes : Nat := d.inChannels * d.inHeight * d.inWidth * 4

def tileCount : Nat := tiles d.kPerG peRows * tiles d.positions peCols * tiles d.reduction peCols

/-- The cycles that an estimate stands for. -/
def cycles : Nat :=
  d.inputBytes / tuDmaBusWidthBytes +
    d.tileCount peRows peCols * (tuPePipelineDepth * peCols.toNat + peCols.toNat) * d.groups +
    d.outChannels * d.positions

/-- No part of the formula leaves its type; tile counts of which one is zero may. -/
structure CyclesFit : Prop where
  rows_pos : 0 < peRows.toNat
  cols_pos : 0 < peCols.toNat
  total : d.cycles peRows peCols < 2 ^ 64
  input : d.inputBytes < 2 ^ 64
  positions : d.outChannels = 0 ∨ d.positions < 2 ^ 32
  tiles : d.tileCount peRows peCols = 0 ∨
    tiles d.kPerG peRows < 2 ^ 16 ∧ tiles d.positions peCols < 2 ^ 16 ∧ tiles d.reduction peCols < 2 ^ 16

/-! ### Tile counts -/

variable {d peRows peCols}

theorem tiles16_le (x : Nat) (pe : UInt16) : tiles16 (u32 x) pe ≤ tiles x pe := by
  have hx := u32_le x
  calc tiles16 (u32 x) pe ≤ u32 (u32 x + pe.toNat - 1) / pe.toNat := Nat.mod_le _ _
    _ ≤ (x + pe.toNat - 1) / pe.toNat := Nat.div_le_div_right ((u32_le _).trans (by omega))

theorem tiles16_le' (x : Nat) (pe : UInt16) : tiles16 x pe ≤ tiles x pe :=
  calc tiles16 x pe ≤ u32 (x + pe.toNat - 1) / pe.toNat := Nat.mod_le _ _
    _ ≤ tiles x pe := Nat.div_le_div_right (u32_le _)

/-- Fewer than `2 ^ 16` tiles cover fewer than `2 ^ 32` rows. -/
theorem lt_of_tiles_lt {x : Nat} {pe : UInt16} (hpe : 0 < pe.toNat) (h : tiles x pe < 2 ^ 16) :
    x + pe.toNat - 1 < 2 ^ 32 := by
  have hlt := pe.toNat_lt
  unfold tiles at h
  rw [Nat.div_lt_iff_lt_mul hpe] at h
  omega

theorem tiles16_eq {x : Nat} {pe : UInt16} (hpe : 0 < pe.toNat) (h : tiles x pe < 2 ^ 16) : tiles16 x pe = tiles x pe := by
  have hlt := lt_of_tiles_lt hpe h
  unfold tiles16 u16
  rw [u32_of_lt hlt]
  exact Nat.mod_eq_of_lt h

theorem tiles16_u32_eq {x : Nat} {pe : UInt16} (hpe : 0 < pe.toNat) (h : tiles x pe < 2 ^ 16) :
    tiles16 (u32 x) pe = tiles x pe := by
  have hlt := lt_of_tiles_lt hpe h
  rw [u32_of_lt (by omega), tiles16_eq hpe h]

theorem tiles16_lt (x : Nat) (pe : UInt16) : tiles16 x pe < 2 ^ 16 := Nat.mod_lt _ (by decide)

/-- A product of numbers that may have become smaller is the same exactly if it is zero or none of them is. -/
theorem mul_eq_mul_iff_of_le {a b c a' b' c' : Nat} (ha : a' ≤ a) (hb : b' ≤ b) (hc : c' ≤ c) :
    a' * b' * c' = a * b * c ↔ a * b * c = 0 ∨ a' = a ∧ b' = b ∧ c' = c := by
  constructor
  · intro h
    by_cases hzero : a * b * c = 0
    · exact Or.inl hzero
    right
    have hpos : 0 < a' * b' * c' := by omega
    have hab' : 0 < a' * b' := Nat.pos_of_mul_pos_right hpos
    have hab : a' * b' ≤ a * b := Nat.mul_le_mul ha hb
    have hcpos : 0 < c := (Nat.pos_of_mul_pos_left hpos).trans_le hc
    obtain ⟨hprod, hc'⟩ := (mul_eq_mul_iff_eq_and_eq_of_pos hab hc hab' hcpos).1 h
    have hbpos : 0 < b := (Nat.pos_of_mul_pos_left hab').trans_le hb
    obtain ⟨ha', hb'⟩ := (mul_eq_mul_iff_eq_and_eq_of_pos ha hb (Nat.pos_of_mul_pos_right hab') hbpos).1 hprod
    exact ⟨ha', hb', hc'⟩
  · rintro (h | ⟨rfl, rfl, rfl⟩)
    · have hle : a' * b' * c' ≤ a * b * c := Nat.mul_le_mul (Nat.mul_le_mul ha hb) hc
      omega
    · rfl

/-! ### The parts of the estimate -/

/-- A wrapped sum of numbers that may have become smaller. -/
theorem u64_sum_eq_iff {a b c a' b' c' : Nat} (ha : a' ≤ a) (hb : b' ≤ b) (hc : c' ≤ c) :
    u64 (a' + b' + c') = a + b + c ↔ (a' = a ∧ b' = b ∧ c' = c) ∧ a + b + c < 2 ^ 64 := by
  unfold u64
  omega

theorem parts_lt {a b c n : Nat} (h : a + b + c < n) : b < n ∧ c < n := by omega

theorem u64_div_bus_eq_iff (x : Nat) : u64 x / tuDmaBusWidthBytes = x / tuDmaBusWidthBytes ↔ x < 2 ^ 64 := by
  unfold u64 tuDmaBusWidthBytes
  omega

/-- The wrapped product of the tiles and what each of them takes, for tiles that may have become fewer. -/
theorem tilePart_eq_iff {n n' f groups : Nat} (hn : n' ≤ n) (hf : 0 < f) (hgroups : 0 < groups)
    (hlt : n * f * groups < 2 ^ 64) : u64 (u64 (n' * f) * groups) = n * f * groups ↔ n' = n := by
  have hle : n' * f * groups ≤ n * f * groups := Nat.mul_le_mul_right _ (Nat.mul_le_mul_right _ hn)
  have hfirst : n' * f ≤ n' * f * groups := Nat.le_mul_of_pos_right _ hgroups
  rw [u64_of_lt (x := n' * f) (by omega), u64_of_lt (by omega)]
  constructor
  · intro h
    exact Nat.eq_of_mul_eq_mul_right hf (Nat.eq_of_mul_eq_mul_right hgroups h)
  · rintro rfl
    rfl

theorem tilePart_le {n n' f groups : Nat} (hn : n' ≤ n) : u64 (u64 (n' * f) * groups) ≤ n * f * groups :=
  calc u64 (u64 (n' * f) * groups) ≤ u64 (n' * f) * groups := u64_le _
    _ ≤ n * f * groups := Nat.mul_le_mul_right _ ((u64_le _).trans (Nat.mul_le_mul_right _ hn))

theorem biasPart_le (k n : Nat) : u64 (k * u32 n) ≤ k * n :=
  (u64_le _).trans (Nat.mul_le_mul_left _ (u32_le n))

theorem biasPart_eq_iff {k n : Nat} (hlt : k * n < 2 ^ 64) : u64 (k * u32 n) = k * n ↔ k = 0 ∨ n < 2 ^ 32 := by
  have hle : k * u32 n ≤ k * n := Nat.mul_le_mul_left _ (u32_le n)
  have hnarrow : u32 n = n ↔ n < 2 ^ 32 := by
    unfold u32
    omega
  rw [u64_of_lt (by omega), mul_eq_mul_left_iff, hnarrow, or_comm]

/-! ### The estimate -/

/-- The product of the tile counts of the source. -/
def tileCount16 (d : TuConvDesc) (peRows peCols : UInt16) : Nat :=
  tiles16 d.kPerG peRows * tiles16 (u32 d.positions) peCols * tiles16 (u32 d.reduction) peCols

theorem tileCount16_le : d.tileCount16 peRows peCols ≤ d.tileCount peRows peCols :=
  Nat.mul_le_mul (Nat.mul_le_mul (tiles16_le' _ _) (tiles16_le _ _)) (tiles16_le _ _)

theorem tileCount16_eq_iff (hrows : 0 < peRows.toNat) (hcols : 0 < peCols.toNat) :
    d.tileCount16 peRows peCols = d.tileCount peRows peCols ↔ d.tileCount peRows peCols = 0 ∨
      tiles d.kPerG peRows < 2 ^ 16 ∧ tiles d.positions peCols < 2 ^ 16 ∧ tiles d.reduction peCols < 2 ^ 16 := by
  unfold tileCount16 tileCount
  rw [mul_eq_mul_iff_of_le (tiles16_le' _ _) (tiles16_le _ _) (tiles16_le _ _)]
  apply or_congr_right
  constructor
  · rintro ⟨h1, h2, h3⟩
    rw [← h1, ← h2, ← h3]
    exact ⟨tiles16_lt _ _, tiles16_lt _ _, tiles16_lt _ _⟩
  · rintro ⟨h1, h2, h3⟩
    exact ⟨tiles16_eq hrows h1, tiles16_u32_eq hcols h2, tiles16_u32_eq hcols h3⟩

/-- The estimate, where it does not divide by zero. -/
theorem tuConvEstimateCycles_eq (hgroups : 0 < d.groups) (hrows : 0 < peRows.toNat) (hcols : 0 < peCols.toNat) :
    d.tuConvEstimateCycles peRows peCols = some (u64 (u64 d.inputBytes / tuDmaBusWidthBytes +
      u64 (u64 (d.tileCount16 peRows peCols * (tuPePipelineDepth * peCols.toNat + peCols.toNat)) * d.groups) +
      u64 (d.outChannels * u32 d.positions))) := by
  have hne : ¬ (d.groups = 0 ∨ peRows = 0 ∨ peCols = 0) := by
    rintro (h | h | h)
    · omega
    · rw [h] at hrows
      exact absurd hrows (by decide)
    · rw [h] at hcols
      exact absurd hcols (by decide)
  exact if_neg hne

/-- No estimate exceeds the formula. -/
theorem tuConvEstimateCycles_le {c : Nat} (h : d.tuConvEstimateCycles peRows peCols = some c) :
    c ≤ d.cycles peRows peCols := by
  by_cases hzero : d.groups = 0 ∨ peRows = 0 ∨ peCols = 0
  · unfold tuConvEstimateCycles at h
    rw [if_pos hzero] at h
    cases h
  · unfold tuConvEstimateCycles at h
    rw [if_neg hzero] at h
    obtain rfl := Option.some.inj h
    exact (u64_le _).trans (Nat.add_le_add (Nat.add_le_add (Nat.div_le_div_right (u64_le _)) (tilePart_le tileCount16_le))
      (biasPart_le _ _))

/-- The estimate of an accepted convolution is the formula exactly if no part of it leaves its type. -/
theorem estimate_eq_iff (hgroups : 0 < d.groups) :
    d.tuConvEstimateCycles peRows peCols = some (d.cycles peRows peCols) ↔ d.CyclesFit peRows peCols := by
  by_cases hpe : 0 < peRows.toNat ∧ 0 < peCols.toNat
  swap
  · have hnone : d.tuConvEstimateCycles peRows peCols = none := by
      apply if_pos
      rw [not_and_or, Nat.not_lt, Nat.not_lt, Nat.le_zero, Nat.le_zero] at hpe
      right
      exact hpe.imp (fun h => UInt16.toNat_inj.1 h) fun h => UInt16.toNat_inj.1 h
    rw [hnone]
    exact ⟨fun h => absurd h nofun, fun h => absurd ⟨h.rows_pos, h.cols_pos⟩ hpe⟩
  obtain ⟨hrows, hcols⟩ := hpe
  have hfactor : 0 < tuPePipelineDepth * peCols.toNat + peCols.toNat := by omega
  rw [tuConvEstimateCycles_eq hgroups hrows hcols, Option.some_inj]
  unfold cycles
  rw [u64_sum_eq_iff (Nat.div_le_div_right (u64_le _)) (tilePart_le tileCount16_le) (biasPart_le _ _),
    u64_div_bus_eq_iff]
  constructor
  · rintro ⟨⟨hinput, htiles, hbias⟩, htotal⟩
    obtain ⟨hlt, hlt'⟩ := parts_lt htotal
    rw [tilePart_eq_iff tileCount16_le hfactor hgroups hlt, tileCount16_eq_iff hrows hcols] at htiles
    rw [biasPart_eq_iff hlt'] at hbias
    exact ⟨hrows, hcols, htotal, hinput, hbias, htiles⟩
  · rintro ⟨-, -, htotal, hinput, hbias, htiles⟩
    unfold cycles at htotal
    obtain ⟨hlt, hlt'⟩ := parts_lt htotal
    refine ⟨⟨hinput, ?_, ?_⟩, htotal⟩
    · rwa [tilePart_eq_iff tileCount16_le hfactor hgroups hlt, tileCount16_eq_iff hrows hcols]
    · rwa [biasPart_eq_iff hlt']

/-! ### Growth -/

/-- The second convolution is at least as large in every dimension of its output and of its reduction. -/
structure GrowsTo (d d' : TuConvDesc) : Prop where
  groups : d.groups = d'.groups
  outHeight : d.outHeight ≤ d'.outHeight
  outWidth : d.outWidth ≤ d'.outWidth
  outChannels : d.outChannels ≤ d'.outChannels
  reduction : d.reduction ≤ d'.reduction
  inputBytes : d.inputBytes ≤ d'.inputBytes

theorem tiles_mono {x y : Nat} (h : x ≤ y) (pe : UInt16) : tiles x pe ≤ tiles y pe :=
  Nat.div_le_div_right (by omega)

theorem cycles_mono {d' : TuConvDesc} (h : d.GrowsTo d') (peRows peCols : UInt16) :
    d.cycles peRows peCols ≤ d'.cycles peRows peCols := by
  have hpositions : d.positions ≤ d'.positions := Nat.mul_le_mul h.outHeight h.outWidth
  have hk : d.kPerG ≤ d'.kPerG := by
    unfold kPerG
    rw [h.groups]
    exact Nat.div_le_div_right h.outChannels
  have htiles : d.tileCount peRows peCols ≤ d'.tileCount peRows peCols :=
    Nat.mul_le_mul (Nat.mul_le_mul (tiles_mono hk _) (tiles_mono hpositions _)) (tiles_mono h.reduction _)
  unfold cycles
  rw [h.groups]
  exact Nat.add_le_add (Nat.add_le_add (Nat.div_le_div_right h.inputBytes)
    (Nat.mul_le_mul_right _ (Nat.mul_le_mul_right _ htiles))) (Nat.mul_le_mul h.outChannels hpositions)

/-- The estimate of an accepted convolution is the formula exactly if no part of it leaves its type, and where it is the
formula for the larger of two convolutions it grows from the smaller to the larger. -/
theorem tuConvEstimateCycles_iff (peRows peCols : UInt16) :
    (∀ desc d, tuConvComputeDims desc = .ok d →
      (d.tuConvEstimateCycles peRows peCols = some (d.cycles peRows peCols) ↔ d.CyclesFit peRows peCols)) ∧
      ∀ desc desc' d d', tuConvComputeDims desc = .ok d → tuConvComputeDims desc' = .ok d' → d.GrowsTo d' →
        d'.CyclesFit peRows peCols → ∃ c c', d.tuConvEstimateCycles peRows peCols = some c ∧
          d'.tuConvEstimateCycles peRows peCols = some c' ∧ c ≤ c' := by
  constructor
  · intro desc d haccepted
    exact estimate_eq_iff (tuConvComputeDims_ok haccepted).groups_pos
  · intro desc desc' d d' haccepted haccepted' hgrows hfit
    have heq := tuConvEstimateCycles_eq (tuConvComputeDims_ok haccepted).groups_pos hfit.rows_pos hfit.cols_pos
    exact ⟨_, _, heq, (estimate_eq_iff (tuConvComputeDims_ok haccepted').groups_pos).2 hfit,
      (tuConvEstimateCycles_le heq).trans (cycles_mono hgrows peRows peCols)⟩

/-- A pointwise convolution of images with `1024` columns. -/
def wideImage (rows : Nat) : TuConvDesc where
  batch := 1
  inChannels := 1
  inHeight := rows
  inWidth := 1024
  outChannels := 1
  kernelH := 1
  kernelW := 1
  strideH := 1
  strideW := 1
  padT := 0
  padB := 0
  padL := 0
  padR := 0
  dilationH := 1
  dilationW := 1
  groups := 1
  activation := .none
  outHeight := rows
  outWidth := 1024
  im2colRows := 1
  im2colCols := rows * 1024

/-- `65536` tiles of output positions count as none: the estimate is not the formula, and it is less than for one row of
the image less. -/
theorem wideImage_estimate :
    tuConvComputeDims (wideImage 1024) = .ok (wideImage 1024) ∧ tuConvComputeDims (wideImage 1023) = .ok (wideImage 1023) ∧
      (wideImage 1024).cycles 16 16 = 4325376 ∧ (wideImage 1024).tuConvEstimateCycles 16 16 = some 1179648 ∧
        (wideImage 1023).tuConvEstimateCycles 16 16 = some 4321152 := by
  refine ⟨by decide, by decide, by decide, by decide, by decide⟩

/-- Images of `512` and `1023` rows. -/
theorem tuConvEstimateCycles_iff_images :
    tuConvComputeDims (wideImage 512) = .ok (wideImage 512) ∧ tuConvComputeDims (wideImage 1023) = .ok (wideImage 1023) ∧
      (wideImage 1023).CyclesFit 16 16 ∧
      (wideImage 1023).tuConvEstimateCycles 16 16 = some ((wideImage 1023).cycles 16 16) ∧
        ∃ c c', (wideImage 512).tuConvEstimateCycles 16 16 = some c ∧
          (wideImage 1023).tuConvEstimateCycles 16 16 = some c' ∧ c ≤ c' := by
  have hsmall : tuConvComputeDims (wideImage 512) = .ok (wideImage 512) := by decide
  have hlarge : tuConvComputeDims (wideImage 1023) = .ok (wideImage 1023) := by decide
  have hfit : (wideImage 1023).CyclesFit 16 16 :=
    ⟨by decide, by decide, by decide, by decide, by decide, by decide⟩
  have hgrows : (wideImage 512).GrowsTo (wideImage 1023) := by constructor <;> decide
  exact ⟨hsmall, hlarge, hfit, ((tuConvEstimateCycles_iff 16 16).1 _ _ hlarge).2 hfit,
    (tuConvEstimateCycles_iff 16 16).2 _ _ _ _ hsmall hlarge hgrows hfit⟩

end TuConvDesc

end Tusim.Conv
