import Mathlib.Tactic.Ring
import Tusim.Convolution.Engine

/-!
# The im2col matrix

As long as no product of indices reaches 31 bits, each builder writes one block for every element of the matrix, one
after the other (`im2col_cell`), and finds the elements of the tensor where their layouts have them (`nhwcPtr_eq`,
`nchwPtr_eq`).  So the two builders agree on two layouts of the same tensor (`im2col_layouts`).
-/

namespace Tusim.Conv

open Blocks Digits Windows Word

/-- All products of indices stay below 31 bits, those into matrices of `elemSize` bytes an element too. -/
structure IndexProductsFit (d : TuConvDesc) (elemSize : Nat) : Prop where
  input : d.batch * d.inHeight * d.inWidth * d.inChannels < 2 ^ 31
  image : d.inHeight * d.inWidth * d.inChannels * elemSize < 2 ^ 31
  matrix : d.inChannels * d.kernelH * d.kernelW * d.outHeight * d.outWidth * elemSize < 2 ^ 31
  weight : d.outChannels * d.cPerG * d.kernelH * d.kernelW < 2 ^ 31
  output : d.batch * d.outHeight * d.outWidth * d.outChannels < 2 ^ 31

namespace TuConvDesc

variable (d : TuConvDesc) {β : Type} {e : Nat}

/-! ### Addresses of the input -/

section

variable {chan y x : Nat} (hchan : chan < d.inChannels) (hy : y < d.inHeight) (hx : x < d.inWidth)
  (hfit : d.inHeight * d.inWidth * d.inChannels * e < 2 ^ 31)

include hchan hy hx hfit

theorem nhwcPtr_eq : d.nhwcPtr e chan y x = ((y * d.inWidth + x) * d.inChannels + chan) * e := by
  have himage : d.inHeight * (d.inWidth * d.inChannels * e) < 2 ^ 31 := by
    rw [← Nat.mul_assoc, ← Nat.mul_assoc]
    exact hfit
  have hrow : d.inWidth * d.inChannels * e ≤ d.inHeight * (d.inWidth * d.inChannels * e) :=
    Nat.le_mul_of_pos_left _ (Nat.zero_lt_of_lt hy)
  have hrows : y * (d.inWidth * d.inChannels * e) ≤ d.inHeight * (d.inWidth * d.inChannels * e) :=
    Nat.mul_le_mul_right _ hy.le
  have hcols : x * d.inChannels * e ≤ d.inWidth * d.inChannels * e :=
    Nat.mul_le_mul_right e (Nat.mul_le_mul_right _ hx.le)
  have hchans : chan * e ≤ d.inWidth * d.inChannels * e :=
    Nat.mul_le_mul_right e (hchan.le.trans (Nat.le_mul_of_pos_left _ (Nat.zero_lt_of_lt hx)))
  unfold nhwcPtr
  rw [u32_of_lt (x := d.inWidth * d.inChannels * e) (by omega), u32_of_lt (by omega), u32_of_lt (by omega),
    u32_of_lt (by omega)]
  ring

theorem nchwPtr_eq : d.nchwPtr e chan y x = ((chan * d.inHeight + y) * d.inWidth + x) * e := by
  have himage : d.inChannels * (d.inHeight * d.inWidth * e) < 2 ^ 31 := by
    rw [← Nat.mul_assoc, Nat.mul_comm d.inChannels]
    exact hfit
  have hplane : d.inHeight * d.inWidth * e ≤ d.inChannels * (d.inHeight * d.inWidth * e) :=
    Nat.le_mul_of_pos_left _ (Nat.zero_lt_of_lt hchan)
  have hplanes : chan * (d.inHeight * d.inWidth * e) ≤ d.inChannels * (d.inHeight * d.inWidth * e) :=
    Nat.mul_le_mul_right _ hchan.le
  have hrows : y * d.inWidth * e ≤ d.inHeight * d.inWidth * e :=
    Nat.mul_le_mul_right e (Nat.mul_le_mul_right _ hy.le)
  have hcols : x * e ≤ d.inHeight * d.inWidth * e :=
    Nat.mul_le_mul_right e (hx.le.trans (Nat.le_mul_of_pos_left _ (Nat.zero_lt_of_lt hy)))
  unfold nchwPtr
  rw [u32_of_lt (x := d.inHeight * d.inWidth * e) (by omega), u32_of_lt (by omega), u32_of_lt (by omega),
    u32_of_lt (by omega)]
  ring

end

/-! ### Two layouts of one tensor -/

/-- The bytes of the same elements, with the channels last and first. -/
def SameTensor (e : Nat) (nhwc nchw : Nat → β) : Prop :=
  ∀ chan < d.inChannels, ∀ y < d.inHeight, ∀ x < d.inWidth, ∀ i < e,
    nhwc (((y * d.inWidth + x) * d.inChannels + chan) * e + i) = nchw (((chan * d.inHeight + y) * d.inWidth + x) * e + i)

/-- The number of a channel. -/
theorem chan_lt {g c : Nat} (hg : g < d.groups) (hc : c < d.cPerG) : u32 (g * d.cPerG + c) < d.inChannels := by
  have hlt : g * d.cPerG + c < d.groups * d.cPerG := mul_add_lt hg hc
  have hle : d.groups * d.cPerG ≤ d.inChannels := Nat.mul_div_le _ _
  have := u32_le (g * d.cPerG + c)
  omega

/-- Only the bytes of the elements that are read matter. -/
theorem im2col_congr {inPtr inPtr' : Nat → Nat → Nat → Nat} {input input' : Nat → β}
    (h : ∀ chan < d.inChannels, ∀ y < d.inHeight, ∀ x < d.inWidth, ∀ i < e,
      input (inPtr chan y x + i) = input' (inPtr' chan y x + i)) (zeros output : Nat → β) :
    d.im2col inPtr zeros input output e = d.im2col inPtr' zeros input' output e := by
  unfold im2col
  dsimp only
  refine List.foldl_ext _ _ _ fun out g hg => List.foldl_ext _ _ _ fun out c hc => ?_
  have hchan := d.chan_lt (List.mem_range.1 hg) (List.mem_range.1 hc)
  refine List.foldl_ext _ _ _ fun out r _ => List.foldl_ext _ _ _ fun out s _ =>
    List.foldl_ext _ _ _ fun out oy _ => List.foldl_ext _ _ _ fun out ox _ => ?_
  by_cases hcov : d.covered oy ox r s = true
  · rw [if_pos hcov, if_pos hcov]
    unfold covered at hcov
    rw [Bool.and_eq_true] at hcov
    funext a
    unfold memcpy
    split
    · exact h _ hchan _ (lt_of_inside hcov.1) _ (lt_of_inside hcov.2) _ (by omega)
    · rfl
  · rw [if_neg hcov, if_neg hcov]

/-- The builders make the same matrix of two layouts of one tensor. -/
theorem im2col_layouts (hfit : d.inHeight * d.inWidth * d.inChannels * e < 2 ^ 31) {nhwc nchw : Nat → β}
    (hsame : d.SameTensor e nhwc nchw) (zeros output : Nat → β) :
    d.tuIm2colNhwc zeros nhwc output e = d.tuIm2colNchw zeros nchw output e := by
  apply d.im2col_congr
  intro chan hchan y hy x hx i hi
  rw [d.nhwcPtr_eq hchan hy hx hfit, d.nchwPtr_eq hchan hy hx hfit]
  exact hsame chan hchan y hy x hx i hi

/-! ### The matrix -/

/-- The number of an element of the matrix. -/
def cellIndex (g c r s oy ox : Nat) : Nat :=
  ((((g * d.cPerG + c) * d.kernelH + r) * d.kernelW + s) * d.outHeight + oy) * d.outWidth + ox

section

variable {d} {g c r s oy ox : Nat} (hg : g < d.groups) (hc : c < d.cPerG) (hr : r < d.kernelH) (hs : s < d.kernelW)
  (hoy : oy < d.outHeight) (hox : ox < d.outWidth)

include hg hc hr hs hoy hox

/-- No product in the address of an element wraps. -/
theorem colOut_eq (he : 0 < e) (hcols : d.im2colCols = u32 (d.outHeight * d.outWidth))
    (hfit : d.inChannels * d.kernelH * d.kernelW * d.outHeight * d.outWidth * e < 2 ^ 31) :
    u32 (g * u32 (d.cPerG * d.kernelH * d.kernelW * d.im2colCols * e)) +
        u32 (u32 (c * d.kernelH * d.kernelW + r * d.kernelW + s) * u32 (d.im2colCols * e)) +
        u32 ((oy * d.outWidth + ox) * e) =
      d.cellIndex g c r s oy ox * e := by
  have hcol : oy * d.outWidth + ox < d.outHeight * d.outWidth := mul_add_lt hoy hox
  have hrow : (c * d.kernelH + r) * d.kernelW + s < d.cPerG * d.kernelH * d.kernelW := mul_add_lt (mul_add_lt hc hr) hs
  have hindex : d.cellIndex g c r s oy ox =
      g * (d.cPerG * d.kernelH * d.kernelW * (d.outHeight * d.outWidth)) +
        ((c * d.kernelH + r) * d.kernelW + s) * (d.outHeight * d.outWidth) + (oy * d.outWidth + ox) := by
    unfold cellIndex
    ring
  have hrowIndex : c * d.kernelH * d.kernelW + r * d.kernelW + s = (c * d.kernelH + r) * d.kernelW + s := by ring
  have hgroups : d.groups * d.cPerG ≤ d.inChannels := Nat.mul_div_le _ _
  have htotal : d.groups * (d.cPerG * d.kernelH * d.kernelW * (d.outHeight * d.outWidth) * e) < 2 ^ 31 := by
    refine Nat.lt_of_le_of_lt ?_ hfit
    calc d.groups * (d.cPerG * d.kernelH * d.kernelW * (d.outHeight * d.outWidth) * e)
        = d.groups * d.cPerG * (d.kernelH * d.kernelW * d.outHeight * d.outWidth * e) := by ring
      _ ≤ d.inChannels * (d.kernelH * d.kernelW * d.outHeight * d.outWidth * e) := Nat.mul_le_mul_right _ hgroups
      _ = d.inChannels * d.kernelH * d.kernelW * d.outHeight * d.outWidth * e := by ring
  rw [hindex, hrowIndex, hcols]
  generalize d.outHeight * d.outWidth = P at *
  generalize d.cPerG * d.kernelH * d.kernelW = Q at *
  generalize (c * d.kernelH + r) * d.kernelW + s = row at *
  generalize oy * d.outWidth + ox = col at *
  have hgroup : Q * P * e ≤ d.groups * (Q * P * e) := Nat.le_mul_of_pos_left _ (Nat.zero_lt_of_lt hg)
  have hg' : g * (Q * P * e) ≤ d.groups * (Q * P * e) := Nat.mul_le_mul_right _ hg.le
  have hstride : P * e ≤ Q * P * e := Nat.mul_le_mul_right e (Nat.le_mul_of_pos_left P (Nat.zero_lt_of_lt hrow))
  have hP : P ≤ P * e := Nat.le_mul_of_pos_right P he
  have hrow' : row * (P * e) ≤ Q * P * e := by
    rw [Nat.mul_assoc]
    exact Nat.mul_le_mul_right _ hrow.le
  have hrowLt : row ≤ row * (P * e) := Nat.le_mul_of_pos_right row (Nat.mul_pos (Nat.zero_lt_of_lt hcol) he)
  have hcol' : col * e ≤ P * e := Nat.mul_le_mul_right e hcol.le
  rw [u32_of_lt (x := P) (by omega), u32_of_lt (x := Q * P * e) (by omega), u32_of_lt (x := row) (by omega),
    u32_of_lt (x := P * e) (by omega), u32_of_lt (by omega), u32_of_lt (by omega), u32_of_lt (by omega)]
  ring

/-- Byte `i` of an element of the matrix. -/
theorem im2col_cell (he : 0 < e) (hcols : d.im2colCols = u32 (d.outHeight * d.outWidth))
    (hfit : d.inChannels * d.kernelH * d.kernelW * d.outHeight * d.outWidth * e < 2 ^ 31)
    (inPtr : Nat → Nat → Nat → Nat) (zeros input output : Nat → β) {i : Nat} (hi : i < e) :
    d.im2col inPtr zeros input output e (d.cellIndex g c r s oy ox * e + i) =
      if d.covered oy ox r s then
        input (inPtr (u32 (g * d.cPerG + c)) (d.iy oy r).toNat (d.ix ox s).toNat + i)
      else zeros i := by
  let cell (g c r s oy ox i : Nat) : β :=
    if d.covered oy ox r s then
      input (inPtr (u32 (g * d.cPerG + c)) (d.iy oy r).toNat (d.ix ox s).toNat + i)
    else zeros i
  -- the widths of the blocks that one turn of each loop writes
  let wOy := d.outWidth * e
  let wS := d.outHeight * wOy
  let wR := d.kernelW * wS
  let wC := d.kernelH * wR
  let wG := d.cPerG * wC
  have hmatrix : d.im2col inPtr zeros input output e =
      memcpy output 0 (blocks wG fun g => blocks wC fun c => blocks wR fun r => blocks wS fun s => blocks wOy fun oy =>
        blocks e fun ox => cell g c r s oy ox) (d.groups * wG) := by
    refine foldl_memcpy (fun g hg mem => ?_) output
    refine foldl_memcpy (fun c hc mem => ?_) mem
    refine foldl_memcpy (fun r hr mem => ?_) mem
    refine foldl_memcpy (fun s hs mem => ?_) mem
    refine foldl_memcpy (fun oy hoy mem => ?_) mem
    refine foldl_memcpy (fun ox hox mem => ?_) mem
    have haddr : 0 + g * wG + c * wC + r * wR + s * wS + oy * wOy + ox * e = d.cellIndex g c r s oy ox * e := by
      unfold cellIndex
      ring
    dsimp only
    rw [haddr, ← colOut_eq hg hc hr hs hoy hox he hcols hfit]
    by_cases hcov : d.covered oy ox r s = true
    · simp only [cell, hcov, if_true]
    · simp only [cell, hcov, if_false, Bool.false_eq_true]
  have hOx : ox * e + i < wOy := mul_add_lt hox hi
  have hOy : oy * wOy + (ox * e + i) < wS := mul_add_lt hoy hOx
  have hS : s * wS + (oy * wOy + (ox * e + i)) < wR := mul_add_lt hs hOy
  have hR : r * wR + (s * wS + (oy * wOy + (ox * e + i))) < wC := mul_add_lt hr hS
  have hC : c * wC + (r * wR + (s * wS + (oy * wOy + (ox * e + i)))) < wG := mul_add_lt hc hR
  have hG : g * wG + (c * wC + (r * wR + (s * wS + (oy * wOy + (ox * e + i))))) < d.groups * wG := mul_add_lt hg hC
  have haddr : d.cellIndex g c r s oy ox * e + i =
      0 + (g * wG + (c * wC + (r * wR + (s * wS + (oy * wOy + (ox * e + i)))))) := by
    unfold cellIndex
    ring
  rw [hmatrix, haddr, memcpy_inside hG, blocks_apply hC, blocks_apply hR, blocks_apply hS, blocks_apply hOy,
    blocks_apply hOx, blocks_apply hi]

end

end TuConvDesc

end Tusim.Conv
