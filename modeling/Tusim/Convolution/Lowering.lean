import Mathlib.Algebra.Order.Ring.Int
import Tusim.Convolution.Im2col
import Tusim.Lib.Folds

/-!
# Convolution by im2col

Both convolutions paint the whole output after the same picture (`direct_paints`, `gemm_paints`): element `(n, oh, ow, k)`
is the sum over the channels of its group and the positions of the window, taken of the padded input, and the bias
(`convolved`).  The direct one leaves out the positions in the padding, the other multiplies them with the zeros of the
matrix; the order of the additions does not matter.  What is left is the activation, which both apply in the same way.
-/

namespace Tusim.Conv

open Blocks Digits Finset LoopSum NumberMemory Painting Windows Word

/-- What `tu_conv_compute_dims` establishes. -/
structure DimsComputed (d : TuConvDesc) : Prop where
  groups_pos : 0 < d.groups
  outChannels : d.outChannels % d.groups = 0
  im2colCols : d.im2colCols = u32 (d.outHeight * d.outWidth)

theorem tuConvComputeDims_ok {desc d : TuConvDesc} (h : tuConvComputeDims desc = .ok d) : DimsComputed d := by
  unfold tuConvComputeDims at h
  dsimp only at h
  split at h
  · exact absurd h nofun
  split at h
  · exact absurd h nofun
  split at h
  · exact absurd h nofun
  rename_i hgroups
  split at h
  · exact absurd h nofun
  split at h
  · exact absurd h nofun
  rename_i hchannels
  obtain rfl := Except.ok.inj h
  exact ⟨Nat.pos_of_ne_zero hgroups, Classical.not_not.1 hchannels, rfl⟩

namespace TuConvDesc

variable (d : TuConvDesc) {R : Type} [CommSemiring R]

section

variable (input weight : Nat → R) (bias : Option (Nat → R))

/-- The input element under a position of a window, zero in the padding. -/
def padded (n cg oh ow r s : Nat) : R :=
  if d.covered oh ow r s then
    input (((n * d.inHeight + (d.iy oh r).toNat) * d.inWidth + (d.ix ow s).toNat) * d.inChannels + cg)
  else 0

/-- A term of the sum for an output element. -/
def term (n oh ow kg c r s : Nat) : R :=
  d.padded input n (kg / d.kPerG * d.cPerG + c) oh ow r s * weight (((kg * d.cPerG + c) * d.kernelH + r) * d.kernelW + s)

/-- An output element before the activation. -/
def convolved (n oh ow kg : Nat) : R :=
  ∑ c ∈ range d.cPerG, ∑ r ∈ range d.kernelH, ∑ s ∈ range d.kernelW, d.term input weight n oh ow kg c r s + biasOf bias kg

/-- The number of an output element. -/
def outIndex (n oh ow kg : Nat) : Nat := ((n * d.outHeight + oh) * d.outWidth + ow) * d.outChannels + kg

/-- The output as a picture. -/
def outPicture (a : Nat) : R :=
  d.convolved input weight bias (a / d.outChannels / d.outWidth / d.outHeight)
    (a / d.outChannels / d.outWidth % d.outHeight) (a / d.outChannels % d.outWidth) (a % d.outChannels)

end

/-! ### Indices -/

section

variable {d} {g k n oh ow c r s : Nat}

theorem kg_lt (hg : g < d.groups) (hk : k < d.kPerG) : g * d.kPerG + k < d.outChannels :=
  (mul_add_lt hg hk).trans_le (Nat.mul_div_le _ _)

theorem outIndex_lt {kg : Nat} (hn : n < d.batch) (hoh : oh < d.outHeight) (how : ow < d.outWidth)
    (hkg : kg < d.outChannels) : d.outIndex n oh ow kg < d.batch * d.outHeight * d.outWidth * d.outChannels :=
  mul_add_lt (mul_add_lt (mul_add_lt hn hoh) how) hkg

theorem outPicture_outIndex (input weight : Nat → R) (bias : Option (Nat → R)) {kg : Nat} (hoh : oh < d.outHeight)
    (how : ow < d.outWidth) (hkg : kg < d.outChannels) :
    d.outPicture input weight bias (d.outIndex n oh ow kg) = d.convolved input weight bias n oh ow kg := by
  unfold outPicture outIndex
  rw [rest_of_digit hkg, rest_of_digit how, rest_of_digit hoh, digit_of_digit hkg, digit_of_digit how, digit_of_digit hoh]

/-- The output elements are the numbers below the size of the output. -/
theorem exists_outIndex_iff (hdims : DimsComputed d) (a : Nat) :
    (∃ g < d.groups, ∃ n < d.batch, ∃ k < d.kPerG, ∃ oh < d.outHeight, ∃ ow < d.outWidth,
      a = d.outIndex n oh ow (g * d.kPerG + k)) ↔ a < d.batch * d.outHeight * d.outWidth * d.outChannels := by
  constructor
  · rintro ⟨g, hg, n, hn, k, hk, oh, hoh, ow, how, rfl⟩
    exact outIndex_lt hn hoh how (kg_lt hg hk)
  · intro ha
    have hK : d.groups * d.kPerG = d.outChannels := Nat.mul_div_cancel' (Nat.dvd_of_mod_eq_zero hdims.outChannels)
    have hdigit {a m w : Nat} (h : a < m * w) : a / w < m ∧ a % w < w ∧ a = a / w * w + a % w := by
      have hw : 0 < w := Nat.pos_of_ne_zero fun h0 => by simp [h0] at h
      exact ⟨(Nat.div_lt_iff_lt_mul hw).2 h, Nat.mod_lt a hw, (Nat.div_add_mod' a w).symm⟩
    obtain ⟨hpixel, hkg, hsplit⟩ := hdigit ha
    obtain ⟨hrow, how, hsplit'⟩ := hdigit hpixel
    obtain ⟨hn, hoh, hsplit''⟩ := hdigit hrow
    rw [← hK] at hkg
    obtain ⟨hg, hk, hsplit'''⟩ := hdigit hkg
    refine ⟨_, hg, _, hn, _, hk, _, hoh, _, how, ?_⟩
    unfold outIndex
    rw [hK] at hsplit'''
    rw [hK, ← hsplit''', ← hsplit'', ← hsplit', ← hsplit]

end

section

variable {d} (input weight : Nat → R) (bias : Option (Nat → R)) {g k n oh ow c r s : Nat}

/-! ### The terms -/

theorem chan_eq (hfit : IndexProductsFit d 4) (hg : g < d.groups) (hc : c < d.cPerG) (hn : n < d.batch)
    (hcov : d.covered oh ow r s = true) :
    u32 (g * d.cPerG + c) = g * d.cPerG + c ∧ g * d.cPerG + c < d.inChannels ∧ (d.iy oh r).toNat < d.inHeight ∧
      (d.ix ow s).toNat < d.inWidth := by
  unfold covered at hcov
  rw [Bool.and_eq_true] at hcov
  have hy := lt_of_inside hcov.1
  have hx := lt_of_inside hcov.2
  have hchan : g * d.cPerG + c < d.inChannels := (mul_add_lt hg hc).trans_le (Nat.mul_div_le _ _)
  have hchannels : d.inChannels ≤ d.batch * d.inHeight * d.inWidth * d.inChannels :=
    Nat.le_mul_of_pos_left _ (Nat.mul_pos (Nat.mul_pos (Nat.zero_lt_of_lt hn) (Nat.zero_lt_of_lt hy)) (Nat.zero_lt_of_lt hx))
  have hfit' := hfit.input
  exact ⟨u32_of_lt (by omega), hchan, hy, hx⟩

/-- The weight of a term lies below the size of the weights. -/
theorem weight_lt {kg : Nat} (hkg : kg < d.outChannels) (hc : c < d.cPerG) (hr : r < d.kernelH) (hs : s < d.kernelW) :
    ((kg * d.cPerG + c) * d.kernelH + r) * d.kernelW + s < d.outChannels * d.cPerG * d.kernelH * d.kernelW :=
  mul_add_lt (mul_add_lt (mul_add_lt hkg hc) hr) hs

/-- The loops of the direct convolution leave out the terms in the padding, which are zero. -/
theorem directSum_eq (hfit : IndexProductsFit d 4) (hg : g < d.groups) (hk : k < d.kPerG) (hn : n < d.batch) :
    d.directSum input weight g n (g * d.kPerG + k) oh ow =
      ∑ c ∈ range d.cPerG, ∑ r ∈ range d.kernelH, ∑ s ∈ range d.kernelW,
        d.term input weight n oh ow (g * d.kPerG + k) c r s := by
  have hgroup : (g * d.kPerG + k) / d.kPerG = g := by
    rw [Nat.mul_comm]
    exact mul_add_div_of_lt hk
  unfold directSum
  rw [← zero_add (∑ c ∈ range d.cPerG, _)]
  refine foldl_eq_add_sum (fun c hc sum => ?_) 0
  refine foldl_eq_add_sum (fun r hr sum => ?_) sum
  refine foldl_eq_add_sum (fun s hs sum => ?_) sum
  unfold term padded
  rw [hgroup]
  by_cases hcov : d.covered oh ow r s = true
  · obtain ⟨hwrap, hchan, hy, hx⟩ := chan_eq hfit hg hc hn hcov
    have hinput := hfit.input
    have hweight := hfit.weight
    have hin : ((n * d.inHeight + (d.iy oh r).toNat) * d.inWidth + (d.ix ow s).toNat) * d.inChannels + (g * d.cPerG + c) <
        d.batch * d.inHeight * d.inWidth * d.inChannels := mul_add_lt (mul_add_lt (mul_add_lt hn hy) hx) hchan
    have hw := weight_lt (kg_lt hg hk) hc hr hs
    have hinIndex : n * d.inHeight * d.inWidth * d.inChannels + (d.iy oh r).toNat * d.inWidth * d.inChannels +
        (d.ix ow s).toNat * d.inChannels + (g * d.cPerG + c) =
        ((n * d.inHeight + (d.iy oh r).toNat) * d.inWidth + (d.ix ow s).toNat) * d.inChannels + (g * d.cPerG + c) := by
      ring
    have hwIndex : (g * d.kPerG + k) * d.cPerG * d.kernelH * d.kernelW + c * d.kernelH * d.kernelW + r * d.kernelW + s =
        (((g * d.kPerG + k) * d.cPerG + c) * d.kernelH + r) * d.kernelW + s := by
      ring
    rw [if_pos hcov, if_pos hcov]
    dsimp only
    rw [hwrap, hinIndex, hwIndex, u32_of_lt (by omega), u32_of_lt (by omega)]
  · rw [if_neg hcov, if_neg hcov, zero_mul, add_zero]

/-! ### The direct convolution -/

/-- The address of an output element does not wrap. -/
theorem outIndex_eq {kg : Nat} (n oh ow : Nat) :
    n * d.outHeight * d.outWidth * d.outChannels + oh * d.outWidth * d.outChannels + ow * d.outChannels + kg =
      d.outIndex n oh ow kg := by
  unfold outIndex
  ring

theorem directCell_paints (hfit : IndexProductsFit d 4) (hg : g < d.groups) (hn : n < d.batch) (hk : k < d.kPerG)
    (hoh : oh < d.outHeight) (how : ow < d.outWidth) (output : Nat → R) :
    Paints (d.outPicture input weight bias) (· = d.outIndex n oh ow (g * d.kPerG + k)) output
      (d.directCell input weight bias g n k oh ow output) := by
  have hkg := kg_lt hg hk
  have hlt := outIndex_lt hn hoh how hkg
  have houtput := hfit.output
  have hkgLe : g * d.kPerG + k ≤ d.outIndex n oh ow (g * d.kPerG + k) := Nat.le_add_left _ _
  have hvalue : d.directSum input weight g n (g * d.kPerG + k) oh ow + biasOf bias (g * d.kPerG + k) =
      d.outPicture input weight bias (d.outIndex n oh ow (g * d.kPerG + k)) := by
    rw [outPicture_outIndex _ _ _ hoh how hkg, directSum_eq _ _ hfit hg hk hn]
    rfl
  unfold directCell
  dsimp only
  rw [u32_of_lt (x := g * d.kPerG + k) (by omega), outIndex_eq, u32_of_lt (by omega)]
  cases bias with
  | none =>
    refine .update output ?_
    rw [← hvalue]
    exact (add_zero _).symm
  | some b =>
    dsimp only
    rw [Function.update_idem, Function.update_self]
    exact .update output hvalue

theorem outSize_eq (hfit : IndexProductsFit d 4) :
    d.outSize = d.batch * d.outHeight * d.outWidth * d.outChannels := by
  have houtput := hfit.output
  exact u64_of_lt (by omega)

/-- The loops of the direct convolution paint the whole output. -/
theorem direct_paints (hdims : DimsComputed d) (hfit : IndexProductsFit d 4) (output : Nat → R) :
    Paints (d.outPicture input weight bias) (· < d.batch * d.outHeight * d.outWidth * d.outChannels) output
      ((List.range d.groups).foldl (fun out g => (List.range d.batch).foldl (fun out n =>
        (List.range d.kPerG).foldl (fun out k => (List.range d.outHeight).foldl (fun out oh =>
          (List.range d.outWidth).foldl (fun out ow => d.directCell input weight bias g n k oh ow out)
            out) out) out) out) (memset output 0 0 d.outSize)) := by
  have hcleared : ∀ a, ¬ a < d.batch * d.outHeight * d.outWidth * d.outChannels →
      memset output 0 0 d.outSize a = output a := by
    intro a ha
    rw [outSize_eq hfit]
    exact memset_outside (by omega)
  refine Paints.of_untouched ?_ hcleared
  refine Paints.congr ?_ (exists_outIndex_iff hdims)
  refine Paints.foldl id (fun g hg out => ?_) _
  refine Paints.foldl id (fun n hn out => ?_) out
  refine Paints.foldl id (fun k hk out => ?_) out
  refine Paints.foldl id (fun oh hoh out => ?_) out
  refine Paints.foldl id (fun ow how out => ?_) out
  exact directCell_paints input weight bias hfit hg hn hk hoh how out

/-! ### The multiplies -/

variable [LinearOrder R]

/-- An element of the matrix is the input element under its position of the window. -/
theorem load_im2col (hdims : DimsComputed d) (hfit : IndexProductsFit d 4) (garbage : R) (old : Nat → NumByte R)
    (hn : n < d.batch) (hg : g < d.groups) (hc : c < d.cPerG) (hr : r < d.kernelH) (hs : s < d.kernelW)
    (hoh : oh < d.outHeight) (how : ow < d.outWidth) :
    let image := u32 (n * d.inHeight * d.inWidth * d.inChannels)
    load 4 garbage (d.tuIm2colNhwc zeroBytes (fun i => encode 4 input (4 * image + i)) old 4)
        (4 * d.cellIndex g c r s oh ow) =
      d.padded input n (g * d.cPerG + c) oh ow r s := by
  intro image
  have hbyte : ∀ i < 4, d.tuIm2colNhwc zeroBytes (fun i => encode 4 input (4 * image + i)) old 4
      (4 * d.cellIndex g c r s oh ow + i) = ⟨4, d.padded input n (g * d.cPerG + c) oh ow r s, i⟩ := by
    intro i hi
    unfold tuIm2colNhwc padded
    rw [Nat.mul_comm 4 (d.cellIndex _ _ _ _ _ _),
      im2col_cell hg hc hr hs hoh how (by decide) hdims.im2colCols hfit.matrix _ _ _ _ hi]
    by_cases hcov : d.covered oh ow r s = true
    · obtain ⟨hwrap, hchan, hy, hx⟩ := chan_eq hfit hg hc hn hcov
      have hinput := hfit.input
      have himage : n * d.inHeight * d.inWidth * d.inChannels ≤ d.batch * d.inHeight * d.inWidth * d.inChannels :=
        Nat.mul_le_mul_right _ (Nat.mul_le_mul_right _ (Nat.mul_le_mul_right _ hn.le))
      have hbase : image = n * d.inHeight * d.inWidth * d.inChannels := u32_of_lt (by omega)
      have haddr : 4 * image + ((((d.iy oh r).toNat * d.inWidth + (d.ix ow s).toNat) * d.inChannels +
          (g * d.cPerG + c)) * 4 + i) =
          4 * (((n * d.inHeight + (d.iy oh r).toNat) * d.inWidth + (d.ix ow s).toNat) * d.inChannels +
            (g * d.cPerG + c)) + i := by
        rw [hbase]
        ring
      rw [if_pos hcov, if_pos hcov, hwrap, d.nhwcPtr_eq hchan hy hx hfit.image, haddr]
      unfold encode
      rw [mul_add_div_of_lt hi, Nat.mul_add_mod, Nat.mod_eq_of_lt hi]
    · rw [if_neg hcov, if_neg hcov]
      unfold zeroBytes encode
      rw [Nat.mod_eq_of_lt hi]
  have hvalue := congrArg NumByte.value (hbyte 0 (by decide))
  unfold load
  rw [Nat.add_zero] at hvalue
  rw [hvalue, if_pos hbyte]

/-- The loop of the multiply adds the same terms to the bias, with zeros for those in the padding. -/
theorem gemmSum_eq (hdims : DimsComputed d) (hfit : IndexProductsFit d 4) (garbage : R) (old : Nat → NumByte R)
    (hn : n < d.batch) (hg : g < d.groups) (hk : k < d.kPerG) (hoh : oh < d.outHeight) (how : ow < d.outWidth) :
    let image := u32 (n * d.inHeight * d.inWidth * d.inChannels)
    let buf := d.tuIm2colNhwc zeroBytes (fun i => encode 4 input (4 * image + i)) old 4
    d.gemmSum weight bias garbage buf g k (oh * d.outWidth + ow) =
      d.convolved input weight bias n oh ow (g * d.kPerG + k) := by
  intro image buf
  have hgroup : (g * d.kPerG + k) / d.kPerG = g := by
    rw [Nat.mul_comm]
    exact mul_add_div_of_lt hk
  have hkg := kg_lt hg hk
  have hweight := hfit.weight
  have hmatrix := hfit.matrix
  have houtput := hfit.output
  have hkernel : d.cPerG * d.kernelH * d.kernelW ≤ d.outChannels * d.cPerG * d.kernelH * d.kernelW := by
    rw [Nat.mul_assoc, Nat.mul_assoc, Nat.mul_assoc, ← Nat.mul_assoc d.cPerG]
    exact Nat.le_mul_of_pos_left _ (Nat.zero_lt_of_lt hkg)
  have hpixels : d.outHeight * d.outWidth ≤ d.batch * d.outHeight * d.outWidth * d.outChannels := by
    rw [Nat.mul_assoc d.batch]
    exact (Nat.le_mul_of_pos_left _ (Nat.zero_lt_of_lt hn)).trans (Nat.le_mul_of_pos_right _ (Nat.zero_lt_of_lt hkg))
  have hK : d.im2colK = d.cPerG * d.kernelH * d.kernelW := u32_of_lt (by omega)
  have hN : d.im2colN = d.outHeight * d.outWidth := u32_of_lt (by omega)
  have hoc : d.outChannels ≤ d.batch * d.outHeight * d.outWidth * d.outChannels :=
    Nat.le_mul_of_pos_left _ (Nat.mul_pos (Nat.mul_pos (Nat.zero_lt_of_lt hn) (Nat.zero_lt_of_lt hoh)) (Nat.zero_lt_of_lt how))
  unfold gemmSum convolved
  dsimp only
  rw [u32_of_lt (x := g * d.kPerG + k) (by omega), hK, hN, add_comm (∑ c ∈ range d.cPerG, _)]
  have hterm : ∀ c < d.cPerG, ∀ r < d.kernelH, ∀ s < d.kernelW,
      weight (u32 (g * d.kPerG * d.cPerG * d.kernelH * d.kernelW) + u32 (k * (d.cPerG * d.kernelH * d.kernelW)) +
          ((c * d.kernelH + r) * d.kernelW + s)) *
        load 4 garbage buf (4 * (u32 (g * d.cPerG * d.kernelH * d.kernelW * d.outHeight * d.outWidth) +
          (oh * d.outWidth + ow) + u32 (((c * d.kernelH + r) * d.kernelW + s) * (d.outHeight * d.outWidth)))) =
        d.term input weight n oh ow (g * d.kPerG + k) c r s := by
    intro c hc r hr s hs
    have hw := weight_lt hkg hc hr hs
    have hwIndex : (((g * d.kPerG + k) * d.cPerG + c) * d.kernelH + r) * d.kernelW + s =
        g * d.kPerG * d.cPerG * d.kernelH * d.kernelW + k * (d.cPerG * d.kernelH * d.kernelW) +
          ((c * d.kernelH + r) * d.kernelW + s) := by
      ring
    have hcell : d.cellIndex g c r s oh ow < d.inChannels * d.kernelH * d.kernelW * d.outHeight * d.outWidth := by
      have hchan : g * d.cPerG + c < d.inChannels := (mul_add_lt hg hc).trans_le (Nat.mul_div_le _ _)
      exact mul_add_lt (mul_add_lt (mul_add_lt (mul_add_lt hchan hr) hs) hoh) how
    have hcellIndex : d.cellIndex g c r s oh ow = g * d.cPerG * d.kernelH * d.kernelW * d.outHeight * d.outWidth +
        (oh * d.outWidth + ow) + ((c * d.kernelH + r) * d.kernelW + s) * (d.outHeight * d.outWidth) := by
      unfold cellIndex
      ring
    have hload := load_im2col input hdims hfit garbage old hn hg hc hr hs hoh how
    rw [hwIndex] at hw
    rw [u32_of_lt (x := g * d.kPerG * d.cPerG * d.kernelH * d.kernelW) (by omega),
      u32_of_lt (x := k * (d.cPerG * d.kernelH * d.kernelW)) (by omega),
      u32_of_lt (x := g * d.cPerG * d.kernelH * d.kernelW * d.outHeight * d.outWidth) (by omega),
      u32_of_lt (x := ((c * d.kernelH + r) * d.kernelW + s) * (d.outHeight * d.outWidth)) (by omega), ← hwIndex,
      ← hcellIndex, hload, mul_comm]
    unfold term
    rw [hgroup]
  have hsum := foldl_eq_add_sum (n := d.cPerG * d.kernelH * d.kernelW) (f := fun sum ki =>
      sum + weight (u32 (g * d.kPerG * d.cPerG * d.kernelH * d.kernelW) + u32 (k * (d.cPerG * d.kernelH * d.kernelW)) + ki) *
        load 4 garbage buf (4 * (u32 (g * d.cPerG * d.kernelH * d.kernelW * d.outHeight * d.outWidth) +
          (oh * d.outWidth + ow) + u32 (ki * (d.outHeight * d.outWidth)))))
    (fun ki _ sum => rfl) (biasOf bias (g * d.kPerG + k))
  refine hsum.trans (congrArg _ ?_)
  rw [sum_range_mul, sum_range_mul]
  refine sum_congr rfl fun c hc => sum_congr rfl fun r hr => sum_congr rfl fun s hs => ?_
  exact hterm c (mem_range.1 hc) r (mem_range.1 hr) s (mem_range.1 hs)

/-- The multiplies of one image paint its part of the output. -/
theorem gemmImage_paints (hdims : DimsComputed d) (hfit : IndexProductsFit d 4) (garbage : R) (old : Nat → NumByte R)
    (hn : n < d.batch) (output : Nat → R) :
    let image := u32 (n * d.inHeight * d.inWidth * d.inChannels)
    let buf := d.tuIm2colNhwc zeroBytes (fun i => encode 4 input (4 * image + i)) old 4
    Paints (d.outPicture input weight bias)
      (fun a => ∃ g < d.groups, ∃ k < d.kPerG, ∃ col < d.im2colN,
        a = d.outIndex n (col / d.outWidth) (col % d.outWidth) (g * d.kPerG + k))
      output (d.gemmImage weight bias garbage buf n output) := by
  intro image buf
  refine Paints.foldl id (fun g hg out => ?_) output
  refine Paints.foldl id (fun k hk out => ?_) out
  refine Paints.foldl id (fun col hcol out => ?_) out
  have hpos : 0 < d.outWidth := Nat.pos_of_ne_zero fun h0 => by
    unfold im2colN at hcol
    rw [h0, Nat.mul_zero] at hcol
    exact Nat.not_lt_zero col hcol
  have hcolLt : col < d.outHeight * d.outWidth := hcol.trans_le (u32_le _)
  have hoh : col / d.outWidth < d.outHeight := (Nat.div_lt_iff_lt_mul hpos).2 hcolLt
  have how : col % d.outWidth < d.outWidth := Nat.mod_lt col hpos
  have hkg := kg_lt hg hk
  have hlt := outIndex_lt hn hoh how hkg
  have houtput := hfit.output
  have haddr : d.outIndex n (col / d.outWidth) (col % d.outWidth) (g * d.kPerG + k) =
      n * d.outHeight * d.outWidth * d.outChannels + (g * d.kPerG + k) +
        (col / d.outWidth * d.outWidth + col % d.outWidth) * d.outChannels := by
    unfold outIndex
    ring
  have hsum := gemmSum_eq input weight bias hdims hfit garbage old hn hg hk hoh how
  rw [Nat.div_add_mod'] at hsum haddr
  dsimp only
  rw [Nat.div_add_mod', u32_of_lt (x := n * d.outHeight * d.outWidth * d.outChannels) (by omega),
    u32_of_lt (x := g * d.kPerG + k) (by omega), u32_of_lt (x := col * d.outChannels) (by omega), ← haddr]
  refine .update out ?_
  rw [outPicture_outIndex _ _ _ hoh how hkg]
  exact hsum

/-- The multiplies of all images paint the whole output. -/
theorem gemm_paints (hdims : DimsComputed d) (hfit : IndexProductsFit d 4) (garbage : R) (output : Nat → R)
    (im2colBuf : Nat → NumByte R) :
    Paints (d.outPicture input weight bias) (· < d.batch * d.outHeight * d.outWidth * d.outChannels) output
      ((List.range d.batch).foldl (fun (s : (Nat → R) × (Nat → NumByte R)) n =>
        let image := u32 (n * d.inHeight * d.inWidth * d.inChannels)
        let buf := d.tuIm2colNhwc zeroBytes (fun i => encode 4 input (4 * image + i)) s.2 4
        (d.gemmImage weight bias garbage buf n s.1, buf)) (output, im2colBuf)).1 := by
  refine Paints.congr (Paints.foldl Prod.fst
    (fun n hn s => gemmImage_paints input weight bias hdims hfit garbage s.2 hn s.1) (output, im2colBuf)) fun a => ?_
  rw [← exists_outIndex_iff hdims]
  constructor
  · rintro ⟨n, hn, g, hg, k, hk, col, hcol, rfl⟩
    have hcolLt : col < d.outHeight * d.outWidth := hcol.trans_le (u32_le _)
    have hpos : 0 < d.outWidth := Nat.pos_of_ne_zero fun h0 => by simp [h0] at hcolLt
    exact ⟨g, hg, n, hn, k, hk, _, (Nat.div_lt_iff_lt_mul hpos).2 hcolLt, _, Nat.mod_lt col hpos, rfl⟩
  · rintro ⟨g, hg, n, hn, k, hk, oh, hoh, ow, how, rfl⟩
    have hcol : oh * d.outWidth + ow < d.outHeight * d.outWidth := mul_add_lt hoh how
    have hpixels : d.outHeight * d.outWidth ≤ d.batch * d.outHeight * d.outWidth * d.outChannels := by
      rw [Nat.mul_assoc d.batch]
      exact (Nat.le_mul_of_pos_left _ (Nat.zero_lt_of_lt hn)).trans
        (Nat.le_mul_of_pos_right _ (Nat.zero_lt_of_lt (kg_lt hg hk)))
    have houtput := hfit.output
    have hN : d.im2colN = d.outHeight * d.outWidth := u32_of_lt (by omega)
    refine ⟨n, hn, g, hg, k, hk, oh * d.outWidth + ow, hN ▸ hcol, ?_⟩
    rw [Nat.mul_comm oh, mul_add_div_of_lt how, Nat.mul_add_mod, Nat.mod_eq_of_lt how]

/-! ### The activation -/

theorem applyActivation_apply (total : Nat) (output : Nat → R) (a : Nat) :
    d.applyActivation total output a = if a < total then d.activate (output a) else output a := by
  unfold applyActivation
  induction total generalizing a with
  | zero => rfl
  | succ n ih =>
    rw [List.range_succ, List.foldl_append, List.foldl_cons, List.foldl_nil]
    by_cases h : a = n
    · rw [h, Function.update_self, ih, if_neg (Nat.lt_irrefl n), if_pos (Nat.lt_succ_self n)]
    · rw [Function.update_of_ne h, ih]
      by_cases hlt : a < n
      · rw [if_pos hlt, if_pos (by omega)]
      · rw [if_neg hlt, if_neg (by omega)]

/-- The convolution by im2col computes what the direct one does. -/
theorem convFp32Im2colGemm_eq (hdims : DimsComputed d) (hfit : IndexProductsFit d 4) (garbage : R) (output : Nat → R)
    (im2colBuf : Nat → NumByte R) :
    d.convFp32Im2colGemm input weight bias garbage output im2colBuf =
      d.tuConv2dDirectNhwcFp32 input weight bias output := by
  have hloops := (gemm_paints input weight bias hdims hfit garbage output im2colBuf).unique
    (direct_paints input weight bias hdims hfit output)
  exact congrArg (d.applyActivation d.outSize) hloops

end

/-! ### The windows -/

/-- No coordinate reaches 31 bits. -/
structure CoordinatesFit : Prop where
  rows : d.outHeight * d.strideH + d.kernelH * d.dilationH < 2 ^ 31
  cols : d.outWidth * d.strideW + d.kernelW * d.dilationW < 2 ^ 31
  padT : d.padT < 2 ^ 31
  padL : d.padL < 2 ^ 31
  inHeight : d.inHeight < 2 ^ 31
  inWidth : d.inWidth < 2 ^ 31

/-- Then the windows lie where the definition of the convolution has them. -/
theorem covered_iff {d : TuConvDesc} (h : d.CoordinatesFit) {oh ow r s : Nat} (hoh : oh < d.outHeight)
    (how : ow < d.outWidth) (hr : r < d.kernelH) (hs : s < d.kernelW) :
    d.covered oh ow r s = true ↔
      (d.padT ≤ oh * d.strideH + r * d.dilationH ∧ oh * d.strideH + r * d.dilationH < d.padT + d.inHeight) ∧
        d.padL ≤ ow * d.strideW + s * d.dilationW ∧ ow * d.strideW + s * d.dilationW < d.padL + d.inWidth := by
  have hrows := h.rows
  have hcols := h.cols
  have hoh' : oh * d.strideH ≤ d.outHeight * d.strideH := Nat.mul_le_mul_right _ hoh.le
  have how' : ow * d.strideW ≤ d.outWidth * d.strideW := Nat.mul_le_mul_right _ how.le
  have hr' : r * d.dilationH ≤ d.kernelH * d.dilationH := Nat.mul_le_mul_right _ hr.le
  have hs' : s * d.dilationW ≤ d.kernelW * d.dilationW := Nat.mul_le_mul_right _ hs.le
  unfold covered iy ix
  rw [coord_eq (by omega) h.padT, coord_eq (by omega) h.padL, Bool.and_eq_true, inside_iff h.inHeight,
    inside_iff h.inWidth]
  omega

end TuConvDesc

/-- For all dimensions that are accepted: the convolution by im2col leaves the output that the direct one leaves, whatever
was in the buffers before, and the two builders make the same matrix of the two layouts of a tensor. -/
theorem convolution_lowering {R : Type} [CommSemiring R] [LinearOrder R] {desc d : TuConvDesc}
    (hdims : tuConvComputeDims desc = .ok d) :
    (IndexProductsFit d 4 → ∀ (input weight : Nat → R) (bias : Option (Nat → R)) (garbage : R) (output : Nat → R)
      (im2colBuf : Nat → NumByte R),
      d.convFp32Im2colGemm input weight bias garbage output im2colBuf =
        d.tuConv2dDirectNhwcFp32 input weight bias output) ∧
    ∀ (β : Type) (elemSize : Nat), IndexProductsFit d elemSize → ∀ zeros nhwc nchw output : Nat → β,
      d.SameTensor elemSize nhwc nchw →
        d.tuIm2colNhwc zeros nhwc output elemSize = d.tuIm2colNchw zeros nchw output elemSize := by
  constructor
  · intro hfit input weight bias garbage output im2colBuf
    exact TuConvDesc.convFp32Im2colGemm_eq input weight bias (tuConvComputeDims_ok hdims) hfit garbage output im2colBuf
  · intro β elemSize hfit zeros nhwc nchw output hsame
    exact d.im2col_layouts hfit.image hsame zeros output

/-- Two groups of one channel with a window of two rows, one of them in the padding above the image. -/
theorem convolution_lowering_two_groups :
    let desc : TuConvDesc :=
      { batch := 1, inChannels := 2, inHeight := 2, inWidth := 2, outChannels := 2, kernelH := 2, kernelW := 1
        strideH := 1, strideW := 1, padT := 1, padB := 0, padL := 0, padR := 0, dilationH := 1, dilationW := 1
        groups := 2, activation := .relu }
    let d := { desc with outHeight := 2, outWidth := 2, im2colRows := 2, im2colCols := 4 }
    let number (i : Nat) : Int := i - 3
    let nhwc (b : Nat) : UInt8 := UInt8.ofNat b
    let nchw (b : Nat) : UInt8 := UInt8.ofNat (b % 4 * 2 + b / 4)
    tuConvComputeDims desc = .ok d ∧
      d.convFp32Im2colGemm number number (some number) 99 number TuConvDesc.zeroBytes =
        d.tuConv2dDirectNhwcFp32 number number (some number) number ∧
      d.tuIm2colNhwc (fun _ => 0) nhwc nhwc 1 = d.tuIm2colNchw (fun _ => 0) nchw nhwc 1 := by
  intro desc d number nhwc nchw
  have hdims : tuConvComputeDims desc = .ok d := by decide
  have hlower := convolution_lowering (R := Int) hdims
  refine ⟨hdims, hlower.1 ?_ number number (some number) 99 number TuConvDesc.zeroBytes,
    hlower.2 UInt8 1 ?_ (fun _ => 0) nhwc nchw nhwc ?_⟩
  · exact ⟨by decide, by decide, by decide, by decide, by decide⟩
  · exact ⟨by decide, by decide, by decide, by decide, by decide⟩
  · unfold TuConvDesc.SameTensor
    decide

end Tusim.Conv
