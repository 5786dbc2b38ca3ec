import Mathlib.Tactic.Ring
import Tusim.Pooling.Engine

/-!
# What an execution writes

An execution whose ranges lie inside the regions, in unbounded integers, and apart from each other paints the elements of
the destination one by one (`execute_paints`): each gets the number that the loops over its window compute from the
source as it was, in as many bytes as the conversions copy.
-/

namespace Tusim.Pool

open Blocks Digits NumberMemory Painting Windows Word

namespace TuPoolDesc

variable (d : TuPoolDesc)

/-- The bytes of the input. -/
def inputSize : Nat := d.batch * d.channels * (d.ih * d.iw * d.elemSize)

/-- The bytes of the output. -/
def outputSize : Nat := d.batch * d.channels * (d.oh * d.ow * d.elemSize)

/-- The number of an element, channel by channel. -/
def channelIndex (n b c i : Nat) : Nat := (b * d.channels + c) * n + i

/-- The address of an input element. -/
def srcAddr (b c y x : Nat) : Nat := d.srcOffset + d.channelIndex (d.ih * d.iw) b c (y * d.iw + x) * d.elemSize

/-- The address of an output element. -/
def dstAddr (b c oy ox : Nat) : Nat := d.dstOffset + d.channelIndex (d.oh * d.ow) b c (oy * d.ow + ox) * d.elemSize

/-- Source and destination do not overlap. -/
def Apart (src dst : Nat) : Prop :=
  src ≠ dst ∨ d.srcOffset + d.inputSize ≤ d.dstOffset ∨ d.dstOffset + d.outputSize ≤ d.srcOffset

variable {F : Type} [Field F] [LinearOrder F] (negInf garbage : F)

/-- What the loops over a window compute, given the elements of the channel. -/
def windowValue (poolType : TuPoolType) (oy ox : Nat) (x : Nat × Nat → F) : F :=
  match poolType with
  | .max => windowMax negInf (d.window oy ox) x
  | .avg => windowAvg (d.windowCount (d.window oy ox)) (d.window oy ox) x

/-- The elements of a channel as the conversions read them. -/
def elements (mem : Nat → NumByte F) (b c : Nat) (p : Nat × Nat) : F :=
  load d.intWidth garbage mem (d.srcAddr b c p.1 p.2)

/-- The bytes of the output as a picture. -/
def outBytes (poolType : TuPoolType) (mem : Nat → NumByte F) (a : Nat) : NumByte F :=
  let index := (a - d.dstOffset) / d.elemSize
  let channel := index / (d.oh * d.ow)
  let i := index % (d.oh * d.ow)
  ⟨d.intWidth, d.windowValue negInf poolType (i / d.ow) (i % d.ow)
    (d.elements garbage mem (channel / d.channels) (channel % d.channels)), (a - d.dstOffset) % d.elemSize⟩

variable {d}

/-- Only the elements in the window matter. -/
theorem windowValue_congr {poolType : TuPoolType} {oy ox : Nat} {x y : Nat × Nat → F}
    (h : ∀ p ∈ d.window oy ox, x p = y p) :
    d.windowValue negInf poolType oy ox x = d.windowValue negInf poolType oy ox y := by
  cases poolType with
  | max => exact windowMax_congr h
  | avg => exact windowAvg_congr h

theorem intWidth_pos (he : 0 < d.elemSize) : 0 < d.intWidth := by
  unfold intWidth
  split <;> omega

theorem intWidth_le : d.intWidth ≤ d.elemSize := by
  unfold intWidth
  split <;> omega

/-! ### Strides -/

section

variable {b c n e : Nat} (hb : b < d.batch) (hc : c < d.channels)

include hb hc

theorem channelIndex_lt {i : Nat} (hi : i < n) : d.channelIndex n b c i < d.batch * d.channels * n :=
  mul_add_lt (mul_add_lt hb hc) hi

/-- Nothing wraps in the strides of `n` elements of `e` bytes a channel. -/
theorem stride_eq (he : 0 < e) (hfit : d.batch * d.channels * (n * e) < 2 ^ 32) :
    u32 n = n ∧ u32 (n * e) = n * e ∧
      u32 (b * u32 (d.channels * (n * e))) + u32 (c * (n * e)) = (b * d.channels + c) * (n * e) := by
  have hchannel : (b * d.channels + c + 1) * (n * e) ≤ d.batch * d.channels * (n * e) :=
    Nat.mul_le_mul_right _ (mul_add_lt hb hc)
  have hbatch : d.channels * (n * e) ≤ d.batch * d.channels * (n * e) :=
    Nat.mul_le_mul_right _ (Nat.le_mul_of_pos_left _ (Nat.zero_lt_of_lt hb))
  have hn : n ≤ n * e := Nat.le_mul_of_pos_right n he
  have hexpand : (b * d.channels + c + 1) * (n * e) = b * (d.channels * (n * e)) + c * (n * e) + n * e := by ring
  rw [hexpand] at hchannel
  rw [u32_of_lt (x := n) (by omega), u32_of_lt (x := n * e) (by omega), u32_of_lt (x := d.channels * (n * e)) (by omega),
    u32_of_lt (x := b * (d.channels * (n * e))) (by omega), u32_of_lt (x := c * (n * e)) (by omega)]
  exact ⟨rfl, rfl, by ring⟩

end

section

variable {b c : Nat} (hb : b < d.batch) (hc : c < d.channels) (he : 0 < d.elemSize)

include hb hc he

omit [Field F] in
/-- The elements of a channel in `src_f32`. -/
theorem readChannel_eq (hin : d.inputSize < 2 ^ 32) (mem : Nat → NumByte F) {y x : Nat} (hy : y < d.ih) (hx : x < d.iw) :
    d.readChannel garbage mem b c (u32 (y * d.iw + x)) = d.elements garbage mem b c (y, x) := by
  obtain ⟨hn, hstride, hbase⟩ := stride_eq hb hc he hin
  have hi : y * d.iw + x < d.ih * d.iw := mul_add_lt hy hx
  have hbytes : (y * d.iw + x + 1) * d.elemSize ≤ d.ih * d.iw * d.elemSize := Nat.mul_le_mul_right _ hi
  have hwhole : d.ih * d.iw * d.elemSize ≤ d.inputSize :=
    Nat.le_mul_of_pos_left _ (Nat.mul_pos (Nat.zero_lt_of_lt hb) (Nat.zero_lt_of_lt hc))
  have hspatial : d.ih * d.iw ≤ d.ih * d.iw * d.elemSize := Nat.le_mul_of_pos_right _ he
  rw [Nat.succ_mul] at hbytes
  have hchSrc : d.chSrc b c = d.srcOffset + (b * d.channels + c) * (d.ih * d.iw * d.elemSize) := by
    unfold chSrc spatialIn
    dsimp only
    rw [hn, hstride, Nat.add_assoc, hbase]
  have haddr : d.chSrc b c + (y * d.iw + x) * d.elemSize = d.srcAddr b c y x := by
    rw [hchSrc]
    unfold srcAddr channelIndex
    ring
  have hwrap : u32 ((y * d.iw + x) * d.elemSize) = (y * d.iw + x) * d.elemSize := u32_of_lt (by omega)
  unfold readChannel spatialIn elements
  rw [u32_of_lt (x := y * d.iw + x) (by omega), hn, if_pos hi]
  by_cases h4 : d.isFloat = true ∧ d.elemSize = 4
  · have hw : d.intWidth = 4 := by
      unfold intWidth
      rw [h4.2]
      rfl
    rw [h4.2] at haddr hstride hbytes
    rw [if_pos h4, hstride, if_pos (by omega), hw, ← haddr, Nat.mul_comm 4]
  · rw [if_neg h4]
    by_cases h2 : d.isFloat = true ∧ d.elemSize = 2
    · have hw : d.intWidth = 2 := by
        unfold intWidth
        rw [h2.2]
        rfl
      rw [h2.2] at haddr hwrap
      rw [if_pos h2, hw, hwrap, haddr]
    · rw [if_neg h2, hwrap, haddr]

omit [Field F] [LinearOrder F] in
/-- The copy of the results stores them one by one. -/
theorem writeChannel_eq (hout : d.outputSize < 2 ^ 32) (mem : Nat → NumByte F) (dst : Nat → F) :
    d.writeChannel mem b c dst = (List.range (d.oh * d.ow)).foldl (fun mem i =>
      store d.intWidth mem (d.dstOffset + d.channelIndex (d.oh * d.ow) b c i * d.elemSize) (dst i)) mem := by
  obtain ⟨hn, hstride, hbase⟩ := stride_eq hb hc he hout
  have hwhole : d.oh * d.ow * d.elemSize ≤ d.outputSize :=
    Nat.le_mul_of_pos_left _ (Nat.mul_pos (Nat.zero_lt_of_lt hb) (Nat.zero_lt_of_lt hc))
  have hchDst : d.chDst b c = d.dstOffset + (b * d.channels + c) * (d.oh * d.ow * d.elemSize) := by
    unfold chDst spatialOut
    dsimp only
    rw [hn, hstride, Nat.add_assoc, hbase]
  have haddr (i : Nat) : d.dstOffset + d.channelIndex (d.oh * d.ow) b c i * d.elemSize = d.chDst b c + i * d.elemSize := by
    rw [hchDst]
    unfold channelIndex
    ring
  have hwrap {i : Nat} (hi : i < d.oh * d.ow) : u32 (i * d.elemSize) = i * d.elemSize := by
    have hle : i * d.elemSize ≤ d.oh * d.ow * d.elemSize := Nat.mul_le_mul_right _ hi.le
    exact u32_of_lt (by omega)
  unfold writeChannel spatialOut
  rw [hn]
  by_cases h4 : d.isFloat = true ∧ d.elemSize = 4
  · have hw : d.intWidth = 4 := by
      unfold intWidth
      rw [h4.2]
      rfl
    rw [h4.2] at hstride haddr
    rw [if_pos h4, hstride, Nat.mul_comm _ 4, memcpy_encode (by decide), hw]
    refine (foldl_eq_fill' fun i hi => ?_).symm
    rw [h4.2, haddr, Nat.mul_comm i 4]
  · rw [if_neg h4]
    by_cases h2 : d.isFloat = true ∧ d.elemSize = 2
    · have hw : d.intWidth = 2 := by
        unfold intWidth
        rw [h2.2]
        rfl
      rw [if_pos h2, hw]
      refine List.foldl_ext _ _ _ fun mem i hi => ?_
      have := hwrap (List.mem_range.1 hi)
      rw [h2.2] at this ⊢
      rw [h2.2] at haddr
      rw [this, haddr]
    · rw [if_neg h2]
      refine List.foldl_ext _ _ _ fun mem i hi => ?_
      rw [hwrap (List.mem_range.1 hi), haddr]

/-! ### The results -/

/-- The results of a channel lie row by row in `dst_f32`. -/
theorem pool2d_apply (poolType : TuPoolType) (hout : d.outputSize < 2 ^ 32) (hin : d.inputSize < 2 ^ 32)
    (hkh : d.kh ≤ 2 ^ 32) (hkw : d.kw ≤ 2 ^ 32) (mem : Nat → NumByte F) (dst : Nat → F) {i : Nat} (hi : i < d.oh * d.ow) :
    d.pool2d negInf poolType (d.readChannel garbage mem b c) dst i =
      d.windowValue negInf poolType (i / d.ow) (i % d.ow) (d.elements garbage mem b c) := by
  have hwhole : d.oh * d.ow * d.elemSize ≤ d.outputSize :=
    Nat.le_mul_of_pos_left _ (Nat.mul_pos (Nat.zero_lt_of_lt hb) (Nat.zero_lt_of_lt hc))
  have hspatial : d.oh * d.ow ≤ d.oh * d.ow * d.elemSize := Nat.le_mul_of_pos_right _ he
  have hwholeIn : d.ih * d.iw * d.elemSize ≤ d.inputSize :=
    Nat.le_mul_of_pos_left _ (Nat.mul_pos (Nat.zero_lt_of_lt hb) (Nat.zero_lt_of_lt hc))
  have hspatialIn : d.ih * d.iw ≤ d.ih * d.iw * d.elemSize := Nat.le_mul_of_pos_right _ he
  have hvalue (oy ox : Nat) :
      (match poolType with
        | .max => d.maxWindow negInf (d.readChannel garbage mem b c) negInf oy ox
        | .avg => d.avgWindow (d.readChannel garbage mem b c) oy ox) =
      d.windowValue negInf poolType oy ox (d.elements garbage mem b c) := by
    have hread : ∀ p ∈ d.window oy ox, d.readChannel garbage mem b c (u32 (p.1 * d.iw + p.2)) =
        d.elements garbage mem b c p := by
      intro p hp
      obtain ⟨hy, hx⟩ := d.lt_of_mem_windowList (d.mem_window.1 hp)
      exact readChannel_eq garbage hb hc he hin mem hy hx
    cases poolType with
    | max =>
      dsimp only
      rw [maxWindow_eq]
      exact windowMax_congr hread
    | avg =>
      dsimp only
      rw [d.avgWindow_eq hkh hkw (by omega)]
      exact windowAvg_congr hread
  have hpaints : Paints (fun i => d.windowValue negInf poolType (i / d.ow) (i % d.ow) (d.elements garbage mem b c))
      (fun a => ∃ oy < d.oh, ∃ ox < d.ow, a = oy * d.ow + ox) dst
      (d.pool2d negInf poolType (d.readChannel garbage mem b c) dst) := by
    refine Paints.foldl id (fun oy hoy dst => ?_) dst
    refine Paints.foldl id (fun ox hox dst => ?_) dst
    have hlt : oy * d.ow + ox < d.oh * d.ow := mul_add_lt hoy hox
    rw [u32_of_lt (x := oy * d.ow + ox) (by omega)]
    refine .update dst ((hvalue oy ox).trans ?_)
    rw [Nat.mul_comm oy, mul_add_div_of_lt hox, Nat.mul_add_mod, Nat.mod_eq_of_lt hox]
  have hpos : 0 < d.ow := Nat.pos_of_ne_zero fun h0 => by simp [h0] at hi
  exact hpaints.painted i ⟨_, (Nat.div_lt_iff_lt_mul hpos).2 hi, _, Nat.mod_lt i hpos, (Nat.div_add_mod' i d.ow).symm⟩

end

/-! ### The output -/

/-- The bytes of the output that are written. -/
def OutArea (d : TuPoolDesc) (a : Nat) : Prop :=
  ∃ b < d.batch, ∃ c < d.channels, ∃ i < d.oh * d.ow, ∃ j < d.intWidth,
    a = d.dstOffset + d.channelIndex (d.oh * d.ow) b c i * d.elemSize + j

theorem lt_of_outArea {a : Nat} (h : d.OutArea a) : d.dstOffset ≤ a ∧ a < d.dstOffset + d.outputSize := by
  obtain ⟨b, hb, c, hc, i, hi, j, hj, rfl⟩ := h
  have hindex := channelIndex_lt hb hc hi
  have hj' : j < d.elemSize := hj.trans_le intWidth_le
  have hlt : d.channelIndex (d.oh * d.ow) b c i * d.elemSize + j < d.batch * d.channels * (d.oh * d.ow) * d.elemSize :=
    mul_add_lt hindex hj'
  have hsize : d.outputSize = d.batch * d.channels * (d.oh * d.ow) * d.elemSize := (Nat.mul_assoc _ _ _).symm
  omega

/-- The picture at a byte of an output element. -/
theorem outBytes_apply (poolType : TuPoolType) (mem : Nat → NumByte F) {b c i j : Nat} (hc : c < d.channels)
    (hi : i < d.oh * d.ow) (hj : j < d.intWidth) :
    d.outBytes negInf garbage poolType mem (d.dstOffset + d.channelIndex (d.oh * d.ow) b c i * d.elemSize + j) =
      ⟨d.intWidth, d.windowValue negInf poolType (i / d.ow) (i % d.ow) (d.elements garbage mem b c), j⟩ := by
  have hj' : j < d.elemSize := hj.trans_le intWidth_le
  unfold outBytes
  dsimp only
  rw [Nat.add_assoc, Nat.add_sub_cancel_left, rest_of_digit hj', digit_of_digit hj']
  unfold channelIndex
  rw [rest_of_digit hi, digit_of_digit hi, rest_of_digit hc, digit_of_digit hc]

section

variable {poolType : TuPoolType} {src dst : Nat} {raw : Nat → Nat → NumByte F}

/-- Nothing is changed but in the range of the output. -/
structure Untouched (d : TuPoolDesc) (dst : Nat) (raw raw' : Nat → Nat → NumByte F) : Prop where
  others : ∀ r, r ≠ dst → raw' r = raw r
  outside : ∀ a, ¬ (d.dstOffset ≤ a ∧ a < d.dstOffset + d.outputSize) → raw' dst a = raw dst a

variable (he : 0 < d.elemSize) (hin : d.inputSize < 2 ^ 32) (hout : d.outputSize < 2 ^ 32) (hkh : d.kh ≤ 2 ^ 32)
  (hkw : d.kw ≤ 2 ^ 32) (hapart : d.Apart src dst)

include he in
omit [Field F] in
/-- The source is still what it was. -/
theorem Untouched.elements {raw' : Nat → Nat → NumByte F} (h : Untouched d dst raw raw') (hapart : d.Apart src dst) {b c : Nat}
    (hb : b < d.batch) (hc : c < d.channels) {p : Nat × Nat} (hp : p.1 < d.ih ∧ p.2 < d.iw) :
    d.elements garbage (raw' src) b c p = d.elements garbage (raw src) b c p := by
  have hindex := channelIndex_lt hb hc (mul_add_lt hp.1 hp.2)
  have hend : d.channelIndex (d.ih * d.iw) b c (p.1 * d.iw + p.2) * d.elemSize + d.elemSize ≤ d.inputSize := by
    rw [← Nat.succ_mul]
    unfold inputSize
    rw [← Nat.mul_assoc]
    exact Nat.mul_le_mul_right _ hindex
  apply load_congr (intWidth_pos he)
  intro i hi
  have hwidth := d.intWidth_le
  by_cases hsame : src = dst
  · subst hsame
    apply h.outside
    rcases hapart with hne | hbefore | hafter
    · exact absurd rfl hne
    · unfold srcAddr
      omega
    · unfold srcAddr
      omega
  · rw [h.others src hsame]

include he hin hout hkh hkw hapart

variable (poolType)

/-- A channel paints its part of the output. -/
theorem poolChannel_paints {s : PoolState F} (hs : Untouched d dst raw s.raw) {b c : Nat} (hb : b < d.batch)
    (hc : c < d.channels) :
    Paints (d.outBytes negInf garbage poolType (raw src))
        (fun a => ∃ i < d.oh * d.ow, ∃ j < d.intWidth,
          a = d.dstOffset + d.channelIndex (d.oh * d.ow) b c i * d.elemSize + j)
        (s.raw dst) ((d.poolChannel negInf garbage poolType src dst s b c).raw dst) ∧
      Untouched d dst raw (d.poolChannel negInf garbage poolType src dst s b c).raw := by
  have hvalue (i : Nat) : d.windowValue negInf poolType (i / d.ow) (i % d.ow) (d.elements garbage (s.raw src) b c) =
      d.windowValue negInf poolType (i / d.ow) (i % d.ow) (d.elements garbage (raw src) b c) := by
    refine windowValue_congr negInf fun p hp => ?_
    exact hs.elements garbage he hapart hb hc (d.lt_of_mem_windowList (d.mem_window.1 hp))
  have hraw : (d.poolChannel negInf garbage poolType src dst s b c).raw dst =
      (List.range (d.oh * d.ow)).foldl (fun mem i =>
        store d.intWidth mem (d.dstOffset + d.channelIndex (d.oh * d.ow) b c i * d.elemSize)
          (d.pool2d negInf poolType (d.readChannel garbage (s.raw src) b c) s.dstF32 i)) (s.raw dst) := by
    unfold poolChannel
    dsimp only
    rw [Function.update_self, writeChannel_eq hb hc he hout]
  have hpaints : Paints (d.outBytes negInf garbage poolType (raw src))
      (fun a => ∃ i < d.oh * d.ow, ∃ j < d.intWidth,
        a = d.dstOffset + d.channelIndex (d.oh * d.ow) b c i * d.elemSize + j)
      (s.raw dst) ((d.poolChannel negInf garbage poolType src dst s b c).raw dst) := by
    rw [hraw]
    refine Paints.foldl id (fun i hi mem => ?_) (s.raw dst)
    dsimp only [id]
    rw [pool2d_apply negInf garbage hb hc he poolType hout hin hkh hkw _ _ hi, hvalue]
    constructor
    · rintro a ⟨j, hj, rfl⟩
      rw [outBytes_apply negInf garbage poolType (raw src) hc hi hj]
      exact memcpy_inside hj
    · intro a ha
      apply store_outside
      by_contra hno
      push Not at hno
      obtain ⟨j, rfl⟩ := Nat.exists_eq_add_of_le hno.1
      exact ha ⟨j, by omega, rfl⟩
  refine ⟨hpaints, fun r hr => ?_, fun a ha => ?_⟩
  · rw [← hs.others r hr]
    unfold poolChannel
    exact Function.update_of_ne hr _ _
  · rw [hpaints.untouched a ?_]
    · exact hs.outside a ha
    · rintro ⟨i, hi, j, hj, rfl⟩
      exact ha (lt_of_outArea ⟨b, hb, c, hc, i, hi, j, hj, rfl⟩)

/-- The loops over all channels paint the output. -/
theorem execute_paints (s : PoolState F) (hs : Untouched d dst raw s.raw) :
    let s' := (List.range d.batch).foldl (fun s b => (List.range d.channels).foldl (fun s c =>
      d.poolChannel negInf garbage poolType src dst s b c) s) s
    Paints (d.outBytes negInf garbage poolType (raw src)) d.OutArea (s.raw dst) (s'.raw dst) ∧
      Untouched d dst raw s'.raw := by
  refine Paints.foldl_of_invariant (PoolState.raw · dst) (I := (Untouched d dst raw <| PoolState.raw ·)) (fun b hb s hs => ?_) hs
  refine Paints.foldl_of_invariant (PoolState.raw · dst) (I := (Untouched d dst raw <| PoolState.raw ·)) (fun c hc s hs => ?_) hs
  exact poolChannel_paints negInf garbage poolType he hin hout hkh hkw hapart hs hb hc

end

end TuPoolDesc

end Tusim.Pool
