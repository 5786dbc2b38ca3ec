import Mathlib.Algebra.Order.Ring.Rat
import Tusim.Pooling.Exactness

/-!
# When the pooling is right

A descriptor that is accepted is one for which nothing reaches `2 ^ 32`, elements have at most four bytes and a window
placed with `ph` and `pw` covers what it covers with the padding in force (`Sound`), or there are inputs for which the
pooling goes wrong (`pool_meets_iff`).  With symmetric padding and less than `2 ^ 31` rows and columns the windows are
right (`windowRight_of_symmetric`).
-/

namespace Tusim.Pool

open Digits NumberMemory Painting Windows Word

namespace TuPoolDesc

variable (d : TuPoolDesc)

/-- A padded window covers an element. -/
structure Covers (oy ox y x : Nat) : Prop where
  top : oy * d.sh ≤ y + d.padTop
  bottom : y + d.padTop < oy * d.sh + d.kh
  left : ox * d.sw ≤ x + d.padLeft
  right : x + d.padLeft < ox * d.sw + d.kw

/-- A window placed with `ph` and `pw` covers an element, as far as 32-bit coordinates reach. -/
structure Finds (oy ox y x : Nat) : Prop where
  row : Reached d.kh (oy * d.sh) d.ph d.ih y
  col : Reached d.kw (ox * d.sw) d.pw d.iw x

/-- Both windows cover the same, and the number of positions of a window that covers something is no 33-bit number. -/
structure WindowRight (poolType : TuPoolType) (oy ox : Nat) : Prop where
  covered : ∀ y < d.ih, ∀ x < d.iw, d.Covers oy ox y x ↔ d.Finds oy ox y x ∧ ¬ d.CountVanishes poolType
  count : poolType = .avg → d.countIncludePad = true → (∃ y < d.ih, ∃ x < d.iw, d.Covers oy ox y x) →
    d.kh * d.kw < 2 ^ 32

/-- Sizes and addresses are 32-bit numbers, elements are copied whole, and the windows are right. -/
structure Sound (poolType : TuPoolType) : Prop where
  height : d.height < 2 ^ 32
  width : d.width < 2 ^ 32
  input : d.srcOffset + d.inputSize < 2 ^ 32
  output : d.dstOffset + d.batch * d.channels * (d.exactOh * d.exactOw * d.elemSize) < 2 ^ 32
  elements : 0 < d.batch * d.channels → d.elemSize ≤ 4
  windows : 0 < d.batch * d.channels → ∀ oy < d.exactOh, ∀ ox < d.exactOw, d.WindowRight poolType oy ox

end TuPoolDesc

/-- The descriptor after `tu_pool_compute_dims` if it passes the checks, with what to compute and from where to where. -/
structure Accepts (sizes : Nat → UInt32) (desc d : TuPoolDesc) (poolType : TuPoolType) (src dst : Nat) : Prop where
  dims : tuPoolComputeDims desc = some d
  valid : tuPoolValidate sizes d = some (poolType, src, dst)

/-- The execution fails and leaves everything as it was, or pools. -/
def Meets {F : Type} [Field F] [LinearOrder F] (negInf garbage : F) (sizes : Nat → UInt32) (desc : TuPoolDesc)
    (raw : Nat → Nat → NumByte F) : Prop :=
  let r := tuPoolExecute negInf garbage sizes desc raw
  r.2 = -1 ∧ r.1 = raw ∨
    ∃ d poolType src dst, Accepts sizes desc d poolType src dst ∧
      d.Pooled negInf garbage sizes poolType src dst raw r.1

/-- The strides and the symmetric padding of a descriptor are 32-bit numbers. -/
structure Fields (desc : TuPoolDesc) : Prop where
  sh : desc.sh < 2 ^ 32
  sw : desc.sw < 2 ^ 32
  ph : desc.ph < 2 ^ 32
  pw : desc.pw < 2 ^ 32

/-! ### What is accepted -/

section

variable {sizes : Nat → UInt32} {desc d : TuPoolDesc} {poolType : TuPoolType} {src dst : Nat}

/-- What an accepted descriptor is like. -/
structure Checked (sizes : Nat → UInt32) (d : TuPoolDesc) (src dst : Nat) : Prop where
  ih : 0 < d.ih
  iw : 0 < d.iw
  kh : 0 < d.kh
  kw : 0 < d.kw
  sh : 0 < d.sh ∧ d.sh < 2 ^ 32
  sw : 0 < d.sw ∧ d.sw < 2 ^ 32
  ph : d.ph < 2 ^ 32
  pw : d.pw < 2 ^ 32
  rows : d.kh ≤ u32 (d.ih + u32 (d.padTop + d.padBottom))
  cols : d.kw ≤ u32 (d.iw + u32 (d.padLeft + d.padRight))
  oh : d.oh = u32 ((u32 (d.ih + u32 (d.padTop + d.padBottom)) - d.kh) / d.sh + 1)
  ow : d.ow = u32 ((u32 (d.iw + u32 (d.padLeft + d.padRight)) - d.kw) / d.sw + 1)
  elemSize : 0 < d.elemSize
  input : u32 (d.srcOffset + u32 d.inputSize) ≤ (sizes src).toNat
  output : u32 (d.dstOffset + u32 d.outputSize) ≤ (sizes dst).toNat

theorem Accepts.checked (h : Accepts sizes desc d poolType src dst) (hfields : Fields desc) : Checked sizes d src dst := by
  obtain ⟨hdims, hvalid⟩ := h
  unfold tuPoolComputeDims at hdims
  simp only [Option.ite_none_left_eq_some, Option.some.injEq] at hdims
  obtain ⟨hin, hkernel, hrows, hcols, rfl⟩ := hdims
  unfold tuPoolValidate at hvalid
  split at hvalid
  · rename_i hsrc hdst
    simp only [Option.ite_none_left_eq_some, Option.some.injEq, Prod.mk.injEq] at hvalid
    obtain ⟨helem, hinput, houtput, -, rfl, rfl⟩ := hvalid
    have htotal {a : Bool} {t b p : Nat} : (if a then u32 (t + b) else u32 (p * 2)) =
        u32 ((if a then t else p) + if a then b else p) := by
      split
      · rfl
      · rw [Nat.mul_two]
    have hstride {s : Nat} (hs : s < 2 ^ 32) : 0 < (if s = 0 then 1 else s) ∧ (if s = 0 then 1 else s) < 2 ^ 32 := by
      split <;> omega
    rw [htotal] at hrows hcols
    have hassoc (b c h w e : Nat) : b * c * h * w * e = b * c * (h * w * e) := by ring
    rw [Bool.not_eq_true', Bool.not_eq_false] at hinput houtput
    unfold fits at hinput houtput
    rw [decide_eq_true_eq, hassoc] at hinput houtput
    exact {
      ih := Nat.pos_of_ne_zero fun h => hin (.inl h)
      iw := Nat.pos_of_ne_zero fun h => hin (.inr h)
      kh := Nat.pos_of_ne_zero fun h => hkernel (.inl h)
      kw := Nat.pos_of_ne_zero fun h => hkernel (.inr h)
      sh := hstride hfields.sh
      sw := hstride hfields.sw
      ph := hfields.ph
      pw := hfields.pw
      rows := not_lt.1 hrows
      cols := not_lt.1 hcols
      oh := by rw [htotal (t := desc.phTop)]; rfl
      ow := by rw [htotal (t := desc.pwLeft)]; rfl
      elemSize := Nat.pos_of_ne_zero fun h => helem (.inl h)
      input := hinput
      output := houtput }
  · exact absurd hvalid nofun

namespace Checked

variable (h : Checked sizes d src dst)

include h

/-- The dimensions come out right if and only if nothing wraps around. -/
theorem dimsExact_iff : d.DimsExact ↔ d.height < 2 ^ 32 ∧ d.width < 2 ^ 32 := by
  have hrows := windowCount_iff h.sh.1 h.sh.2.le h.kh h.rows
  have hcols := windowCount_iff h.sw.1 h.sw.2.le h.kw h.cols
  rw [← h.oh] at hrows
  rw [← h.ow] at hcols
  constructor
  · rintro ⟨hkh, hkw, hoh, how⟩
    exact ⟨hrows.1 ⟨hkh, hoh⟩, hcols.1 ⟨hkw, how⟩⟩
  · rintro ⟨hheight, hwidth⟩
    obtain ⟨hkh, hoh⟩ := hrows.2 hheight
    obtain ⟨hkw, how⟩ := hcols.2 hwidth
    exact ⟨hkh, hkw, hoh, how⟩

/-- So do the checks of the ranges. -/
theorem rangesInside_iff (hdims : d.DimsExact) : d.RangesInside sizes src dst ↔
    d.srcOffset + d.inputSize < 2 ^ 32 ∧
      d.dstOffset + d.batch * d.channels * (d.exactOh * d.exactOw * d.elemSize) < 2 ^ 32 := by
  have hin := h.input
  have hout := h.output
  have hsrc := (sizes src).toNat_lt
  have hdst := (sizes dst).toNat_lt
  rw [← hdims.oh, ← hdims.ow]
  change _ ↔ _ ∧ d.dstOffset + d.outputSize < 2 ^ 32
  unfold u32 at hin hout
  constructor
  · rintro ⟨hinput, houtput⟩
    exact ⟨by omega, by omega⟩
  · rintro ⟨hinput, houtput⟩
    exact ⟨by omega, by omega⟩

end Checked

namespace TuPoolDesc

theorem mem_exactWindow {oy ox : Nat} {p : Nat × Nat} :
    p ∈ d.exactWindow oy ox ↔ p.1 < d.ih ∧ p.2 < d.iw ∧ d.Covers oy ox p.1 p.2 := by
  unfold exactWindow exactCells
  rw [Finset.mem_product, Finset.mem_filter, Finset.mem_filter, Finset.mem_range, Finset.mem_range]
  constructor
  · rintro ⟨⟨hy, htop, hbottom⟩, hx, hleft, hright⟩
    exact ⟨hy, hx, htop, hbottom, hleft, hright⟩
  · rintro ⟨hy, hx, htop, hbottom, hleft, hright⟩
    exact ⟨⟨hy, htop, hbottom⟩, hx, hleft, hright⟩

/-- A window of the output ends on the padded line. -/
theorem window_end {kernel line stride n : Nat} (hkernel : kernel ≤ line) (hn : n < (line - kernel) / stride + 1) :
    n * stride + kernel ≤ line := by
  have hle : n * stride ≤ (line - kernel) / stride * stride := Nat.mul_le_mul_right _ (Nat.le_of_lt_succ hn)
  have := Nat.div_mul_le_self (line - kernel) stride
  omega

theorem mem_window_iff (h : Checked sizes d src dst) (hheight : d.height < 2 ^ 32) (hwidth : d.width < 2 ^ 32)
    (hdims : d.DimsExact) {oy ox : Nat} (hoy : oy < d.exactOh) (hox : ox < d.exactOw) {p : Nat × Nat} :
    p ∈ d.window oy ox ↔ p.1 < d.ih ∧ p.2 < d.iw ∧ d.Finds oy ox p.1 p.2 := by
  have hrow := window_end hdims.kh_le hoy
  have hcol := window_end hdims.kw_le hox
  have hih : d.ih ≤ d.height := Nat.le_add_right _ _
  have hiw : d.iw ≤ d.width := Nat.le_add_right _ _
  rw [mem_window]
  unfold windowList
  rw [List.mem_product, mem_cells_iff (by omega) h.ph (by omega), mem_cells_iff (by omega) h.pw (by omega)]
  constructor
  · rintro ⟨⟨hy, hr⟩, hx, hc⟩
    exact ⟨hy, hx, hr, hc⟩
  · rintro ⟨hy, hx, hr, hc⟩
    exact ⟨⟨hy, hr⟩, hx, hc⟩

/-- What the loops over a window use, in numbers. -/
theorem windowSound_iff_right (h : Checked sizes d src dst) (hheight : d.height < 2 ^ 32) (hwidth : d.width < 2 ^ 32)
    (hdims : d.DimsExact) {oy ox : Nat} (hoy : oy < d.exactOh) (hox : ox < d.exactOw) :
    d.WindowSound poolType oy ox ↔ d.WindowRight poolType oy ox := by
  have hused (p : Nat × Nat) : p ∈ d.usedWindow poolType oy ox ↔
      p.1 < d.ih ∧ p.2 < d.iw ∧ d.Finds oy ox p.1 p.2 ∧ ¬ d.CountVanishes poolType := by
    unfold usedWindow
    split
    · rename_i hzero
      exact ⟨fun hp => absurd hp (Finset.notMem_empty p), fun hp => absurd hzero hp.2.2.2⟩
    · rename_i hzero
      rw [mem_window_iff h hheight hwidth hdims hoy hox]
      exact ⟨fun ⟨hy, hx, hp⟩ => ⟨hy, hx, hp, hzero⟩, fun ⟨hy, hx, hp, _⟩ => ⟨hy, hx, hp⟩⟩
  have hcovered : d.usedWindow poolType oy ox = d.exactWindow oy ox ↔
      ∀ y < d.ih, ∀ x < d.iw, d.Covers oy ox y x ↔ d.Finds oy ox y x ∧ ¬ d.CountVanishes poolType := by
    constructor
    · intro hsame y hy x hx
      have hmem := hused (y, x)
      rw [hsame, mem_exactWindow] at hmem
      exact ⟨fun hc => (hmem.1 ⟨hy, hx, hc⟩).2.2, fun hf => (hmem.2 ⟨hy, hx, hf⟩).2.2⟩
    · intro hsame
      ext p
      rw [hused, mem_exactWindow]
      constructor
      · rintro ⟨hy, hx, hf⟩
        exact ⟨hy, hx, (hsame p.1 hy p.2 hx).2 hf⟩
      · rintro ⟨hy, hx, hc⟩
        exact ⟨hy, hx, (hsame p.1 hy p.2 hx).1 hc⟩
  have hne : (d.exactWindow oy ox).Nonempty ↔ ∃ y < d.ih, ∃ x < d.iw, d.Covers oy ox y x := by
    constructor
    · rintro ⟨p, hp⟩
      obtain ⟨hy, hx, hc⟩ := mem_exactWindow.1 hp
      exact ⟨p.1, hy, p.2, hx, hc⟩
    · rintro ⟨y, hy, x, hx, hc⟩
      exact ⟨(y, x), mem_exactWindow.2 ⟨hy, hx, hc⟩⟩
  have hwrap : u32 (d.kh * d.kw) = d.kh * d.kw ↔ d.kh * d.kw < 2 ^ 32 := Nat.mod_eq_iff_lt (by decide)
  constructor
  · rintro ⟨hsame, hcount⟩
    refine ⟨hcovered.1 hsame, fun havg hpad hsome => ?_⟩
    have hnumber := hcount havg (hne.2 hsome)
    unfold windowCount exactCount at hnumber
    rw [if_pos hpad, if_pos hpad] at hnumber
    exact hwrap.1 hnumber
  · rintro ⟨hsame, hcount⟩
    refine ⟨hcovered.2 hsame, fun havg hsome => ?_⟩
    unfold windowCount exactCount
    by_cases hpad : d.countIncludePad = true
    · rw [if_pos hpad, if_pos hpad, hwrap.2 (hcount havg hpad (hne.1 hsome))]
    · have hnot : ¬ d.CountVanishes poolType := fun hzero => hpad hzero.2.1
      have hwindow := hcovered.2 hsame
      unfold usedWindow at hwindow
      rw [if_neg hnot] at hwindow
      rw [if_neg hpad, if_neg hpad, hwindow]

/-- Windows are right where the padding in force is `ph` and `pw` and numbers are small. -/
theorem windowRight_of_symmetric (hrow : d.padTop = d.ph) (hcol : d.padLeft = d.pw) (hheight : d.height < 2 ^ 31)
    (hwidth : d.width < 2 ^ 31) (hkh : 0 < d.kh) (hkw : 0 < d.kw)
    (hcount : poolType = .avg → d.countIncludePad = true → d.kh * d.kw < 2 ^ 32) (oy ox : Nat) :
    d.WindowRight poolType oy ox := by
  have hreached {kernel base pad size total y : Nat} (hpad : size + (pad + total) < 2 ^ 31) (hy : y < size) :
      Reached kernel base pad size y ↔ base ≤ y + pad ∧ y + pad < base + kernel := by
    have hwrap : u32 (y + pad) = y + pad := u32_of_lt (by omega)
    constructor
    · rintro ⟨-, -, hle, hlt⟩
      rw [hwrap] at hle hlt
      exact ⟨hle, hlt⟩
    · rintro ⟨hle, hlt⟩
      exact ⟨by omega, by omega, by omega, by omega⟩
  have hnot : ¬ d.CountVanishes poolType := by
    rintro ⟨havg, hpad, hzero⟩
    have hpos := Nat.mul_pos hkh hkw
    rw [u32_of_lt (hcount havg hpad)] at hzero
    omega
  unfold height at hheight
  unfold width at hwidth
  rw [hrow] at hheight
  rw [hcol] at hwidth
  refine ⟨fun y hy x hx => ?_, fun havg hpad _ => hcount havg hpad⟩
  constructor
  · rintro ⟨htop, hbottom, hleft, hright⟩
    rw [hrow] at htop hbottom
    rw [hcol] at hleft hright
    exact ⟨⟨(hreached hheight hy).2 ⟨htop, hbottom⟩, (hreached hwidth hx).2 ⟨hleft, hright⟩⟩, hnot⟩
  · rintro ⟨⟨hr, hc⟩, -⟩
    obtain ⟨htop, hbottom⟩ := (hreached hheight hy).1 hr
    obtain ⟨hleft, hright⟩ := (hreached hwidth hx).1 hc
    exact ⟨by omega, by omega, by omega, by omega⟩

end TuPoolDesc

end

/-! ### Executions -/

section

variable {F : Type} [Field F] [LinearOrder F] (negInf garbage : F) {sizes : Nat → UInt32} {desc d : TuPoolDesc}
  {poolType : TuPoolType} {src dst : Nat} (raw : Nat → Nat → NumByte F)

theorem tuPoolExecute_eq (h : Accepts sizes desc d poolType src dst) :
    tuPoolExecute negInf garbage sizes desc raw =
      let s := (List.range d.batch).foldl (fun s b => (List.range d.channels).foldl (fun s c =>
        d.poolChannel negInf garbage poolType src dst s b c) s)
        { raw := raw, dstF32 := fun _ => garbage, totalCycles := 0 };
      (s.raw, s.totalCycles + d.kh) := by
  unfold tuPoolExecute
  rw [h.dims]
  dsimp only
  rw [h.valid]

theorem tuPoolExecute_of_rejected (h : ∀ d poolType src dst, ¬ Accepts sizes desc d poolType src dst) :
    tuPoolExecute negInf garbage sizes desc raw = (raw, -1) := by
  unfold tuPoolExecute
  split
  · rfl
  · rename_i d hdims
    split
    · rfl
    · rename_i hvalid
      exact absurd ⟨hdims, hvalid⟩ (h d _ _ _)

/-- An execution that is not refused returns a number of cycles. -/
theorem cycles_nonneg (h : Accepts sizes desc d poolType src dst) :
    0 ≤ (tuPoolExecute negInf garbage sizes desc raw).2 := by
  have hchannel (s : TuPoolDesc.PoolState F) (b c : Nat) (hs : 0 ≤ s.totalCycles) :
      0 ≤ (d.poolChannel negInf garbage poolType src dst s b c).totalCycles := by
    refine add_nonneg hs (mul_nonneg (Int.natCast_nonneg _) ?_)
    cases poolType <;> decide
  rw [tuPoolExecute_eq negInf garbage raw h]
  refine add_nonneg ?_ (Int.natCast_nonneg _)
  refine foldl_range_rec (P := fun _ (s : TuPoolDesc.PoolState F) => 0 ≤ s.totalCycles) le_rfl fun b _ s hs => ?_
  exact foldl_range_rec (P := fun _ (s : TuPoolDesc.PoolState F) => 0 ≤ s.totalCycles) hs
    fun c _ s hs => hchannel s b c hs

variable (h : Accepts sizes desc d poolType src dst) (hchecked : Checked sizes d src dst)
  (hinside : d.RangesInside sizes src dst) (hapart : d.Apart src dst)

include h hchecked hinside hapart

/-- An execution whose ranges lie in their regions paints the output. -/
theorem tuPoolExecute_paints :
    Paints (d.outBytes negInf garbage poolType (raw src)) d.OutArea (raw dst)
        ((tuPoolExecute negInf garbage sizes desc raw).1 dst) ∧
      d.Untouched dst raw (tuPoolExecute negInf garbage sizes desc raw).1 := by
  have hsrc := (sizes src).toNat_lt
  have hdst := (sizes dst).toNat_lt
  have hin := hinside.input
  have hout := hinside.output
  have hrows : d.kh < 2 ^ 32 := hchecked.rows.trans_lt (Nat.mod_lt _ (by decide))
  have hcols : d.kw < 2 ^ 32 := hchecked.cols.trans_lt (Nat.mod_lt _ (by decide))
  have hstart : d.Untouched dst raw raw := ⟨fun _ _ => rfl, fun _ _ => rfl⟩
  have hpaints := TuPoolDesc.execute_paints negInf garbage poolType hchecked.elemSize (by omega) (by omega) hrows.le
    hcols.le hapart { raw := raw, dstF32 := fun _ => garbage, totalCycles := 0 } hstart
  rw [tuPoolExecute_eq negInf garbage raw h]
  exact hpaints

/-- An element of the output is what the loops over its window compute. -/
theorem load_executed (helem : d.elemSize ≤ 4) {b c oy ox : Nat} (hb : b < d.batch) (hc : c < d.channels)
    (hoy : oy < d.oh) (hox : ox < d.ow) :
    load d.elemSize garbage ((tuPoolExecute negInf garbage sizes desc raw).1 dst) (d.dstAddr b c oy ox) =
      d.windowValue negInf poolType oy ox fun p => load d.elemSize garbage (raw src) (d.srcAddr b c p.1 p.2) := by
  have hwidth : d.intWidth = d.elemSize := by
    unfold TuPoolDesc.intWidth
    split <;> omega
  have hi : oy * d.ow + ox < d.oh * d.ow := mul_add_lt hoy hox
  have helements : d.elements garbage (raw src) b c = fun p => load d.elemSize garbage (raw src) (d.srcAddr b c p.1 p.2) := by
    unfold TuPoolDesc.elements
    rw [hwidth]
  obtain ⟨hpaints, -⟩ := tuPoolExecute_paints negInf garbage raw h hchecked hinside hapart
  apply load_of_bytes hchecked.elemSize
  intro j hj
  rw [← hwidth] at hj
  have hbyte := TuPoolDesc.outBytes_apply negInf garbage poolType (raw src) (b := b) hc hi hj
  rw [rest_of_digit hox, digit_of_digit hox, helements, hwidth] at hbyte
  exact (hpaints.painted _ ⟨b, hb, c, hc, _, hi, j, hj, rfl⟩).trans hbyte

end

/-! ### All contents -/

namespace TuPoolDesc

variable {F : Type} [Field F] [LinearOrder F] {d : TuPoolDesc}

/-- A source that holds the numbers `x`. -/
def contents (d : TuPoolDesc) (x : Nat → F) : Nat → NumByte F := fun a => encode d.elemSize x (a - d.srcOffset)

omit [Field F] in
theorem load_contents (garbage : F) (he : 0 < d.elemSize) (x : Nat → F) (i : Nat) :
    load d.elemSize garbage (d.contents x) (d.srcOffset + i * d.elemSize) = x i := by
  apply load_of_bytes he
  intro j hj
  unfold contents encode
  rw [Nat.add_assoc, Nat.add_sub_cancel_left, rest_of_digit hj, digit_of_digit hj]

theorem exactValue_congr {negInf : F} {poolType : TuPoolType} {oy ox : Nat} {x y : Nat × Nat → F}
    (h : ∀ p ∈ d.exactWindow oy ox, x p = y p) :
    d.exactValue negInf poolType oy ox x = d.exactValue negInf poolType oy ox y := by
  cases poolType with
  | max => exact windowMax_congr h
  | avg => exact windowAvg_congr h

end TuPoolDesc

section

variable {F : Type} [Field F] [LinearOrder F] [IsStrictOrderedRing F] {negInf : F} {sizes : Nat → UInt32}
  {desc d : TuPoolDesc} {poolType : TuPoolType} {src dst : Nat}

omit [IsStrictOrderedRing F] in
theorem pooled_of_meets (h : Accepts sizes desc d poolType src dst) {garbage : F} {raw : Nat → Nat → NumByte F}
    (hmeets : Meets negInf garbage sizes desc raw) :
    d.Pooled negInf garbage sizes poolType src dst raw (tuPoolExecute negInf garbage sizes desc raw).1 := by
  have hcycles := cycles_nonneg negInf garbage raw h
  rcases hmeets with ⟨hfail, -⟩ | ⟨d', poolType', src', dst', h', hpooled⟩
  · omega
  · obtain rfl : d = d' := Option.some_inj.1 (h.dims.symm.trans h'.dims)
    have hvalid := Option.some_inj.1 (h.valid.symm.trans h'.valid)
    rw [Prod.mk.injEq, Prod.mk.injEq] at hvalid
    obtain ⟨rfl, rfl, rfl⟩ := hvalid
    exact hpooled

/-- A sound descriptor pools whatever the memory contains. -/
theorem pooled_of_sound (h : Accepts sizes desc d poolType src dst) (hchecked : Checked sizes d src dst)
    (hapart : d.Apart src dst) (hsound : d.Sound poolType) (garbage : F) (raw : Nat → Nat → NumByte F) :
    d.Pooled negInf garbage sizes poolType src dst raw (tuPoolExecute negInf garbage sizes desc raw).1 := by
  have hdims := hchecked.dimsExact_iff.2 ⟨hsound.height, hsound.width⟩
  have hinside := (hchecked.rangesInside_iff hdims).2 ⟨hsound.input, hsound.output⟩
  refine ⟨hdims, hinside, ?_, (tuPoolExecute_paints negInf garbage raw h hchecked hinside hapart).2⟩
  intro b hb c hc oy hoy ox hox
  have hpos : 0 < d.batch * d.channels := Nat.mul_pos (Nat.zero_lt_of_lt hb) (Nat.zero_lt_of_lt hc)
  have hoy' := hoy.trans_eq hdims.oh
  have hox' := hox.trans_eq hdims.ow
  have hwindow := (TuPoolDesc.windowSound_iff_right hchecked hsound.height hsound.width hdims hoy' hox').2
    (hsound.windows hpos oy hoy' ox hox')
  rw [load_executed negInf garbage raw h hchecked hinside hapart (hsound.elements hpos) hb hc hoy hox]
  exact (TuPoolDesc.windowSound_iff hchecked.kh hchecked.kw).2 hwindow _

omit [Field F] [IsStrictOrderedRing F] in
theorem load_firstChannel (he : 0 < d.elemSize) (garbage : F) (x : Nat → F) (p : Nat × Nat) :
    load d.elemSize garbage (d.contents x) (d.srcAddr 0 0 p.1 p.2) = x (p.1 * d.iw + p.2) := by
  have haddr : d.srcAddr 0 0 p.1 p.2 = d.srcOffset + (p.1 * d.iw + p.2) * d.elemSize := by
    unfold TuPoolDesc.srcAddr TuPoolDesc.channelIndex
    rw [Nat.zero_mul, Nat.zero_add, Nat.zero_mul, Nat.zero_add]
  rw [haddr]
  exact d.load_contents garbage he x _

/-- Elements of more than four bytes are not written whole. -/
theorem elemSize_le_of_pooled (h : Accepts sizes desc d poolType src dst) (hchecked : Checked sizes d src dst)
    (hapart : d.Apart src dst) (hpos : 0 < d.batch * d.channels)
    (hpooled : ∀ (garbage : F) raw,
      d.Pooled negInf garbage sizes poolType src dst raw (tuPoolExecute negInf garbage sizes desc raw).1) :
    d.elemSize ≤ 4 := by
  by_contra hwide
  obtain ⟨hdims, hinside, -, -⟩ := hpooled 0 fun _ => d.contents fun _ => 0
  have hwidth : d.intWidth = 4 := by
    unfold TuPoolDesc.intWidth
    split <;> omega
  have hoh : 0 < d.oh := by
    rw [hdims.oh]
    exact Nat.succ_pos _
  have how : 0 < d.ow := by
    rw [hdims.ow]
    exact Nat.succ_pos _
  have hbatch := Nat.pos_of_mul_pos_right hpos
  have hchannels := Nat.pos_of_mul_pos_left hpos
  -- the four bytes are read as what a number that is not whole reads as, whatever the expected value
  let expected : F := d.exactValue negInf poolType 0 0 fun _ => 0
  have hvalue := (hpooled (expected + 1) fun _ => d.contents fun _ => 0).values 0 hbatch 0 hchannels 0 hoh 0 how
  have hpaints := (tuPoolExecute_paints negInf (expected + 1) (fun _ => d.contents fun _ => 0) h hchecked hinside hapart).1
  have hbyte := hpaints.painted (d.dstAddr 0 0 0 0)
    ⟨0, hbatch, 0, hchannels, 0 * d.ow + 0, mul_add_lt hoh how, 0, by omega, rfl⟩
  have hread : load d.elemSize (expected + 1)
      ((tuPoolExecute negInf (expected + 1) sizes desc fun _ => d.contents fun _ => 0).1 dst) (d.dstAddr 0 0 0 0) =
        expected + 1 := by
    apply load_of_width_ne hchecked.elemSize
    rw [hbyte]
    show d.intWidth ≠ d.elemSize
    omega
  have hexpected : d.exactValue negInf poolType 0 0
      (fun p => load d.elemSize (expected + 1) (d.contents fun _ => 0) (d.srcAddr 0 0 p.1 p.2)) = expected :=
    TuPoolDesc.exactValue_congr fun p _ => load_firstChannel hchecked.elemSize (expected + 1) (fun _ => 0) p
  rw [hread, hexpected] at hvalue
  exact absurd hvalue (lt_add_one expected).ne'

/-- A descriptor that pools whatever the memory contains is sound. -/
theorem sound_of_pooled (h : Accepts sizes desc d poolType src dst) (hchecked : Checked sizes d src dst)
    (hapart : d.Apart src dst)
    (hpooled : ∀ (garbage : F) raw,
      d.Pooled negInf garbage sizes poolType src dst raw (tuPoolExecute negInf garbage sizes desc raw).1) :
    d.Sound poolType := by
  obtain ⟨hdims, hinside, -, -⟩ := hpooled 0 fun _ => d.contents fun _ => 0
  obtain ⟨hheight, hwidth⟩ := hchecked.dimsExact_iff.1 hdims
  obtain ⟨hinput, houtput⟩ := (hchecked.rangesInside_iff hdims).1 hinside
  have helem (hpos : 0 < d.batch * d.channels) := elemSize_le_of_pooled h hchecked hapart hpos hpooled
  refine ⟨hheight, hwidth, hinput, houtput, helem, ?_⟩
  intro hpos oy hoy ox hox
  have hbatch := Nat.pos_of_mul_pos_right hpos
  have hchannels := Nat.pos_of_mul_pos_left hpos
  have hoy' := hoy.trans_eq hdims.oh.symm
  have hox' := hox.trans_eq hdims.ow.symm
  -- the first channel can hold any numbers
  have hall (x : Nat × Nat → F) : d.windowValue negInf poolType oy ox x = d.exactValue negInf poolType oy ox x := by
    let cells : Nat → NumByte F := d.contents fun i => x (i / d.iw, i % d.iw)
    have hcell (p : Nat × Nat) (hp : p.2 < d.iw) : load d.elemSize 0 cells (d.srcAddr 0 0 p.1 p.2) = x p := by
      rw [load_firstChannel hchecked.elemSize, rest_of_digit hp, digit_of_digit hp]
    have hvalue := (hpooled 0 fun _ => cells).values 0 hbatch 0 hchannels oy hoy' ox hox'
    rw [load_executed negInf 0 _ h hchecked hinside hapart (helem hpos) hbatch hchannels hoy' hox'] at hvalue
    calc d.windowValue negInf poolType oy ox x
        = d.windowValue negInf poolType oy ox fun p => load d.elemSize 0 cells (d.srcAddr 0 0 p.1 p.2) :=
          TuPoolDesc.windowValue_congr negInf fun p hp =>
            (hcell p (d.lt_of_mem_windowList (d.mem_window.1 hp)).2).symm
      _ = d.exactValue negInf poolType oy ox fun p => load d.elemSize 0 cells (d.srcAddr 0 0 p.1 p.2) := hvalue
      _ = d.exactValue negInf poolType oy ox x :=
          TuPoolDesc.exactValue_congr fun p hp => hcell p (TuPoolDesc.mem_exactWindow.1 hp).2.1
  have hsound := (TuPoolDesc.windowSound_iff hchecked.kh hchecked.kw).1 hall
  exact (TuPoolDesc.windowSound_iff_right hchecked hheight hwidth hdims hoy hox).1 hsound

variable (negInf) in
/-- A descriptor is pooled right for all contents of the memory if and only if it is refused or sound. -/
theorem pool_meets_iff (sizes : Nat → UInt32) (desc : TuPoolDesc) (hfields : Fields desc)
    (hapart : ∀ d poolType src dst, Accepts sizes desc d poolType src dst → d.Apart src dst) :
    (∀ garbage raw, Meets negInf garbage sizes desc raw) ↔
      ∀ d poolType src dst, Accepts sizes desc d poolType src dst → d.Sound poolType := by
  constructor
  · intro hmeets d poolType src dst h
    exact sound_of_pooled h (h.checked hfields) (hapart d poolType src dst h) fun garbage raw =>
      pooled_of_meets h (hmeets garbage raw)
  · intro hsound garbage raw
    by_cases haccepts : ∃ d poolType src dst, Accepts sizes desc d poolType src dst
    · obtain ⟨d, poolType, src, dst, h⟩ := haccepts
      exact .inr ⟨d, poolType, src, dst, h, pooled_of_sound h (h.checked hfields) (hapart d poolType src dst h)
        (hsound d poolType src dst h) garbage raw⟩
    · push Not at haccepts
      left
      rw [tuPoolExecute_of_rejected negInf garbage raw haccepts]
      exact ⟨rfl, rfl⟩

end

/-- A 3 by 3 average over 4 by 4 elements with one element of padding on each side. -/
private def smoothing : TuPoolDesc where
  poolType := some .avg
  batch := 1
  channels := 2
  ih := 4
  iw := 4
  kh := 3
  kw := 3
  sh := 1
  sw := 1
  ph := 1
  pw := 1
  asymPadding := false
  phTop := 0
  phBottom := 0
  pwLeft := 0
  pwRight := 0
  elemSize := 4
  isFloat := true
  srcRegion := some 0
  srcOffset := 0
  dstRegion := some 1
  dstOffset := 0
  countIncludePad := true

theorem pool_meets_smoothing :
    tuPoolComputeDims smoothing = some { smoothing with oh := 4, ow := 4 } ∧
      ∀ garbage raw, Meets (-1 : ℚ) garbage (fun _ => 128) smoothing raw := by
  have hdims : tuPoolComputeDims smoothing = some { smoothing with oh := 4, ow := 4 } := by decide
  have hvalid : tuPoolValidate (fun _ => 128) { smoothing with oh := 4, ow := 4 } = some (.avg, 0, 1) := by decide
  have hunique : ∀ d poolType src dst, Accepts (fun _ => 128) smoothing d poolType src dst →
      d = { smoothing with oh := 4, ow := 4 } ∧ src = 0 ∧ dst = 1 := by
    intro d poolType src dst h
    obtain rfl := Option.some_inj.1 (hdims.symm.trans h.dims)
    have hsame := Option.some_inj.1 (hvalid.symm.trans h.valid)
    rw [Prod.mk.injEq, Prod.mk.injEq] at hsame
    exact ⟨rfl, hsame.2.1.symm, hsame.2.2.symm⟩
  refine ⟨hdims, (pool_meets_iff (-1 : ℚ) (fun _ => 128) smoothing ⟨by decide, by decide, by decide, by decide⟩ ?_).2 ?_⟩
  · intro d poolType src dst h
    obtain ⟨-, rfl, rfl⟩ := hunique d poolType src dst h
    exact .inl (by decide)
  · intro d poolType src dst h
    obtain ⟨rfl, -, -⟩ := hunique d poolType src dst h
    refine ⟨by decide, by decide, by decide, by decide, fun _ => by decide, fun _ oy _ ox _ => ?_⟩
    exact TuPoolDesc.windowRight_of_symmetric rfl rfl (by decide) (by decide) (by decide) (by decide)
      (fun _ _ => by decide) oy ox

/-- Two rows with one row of padding above them. -/
private def shifted : TuPoolDesc where
  poolType := some .max
  batch := 1
  channels := 1
  ih := 2
  iw := 1
  kh := 1
  kw := 1
  sh := 1
  sw := 1
  ph := 0
  pw := 0
  asymPadding := true
  phTop := 1
  phBottom := 0
  pwLeft := 0
  pwRight := 0
  elemSize := 4
  isFloat := true
  srcRegion := some 0
  srcOffset := 0
  dstRegion := some 1
  dstOffset := 0
  countIncludePad := false

/-- The first row of the output, which lies in the padding, gets the first row of the input. -/
theorem pool_misplaced : ¬ Meets (-1 : ℚ) 0 (fun _ => 64) shifted fun _ => encode 4 fun _ => 0 := by
  intro hmeets
  let d : TuPoolDesc := { shifted with oh := 3, ow := 1 }
  have haccepts : Accepts (fun _ => 64) shifted d .max 0 1 := ⟨by decide, by decide⟩
  have hchecked := haccepts.checked ⟨by decide, by decide, by decide, by decide⟩
  have hinside : d.RangesInside (fun _ => 64) 0 1 := ⟨by decide, by decide⟩
  have hvalue := (pooled_of_meets haccepts hmeets).values 0 (by decide) 0 (by decide) 0 (by decide) 0 (by decide)
  rw [load_executed (-1 : ℚ) 0 _ haccepts hchecked hinside (.inl (by decide)) (by decide) (by decide) (by decide) (by decide)
    (by decide)] at hvalue
  have hused : d.window 0 0 = {(0, 0)} := by decide +kernel
  have hexact : d.exactWindow 0 0 = ∅ := by decide +kernel
  have hfirst : d.windowValue (-1) .max 0 0 (fun p => load d.elemSize (0 : ℚ) (encode 4 fun _ => 0) (d.srcAddr 0 0 p.1 p.2)) =
      load 4 0 (encode 4 fun _ => 0) 0 := by
    unfold TuPoolDesc.windowValue windowMax
    simp only [hused]
    rw [dif_pos (Finset.singleton_nonempty _), Finset.sup'_singleton]
    rfl
  have hpad : d.exactValue (-1) .max 0 0 (fun p => load d.elemSize (0 : ℚ) (encode 4 fun _ => 0) (d.srcAddr 0 0 p.1 p.2)) =
      -1 := by
    unfold TuPoolDesc.exactValue windowMax
    simp only [hexact]
    exact dif_neg Finset.not_nonempty_empty
  have hload : load 4 (0 : ℚ) (encode 4 fun _ => 0) 0 = 0 := by decide
  rw [hfirst, hpad, hload] at hvalue
  exact absurd hvalue (by decide)

end Tusim.Pool
