import Mathlib.Algebra.BigOperators.Group.Finset.Basic
import Mathlib.Algebra.Field.Basic
import Mathlib.Algebra.Field.Defs
import Mathlib.Algebra.Order.Ring.Defs
import Mathlib.Data.Finset.Lattice.Fold
import Mathlib.Data.Finset.Prod
import Tusim.Lib.NumberMemory
import Tusim.Lib.Windows

/-!
# The pooling engine

`tu_pool_execute` and the functions it calls, with exact arithmetic in an ordered field; `negInf` stands for `-INFINITY`.
Conversions between element formats are exact, so a format is no more than a width, and an element that is read or written
in part is not a number.  A scratchpad region is its size and the buffer behind `tu_sram_raw_ptr`.  Allocations succeed;
what they contain at first, and what uninitialised memory reads as, is `garbage`.

The fields of a descriptor are 32-bit numbers; sums and products wrap where the source computes them in `uint32_t`.
-/

namespace Tusim.Pool

open Blocks NumberMemory Windows Word

inductive TuPoolType
  | max
  | avg
  deriving DecidableEq, Repr

/-- `tu_pool_desc_t`; `none` is a type from `TU_POOL_COUNT` on, or a null region. -/
structure TuPoolDesc where
  poolType : Option TuPoolType
  batch : Nat
  channels : Nat
  ih : Nat
  iw : Nat
  kh : Nat
  kw : Nat
  sh : Nat
  sw : Nat
  ph : Nat
  pw : Nat
  asymPadding : Bool
  phTop : Nat
  phBottom : Nat
  pwLeft : Nat
  pwRight : Nat
  elemSize : Nat
  isFloat : Bool
  oh : Nat := 0
  ow : Nat := 0
  srcRegion : Option Nat
  srcOffset : Nat
  dstRegion : Option Nat
  dstOffset : Nat
  countIncludePad : Bool
  deriving DecidableEq, Repr

/-- `tu_pool_compute_dims`, or `none` where it returns -1. -/
def tuPoolComputeDims (desc : TuPoolDesc) : Option TuPoolDesc :=
  if desc.ih = 0 ∨ desc.iw = 0 then none
  else if desc.kh = 0 ∨ desc.kw = 0 then none
  else
    let sh := if desc.sh = 0 then 1 else desc.sh
    let sw := if desc.sw = 0 then 1 else desc.sw
    let phTotal := if desc.asymPadding then u32 (desc.phTop + desc.phBottom) else u32 (desc.ph * 2)
    let pwTotal := if desc.asymPadding then u32 (desc.pwLeft + desc.pwRight) else u32 (desc.pw * 2)
    if u32 (desc.ih + phTotal) < desc.kh then none
    else if u32 (desc.iw + pwTotal) < desc.kw then none
    else
      some { desc with
        sh := sh
        sw := sw
        oh := u32 ((u32 (desc.ih + phTotal) - desc.kh) / sh + 1)
        ow := u32 ((u32 (desc.iw + pwTotal) - desc.kw) / sw + 1) }

/-- The check that `size` bytes at `offset` fit into a region, in 32 bits. -/
def fits (total : UInt32) (offset size : Nat) : Bool := u32 (offset + u32 size) ≤ total.toNat

/-- `tu_pool_validate`, given the sizes of the regions: the regions of source and destination. -/
def tuPoolValidate (sizes : Nat → UInt32) (desc : TuPoolDesc) : Option (TuPoolType × Nat × Nat) :=
  match desc.poolType, desc.srcRegion, desc.dstRegion with
  | some poolType, some src, some dst =>
    if desc.elemSize = 0 ∨ desc.elemSize > 8 then none
    else if !fits (sizes src) desc.srcOffset (desc.batch * desc.channels * desc.ih * desc.iw * desc.elemSize) then none
    else if !fits (sizes dst) desc.dstOffset (desc.batch * desc.channels * desc.oh * desc.ow * desc.elemSize) then none
    else some (poolType, src, dst)
  | _, _, _ => none

namespace TuPoolDesc

variable (d : TuPoolDesc) {F : Type} [Field F] [LinearOrder F] (negInf garbage : F)

/-! ### One channel -/

/-- `iy`, if the row lies in the input. -/
def inputRow (oy ky : Nat) : Option Nat := position (oy * d.sh + ky) d.ph d.ih

/-- `ix`, if the column lies in the input. -/
def inputCol (ox kx : Nat) : Option Nat := position (ox * d.sw + kx) d.pw d.iw

/-- What is done at a position of a window: something for an input element, nothing in the padding. -/
def atElement {S : Type} (row col : Option Nat) (f : S → Nat → Nat → S) (s : S) : S :=
  match row, col with
  | some iy, some ix => f s iy ix
  | _, _ => s

/-- The comparison with the maximum so far, which counts once there is one. -/
def maxStep (s : F × Bool) (val : F) : F × Bool := if val > s.1 ∨ ¬ s.2 then (val, true) else s

/-- The loops over a window in `tu_pool_max_2d`. -/
def maxWindow (src : Nat → F) (padValue : F) (oy ox : Nat) : F :=
  let s := (List.range d.kh).foldl (fun s ky => (List.range d.kw).foldl (fun s kx =>
    atElement (d.inputRow oy ky) (d.inputCol ox kx) (fun s iy ix => maxStep s (src (u32 (iy * d.iw + ix)))) s) s)
      (negInf, false)
  if s.2 then s.1 else padValue

/-- An input element in `tu_pool_avg_2d`. -/
def avgStep (s : F × Nat) (val : F) : F × Nat := (s.1 + val, if d.countIncludePad then s.2 else u32 (s.2 + 1))

/-- The loops over a window in `tu_pool_avg_2d`. -/
def avgWindow (src : Nat → F) (oy ox : Nat) : F :=
  let count := if d.countIncludePad then u32 (d.kh * d.kw) else 0
  let s := (List.range d.kh).foldl (fun s ky => (List.range d.kw).foldl (fun s kx =>
    atElement (d.inputRow oy ky) (d.inputCol ox kx) (fun s iy ix => d.avgStep s (src (u32 (iy * d.iw + ix)))) s) s)
      (0, count)
  if s.2 > 0 then s.1 / s.2 else 0

/-- `tu_pool_max_2d` or `tu_pool_avg_2d` -/
def pool2d (poolType : TuPoolType) (src dst : Nat → F) : Nat → F :=
  (List.range d.oh).foldl (fun dst oy => (List.range d.ow).foldl (fun dst ox =>
    Function.update dst (u32 (oy * d.ow + ox))
      (match poolType with
        | .max => d.maxWindow negInf src negInf oy ox
        | .avg => d.avgWindow src oy ox)) dst) dst

/-! ### Channels in the scratchpad -/

/-- `spatial_in` -/
def spatialIn : Nat := u32 (d.ih * d.iw)

/-- `spatial_out` -/
def spatialOut : Nat := u32 (d.oh * d.ow)

/-- `ch_src - src_raw + src_offset` -/
def chSrc (b c : Nat) : Nat :=
  let channelStrideIn := u32 (d.spatialIn * d.elemSize)
  d.srcOffset + u32 (b * u32 (d.channels * channelStrideIn)) + u32 (c * channelStrideIn)

/-- `ch_dst - dst_raw + dst_offset` -/
def chDst (b c : Nat) : Nat :=
  let channelStrideOut := u32 (d.spatialOut * d.elemSize)
  d.dstOffset + u32 (b * u32 (d.channels * channelStrideOut)) + u32 (c * channelStrideOut)

/-- The bytes of an element that the integer conversions copy. -/
def intWidth : Nat := if d.elemSize < 4 then d.elemSize else 4

/-- `src_f32` -/
def readChannel (mem : Nat → NumByte F) (b c : Nat) : Nat → F := fun i =>
  if i < d.spatialIn then
    if d.isFloat ∧ d.elemSize = 4 then
      if 4 * i < u32 (d.spatialIn * 4) then load 4 garbage mem (d.chSrc b c + 4 * i) else garbage
    else if d.isFloat ∧ d.elemSize = 2 then load 2 garbage mem (d.chSrc b c + u32 (i * 2))
    else load d.intWidth garbage mem (d.chSrc b c + u32 (i * d.elemSize))
  else garbage

/-- The copy of `dst_f32` to the scratchpad. -/
def writeChannel (mem : Nat → NumByte F) (b c : Nat) (dst : Nat → F) : Nat → NumByte F :=
  if d.isFloat ∧ d.elemSize = 4 then memcpy mem (d.chDst b c) (encode 4 dst) (u32 (d.spatialOut * 4))
  else if d.isFloat ∧ d.elemSize = 2 then
    (List.range d.spatialOut).foldl (fun mem i => store 2 mem (d.chDst b c + u32 (i * 2)) (dst i)) mem
  else
    (List.range d.spatialOut).foldl (fun mem i => store d.intWidth mem (d.chDst b c + u32 (i * d.elemSize)) (dst i)) mem

/-- The buffers of the regions, `dst_f32` and the cycles. -/
structure PoolState (F : Type) where
  raw : Nat → Nat → NumByte F
  dstF32 : Nat → F
  totalCycles : Int

/-- The body of the loops over the channels. -/
def poolChannel (poolType : TuPoolType) (src dst : Nat) (s : PoolState F) (b c : Nat) : PoolState F :=
  let dstF32 := d.pool2d negInf poolType (d.readChannel garbage (s.raw src) b c) s.dstF32
  let opsPerElem : Int := match poolType with
    | .max => 1
    | .avg => 2
  { raw := Function.update s.raw dst (d.writeChannel (s.raw dst) b c dstF32)
    dstF32 := dstF32
    totalCycles := s.totalCycles + (u32 (d.spatialOut * d.kh * d.kw) : Int) * opsPerElem }

end TuPoolDesc

/-- `tu_pool_execute`: the buffers afterwards and the return value, -1 where it fails. -/
def tuPoolExecute {F : Type} [Field F] [LinearOrder F] (negInf garbage : F) (sizes : Nat → UInt32) (desc : TuPoolDesc)
    (raw : Nat → Nat → NumByte F) : (Nat → Nat → NumByte F) × Int :=
  match tuPoolComputeDims desc with
  | none => (raw, -1)
  | some d =>
    match tuPoolValidate sizes d with
    | none => (raw, -1)
    | some (poolType, src, dst) =>
      let s := (List.range d.batch).foldl (fun s b => (List.range d.channels).foldl (fun s c =>
        d.poolChannel negInf garbage poolType src dst s b c) s)
        { raw := raw, dstF32 := fun _ => garbage, totalCycles := 0 }
      (s.raw, s.totalCycles + d.kh)

end Tusim.Pool

/-!
### The loops over a window

The loops over a window visit every input element that the window covers once (`foldl_window`).  So the maximum they
compute is that of the covered elements (`maxWindow_eq`), and the average is the sum of the covered elements over the
number of elements counted (`avgWindow_eq`).
-/

namespace Tusim.Pool

open Windows Word

theorem atElement_none {S : Type} (col : Option Nat) (f : S → Nat → Nat → S) (s : S) :
    TuPoolDesc.atElement none col f s = s := by
  cases col <;> rfl

/-- Two loops that do something where both a row and a column are found. -/
theorem foldl_atElement {S : Type} (row col : Nat → Option Nat) (f : S → Nat → Nat → S) (m n : Nat) (s : S) :
    (List.range m).foldl (fun s ky => (List.range n).foldl (fun s kx => TuPoolDesc.atElement (row ky) (col kx) f s) s) s =
      ((List.range m).filterMap row ×ˢ (List.range n).filterMap col).foldl (fun s p => f s p.1 p.2) s := by
  have hproduct : ((List.range m).filterMap row ×ˢ (List.range n).filterMap col).foldl (fun s p => f s p.1 p.2) s =
      ((List.range m).filterMap row).foldl (fun s iy => ((List.range n).filterMap col).foldl (fun s ix => f s iy ix) s) s := by
    show (((List.range m).filterMap row).flatMap fun r => ((List.range n).filterMap col).map (Prod.mk r)).foldl _ s = _
    rw [List.foldl_flatMap]
    congr 1
    funext s r
    rw [List.foldl_map]
  rw [hproduct, List.foldl_filterMap]
  refine List.foldl_ext _ _ _ fun s ky _ => ?_
  cases row ky with
  | none => exact List.foldl_fixed' (fun kx => atElement_none (col kx) f s) _
  | some iy =>
    dsimp only
    rw [List.foldl_filterMap]
    refine List.foldl_ext _ _ _ fun s kx _ => ?_
    cases col kx <;> rfl

namespace TuPoolDesc

variable (d : TuPoolDesc)

/-- The rows and columns that the loops find under a window. -/
def windowList (oy ox : Nat) : List (Nat × Nat) :=
  cells d.kh (oy * d.sh) d.ph d.ih ×ˢ cells d.kw (ox * d.sw) d.pw d.iw

/-- The elements that the loops find under a window. -/
def window (oy ox : Nat) : Finset (Nat × Nat) := (d.windowList oy ox).toFinset

/-- The loops over the positions of a window do something for every element it covers. -/
theorem foldl_window {S : Type} (f : S → Nat → Nat → S) (oy ox : Nat) (s : S) :
    (List.range d.kh).foldl (fun s ky => (List.range d.kw).foldl (fun s kx =>
      atElement (d.inputRow oy ky) (d.inputCol ox kx) f s) s) s =
    (d.windowList oy ox).foldl (fun s p => f s p.1 p.2) s :=
  foldl_atElement (d.inputRow oy) (d.inputCol ox) f d.kh d.kw s

theorem nodup_windowList {oy ox : Nat} (hkh : d.kh ≤ 2 ^ 32) (hkw : d.kw ≤ 2 ^ 32) : (d.windowList oy ox).Nodup :=
  (nodup_cells hkh).product (nodup_cells hkw)

theorem mem_window {oy ox : Nat} {p : Nat × Nat} : p ∈ d.window oy ox ↔ p ∈ d.windowList oy ox := List.mem_toFinset

theorem lt_of_mem_windowList {oy ox : Nat} {p : Nat × Nat} (h : p ∈ d.windowList oy ox) : p.1 < d.ih ∧ p.2 < d.iw := by
  obtain ⟨hrow, hcol⟩ := List.mem_product.1 h
  exact ⟨lt_of_mem_cells hrow, lt_of_mem_cells hcol⟩

end TuPoolDesc

section

/-! ### The maximum -/

variable {F ι : Type} [LinearOrder F]

/-- The maximum of the elements of a window, `-INFINITY` if there is none. -/
def windowMax (negInf : F) (s : Finset ι) (x : ι → F) : F := if h : s.Nonempty then s.sup' h x else negInf

theorem windowMax_congr {negInf : F} {s : Finset ι} {x y : ι → F} (h : ∀ p ∈ s, x p = y p) :
    windowMax negInf s x = windowMax negInf s y := by
  unfold windowMax
  split
  · rename_i hne
    exact Finset.sup'_congr hne rfl h
  · rfl

theorem foldl_maxStep {x : ι → F} (l : List ι) (m : F) :
    l.foldl (fun s p => TuPoolDesc.maxStep s (x p)) (m, true) = (l.foldl (fun m p => max m (x p)) m, true) := by
  induction l generalizing m with
  | nil => rfl
  | cons p l ih =>
    have hstep : TuPoolDesc.maxStep (m, true) (x p) = (max m (x p), true) := by
      unfold TuPoolDesc.maxStep
      dsimp only
      by_cases h : x p > m
      · rw [if_pos (.inl h), max_eq_right h.le]
      · rw [if_neg (by simp [h]), max_eq_left (not_lt.1 h)]
    rw [List.foldl_cons, hstep, ih, List.foldl_cons]

theorem le_foldl_max {x : ι → F} (l : List ι) (m : F) :
    m ≤ l.foldl (fun m p => max m (x p)) m ∧ ∀ p ∈ l, x p ≤ l.foldl (fun m p => max m (x p)) m := by
  induction l generalizing m with
  | nil => exact ⟨le_rfl, nofun⟩
  | cons q l ih =>
    obtain ⟨hm, hl⟩ := ih (max m (x q))
    refine ⟨(le_max_left _ _).trans hm, fun p hp => ?_⟩
    rcases List.mem_cons.1 hp with rfl | hp
    · exact (le_max_right _ _).trans hm
    · exact hl p hp

theorem foldl_max_le {x : ι → F} {l : List ι} {m b : F} (hm : m ≤ b) (hl : ∀ p ∈ l, x p ≤ b) :
    l.foldl (fun m p => max m (x p)) m ≤ b := by
  induction l generalizing m with
  | nil => exact hm
  | cons q l ih =>
    exact ih (max_le hm (hl q List.mem_cons_self)) fun p hp => hl p (List.mem_cons_of_mem q hp)

/-- The running maximum with its flag. -/
theorem maxFold_eq [DecidableEq ι] (negInf : F) (l : List ι) (x : ι → F) :
    let s := l.foldl (fun s p => TuPoolDesc.maxStep s (x p)) (negInf, false)
    (if s.2 then s.1 else negInf) = windowMax negInf l.toFinset x := by
  cases l with
  | nil => rfl
  | cons q l =>
    have hfirst : TuPoolDesc.maxStep (negInf, false) (x q) = (x q, true) := by
      unfold TuPoolDesc.maxStep
      exact if_pos (.inr Bool.false_ne_true)
    have hne : (q :: l).toFinset.Nonempty := ⟨q, List.mem_toFinset.2 List.mem_cons_self⟩
    obtain ⟨hm, hl⟩ := le_foldl_max (x := x) l (x q)
    dsimp only
    rw [List.foldl_cons, hfirst, foldl_maxStep, if_pos rfl]
    unfold windowMax
    rw [dif_pos hne]
    have hmem (p : ι) (hp : p ∈ q :: l) : x p ≤ (q :: l).toFinset.sup' hne x := Finset.le_sup' x (List.mem_toFinset.2 hp)
    apply le_antisymm
    · exact foldl_max_le (hmem q List.mem_cons_self) fun p hp => hmem p (List.mem_cons_of_mem q hp)
    · refine Finset.sup'_le hne x fun p hp => ?_
      rcases List.mem_cons.1 (List.mem_toFinset.1 hp) with rfl | hp
      · exact hm
      · exact hl p hp

/-- The loops of the maximum. -/
theorem TuPoolDesc.maxWindow_eq (d : TuPoolDesc) (negInf : F) (src : Nat → F) (oy ox : Nat) :
    d.maxWindow negInf src negInf oy ox =
      windowMax negInf (d.window oy ox) fun p => src (u32 (p.1 * d.iw + p.2)) := by
  unfold maxWindow
  rw [d.foldl_window fun s iy ix => maxStep s (src (u32 (iy * d.iw + ix)))]
  exact maxFold_eq negInf (d.windowList oy ox) fun p => src (u32 (p.1 * d.iw + p.2))

end

/-! ### The average -/

section

variable {F ι : Type} [Field F]

/-- The sum of the elements of a window over a number of elements, zero if that is zero. -/
def windowAvg (count : Nat) (s : Finset ι) (x : ι → F) : F := (∑ p ∈ s, x p) / count

theorem windowAvg_congr {count : Nat} {s : Finset ι} {x y : ι → F} (h : ∀ p ∈ s, x p = y p) :
    windowAvg count s x = windowAvg count s y := by
  unfold windowAvg
  rw [Finset.sum_congr rfl h]

theorem foldl_avgStep (d : TuPoolDesc) (x : ι → F) (l : List ι) (sum : F) {count : Nat}
    (hcount : d.countIncludePad = true ∨ count + l.length < 2 ^ 32) :
    l.foldl (fun s p => d.avgStep s (x p)) (sum, count) =
      (sum + (l.map x).sum, if d.countIncludePad then count else count + l.length) := by
  induction l generalizing sum count with
  | nil => simp
  | cons p l ih =>
    have hstep : d.avgStep (sum, count) (x p) = (sum + x p, if d.countIncludePad then count else count + 1) := by
      unfold TuPoolDesc.avgStep
      rcases hcount with hpad | hlt
      · rw [if_pos hpad, if_pos hpad]
      · rw [List.length_cons] at hlt
        rw [u32_of_lt (by omega)]
    have hrest : d.countIncludePad = true ∨ (if d.countIncludePad then count else count + 1) + l.length < 2 ^ 32 := by
      rcases hcount with hpad | hlt
      · exact .inl hpad
      · rw [List.length_cons] at hlt
        right
        split <;> omega
    rw [List.foldl_cons, hstep, ih _ hrest, List.map_cons, List.sum_cons, add_assoc, List.length_cons]
    split
    · rfl
    · rw [Nat.add_assoc, Nat.add_comm 1]

/-- What the average divides by: all positions of the window or the elements it covers. -/
def TuPoolDesc.windowCount (d : TuPoolDesc) (s : Finset (Nat × Nat)) : Nat :=
  if d.countIncludePad then u32 (d.kh * d.kw) else s.card

/-- The loops of the average. -/
theorem TuPoolDesc.avgWindow_eq (d : TuPoolDesc) (hkh : d.kh ≤ 2 ^ 32) (hkw : d.kw ≤ 2 ^ 32) (hin : d.ih * d.iw < 2 ^ 32)
    (src : Nat → F) (oy ox : Nat) :
    d.avgWindow src oy ox =
      windowAvg (d.windowCount (d.window oy ox)) (d.window oy ox) fun p => src (u32 (p.1 * d.iw + p.2)) := by
  have hnodup : (d.windowList oy ox).Nodup := d.nodup_windowList hkh hkw
  have hcard : (d.window oy ox).card = (d.windowList oy ox).length := List.toFinset_card_of_nodup hnodup
  have hlength : (d.windowList oy ox).length < 2 ^ 32 := by
    have hsub : d.window oy ox ⊆ Finset.range d.ih ×ˢ Finset.range d.iw := fun p hp =>
      Finset.mem_product.2 ⟨Finset.mem_range.2 (d.lt_of_mem_windowList (d.mem_window.1 hp)).1,
        Finset.mem_range.2 (d.lt_of_mem_windowList (d.mem_window.1 hp)).2⟩
    have hle := Finset.card_le_card hsub
    rw [Finset.card_product, Finset.card_range, Finset.card_range, hcard] at hle
    omega
  have hsum : ((d.windowList oy ox).map fun p => src (u32 (p.1 * d.iw + p.2))).sum =
      ∑ p ∈ d.window oy ox, src (u32 (p.1 * d.iw + p.2)) := (List.sum_toFinset _ hnodup).symm
  unfold avgWindow windowAvg windowCount
  dsimp only
  rw [d.foldl_window fun s iy ix => d.avgStep s (src (u32 (iy * d.iw + ix)))]
  have hquotient (sum : F) (count : Nat) : (if count > 0 then sum / count else 0) = sum / count := by
    split
    · rfl
    · rename_i h
      rw [Nat.eq_zero_of_not_pos h, Nat.cast_zero, div_zero]
  have hcount : d.countIncludePad = true ∨
      (if d.countIncludePad then u32 (d.kh * d.kw) else 0) + (d.windowList oy ox).length < 2 ^ 32 := by
    by_cases hpad : d.countIncludePad = true
    · exact .inl hpad
    · rw [if_neg hpad]
      exact .inr (by omega)
  rw [foldl_avgStep d (fun p => src (u32 (p.1 * d.iw + p.2))) (d.windowList oy ox) 0 hcount, hquotient, zero_add, hsum]
  by_cases hpad : d.countIncludePad = true
  · rw [if_pos hpad, if_pos hpad, if_pos hpad]
  · rw [if_neg hpad, if_neg hpad, if_neg hpad, hcard, Nat.zero_add]

end

end Tusim.Pool
