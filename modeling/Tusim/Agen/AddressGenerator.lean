import Mathlib.Data.List.Range
import Tusim.Dma.Descriptor

/-!
# The address generator

`address_generator.c`: an iterator is initialised with a mode and the configuration of that mode, and every call of
`tuAgenNext` yields the address of the next element.  Addresses and counts are 32-bit words with their wrap-around.
The 64-bit expressions of the source are natural numbers: with 32-bit operands all but those of the im2col
coordinates stay below `2 ^ 64`, and these are reduced.

A configuration behind a pointer is an `Option`, `NULL` is `none`.  A rejected iterator is `none`.
-/

namespace Tusim

open Word

/-- `UINT32_MAX`, which an exhausted iterator yields. -/
def uint32Max : UInt32 := 0xFFFFFFFF

/-- The address an im2col iterator yields for a point of the padding. -/
def paddingAddr : UInt32 := 0xFFFFFF00

inductive TuAgenMode
  | linear
  | strided2d
  | strided3d
  | tiled2d
  | tiled3d
  | im2col
  | blockInterleaved
  | transposed
deriving DecidableEq, Repr

structure TuAgenLinearConfig where
  elemCount : UInt32
  elemSize : UInt32
deriving DecidableEq, Repr

structure TuAgen2dConfig where
  rows : UInt32
  cols : UInt32
  rowStride : UInt32
deriving DecidableEq, Repr

structure TuAgen3dConfig where
  depth : UInt32
  rows : UInt32
  cols : UInt32
  depthStride : UInt32
  rowStride : UInt32
  elemSize : UInt32
deriving DecidableEq, Repr

structure TuAgenTiled2dConfig where
  totalRows : UInt32
  totalCols : UInt32
  tileRows : UInt32
  tileCols : UInt32
  numTileRows : UInt32
  numTileCols : UInt32
deriving DecidableEq, Repr

structure TuAgenTiled3dConfig where
  depth : UInt32
  rows : UInt32
  cols : UInt32
  tileDepth : UInt32
  tileRows : UInt32
  tileCols : UInt32
  elemSize : UInt32
deriving DecidableEq, Repr

structure TuAgenIm2col where
  inputH : UInt32
  inputW : UInt32
  inputC : UInt32
  kernelH : UInt32
  kernelW : UInt32
  padH : UInt32
  padW : UInt32
  strideH : UInt32
  strideW : UInt32
  dilationH : UInt32
  dilationW : UInt32
  elemSize : UInt32
deriving DecidableEq, Repr

structure TuAgenBlockConfig where
  count : UInt32
  banks : UInt32
  blockWidth : UInt32
  elemSize : UInt32
deriving DecidableEq, Repr

structure TuAgenTransposedConfig where
  rows : UInt32
  cols : UInt32
  elemSize : UInt32
deriving DecidableEq, Repr

/-- A mode with the configuration the caller passes for it. -/
inductive TuAgenConfig
  | linear (config : Option TuAgenLinearConfig)
  | strided2d (config : Option TuAgen2dConfig)
  | strided3d (config : Option TuAgen3dConfig)
  | tiled2d (config : Option TuAgenTiled2dConfig)
  | tiled3d (config : Option TuAgenTiled3dConfig)
  | im2col (config : Option TuAgenIm2col)
  | blockInterleaved (config : Option TuAgenBlockConfig)
  | transposed (config : Option TuAgenTransposedConfig)
deriving DecidableEq, Repr

structure TuAgenIterator where
  mode : TuAgenMode
  baseAddr : UInt32
  elemSize : UInt32 := 0
  currentIdx : UInt32 := 0
  dims : Fin 3 → UInt32 := fun _ => 0
  strides : Fin 3 → UInt32 := fun _ => 0
  tileDims : Fin 3 → UInt32 := fun _ => 0
  totalDims : Fin 3 → UInt32 := fun _ => 0
  kernelH : UInt32 := 0
  kernelW : UInt32 := 0
  padH : UInt32 := 0
  padW : UInt32 := 0
  strideH : UInt32 := 0
  strideW : UInt32 := 0
  dilationH : UInt32 := 0
  dilationW : UInt32 := 0
  inputW : UInt32 := 0
  inputH : UInt32 := 0
  inputC : UInt32 := 0
  outputH : UInt32 := 0
  outputW : UInt32 := 0
  totalElements : UInt32 := 0
  numBanks : UInt32 := 0
  bankWidth : UInt32 := 0

/-! ### Geometry checks -/

/-- `output_h` and `output_w`; `none` where the source returns `false`. -/
def im2colOutputDims (cfg : TuAgenIm2col) : Option (UInt32 × UInt32) :=
  if cfg.kernelH = 0 ∨ cfg.kernelW = 0 ∨ cfg.strideH = 0 ∨ cfg.strideW = 0 ∨ cfg.dilationH = 0 ∨
      cfg.dilationW = 0 then
    none
  else
    let kh := (cfg.kernelH.toNat - 1) * cfg.dilationH.toNat + 1
    let kw := (cfg.kernelW.toNat - 1) * cfg.dilationW.toNat + 1
    let h := cfg.inputH.toNat + 2 * cfg.padH.toNat
    let w := cfg.inputW.toNat + 2 * cfg.padW.toNat
    let nh := if cfg.inputH = 0 ∨ h < kh then 0 else (h - kh) / cfg.strideH.toNat + 1
    let nw := if cfg.inputW = 0 ∨ w < kw then 0 else (w - kw) / cfg.strideW.toNat + 1
    if nh > uint32Max.toNat ∨ nw > uint32Max.toNat then none else some (UInt32.ofNat nh, UInt32.ofNat nw)

/-- `output_h` and `output_w` after `tu_agen_im2col_dims`. -/
def tuAgenIm2colDims (cfg : TuAgenIm2col) : UInt32 × UInt32 := (im2colOutputDims cfg).getD (0, 0)

def tiledGeometryValid (base d r c size : UInt32) : Bool :=
  if d = 0 ∨ r = 0 ∨ c = 0 then true
  else
    let count := d.toNat * r.toNat
    if count > uint32Max.toNat then false
    else
      let count := count * c.toNat
      count ≤ uint32Max.toNat && base.toNat + count * size.toNat ≤ uint32Max.toNat

def affineGeometryValid (base d r c ds rs size : UInt32) : Bool :=
  if d = 0 ∨ r = 0 ∨ c = 0 then true
  else
    let count := d.toNat * r.toNat
    if count > uint32Max.toNat ∨ count * c.toNat > uint32Max.toNat ∨ size = 0 then false
    else
      let budget := (uint32Max.toNat - base.toNat) / size.toNat
      if c.toNat > budget then false
      else
        let budget := budget - c.toNat
        let rows := (r.toNat - 1) * rs.toNat
        if rows > budget then false
        else
          let budget := budget - rows
          (d.toNat - 1) * ds.toNat ≤ budget

/-! ### Tiles -/

def minU32 (a b : UInt32) : UInt32 := if a < b then a else b

/-- The offset of the element with a tile-major ordinal. -/
def tiledOffset (idx d r c td tr tc : UInt32) : UInt32 :=
  let td := minU32 td d
  let tr := minU32 tr r
  let tc := minU32 tc c
  let slab := td * r * c
  let db := (idx / slab) * td
  let de := minU32 td (d - db)
  let idx := idx % slab
  let slab := de * tr * c
  let rb := (idx / slab) * tr
  let re := minU32 tr (r - rb)
  let idx := idx % slab
  let slab := de * re * tc
  let cb := (idx / slab) * tc
  let ce := minU32 tc (c - cb)
  let idx := idx % slab
  let dz := idx / (re * ce)
  let ry := (idx / ce) % re
  let cx := idx % ce
  ((db + dz) * r + rb + ry) * c + cb + cx

/-! ### Initialisation -/

/-- The number of tiles of an axis. -/
def tileCount (total tile : UInt32) : UInt32 := total / tile + (if total % tile ≠ 0 then 1 else 0)

/-- An element size with the default for zero. -/
def sizeOrFour (size : UInt32) : UInt32 := if size ≠ 0 then size else 4

/-- The expanded count of an im2col traversal; `none` where it leaves 32 bits. -/
def im2colCount (oh ow : UInt32) (cfg : TuAgenIm2col) : Option Nat :=
  [oh, ow, cfg.kernelH, cfg.kernelW, cfg.inputC].foldlM
    (fun count factor => if count > uint32Max.toNat / factor.toNat then none else some (count * factor.toNat)) 1

def tuAgenIteratorInit (config : TuAgenConfig) (base : UInt32) : Option TuAgenIterator :=
  match config with
  | .linear config =>
    let elemCount := config.elim 0 (·.elemCount)
    let elemSize := config.elim 1 (·.elemSize)
    if !affineGeometryValid base 1 1 elemCount 0 0 elemSize then none
    else
      some
        { mode := .linear, baseAddr := base, elemSize := elemSize, dims := triple elemCount 0 0
          totalElements := elemCount }
  | .strided2d none => none
  | .strided2d (some cfg) =>
    if !affineGeometryValid base 1 cfg.rows cfg.cols 0 cfg.rowStride 4 then none
    else
      some
        { mode := .strided2d, baseAddr := base, dims := triple cfg.rows cfg.cols 0
          strides := triple cfg.rowStride 0 0, totalElements := cfg.rows * cfg.cols
          elemSize := if cfg.rows > 0 ∧ cfg.cols > 0 then 4 else 0 }
  | .strided3d none => none
  | .strided3d (some cfg) =>
    if !affineGeometryValid base cfg.depth cfg.rows cfg.cols cfg.depthStride cfg.rowStride
        (sizeOrFour cfg.elemSize) then none
    else
      some
        { mode := .strided3d, baseAddr := base, dims := triple cfg.depth cfg.rows cfg.cols
          strides := triple cfg.depthStride cfg.rowStride 0, elemSize := sizeOrFour cfg.elemSize
          totalElements := cfg.depth * cfg.rows * cfg.cols }
  | .tiled2d none => none
  | .tiled2d (some cfg) =>
    if cfg.tileRows = 0 ∨ cfg.tileCols = 0 ∨ !tiledGeometryValid base 1 cfg.totalRows cfg.totalCols 4 then none
    else
      let nr := tileCount cfg.totalRows cfg.tileRows
      let nc := tileCount cfg.totalCols cfg.tileCols
      if cfg.numTileRows ≠ 0 ∧ cfg.numTileRows ≠ nr ∨ cfg.numTileCols ≠ 0 ∧ cfg.numTileCols ≠ nc then none
      else
        some
          { mode := .tiled2d, baseAddr := base, totalDims := triple cfg.totalRows cfg.totalCols 0
            tileDims := triple cfg.tileRows cfg.tileCols 0, dims := triple nr nc 0
            totalElements := cfg.totalRows * cfg.totalCols, elemSize := 4 }
  | .tiled3d none => none
  | .tiled3d (some cfg) =>
    let size := sizeOrFour cfg.elemSize
    if cfg.tileDepth = 0 ∨ cfg.tileRows = 0 ∨ cfg.tileCols = 0 ∨
        !tiledGeometryValid base cfg.depth cfg.rows cfg.cols size then none
    else
      some
        { mode := .tiled3d, baseAddr := base, totalDims := triple cfg.depth cfg.rows cfg.cols
          tileDims := triple cfg.tileDepth cfg.tileRows cfg.tileCols, elemSize := size
          dims := triple (tileCount cfg.depth cfg.tileDepth) (tileCount cfg.rows cfg.tileRows)
            (tileCount cfg.cols cfg.tileCols)
          totalElements := cfg.depth * cfg.rows * cfg.cols }
  | .im2col none => none
  | .im2col (some cfg) =>
    match im2colOutputDims cfg with
    | none => none
    | some (oh, ow) =>
      let size := sizeOrFour cfg.elemSize
      let count :=
        if oh ≠ 0 ∧ ow ≠ 0 ∧ cfg.inputC ≠ 0 then
          match im2colCount oh ow cfg with
          | none => none
          | some count =>
            if !tiledGeometryValid base cfg.inputC cfg.inputH cfg.inputW size then none else some count
        else
          some 0
      match count with
      | none => none
      | some count =>
        some
          { mode := .im2col, baseAddr := base, inputH := cfg.inputH, inputW := cfg.inputW, inputC := cfg.inputC
            kernelH := cfg.kernelH, kernelW := cfg.kernelW, padH := cfg.padH, padW := cfg.padW
            strideH := cfg.strideH, strideW := cfg.strideW, dilationH := cfg.dilationH, dilationW := cfg.dilationW
            elemSize := size, outputH := oh, outputW := ow, totalElements := UInt32.ofNat count }
  | .blockInterleaved none => none
  | .blockInterleaved (some cfg) =>
    let size := sizeOrFour cfg.elemSize
    if !affineGeometryValid base 1 1 cfg.count 0 0 size then none
    else
      some
        { mode := .blockInterleaved, baseAddr := base, totalElements := cfg.count
          numBanks := if cfg.banks ≠ 0 then cfg.banks else 1
          bankWidth := if cfg.blockWidth ≠ 0 then cfg.blockWidth else 1, elemSize := size }
  | .transposed none => none
  | .transposed (some cfg) =>
    let size := sizeOrFour cfg.elemSize
    if !affineGeometryValid base 1 cfg.rows cfg.cols 0 cfg.cols size then none
    else
      some
        { mode := .transposed, baseAddr := base, dims := triple cfg.cols cfg.rows 0
          strides := triple 1 cfg.cols 0, elemSize := size, totalElements := cfg.rows * cfg.cols }

/-! ### The next address -/

namespace TuAgenIterator

/-- The im2col address of an ordinal: the ordinal is split into output row, output column, kernel row, kernel column
and channel. -/
def im2colAddress (it : TuAgenIterator) (idx : UInt32) : UInt32 :=
  let perIc := it.kernelH * it.kernelW
  let perOw := perIc * it.inputC
  let perOh := perOw * it.outputW
  let oh := idx / perOh
  let r1 := idx % perOh
  let ow := r1 / perOw
  let r2 := r1 % perOw
  let ic := r2 % it.inputC
  let r3 := r2 / it.inputC
  let kh := r3 / it.kernelW
  let kw := r3 % it.kernelW
  let hIn := u64 (oh.toNat * it.strideH.toNat + kh.toNat * it.dilationH.toNat)
  let wIn := u64 (ow.toNat * it.strideW.toNat + kw.toNat * it.dilationW.toNat)
  if hIn ≥ it.padH.toNat ∧ wIn ≥ it.padW.toNat ∧ hIn - it.padH.toNat < it.inputH.toNat ∧
      wIn - it.padW.toNat < it.inputW.toNat then
    let hIn := hIn - it.padH.toNat
    let wIn := wIn - it.padW.toNat
    -- the sum is 64-bit, its first term 32-bit; the address keeps the low word
    UInt32.ofNat (it.baseAddr.toNat +
      ((ic * it.inputH * it.inputW).toNat + hIn * it.inputW.toNat + wIn) * it.elemSize.toNat)
  else
    paddingAddr

/-- The address of the element with ordinal `idx`. -/
def address (it : TuAgenIterator) (idx : UInt32) : UInt32 :=
  match it.mode with
  | .linear => it.baseAddr + idx * it.elemSize
  | .strided2d =>
    let row := idx / it.dims 1
    let col := idx % it.dims 1
    it.baseAddr + (row * it.strides 0 + col) * it.elemSize
  | .strided3d =>
    let depth := idx / (it.dims 1 * it.dims 2)
    let rem := idx % (it.dims 1 * it.dims 2)
    let row := rem / it.dims 2
    let col := rem % it.dims 2
    it.baseAddr + (depth * it.strides 0 + row * it.strides 1 + col) * it.elemSize
  | .tiled2d =>
    it.baseAddr +
      tiledOffset idx 1 (it.totalDims 0) (it.totalDims 1) 1 (it.tileDims 0) (it.tileDims 1) * it.elemSize
  | .tiled3d =>
    it.baseAddr +
      tiledOffset idx (it.totalDims 0) (it.totalDims 1) (it.totalDims 2) (it.tileDims 0) (it.tileDims 1)
        (it.tileDims 2) * it.elemSize
  | .im2col => it.im2colAddress idx
  | .blockInterleaved =>
    let bank := idx % it.bankWidth
    let elem := idx / it.bankWidth
    it.baseAddr + (elem * it.bankWidth + bank) * it.elemSize
  | .transposed =>
    let col := idx / it.dims 1
    let row := idx % it.dims 1
    let origCols := it.strides 1
    it.baseAddr + (row * origCols + col) * it.elemSize

end TuAgenIterator

def tuAgenNext (it : TuAgenIterator) : TuAgenIterator × UInt32 :=
  if it.currentIdx ≥ it.totalElements then (it, uint32Max)
  else ({ it with currentIdx := it.currentIdx + 1 }, it.address it.currentIdx)

def tuAgenReset (it : TuAgenIterator) : TuAgenIterator := { it with currentIdx := 0 }

/-- The addresses of `n` successive calls of `tuAgenNext`. -/
def TuAgenIterator.nexts : Nat → TuAgenIterator → List UInt32
  | 0, _ => []
  | n + 1, it => (tuAgenNext it).2 :: (tuAgenNext it).1.nexts n

/-! ### Point queries -/

/-- The im2col address of a point; `uint32Max` for padding and for points outside the view. -/
def tuAgenAddrIm2col (im2col : TuAgenIm2col) (base oh ow kh kw ic : UInt32) : UInt32 :=
  match im2colOutputDims im2col with
  | none => uint32Max
  | some (outH, outW) =>
    if im2col.elemSize = 0 ∨ oh ≥ outH ∨ ow ≥ outW ∨ kh ≥ im2col.kernelH ∨ kw ≥ im2col.kernelW ∨
        ic ≥ im2col.inputC ∨ !tiledGeometryValid base im2col.inputC im2col.inputH im2col.inputW im2col.elemSize then
      uint32Max
    else
      let hIn := u64 (oh.toNat * im2col.strideH.toNat + kh.toNat * im2col.dilationH.toNat)
      let wIn := u64 (ow.toNat * im2col.strideW.toNat + kw.toNat * im2col.dilationW.toNat)
      if hIn < im2col.padH.toNat ∨ wIn < im2col.padW.toNat then uint32Max
      else
        let hIn := hIn - im2col.padH.toNat
        let wIn := wIn - im2col.padW.toNat
        if hIn ≥ im2col.inputH.toNat ∨ wIn ≥ im2col.inputW.toNat then uint32Max
        else
          UInt32.ofNat (base.toNat +
            (ic.toNat * im2col.inputH.toNat * im2col.inputW.toNat + hIn * im2col.inputW.toNat + wIn) *
              im2col.elemSize.toNat)

end Tusim

/-!
### The sequence of an iterator

`it.Yields addresses` says that successive calls of `tuAgenNext` give these addresses and then `UINT32_MAX` for ever.
What an iterator yields is the table of its address function over its ordinals (`yields_of_address`), so a mode is
described by one fact about the address of an ordinal.
-/

namespace Tusim

@[simp] theorem toNat_uint32Max : uint32Max.toNat = 2 ^ 32 - 1 := rfl

/-- A value up to `UINT32_MAX` is a 32-bit value. -/
theorem lt_of_le_uint32Max {n : Nat} (h : n ≤ uint32Max.toNat) : n < 2 ^ 32 := by
  rw [toNat_uint32Max] at h
  omega

theorem sizeOrFour_pos (size : UInt32) : 0 < (sizeOrFour size).toNat := by
  unfold sizeOrFour
  split
  · rename_i h
    exact Word.toNat_pos h
  · decide

namespace TuAgenIterator

/-- The calls yield these addresses, in order, and `UINT32_MAX` afterwards. -/
def Yields (it : TuAgenIterator) (addresses : List Nat) : Prop :=
  ∀ n, (it.nexts n).map (·.toNat) = addresses.take n ++ List.replicate (n - addresses.length) uint32Max.toNat

/-- The calls from any position. -/
private theorem nexts_eq (n : Nat) (it : TuAgenIterator) :
    (it.nexts n).map (·.toNat) =
      ((List.range (it.totalElements.toNat - it.currentIdx.toNat)).map fun i =>
        (it.address (UInt32.ofNat (it.currentIdx.toNat + i))).toNat).take n ++
      List.replicate (n - (it.totalElements.toNat - it.currentIdx.toNat)) uint32Max.toNat := by
  induction n generalizing it with
  | zero => simp [nexts]
  | succ n ih =>
    unfold nexts tuAgenNext
    by_cases hend : it.currentIdx ≥ it.totalElements
    · have hle : it.totalElements.toNat - it.currentIdx.toNat = 0 :=
        Nat.sub_eq_zero_of_le (UInt32.le_iff_toNat_le.1 hend)
      rw [if_pos hend, List.map_cons, ih it, hle]
      simp [List.replicate_succ]
    · have hlt : it.currentIdx.toNat < it.totalElements.toNat := by
        rwa [ge_iff_le, UInt32.not_le, UInt32.lt_iff_toNat_lt] at hend
      have hbound := it.totalElements.toNat_lt
      have hnext : (it.currentIdx + 1).toNat = it.currentIdx.toNat + 1 := by
        rw [UInt32.toNat_add]
        exact Nat.mod_eq_of_lt (by simp; omega)
      have hlen : it.totalElements.toNat - it.currentIdx.toNat =
          (it.totalElements.toNat - (it.currentIdx.toNat + 1)) + 1 := by omega
      rw [if_neg hend, List.map_cons, ih, hlen, List.range_succ_eq_map]
      dsimp only
      rw [hnext, List.map_cons, List.take_succ_cons, List.map_map, Nat.add_sub_add_right]
      have hfirst : UInt32.ofNat (it.currentIdx.toNat + 0) = it.currentIdx := UInt32.ofNat_toNat
      have hrest : ∀ i, it.currentIdx.toNat + 1 + i = it.currentIdx.toNat + Nat.succ i := by omega
      simp only [hfirst, hrest, List.cons_append, Function.comp_def]
      rfl

/-- As many addresses as elements are the addresses of the ordinals. -/
theorem Yields.address_eq {it : TuAgenIterator} {l : List Nat} (h : it.Yields l) (hcur : it.currentIdx = 0)
    (hlen : l.length = it.totalElements.toNat) :
    (List.range it.totalElements.toNat).map (fun i => (it.address (UInt32.ofNat i)).toNat) = l := by
  have hzero : (0 : UInt32).toNat = 0 := rfl
  have heq := nexts_eq it.totalElements.toNat it
  rw [h, hcur, hzero, hlen, Nat.sub_zero] at heq
  simpa [← hlen, List.take_of_length_le] using heq.symm

/-- Elements with bytes, all of which end at most at `UINT32_MAX`. -/
structure Bounded (it : TuAgenIterator) : Prop where
  end_le : ∀ i, i < it.totalElements.toNat →
    (it.address (UInt32.ofNat i)).toNat + it.elemSize.toNat ≤ uint32Max.toNat
  size_pos : 0 < it.totalElements.toNat → 0 < it.elemSize.toNat

/-- A fresh iterator yields the addresses of its ordinals. -/
theorem yields_of_address {it : TuAgenIterator} (hcur : it.currentIdx = 0) {f : Nat → Nat}
    (h : ∀ i, i < it.totalElements.toNat → (it.address (UInt32.ofNat i)).toNat = f i) :
    it.Yields ((List.range it.totalElements.toNat).map f) := by
  intro n
  have hmap : (List.range it.totalElements.toNat).map (fun i => (it.address (UInt32.ofNat (0 + i))).toNat) =
      (List.range it.totalElements.toNat).map f := by
    apply List.map_congr_left
    intro i hi
    rw [Nat.zero_add]
    exact h i (List.mem_range.1 hi)
  have hzero : (0 : UInt32).toNat = 0 := rfl
  rw [nexts_eq n it, hcur, hzero, Nat.sub_zero, hmap]
  simp

end TuAgenIterator

end Tusim
