import Mathlib.Analysis.SpecialFunctions.Exp
import Mathlib.Analysis.SpecialFunctions.Log.Basic
import Mathlib.Analysis.SpecialFunctions.Sqrt
import Mathlib.Data.EReal.Inv
import Mathlib.Data.EReal.Operations
import Tusim.Lib.NumberMemory
import Tusim.Lib.Word

/-!
# The softmax engine

The engines for softmax and attention compute with `float` on numbers in SRAM.  Their arithmetic is a parameter; the exact
one is that of the extended reals (`exactReals`).  A region is its size and its bytes, which encode numbers of 32 bits,
or of 16 bits after packing; conversions between the two widths do not change a number.  The regions have one buffer and
banks of four bytes, so that a word is one number of 32 bits; the meters of the banks are left out.

The row-wise softmax of `softmax_engine.c` has two passes, their logarithmic variant, and one online pass.  The maxima and
sums that a descriptor may ask for are those the row functions return; rows are always allocated.
-/

namespace Tusim.Attention

open NumberMemory Blocks Word

/-- The arithmetic of `float` and `double`: literals, operators and library functions. -/
structure FloatOps (F : Type) where
  /-- `lit m e` is `m / 10 ^ e` -/
  lit : Int → Nat → F
  negInfinity : F
  infinity : F
  /-- what bytes stand for that encode no number -/
  garbage : F
  add : F → F → F
  sub : F → F → F
  mul : F → F → F
  div : F → F → F
  fmaxf : F → F → F
  expf : F → F
  logf : F → F
  sqrtf : F → F
  /-- `x < y` -/
  lt : F → F → Bool
  /-- `x == y` -/
  eq : F → F → Bool
  isnan : F → Bool
  isfinite : F → Bool

namespace FloatOps

variable {F : Type} (fp : FloatOps F)

/-- The conversion of an integer. -/
def ofNat (n : Nat) : F := fp.lit n 0

def zero : F := fp.lit 0 0

def one : F := fp.lit 1 0

end FloatOps

/-- The exponential function of the extended reals. -/
noncomputable def expReal : EReal → EReal
  | ⊥ => 0
  | ⊤ => ⊤
  | (x : ℝ) => (Real.exp x : ℝ)

/-- Exact arithmetic; `garbage` is arbitrary. -/
noncomputable def exactReals (garbage : EReal) : FloatOps EReal where
  lit m e := ((m / 10 ^ e : ℝ) : EReal)
  negInfinity := ⊥
  infinity := ⊤
  garbage := garbage
  add x y := x + y
  sub x y := x - y
  mul x y := x * y
  div x y := x / y
  fmaxf x y := max x y
  expf := expReal
  logf x := (Real.log x.toReal : ℝ)
  sqrtf x := (Real.sqrt x.toReal : ℝ)
  lt x y := decide (x < y)
  eq x y := decide (x = y)
  isnan _ := false
  isfinite x := decide (x ≠ ⊥ ∧ x ≠ ⊤)

section

variable {F : Type} [DecidableEq F] (fp : FloatOps F) (size : Nat) (mem : Nat → NumByte F)

/-! ### Accesses to a region -/

/-- `bounds_check` -/
def boundsCheck (addr bytes : Nat) : Bool := addr ≤ size && bytes ≤ size - addr

/-- `tu_sram_read_bulk` of one number of `bytes` bytes; `out` is what the caller has there. -/
def tuSramReadBulk (addr : Nat) (out : F) (bytes : Nat) : F :=
  if boundsCheck size addr bytes then load bytes fp.garbage mem addr else out

/-- `tu_sram_write_bulk` of one number of `bytes` bytes. -/
def tuSramWriteBulk (addr : Nat) (v : F) (bytes : Nat) : Nat → NumByte F :=
  if boundsCheck size addr bytes then store bytes mem addr v else mem

/-- `tu_sram_read` -/
def tuSramRead (addr : Nat) (out : F) : F := tuSramReadBulk fp size mem addr out 4

/-- `tu_sram_write` -/
def tuSramWrite (addr : Nat) (v : F) : Nat → NumByte F := tuSramWriteBulk size mem addr v 4

/-- `tu_dma_load` of 16-bit numbers of the host from element `elem` on. -/
def tuDmaLoad (offset : Nat) (host : Nat → F) (elem bytes : Nat) : Nat → NumByte F :=
  if u32 (offset + bytes) > size then mem else memcpy mem offset (encode 2 fun i => host (elem + i)) bytes

/-- `tu_dma_store` to the bytes of the host from `dst` on. -/
def tuDmaStore (offset : Nat) (host : Nat → NumByte F) (dst bytes : Nat) : Nat → NumByte F :=
  if u32 (offset + bytes) > size then host else memcpy host dst (fun i => mem (offset + i)) bytes

/-! ### Elementwise operations -/

/-- `tu_ew_apply_binary_scalar` with `TU_EW_MUL` -/
def tuEwMulScalar (offset elemCount : Nat) (scalar : F) : Nat → NumByte F :=
  if elemCount = 0 ∨ u32 (offset + u32 (elemCount * 4)) > size then mem
  else (List.range elemCount).foldl
    (fun mem i => store 4 mem (offset + 4 * i) (fp.mul (load 4 fp.garbage mem (offset + 4 * i)) scalar)) mem

/-- `tu_ew_add_tensors` with the output in place of the first operand -/
def tuEwAddTensors (aOffset bOffset elemCount : Nat) : Nat → NumByte F :=
  (List.range elemCount).foldl (fun mem i => store 4 mem (aOffset + 4 * i)
    (fp.add (load 4 fp.garbage mem (aOffset + 4 * i)) (load 4 fp.garbage mem (bOffset + 4 * i)))) mem

end

/-! ### What the accesses do inside a region -/

section

variable {F : Type} {size : Nat} (mem : Nat → NumByte F)

theorem tuSramWriteBulk_inside {addr bytes : Nat} (h : addr + bytes ≤ size) (v : F) :
    tuSramWriteBulk size mem addr v bytes = store bytes mem addr v := by
  unfold tuSramWriteBulk boundsCheck
  rw [if_pos (by simp; omega)]

theorem tuSramWrite_inside {addr : Nat} (h : addr + 4 ≤ size) (v : F) :
    tuSramWrite size mem addr v = store 4 mem addr v := tuSramWriteBulk_inside mem h v

theorem tuDmaLoad_inside {offset n : Nat} (h : offset + 2 * n ≤ size) (hsize : size < 2 ^ 32) (host : Nat → F)
    (elem : Nat) :
    tuDmaLoad size mem offset host elem (2 * n) = fill 2 mem offset (fun i => host (elem + i)) n := by
  have hwrap : u32 (offset + 2 * n) = offset + 2 * n := Nat.mod_eq_of_lt (by omega)
  unfold tuDmaLoad
  rw [hwrap, if_neg (by omega)]
  exact memcpy_encode (by omega) _

variable [DecidableEq F] (fp : FloatOps F)

theorem tuSramReadBulk_inside {addr bytes : Nat} (h : addr + bytes ≤ size) (out : F) :
    tuSramReadBulk fp size mem addr out bytes = load bytes fp.garbage mem addr := by
  unfold tuSramReadBulk boundsCheck
  rw [if_pos (by simp; omega)]

theorem tuSramRead_inside {addr : Nat} (h : addr + 4 ≤ size) (out : F) :
    tuSramRead fp size mem addr out = load 4 fp.garbage mem addr := tuSramReadBulk_inside mem fp h out

/-- Numbers from `offset` on are scaled in place. -/
theorem tuEwMulScalar_inside {offset n : Nat} (hn : 0 < n) (h : offset + 4 * n ≤ size) (hsize : size < 2 ^ 32) (scalar : F) :
    tuEwMulScalar fp size mem offset n scalar =
      fill 4 mem offset (fun i => fp.mul (load 4 fp.garbage mem (offset + 4 * i)) scalar) n := by
  have hbytes : u32 (n * 4) = n * 4 := Nat.mod_eq_of_lt (by omega)
  have hwrap : u32 (offset + n * 4) = offset + n * 4 := Nat.mod_eq_of_lt (by omega)
  unfold tuEwMulScalar
  rw [hbytes, hwrap, if_neg (by omega)]
  apply foldl_eq_fill'
  intro i hi
  rw [load_fill_ne (by omega) (by omega)]

/-- Numbers from `bOffset` on are added in place to those from `aOffset` on, which lie elsewhere. -/
theorem tuEwAddTensors_eq {aOffset bOffset n : Nat} (h : aOffset + 4 * n ≤ bOffset) :
    tuEwAddTensors fp mem aOffset bOffset n = fill 4 mem aOffset
      (fun i => fp.add (load 4 fp.garbage mem (aOffset + 4 * i)) (load 4 fp.garbage mem (bOffset + 4 * i))) n := by
  unfold tuEwAddTensors
  apply foldl_eq_fill'
  intro i hi
  rw [load_fill_ne (by omega) (by omega), load_fill_ne (by omega) (by omega)]

end

/-! ### Rows -/

inductive TuSoftmaxMode
  | standard
  | log
  | online
  deriving DecidableEq, Repr

/-- `tu_softmax_desc_t` on a region given by its size and its bytes. -/
structure TuSoftmaxDesc (F : Type) where
  mode : TuSoftmaxMode
  dataOffset : Nat
  elemCount : Nat
  axisDim : Nat
  mask : Option (Nat → F)
  maskIsAdditive : Bool
  maskFill : F
  scale : F
  inPlace : Bool
  outOffset : Nat

section

variable {F : Type} [DecidableEq F] (fp : FloatOps F)

/-- What a row function leaves of a row, and the maximum and the sum it reports. -/
structure SoftmaxRow (F : Type) where
  row : List F
  maxOut : F
  sumOut : F

/-- `row[i] *= scale`, unless the scale is zero -/
def scaleRow (scale : F) (row : List F) : List F :=
  if !fp.eq scale fp.zero then row.map fun x => fp.mul x scale else row

/-- The largest of the numbers, found with `>`. -/
def rowMax (row : List F) : F := row.foldl (fun m x => if fp.lt m x then x else m) fp.negInfinity

/-- `exp(shifted)`, or zero below `-87.0f` -/
def clampedExp (shifted : F) : F := if fp.lt shifted (fp.lit (-87) 0) then fp.zero else fp.expf shifted

def softmaxRowTwoPass (row : List F) (scale : F) (mode : TuSoftmaxMode) : SoftmaxRow F :=
  if row = [] then { row := [], maxOut := fp.zero, sumOut := fp.zero }
  else
    let row := scaleRow fp scale row
    let maxVal := rowMax fp row
    let row := row.map fun x => clampedExp fp (fp.sub x maxVal)
    let sum := row.foldl fp.add fp.zero
    let out :=
      if fp.eq sum fp.zero then row.map fun _ => fp.div fp.one (fp.ofNat row.length)
      else
        let invSum := fp.div fp.one sum
        if mode = .log then
          let logSum := fp.logf sum
          row.map fun x => fp.sub (if fp.lt fp.zero x then fp.logf x else fp.lit (-887228) 4) logSum
        else row.map fun x => fp.mul x invSum
    { row := out, maxOut := maxVal, sumOut := sum }

/-- One element of the streaming pass on the maximum and the sum. -/
def onlineStep (s : F × F) (x : F) : F × F :=
  let (maxVal, expSum) := s
  if fp.lt maxVal x then
    let ratio := if fp.eq maxVal fp.negInfinity then fp.one else fp.expf (fp.sub maxVal x)
    (x, fp.add (fp.mul expSum ratio) fp.one)
  else (maxVal, fp.add expSum (fp.expf (fp.sub x maxVal)))

def softmaxRowOnline (row : List F) (scale : F) (mode : TuSoftmaxMode) : SoftmaxRow F :=
  if row = [] then { row := [], maxOut := fp.zero, sumOut := fp.zero }
  else
    let row := scaleRow fp scale row
    let (maxVal, expSum) := row.foldl (onlineStep fp) (fp.negInfinity, fp.zero)
    let finalSum := if fp.lt fp.zero expSum then expSum else fp.ofNat row.length
    let invSum := fp.div fp.one finalSum
    let logSum := fp.logf finalSum
    let out :=
      if mode = .log then row.map fun x => fp.sub (fp.sub x maxVal) logSum
      else row.map fun x =>
        let shifted := fp.sub x maxVal
        if fp.lt shifted (fp.lit (-87) 0) then fp.zero else fp.mul (fp.expf shifted) invSum
    { row := out, maxOut := maxVal, sumOut := finalSum }

/-! ### Rows in SRAM -/

variable (size : Nat)

def sramLoadFloats (mem : Nat → NumByte F) (off n : Nat) : List F :=
  (List.range n).map fun i => tuSramRead fp size mem (u32 (off + i * 4)) fp.garbage

def sramStoreFloats (mem : Nat → NumByte F) (off : Nat) (row : List F) : Nat → NumByte F :=
  (List.range row.length).foldl (fun mem i => tuSramWrite size mem (u32 (off + i * 4)) (row.getD i fp.garbage)) mem

/-- `x <= y`, where neither is NaN -/
def FloatOps.le (x y : F) : Bool := fp.lt x y || fp.eq x y

def softmaxSingleRow (mem : Nat → NumByte F) (inOffset outOffset cols : Nat) (scale : F) (mode : TuSoftmaxMode)
    (mask : Option (Nat → F)) (additiveMask : Bool) (maskFill : F) : Nat → NumByte F :=
  if cols = 0 then mem
  else
    let row := sramLoadFloats fp size mem inOffset cols
    let row :=
      match mask with
      | none => row
      | some mask => row.mapIdx fun i x => if additiveMask then fp.add x (mask i) else fp.mul x (mask i)
    let row :=
      if !fp.eq maskFill fp.zero then
        row.map fun x => if fp.le x maskFill || fp.isnan x then fp.lit (-1000000000) 0 else x
      else row
    let result := if mode = .online then softmaxRowOnline fp row scale mode else softmaxRowTwoPass fp row scale mode
    sramStoreFloats fp size mem outOffset result.row

def tuSoftmaxValidateDesc (desc : TuSoftmaxDesc F) : Bool :=
  desc.elemCount != 0 &&
    !(desc.axisDim > 0 && desc.elemCount % desc.axisDim != 0) &&
    !(desc.axisDim > desc.elemCount) &&
    !(u32 (desc.dataOffset + desc.elemCount * 4) > size) &&
    (desc.inPlace || !(u32 (desc.outOffset + desc.elemCount * 4) > size))

/-- `tu_softmax_execute`, or `none` if it refuses the descriptor. -/
def tuSoftmaxExecute (mem : Nat → NumByte F) (desc : TuSoftmaxDesc F) : Option (Nat → NumByte F) :=
  if !tuSoftmaxValidateDesc size desc then none
  else
    let axisDim := if desc.axisDim = 0 then desc.elemCount else desc.axisDim
    let numRows := desc.elemCount / axisDim
    let numRows := if numRows = 0 then 1 else numRows
    let outOff := if desc.inPlace then desc.dataOffset else desc.outOffset
    some ((List.range numRows).foldl (fun mem r =>
      let rowIn := u32 (desc.dataOffset + r * axisDim * 4)
      let rowOut := u32 (outOff + r * axisDim * 4)
      let rowMask := desc.mask.map fun mask i => mask (u32 (r * axisDim) + i)
      softmaxSingleRow fp size mem rowIn rowOut axisDim desc.scale desc.mode rowMask desc.maskIsAdditive desc.maskFill) mem)

end

end Tusim.Attention
