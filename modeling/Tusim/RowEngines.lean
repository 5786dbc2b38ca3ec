import Tusim.Attention.Softmax
import Tusim.Elementwise.Pipeline
import Tusim.SramAccess

/-!
# The row engines on regions of any bank width

The softmax and the normalisation engine on a region of bytes.  A row is copied number by number through a buffer of the
size of the row, but an access of the region moves a whole word, so a word wider than a number overruns the buffer at the
end of the row; the engine's behaviour is undefined then (`RowOutcome.overrun`).  The stalls, the maxima, sums, means and
variances that a caller may ask for are left out.
-/

namespace Tusim.Rows

open Word Sram Attention

/-- The four bytes of a number. -/
structure FloatCodec (F : Type) where
  read : (Nat → UInt8) → F
  bytes : F → Nat → UInt8

/-- What an engine does with a descriptor. -/
inductive RowOutcome
  | refused
  | done (r : TuCoreRegion)
  | overrun

def RowOutcome.ofOption : Option TuCoreRegion → RowOutcome
  | some r => .done r
  | none => .overrun

/-- One turn of `sram_load_floats` into a buffer of `cols` numbers. -/
def loadStep (off cols : Nat) (s : TuCoreRegion × (Nat → UInt8)) (i : Nat) : Option (TuCoreRegion × (Nat → UInt8)) :=
  let addr := u32 (off + 4 * i)
  let width := s.1.banks.bankWidth.toNat
  if boundsCheck s.1 addr width ∧ 4 * cols < 4 * i + width then none
  else
    let (r, word, _) := tuSramRead s.1 addr fun k => s.2 (4 * i + k)
    some (r, fun j => if 4 * i ≤ j then word (j - 4 * i) else s.2 j)

/-- `sram_load_floats`; `garbage` is what the new buffer holds. -/
def sramLoadFloats (r : TuCoreRegion) (off cols : Nat) (garbage : Nat → UInt8) :
    Option (TuCoreRegion × (Nat → UInt8)) :=
  (List.range cols).foldlM (loadStep off cols) (r, garbage)

/-- One turn of `sram_store_floats` from a buffer of `cols` numbers. -/
def storeStep (off cols : Nat) (row : Nat → UInt8) (r : TuCoreRegion) (i : Nat) : Option TuCoreRegion :=
  let addr := u32 (off + 4 * i)
  let width := r.banks.bankWidth.toNat
  if boundsCheck r addr width ∧ 4 * cols < 4 * i + width then none
  else some (tuSramWrite r addr fun k => row (4 * i + k)).1

/-- `sram_store_floats` -/
def sramStoreFloats (r : TuCoreRegion) (off cols : Nat) (row : Nat → UInt8) : Option TuCoreRegion :=
  (List.range cols).foldlM (storeStep off cols row) r

section

variable {F : Type} (fp : FloatOps F) (codec : FloatCodec F)

/-- The numbers in a buffer. -/
def numbers (cols : Nat) (row : Nat → UInt8) : List F :=
  (List.range cols).map fun i => codec.read fun k => row (4 * i + k)

/-- A buffer with numbers in it. -/
def buffer (values : List F) (row : Nat → UInt8) : Nat → UInt8 :=
  fun j => (values[j / 4]?).elim (row j) fun v => codec.bytes v (j % 4)

/-- A row through an engine that maps its numbers. -/
def throughBuffer (f : List F → List F) (garbage : Nat → UInt8) (r : TuCoreRegion) (inOffset outOffset cols : Nat) :
    Option TuCoreRegion :=
  if cols = 0 then some r
  else
    (sramLoadFloats r inOffset cols garbage).bind fun (r, row) =>
      sramStoreFloats r outOffset cols (buffer codec (f (numbers codec cols row)) row)

/-! ### Softmax -/

/-- `tu_softmax_desc_t`; the mode is `none` if it is not one of the enumeration. -/
structure TuSoftmaxDesc (F : Type) where
  mode : Option TuSoftmaxMode
  dataOffset : UInt32
  elemCount : UInt32
  axisDim : UInt32
  mask : Option (Nat → F)
  maskIsAdditive : Bool
  maskFill : F
  scale : F
  inPlace : Bool
  outOffset : UInt32

def tuSoftmaxValidateDesc (r : TuCoreRegion) (desc : TuSoftmaxDesc F) : Bool :=
  desc.elemCount != 0 && desc.mode.isSome &&
    !(desc.axisDim > 0 && desc.elemCount % desc.axisDim != 0) &&
    !(desc.axisDim > desc.elemCount) &&
    !(desc.dataOffset + desc.elemCount * 4 > r.totalSize) &&
    (desc.inPlace || !(desc.outOffset + desc.elemCount * 4 > r.totalSize))

/-- The numbers of a row after `softmax_single_row`. -/
def softmaxNumbers (desc : TuSoftmaxDesc F) (mask : Option (Nat → F)) (row : List F) : List F :=
  let row :=
    match mask with
    | none => row
    | some mask => row.mapIdx fun i x => if desc.maskIsAdditive then fp.add x (mask i) else fp.mul x (mask i)
  let row :=
    if !fp.eq desc.maskFill fp.zero then
      row.map fun x => if fp.le x desc.maskFill || fp.isnan x then fp.lit (-1000000000) 0 else x
    else row
  match desc.mode with
  | some .online => (softmaxRowOnline fp row desc.scale .online).row
  | some mode => (softmaxRowTwoPass fp row desc.scale mode).row
  | none => row

/-- The length of a row. -/
def axisLength (axisDim elemCount : UInt32) : UInt32 := if axisDim = 0 then elemCount else axisDim

/-- The number of rows. -/
def numRows (axisDim elemCount : UInt32) : Nat :=
  let rows := elemCount / axisLength axisDim elemCount
  if rows = 0 then 1 else rows.toNat

/-- `tu_softmax_execute`; `garbage` is what the buffer of each row holds at first. -/
def tuSoftmaxExecute (garbage : Nat → Nat → UInt8) (r : TuCoreRegion) (desc : TuSoftmaxDesc F) : RowOutcome :=
  if !tuSoftmaxValidateDesc r desc then .refused
  else
    let axis := (axisLength desc.axisDim desc.elemCount).toNat
    let outOff := if desc.inPlace then desc.dataOffset.toNat else desc.outOffset.toNat
    .ofOption <| (List.range (numRows desc.axisDim desc.elemCount)).foldlM
      (fun r row =>
        let mask := desc.mask.map fun mask i => mask (u32 (row * axis) + i)
        throughBuffer codec (softmaxNumbers fp desc mask) (garbage row) r
          (u32 (desc.dataOffset.toNat + 4 * (row * axis))) (u32 (outOff + 4 * (row * axis))) axis) r

/-! ### Normalisation -/

inductive TuNormMode
  | layerNorm
  | rmsNorm
  | batchNorm
  deriving DecidableEq, Repr

/-- Where the scale or the bias is: nowhere, in the region of the data, or in another region. -/
inductive ParamSram
  | none
  | data
  | other (r : TuCoreRegion)

/-- `tu_norm_desc_t`; the mode is `none` if it is not one of the enumeration. -/
structure TuNormDesc (F : Type) where
  mode : Option TuNormMode
  dataOffset : UInt32
  elemCount : UInt32
  gammaSram : ParamSram
  gammaOffset : UInt32
  betaSram : ParamSram
  betaOffset : UInt32
  epsilon : F
  normAxisDim : UInt32
  inPlace : Bool
  outOffset : UInt32

/-- `tu_norm_validate_desc`; the output offset is not looked at. -/
def tuNormValidateDesc (r : TuCoreRegion) (desc : TuNormDesc F) : Bool :=
  desc.elemCount != 0 && desc.mode.isSome && !(desc.normAxisDim > desc.elemCount) &&
    !(desc.dataOffset + desc.elemCount * 4 > r.totalSize)

/-- The numbers of a row after `normalize_row`. -/
def normalizeNumbers (mode : Option TuNormMode) (gamma beta : Option (Nat → F)) (epsilon : F) (row : List F) : List F :=
  let scaled (i : Nat) (y : F) : F := gamma.elim y fun gamma => fp.mul y (gamma i)
  let shifted (i : Nat) (y : F) : F := beta.elim y fun beta => fp.add y (beta i)
  let count := fp.ofNat row.length
  if mode = some .rmsNorm then
    let rms2 := fp.div (row.foldl (fun sum x => fp.add sum (fp.mul x x)) fp.zero) count
    let invRms := fp.div fp.one (fp.sqrtf (fp.add rms2 epsilon))
    row.mapIdx fun i x => scaled i (fp.mul x invRms)
  else
    let mean := fp.div (row.foldl fp.add fp.zero) count
    let var := fp.div (row.foldl (fun sum x => fp.add sum (fp.mul (fp.sub x mean) (fp.sub x mean))) fp.zero) count
    let invStd := fp.div fp.one (fp.sqrtf (fp.add var epsilon))
    row.mapIdx fun i x => shifted i (scaled i (fp.mul (fp.sub x mean) invStd))

/-- A scale or bias of `axis` numbers, read before the rows. -/
def loadParam (garbage : Nat → UInt8) (r : TuCoreRegion) (param : ParamSram) (offset : UInt32) (axis : Nat) :
    Option (TuCoreRegion × Option (Nat → F)) :=
  let values (row : Nat → UInt8) (i : Nat) : F := codec.read fun k => row (4 * i + k)
  match param with
  | .none => some (r, none)
  | .data => (sramLoadFloats r offset.toNat axis garbage).map fun (r, row) => (r, some (values row))
  | .other p => (sramLoadFloats p offset.toNat axis garbage).map fun (_, row) => (r, some (values row))

/-- `tu_norm_execute` -/
def tuNormExecute (garbage : Nat → Nat → UInt8) (r : TuCoreRegion) (desc : TuNormDesc F) : RowOutcome :=
  if !tuNormValidateDesc r desc then .refused
  else
    let axisDim := axisLength desc.normAxisDim desc.elemCount
    let axis := axisDim.toNat
    let rows := numRows desc.normAxisDim desc.elemCount
    let outOff := if desc.inPlace then desc.dataOffset.toNat else desc.outOffset.toNat
    .ofOption <|
      (loadParam codec (garbage rows) r desc.gammaSram desc.gammaOffset axis).bind fun (r, gamma) =>
        (loadParam codec (garbage (rows + 1)) r
          (if desc.mode = some .layerNorm then desc.betaSram else .none) desc.betaOffset axis).bind fun (r, beta) =>
            (List.range rows).foldlM
              (fun r row =>
                let cols :=
                  if row = rows - 1 ∧ u32 (axis * rows) > desc.elemCount.toNat then
                    u32 (desc.elemCount.toNat + 2 ^ 32 - u32 (row * axis))
                  else axis
                throughBuffer codec (normalizeNumbers fp desc.mode gamma beta desc.epsilon) (garbage row) r
                  (u32 (desc.dataOffset.toNat + 4 * (row * axis))) (u32 (outOff + 4 * (row * axis))) cols) r

end

end Tusim.Rows
