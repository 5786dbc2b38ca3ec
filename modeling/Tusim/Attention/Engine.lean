import Tusim.Attention.Softmax
import Tusim.Compute.Dataflow

/-!
# The attention engine

`tu_attention_execute` and the functions it calls, on the three scratchpads of an initialised core.  Scores are computed,
scaled and masked in the output scratchpad, turned into weights in place, packed to 16 bits in their own area and
multiplied with the values into an accumulator area beside them.  The statistics are left out; so are the texts of the
log.  Allocations succeed, and the output lies apart from the operands in host memory.
-/

namespace Tusim.Attention

open NumberMemory Blocks Word

inductive TuAttnMaskType
  | none
  | causal
  | custom
  deriving DecidableEq, Repr

/-- `tu_attention_desc_t`; the tensors in host memory are given by element. -/
structure TuAttentionDesc (F : Type) where
  q : Nat → F
  k : Nat → F
  v : Nat → F
  batchSize : UInt32
  numHeads : UInt32
  seqLenQ : UInt32
  seqLenKv : UInt32
  headDim : UInt32
  softmaxScale : F
  maskType : TuAttnMaskType
  mask : Option (Nat → F)
  maskFill : F
  tileM : UInt32
  tileN : UInt32

/-- The fields of the runtime configuration that the engine uses. -/
structure AttentionConfig where
  sramWSize : UInt32
  sramASize : UInt32
  sramOSize : UInt32
  peRows : UInt16
  peCols : UInt16
  peRows_ne : peRows ≠ 0
  peCols_ne : peCols ≠ 0

/-- The scratchpads, the selected dataflow and the bytes of the output in host memory. -/
structure AttentionState (F : Type) where
  sramW : Nat → NumByte F
  sramA : Nat → NumByte F
  sramO : Nat → NumByte F
  plugin : TuDataflowPlugin
  output : Nat → NumByte F

/-! ### Admission -/

structure AttentionFootprint where
  qBytes : Nat
  kBytes : Nat
  sBytes : Nat
  oBytes : Nat
  deriving DecidableEq, Repr

/-- `attention_footprint`, or `none` where it returns `false`; the sums have 64 bits. -/
def attentionFootprint (cfg : AttentionConfig) (tm tn dim n : Nat) : Option AttentionFootprint :=
  if tm = 0 ∨ tn = 0 ∨ dim = 0 ∨ n = 0 then none
  else
    let q := tm * dim
    let k := tn * dim
    let s := tm * tn
    if q > cfg.sramASize.toNat / 2 ∨ k > cfg.sramWSize.toNat / 4 ∨ s > cfg.sramOSize.toNat / 4 ∨
        q > cfg.sramOSize.toNat / 4 then none
    else
      let oEnd := s * 4 + q * 4
      let sTileBytes := s * 4
      let stateBytes := if tn < n then tm * 2 * 4 else 0
      if oEnd + sTileBytes + stateBytes > cfg.sramOSize.toNat then none
      else some { qBytes := q * 2, kBytes := k * 2, sBytes := s * 4, oBytes := q * 4 }

section

variable {F : Type} [DecidableEq F] (fp : FloatOps F)

/-- `tu_attention_validate_desc`; `INFINITY` and NaN are not finite. -/
def tuAttentionValidateDesc (desc : TuAttentionDesc F) : Bool :=
  !(desc.seqLenQ == 0 || desc.seqLenKv == 0 || desc.headDim == 0) &&
    !(desc.batchSize == 0 || desc.numHeads == 0) &&
    !(!fp.isfinite desc.softmaxScale || fp.lt desc.softmaxScale fp.zero) &&
    !(desc.maskType = .custom && desc.mask.isNone) &&
    !(desc.maskType = .causal && (fp.isnan desc.maskFill || fp.eq desc.maskFill fp.infinity))

/-! ### Normalising a tile of scores -/

/-- `hi`, or `none` when a score is NaN or `INFINITY` -/
def scoreMax (size : Nat) (mem : Nat → NumByte F) (off cols : Nat) (hi : F) : Option F :=
  (List.range cols).foldlM (fun hi j =>
    let x := tuSramRead fp size mem (u32 (off + j * 4)) fp.garbage
    if fp.isnan x || fp.eq x fp.infinity then none else some (fp.fmaxf hi x)) hi

/-- The score becomes its weight. -/
def weightOf (hi x : F) : F :=
  if fp.eq hi fp.negInfinity || fp.lt (fp.sub x hi) (fp.lit (-87) 0) then fp.zero else fp.expf (fp.sub x hi)

/-- The loop that replaces the scores of a row by weights and adds them up. -/
def weighRow (size : Nat) (mem : Nat → NumByte F) (off cols : Nat) (hi : F) : (Nat → NumByte F) × F :=
  (List.range cols).foldl (fun (s : (Nat → NumByte F) × F) j =>
    let (mem, tileSum) := s
    let addr := u32 (off + j * 4)
    let p := weightOf fp hi (tuSramRead fp size mem addr fp.garbage)
    (tuSramWrite size mem addr p, fp.add tileSum p)) (mem, fp.zero)

/-- A loop over numbers in SRAM that replaces each by `f` of it. -/
def sramUpdate (size : Nat) (mem : Nat → NumByte F) (off n : Nat) (f : F → F) : Nat → NumByte F :=
  (List.range n).foldl (fun mem j =>
    let addr := u32 (off + j * 4)
    tuSramWrite size mem addr (f (tuSramRead fp size mem addr fp.garbage))) mem

/-- The areas of the output scratchpad. -/
structure TileAreas where
  scoreOff : Nat
  outputOff : Nat
  maxOff : Nat
  sumOff : Nat

/-- The body of the loop over rows; `none` where the source returns `false`. -/
def normalizeRow (size cols dim : Nat) (areas : TileAreas) (streaming : Bool) (mem : Nat → NumByte F) (r : Nat) :
    Option (Nat → NumByte F) :=
  let oldMax := if streaming then tuSramRead fp size mem (u32 (areas.maxOff + r * 4)) fp.negInfinity else fp.negInfinity
  let oldSum := if streaming then tuSramRead fp size mem (u32 (areas.sumOff + r * 4)) fp.zero else fp.zero
  let row := areas.scoreOff + r * cols * 4
  (scoreMax fp size mem row cols oldMax).map fun hi =>
    let alpha := if fp.eq oldSum fp.zero then fp.zero else fp.expf (fp.sub oldMax hi)
    let (mem, tileSum) := weighRow fp size mem row cols hi
    if streaming then
      let sum := fp.add (fp.mul alpha oldSum) tileSum
      let mem := tuSramWrite size mem (u32 (areas.maxOff + r * 4)) hi
      let mem := tuSramWrite size mem (u32 (areas.sumOff + r * 4)) sum
      sramUpdate fp size mem (areas.outputOff + r * dim * 4) dim fun out => fp.mul out alpha
    else
      sramUpdate fp size mem row cols fun p => if fp.eq tileSum fp.zero then fp.zero else fp.div p tileSum

/-- `normalize_attention_tile`: the memory it leaves, and whether it succeeded. -/
def normalizeAttentionTile (size : Nat) (mem : Nat → NumByte F) (rows cols dim : Nat) (areas : TileAreas)
    (streaming : Bool) : (Nat → NumByte F) × Bool :=
  (List.range rows).foldl (fun (s : (Nat → NumByte F) × Bool) r =>
    if s.2 then
      match normalizeRow fp size cols dim areas streaming s.1 r with
      | some mem => (mem, true)
      | none => (s.1, false)
    else s) (mem, true)

/-! ### The steps of a tile -/

/-- `transpose_fp16_in_sram` -/
def transposeFp16InSram (size : Nat) (mem : Nat → NumByte F) (srcOff dstOff rows cols : Nat) : Nat → NumByte F :=
  (List.range rows).foldl (fun mem r => (List.range cols).foldl (fun mem c =>
    let val := tuSramReadBulk fp size mem (u32 (srcOff + (r * cols + c) * 2)) fp.garbage 2
    tuSramWriteBulk size mem (u32 (dstOff + (c * rows + r) * 2)) val 2) mem) mem

/-- `fp32_to_fp16_in_sram` -/
def fp32ToFp16InSram (size : Nat) (mem : Nat → NumByte F) (offset elemCount : Nat) : Nat → NumByte F :=
  (List.range elemCount).foldl (fun mem idx =>
    let val := tuSramRead fp size mem (u32 (offset + idx * 4)) fp.garbage
    tuSramWriteBulk size mem (u32 (offset + idx * 2)) val 2) mem

/-- The loops that write the same number `n` times. -/
def sramFill (size : Nat) (mem : Nat → NumByte F) (off n : Nat) (v : F) : Nat → NumByte F :=
  (List.range n).foldl (fun mem i => tuSramWrite size mem (u32 (off + i * 4)) v) mem

/-- The operands of a multiply: 16-bit numbers at `w` and `a`, 32-bit accumulators from `oOff` on. -/
def tileOperands (w a : Nat → NumByte F) (wOff aOff oOff : Nat) : MmaOperands F (Nat → NumByte F) where
  zero := fp.zero
  add := fp.add
  mul := fp.mul
  w i := load 2 fp.garbage w (wOff + 2 * i.toNat)
  a i := load 2 fp.garbage a (aOff + 2 * i.toNat)
  loadO mem i := load 4 fp.garbage mem (oOff + 4 * i.toNat)
  storeO mem i v := store 4 mem (oOff + 4 * i.toNat) v

/-- A tensor stored row by row. -/
def tileTensor (rows cols elemSize : Nat) : TuDataflowTensor where
  rows := UInt32.ofNat rows
  cols := UInt32.ofNat cols
  stride := UInt32.ofNat (cols * elemSize)
  elemSize := UInt32.ofNat elemSize

/-- The multiply of a step and the counters it takes from the plugin. -/
def tileMma (cfg : AttentionConfig) (fuel : Nat) (plugin : TuDataflowPlugin) (x : MmaOperands F (Nat → NumByte F))
    (M N K : Nat) (mem : Nat → NumByte F) : Option ((Nat → NumByte F) × TuDataflowPlugin) :=
  (tuDataflowExecuteMma x plugin (tileTensor M K 2) (tileTensor K N 2) (tileTensor M N 4) cfg.peRows cfg.peCols
    cfg.peCols (UInt16.ofNat tuPePipelineDepth) fuel mem).map fun r =>
      (r.o, { r.plugin with totalTiles := 0, totalFlops := 0 })

/-- What `tu_attention_execute` computes before its loops. -/
structure AttentionPlan (F : Type) where
  tileM : Nat
  tileN : Nat
  scale : F
  maskFill : F
  footprint : AttentionFootprint
  streaming : Bool

namespace AttentionPlan

variable (plan : AttentionPlan F)

/-- `KT_off`; the offsets of `K` and `V` are zero. -/
def ktOff : Nat := plan.footprint.kBytes

/-- `O_off`; the offset of `S` is zero. -/
def oOff : Nat := plan.footprint.sBytes

def maskOff : Nat := u32 (plan.oOff + plan.footprint.oBytes)

def maxOff : Nat := u32 (plan.maskOff + plan.footprint.sBytes)

def sumOff : Nat := u32 (plan.maxOff + if plan.streaming then plan.tileM * 4 else 0)

def areas : TileAreas where
  scoreOff := 0
  outputOff := plan.oOff
  maxOff := plan.maxOff
  sumOff := plan.sumOff

end AttentionPlan

/-- `TU_PE_ROWS` and `TU_PE_COLS` -/
def tuPeRows : Nat := 16

def tuPeCols : Nat := 16

/-- Tile sizes, scale and fill as the source chooses them, or `none` if the tile is not admitted. -/
def attentionPlan (cfg : AttentionConfig) (desc : TuAttentionDesc F) : Option (AttentionPlan F) :=
  let tileM := desc.tileM.toNat
  let tileN := desc.tileN.toNat
  let tileM := if tileM = 0 then (if tuPeRows > desc.seqLenQ.toNat then desc.seqLenQ.toNat else tuPeRows) else tileM
  let tileN := if tileN = 0 then (if tuPeCols > desc.seqLenKv.toNat then desc.seqLenKv.toNat else tuPeCols) else tileN
  let scale :=
    if fp.le desc.softmaxScale fp.zero then fp.div fp.one (fp.sqrtf (fp.ofNat desc.headDim.toNat)) else desc.softmaxScale
  let mfill := if fp.eq desc.maskFill fp.zero then fp.lit (-1000000000) 0 else desc.maskFill
  (attentionFootprint cfg tileM tileN desc.headDim.toNat desc.seqLenKv.toNat).map fun footprint =>
    { tileM := tileM
      tileN := tileN
      scale := scale
      maskFill := mfill
      footprint := footprint
      streaming := tileN < desc.seqLenKv.toNat }

variable (cfg : AttentionConfig) (desc : TuAttentionDesc F) (plan : AttentionPlan F)

/-- What the mask adds to the score of key `j` for query `i`. -/
def maskValue (h i j : Nat) : F :=
  if desc.maskType = .causal then (if j > i then plan.maskFill else fp.zero)
  else
    match desc.mask with
    | some mask => mask (u64 ((u64 ((u64 (h * desc.seqLenQ.toNat)) + i) * desc.seqLenKv.toNat) + j))
    | none => fp.garbage

/-- Steps 1 to 3: the scores of a tile of `kvCount` keys from `kvi` on, for `qCount` queries from `qi` on. -/
def scoreTile (fuel h qi qCount kvi kvCount : Nat) (s : AttentionState F) : Option (AttentionState F) :=
  let aw := desc.headDim.toNat
  let strideKv := u32 (desc.seqLenKv.toNat * aw)
  let kHead := u32 (h * strideKv)
  let sramW := tuDmaLoad cfg.sramWSize.toNat s.sramW 0 desc.k (kHead + u32 (kvi * aw)) (u32 (kvCount * aw * 2))
  let sramW := transposeFp16InSram fp cfg.sramWSize.toNat sramW 0 plan.ktOff kvCount aw
  let sramO := sramFill cfg.sramOSize.toNat s.sramO 0 (u32 (qCount * kvCount)) fp.zero
  (tileMma cfg fuel s.plugin (tileOperands fp s.sramA sramW 0 plan.ktOff 0) qCount kvCount aw sramO).map fun r =>
    let sramO := tuEwMulScalar fp cfg.sramOSize.toNat r.1 0 (u32 (qCount * kvCount)) plan.scale
    let sramO :=
      if desc.maskType = .none then sramO
      else
        let sramO := (List.range qCount).foldl (fun mem row => (List.range kvCount).foldl (fun mem j =>
          tuSramWrite cfg.sramOSize.toNat mem (u32 (plan.maskOff + (row * kvCount + j) * 4))
            (maskValue fp desc plan h (qi + row) (kvi + j))) mem) sramO
        tuEwAddTensors fp sramO 0 plan.maskOff (u32 (qCount * kvCount))
    { s with sramW := sramW, sramO := sramO, plugin := r.2 }

/-- Step 4: scores to weights; the flag is `false` where the source returns. -/
def softmaxTile (qCount kvCount : Nat) (mem : Nat → NumByte F) : (Nat → NumByte F) × Bool :=
  if plan.streaming || desc.maskType = .custom then
    normalizeAttentionTile fp cfg.sramOSize.toNat mem qCount kvCount desc.headDim.toNat plan.areas plan.streaming
  else
    let smDesc : TuSoftmaxDesc F :=
      { mode := .standard, dataOffset := 0, elemCount := u32 (qCount * kvCount), axisDim := kvCount, mask := none
        maskIsAdditive := false, maskFill := fp.zero, scale := fp.zero, inPlace := true, outOffset := 0 }
    ((tuSoftmaxExecute fp cfg.sramOSize.toNat mem smDesc).getD mem, true)

/-- Steps 5 to 7: the weights are packed and multiplied with the values. -/
def valueTile (fuel h qCount kvi kvCount : Nat) (s : AttentionState F) : Option (AttentionState F) :=
  let aw := desc.headDim.toNat
  let strideKv := u32 (desc.seqLenKv.toNat * aw)
  let vHead := u32 (h * strideKv)
  let sramO := fp32ToFp16InSram fp cfg.sramOSize.toNat s.sramO 0 (u32 (qCount * kvCount))
  let sramW := tuDmaLoad cfg.sramWSize.toNat s.sramW 0 desc.v (vHead + u32 (kvi * aw)) (u32 (kvCount * aw * 2))
  (tileMma cfg fuel s.plugin (tileOperands fp sramO sramW 0 0 plan.oOff) qCount aw kvCount sramO).map fun r =>
    { s with sramW := sramW, sramO := r.1, plugin := r.2 }

/-- The body of the loop over key and value tiles: `.error` where the source returns `-1`. -/
def kvTile (fuel h qi qCount kvi : Nat) (s : AttentionState F) :
    Option (Except (AttentionState F) (AttentionState F)) :=
  let N := desc.seqLenKv.toNat
  let kvCount := if u32 (kvi + plan.tileN) ≤ N then plan.tileN else N - kvi
  (scoreTile fp cfg desc plan fuel h qi qCount kvi kvCount s).bind fun s =>
    let (sramO, ok) := softmaxTile fp cfg desc plan qCount kvCount s.sramO
    let s := { s with sramO := sramO }
    if ok then (valueTile fp cfg desc plan fuel h qCount kvi kvCount s).map .ok else some (.error s)

/-- A loop body after which the source may have returned. -/
def unlessReturned {S : Type} (body : S → Option (Except S S)) : Except S S → Option (Except S S)
  | .ok s => body s
  | .error s => some (.error s)

/-- The loop over the rows of the accumulators after the last tile. -/
def divideRows (qCount : Nat) (mem : Nat → NumByte F) : Nat → NumByte F :=
  let aw := desc.headDim.toNat
  (List.range qCount).foldl (fun mem r =>
    let sum := tuSramRead fp cfg.sramOSize.toNat mem (u32 (plan.sumOff + r * 4)) fp.garbage
    sramUpdate fp cfg.sramOSize.toNat mem (plan.oOff + r * aw * 4) aw
      fun out => if fp.eq sum fp.zero then fp.zero else fp.div out sum) mem

/-- The output of a query tile: the accumulators are read back, checked and written to the host, after a transfer that
the source makes first. -/
def writeBack (h qi qCount : Nat) (s : AttentionState F) : Except (AttentionState F) (AttentionState F) :=
  let aw := desc.headDim.toNat
  let numElems := u32 (qCount * aw)
  let temp i := tuSramRead fp cfg.sramOSize.toNat s.sramO (u32 (plan.oOff + i * 4)) fp.garbage
  let oHead := u32 (h * u32 (desc.seqLenQ.toNat * aw))
  let dst := 2 * (oHead + u32 (qi * aw))
  if (List.range numElems).all fun i => fp.isfinite (temp i) then
    let output := tuDmaStore cfg.sramOSize.toNat s.sramO plan.oOff s.output dst (u32 (numElems * 2))
    .ok { s with output := memcpy output dst (encode 2 temp) (numElems * 2) }
  else .error s

/-- The body of the loop over query tiles. -/
def queryTile (fuel h qi : Nat) (s : AttentionState F) : Option (Except (AttentionState F) (AttentionState F)) :=
  let M := desc.seqLenQ.toNat
  let aw := desc.headDim.toNat
  let qCount := if u32 (qi + plan.tileM) ≤ M then plan.tileM else M - qi
  let qHead := u32 (h * u32 (M * aw))
  let sramA := tuDmaLoad cfg.sramASize.toNat s.sramA 0 desc.q (qHead + u32 (qi * aw)) (u32 (qCount * aw * 2))
  let sramO := sramFill cfg.sramOSize.toNat s.sramO plan.oOff (u32 (qCount * aw)) fp.zero
  let sramO :=
    if plan.streaming then
      (List.range qCount).foldl (fun mem r =>
        tuSramWrite cfg.sramOSize.toNat
          (tuSramWrite cfg.sramOSize.toNat mem (u32 (plan.maxOff + r * 4)) fp.negInfinity)
          (u32 (plan.sumOff + r * 4)) fp.zero) sramO
    else sramO
  (WrapLoop.loop desc.seqLenKv.toNat plan.tileN (2 ^ 32)
    (fun kvi => unlessReturned (kvTile fp cfg desc plan fuel h qi qCount kvi)) fuel 0
    (.ok { s with sramA := sramA, sramO := sramO })).map fun
      | .ok s =>
        let sramO := if plan.streaming then divideRows fp cfg desc plan qCount s.sramO else s.sramO
        writeBack fp cfg desc plan h qi qCount { s with sramO := sramO }
      | .error s => .error s

/-- `tu_attention_execute`: what it returns and the state it leaves; `fuel` bounds the tests of the loops over tiles and
those of the multiplies. -/
def tuAttentionExecute (fuel : Nat) (s : AttentionState F) : Option (Int × AttentionState F) :=
  if !tuAttentionValidateDesc fp desc then some (-1, s)
  else
    match attentionPlan fp cfg desc with
    | none => some (-1, s)
    | some plan =>
      ((List.range (u32 (desc.batchSize.toNat * desc.numHeads.toNat))).foldlM (fun s h => unlessReturned (fun s =>
        WrapLoop.loop desc.seqLenQ.toNat plan.tileM (2 ^ 32)
          (fun qi => unlessReturned (queryTile fp cfg desc plan fuel h qi)) fuel 0 (.ok s)) s) (.ok s)).map fun
        | .ok s => (0, s)
        | .error s => (-1, s)

end

end Tusim.Attention
