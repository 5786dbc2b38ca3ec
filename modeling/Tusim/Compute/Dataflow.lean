import Mathlib.Algebra.Order.Ring.Nat
import Tusim.Lib.Word
import Tusim.Lib.WrapLoop

/-!
# Dataflow plugins

The tiled matrix multiply of `tu_dataflow_execute_mma`, the three plugins it dispatches to and the inline tiling of
`tu_mma`.  The kernels work on an accumulator memory through the arithmetic and the number formats of the caller; operands
are addressed by element from their first one, and the operands they read are not in that memory.  All loop counters are 16
bits wide, so every loop takes a bound on the number of its tests.

`macs` is not in the source: it records row, column and inner index of every product, in order.
-/

namespace Tusim

open Word

/-- How a kernel computes and what it reads and writes: `w` and `a` are the operands after conversion to 32 bits. -/
structure MmaOperands (R Mem : Type) where
  zero : R
  add : R → R → R
  mul : R → R → R
  w : Int → R
  a : Int → R
  loadO : Mem → Int → R
  storeO : Mem → Int → R → Mem

/-- A matrix in memory; `stride` is in bytes. -/
structure TuDataflowTensor where
  rows : UInt32
  cols : UInt32
  stride : UInt32
  elemSize : UInt32

/-- The dataflows that have a plugin; there is none for `TU_DATAFLOW_NO_LOCAL_REUSE`. -/
inductive TuDataflowId
  | weightStationary
  | outputStationary
  | rowStationary
  deriving DecidableEq, Repr

/-- The state of a plugin; the reuse counters are those of the row-stationary one. -/
structure TuDataflowPlugin where
  id : TuDataflowId
  totalFlops : Nat := 0
  totalTiles : Nat := 0
  totalCycles : Nat := 0
  wReuseHits : Nat := 0
  wReuseMisses : Nat := 0

structure TuMmaOp where
  W : TuDataflowTensor
  A : TuDataflowTensor
  O : TuDataflowTensor

/-- A tile: start and extent in each dimension. -/
structure MmaTile where
  mStart : Nat
  mCount : Nat
  nStart : Nat
  nCount : Nat
  kStart : Nat
  kCount : Nat

structure TileState (Mem : Type) where
  o : Mem
  macs : List (Nat × Nat × Nat)

/-- `for (uint16_t i = 0; i < n; i++)` with at most `fuel` tests. -/
def forU16 {S : Type} (n : Nat) (body : Nat → S → Option S) (fuel : Nat) (s : S) : Option S :=
  WrapLoop.loop n 1 (2 ^ 16) body fuel 0 s

variable {R Mem : Type} (x : MmaOperands R Mem)

/-! ### Kernels -/

/-- The loops over one tile with the indices of the operands: each element of the tile gets its partial sum. -/
def tileLoops (wIndex aIndex oIndex : Nat → Nat → Int) (t : MmaTile) (fuel : Nat) (s : TileState Mem) :
    Option (TileState Mem) :=
  let mBody m := fun s =>
    let nBody n := fun (s : TileState Mem) =>
      let kBody k := fun (psum : R × List (Nat × Nat × Nat)) =>
        let wVal := x.w (wIndex (t.mStart + m) (t.kStart + k))
        let aVal := x.a (aIndex (t.kStart + k) (t.nStart + n))
        some (x.add psum.1 (x.mul wVal aVal), psum.2 ++ [(t.mStart + m, t.nStart + n, t.kStart + k)])
      (forU16 t.kCount kBody fuel (x.zero, s.macs)).map fun psum =>
        let i := oIndex (t.mStart + m) (t.nStart + n)
        { o := x.storeO s.o i (x.add (x.loadO s.o i) psum.1), macs := psum.2 }
    forU16 t.nCount nBody fuel s
  forU16 t.mCount mBody fuel s

/-- The index `row * stride_el + col` of the kernels, 32 bits wide. -/
def strideIndex (strideEl row col : Nat) : Int := u32 (row * strideEl + col)

/-- The loops of the three kernels, which are the same. -/
def kernelLoops (op : TuMmaOp) (t : MmaTile) (fuel : Nat) (s : TileState Mem) : Option (TileState Mem) :=
  tileLoops x (strideIndex (op.W.stride.toNat / 2)) (strideIndex (op.A.stride.toNat / 2))
    (strideIndex (op.O.stride.toNat / 4)) t fuel s

/-- The accumulators, the plugin and the cycles of a tile. -/
def wsExecuteTile (plugin : TuDataflowPlugin) (op : TuMmaOp) (t : MmaTile) (fuel : Nat) (s : TileState Mem) :
    Option (TileState Mem × TuDataflowPlugin × Nat) :=
  (kernelLoops x op t fuel s).map fun s => (s, plugin, t.kCount)

def osExecuteTile (plugin : TuDataflowPlugin) (op : TuMmaOp) (t : MmaTile) (fuel : Nat) (s : TileState Mem) :
    Option (TileState Mem × TuDataflowPlugin × Nat) :=
  (kernelLoops x op t fuel s).map fun s => (s, plugin, t.kCount + (t.kCount + 3) / 4)

def rsExecuteTile (plugin : TuDataflowPlugin) (op : TuMmaOp) (t : MmaTile) (fuel : Nat) (s : TileState Mem) :
    Option (TileState Mem × TuDataflowPlugin × Nat) :=
  (kernelLoops x op t fuel s).map fun s =>
    let wTotalReads := t.mCount * t.kCount
    let wTotalUses := t.mCount * t.nCount * t.kCount
    let plugin :=
      if t.nCount > 1 then
        { plugin with
          wReuseHits := u64 (plugin.wReuseHits + (wTotalUses - wTotalReads))
          wReuseMisses := u64 (plugin.wReuseMisses + wTotalReads) }
      else { plugin with wReuseMisses := u64 (plugin.wReuseMisses + wTotalReads) }
    (s, plugin, t.kCount)

namespace TuDataflowPlugin

variable (plugin : TuDataflowPlugin)

/-- `plugin->init` -/
def init : TuDataflowPlugin :=
  match plugin.id with
  | .rowStationary => { plugin with wReuseHits := 0, wReuseMisses := 0 }
  | _ => plugin

/-- `plugin->execute_tile` -/
def executeTile (op : TuMmaOp) (t : MmaTile) (fuel : Nat) (s : TileState Mem) :
    Option (TileState Mem × TuDataflowPlugin × Nat) :=
  match plugin.id with
  | .weightStationary => wsExecuteTile x plugin op t fuel s
  | .outputStationary => osExecuteTile x plugin op t fuel s
  | .rowStationary => rsExecuteTile x plugin op t fuel s

/-- `plugin->get_fill_cycles` -/
def getFillCycles (nCount pipelineDepth : Nat) : Nat :=
  match plugin.id with
  | .weightStationary => pipelineDepth * nCount
  | .rowStationary => if pipelineDepth ≤ 1 then 0 else (pipelineDepth - 1) * nCount + 1
  | _ => 0

/-- `plugin->get_drain_cycles` -/
def getDrainCycles (mCount pipelineDepth : Nat) : Nat :=
  match plugin.id with
  | .weightStationary => pipelineDepth * mCount
  | .rowStationary => if pipelineDepth ≤ 1 then 0 else (pipelineDepth - 1) * mCount
  | _ => 0

end TuDataflowPlugin

/-! ### The dispatcher -/

structure DispatchState (Mem : Type) where
  tile : TileState Mem
  plugin : TuDataflowPlugin
  totalCycles : Nat := 0
  totalFlops : Nat := 0
  tileCount : Nat := 0

/-- Number of tiles of a dimension. -/
def tileCountOf (bound tile : Nat) : Nat := (bound + tile - 1) / tile

/-- `m_count`, `n_count` and `k_count` -/
def dispatchCount (bound tile i : Nat) : Nat := if (i + 1) * tile ≤ bound then tile else bound - i * tile

/-- The body of the innermost of the three loops over tiles. -/
def dispatchTile (op : TuMmaOp) (pipelineDepth : Nat) (t : MmaTile) (fuel : Nat) (s : DispatchState Mem) :
    Option (DispatchState Mem) :=
  let flops := u64 (s.totalFlops + t.mCount * t.nCount * t.kCount * 2)
  let fill := s.plugin.getFillCycles t.nCount pipelineDepth
  (s.plugin.executeTile x op t fuel s.tile).map fun (tile, plugin, tileCycles) =>
    { tile := tile
      plugin := plugin
      totalCycles := u64 (s.totalCycles + fill + tileCycles + plugin.getDrainCycles t.mCount pipelineDepth)
      totalFlops := flops
      tileCount := u64 (s.tileCount + 1) }

/-- The three loops over the tiles of a multiply, the extent of a tile given by `count`. -/
def overTiles {S : Type} (count : Nat → Nat → Nat → Nat) (M N K tileM tileN tileK : Nat) (body : MmaTile → S → Option S)
    (fuel : Nat) (s : S) : Option S :=
  let mBody mi := fun s =>
    let nBody ni := fun s =>
      let kBody ki := body
        { mStart := mi * tileM, mCount := count M tileM mi
          nStart := ni * tileN, nCount := count N tileN ni
          kStart := ki * tileK, kCount := count K tileK ki }
      forU16 (tileCountOf K tileK) kBody fuel s
    forU16 (tileCountOf N tileN) nBody fuel s
  forU16 (tileCountOf M tileM) mBody fuel s

/-- What `tu_dataflow_execute_mma` leaves and the cycles it returns. -/
structure MmaResult (Mem : Type) where
  o : Mem
  macs : List (Nat × Nat × Nat)
  plugin : TuDataflowPlugin
  cycles : Nat

def tuDataflowExecuteMma (plugin : TuDataflowPlugin) (W A O : TuDataflowTensor)
    (tileM tileN tileK pipelineDepth : UInt16) (fuel : Nat) (o : Mem) : Option (MmaResult Mem) :=
  let M := W.rows.toUInt16.toNat
  let N := A.cols.toUInt16.toNat
  let K := W.cols.toUInt16.toNat
  let op : TuMmaOp := { W := W, A := A, O := O }
  let s : DispatchState Mem := { tile := { o := o, macs := [] }, plugin := plugin.init }
  (overTiles dispatchCount M N K tileM.toNat tileN.toNat tileK.toNat
    (fun t => dispatchTile x op pipelineDepth.toNat t fuel) fuel s).map fun s =>
      { o := s.tile.o
        macs := s.tile.macs
        plugin := { s.plugin with
          totalFlops := u64 (s.plugin.totalFlops + s.totalFlops)
          totalTiles := u64 (s.plugin.totalTiles + s.tileCount)
          totalCycles := u64 (s.plugin.totalCycles + s.totalCycles) }
        cycles := s.totalCycles }

/-! ### The inline tiling -/

/-- `TU_PE_PIPELINE_DEPTH` -/
def tuPePipelineDepth : Nat := 2

/-- The accumulators and the counters of the core that the inline tiling changes. -/
structure InlineState (Mem : Type) where
  tile : TileState Mem
  totalMmaTiles : Nat
  totalMmaFlops : Nat
  estimatedCycles : Nat

/-- Arithmetic of type `int`, taken to wrap around. -/
def i32 (v : Int) : Int := Int.bmod v (2 ^ 32)

/-- The index `row * cols + col` of the inline tiling, in type `int`. -/
def intIndex (cols row col : Nat) : Int := i32 (i32 (row * cols) + col)

/-- The body of the innermost of the loops over tiles. -/
def inlineTile (N K peCols : Nat) (t : MmaTile) (fuel : Nat) (s : InlineState Mem) : Option (InlineState Mem) :=
  (tileLoops x (intIndex K) (intIndex N) (intIndex N) t fuel s.tile).map fun tile =>
    { tile := tile
      totalMmaTiles := u64 (s.totalMmaTiles + 1)
      totalMmaFlops := u64 (s.totalMmaFlops + t.mCount * t.nCount * t.kCount * 2)
      estimatedCycles := u64 (s.estimatedCycles + tuPePipelineDepth * peCols + t.kCount) }

/-- `ml`, `nl` and `kl` -/
def inlineCount (bound tile i : Nat) : Nat := (if (i + 1) * tile < bound then (i + 1) * tile else bound) - i * tile

/-- The path of `tu_mma` without a plugin. -/
def tuMmaInline (M N K peRows peCols : UInt16) (fuel : Nat) (s : InlineState Mem) : Option (InlineState Mem) :=
  overTiles inlineCount M.toNat N.toNat K.toNat peRows.toNat peCols.toNat peCols.toNat
    (fun t => inlineTile x N.toNat K.toNat peCols.toNat t fuel) fuel s

end Tusim
