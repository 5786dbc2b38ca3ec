import Tusim.Compute.Multiply
import Tusim.Dma.SyncTransfer
import Tusim.Lib.Blocks
import Tusim.Lib.Run

/-!
# The top level

The synchronous calls of `tu_cmodel.c` on an initialised core: `tu_dma_load_w`, `tu_dma_load_a`, `tu_dma_store_o` and
`tu_mma`.  The core has a DMA engine structure of its own, `g_tu.dma`, besides the engine `g_tu_dma` that does the
transfers; of both only the counters that the calls use are kept.  How the kernels read and write the buffers, and the
expansion of the bias, are parameters.

`mmaCycles` is not in the source: it adds up the cycles of the multiplies.
-/

namespace Tusim

open Blocks Word

/-- The fields of the runtime configuration that the calls depend on, with the engine it configures. -/
structure TuToplevelConfig where
  peRows : UInt16
  peCols : UInt16
  pePipelineDepth : UInt16
  dma : TuDmaConfig
  peRows_ne : peRows ≠ 0
  peCols_ne : peCols ≠ 0

structure TuToplevel where
  cfg : TuToplevelConfig
  initialized : Bool
  sramW : TuSramRegion
  sramA : TuSramRegion
  sramO : TuSramRegion
  host : Nat → UInt8
  dataflow : Option TuDataflowPlugin
  totalDmaBytes : Nat := 0
  totalMmaCalls : Nat := 0
  totalMmaTiles : Nat := 0
  totalMmaFlops : Nat := 0
  estimatedCycles : Nat := 0
  /-- `g_tu.dma.estimated_cycles` -/
  dmaEstimatedCycles : Nat := 0
  /-- `g_tu_dma.total_bytes` -/
  engineTotalBytes : Nat := 0
  /-- `g_tu_dma.total_transfers` -/
  engineTotalTransfers : Nat := 0
  /-- `g_tu_dma.estimated_cycles` -/
  engineEstimatedCycles : Nat := 0
  mmaCycles : Nat := 0

/-! ### Transfers -/

namespace TuToplevel

variable (s : TuToplevel)

/-- The bounds check of the engine; the sum has 32 bits. -/
def exceeds (r : TuSramRegion) (offset bytes : UInt32) : Bool := offset + bytes > r.totalSize

/-- What a transfer leaves of the counters of the engine. -/
def chargeTransfer (direction : TuDmaDirection) (latency offset bytes : UInt32) : TuToplevel :=
  { s with
    engineTotalBytes := u64 (s.engineTotalBytes + bytes.toNat)
    engineTotalTransfers := u64 (s.engineTotalTransfers + 1)
    engineEstimatedCycles := u64 (u64 (s.engineEstimatedCycles + latency.toNat) +
      syncTransferCycles s.cfg.dma direction offset bytes) }

/-- `tu_dma_load`, and the region it leaves. -/
def tuDmaLoad (dst : TuSramRegion) (offset : UInt32) (hostPtr : Nat) (bytes : UInt32) : TuToplevel × TuSramRegion :=
  if exceeds dst offset bytes then (s, dst)
  else
    (s.chargeTransfer .hostToTu s.cfg.dma.readLatencyCycles offset bytes,
      { dst with data := memcpy dst.data offset.toNat (fun i => s.host (hostPtr + i)) bytes.toNat })

/-- `tu_dma_store` -/
def tuDmaStore (src : TuSramRegion) (offset : UInt32) (hostPtr : Nat) (bytes : UInt32) : TuToplevel :=
  if exceeds src offset bytes then s
  else
    { s.chargeTransfer .tuToHost s.cfg.dma.writeLatencyCycles offset bytes with
      host := memcpy s.host hostPtr (fun i => src.data (offset.toNat + i)) bytes.toNat }

/-- The accounting at the end of the three wrappers. -/
def accountTransfer (sizeBytes : UInt32) : TuToplevel :=
  { s with
    totalDmaBytes := u64 (s.totalDmaBytes + sizeBytes.toNat)
    estimatedCycles := u64 (s.estimatedCycles + s.dmaEstimatedCycles)
    dmaEstimatedCycles := 0 }

def tuDmaLoadW (hostPtr : Nat) (tuOffset sizeBytes : UInt32) : TuToplevel :=
  let (s, r) := s.tuDmaLoad s.sramW tuOffset hostPtr sizeBytes
  { s with sramW := r }.accountTransfer sizeBytes

def tuDmaLoadA (hostPtr : Nat) (tuOffset sizeBytes : UInt32) : TuToplevel :=
  let (s, r) := s.tuDmaLoad s.sramA tuOffset hostPtr sizeBytes
  { s with sramA := r }.accountTransfer sizeBytes

def tuDmaStoreO (hostPtr : Nat) (tuOffset sizeBytes : UInt32) : TuToplevel :=
  (s.tuDmaStore s.sramO tuOffset hostPtr sizeBytes).accountTransfer sizeBytes

end TuToplevel

/-! ### Multiplies -/

/-- How the kernels use the bytes of the buffers. -/
structure MmaFormats (R : Type) where
  operands : (w a : Nat → UInt8) → (wOffset aOffset oOffset : UInt32) → MmaOperands R (Nat → UInt8)
  expandBias : (o : Nat → UInt8) → (M N : UInt16) → (oOffset : UInt32) → Nat → UInt8

/-- The cycles of the tiles of the inline tiling. -/
def inlineCycles (M N K peRows peCols : Nat) : Nat :=
  ((mmaTiles M N K peRows peCols peCols).map fun t => tuPePipelineDepth * peCols + t.kCount).sum

/-- A multiply as a client asks for it. -/
structure MmaCall where
  M : UInt16
  N : UInt16
  K : UInt16
  wOffset : UInt32
  aOffset : UInt32
  oOffset : UInt32
  hasBias : Bool

/-- `tu_mma`; `fuel` bounds the tests of each of its loops. -/
def tuMma {R : Type} (fmt : MmaFormats R) (fuel : Nat) (s : TuToplevel) (c : MmaCall) : Option TuToplevel :=
  if !s.initialized then some s
  else
    let s := { s with totalMmaCalls := u64 (s.totalMmaCalls + 1) }
    let x := fmt.operands (tuSramRawPtr s.sramW) (tuSramRawPtr s.sramA) c.wOffset c.aOffset c.oOffset
    let o := if c.hasBias then fmt.expandBias (tuSramRawPtr s.sramO) c.M c.N c.oOffset else tuSramRawPtr s.sramO
    match s.dataflow with
    | some plugin =>
      (tuDataflowExecuteMma x plugin (denseTensor c.M c.K 2) (denseTensor c.K c.N 2) (denseTensor c.M c.N 4)
        s.cfg.peRows s.cfg.peCols s.cfg.peCols s.cfg.pePipelineDepth fuel o).map fun r =>
          { s with
            sramO := s.sramO.setRaw r.o
            totalMmaTiles := u64 (s.totalMmaTiles + r.plugin.totalTiles)
            totalMmaFlops := u64 (s.totalMmaFlops + r.plugin.totalFlops)
            estimatedCycles := u64 (s.estimatedCycles + r.cycles)
            dataflow := some { r.plugin with totalTiles := 0, totalFlops := 0 }
            mmaCycles := s.mmaCycles + r.cycles }
    | none =>
      (tuMmaInline x c.M c.N c.K s.cfg.peRows s.cfg.peCols fuel
        { tile := { o := o, macs := [] }
          totalMmaTiles := s.totalMmaTiles
          totalMmaFlops := s.totalMmaFlops
          estimatedCycles := s.estimatedCycles }).map fun r =>
          { s with
            sramO := s.sramO.setRaw r.tile.o
            totalMmaTiles := r.totalMmaTiles
            totalMmaFlops := r.totalMmaFlops
            estimatedCycles := r.estimatedCycles
            mmaCycles := s.mmaCycles +
              inlineCycles c.M.toNat c.N.toNat c.K.toNat s.cfg.peRows.toNat s.cfg.peCols.toNat }

/-! ### Runs -/

inductive TopCall
  | loadW (hostPtr : Nat) (tuOffset sizeBytes : UInt32)
  | loadA (hostPtr : Nat) (tuOffset sizeBytes : UInt32)
  | storeO (hostPtr : Nat) (tuOffset sizeBytes : UInt32)
  | mma (c : MmaCall)

/-- One call; the loops of a multiply have 16-bit counters. -/
def TuToplevel.step {R : Type} (fmt : MmaFormats R) (s : TuToplevel) (call : TopCall) : TuToplevel :=
  match call with
  | .loadW hostPtr tuOffset sizeBytes => s.tuDmaLoadW hostPtr tuOffset sizeBytes
  | .loadA hostPtr tuOffset sizeBytes => s.tuDmaLoadA hostPtr tuOffset sizeBytes
  | .storeO hostPtr tuOffset sizeBytes => s.tuDmaStoreO hostPtr tuOffset sizeBytes
  | .mma c => (tuMma fmt (2 ^ 16) s c).getD s

/-- A core right after initialisation: the counters of the core and of the engine are zero. -/
def TuToplevel.fresh (cfg : TuToplevelConfig) (sramW sramA sramO : TuSramRegion) (host : Nat → UInt8)
    (dataflow : Option TuDataflowPlugin) : TuToplevel :=
  { cfg := cfg, initialized := true, sramW := sramW, sramA := sramA, sramO := sramO, host := host, dataflow := dataflow }

end Tusim
