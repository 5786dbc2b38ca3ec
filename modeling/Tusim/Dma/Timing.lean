import Tusim.Dma.Config
import Tusim.Dma.Descriptor

/-!
# Timing of descriptors

The coarse service time of a descriptor: base latency, burst commands and payload on the bus, and the cost charged for
it by deficit round robin.  All quantities are unsigned 64-bit in the source and are wrapped where the source's
arithmetic can wrap.
-/

namespace Tusim

open Word

section

variable (cfg : TuDmaConfig) (desc : TuDmaDescriptor)

def descriptorBurstBytes : Nat :=
  if desc.direction = .tuToHost then cfg.writeMaxBurstBytes else cfg.readMaxBurstBytes

theorem descriptorBurstBytes_pos : 0 < descriptorBurstBytes cfg desc := by
  unfold descriptorBurstBytes
  split
  · exact cfg.writeMaxBurstBytes_pos
  · exact cfg.readMaxBurstBytes_pos

def ceilDivU64 (value divisor : Nat) : Nat := value / divisor + (if value % divisor != 0 then 1 else 0)

def descriptorLogicalSegmentCount : Nat :=
  if desc.totalBytes = 0 then 0
  else
    match desc.type with
    | .strided2d => (desc.dims 0).toNat
    | .strided3d => (desc.dims 0).toNat * (desc.dims 1).toNat
    | .scatter | .gather => desc.indexCount.toNat
    | _ => 1

def descriptorLogicalSegmentBytes : Nat :=
  match desc.type with
  | .strided2d => desc.elemSize.toNat * (desc.dims 1).toNat
  | .strided3d => desc.elemSize.toNat * (desc.dims 2).toNat
  | .scatter | .gather => desc.indexElemSize.toNat
  | _ => desc.totalBytes.toNat

def descriptorSramBase : Nat :=
  if desc.direction = .tuToHost then desc.srcBase.toNat else desc.dstBase.toNat

def descriptorSramStrides : Fin 3 → UInt32 :=
  if desc.direction = .tuToHost then desc.srcStrides else desc.dstStrides

/-- What one segment contributes: its burst commands and its payload cycles. -/
structure BurstTotals where
  burstCount : Nat := 0
  payloadCycles : Nat := 0
  deriving DecidableEq, Repr

/-- The boundaries a burst command must not cross. -/
structure BurstBounds where
  burstBytes : Nat
  boundSram : Bool
  sramBoundaryBytes : Nat
  boundExternal : Bool
  externalBoundaryBytes : Nat
  burstBytes_pos : 0 < burstBytes
  sramBoundaryBytes_pos : 0 < sramBoundaryBytes
  externalBoundaryBytes_pos : 0 < externalBoundaryBytes

/-- The length of the next burst command of a segment with `bytes` left. -/
def BurstBounds.chunk (b : BurstBounds) (sramAddress externalAddress bytes : Nat) : Nat :=
  let chunk := if bytes < b.burstBytes then bytes else b.burstBytes
  let chunk :=
    if b.boundSram then min chunk (b.sramBoundaryBytes - sramAddress % b.sramBoundaryBytes) else chunk
  if b.boundExternal then min chunk (b.externalBoundaryBytes - externalAddress % b.externalBoundaryBytes) else chunk

theorem BurstBounds.chunk_pos (b : BurstBounds) (sramAddress externalAddress : Nat) {bytes : Nat}
    (h : 0 < bytes) : 0 < b.chunk sramAddress externalAddress bytes := by
  have hb := b.burstBytes_pos
  have hs := Nat.mod_lt sramAddress b.sramBoundaryBytes_pos
  have he := Nat.mod_lt externalAddress b.externalBoundaryBytes_pos
  unfold chunk
  dsimp only
  split <;> split <;> split <;> omega

/-- Cut a segment into burst commands. -/
def addAddressBoundedSegment (b : BurstBounds) (sramAddress externalAddress bytes : Nat) (t : BurstTotals) :
    BurstTotals :=
  if h : 0 < bytes then
    let chunk := b.chunk sramAddress externalAddress bytes
    have := b.chunk_pos sramAddress externalAddress h
    addAddressBoundedSegment b (u64 (sramAddress + chunk)) (u64 (externalAddress + chunk)) (bytes - chunk)
      { burstCount := u64 (t.burstCount + 1),
        payloadCycles := u64 (t.payloadCycles + ceilDivU64 chunk cfg.busWidthBytes) }
  else t
termination_by bytes

/-- The boundaries of the configured mode. -/
def descriptorBurstBounds : BurstBounds :=
  let burstBytes := descriptorBurstBytes cfg desc
  let mode := cfg.burstBoundaryMode
  { burstBytes
    boundSram := mode = .sramAddress || mode = .sram4k || mode = .both4k || mode = .bothAddress
    sramBoundaryBytes := if mode = .sramAddress ∨ mode = .bothAddress then burstBytes else 4096
    boundExternal := mode = .external4k || mode = .both4k || mode = .externalAddress || mode = .bothAddress
    externalBoundaryBytes := if mode = .externalAddress ∨ mode = .bothAddress then burstBytes else 4096
    burstBytes_pos := descriptorBurstBytes_pos cfg desc
    sramBoundaryBytes_pos := by
      split
      · exact descriptorBurstBytes_pos cfg desc
      · decide
    externalBoundaryBytes_pos := by
      split
      · exact descriptorBurstBytes_pos cfg desc
      · decide }

/-- The segments a descriptor is cut into, as SRAM address, external address and length. -/
def descriptorSegments : List (Nat × Nat × Nat) :=
  let segmentBytes := descriptorLogicalSegmentBytes desc
  let base := descriptorSramBase desc
  let strides := descriptorSramStrides desc
  let externalStrides := if desc.direction = .hostToTu then desc.srcStrides else desc.dstStrides
  let externalBase := desc.externalAddress
  match desc.type with
  | .strided2d => (List.range (desc.dims 0).toNat).map fun r =>
      (u64 (base + r * (strides 0).toNat), u64 (externalBase + r * (externalStrides 0).toNat), segmentBytes)
  | .strided3d => (List.range (desc.dims 0).toNat).flatMap fun d => (List.range (desc.dims 1).toNat).map fun r =>
      (u64 (base + d * (strides 1).toNat + r * (strides 0).toNat),
        u64 (externalBase + d * (externalStrides 1).toNat + r * (externalStrides 0).toNat), segmentBytes)
  | .scatter | .gather => (List.range desc.indexCount.toNat).map fun i =>
      ((desc.indexList.elim 0 (· i)).toNat, u64 (externalBase + i * segmentBytes), segmentBytes)
  | .multicast => (List.range desc.multicastCount.toNat).map fun i =>
      ((desc.multicastOffsets.elim 0 (· i)).toNat, externalBase, (desc.dims 0).toNat * desc.elemSize.toNat)
  | _ => [(base, externalBase, desc.totalBytes.toNat)]

def descriptorAddressBoundedTotals : BurstTotals :=
  if desc.totalBytes = 0 ∨ descriptorLogicalSegmentBytes desc = 0 then {}
  else
    (descriptorSegments desc).foldl
      (fun t s => addAddressBoundedSegment cfg (descriptorBurstBounds cfg desc) s.1 s.2.1 s.2.2 t) {}

def descriptorBurstCount : Nat :=
  let burstBytes := descriptorBurstBytes cfg desc
  if desc.totalBytes = 0 then 0
  else if cfg.burstBoundaryMode ≠ .sizeOnly then (descriptorAddressBoundedTotals cfg desc).burstCount
  else if cfg.burstSegmentation ≠ .logical then ceilDivU64 desc.totalBytes.toNat burstBytes
  else
    let segmentBytes := descriptorLogicalSegmentBytes desc
    let segmentCount := descriptorLogicalSegmentCount desc
    if segmentBytes = 0 ∨ segmentCount = 0 then 0
    else u64 (segmentCount * ceilDivU64 segmentBytes burstBytes)

def burstAlignedPayloadCycles (bytes burstBytes : Nat) : Nat :=
  let fullBursts := bytes / burstBytes
  let tailBytes := bytes % burstBytes
  let cycles := u64 (fullBursts * ceilDivU64 burstBytes cfg.busWidthBytes)
  if tailBytes > 0 then u64 (cycles + ceilDivU64 tailBytes cfg.busWidthBytes) else cycles

def descriptorPayloadCycles : Nat :=
  if desc.totalBytes = 0 then 0
  else if cfg.payloadScope = .packedDescriptor then ceilDivU64 desc.totalBytes.toNat cfg.busWidthBytes
  else
    let count := descriptorLogicalSegmentCount desc
    let bytes := descriptorLogicalSegmentBytes desc
    if count = 0 ∨ bytes = 0 then 0
    else if cfg.payloadScope = .alignLogicalSegment then u64 (count * ceilDivU64 bytes cfg.busWidthBytes)
    else
      let burstBytes := descriptorBurstBytes cfg desc
      if cfg.burstBoundaryMode ≠ .sizeOnly then (descriptorAddressBoundedTotals cfg desc).payloadCycles
      else if cfg.burstSegmentation = .logical then u64 (count * burstAlignedPayloadCycles cfg bytes burstBytes)
      else burstAlignedPayloadCycles cfg desc.totalBytes.toNat burstBytes

def descriptorBaseCycles : Nat :=
  let base := if desc.direction = .tuToHost then cfg.writeLatencyCycles.toNat else cfg.readLatencyCycles.toNat
  let count := if cfg.baseLatencyScope = .perLogicalSegment then descriptorLogicalSegmentCount desc else 1
  u64 (base * count)

def descriptorBurstIssueCycles : Nat :=
  if desc.direction = .tuToHost then cfg.writeBurstIssueCycles else cfg.readBurstIssueCycles

def combinePayloadIssueCycles (payloadCycles burstCount issuePerBurst : Nat) : Nat :=
  let issueCycles := u64 (burstCount * issuePerBurst)
  if cfg.issuePayloadMode = .overlapped ∧ burstCount > 0 ∧ issuePerBurst > 0 then
    let remainingIssue := u64 (issueCycles + 2 ^ 64 - issuePerBurst)
    u64 (issuePerBurst + (if payloadCycles > remainingIssue then payloadCycles else remainingIssue))
  else u64 (payloadCycles + issueCycles)

def descriptorTransferCycles : Nat :=
  let payload := descriptorPayloadCycles cfg desc
  let bursts := descriptorBurstCount cfg desc
  let issue := descriptorBurstIssueCycles cfg desc
  u64 (descriptorBaseCycles cfg desc + combinePayloadIssueCycles cfg payload bursts issue)

/-- The quantum of the configured cost mode. -/
def drrQuantum : Nat :=
  if cfg.drrCostMode = .chargeServiceCycles then cfg.drrQuantumCycles else cfg.drrQuantumBytes

def descriptorDrrCost : Nat :=
  let cost :=
    if cfg.drrCostMode = .chargeServiceCycles then descriptorTransferCycles cfg desc
    else if cfg.drrCostMode = .chargeOccupiedBytes then u64 (descriptorPayloadCycles cfg desc * cfg.busWidthBytes)
    else desc.totalBytes.toNat
  if cost = 0 ∨ cfg.drrCostGranularity = .exact then cost
  else
    let quantum := drrQuantum cfg
    if cost > uint64Max - (quantum - 1) then uint64Max else (cost + quantum - 1) / quantum * quantum

end

/-- A mode that cuts bursts at external addresses needs the descriptor to carry one. -/
def externalBoundary (cfg : TuDmaConfig) : Bool :=
  cfg.burstBoundaryMode = .external4k || cfg.burstBoundaryMode = .both4k ||
    cfg.burstBoundaryMode = .externalAddress || cfg.burstBoundaryMode = .bothAddress

end Tusim
