import Tusim.Lib.Word

/-!
# Configuration of the DMA engine

The fields of `tu_dma_engine_t` that only initialisation and the setters write.  `tuDmaInitConfig` is the check
made by `tu_dma_init_config_boundary_aging_policy_drr_cost_service`, with the message printed for each rejection; a
rejected initialisation leaves an engine without channels.  `TuDmaConfig` carries what the check establishes, so
every configuration is one an accepted initialisation (and accepted setters) can produce.
-/

namespace Tusim

/-- `TU_DMA_ENGINE_MAX_CHANNELS` -/
def tuDmaEngineMaxChannels : Nat := 8

inductive TuDmaBusMode where
  | independent | sharedSerial
  deriving DecidableEq, Repr

inductive TuDmaArbPolicy where
  | roundRobin | strictPriority | agingPriority | deficitRoundRobin
  deriving DecidableEq, Repr

inductive TuDmaAgingScope where
  | fromSubmission | fromQueueHead
  deriving DecidableEq, Repr

inductive TuDmaAgingMetric where
  | byMissedGrants | byWaitCycles
  deriving DecidableEq, Repr

inductive TuDmaDrrCostMode where
  | chargeUsefulBytes | chargeOccupiedBytes | chargeServiceCycles
  deriving DecidableEq, Repr

inductive TuDmaDrrServiceMode where
  | interleaved | workConserving
  deriving DecidableEq, Repr

inductive TuDmaDrrIdlePolicy where
  | reset | retainResidual
  deriving DecidableEq, Repr

inductive TuDmaDrrCostGranularity where
  | exact | quantumRounded
  deriving DecidableEq, Repr

inductive TuDmaDrrRoundCostMode where
  | fixed | perChannel | perVisitedChannel
  deriving DecidableEq, Repr

inductive TuDmaBindingPolicy where
  | explicit | roundRobin | leastOutstanding | leastBytes | leastProjectedCycles
  deriving DecidableEq, Repr

inductive TuDmaBurstSegmentation where
  | aggregate | logical
  deriving DecidableEq, Repr

inductive TuDmaBaseLatencyScope where
  | perDescriptor | perLogicalSegment
  deriving DecidableEq, Repr

inductive TuDmaPayloadScope where
  | packedDescriptor | alignLogicalSegment | alignBurstCommand
  deriving DecidableEq, Repr

inductive TuDmaIssuePayloadMode where
  | serialized | overlapped
  deriving DecidableEq, Repr

inductive TuDmaBurstBoundaryMode where
  | sizeOnly | sramAddress | sram4k | external4k | both4k | externalAddress | bothAddress
  deriving DecidableEq, Repr

structure TuDmaConfig where
  asyncMode : Bool
  numChannels : Nat
  /-- `max_depth` of every channel -/
  maxDepth : UInt32
  busMode : TuDmaBusMode := .independent
  arbPolicy : TuDmaArbPolicy := .roundRobin
  agingScope : TuDmaAgingScope := .fromSubmission
  agingMetric : TuDmaAgingMetric := .byMissedGrants
  agingIncrement : Nat := 1
  agingMaxBoost : Nat := 0
  agingCycleQuantum : Nat := 1
  drrQuantumBytes : Nat := 256
  drrQuantumCycles : Nat := 64
  drrCostMode : TuDmaDrrCostMode := .chargeUsefulBytes
  drrServiceMode : TuDmaDrrServiceMode := .interleaved
  drrIdlePolicy : TuDmaDrrIdlePolicy := .reset
  drrCostGranularity : TuDmaDrrCostGranularity := .exact
  drrRoundIssueCycles : Nat := 0
  drrRoundCostMode : TuDmaDrrRoundCostMode := .fixed
  drrSelectIssueCycles : Nat := 0
  drrScanWidth : Nat := 1
  drrRoundScanWidth : Nat := 0
  drrSelectScanWidth : Nat := 0
  drrChannelWeights : Nat → UInt8 := fun _ => 1
  bindingPolicy : TuDmaBindingPolicy := .explicit
  busWidthBytes : Nat := 32
  readMaxBurstBytes : Nat := 64
  writeMaxBurstBytes : Nat := 64
  readBurstIssueCycles : Nat := 0
  writeBurstIssueCycles : Nat := 0
  burstSegmentation : TuDmaBurstSegmentation := .aggregate
  baseLatencyScope : TuDmaBaseLatencyScope := .perDescriptor
  payloadScope : TuDmaPayloadScope := .packedDescriptor
  issuePayloadMode : TuDmaIssuePayloadMode := .serialized
  burstBoundaryMode : TuDmaBurstBoundaryMode := .sizeOnly
  readLatencyCycles : UInt32 := 0
  writeLatencyCycles : UInt32 := 0
  numChannels_pos : 0 < numChannels
  numChannels_le : numChannels ≤ tuDmaEngineMaxChannels
  maxDepth_pos : 0 < maxDepth.toNat
  agingIncrement_pos : 0 < agingIncrement := by decide
  agingIncrement_le : agingIncrement ≤ 255 := by decide
  agingMaxBoost_le : agingMaxBoost ≤ 255 := by decide
  agingCycleQuantum_pos : 0 < agingCycleQuantum := by decide
  drrQuantumBytes_pos : 0 < drrQuantumBytes := by decide
  drrQuantumBytes_le : drrQuantumBytes ≤ 65536 := by decide
  drrQuantumCycles_pos : 0 < drrQuantumCycles := by decide
  drrQuantumCycles_le : drrQuantumCycles ≤ 1048576 := by decide
  busWidthBytes_pos : 0 < busWidthBytes := by decide
  busWidthBytes_le : busWidthBytes ≤ 128 := by decide
  readMaxBurstBytes_pos : 0 < readMaxBurstBytes := by decide
  readMaxBurstBytes_le : readMaxBurstBytes ≤ 65536 := by decide
  writeMaxBurstBytes_pos : 0 < writeMaxBurstBytes := by decide
  writeMaxBurstBytes_le : writeMaxBurstBytes ≤ 65536 := by decide
  readBurstIssueCycles_le : readBurstIssueCycles ≤ 1024 := by decide
  writeBurstIssueCycles_le : writeBurstIssueCycles ≤ 1024 := by decide
  drrRoundIssueCycles_le : drrRoundIssueCycles ≤ 1024 := by decide
  drrSelectIssueCycles_le : drrSelectIssueCycles ≤ 1024 := by decide

/-- The arguments of the initialisation; enumerations arrive as `int`. -/
structure TuDmaInitArgs where
  async : Bool
  numChannels : UInt32
  maxQueueDepth : UInt32
  busMode : Int
  arbPolicy : Int
  agingScope : Int
  agingMetric : Int
  agingIncrement : UInt32
  agingMaxBoost : UInt32
  agingCycleQuantum : UInt32
  drrQuantumBytes : UInt32
  drrCostMode : Int
  drrQuantumCycles : UInt32
  bindingPolicy : Int
  busWidthBits : UInt32
  readLatencyCycles : UInt32
  writeLatencyCycles : UInt32
  maxBurstBytes : UInt32
  readMaxBurstBytes : UInt32
  writeMaxBurstBytes : UInt32
  burstIssueCycles : UInt32
  readBurstIssueCycles : UInt32
  writeBurstIssueCycles : UInt32
  readIssueConfigured : Bool
  writeIssueConfigured : Bool
  burstSegmentation : Int
  baseLatencyScope : Int
  payloadScope : Int
  issuePayloadMode : Int
  burstBoundaryMode : Int

/-- The value of an enumeration given as an `int`, or the message printed for it. -/
def decodeEnum {α : Type} (values : List α) (message : String) (code : Int) : Except String α :=
  if code < 0 then .error s!"DMA: {message} {code}"
  else
    match values[code.toNat]? with
    | some v => .ok v
    | none => .error s!"DMA: {message} {code}"

/-- `x ? x : default` -/
def orDefault (x default : UInt32) : UInt32 := if x = 0 then default else x

theorem orDefault_pos (x : UInt32) {default : UInt32} (h : 0 < default.toNat) : 0 < (orDefault x default).toNat := by
  unfold orDefault
  split
  · exact h
  · rename_i hx
    exact Nat.pos_of_ne_zero fun h0 => hx (UInt32.toNat_inj.1 h0)

def isPow2 (x : UInt32) : Bool := x &&& (x - 1) == 0

/-- A burst size accepted by the initialisation. -/
def burstBytesOk (x : UInt32) : Prop := 16 ≤ x.toNat ∧ x.toNat ≤ 65536 ∧ isPow2 x

instance (x : UInt32) : Decidable (burstBytesOk x) := inferInstanceAs (Decidable (_ ∧ _ ∧ _))

def tuDmaInitConfig (a : TuDmaInitArgs) : Except String TuDmaConfig := do
  let busMode ← decodeEnum [.independent, .sharedSerial] "unsupported bus mode" a.busMode
  let arbPolicy ← decodeEnum [.roundRobin, .strictPriority, .agingPriority, .deficitRoundRobin]
    "unsupported arbitration policy" a.arbPolicy
  let agingScope ← decodeEnum [.fromSubmission, .fromQueueHead] "unsupported aging scope" a.agingScope
  let agingMetric ← decodeEnum [.byMissedGrants, .byWaitCycles] "unsupported aging metric" a.agingMetric
  let agingIncrement := orDefault a.agingIncrement 1
  if hInc : agingIncrement.toNat ≤ 255 then
  if hBoost : a.agingMaxBoost.toNat ≤ 255 then
  let agingCycleQuantum := orDefault a.agingCycleQuantum 1
  if agingCycleQuantum.toNat ≤ 1048576 then
  let drrQuantumBytes := orDefault a.drrQuantumBytes 256
  if hBytes : 16 ≤ drrQuantumBytes.toNat ∧ drrQuantumBytes.toNat ≤ 65536 ∧ isPow2 drrQuantumBytes then
  let drrCostMode ← decodeEnum [.chargeUsefulBytes, .chargeOccupiedBytes, .chargeServiceCycles]
    "unsupported DRR cost mode" a.drrCostMode
  let drrQuantumCycles := orDefault a.drrQuantumCycles 64
  if hCycles : drrQuantumCycles.toNat ≤ 1048576 then
  let bindingPolicy ← decodeEnum
    [.explicit, .roundRobin, .leastOutstanding, .leastBytes, .leastProjectedCycles]
    "unsupported binding policy" a.bindingPolicy
  let burstSegmentation ← decodeEnum [.aggregate, .logical] "unsupported burst segmentation" a.burstSegmentation
  let baseLatencyScope ← decodeEnum [.perDescriptor, .perLogicalSegment] "unsupported base latency scope"
    a.baseLatencyScope
  let payloadScope ← decodeEnum [.packedDescriptor, .alignLogicalSegment, .alignBurstCommand]
    "unsupported payload scope" a.payloadScope
  let issuePayloadMode ← decodeEnum [.serialized, .overlapped] "unsupported issue/payload mode" a.issuePayloadMode
  let burstBoundaryMode ← decodeEnum
    [.sizeOnly, .sramAddress, .sram4k, .external4k, .both4k, .externalAddress, .bothAddress]
    "unsupported burst boundary mode" a.burstBoundaryMode
  let busWidthBits := orDefault a.busWidthBits 256
  if hWidth : 32 ≤ busWidthBits.toNat ∧ busWidthBits.toNat ≤ 1024 ∧ isPow2 busWidthBits then
  let maxBurstBytes := orDefault a.maxBurstBytes 64
  let readMaxBurstBytes := orDefault a.readMaxBurstBytes maxBurstBytes
  let writeMaxBurstBytes := orDefault a.writeMaxBurstBytes maxBurstBytes
  let readBurstIssueCycles := if a.readIssueConfigured then a.readBurstIssueCycles else a.burstIssueCycles
  let writeBurstIssueCycles := if a.writeIssueConfigured then a.writeBurstIssueCycles else a.burstIssueCycles
  if hBurst : burstBytesOk maxBurstBytes ∧ burstBytesOk readMaxBurstBytes ∧ burstBytesOk writeMaxBurstBytes ∧
      a.burstIssueCycles.toNat ≤ 1024 ∧ readBurstIssueCycles.toNat ≤ 1024 ∧
      writeBurstIssueCycles.toNat ≤ 1024 then
  let numChannels := orDefault a.numChannels 3
  let maxDepth := orDefault a.maxQueueDepth 4
  if hChan : numChannels.toNat ≤ tuDmaEngineMaxChannels then
    return {
      asyncMode := a.async, numChannels := numChannels.toNat, maxDepth, busMode, arbPolicy, agingScope, agingMetric,
      agingIncrement := agingIncrement.toNat, agingMaxBoost := a.agingMaxBoost.toNat,
      agingCycleQuantum := agingCycleQuantum.toNat, drrQuantumBytes := drrQuantumBytes.toNat,
      drrQuantumCycles := drrQuantumCycles.toNat, drrCostMode, bindingPolicy,
      busWidthBytes := busWidthBits.toNat / 8, readMaxBurstBytes := readMaxBurstBytes.toNat,
      writeMaxBurstBytes := writeMaxBurstBytes.toNat, readBurstIssueCycles := readBurstIssueCycles.toNat,
      writeBurstIssueCycles := writeBurstIssueCycles.toNat, burstSegmentation, baseLatencyScope, payloadScope,
      issuePayloadMode, burstBoundaryMode, readLatencyCycles := a.readLatencyCycles,
      writeLatencyCycles := a.writeLatencyCycles,
      numChannels_pos := orDefault_pos _ (by decide), numChannels_le := hChan, maxDepth_pos := orDefault_pos _ (by decide),
      agingIncrement_pos := orDefault_pos _ (by decide), agingIncrement_le := hInc, agingMaxBoost_le := hBoost,
      agingCycleQuantum_pos := orDefault_pos _ (by decide),
      drrQuantumBytes_pos := orDefault_pos _ (by decide), drrQuantumBytes_le := hBytes.2.1,
      drrQuantumCycles_pos := orDefault_pos _ (by decide), drrQuantumCycles_le := hCycles,
      busWidthBytes_pos := by omega, busWidthBytes_le := by omega,
      readMaxBurstBytes_pos := Nat.lt_of_lt_of_le (by decide) hBurst.2.1.1, readMaxBurstBytes_le := hBurst.2.1.2.1,
      writeMaxBurstBytes_pos := Nat.lt_of_lt_of_le (by decide) hBurst.2.2.1.1,
      writeMaxBurstBytes_le := hBurst.2.2.1.2.1, readBurstIssueCycles_le := hBurst.2.2.2.2.1,
      writeBurstIssueCycles_le := hBurst.2.2.2.2.2 }
  else .error s!"DMA: channel count {numChannels} exceeds model capacity {tuDmaEngineMaxChannels}"
  else .error s!"DMA: burst bytes must be powers of two in [16,65536] and issue cycles in [0,1024], got {maxBurstBytes}/{readMaxBurstBytes}/{writeMaxBurstBytes} issue={a.burstIssueCycles}/{a.readBurstIssueCycles}/{a.writeBurstIssueCycles}"
  else .error s!"DMA: bus width must be a power of two in [32,1024], got {busWidthBits}"
  else .error s!"DMA: DRR cycle quantum must be in [1,1048576], got {drrQuantumCycles}"
  else .error s!"DMA: DRR quantum must be a power of two in [16,65536], got {drrQuantumBytes}"
  else .error s!"DMA: aging cycle quantum must be in [1,1048576], got {agingCycleQuantum}"
  else .error s!"DMA: aging maximum boost must be in [0,255], got {a.agingMaxBoost}"
  else .error s!"DMA: aging increment must be in [1,255], got {agingIncrement}"

/-- An engine with one channel of depth four, and the defaults for everything else. -/
def TuDmaConfig.single (asyncMode : Bool) : TuDmaConfig :=
  { asyncMode := asyncMode, numChannels := 1, maxDepth := 4, numChannels_pos := by decide, numChannels_le := by decide
    maxDepth_pos := by decide }

end Tusim
