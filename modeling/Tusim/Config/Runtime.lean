import Tusim.Config.Validate
import Tusim.Context.State

/-!
# From a configuration to an initialised unit

`tu_config_to_runtime` and `tu_init_from_config`.  Of the initialisation only the regions and the DMA engine are here: the
tear-down of an earlier state, the settings of the deficit round robin, the command queue and the dataflow registry write
none of their fields.
-/

namespace Tusim.Config

open JsonGrammar Tusim.Json

/-- `tu_runtime_config_t`; its DMA fields are grouped as the initialisation of the engine takes them. -/
structure TuRuntimeConfig where
  sramWSize : UInt32
  sramASize : UInt32
  sramOSize : UInt32
  sramNumBanks : UInt32
  sramBankWidth : UInt32
  sramWordsPerCycle : UInt8
  sramStallPenalty : UInt8
  sramBwWindowCycles : Nat
  sramWordMetering : Int
  dma : TuDmaInitArgs

/-- The regions and the DMA engine after an initialisation.  `maxBurstBytes` is `max_burst_bytes` of an engine that was
accepted. -/
structure TuInitialised where
  rtCfg : TuRuntimeConfig
  sramW : TuCoreRegion
  sramA : TuCoreRegion
  sramO : TuCoreRegion
  dma : Except String TuDmaConfig
  maxBurstBytes : UInt32

section

variable {F : Type} (fp : Doubles F)

/-- A latency of the memory in cycles. -/
def latencyCycles (c : DramConfig F) (latency : F) : UInt32 :=
  let clock := if fp.lt (fp.lit 0) c.coreClockGhz then c.coreClockGhz else fp.lit 1
  fp.toUInt32 (fp.ceil (fp.mul latency (if c.latencyDomain = 1 then clock else fp.lit 1)))

def tuConfigToRuntime (c : TuConfig F) : TuRuntimeConfig where
  sramWSize := c.sram.wSizeKb * 1024
  sramASize := c.sram.aSizeKb * 1024
  sramOSize := c.sram.oSizeKb * 1024
  sramNumBanks := c.sram.numBanks
  sramBankWidth := c.sram.bankWidth
  sramWordsPerCycle := c.sram.wordsPerCycle.toUInt8
  sramStallPenalty := c.sram.stallPenalty
  sramBwWindowCycles := c.sram.bwWindowCycles
  sramWordMetering := c.sram.wordMetering
  dma :=
    { async := c.dma.asyncMode, numChannels := c.dma.numChannels, maxQueueDepth := c.dma.maxOutstanding
      busMode := c.dma.busMode, arbPolicy := c.dma.arbPolicy, agingScope := c.dma.agingScope
      agingMetric := c.dma.agingMetric, agingIncrement := c.dma.agingIncrement, agingMaxBoost := c.dma.agingMaxBoost
      agingCycleQuantum :=
        if c.dma.agingQuantumDomain = 1 then
          fp.toUInt32 (fp.ceil (fp.mul c.dma.agingQuantumNs
            (if fp.lt (fp.lit 0) c.dram.coreClockGhz then c.dram.coreClockGhz else fp.lit 1)))
        else c.dma.agingCycleQuantum
      drrQuantumBytes := orDefault c.dma.drrQuantumBytes 256, drrCostMode := c.dma.drrCostMode
      drrQuantumCycles := orDefault c.dma.drrQuantumCycles 64, bindingPolicy := c.dma.bindingPolicy
      busWidthBits := c.dma.busWidthBits, readLatencyCycles := latencyCycles fp c.dram c.dram.latencyRead
      writeLatencyCycles := latencyCycles fp c.dram c.dram.latencyWrite, maxBurstBytes := c.dma.maxBurstBytes
      readMaxBurstBytes := c.dma.readMaxBurstBytes, writeMaxBurstBytes := c.dma.writeMaxBurstBytes
      burstIssueCycles := c.dma.burstIssueCycles, readBurstIssueCycles := c.dma.readBurstIssueCycles
      writeBurstIssueCycles := c.dma.writeBurstIssueCycles, readIssueConfigured := c.dma.readBurstIssueConfigured
      writeIssueConfigured := c.dma.writeBurstIssueConfigured, burstSegmentation := c.dma.burstSegmentation
      baseLatencyScope := c.dma.baseLatencyScope, payloadScope := c.dma.payloadScope
      issuePayloadMode := c.dma.issuePayloadMode, burstBoundaryMode := c.dma.burstBoundaryMode }

/-- A region of an initialisation: the width of its banks is the constant of `tu_config.h`. -/
def initRegion (cfg : TuRuntimeConfig) (size : UInt32) (name : String) : TuCoreRegion :=
  { tuSramInitRuntime size name cfg.sramNumBanks tuSramBankWidth cfg.sramWordsPerCycle cfg.sramStallPenalty
      cfg.sramBwWindowCycles with wordMetering := cfg.sramWordMetering.toNat }

/-- `tu_init_with_config` behind its check. -/
def initialise (cfg : TuRuntimeConfig) : TuInitialised where
  rtCfg := cfg
  sramW := initRegion cfg cfg.sramWSize "W-buf"
  sramA := initRegion cfg cfg.sramASize "A-buf"
  sramO := initRegion cfg cfg.sramOSize "O-buf"
  dma := tuDmaInitConfig cfg.dma
  maxBurstBytes := orDefault cfg.dma.maxBurstBytes 64

/-- `tu_init_with_config`; a configuration it refuses leaves everything as it was. -/
def tuInitWithConfig (cfg : TuRuntimeConfig) : Option TuInitialised :=
  if cfg.sramWordMetering < 0 ∨ 1 < cfg.sramWordMetering then none else some (initialise cfg)

/-- `tu_init_from_config`; `none` is the return value `-1`. -/
def tuInitFromConfig (c : TuConfig F) : Option TuInitialised :=
  if c.sram.wordMetering < 0 ∨ 1 < c.sram.wordMetering then none else tuInitWithConfig (tuConfigToRuntime fp c)

end

end Tusim.Config
