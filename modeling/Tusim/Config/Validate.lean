import Tusim.Config.Load
import Tusim.Dma.Config

/-!
# Validating a configuration

`tu_config_validate`, section by section in the order of the source, with its messages, and `tu_config_load_string`.  A
check that fails ends the validation.
-/

namespace Tusim.Config

open JsonGrammar Tusim.Json

/-- A check of the validation. -/
def reject (bad : Prop) [Decidable bad] (message : String) : Except String Unit :=
  if bad then .error message else .ok ()

theorem reject_eq_ok {bad : Prop} [Decidable bad] {message : String} : reject bad message = .ok () ↔ ¬bad := by
  unfold reject
  by_cases h : bad <;> simp [h]

/-- A value that is not one of the first codes of an enumeration. -/
def notWithin (last : Int) (code : Int) : Prop := code < 0 ∨ last < code

instance (last code : Int) : Decidable (notWithin last code) := inferInstanceAs (Decidable (_ ∨ _))

/-- A size that is neither a power of two between two bounds. -/
def notPow2Within (lo hi x : UInt32) : Prop := x < lo ∨ hi < x ∨ isPow2 x = false

instance (lo hi x : UInt32) : Decidable (notPow2Within lo hi x) := inferInstanceAs (Decidable (_ ∨ _ ∨ _))

def validateCompute (c : ComputeConfig) : Except String Unit := do
  reject (c.peRows < 1 ∨ 1024 < c.peRows) s!"pe_rows must be [1,1024], got {c.peRows}"
  reject (c.peCols < 1 ∨ 1024 < c.peCols) s!"pe_cols must be [1,1024], got {c.peCols}"
  reject (c.pePipelineDepth < 1 ∨ 16 < c.pePipelineDepth) s!"pe pipeline_depth must be [1,16], got {c.pePipelineDepth}"
  reject (notWithin 2 c.dataflowMode) "dataflow must be weight_stationary, output_stationary, or row_stationary"

def validateSram (c : SramConfig) : Except String Unit := do
  reject (c.wSizeKb = 0 ∨ c.aSizeKb = 0 ∨ c.oSizeKb = 0) "SRAM buffers must be > 0 KB"
  reject (c.bankWidth ≠ 1 ∧ c.bankWidth ≠ 2 ∧ c.bankWidth ≠ 4 ∧ c.bankWidth ≠ 8)
    s!"bank_width must be 1/2/4/8, got {c.bankWidth}"
  reject (c.numBanks < 1 ∨ 1024 < c.numBanks) s!"num_banks must be [1,1024], got {c.numBanks}"
  reject (c.wordsPerCycle < 1 ∨ 255 < c.wordsPerCycle) "SRAM words_per_refill must be [1,255]"
  reject (c.bwWindowCycles < 1 ∨ 1000000 < c.bwWindowCycles) "SRAM refill_window_cycles must be [1,1000000]"
  reject (c.stallPenalty < 1) "SRAM stall_penalty_cycles must be [1,255]"
  reject (notWithin 1 c.wordMetering) "SRAM word_metering must be size_only or address_span"

section

variable {F : Type} (fp : Doubles F)

/-- The bus and the bursts. -/
def validateBursts (c : DmaConfig F) : Except String Unit := do
  reject (notPow2Within 32 1024 c.busWidthBits) s!"dma_bus_width must be power of 2 [32,1024], got {c.busWidthBits}"
  reject (notPow2Within 16 65536 c.maxBurstBytes)
    s!"DMA max_burst_bytes must be power of 2 [16,65536], got {c.maxBurstBytes}"
  reject ((c.readMaxBurstBytes ≠ 0 ∧ notPow2Within 16 65536 c.readMaxBurstBytes) ∨
      (c.writeMaxBurstBytes ≠ 0 ∧ notPow2Within 16 65536 c.writeMaxBurstBytes))
    s!"DMA directional burst bytes must be zero or powers of 2 [16,65536], got {c.readMaxBurstBytes}/{c.writeMaxBurstBytes}"
  reject (1024 < c.burstIssueCycles) s!"DMA burst_issue_cycles must be [0,1024], got {c.burstIssueCycles}"
  reject ((c.readBurstIssueConfigured ∧ 1024 < c.readBurstIssueCycles) ∨
      (c.writeBurstIssueConfigured ∧ 1024 < c.writeBurstIssueCycles))
    s!"DMA directional burst issue cycles must be [0,1024], got {c.readBurstIssueCycles}/{c.writeBurstIssueCycles}"
  reject (notWithin 1 c.burstSegmentation) "DMA burst_segmentation must be aggregate or logical_segments"
  reject (notWithin 1 c.baseLatencyScope) "DMA base_latency_scope must be descriptor or logical_segments"
  reject (notWithin 2 c.payloadScope) "DMA payload_scope must be descriptor, logical_segments, or burst_commands"
  reject (notWithin 1 c.issuePayloadMode) "DMA issue_payload_mode must be serialized or overlapped"
  reject (notWithin 6 c.burstBoundaryMode)
    "DMA burst_boundary_mode must be size_only, sram_address, external_address, both_address, sram_4k, external_4k, or both_4k"

/-- The channels and their arbitration. -/
def validateChannels (c : DmaConfig F) : Except String Unit := do
  reject (c.numChannels < 1 ∨ 8 < c.numChannels) s!"DMA channels must be [1,8], got {c.numChannels}"
  reject (c.maxOutstanding < 1 ∨ 65535 < c.maxOutstanding)
    s!"DMA max_outstanding must be [1,65535], got {c.maxOutstanding}"
  reject (notWithin 1 c.busMode) "DMA bus_topology must be independent or shared_serial"
  reject (notWithin 3 c.arbPolicy)
    "DMA arbitration must be round_robin, strict_priority, aging_priority, or deficit_round_robin"
  reject (c.drrQuantumBytes ≠ 0 ∧ notPow2Within 16 65536 c.drrQuantumBytes)
    "DMA drr_quantum_bytes must be a power of two in [16,65536]"
  reject (notWithin 2 c.drrCostMode) "DMA drr_cost_mode must be useful_bytes, occupied_bytes, or service_cycles"
  reject (c.drrQuantumCycles ≠ 0 ∧ 1048576 < c.drrQuantumCycles) "DMA drr_quantum_cycles must be in [1,1048576]"
  reject (notWithin 1 c.drrServiceMode) "DMA drr_service_mode must be interleaved or work_conserving"
  reject (notWithin 1 c.drrIdlePolicy) "DMA drr_idle_policy must be reset or retain_residual"
  reject (notWithin 1 c.drrCostGranularity) "DMA drr_cost_granularity must be exact or quantum_rounded"
  reject (1024 < c.drrRoundIssueCycles) "DMA drr_round_issue_cycles must be in [0,1024]"
  reject (notWithin 2 c.drrRoundCostMode) "DMA drr_round_cost_mode must be fixed, per_channel, or per_visited_channel"
  reject (1024 < c.drrSelectIssueCycles) "DMA drr_select_issue_cycles must be in [0,1024]"
  reject (8 < c.drrScanWidth ∨ 8 < c.drrRoundScanWidth ∨ 8 < c.drrSelectScanWidth)
    "DMA DRR common/round/select scan widths must be in [0,8]"
  reject ((∃ w ∈ c.drrChannelWeights, w ≠ 0) ∧ ∃ w ∈ c.drrChannelWeights, w = 0)
    "DMA drr_channel_weights must contain 8 values in [1,255]"

/-- The ages of requests and the choice of a channel. -/
def validateAging (c : DmaConfig F) (coreClockGhz : F) : Except String Unit := do
  reject (notWithin 1 c.agingScope) "DMA aging_scope must be submission or queue_head"
  reject (notWithin 1 c.agingMetric) "DMA aging_metric must be grants or cycles"
  reject (c.agingIncrement = 0 ∨ 255 < c.agingIncrement) "DMA aging_increment must be in [1,255]"
  reject (255 < c.agingMaxBoost) "DMA aging_max_boost must be in [0,255]"
  reject (c.agingCycleQuantum = 0 ∨ 1048576 < c.agingCycleQuantum) "DMA aging_cycle_quantum must be in [1,1048576]"
  reject (notWithin 1 c.agingQuantumDomain) "DMA aging_quantum_domain must be core_cycles or physical_ns"
  reject (fp.lt (fp.lit 0) c.agingQuantumNs = false ∨ fp.lt (fp.lit 1048576) c.agingQuantumNs ∨
      (c.agingQuantumDomain = 1 ∧ fp.lt (fp.lit 1048576) (fp.ceil (fp.mul c.agingQuantumNs coreClockGhz))))
    "DMA aging_quantum_ns must convert to [1,1048576] core cycles"
  reject (notWithin 4 c.bindingPolicy)
    "DMA channel_binding must be explicit, round_robin, least_outstanding, least_bytes, or least_projected_cycles"

/-- The rows, the channels and the latencies of the memory. -/
def validateDram (c : DramConfig F) : Except String Unit := do
  reject (notWithin 3 c.rowPolicy) "DRAM row_policy must be legacy, open_page, closed_page, or adaptive_timeout"
  reject (c.channels = 0 ∨ 1024 < c.channels) "DRAM channels must be in [1,1024]"
  reject (notWithin 2 c.addressMapping)
    "DRAM address_mapping must be burst_interleaved, row_interleaved, or xor_interleaved"
  reject (c.addressMapping = 2 ∧ (c.channels = 0 ∨ isPow2 c.channels = false))
    "DRAM xor_interleaved mapping requires a power-of-two channel count"
  reject (c.rowMissPenaltyCycles = 0xFFFFFFFF ∨ c.rowConflictPenaltyCycles = 0xFFFFFFFF ∨
      c.rowOpenTimeoutCycles = 0xFFFFFFFF ∨
      (c.rowPolicy = 3 ∧ ((c.rowTimeoutDomain = 0 ∧ c.rowOpenTimeoutCycles = 0) ∨
        (c.rowTimeoutDomain = 1 ∧ fp.lt (fp.lit 0) c.rowOpenTimeoutNs = false))))
    "DRAM row timing/timeout value is out of range"
  reject (notWithin 1 c.rowTimeoutDomain) "DRAM row_timeout_domain must be core_cycles or physical_ns"
  reject (fp.isfinite c.rowOpenTimeoutNs = false ∨ fp.lt c.rowOpenTimeoutNs (fp.lit 0) ∨
      fp.lt (fp.lit 100000000) c.rowOpenTimeoutNs)
    "DRAM row timeout ns value is out of range"
  reject (notWithin 1 c.latencyDomain) "DRAM latency_domain must be core_cycles or physical_ns"
  reject (¬(fp.le (fp.lit 0) c.latencyRead ∧ fp.le c.latencyRead (fp.lit 100000000)) ∨
      ¬(fp.le (fp.lit 0) c.latencyWrite ∧ fp.le c.latencyWrite (fp.lit 100000000)))
    "DRAM latency value is out of range"
  reject (fp.eq c.coreClockGhz (fp.lit 0) = false ∧
      ¬(fp.lt (fp.lit 0) c.coreClockGhz ∧ fp.le c.coreClockGhz (fp.lit 10)))
    "DRAM core_clock_ghz must be 0 (compatibility 1 GHz) or in (0,10]"

/-- The turnaround, the bursts and the refresh of the memory. -/
def validateDramTiming (c : DramConfig F) : Except String Unit := do
  let trefi : Nat := if c.trefiNs ≠ 0 then c.trefiNs.toNat else 7800
  let mdef : Nat := if c.refreshMaxDeferralNs ≠ 0 then c.refreshMaxDeferralNs.toNat else trefi
  reject (notWithin 5 c.turnaroundMode)
    "DRAM turnaround_mode must be none, fixed, idle_credit, burst_credit, burst_round_credit, or burst_span_credit"
  reject (notWithin 1 c.turnaroundDomain) "DRAM turnaround_domain must be core_cycles or physical_ns"
  reject (fp.isfinite c.readToWriteTurnaround = false ∨ fp.isfinite c.writeToReadTurnaround = false ∨
      fp.lt c.readToWriteTurnaround (fp.lit 0) ∨ fp.lt c.writeToReadTurnaround (fp.lit 0) ∨
      fp.lt (fp.lit 100000000) c.readToWriteTurnaround ∨ fp.lt (fp.lit 100000000) c.writeToReadTurnaround ∨
      (c.turnaroundMode ≠ 0 ∧ fp.eq c.readToWriteTurnaround (fp.lit 0) ∧ fp.eq c.writeToReadTurnaround (fp.lit 0)))
    "DRAM turnaround values must be finite, in range, and nonzero when enabled"
  reject (c.turnaroundMode ≠ 0 ∧ c.turnaroundDomain = 0 ∧ fp.lt c.readToWriteTurnaround (fp.lit 1) ∧
      fp.lt c.writeToReadTurnaround (fp.lit 1))
    "fixed core-cycle DRAM turnaround requires at least one value >= 1"
  reject (c.readBurstBytes = 0xFFFFFFFF ∨ c.writeBurstBytes = 0xFFFFFFFF ∨
      (c.readBurstBytes ≠ 0 ∧ isPow2 c.readBurstBytes = false) ∨
      (c.writeBurstBytes ≠ 0 ∧ isPow2 c.writeBurstBytes = false))
    "DRAM read/write burst bytes must be 0 (preset) or powers of two up to 1048576"
  reject (notWithin 2 c.refreshMode) "DRAM refresh mode must be none, all_bank, or per_bank"
  reject (notWithin 1 c.refreshScheduling) "DRAM refresh scheduling must be fixed or deferred"
  reject (c.refreshRate ≠ 0 ∧ c.refreshRate ≠ 1 ∧ c.refreshRate ≠ 2 ∧ c.refreshRate ≠ 4)
    "DRAM refresh rate must be 0 (default), 1x, 2x, or 4x"
  reject (c.trefiNs = 0xFFFFFFFF ∨ c.trfcNs = 0xFFFFFFFF ∨ c.trfcPbNs = 0xFFFFFFFF ∨
      c.refreshMaxDeferralNs = 0xFFFFFFFF)
    "DRAM refresh timing value is out of range"
  reject (c.refreshMode ≠ 0 ∧ trefi < mdef) "DRAM refresh max_deferral_ns must not exceed trefi_ns"

def validateIcc (c : IccConfig) : Except String Unit := do
  reject (notWithin 2 c.interconnectMode) "interconnect mode must be none, ring, or mesh"
  reject (notWithin 2 c.switchingMode)
    "interconnect switching must be legacy_hop_only, cut_through, or store_and_forward"
  reject (notWithin 1 c.contentionMode) "interconnect contention must be ideal_parallel or shared_link"
  reject (notWithin 1 c.meshRoutingMode) "interconnect mesh_routing must be xy or yx"
  reject (c.linkBytesPerCycle = 0) "interconnect link_bytes_per_cycle must be > 0"
  reject (c.routerLatencyCycles = 0xFFFFFFFF) "interconnect router_latency_cycles is out of range"

def validatePower (c : PowerConfig F) : Except String Unit := do
  reject (notWithin 6 c.techNode) "power tech_node must be auto, 45nm, 28nm, 16nm, 7nm, 5nm, or 3nm"
  reject (¬(fp.le (fp.lit 0) c.clockFreqMhz ∧ fp.le c.clockFreqMhz (fp.lit 10000)))
    "power clock_freq_mhz must be 0 (auto) or in (0,10000]"

def validateCompression (c : CompressionConfig F) : Except String Unit := do
  reject (notWithin 4 c.type) "weight compression type must be none, rle, adaptive_rle, bitmap, or adaptive"
  reject (fp.lt c.rleEpsilon (fp.lit 0)) "compression rle_epsilon must be >= 0"
  reject (c.decoderElementsPerCycle = 0 ∨ c.rleRunsPerCycle = 0 ∨ c.bitmapElementsPerCycle = 0)
    "compression decoder throughput values must be > 0"

def validateSparsity (c : SparsityConfig) : Except String Unit := do
  reject c.unstructured "unstructured sparsity is not implemented"
  reject (c.enabled ∧ c.structured2of4 = false) "enabled sparsity requires structured_2of4=true"
  reject (c.structured2of4 ∧ c.enabled = false) "structured_2of4 requires sparsity enabled"
  reject (c.decoderGroupsPerCycle = 0) "sparsity decoder_groups_per_cycle must be > 0"

/-- `tu_config_validate` -/
def tuConfigValidate (c : TuConfig F) : Except String Unit := do
  validateCompute c.compute
  validateSram c.sram
  validateBursts c.dma
  validateChannels c.dma
  validateAging fp c.dma c.dram.coreClockGhz
  reject (c.isaQueueDepth = 0) "queue_depth must be > 0"
  validateDram fp c.dram
  validateDramTiming fp c.dram
  validateIcc c.icc
  validatePower fp c.power
  validateCompression fp c.compression
  validateSparsity c.sparsity

/-- A text without a readable document, or the message of a check that failed. -/
inductive ConfigError
  | document (fault : JsonFault)
  | rejected (message : String)

def tuConfigLoadString (jsonStr : Text) : Except ConfigError (TuConfig F) :=
  match tuJsonParse fp.round jsonStr with
  | .error fault => .error (.document fault)
  | .ok root =>
    match tuConfigValidate fp (loadConfig fp root) with
    | .error message => .error (.rejected message)
    | .ok _ => .ok (loadConfig fp root)

theorem tuConfigLoadString_eq_ok {jsonStr : Text} {cfg : TuConfig F} :
    tuConfigLoadString fp jsonStr = .ok cfg ↔ ∃ root, tuJsonParse fp.round jsonStr = .ok root ∧
      tuConfigValidate fp cfg = .ok () ∧ cfg = loadConfig fp root := by
  unfold tuConfigLoadString
  constructor
  · intro h
    split at h
    · cases h
    · rename_i root hroot
      split at h
      · cases h
      · rename_i u hvalid
        cases h
        exact ⟨root, hroot, hvalid, rfl⟩
  · rintro ⟨root, hroot, hvalid, rfl⟩
    simp only [hroot, hvalid]

end

end Tusim.Config
