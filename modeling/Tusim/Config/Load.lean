import Tusim.Json.Reader

/-!
# Loading a configuration

`tu_config_t` by sections, with the defaults of `tu_config_default`, and `tu_config_load_string`.  Only the fields that
the validation or the runtime configuration reads are here; the loader sets the others without any effect on these.
-/

/-!
### Reading values from a JSON document

`tu_json_get` and the conversions of the reader, and the helpers of the configuration loader that read one optional
value.  A pointer that may be `NULL` is an `Option`.  Doubles are a parameter (`Doubles`), with the few laws of their
arithmetic that the configuration relies on.
-/

namespace Tusim.Config

open JsonGrammar Tusim.Json

/-- Doubles with the operations of the configuration.  `round` is the double nearest to a number, given its sign; a whole
number below `2^53` is converted exactly. -/
structure Doubles (F : Type) where
  round : Bool → Rat → F
  toInt64 : F → Int
  toUInt32 : F → UInt32
  ofInt64 : Int → F
  lt : F → F → Bool
  le : F → F → Bool
  eq : F → F → Bool
  mul : F → F → F
  ceil : F → F
  isfinite : F → Bool
  toInt64_round : ∀ (negative : Bool) (n : Nat), n < 2 ^ 53 →
    toInt64 (round negative n) = if negative then -(n : Int) else (n : Int)
  lt_round : ∀ m n : Nat, m < 2 ^ 53 → n < 2 ^ 53 → lt (round false m) (round false n) = decide (m < n)
  eq_round : ∀ (negative : Bool) (m n : Nat), m < 2 ^ 53 → n < 2 ^ 53 →
    eq (round negative m) (round false n) = if negative then decide (m = 0 ∧ n = 0) else decide (m = n)
  mul_nonneg : ∀ a b, lt (round false 0) a → lt (round false 0) b → le (round false 0) (mul a b)
  ceil_nonneg : ∀ a, le (round false 0) a → le (round false 0) (ceil a)
  toUInt32_le : ∀ a (n : Nat), n < 2 ^ 32 → le (round false 0) a → lt (round false n) a = false → (toUInt32 a).toNat ≤ n

/-- A literal of the source. -/
def Doubles.lit {F : Type} (fp : Doubles F) (q : Rat) : F := fp.round false q

/-- The bytes of a name. -/
def name (s : String) : Text := bytes s.toList

/-- What `strcmp` sees of a string: the bytes before the first zero. -/
def cString (s : JsonString) : Text := s.data.takeWhile (· ≠ 0)

section

variable {F : Type} (fp : Doubles F)

/-- `memcmp` of a name with a key of the same length. -/
def keyMatches (s : JsonString) (key : String) : Bool :=
  s.len.toNat = (name key).length && s.data.take (name key).length = name key

def tuJsonGet (obj : Option (TuJsonValue F)) (key : String) : Option (TuJsonValue F) :=
  match obj with
  | some (.object pairs) => (pairs.find? fun p => keyMatches p.1 key).map Prod.snd
  | _ => none

def tuJsonAsBool : TuJsonValue F → Bool
  | .bool b => b
  | .int v => v ≠ 0
  | _ => false

def tuJsonAsInt : TuJsonValue F → Int
  | .int v => v
  | .double x => fp.toInt64 x
  | .bool b => if b then 1 else 0
  | _ => 0

def parseOptInt64 (obj : Option (TuJsonValue F)) (key : String) : Option Int :=
  match tuJsonGet obj key with
  | some (.int v) => some (tuJsonAsInt fp (.int v))
  | some (.double x) => some (tuJsonAsInt fp (.double x))
  | some (.bool b) => some (tuJsonAsInt fp (.bool b))
  | _ => none

def parseOptUint16 (obj : Option (TuJsonValue F)) (key : String) (dflt : UInt16) : Option UInt16 :=
  let stored (iv : Int) : UInt16 := if iv < 1 ∨ 65535 < iv then dflt else UInt16.ofInt iv
  match tuJsonGet obj key with
  | some (.int v) => some (stored (tuJsonAsInt fp (.int v)))
  | some (.double x) => some (stored (tuJsonAsInt fp (.double x)))
  | _ => none

def parseOptDouble (obj : Option (TuJsonValue F)) (key : String) : Option F :=
  match tuJsonGet obj key with
  | some (.double x) => some x
  | some (.int v) => some (fp.ofInt64 v)
  | _ => none

def parseOptBool (obj : Option (TuJsonValue F)) (key : String) : Option Bool := (tuJsonGet obj key).map tuJsonAsBool

/-- The string under a key, as a C string. -/
def optString (obj : Option (TuJsonValue F)) (key : String) : Option Text :=
  match tuJsonGet obj key with
  | some (.string s) => some (cString s)
  | _ => none

/-- An integer under a key that must be written as one; `-1` stands for anything else. -/
def optWritten (obj : Option (TuJsonValue F)) (key : String) : Option Int :=
  (tuJsonGet obj key).map fun v =>
    match v with
    | .int v => v
    | _ => -1

/-- The number of a name in a list, or `-1`. -/
def parseStr (names : List String) (s : Text) : Int :=
  match names.findIdx? fun n => name n = s with
  | some i => i
  | none => -1

/-- The number of the name under a key. -/
def optName (names : List String) (obj : Option (TuJsonValue F)) (key : String) : Option Int :=
  (optString obj key).map (parseStr names)

/-- A value between two bounds, or the value that stands for one outside. -/
def inRange (lo hi : Int) (outside : UInt32) (iv : Int) : UInt32 :=
  if lo ≤ iv ∧ iv ≤ hi then UInt32.ofInt iv else outside

end

end Tusim.Config

namespace Tusim.Config

open JsonGrammar Tusim.Json

/-! ### The sections -/

structure ComputeConfig where
  peRows : UInt16 := 16
  peCols : UInt16 := 16
  pePipelineDepth : UInt16 := 2
  dataflowMode : Int := 0

structure SramConfig where
  wSizeKb : UInt32 := 128
  aSizeKb : UInt32 := 64
  oSizeKb : UInt32 := 64
  numBanks : UInt32 := 32
  bankWidth : UInt32 := 4
  wordsPerCycle : UInt32 := 1
  stallPenalty : UInt8 := 2
  bwWindowCycles : Nat := 4
  wordMetering : Int := 0

structure DramConfig (F : Type) where
  channels : UInt32
  rowPolicy : Int
  addressMapping : Int
  rowMissPenaltyCycles : UInt32
  rowConflictPenaltyCycles : UInt32
  rowOpenTimeoutCycles : UInt32
  rowOpenTimeoutNs : F
  rowTimeoutDomain : Int
  latencyRead : F
  latencyWrite : F
  latencyDomain : Int
  coreClockGhz : F
  turnaroundMode : Int
  turnaroundDomain : Int
  readToWriteTurnaround : F
  writeToReadTurnaround : F
  readBurstBytes : UInt32
  writeBurstBytes : UInt32
  refreshMode : Int
  refreshScheduling : Int
  refreshRate : UInt32
  trefiNs : UInt32
  trfcNs : UInt32
  trfcPbNs : UInt32
  refreshMaxDeferralNs : UInt32

structure DmaConfig (F : Type) where
  busWidthBits : UInt32 := 256
  maxBurstBytes : UInt32 := 64
  readMaxBurstBytes : UInt32 := 0
  writeMaxBurstBytes : UInt32 := 0
  burstIssueCycles : UInt32 := 0
  readBurstIssueCycles : UInt32 := 0
  writeBurstIssueCycles : UInt32 := 0
  readBurstIssueConfigured : Bool := false
  writeBurstIssueConfigured : Bool := false
  burstSegmentation : Int := 0
  baseLatencyScope : Int := 0
  payloadScope : Int := 0
  issuePayloadMode : Int := 0
  burstBoundaryMode : Int := 0
  numChannels : UInt32 := 3
  busMode : Int := 0
  arbPolicy : Int := 0
  drrQuantumBytes : UInt32 := 256
  drrQuantumCycles : UInt32 := 64
  drrCostMode : Int := 0
  drrServiceMode : Int := 0
  drrIdlePolicy : Int := 0
  drrCostGranularity : Int := 0
  drrRoundIssueCycles : UInt32 := 0
  drrRoundCostMode : Int := 0
  drrSelectIssueCycles : UInt32 := 0
  drrScanWidth : UInt32 := 1
  drrRoundScanWidth : UInt32 := 0
  drrSelectScanWidth : UInt32 := 0
  drrChannelWeights : List UInt8 := List.replicate 8 1
  agingScope : Int := 0
  agingMetric : Int := 0
  agingIncrement : UInt32 := 1
  agingMaxBoost : UInt32 := 0
  agingCycleQuantum : UInt32 := 1
  agingQuantumDomain : Int := 0
  agingQuantumNs : F
  bindingPolicy : Int := 0
  maxOutstanding : UInt32 := 4
  asyncMode : Bool := false

structure CompressionConfig (F : Type) where
  type : Int := 0
  rleEpsilon : F
  decoderElementsPerCycle : UInt32 := 1
  rleRunsPerCycle : UInt32 := 1
  bitmapElementsPerCycle : UInt32 := 1

structure IccConfig where
  interconnectMode : Int := 0
  switchingMode : Int := 0
  contentionMode : Int := 0
  meshRoutingMode : Int := 0
  linkBytesPerCycle : UInt32 := 16
  routerLatencyCycles : UInt32 := 5

structure PowerConfig (F : Type) where
  techNode : Int := 0
  clockFreqMhz : F

structure SparsityConfig where
  enabled : Bool := false
  structured2of4 : Bool := false
  unstructured : Bool := false
  decoderGroupsPerCycle : UInt32 := 1

/-- `tu_config_t` -/
structure TuConfig (F : Type) where
  compute : ComputeConfig
  sram : SramConfig
  dram : DramConfig F
  dma : DmaConfig F
  compression : CompressionConfig F
  isaQueueDepth : UInt32
  icc : IccConfig
  power : PowerConfig F
  sparsity : SparsityConfig

section

variable {F : Type} (fp : Doubles F)

def tuConfigDefault : TuConfig F where
  compute := {}
  sram := {}
  dram :=
    { channels := 8, rowPolicy := 0, addressMapping := 0, rowMissPenaltyCycles := 10, rowConflictPenaltyCycles := 0
      rowOpenTimeoutCycles := 100, rowOpenTimeoutNs := fp.lit 100, rowTimeoutDomain := 0, latencyRead := fp.lit 50
      latencyWrite := fp.lit 50, latencyDomain := 0, coreClockGhz := fp.lit 1, turnaroundMode := 0
      turnaroundDomain := 0, readToWriteTurnaround := fp.lit 0, writeToReadTurnaround := fp.lit 0, readBurstBytes := 64
      writeBurstBytes := 64, refreshMode := 0, refreshScheduling := 0, refreshRate := 1, trefiNs := 7800, trfcNs := 350
      trfcPbNs := 90, refreshMaxDeferralNs := 7800 }
  dma := { agingQuantumNs := fp.lit 1 }
  compression := { rleEpsilon := fp.lit 0 }
  isaQueueDepth := 16
  icc := {}
  power := { clockFreqMhz := fp.lit 0 }
  sparsity := {}

/-! ### The loader -/

def loadCompute (tu : Option (TuJsonValue F)) (c : ComputeConfig) : ComputeConfig :=
  let pe := tuJsonGet (tuJsonGet tu "compute") "pe_array"
  { peRows := (parseOptUint16 fp pe "rows" 16).getD c.peRows
    peCols := (parseOptUint16 fp pe "cols" 16).getD c.peCols
    pePipelineDepth := ((parseOptInt64 fp pe "pipeline_depth").map fun iv =>
      if 1 ≤ iv ∧ iv ≤ 16 then UInt16.ofInt iv else 0).getD c.pePipelineDepth
    dataflowMode := (optName ["weight_stationary", "output_stationary", "row_stationary"] pe "dataflow").getD
      c.dataflowMode }

/-- `memory.sram` and `memory.banking` -/
def loadSram (tu : Option (TuJsonValue F)) (c : SramConfig) : SramConfig :=
  let sram := tuJsonGet (tuJsonGet tu "memory") "sram"
  let bank := tuJsonGet (tuJsonGet tu "memory") "banking"
  { wSizeKb := ((parseOptInt64 fp sram "w_buffer_kb").map UInt32.ofInt).getD c.wSizeKb
    aSizeKb := ((parseOptInt64 fp sram "a_buffer_kb").map UInt32.ofInt).getD c.aSizeKb
    oSizeKb := ((parseOptInt64 fp sram "o_buffer_kb").map UInt32.ofInt).getD c.oSizeKb
    numBanks := ((parseOptInt64 fp bank "banks").map UInt32.ofInt).getD c.numBanks
    bankWidth := ((parseOptInt64 fp bank "bank_width_bytes").map UInt32.ofInt).getD c.bankWidth
    wordsPerCycle := ((parseOptInt64 fp bank "words_per_refill").map (inRange 1 255 0)).getD c.wordsPerCycle
    bwWindowCycles := ((parseOptInt64 fp bank "refill_window_cycles").map fun iv =>
      if 1 ≤ iv ∧ iv ≤ 1000000 then iv.toNat else 0).getD c.bwWindowCycles
    stallPenalty := ((parseOptInt64 fp bank "stall_penalty_cycles").map fun iv =>
      if 1 ≤ iv ∧ iv ≤ 255 then UInt8.ofInt iv else 0).getD c.stallPenalty
    wordMetering := ((tuJsonGet bank "word_metering").map fun v =>
      match v with
      | .string s => parseStr ["size_only", "address_span"] (cString s)
      | _ => -1).getD c.wordMetering }

/-- `memory.latency` and `memory.dram` -/
def loadDram (tu : Option (TuJsonValue F)) (c : DramConfig F) : DramConfig F :=
  let lat := tuJsonGet (tuJsonGet tu "memory") "latency"
  let dram := tuJsonGet (tuJsonGet tu "memory") "dram"
  let rf := tuJsonGet dram "refresh"
  let penalty := inRange 0 1000000 0xFFFFFFFF
  let refresh := inRange 0 100000000 0xFFFFFFFF
  { latencyRead := (parseOptDouble fp lat "dram_read").getD c.latencyRead
    latencyWrite := (parseOptDouble fp lat "dram_write").getD c.latencyWrite
    coreClockGhz := ((parseOptDouble fp dram "core_clock_ghz").map fun x =>
      if fp.lt (fp.lit 0) x && fp.le x (fp.lit 10) then x else fp.round true 1).getD c.coreClockGhz
    channels := ((parseOptInt64 fp dram "channels").map (inRange 1 1024 0)).getD c.channels
    rowPolicy := (optName ["legacy", "open_page", "closed_page", "adaptive_timeout"] dram "row_policy").getD c.rowPolicy
    addressMapping := (optName ["burst_interleaved", "row_interleaved", "xor_interleaved"] dram "address_mapping").getD
      c.addressMapping
    rowMissPenaltyCycles := ((parseOptInt64 fp dram "row_miss_penalty_cycles").map penalty).getD c.rowMissPenaltyCycles
    rowConflictPenaltyCycles := ((parseOptInt64 fp dram "row_conflict_penalty_cycles").map penalty).getD
      c.rowConflictPenaltyCycles
    rowOpenTimeoutCycles := ((parseOptInt64 fp dram "row_open_timeout_cycles").map penalty).getD c.rowOpenTimeoutCycles
    rowOpenTimeoutNs := (parseOptDouble fp dram "row_open_timeout_ns").getD c.rowOpenTimeoutNs
    rowTimeoutDomain := (optName ["core_cycles", "physical_ns"] dram "row_timeout_domain").getD c.rowTimeoutDomain
    latencyDomain := (optName ["core_cycles", "physical_ns"] dram "latency_domain").getD c.latencyDomain
    turnaroundMode := (optName ["none", "fixed", "idle_credit", "burst_credit", "burst_round_credit",
      "burst_span_credit"] dram "turnaround_mode").getD c.turnaroundMode
    turnaroundDomain := (optName ["core_cycles", "physical_ns"] dram "turnaround_domain").getD c.turnaroundDomain
    readToWriteTurnaround := (parseOptDouble fp dram "read_to_write_turnaround").getD c.readToWriteTurnaround
    writeToReadTurnaround := (parseOptDouble fp dram "write_to_read_turnaround").getD c.writeToReadTurnaround
    readBurstBytes := ((parseOptInt64 fp dram "read_burst_bytes").map (inRange 0 1048576 0xFFFFFFFF)).getD
      c.readBurstBytes
    writeBurstBytes := ((parseOptInt64 fp dram "write_burst_bytes").map (inRange 0 1048576 0xFFFFFFFF)).getD
      c.writeBurstBytes
    refreshMode := (optName ["none", "all_bank", "per_bank"] rf "mode").getD c.refreshMode
    refreshScheduling := (optName ["fixed", "deferred"] rf "scheduling").getD c.refreshScheduling
    refreshRate := ((parseOptInt64 fp rf "rate").map (inRange 0 4 0xFFFFFFFF)).getD c.refreshRate
    trefiNs := ((parseOptInt64 fp rf "trefi_ns").map refresh).getD c.trefiNs
    trfcNs := ((parseOptInt64 fp rf "trfc_ns").map refresh).getD c.trfcNs
    trfcPbNs := ((parseOptInt64 fp rf "trfc_pb_ns").map refresh).getD c.trfcPbNs
    refreshMaxDeferralNs := ((parseOptInt64 fp rf "max_deferral_ns").map refresh).getD c.refreshMaxDeferralNs }

/-- `drr_channel_weights`: eight integers from 1 to 255, or a first weight of zero. -/
def loadWeights (v : TuJsonValue F) (weights : List UInt8) : List UInt8 :=
  let written : TuJsonValue F → Int := fun w =>
    match w with
    | .int v => v
    | _ => 0
  match v with
  | .array items =>
    if items.length = 8 ∧ ∀ w ∈ items, 1 ≤ written w ∧ written w ≤ 255 then items.map fun w => UInt8.ofInt (written w)
    else weights.set 0 0
  | _ => weights.set 0 0

def loadDma (tu : Option (TuJsonValue F)) (c : DmaConfig F) : DmaConfig F :=
  let d := tuJsonGet tu "dma"
  let issue := fun iv : Int => if iv < 0 ∨ 1024 < iv then (1025 : UInt32) else UInt32.ofInt iv
  let width := fun iv : Int => if iv < 0 ∨ 8 < iv then (9 : UInt32) else UInt32.ofInt iv
  { busWidthBits := ((parseOptInt64 fp d "bus_width_bits").map UInt32.ofInt).getD c.busWidthBits
    maxBurstBytes := ((parseOptInt64 fp d "max_burst_bytes").map UInt32.ofInt).getD c.maxBurstBytes
    readMaxBurstBytes := ((parseOptInt64 fp d "read_max_burst_bytes").map UInt32.ofInt).getD c.readMaxBurstBytes
    writeMaxBurstBytes := ((parseOptInt64 fp d "write_max_burst_bytes").map UInt32.ofInt).getD c.writeMaxBurstBytes
    burstIssueCycles := ((parseOptInt64 fp d "burst_issue_cycles").map UInt32.ofInt).getD c.burstIssueCycles
    readBurstIssueCycles := ((parseOptInt64 fp d "read_burst_issue_cycles").map UInt32.ofInt).getD
      c.readBurstIssueCycles
    writeBurstIssueCycles := ((parseOptInt64 fp d "write_burst_issue_cycles").map UInt32.ofInt).getD
      c.writeBurstIssueCycles
    readBurstIssueConfigured := (parseOptInt64 fp d "read_burst_issue_cycles").isSome || c.readBurstIssueConfigured
    writeBurstIssueConfigured := (parseOptInt64 fp d "write_burst_issue_cycles").isSome || c.writeBurstIssueConfigured
    burstSegmentation := (optName ["aggregate", "logical_segments"] d "burst_segmentation").getD c.burstSegmentation
    baseLatencyScope := (optName ["descriptor", "logical_segments"] d "base_latency_scope").getD c.baseLatencyScope
    payloadScope := (optName ["descriptor", "logical_segments", "burst_commands"] d "payload_scope").getD c.payloadScope
    issuePayloadMode := (optName ["serialized", "overlapped"] d "issue_payload_mode").getD c.issuePayloadMode
    burstBoundaryMode := (optName ["size_only", "sram_address", "sram_4k", "external_4k", "both_4k", "external_address",
      "both_address"] d "burst_boundary_mode").getD c.burstBoundaryMode
    numChannels := ((parseOptInt64 fp d "channels").map UInt32.ofInt).getD c.numChannels
    busMode := (optName ["independent", "shared_serial"] d "bus_topology").getD c.busMode
    arbPolicy := (optName ["round_robin", "strict_priority", "aging_priority", "deficit_round_robin"] d
      "arbitration").getD c.arbPolicy
    drrQuantumBytes := ((parseOptInt64 fp d "drr_quantum_bytes").map UInt32.ofInt).getD c.drrQuantumBytes
    drrQuantumCycles := ((parseOptInt64 fp d "drr_quantum_cycles").map UInt32.ofInt).getD c.drrQuantumCycles
    drrCostMode := (optName ["useful_bytes", "occupied_bytes", "service_cycles"] d "drr_cost_mode").getD c.drrCostMode
    drrServiceMode := (optName ["interleaved", "work_conserving"] d "drr_service_mode").getD c.drrServiceMode
    drrIdlePolicy := (optName ["reset", "retain_residual"] d "drr_idle_policy").getD c.drrIdlePolicy
    drrCostGranularity := (optName ["exact", "quantum_rounded"] d "drr_cost_granularity").getD c.drrCostGranularity
    drrRoundIssueCycles := ((parseOptInt64 fp d "drr_round_issue_cycles").map issue).getD c.drrRoundIssueCycles
    drrRoundCostMode := (optName ["fixed", "per_channel", "per_visited_channel"] d "drr_round_cost_mode").getD
      c.drrRoundCostMode
    drrSelectIssueCycles := ((parseOptInt64 fp d "drr_select_issue_cycles").map issue).getD c.drrSelectIssueCycles
    drrScanWidth := ((optWritten d "drr_scan_width").map width).getD c.drrScanWidth
    drrRoundScanWidth := ((optWritten d "drr_round_scan_width").map width).getD c.drrRoundScanWidth
    drrSelectScanWidth := ((optWritten d "drr_select_scan_width").map width).getD c.drrSelectScanWidth
    drrChannelWeights := (tuJsonGet d "drr_channel_weights").elim c.drrChannelWeights fun v =>
      loadWeights v c.drrChannelWeights
    agingScope := (optName ["submission", "queue_head"] d "aging_scope").getD c.agingScope
    agingMetric := (optName ["grants", "cycles"] d "aging_metric").getD c.agingMetric
    agingIncrement := ((parseOptInt64 fp d "aging_increment").map UInt32.ofInt).getD c.agingIncrement
    agingMaxBoost := ((parseOptInt64 fp d "aging_max_boost").map UInt32.ofInt).getD c.agingMaxBoost
    agingCycleQuantum := ((parseOptInt64 fp d "aging_cycle_quantum").map UInt32.ofInt).getD c.agingCycleQuantum
    agingQuantumDomain := (optName ["core_cycles", "physical_ns"] d "aging_quantum_domain").getD c.agingQuantumDomain
    agingQuantumNs := (parseOptDouble fp d "aging_quantum_ns").getD c.agingQuantumNs
    bindingPolicy := (optName ["explicit", "round_robin", "least_outstanding", "least_bytes",
      "least_projected_cycles"] d "channel_binding").getD c.bindingPolicy
    maxOutstanding := ((parseOptInt64 fp d "max_outstanding").map UInt32.ofInt).getD c.maxOutstanding
    asyncMode := (parseOptBool d "async_mode").getD c.asyncMode }

def loadCompression (tu : Option (TuJsonValue F)) (c : CompressionConfig F) : CompressionConfig F :=
  let wc := tuJsonGet tu "weight_compression"
  let throughput := inRange 1 1048576 0
  { type := (optName ["none", "rle", "adaptive_rle", "bitmap", "adaptive"] wc "type").getD c.type
    rleEpsilon := (parseOptDouble fp wc "rle_epsilon").getD c.rleEpsilon
    decoderElementsPerCycle := ((parseOptInt64 fp wc "decoder_elements_per_cycle").map throughput).getD
      c.decoderElementsPerCycle
    rleRunsPerCycle := ((parseOptInt64 fp wc "rle_runs_per_cycle").map throughput).getD c.rleRunsPerCycle
    bitmapElementsPerCycle := ((parseOptInt64 fp wc "bitmap_elements_per_cycle").map throughput).getD
      c.bitmapElementsPerCycle }

/-- `multicore` -/
def loadIcc (tu : Option (TuJsonValue F)) (c : IccConfig) : IccConfig :=
  let mc := tuJsonGet tu "multicore"
  { interconnectMode := (optName ["none", "ring", "mesh"] mc "interconnect").getD c.interconnectMode
    switchingMode := (optName ["legacy_hop_only", "cut_through", "store_and_forward"] mc "switching").getD
      c.switchingMode
    contentionMode := (optName ["ideal_parallel", "shared_link"] mc "contention").getD c.contentionMode
    meshRoutingMode := (optName ["xy", "yx"] mc "mesh_routing").getD c.meshRoutingMode
    linkBytesPerCycle := ((parseOptInt64 fp mc "link_bytes_per_cycle").map (inRange 1 1048576 0)).getD
      c.linkBytesPerCycle
    routerLatencyCycles := ((parseOptInt64 fp mc "router_latency_cycles").map (inRange 0 1048576 0xFFFFFFFF)).getD
      c.routerLatencyCycles }

def loadPower (tu : Option (TuJsonValue F)) (c : PowerConfig F) : PowerConfig F :=
  let power := tuJsonGet tu "power"
  { techNode := (optName ["auto", "45nm", "28nm", "16nm", "7nm", "5nm", "3nm"] power "tech_node").getD c.techNode
    clockFreqMhz := (parseOptDouble fp power "clock_freq_mhz").getD c.clockFreqMhz }

def loadSparsity (tu : Option (TuJsonValue F)) (c : SparsityConfig) : SparsityConfig :=
  let sp := tuJsonGet tu "sparsity"
  { enabled := (parseOptBool sp "enabled").getD c.enabled
    structured2of4 := (parseOptBool sp "structured_2of4").getD c.structured2of4
    unstructured := (parseOptBool sp "unstructured").getD c.unstructured
    decoderGroupsPerCycle := ((parseOptInt64 fp sp "decoder_groups_per_cycle").map (inRange 1 1048576 0)).getD
      c.decoderGroupsPerCycle }

/-- The document, or what is under `tu` in it. -/
def tuSection (root : TuJsonValue F) : TuJsonValue F := (tuJsonGet (some root) "tu").getD root

/-- `tu_config_load_string` between the parser and the validation. -/
def loadConfig (root : TuJsonValue F) : TuConfig F :=
  let tu := some (tuSection root)
  let c := tuConfigDefault fp
  { compute := loadCompute fp tu c.compute
    sram := loadSram fp tu c.sram
    dram := loadDram fp tu c.dram
    dma := loadDma fp tu c.dma
    compression := loadCompression fp tu c.compression
    isaQueueDepth := ((parseOptInt64 fp (tuJsonGet tu "isa") "queue_depth").map UInt32.ofInt).getD c.isaQueueDepth
    icc := loadIcc fp tu c.icc
    power := loadPower fp tu c.power
    sparsity := loadSparsity fp tu c.sparsity }

end

end Tusim.Config
