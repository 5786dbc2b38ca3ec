import Tusim.Dram.DramModel
import Mathlib.Logic.Function.Basic

/-!
# The DRAM timing model

The rest of `tu_dram_model_t`: what a created and configured model keeps fixed (`TuDramSetup`), and the state that
ticks, reads and writes change.  Cycles, bytes and statistics are natural numbers: the 64-bit counters of the source
are taken not to wrap.  An open row is a 64-bit value with `UINT64_MAX` for a precharged bank, as in the source.

Floating-point arithmetic is not modelled.  Its two results are data of the setup: the byte budget of a bandwidth
window, and the conversion of nanoseconds to cycles (`CoreClock`).

The lists `installed`, `charges`, `transfers`, `history` and `fired` are not in the source: they record what the
functions did, for the statements about runs.
-/

namespace Tusim

open Word

inductive TuDramType where
  | ideal | hbm2 | hbm2e | hbm3 | ddr4 | ddr5 | lpddr5 | custom
  deriving DecidableEq, Repr

inductive TuDramRowPolicyMode where
  | legacy | openPage | closedPage | adaptiveTimeout
  deriving DecidableEq, Repr

inductive TuDramTurnaroundMode where
  | none | fixed | idleCredit | burstCredit | burstRoundCredit | burstSpanCredit
  deriving DecidableEq, Repr

inductive TuDramRefreshMode where
  | none | allBank | perBank
  deriving DecidableEq, Repr

inductive TuDramRefreshScheduling where
  | fixed | deferred
  deriving DecidableEq, Repr

/-- The direction of an access. -/
inductive TuDramDirection where
  | read | write
  deriving DecidableEq, Repr

/-- `refresh_ns_to_cycles`: a positive time is rounded up to at least one cycle. -/
structure CoreClock where
  refreshNsToCycles : Nat → Nat
  pos : ∀ {ns}, 0 < ns → 0 < refreshNsToCycles ns

/-- A core clock of 1 GHz. -/
def CoreClock.oneGhz : CoreClock where
  refreshNsToCycles ns := ns
  pos h := h

structure TuDramSetup extends TuDramModel where
  type : TuDramType
  readLatencyCycles : UInt32
  writeLatencyCycles : UInt32
  busWidthBytes : UInt32
  modelRowConflicts : Bool
  bytesPerWindow : Nat
  rowPolicy : TuDramRowPolicyMode
  rowMissPenaltyCycles : UInt32
  rowConflictPenaltyCycles : UInt32
  rowOpenTimeoutCycles : UInt32
  turnaroundMode : TuDramTurnaroundMode
  readToWriteTurnaroundCycles : UInt32
  writeToReadTurnaroundCycles : UInt32
  readBurstBytes : UInt32
  writeBurstBytes : UInt32
  refreshMode : TuDramRefreshMode
  refreshScheduling : TuDramRefreshScheduling
  refreshRate : UInt32
  refreshTrefiCycles : Nat
  refreshTrfcCycles : Nat
  refreshTrfcPbCycles : Nat
  refreshMaxDeferralCycles : Nat
  readBurstBytes_ne : readBurstBytes ≠ 0
  writeBurstBytes_ne : writeBurstBytes ≠ 0
  trefi_pos : refreshMode ≠ .none → 0 < refreshTrefiCycles

structure TuDramStats where
  totalReads : Nat := 0
  totalWrites : Nat := 0
  totalReadBytes : Nat := 0
  totalWriteBytes : Nat := 0
  totalReadOccupiedBytes : Nat := 0
  totalWriteOccupiedBytes : Nat := 0
  totalReadCycles : Nat := 0
  totalWriteCycles : Nat := 0
  totalStallCycles : Nat := 0
  totalRowConflicts : Nat := 0
  totalRowHits : Nat := 0
  totalRowEmptyMisses : Nat := 0
  totalRowReplacements : Nat := 0
  totalRowTimeoutPrecharges : Nat := 0
  totalTurnaroundEvents : Nat := 0
  totalTurnaroundCycles : Nat := 0
  totalRefreshEvents : Nat := 0
  totalRefreshStallCycles : Nat := 0
  deriving DecidableEq, Repr

/-- The bandwidth window.  `installed` is the budget the window was given and `charges` what was charged to it. -/
structure TuDramBandwidth where
  bandwidthAvailable : Nat := 0
  bwWindowSizeCycles : Nat := 0
  bwWindowStart : Nat := 0
  pendingReadBytes : Nat := 0
  pendingWriteBytes : Nat := 0
  installed : Nat := 0
  charges : List Nat := []
  deriving DecidableEq, Repr

/-- The data bus of one channel.  `transfers` are the intervals its accesses have used it for. -/
structure TuDramChannel where
  availableCycle : Nat := 0
  lastDirection : Option TuDramDirection := none
  transfers : List (Nat × Nat) := []
  deriving DecidableEq, Repr

inductive TuDramRowEvent where
  /-- a refresh closed the rows of a refresh slot -/
  | refreshed (slot : Nat)
  /-- an access to a row under an explicit policy -/
  | accessed (channel bank row time : Nat) (hit : Bool)
  deriving DecidableEq, Repr

structure TuDramRowBuffers where
  openRows : Nat → Nat := fun _ => uint64Max
  rowLastAccessCycle : Nat → Option Nat := fun _ => none
  history : List TuDramRowEvent := []

/-- The schedule by refresh slot; `fired` are the cycles a slot was refreshed at. -/
structure TuDramRefreshState where
  refreshNext : Nat → Nat
  refreshUntil : Nat → Nat
  fired : Nat → List Nat

structure TuDramRuntime where
  setup : TuDramSetup
  stats : TuDramStats
  currentCycle : Nat
  bandwidth : TuDramBandwidth
  channels : Nat → TuDramChannel
  rows : TuDramRowBuffers
  refresh : TuDramRefreshState

/-! ### The refresh schedule -/

def refreshEffectiveInterval (setup : TuDramSetup) : Nat :=
  let rate := if setup.refreshRate = 0 then 1 else setup.refreshRate.toNat
  (setup.refreshTrefiCycles + rate - 1) / rate

/-- `slots` of the catch-up loop; without refresh there is none. -/
def refreshSlots (setup : TuDramSetup) : Nat :=
  match setup.refreshMode with
  | .none => 0
  | .allBank => 1
  | .perBank => setup.params.banksPerChannel.toNat

/-- `dur` of the catch-up loop. -/
def refreshDuration (setup : TuDramSetup) : Nat :=
  match setup.refreshMode with
  | .allBank => setup.refreshTrfcCycles
  | _ => setup.refreshTrfcPbCycles

/-- The first instant of a refresh slot. -/
def refreshFirst (setup : TuDramSetup) (slot : Nat) : Nat :=
  match setup.refreshMode with
  | .none => uint64Max
  | .allBank => if slot = 0 then refreshEffectiveInterval setup else uint64Max
  | .perBank => u64 ((slot + 1) * refreshEffectiveInterval setup) / setup.params.banksPerChannel.toNat

def refreshInitState (setup : TuDramSetup) : TuDramRefreshState where
  refreshNext := refreshFirst setup
  refreshUntil _ := 0
  fired _ := []

namespace TuDramRuntime

/-- A created model, before any tick or access. -/
def fresh (setup : TuDramSetup) : TuDramRuntime where
  setup := setup
  stats := {}
  currentCycle := 0
  bandwidth := {}
  channels _ := {}
  rows := {}
  refresh := refreshInitState setup

end TuDramRuntime

/-- A row of `dram_presets`; the budget of a bandwidth window is the one at the initial core clock of 1 GHz. -/
structure TuDramPreset where
  bytesPerWindow : Nat
  latencyCycles : UInt32
  busWidthBytes : UInt32
  params : TuDramParams
  channels_ne : params.channels ≠ 0
  banksPerChannel_ne : params.banksPerChannel ≠ 0
  burstLength_ne : params.burstLength ≠ 0

def dramPresets : TuDramType → TuDramPreset
  | .ideal => ⟨10 ^ 15, 0, 256, ⟨64, 1, 1, 0⟩, by decide, by decide, by decide⟩
  | .hbm2 => ⟨256000, 50, 128, ⟨64, 8, 16, 2048⟩, by decide, by decide, by decide⟩
  | .hbm2e => ⟨460000, 50, 128, ⟨64, 8, 16, 2048⟩, by decide, by decide, by decide⟩
  | .hbm3 => ⟨819000, 40, 128, ⟨64, 16, 32, 4096⟩, by decide, by decide, by decide⟩
  | .ddr4 => ⟨25600, 75, 8, ⟨64, 1, 16, 1024⟩, by decide, by decide, by decide⟩
  | .ddr5 => ⟨51200, 65, 8, ⟨64, 1, 32, 2048⟩, by decide, by decide, by decide⟩
  | .lpddr5 => ⟨51200, 60, 8, ⟨64, 1, 16, 2048⟩, by decide, by decide, by decide⟩
  | .custom => ⟨100000, 50, 32, ⟨64, 4, 16, 2048⟩, by decide, by decide, by decide⟩

def tuDramCreate (type : TuDramType) : TuDramRuntime :=
  let preset := dramPresets type
  TuDramRuntime.fresh
    { params := preset.params
      numChannels := preset.params.channels
      addressMapping := .burstInterleaved
      numChannels_ne := preset.channels_ne
      banksPerChannel_ne := preset.banksPerChannel_ne
      burstLength_ne := preset.burstLength_ne
      xor_channels := nofun
      type := type
      readLatencyCycles := preset.latencyCycles
      writeLatencyCycles := preset.latencyCycles
      busWidthBytes := preset.busWidthBytes
      modelRowConflicts := false
      bytesPerWindow := preset.bytesPerWindow
      rowPolicy := .legacy
      rowMissPenaltyCycles := 10
      rowConflictPenaltyCycles := 10
      rowOpenTimeoutCycles := 0
      turnaroundMode := .none
      readToWriteTurnaroundCycles := 0
      writeToReadTurnaroundCycles := 0
      readBurstBytes := preset.params.burstLength
      writeBurstBytes := preset.params.burstLength
      refreshMode := .none
      refreshScheduling := .fixed
      refreshRate := 0
      refreshTrefiCycles := 0
      refreshTrfcCycles := 0
      refreshTrfcPbCycles := 0
      refreshMaxDeferralCycles := 0
      readBurstBytes_ne := preset.burstLength_ne
      writeBurstBytes_ne := preset.burstLength_ne
      trefi_pos := fun h => absurd rfl h }

/-- A zero field stands for its default. -/
def timeOrDefault (value default : Nat) : Nat := if value = 0 then default else value

theorem timeOrDefault_pos (value : Nat) {default : Nat} (h : 0 < default) : 0 < timeOrDefault value default := by
  unfold timeOrDefault
  split <;> omega

/-- `none` where the source refuses the setting. -/
def tuDramSetRefresh (clock : CoreClock) (dram : TuDramRuntime) (mode : TuDramRefreshMode)
    (scheduling : TuDramRefreshScheduling) (rate : UInt32) (trefiNs trfcNs trfcPbNs maxDeferralNs : Nat) :
    Option TuDramRuntime :=
  if rate ≠ 0 ∧ rate ≠ 1 ∧ rate ≠ 2 ∧ rate ≠ 4 then none
  else
    let trefi := timeOrDefault trefiNs 7800
    let maxDef := timeOrDefault maxDeferralNs trefi
    if maxDef > trefi then none
    else
      let setup : TuDramSetup :=
        { dram.setup with
          refreshMode := mode
          refreshScheduling := scheduling
          refreshRate := if rate = 0 then 1 else rate
          refreshTrefiCycles := clock.refreshNsToCycles trefi
          refreshTrfcCycles := clock.refreshNsToCycles (timeOrDefault trfcNs 350)
          refreshTrfcPbCycles := clock.refreshNsToCycles (timeOrDefault trfcPbNs 90)
          refreshMaxDeferralCycles := clock.refreshNsToCycles maxDef
          trefi_pos := fun _ => clock.pos (timeOrDefault_pos trefiNs (by decide)) }
      some { dram with setup := setup, refresh := refreshInitState setup }

/-! ### The bandwidth window -/

/-- `current_cycle - bw_window_start`, in 64 bits. -/
def windowElapsed (dram : TuDramRuntime) : Nat := u64 (dram.currentCycle + 2 ^ 64 - dram.bandwidth.bwWindowStart)

def ensureBandwidth (dram : TuDramRuntime) : TuDramRuntime :=
  let dram :=
    if dram.bandwidth.bwWindowSizeCycles = 0 then
      { dram with bandwidth :=
        { dram.bandwidth with bwWindowSizeCycles := 1000, bwWindowStart := dram.currentCycle } }
    else dram
  if windowElapsed dram ≥ dram.bandwidth.bwWindowSizeCycles then
    { dram with bandwidth :=
      { dram.bandwidth with
        bandwidthAvailable := dram.setup.bytesPerWindow, bwWindowStart := dram.currentCycle, pendingReadBytes := 0,
        pendingWriteBytes := 0, installed := dram.setup.bytesPerWindow, charges := [] } }
  else dram

/-! ### Rows -/

def rowIndex (setup : TuDramSetup) (channel bank : Nat) : Nat := channel * setup.params.banksPerChannel.toNat + bank

/-- The rows a refresh of a slot closes: all of them, or those of one bank on every channel. -/
def refreshCloses (setup : TuDramSetup) (slot i : Nat) : Bool :=
  i / setup.params.banksPerChannel.toNat < setup.numChannels.toNat &&
    (setup.refreshMode = .allBank || i % setup.params.banksPerChannel.toNat = slot)

/-- The accounting of one row access, and its penalty. -/
def explicitRowPenalty (dram : TuDramRuntime) (addr : Nat) : TuDramRuntime × Nat :=
  if dram.setup.rowPolicy = .legacy then (dram, 0)
  else
    match tuDramDecodeAddress dram.setup.toTuDramModel addr with
    | none => (dram, 0)
    | some (channel, bank, row) =>
      let now := dram.currentCycle
      let stats := dram.stats
      if dram.setup.rowPolicy = .closedPage then
        ({ dram with
          stats :=
            { stats with
              totalRowConflicts := stats.totalRowConflicts + 1
              totalRowEmptyMisses := stats.totalRowEmptyMisses + 1 }
          rows := { dram.rows with history := dram.rows.history ++ [.accessed channel bank row now false] } },
          dram.setup.rowMissPenaltyCycles.toNat)
      else
        let i := rowIndex dram.setup channel bank
        let expired := dram.setup.rowPolicy = .adaptiveTimeout ∧ dram.rows.openRows i ≠ uint64Max ∧
          (dram.rows.rowLastAccessCycle i).any fun last => now - last > dram.setup.rowOpenTimeoutCycles.toNat
        let opened := if expired then uint64Max else dram.rows.openRows i
        let stats := if expired then
          { stats with totalRowTimeoutPrecharges := stats.totalRowTimeoutPrecharges + 1 } else stats
        let rows :=
          { openRows := Function.update dram.rows.openRows i row
            rowLastAccessCycle := Function.update dram.rows.rowLastAccessCycle i (some now)
            history := dram.rows.history ++ [.accessed channel bank row now (opened = row)] }
        if opened = row then
          ({ dram with stats := { stats with totalRowHits := stats.totalRowHits + 1 }, rows := rows }, 0)
        else if opened = uint64Max then
          ({ dram with
            stats :=
              { stats with
                totalRowConflicts := stats.totalRowConflicts + 1
                totalRowEmptyMisses := stats.totalRowEmptyMisses + 1 }
            rows := rows }, dram.setup.rowMissPenaltyCycles.toNat)
        else
          ({ dram with
            stats :=
              { stats with
                totalRowConflicts := stats.totalRowConflicts + 1
                totalRowReplacements := stats.totalRowReplacements + 1 }
            rows := rows }, dram.setup.rowConflictPenaltyCycles.toNat)

/-! ### Refresh -/

/-- When the refresh that is due at `due` fires in a catch-up with cycle `now`, if it does. -/
def refreshFireAt (setup : TuDramSetup) (now : Nat) (onAccess : Bool) (due : Nat) : Option Nat :=
  if due > now then none
  else
    match setup.refreshScheduling with
    | .fixed => some due
    | .deferred =>
      let deadline := due + setup.refreshMaxDeferralCycles
      if onAccess then some (if deadline > now then now else deadline)
      else if deadline ≤ now then some deadline
      else none

/-- One refresh of a slot, at cycle `fireAt`. -/
def refreshFire (dram : TuDramRuntime) (slot fireAt : Nat) : TuDramRuntime :=
  { dram with
    stats := { dram.stats with totalRefreshEvents := dram.stats.totalRefreshEvents + 1 }
    refresh :=
      { refreshNext := Function.update dram.refresh.refreshNext slot
          (dram.refresh.refreshNext slot + refreshEffectiveInterval dram.setup)
        refreshUntil := Function.update dram.refresh.refreshUntil slot (fireAt + refreshDuration dram.setup)
        fired := Function.update dram.refresh.fired slot (dram.refresh.fired slot ++ [fireAt]) }
    rows :=
      if dram.setup.rowPolicy = .legacy then dram.rows
      else
        { dram.rows with
          openRows := fun i => if refreshCloses dram.setup slot i then uint64Max else dram.rows.openRows i
          history := dram.rows.history ++ [.refreshed slot] } }

/-- `while (refresh_next[slot] <= T)`, for at most `n` rounds. -/
def refreshSlot (now : Nat) (onAccess : Bool) (slot : Nat) : Nat → TuDramRuntime → TuDramRuntime
  | 0, dram => dram
  | n + 1, dram =>
    match refreshFireAt dram.setup now onAccess (dram.refresh.refreshNext slot) with
    | none => dram
    | some fireAt => refreshSlot now onAccess slot n (refreshFire dram slot fireAt)

/-- Every round of the loop moves `refresh_next` on, so `now + 1` rounds are enough. -/
def refreshCatchup (dram : TuDramRuntime) (now : Nat) (onAccess : Bool) : TuDramRuntime :=
  if dram.setup.refreshMode = .none ∨ dram.setup.type = .ideal then dram
  else (List.range (refreshSlots dram.setup)).foldl
    (fun dram slot => refreshSlot now onAccess slot (now + 1) dram) dram

/-- The refresh slot of a bank. -/
def refreshSlotOf (setup : TuDramSetup) (bank : Nat) : Nat := if setup.refreshMode = .allBank then 0 else bank

def refreshStallFor (dram : TuDramRuntime) (bank now : Nat) : Nat :=
  if dram.setup.refreshMode = .none ∨ dram.setup.type = .ideal then 0
  else
    let slot := refreshSlotOf dram.setup bank
    if dram.refresh.refreshUntil slot > now then dram.refresh.refreshUntil slot - now else 0

/-! ### Accesses -/

/-- The bus turnaround of an access, before any credit. -/
def turnaroundCycles (setup : TuDramSetup) (old : Option TuDramDirection) (new : TuDramDirection) : Nat :=
  match old, new with
  | some .read, .write => setup.readToWriteTurnaroundCycles.toNat
  | some .write, .read => setup.writeToReadTurnaroundCycles.toNat
  | _, _ => 0

/-- The modes that credit idle time. -/
def idleCredited (setup : TuDramSetup) : Bool := setup.turnaroundMode ≠ .none && setup.turnaroundMode ≠ .fixed

def turnaroundFor (dram : TuDramRuntime) (channel : Nat) (new : TuDramDirection) : TuDramRuntime × Nat :=
  if channel ≥ dram.setup.numChannels.toNat ∨ dram.setup.turnaroundMode = .none then (dram, 0)
  else
    let ch := dram.channels channel
    let cycles := turnaroundCycles dram.setup ch.lastDirection new
    let cycles :=
      if cycles ≠ 0 ∧ idleCredited dram.setup ∧ dram.currentCycle > ch.availableCycle then
        let idle := dram.currentCycle - ch.availableCycle
        if idle < cycles then cycles - idle else 0
      else cycles
    let stats := dram.stats
    ({ dram with
      channels := Function.update dram.channels channel { ch with lastDirection := some new }
      stats :=
        if ch.lastDirection ≠ none ∧ ch.lastDirection ≠ some new then
          { stats with
            totalTurnaroundEvents := stats.totalTurnaroundEvents + 1
            totalTurnaroundCycles := stats.totalTurnaroundCycles + cycles }
        else stats }, cycles)

/-- Bytes charged to the channel and to the bandwidth window. -/
def occupiedBytesFor (setup : TuDramSetup) (addr : Nat) (numBytes : UInt32) (direction : TuDramDirection) : Nat :=
  if setup.turnaroundMode ≠ .burstRoundCredit ∧ setup.turnaroundMode ≠ .burstSpanCredit then numBytes.toNat
  else
    let burst :=
      match direction with
      | .read => setup.readBurstBytes.toNat
      | .write => setup.writeBurstBytes.toNat
    let span := numBytes.toNat + (if setup.turnaroundMode = .burstSpanCredit then addr &&& (burst - 1) else 0)
    (span + burst - 1) / burst * burst

def channelStall (dram : TuDramRuntime) (channel : Nat) : Nat :=
  if (dram.channels channel).availableCycle > dram.currentCycle then
    (dram.channels channel).availableCycle - dram.currentCycle
  else 0

/-- `consumed_bw > bandwidth_available`: the access has to wait for the next window. -/
def exceedsBandwidth (dram : TuDramRuntime) (occupied : Nat) : Bool :=
  dram.bandwidth.pendingReadBytes + dram.bandwidth.pendingWriteBytes + occupied > dram.bandwidth.bandwidthAvailable

def bandwidthStall (dram : TuDramRuntime) (occupied : Nat) : Nat :=
  if exceedsBandwidth dram occupied then dram.bandwidth.bwWindowSizeCycles - windowElapsed dram else 0

/-- How long the payload keeps the bus after the service of the access. -/
def burstCycles (setup : TuDramSetup) (occupied : Nat) : Nat :=
  if setup.turnaroundMode = .burstCredit ∨ setup.turnaroundMode = .burstRoundCredit ∨
      setup.turnaroundMode = .burstSpanCredit then
    let width := if setup.busWidthBytes = 0 then 1 else setup.busWidthBytes.toNat
    (occupied + width - 1) / width
  else 0

/-- The occupied bytes of an access are charged to the bandwidth window. -/
def chargeBandwidth (b : TuDramBandwidth) (direction : TuDramDirection) (occupied : Nat) : TuDramBandwidth :=
  let b :=
    match direction with
    | .read => { b with pendingReadBytes := b.pendingReadBytes + occupied }
    | .write => { b with pendingWriteBytes := b.pendingWriteBytes + occupied }
  { b with
    bandwidthAvailable := if b.bandwidthAvailable > occupied then b.bandwidthAvailable - occupied else 0
    charges := b.charges ++ [occupied] }

/-- The statistics of an access. -/
def countAccess (s : TuDramStats) (direction : TuDramDirection) (numBytes : UInt32)
    (occupied totalCycles stall refreshStall : Nat) : TuDramStats :=
  let s :=
    match direction with
    | .read => { s with
        totalReads := s.totalReads + 1, totalReadBytes := s.totalReadBytes + numBytes.toNat
        totalReadOccupiedBytes := s.totalReadOccupiedBytes + occupied
        totalReadCycles := s.totalReadCycles + totalCycles }
    | .write => { s with
        totalWrites := s.totalWrites + 1, totalWriteBytes := s.totalWriteBytes + numBytes.toNat
        totalWriteOccupiedBytes := s.totalWriteOccupiedBytes + occupied
        totalWriteCycles := s.totalWriteCycles + totalCycles }
  { s with
    totalStallCycles := s.totalStallCycles + stall
    totalRefreshStallCycles := s.totalRefreshStallCycles + refreshStall }

/-- The second half of `tu_dram_read` and `tu_dram_write`: contention, occupancy and accounting.  The components are
the state, the cycles and the stall cycles of the access. -/
def transfer (dram : TuDramRuntime) (direction : TuDramDirection) (channel addr : Nat) (numBytes : UInt32)
    (totalCycles refreshStall : Nat) : TuDramRuntime × Nat × Nat :=
  let occupied := occupiedBytesFor dram.setup addr numBytes direction
  let stall := channelStall dram channel + bandwidthStall dram occupied
  let busy := totalCycles + burstCycles dram.setup occupied
  let start := dram.currentCycle + channelStall dram channel
  let ch := dram.channels channel
  ({ dram with
    channels := Function.update dram.channels channel
      { ch with
        availableCycle := dram.currentCycle + busy
        transfers := ch.transfers ++ [(start, start + busy)] }
    bandwidth := chargeBandwidth dram.bandwidth direction occupied
    stats := countAccess dram.stats direction numBytes occupied totalCycles stall refreshStall }, totalCycles, stall)

/-- An access to an ideal memory. -/
def idealAccess (dram : TuDramRuntime) (direction : TuDramDirection) (numBytes : UInt32) : TuDramRuntime × Nat × Nat :=
  ({ dram with stats := countAccess dram.stats direction numBytes numBytes.toNat 0 0 0 }, 0, 0)

/-- Channel and bank of an address; they stay zero where the address does not decode. -/
def decodedPlace (setup : TuDramSetup) (addr : Nat) : Nat × Nat :=
  match tuDramDecodeAddress setup.toTuDramModel addr with
  | some (channel, bank, _) => (channel, bank)
  | none => (0, 0)

/-- The row accounting of a read; without an explicit policy it may count a conflict. -/
def readRowPenalty (dram : TuDramRuntime) (addr : Nat) : TuDramRuntime × Nat :=
  if dram.setup.rowPolicy ≠ .legacy then explicitRowPenalty dram addr
  else if dram.setup.modelRowConflicts then
    ({ dram with stats := { dram.stats with totalRowConflicts := dram.stats.totalRowConflicts + 1 } },
      dram.setup.rowMissPenaltyCycles.toNat)
  else (dram, 0)

/-- The row accounting of a write. -/
def writeRowPenalty (dram : TuDramRuntime) (addr : Nat) : TuDramRuntime × Nat :=
  if dram.setup.rowPolicy ≠ .legacy then explicitRowPenalty dram addr else (dram, 0)

/-- `ensure_bandwidth` and the catch-up of the refresh schedules, with which a timed access starts. -/
def beginAccess (dram : TuDramRuntime) : TuDramRuntime := refreshCatchup (ensureBandwidth dram) dram.currentCycle true

def tuDramRead (dram : TuDramRuntime) (addr : Nat) (numBytes : UInt32) : TuDramRuntime × Nat × Nat :=
  if numBytes = 0 then (dram, 0, 0)
  else if dram.setup.type = .ideal then idealAccess dram .read numBytes
  else
    let place := decodedPlace dram.setup addr
    let dram := beginAccess dram
    let refreshStall := refreshStallFor dram place.2 dram.currentCycle
    let turnaround := turnaroundFor dram place.1 .read
    let row := readRowPenalty turnaround.1 addr
    transfer row.1 .read place.1 addr numBytes
      (dram.setup.readLatencyCycles.toNat + refreshStall + turnaround.2 + row.2) refreshStall

def tuDramWrite (dram : TuDramRuntime) (addr : Nat) (numBytes : UInt32) : TuDramRuntime × Nat × Nat :=
  if numBytes = 0 then (dram, 0, 0)
  else if dram.setup.type = .ideal then idealAccess dram .write numBytes
  else
    let place := decodedPlace dram.setup addr
    let dram := beginAccess dram
    let refreshStall := refreshStallFor dram place.2 dram.currentCycle
    let turnaround := turnaroundFor dram place.1 .write
    let row := writeRowPenalty turnaround.1 addr
    transfer row.1 .write place.1 addr numBytes
      (dram.setup.writeLatencyCycles.toNat + refreshStall + turnaround.2 + row.2) refreshStall

/-- A read or a write. -/
def access (dram : TuDramRuntime) (direction : TuDramDirection) (addr : Nat) (numBytes : UInt32) :
    TuDramRuntime × Nat × Nat :=
  match direction with
  | .read => tuDramRead dram addr numBytes
  | .write => tuDramWrite dram addr numBytes

def tuDramTick (dram : TuDramRuntime) : TuDramRuntime :=
  let dram := ensureBandwidth { dram with currentCycle := dram.currentCycle + 1 }
  refreshCatchup dram dram.currentCycle false

/-! ### Runs -/

inductive TuDramOp where
  | tick
  | read (addr : Nat) (numBytes : UInt32)
  | write (addr : Nat) (numBytes : UInt32)
  deriving DecidableEq, Repr

namespace TuDramRuntime

def step (dram : TuDramRuntime) : TuDramOp → TuDramRuntime
  | .tick => tuDramTick dram
  | .read addr numBytes => (tuDramRead dram addr numBytes).1
  | .write addr numBytes => (tuDramWrite dram addr numBytes).1

end TuDramRuntime

end Tusim
