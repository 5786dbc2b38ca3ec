import Tusim.Dram.Runtime
import Tusim.Lib.Blocks

/-!
# What the parts of an access change

Each part of an access changes a few fields of the state and nothing else: the check of the window changes the
bandwidth, the turnaround the channels, the row accounting the rows, each with its own statistics.  One equation a
part says so, and every fact about what a part leaves alone is read off it.  Reads and writes are one operation with a
direction (`access_eq`), and a run consists of ticks and accesses (`tick_or_access`).
-/

namespace Tusim

open TuDramRuntime

theorem ensureBandwidth_eq (dram : TuDramRuntime) :
    ensureBandwidth dram = { dram with bandwidth := (ensureBandwidth dram).bandwidth } := by
  unfold ensureBandwidth
  dsimp only
  split <;> split <;> rfl

theorem turnaroundFor_eq (dram : TuDramRuntime) (channel : Nat) (new : TuDramDirection) :
    (turnaroundFor dram channel new).1 =
      { dram with
        channels := (turnaroundFor dram channel new).1.channels
        stats :=
          { dram.stats with
            totalTurnaroundEvents := (turnaroundFor dram channel new).1.stats.totalTurnaroundEvents
            totalTurnaroundCycles := (turnaroundFor dram channel new).1.stats.totalTurnaroundCycles } } := by
  unfold turnaroundFor
  dsimp only
  split
  · rfl
  · dsimp only
    split <;> rfl

/-- The state with the rows and the row statistics of another one. -/
def withRows (dram dram' : TuDramRuntime) : TuDramRuntime :=
  { dram with
    rows := dram'.rows
    stats :=
      { dram.stats with
        totalRowConflicts := dram'.stats.totalRowConflicts
        totalRowHits := dram'.stats.totalRowHits
        totalRowEmptyMisses := dram'.stats.totalRowEmptyMisses
        totalRowReplacements := dram'.stats.totalRowReplacements
        totalRowTimeoutPrecharges := dram'.stats.totalRowTimeoutPrecharges } }

theorem explicitRowPenalty_eq (dram : TuDramRuntime) (addr : Nat) :
    (explicitRowPenalty dram addr).1 = withRows dram (explicitRowPenalty dram addr).1 := by
  unfold explicitRowPenalty
  dsimp only
  repeat' split
  all_goals rfl

/-- The latency of a direction. -/
def latencyFor (setup : TuDramSetup) : TuDramDirection → UInt32
  | .read => setup.readLatencyCycles
  | .write => setup.writeLatencyCycles

/-- The row accounting of a direction. -/
def rowPenaltyFor (dram : TuDramRuntime) (direction : TuDramDirection) (addr : Nat) : TuDramRuntime × Nat :=
  match direction with
  | .read => readRowPenalty dram addr
  | .write => writeRowPenalty dram addr

theorem rowPenaltyFor_eq (dram : TuDramRuntime) (direction : TuDramDirection) (addr : Nat) :
    (rowPenaltyFor dram direction addr).1 = withRows dram (rowPenaltyFor dram direction addr).1 := by
  have hexplicit := explicitRowPenalty_eq dram addr
  cases direction with
  | read =>
    unfold rowPenaltyFor readRowPenalty
    dsimp only
    split
    · exact hexplicit
    · split <;> rfl
  | write =>
    unfold rowPenaltyFor writeRowPenalty
    dsimp only
    split
    · exact hexplicit
    · rfl

/-- The state of a timed access after the turnaround of the bus. -/
def turnedAround (dram : TuDramRuntime) (direction : TuDramDirection) (addr : Nat) : TuDramRuntime × Nat :=
  turnaroundFor (beginAccess dram) (decodedPlace dram.setup addr).1 direction

/-- A timed access with its parts named. -/
theorem access_eq {dram : TuDramRuntime} (htype : dram.setup.type ≠ .ideal) (direction : TuDramDirection)
    (addr : Nat) {numBytes : UInt32} (hbytes : numBytes ≠ 0) :
    let refreshStall :=
      refreshStallFor (beginAccess dram) (decodedPlace dram.setup addr).2 (beginAccess dram).currentCycle
    let turnaround := turnedAround dram direction addr
    let row := rowPenaltyFor turnaround.1 direction addr
    access dram direction addr numBytes =
      transfer row.1 direction (decodedPlace dram.setup addr).1 addr numBytes
        ((latencyFor (beginAccess dram).setup direction).toNat + refreshStall + turnaround.2 + row.2)
        refreshStall := by
  cases direction with
  | read =>
    show tuDramRead dram addr numBytes = _
    unfold tuDramRead
    rw [if_neg hbytes, if_neg htype]
    rfl
  | write =>
    show tuDramWrite dram addr numBytes = _
    unfold tuDramWrite
    rw [if_neg hbytes, if_neg htype]
    rfl

@[simp] theorem access_zero (dram : TuDramRuntime) (direction : TuDramDirection) (addr : Nat) :
    access dram direction addr 0 = (dram, 0, 0) := by
  cases direction with
  | read => simp [access, tuDramRead]
  | write => simp [access, tuDramWrite]

theorem access_of_ideal {dram : TuDramRuntime} (htype : dram.setup.type = .ideal) (direction : TuDramDirection)
    (addr : Nat) {numBytes : UInt32} (hbytes : numBytes ≠ 0) :
    access dram direction addr numBytes = idealAccess dram direction numBytes := by
  cases direction with
  | read => exact (if_neg hbytes).trans (if_pos htype)
  | write => exact (if_neg hbytes).trans (if_pos htype)

/-! ### Operations -/

namespace TuDramOp

/-- A read or a write. -/
def ofAccess (addr : Nat) (numBytes : UInt32) : TuDramDirection → TuDramOp
  | .read => .read addr numBytes
  | .write => .write addr numBytes

theorem tick_or_access (op : TuDramOp) :
    op = .tick ∨ ∃ addr numBytes direction, op = ofAccess addr numBytes direction := by
  cases op with
  | tick => exact Or.inl rfl
  | read addr numBytes => exact Or.inr ⟨addr, numBytes, .read, rfl⟩
  | write addr numBytes => exact Or.inr ⟨addr, numBytes, .write, rfl⟩

def ticks : TuDramOp → Nat
  | .tick => 1
  | _ => 0

/-- Accesses of no bytes do nothing. -/
def nonempty : TuDramOp → Bool
  | .tick => true
  | .read _ numBytes | .write _ numBytes => numBytes ≠ 0

def isAccess : TuDramOp → Bool
  | .tick => false
  | _ => true

variable (addr : Nat) (numBytes : UInt32) (direction : TuDramDirection)

@[simp] theorem step_ofAccess (dram : TuDramRuntime) :
    dram.step (ofAccess addr numBytes direction) = (access dram direction addr numBytes).1 := by
  cases direction <;> rfl

@[simp] theorem ticks_ofAccess : (ofAccess addr numBytes direction).ticks = 0 := by
  cases direction <;> rfl

@[simp] theorem nonempty_ofAccess : (ofAccess addr numBytes direction).nonempty = decide (numBytes ≠ 0) := by
  cases direction <;> rfl

@[simp] theorem isAccess_ofAccess : (ofAccess addr numBytes direction).isAccess = true := by
  cases direction <;> rfl

end TuDramOp

end Tusim

/-!
### The bytes charged in span mode

In span mode an access pays for every burst it touches: the blocks of the burst size that meet `[addr, addr + n)`
(`Cutting.met`).  The offset in the first burst is taken with the mask `burst - 1`, which is the remainder only when
the burst is a power of two.  `occupiedBytesFor_span` gives the charge, `charged_iff` the accesses for which it is the
right one, and `charged_all_iff` the models for which it always is.
-/

namespace Tusim

open Word

/-- The burst granule of a direction. -/
def TuDramSetup.burstBytes (setup : TuDramSetup) : TuDramDirection → Nat
  | .read => setup.readBurstBytes.toNat
  | .write => setup.writeBurstBytes.toNat

/-- The bursts that an access of `numBytes` bytes at `addr` touches. -/
def burstsTouched (setup : TuDramSetup) (addr : Nat) (numBytes : UInt32) (direction : TuDramDirection) : Finset Nat :=
  Cutting.met (setup.burstBytes direction) addr numBytes.toNat

theorem notRefreshing_trefi : TuDramRefreshMode.none ≠ TuDramRefreshMode.none → 0 < 0 := fun h => absurd rfl h

/-- The rest of `tu_dram_create_custom`: what the timing takes from the parameters. -/
def tuDramCustomRuntime (model : TuDramModel) (readLatencyCycles writeLatencyCycles busWidthBytes : UInt32)
    (modelRowConflicts : Bool) (bytesPerWindow : Nat) : TuDramRuntime :=
  TuDramRuntime.fresh
    { model with
      type := .custom
      readLatencyCycles := readLatencyCycles
      writeLatencyCycles := writeLatencyCycles
      busWidthBytes := busWidthBytes
      modelRowConflicts := modelRowConflicts
      bytesPerWindow := bytesPerWindow
      rowPolicy := .legacy
      rowMissPenaltyCycles := 10
      rowConflictPenaltyCycles := 10
      rowOpenTimeoutCycles := 0
      turnaroundMode := .none
      readToWriteTurnaroundCycles := 0
      writeToReadTurnaroundCycles := 0
      readBurstBytes := model.params.burstLength
      writeBurstBytes := model.params.burstLength
      refreshMode := .none
      refreshScheduling := .fixed
      refreshRate := 0
      refreshTrefiCycles := 0
      refreshTrfcCycles := 0
      refreshTrfcPbCycles := 0
      refreshMaxDeferralCycles := 0
      readBurstBytes_ne := model.burstLength_ne
      writeBurstBytes_ne := model.burstLength_ne
      trefi_pos := notRefreshing_trefi }

/-- The two times are given in core cycles, `none` where `turnaround_cycles_for` refuses them. -/
def tuDramSetTurnaround (dram : TuDramRuntime) (mode : TuDramTurnaroundMode)
    (readToWrite writeToRead : Option UInt32) : Option TuDramRuntime := do
  let rtwCycles ← readToWrite
  let wtrCycles ← writeToRead
  if mode = .fixed ∧ rtwCycles = 0 ∧ wtrCycles = 0 then none
  else
    some { dram with
      setup := { dram.setup with
        turnaroundMode := mode
        readToWriteTurnaroundCycles := rtwCycles
        writeToReadTurnaroundCycles := wtrCycles }
      channels := fun channel => { dram.channels channel with lastDirection := none } }

/-- `none` unless both granules are powers of two of at most a mebibyte. -/
def tuDramSetBurstGranules (dram : TuDramRuntime) (readBytes writeBytes : UInt32) : Option TuDramRuntime :=
  if h : readBytes = 0 ∨ writeBytes = 0 ∨ readBytes > 1048576 ∨ writeBytes > 1048576 ∨
      readBytes &&& (readBytes - 1) ≠ 0 ∨ writeBytes &&& (writeBytes - 1) ≠ 0 then none
  else
    some { dram with
      setup := { dram.setup with
        readBurstBytes := readBytes
        writeBurstBytes := writeBytes
        readBurstBytes_ne := fun h' => h (Or.inl h')
        writeBurstBytes_ne := fun h' => h (Or.inr (Or.inl h')) } }

variable {setup : TuDramSetup} {direction : TuDramDirection}

theorem burstBytes_pos (setup : TuDramSetup) (direction : TuDramDirection) : 0 < setup.burstBytes direction := by
  cases direction
  · exact toNat_pos setup.readBurstBytes_ne
  · exact toNat_pos setup.writeBurstBytes_ne

private theorem ceilDiv_eq {burst n : Nat} (hburst : 0 < burst) (hn : 0 < n) :
    (n + burst - 1) / burst = (n - 1) / burst + 1 := by
  have h : n + burst - 1 = n - 1 + burst := by omega
  rw [h, Nat.add_div_right _ hburst]

theorem occupiedBytesFor_span (hmode : setup.turnaroundMode = .burstSpanCredit) (addr : Nat) {numBytes : UInt32}
    (hbytes : 0 < numBytes.toNat) :
    occupiedBytesFor setup addr numBytes direction =
      setup.burstBytes direction *
        (((addr &&& (setup.burstBytes direction - 1)) + numBytes.toNat - 1) / setup.burstBytes direction + 1) := by
  have hcharged : occupiedBytesFor setup addr numBytes direction =
      (numBytes.toNat + (addr &&& (setup.burstBytes direction - 1)) + setup.burstBytes direction - 1) /
        setup.burstBytes direction * setup.burstBytes direction := by
    unfold occupiedBytesFor
    rw [if_neg (by rw [hmode]; decide), hmode]
    cases direction <;> rfl
  rw [hcharged, ceilDiv_eq (burstBytes_pos setup direction) (by omega), Nat.mul_comm, Nat.add_comm numBytes.toNat]

/-- The charge is the bursts touched exactly if the masked offset ends the access in the burst the true one does. -/
theorem charged_iff (hmode : setup.turnaroundMode = .burstSpanCredit) (addr : Nat) {numBytes : UInt32}
    (hbytes : 0 < numBytes.toNat) :
    occupiedBytesFor setup addr numBytes direction =
        setup.burstBytes direction * (burstsTouched setup addr numBytes direction).card ↔
      ((addr &&& (setup.burstBytes direction - 1)) + numBytes.toNat - 1) / setup.burstBytes direction =
        (addr % setup.burstBytes direction + numBytes.toNat - 1) / setup.burstBytes direction := by
  have hpos := burstBytes_pos setup direction
  unfold burstsTouched
  rw [occupiedBytesFor_span hmode addr hbytes, Cutting.card_met hpos hbytes]
  constructor
  · intro h
    exact Nat.succ.inj (Nat.eq_of_mul_eq_mul_left hpos h)
  · intro h
    rw [h]

/-- `burst & (burst - 1)` tells the powers of two. -/
theorem and_pred_eq_mod {burst : Nat} (hpos : 0 < burst) (hpow : burst &&& (burst - 1) = 0) (addr : Nat) :
    addr &&& (burst - 1) = addr % burst := by
  obtain ⟨k, rfl⟩ := (Nat.and_sub_one_eq_zero_iff_isPowerOfTwo (Nat.ne_of_gt hpos)).1 hpow
  exact Nat.and_two_pow_sub_one_eq_mod addr k

/-- A burst that is no power of two has a multiple whose masked offset is not zero: the burst itself. -/
theorem exists_overcharged (hmode : setup.turnaroundMode = .burstSpanCredit)
    (hpow : setup.burstBytes direction &&& (setup.burstBytes direction - 1) ≠ 0) :
    ∃ (addr : Nat) (numBytes : UInt32), 0 < numBytes.toNat ∧
      occupiedBytesFor setup addr numBytes direction ≠
        setup.burstBytes direction * (burstsTouched setup addr numBytes direction).card := by
  have hpos := burstBytes_pos setup direction
  have hlt : setup.burstBytes direction < 2 ^ 32 := by
    cases direction
    · exact setup.readBurstBytes.toNat_lt
    · exact setup.writeBurstBytes.toNat_lt
  have hbytes : (UInt32.ofNat (setup.burstBytes direction)).toNat = setup.burstBytes direction :=
    UInt32.toNat_ofNat_of_lt' hlt
  refine ⟨setup.burstBytes direction, UInt32.ofNat (setup.burstBytes direction), by rw [hbytes]; exact hpos, ?_⟩
  rw [Ne, charged_iff hmode _ (by rw [hbytes]; exact hpos), hbytes, Nat.mod_self, Nat.zero_add]
  -- the true access ends in the first burst, the masked one in the second
  have htrue : (setup.burstBytes direction - 1) / setup.burstBytes direction = 0 := Nat.div_eq_of_lt (by omega)
  have hmasked : 0 < ((setup.burstBytes direction &&& (setup.burstBytes direction - 1)) +
      setup.burstBytes direction - 1) / setup.burstBytes direction := Nat.div_pos (by omega) hpos
  rw [htrue]
  exact Nat.ne_of_gt hmasked

/-- Where the burst passes the test of `tu_dram_set_burst_granules` every access is charged for the bursts it touches,
and only there; for another burst the accesses are those whose masked offset ends in the same burst. -/
theorem span_charge_iff (hmode : setup.turnaroundMode = .burstSpanCredit) :
    (∀ (addr : Nat) (numBytes : UInt32), 0 < numBytes.toNat →
        (occupiedBytesFor setup addr numBytes direction =
            setup.burstBytes direction * (burstsTouched setup addr numBytes direction).card ↔
          ((addr &&& (setup.burstBytes direction - 1)) + numBytes.toNat - 1) / setup.burstBytes direction =
            (addr % setup.burstBytes direction + numBytes.toNat - 1) / setup.burstBytes direction)) ∧
      ((∀ (addr : Nat) (numBytes : UInt32), 0 < numBytes.toNat →
          occupiedBytesFor setup addr numBytes direction =
            setup.burstBytes direction * (burstsTouched setup addr numBytes direction).card) ↔
        setup.burstBytes direction &&& (setup.burstBytes direction - 1) = 0) := by
  refine ⟨fun addr numBytes hbytes => charged_iff hmode addr hbytes, ?_, ?_⟩
  · intro hall
    by_contra hpow
    obtain ⟨addr, numBytes, hbytes, hne⟩ := exists_overcharged hmode hpow
    exact hne (hall addr numBytes hbytes)
  · intro hpow addr numBytes hbytes
    rw [charged_iff hmode addr hbytes, and_pred_eq_mod (burstBytes_pos setup direction) hpow]

/-- A read of 64 bytes at address 40 of an HBM2 model touches two bursts. -/
theorem span_charge_hbm2 :
    let setup := { (tuDramCreate .hbm2).setup with turnaroundMode := .burstSpanCredit }
    occupiedBytesFor setup 40 64 .read = setup.burstBytes .read * (burstsTouched setup 40 64 .read).card :=
  (@span_charge_iff { (tuDramCreate .hbm2).setup with turnaroundMode := .burstSpanCredit } .read rfl).2.2
    (by decide) 40 64 (by decide)

/-- Bursts of 48 bytes: an aligned read of one burst is charged for two, since 48 and 47 have a bit in common. -/
theorem span_charge_custom :
    ∃ model dram, tuDramCreateCustom ⟨48, 1, 1, 1024⟩ = some model ∧
      tuDramSetTurnaround (tuDramCustomRuntime model 50 50 32 false 100000) .burstSpanCredit (some 0) (some 0) =
        some dram ∧
      dram.setup.burstBytes .read = 48 ∧ burstsTouched dram.setup 48 48 .read = {1} ∧
      occupiedBytesFor dram.setup 48 48 .read = 96 ∧
      occupiedBytesFor dram.setup 48 48 .read ≠
        dram.setup.burstBytes .read * (burstsTouched dram.setup 48 48 .read).card := by
  refine ⟨_, _, rfl, rfl, ?_⟩
  decide

end Tusim
