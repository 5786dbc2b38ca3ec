import Tusim.Dram.Refresh

/-!
# Reads and writes exchanged

`mirror` exchanges everything the state keeps for reads with what it keeps for writes.  Where the parameters of the two
directions are equal, every part of an access commutes with it (`access_mirror`), with one exception: under the legacy
row policy with `model_row_conflicts`, `tu_dram_read` charges the penalty of a row miss and counts a conflict, and
`tu_dram_write` does neither.  So a run and the run with reads and writes exchanged report the same cycles, stalls,
hits and conflicts exactly if no access of the run meets this case (`exchanged_run_reports`).
-/

namespace Tusim

open TuDramRuntime TuDramOp

namespace TuDramDirection

/-- The other direction. -/
def flip : TuDramDirection → TuDramDirection
  | .read => .write
  | .write => .read

end TuDramDirection

/-- The same operation with reads and writes exchanged. -/
def TuDramOp.flip : TuDramOp → TuDramOp
  | .tick => .tick
  | .read addr numBytes => .write addr numBytes
  | .write addr numBytes => .read addr numBytes

theorem TuDramOp.flip_ofAccess (addr : Nat) (numBytes : UInt32) (direction : TuDramDirection) :
    (ofAccess addr numBytes direction).flip = ofAccess addr numBytes direction.flip := by
  cases direction <;> rfl

/-- Latency, burst and turnaround of reads are those of writes. -/
structure Symmetric (setup : TuDramSetup) : Prop where
  latency : setup.readLatencyCycles = setup.writeLatencyCycles
  burst : setup.readBurstBytes = setup.writeBurstBytes
  turnaround : setup.readToWriteTurnaroundCycles = setup.writeToReadTurnaroundCycles

/-- What the two functions report of an operation: its cycles and stall cycles, and the counts of hits and conflicts
after it. -/
structure TuDramReport where
  cycles : Nat
  stall : Nat
  rowHits : Nat
  rowConflicts : Nat
  deriving DecidableEq, Repr

namespace TuDramRuntime

def report (result : TuDramRuntime × Nat × Nat) : TuDramReport where
  cycles := result.2.1
  stall := result.2.2
  rowHits := result.1.stats.totalRowHits
  rowConflicts := result.1.stats.totalRowConflicts

/-- An operation with its report; a tick takes no cycles of its own. -/
def observe (dram : TuDramRuntime) : TuDramOp → TuDramRuntime × TuDramReport
  | .tick => (tuDramTick dram, report (tuDramTick dram, 0, 0))
  | .read addr numBytes => ((tuDramRead dram addr numBytes).1, report (tuDramRead dram addr numBytes))
  | .write addr numBytes => ((tuDramWrite dram addr numBytes).1, report (tuDramWrite dram addr numBytes))

theorem observe_ofAccess (dram : TuDramRuntime) (addr : Nat) (numBytes : UInt32) (direction : TuDramDirection) :
    dram.observe (ofAccess addr numBytes direction) =
      ((access dram direction addr numBytes).1, report (access dram direction addr numBytes)) := by
  cases direction <;> rfl

end TuDramRuntime

/-! ### The mirror image of a state -/

/-- The statistics with reads and writes exchanged. -/
def TuDramStats.mirror (stats : TuDramStats) : TuDramStats :=
  { stats with
    totalReads := stats.totalWrites
    totalWrites := stats.totalReads
    totalReadBytes := stats.totalWriteBytes
    totalWriteBytes := stats.totalReadBytes
    totalReadOccupiedBytes := stats.totalWriteOccupiedBytes
    totalWriteOccupiedBytes := stats.totalReadOccupiedBytes
    totalReadCycles := stats.totalWriteCycles
    totalWriteCycles := stats.totalReadCycles }

def TuDramBandwidth.mirror (b : TuDramBandwidth) : TuDramBandwidth :=
  { b with
    pendingReadBytes := b.pendingWriteBytes
    pendingWriteBytes := b.pendingReadBytes }

def TuDramChannel.mirror (ch : TuDramChannel) : TuDramChannel :=
  { ch with lastDirection := ch.lastDirection.map TuDramDirection.flip }

namespace TuDramRuntime

/-- The state with reads and writes exchanged. -/
def mirror (dram : TuDramRuntime) : TuDramRuntime :=
  { dram with
    stats := dram.stats.mirror
    bandwidth := dram.bandwidth.mirror
    channels := fun channel => (dram.channels channel).mirror }

/-- The mirror image of a state in which one channel, the bandwidth and the statistics were changed. -/
theorem mirror_update (dram : TuDramRuntime) (stats : TuDramStats) (bandwidth : TuDramBandwidth) (channel : Nat)
    (ch : TuDramChannel) :
    mirror { dram with
        stats := stats, bandwidth := bandwidth, channels := Function.update dram.channels channel ch } =
      { dram.mirror with
        stats := stats.mirror, bandwidth := bandwidth.mirror
        channels := Function.update dram.mirror.channels channel ch.mirror } :=
  congrArg (fun channels => { dram.mirror with
    stats := stats.mirror, bandwidth := bandwidth.mirror, channels := channels })
    (Function.comp_update TuDramChannel.mirror dram.channels channel ch)

@[simp] theorem mirror_setup (dram : TuDramRuntime) : dram.mirror.setup = dram.setup := rfl

@[simp] theorem mirror_currentCycle (dram : TuDramRuntime) : dram.mirror.currentCycle = dram.currentCycle := rfl

@[simp] theorem mirror_rows (dram : TuDramRuntime) : dram.mirror.rows = dram.rows := rfl

@[simp] theorem mirror_refresh (dram : TuDramRuntime) : dram.mirror.refresh = dram.refresh := rfl

end TuDramRuntime

/-! ### The parts of an operation -/

theorem ensureBandwidth_mirror (dram : TuDramRuntime) :
    ensureBandwidth dram.mirror = (ensureBandwidth dram).mirror := by
  unfold ensureBandwidth
  dsimp only
  by_cases hsize : dram.bandwidth.bwWindowSizeCycles = 0
  · have hsize' : dram.mirror.bandwidth.bwWindowSizeCycles = 0 := hsize
    rw [if_pos hsize, if_pos hsize', apply_ite mirror]
    rfl
  · have hsize' : dram.mirror.bandwidth.bwWindowSizeCycles ≠ 0 := hsize
    rw [if_neg hsize, if_neg hsize', apply_ite mirror]
    rfl

theorem refreshSlot_mirror (now : Nat) (onAccess : Bool) (slot n : Nat) (dram : TuDramRuntime) :
    refreshSlot now onAccess slot n dram.mirror = (refreshSlot now onAccess slot n dram).mirror := by
  induction n generalizing dram with
  | zero => rfl
  | succ n ih =>
    unfold refreshSlot
    rw [mirror_setup, mirror_refresh]
    cases refreshFireAt dram.setup now onAccess (dram.refresh.refreshNext slot) with
    | none => rfl
    | some fireAt => exact ih (refreshFire dram slot fireAt)

theorem refreshCatchup_mirror (dram : TuDramRuntime) (now : Nat) (onAccess : Bool) :
    refreshCatchup dram.mirror now onAccess = (refreshCatchup dram now onAccess).mirror := by
  unfold refreshCatchup
  rw [mirror_setup]
  split
  · rfl
  · exact List.foldl_hom mirror fun d slot => refreshSlot_mirror now onAccess slot (now + 1) d

theorem beginAccess_mirror (dram : TuDramRuntime) : beginAccess dram.mirror = (beginAccess dram).mirror := by
  unfold beginAccess
  rw [ensureBandwidth_mirror]
  exact refreshCatchup_mirror _ _ true

theorem turnaroundCycles_flip {setup : TuDramSetup} (hsymm : Symmetric setup) (old : Option TuDramDirection)
    (new : TuDramDirection) :
    turnaroundCycles setup (old.map TuDramDirection.flip) new.flip = turnaroundCycles setup old new := by
  rcases old with _ | _ | _ <;> cases new <;> simp [turnaroundCycles, TuDramDirection.flip, hsymm.turnaround]

/-- Whether an access turns the bus around. -/
theorem turns_flip (old : Option TuDramDirection) (new : TuDramDirection) :
    old.map TuDramDirection.flip ≠ none ∧ old.map TuDramDirection.flip ≠ some new.flip ↔
      old ≠ none ∧ old ≠ some new := by
  rcases old with _ | _ | _ <;> cases new <;> simp [TuDramDirection.flip]

theorem turnaroundFor_mirror {dram : TuDramRuntime} (hsymm : Symmetric dram.setup) (channel : Nat)
    (new : TuDramDirection) :
    turnaroundFor dram.mirror channel new.flip =
      ((turnaroundFor dram channel new).1.mirror, (turnaroundFor dram channel new).2) := by
  have hcycles : turnaroundCycles dram.setup (dram.mirror.channels channel).lastDirection new.flip =
      turnaroundCycles dram.setup (dram.channels channel).lastDirection new :=
    turnaroundCycles_flip hsymm _ new
  have hturns : (dram.mirror.channels channel).lastDirection ≠ none ∧
        (dram.mirror.channels channel).lastDirection ≠ some new.flip ↔
      (dram.channels channel).lastDirection ≠ none ∧ (dram.channels channel).lastDirection ≠ some new :=
    turns_flip _ new
  unfold turnaroundFor
  by_cases hnone : channel ≥ dram.setup.numChannels.toNat ∨ dram.setup.turnaroundMode = .none
  · rw [if_pos hnone, mirror_setup, if_pos hnone]
  · rw [if_neg hnone, mirror_setup, if_neg hnone]
    dsimp only
    simp only [hcycles, hturns]
    rw [mirror_update, apply_ite TuDramStats.mirror]
    rfl

theorem explicitRowPenalty_mirror (dram : TuDramRuntime) (addr : Nat) :
    explicitRowPenalty dram.mirror addr =
      ((explicitRowPenalty dram addr).1.mirror, (explicitRowPenalty dram addr).2) := by
  unfold explicitRowPenalty
  rw [mirror_setup, mirror_rows, mirror_currentCycle]
  split
  · rfl
  · cases tuDramDecodeAddress dram.setup.toTuDramModel addr with
    | none => rfl
    | some place =>
      obtain ⟨channel, bank, row⟩ := place
      dsimp only
      repeat' split
      all_goals rfl

/-- The row accounting that `tu_dram_write` lacks. -/
def CountsLegacyMiss (setup : TuDramSetup) : Prop := setup.rowPolicy = .legacy ∧ setup.modelRowConflicts = true

theorem rowPenaltyFor_mirror {dram : TuDramRuntime} (hrows : ¬ CountsLegacyMiss dram.setup)
    (direction : TuDramDirection) (addr : Nat) :
    rowPenaltyFor dram.mirror direction.flip addr =
      ((rowPenaltyFor dram direction addr).1.mirror, (rowPenaltyFor dram direction addr).2) := by
  have hread : ∀ d : TuDramRuntime, d.setup = dram.setup → readRowPenalty d addr = writeRowPenalty d addr := by
    intro d hsetup
    unfold readRowPenalty writeRowPenalty
    rw [hsetup]
    split
    · rfl
    · rename_i hlegacy
      rw [if_neg fun hmodel => hrows ⟨not_not.1 hlegacy, hmodel⟩]
  have hwrite : writeRowPenalty dram.mirror addr =
      ((writeRowPenalty dram addr).1.mirror, (writeRowPenalty dram addr).2) := by
    unfold writeRowPenalty
    rw [mirror_setup]
    split
    · exact explicitRowPenalty_mirror dram addr
    · rfl
  cases direction with
  | read =>
    show writeRowPenalty dram.mirror addr = ((readRowPenalty dram addr).1.mirror, (readRowPenalty dram addr).2)
    rw [hread dram rfl, hwrite]
  | write =>
    show readRowPenalty dram.mirror addr = _
    rw [hread dram.mirror rfl, hwrite]
    rfl

theorem occupiedBytesFor_flip {setup : TuDramSetup} (hsymm : Symmetric setup) (addr : Nat) (numBytes : UInt32)
    (direction : TuDramDirection) :
    occupiedBytesFor setup addr numBytes direction.flip = occupiedBytesFor setup addr numBytes direction := by
  cases direction <;> simp [occupiedBytesFor, TuDramDirection.flip, hsymm.burst]

theorem latencyFor_flip {setup : TuDramSetup} (hsymm : Symmetric setup) (direction : TuDramDirection) :
    latencyFor setup direction.flip = latencyFor setup direction := by
  cases direction
  · exact hsymm.latency.symm
  · exact hsymm.latency

theorem chargeBandwidth_mirror (b : TuDramBandwidth) (direction : TuDramDirection) (occupied : Nat) :
    chargeBandwidth b.mirror direction.flip occupied = (chargeBandwidth b direction occupied).mirror := by
  cases direction <;> rfl

theorem countAccess_mirror (s : TuDramStats) (direction : TuDramDirection) (numBytes : UInt32)
    (occupied totalCycles stall refreshStall : Nat) :
    countAccess s.mirror direction.flip numBytes occupied totalCycles stall refreshStall =
      (countAccess s direction numBytes occupied totalCycles stall refreshStall).mirror := by
  cases direction <;> rfl

/-- The window is asked for the sum of the pending reads and writes. -/
theorem bandwidthStall_mirror (dram : TuDramRuntime) (occupied : Nat) :
    bandwidthStall dram.mirror occupied = bandwidthStall dram occupied := by
  have hexceeds : exceedsBandwidth dram.mirror occupied = exceedsBandwidth dram occupied := by
    show decide (dram.bandwidth.pendingWriteBytes + dram.bandwidth.pendingReadBytes + occupied >
      dram.bandwidth.bandwidthAvailable) = _
    rw [Nat.add_comm dram.bandwidth.pendingWriteBytes]
    rfl
  unfold bandwidthStall
  rw [hexceeds]
  rfl

theorem transfer_mirror {dram : TuDramRuntime} (hsymm : Symmetric dram.setup) (direction : TuDramDirection)
    (channel addr : Nat) (numBytes : UInt32) (totalCycles refreshStall : Nat) :
    transfer dram.mirror direction.flip channel addr numBytes totalCycles refreshStall =
      ((transfer dram direction channel addr numBytes totalCycles refreshStall).1.mirror,
        (transfer dram direction channel addr numBytes totalCycles refreshStall).2) := by
  have hchannel : channelStall dram.mirror channel = channelStall dram channel := rfl
  unfold transfer
  dsimp only
  rw [mirror_update, mirror_setup, occupiedBytesFor_flip hsymm, bandwidthStall_mirror, hchannel,
    ← chargeBandwidth_mirror, ← countAccess_mirror]
  rfl

/-! ### Operations -/

/-- The exchange commutes with an access. -/
theorem access_mirror {dram : TuDramRuntime} (htype : dram.setup.type ≠ .ideal) (hsymm : Symmetric dram.setup)
    {numBytes : UInt32} (hrows : ¬ CountsLegacyMiss dram.setup ∨ numBytes = 0) (direction : TuDramDirection)
    (addr : Nat) :
    access dram.mirror direction.flip addr numBytes =
      ((access dram direction addr numBytes).1.mirror, (access dram direction addr numBytes).2) := by
  by_cases hbytes : numBytes = 0
  · subst hbytes
    rw [access_zero, access_zero]
  · have hrows : ¬ CountsLegacyMiss dram.setup := hrows.resolve_right hbytes
    have hbegin : (beginAccess dram).setup = dram.setup :=
      (refreshCatchup_setup _ _ _).trans (ensureBandwidth_keeps dram).setup
    have hturn : turnedAround dram.mirror direction.flip addr =
        ((turnedAround dram direction addr).1.mirror, (turnedAround dram direction addr).2) := by
      unfold turnedAround
      rw [beginAccess_mirror]
      exact turnaroundFor_mirror (hbegin ▸ hsymm) _ direction
    have hturned : (turnedAround dram direction addr).1.setup = dram.setup :=
      (turnaroundFor_keeps _ _ _).setup.trans hbegin
    have hrow := rowPenaltyFor_mirror (hturned ▸ hrows : ¬ CountsLegacyMiss _) direction addr
    have hrowed : (rowPenaltyFor (turnedAround dram direction addr).1 direction addr).1.setup = dram.setup :=
      (rowPenaltyFor_keeps _ _ _).setup.trans hturned
    rw [access_eq htype direction addr hbytes,
      access_eq (show dram.mirror.setup.type ≠ .ideal from htype) direction.flip addr hbytes, hturn, beginAccess_mirror,
      hrow, mirror_setup, latencyFor_flip (hbegin ▸ hsymm)]
    exact transfer_mirror (hrowed ▸ hsymm) direction _ addr numBytes _ _

theorem tuDramTick_mirror (dram : TuDramRuntime) : tuDramTick dram.mirror = (tuDramTick dram).mirror := by
  have hbandwidth := ensureBandwidth_mirror { dram with currentCycle := dram.currentCycle + 1 }
  have htick : ∀ d : TuDramRuntime, tuDramTick d =
      refreshCatchup (ensureBandwidth { d with currentCycle := d.currentCycle + 1 })
        (ensureBandwidth { d with currentCycle := d.currentCycle + 1 }).currentCycle false := fun _ => rfl
  have hnext : { dram.mirror with currentCycle := dram.mirror.currentCycle + 1 } =
      mirror { dram with currentCycle := dram.currentCycle + 1 } := rfl
  rw [htick, htick, hnext, hbandwidth]
  exact refreshCatchup_mirror _ _ false

/-- The conflicts that an access counts without an explicit row policy. -/
theorem access_rowConflicts {dram : TuDramRuntime} (htype : dram.setup.type ≠ .ideal)
    (hrows : CountsLegacyMiss dram.setup) (direction : TuDramDirection) (addr : Nat) {numBytes : UInt32}
    (hbytes : numBytes ≠ 0) :
    (access dram direction addr numBytes).1.stats.totalRowConflicts =
      dram.stats.totalRowConflicts + if direction = .read then 1 else 0 := by
  have hbegin : (beginAccess dram).setup = dram.setup ∧
      (beginAccess dram).stats.totalRowConflicts = dram.stats.totalRowConflicts := by
    apply refreshCatchup_induction (P := fun d => d.stats.totalRowConflicts = dram.stats.totalRowConflicts)
    · exact fun _ _ _ _ _ _ h => h
    · rw [ensureBandwidth_eq]
    · rw [ensureBandwidth_eq]
  have hturned : (turnedAround dram direction addr).1.setup = dram.setup ∧
      (turnedAround dram direction addr).1.stats.totalRowConflicts = dram.stats.totalRowConflicts := by
    unfold turnedAround
    rw [turnaroundFor_eq]
    exact hbegin
  generalize hd : (turnedAround dram direction addr).1 = d at hturned
  have hrow : (rowPenaltyFor d direction addr).1.stats.totalRowConflicts =
      d.stats.totalRowConflicts + if direction = .read then 1 else 0 := by
    have hlegacy : ¬ d.setup.rowPolicy ≠ .legacy := not_not.2 (hturned.1 ▸ hrows.1)
    cases direction with
    | read =>
      show (readRowPenalty d addr).1.stats.totalRowConflicts = _
      unfold readRowPenalty
      rw [if_neg hlegacy, if_pos (hturned.1 ▸ hrows.2), if_pos rfl]
    | write =>
      show (writeRowPenalty d addr).1.stats.totalRowConflicts = _
      unfold writeRowPenalty
      rw [if_neg hlegacy, if_neg (by decide)]
      rfl
  have hcount : ∀ (s : TuDramStats) (occupied totalCycles stall refreshStall : Nat),
      (countAccess s direction numBytes occupied totalCycles stall refreshStall).totalRowConflicts =
        s.totalRowConflicts := by
    intro s occupied totalCycles stall refreshStall
    cases direction <;> rfl
  rw [access_eq htype direction addr hbytes]
  unfold transfer
  dsimp only
  rw [hcount, hd, hrow, hturned.2]

/-! ### Runs -/

/-- No row accounting of `tu_dram_read` alone meets the operation: it is not an access of at least one byte under the
legacy policy with `model_row_conflicts`. -/
def DirectionBlind (setup : TuDramSetup) (op : TuDramOp) : Prop :=
  ¬ CountsLegacyMiss setup ∨ op = .tick ∨ op.nonempty = false

theorem directionBlind_ofAccess (setup : TuDramSetup) (addr : Nat) (numBytes : UInt32) (direction : TuDramDirection) :
    DirectionBlind setup (ofAccess addr numBytes direction) ↔ ¬ CountsLegacyMiss setup ∨ numBytes = 0 := by
  have htick : ofAccess addr numBytes direction ≠ .tick := by cases direction <;> nofun
  unfold DirectionBlind
  simp [htick]

/-- The states of a run and of the run with reads and writes exchanged. -/
structure Mirrored (setup : TuDramSetup) (exchanged dram : TuDramRuntime) : Prop where
  setup : dram.setup = setup
  image : exchanged = dram.mirror

theorem observe_mirrored {setup : TuDramSetup} (htype : setup.type ≠ .ideal) (hsymm : Symmetric setup)
    {exchanged dram : TuDramRuntime} (h : Mirrored setup exchanged dram) {op : TuDramOp}
    (hop : DirectionBlind setup op) :
    (exchanged.observe op.flip).2 = (dram.observe op).2 ∧
      Mirrored setup (exchanged.observe op.flip).1 (dram.observe op).1 := by
  obtain ⟨rfl, rfl⟩ := h
  rcases tick_or_access op with rfl | ⟨addr, numBytes, direction, rfl⟩
  · have hsetup : (tuDramTick dram).setup = dram.setup :=
      (refreshCatchup_setup _ _ _).trans (ensureBandwidth_keeps _).setup
    show report (tuDramTick dram.mirror, 0, 0) = report (tuDramTick dram, 0, 0) ∧
      Mirrored dram.setup (tuDramTick dram.mirror) (tuDramTick dram)
    rw [tuDramTick_mirror]
    exact ⟨rfl, hsetup, rfl⟩
  · have hsetup : (access dram direction addr numBytes).1.setup = dram.setup := by
      rw [← step_ofAccess]
      exact step_setup dram _
    rw [directionBlind_ofAccess] at hop
    rw [flip_ofAccess, observe_ofAccess, observe_ofAccess, access_mirror htype hsymm hop direction addr]
    exact ⟨rfl, hsetup, rfl⟩

theorem observe_ne_of_not_directionBlind {setup : TuDramSetup} (htype : setup.type ≠ .ideal)
    {exchanged dram : TuDramRuntime} (h : Mirrored setup exchanged dram) {op : TuDramOp}
    (hop : ¬ DirectionBlind setup op) : (exchanged.observe op.flip).2 ≠ (dram.observe op).2 := by
  obtain ⟨rfl, rfl⟩ := h
  rcases tick_or_access op with rfl | ⟨addr, numBytes, direction, rfl⟩
  · exact absurd (Or.inr (Or.inl rfl)) hop
  · rw [directionBlind_ofAccess, not_or, not_not] at hop
    obtain ⟨hrows, hbytes⟩ := hop
    have hcount := access_rowConflicts htype hrows direction addr hbytes
    have hcount' : (access dram.mirror direction.flip addr numBytes).1.stats.totalRowConflicts =
        dram.stats.totalRowConflicts + if direction.flip = .read then 1 else 0 :=
      access_rowConflicts (show dram.mirror.setup.type ≠ .ideal from htype) hrows direction.flip addr hbytes
    rw [flip_ofAccess, observe_ofAccess, observe_ofAccess]
    intro heq
    have hconflicts := congrArg TuDramReport.rowConflicts heq
    simp only [report, hcount, hcount'] at hconflicts
    cases direction <;> simp [TuDramDirection.flip] at hconflicts

/-- Exchanging reads and writes changes no report of a run exactly if no access of the run meets the row accounting
that only reads have. -/
theorem exchanged_run_reports {setup : TuDramSetup} (htype : setup.type ≠ .ideal) (hsymm : Symmetric setup)
    (ops : List TuDramOp) :
    Run.outputs observe (fresh setup) (ops.map TuDramOp.flip) = Run.outputs observe (fresh setup) ops ↔
      ∀ op ∈ ops, DirectionBlind setup op := by
  rw [Run.outputs_map]
  apply Run.outputs_eq_iff_of_simulation (R := Mirrored setup)
  · exact fun _ _ _ h hop => observe_mirrored htype hsymm h hop
  · exact fun _ _ _ h hop => observe_ne_of_not_directionBlind htype h hop
  · exact ⟨rfl, rfl⟩

theorem exchanged_run_reports_ddr4 :
    (tuDramCreate .ddr4).setup.type ≠ .ideal ∧ Symmetric (tuDramCreate .ddr4).setup ∧
      (Run.outputs observe (tuDramCreate .ddr4) ([.read 0 64, .tick, .write 4096 64].map TuDramOp.flip) =
          Run.outputs observe (tuDramCreate .ddr4) [.read 0 64, .tick, .write 4096 64] ↔
        ∀ op ∈ [.read 0 64, .tick, .write 4096 64], DirectionBlind (tuDramCreate .ddr4).setup op) :=
  ⟨by decide, ⟨rfl, rfl, rfl⟩,
    exchanged_run_reports (by decide) ⟨rfl, rfl, rfl⟩ [.read 0 64, .tick, .write 4096 64]⟩

/-- One read of a memory with symmetric parameters takes ten cycles more than the write of the same bytes, and counts a
conflict that the write does not count. -/
theorem read_costs_more_than_write :
    let setup := { (tuDramCreate .ddr4).setup with modelRowConflicts := true };
    setup.type ≠ .ideal ∧ Symmetric setup ∧
      Run.outputs observe (fresh setup) [.read 0 64] = [⟨85, 1000, 0, 1⟩] ∧
      Run.outputs observe (fresh setup) [.write 0 64] = [⟨75, 1000, 0, 0⟩] := by
  refine ⟨by decide, ⟨rfl, rfl, rfl⟩, ?_, ?_⟩
  · decide +kernel
  · decide +kernel

end Tusim
