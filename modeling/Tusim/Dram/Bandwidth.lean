import Tusim.Dram.Refresh

/-!
# The bandwidth window

Every access takes its occupied bytes off the remaining budget of the window and adds them to the pending bytes.  Each
of the two counters takes every byte once (`run_metered`), but an access compares the pending bytes with the remaining
budget, so that the bytes charged before count twice against the budget: an access stalls as soon as twice the charged
bytes and its own exceed it (`bandwidth_run`).
-/

namespace Tusim

open TuDramRuntime

/-- The two counters of the window and the bytes charged to it. -/
structure Metered (b : TuDramBandwidth) : Prop where
  pending : b.pendingReadBytes + b.pendingWriteBytes = b.charges.sum
  available : b.bandwidthAvailable = b.installed - b.charges.sum

/-- The bytes that the counters hold against the budget when an access compares them. -/
def countedBytes (b : TuDramBandwidth) : Nat :=
  b.pendingReadBytes + b.pendingWriteBytes + (b.installed - b.bandwidthAvailable)

theorem Metered.chargeBandwidth {b : TuDramBandwidth} (h : Metered b) (direction : TuDramDirection) (occupied : Nat) :
    Metered (chargeBandwidth b direction occupied) := by
  have hp := h.pending
  have ha := h.available
  cases direction with
  | read =>
    refine ⟨?_, ?_⟩
    · simp only [Tusim.chargeBandwidth, List.sum_append, List.sum_singleton]
      omega
    · simp only [Tusim.chargeBandwidth, List.sum_append, List.sum_singleton]
      split <;> omega
  | write =>
    refine ⟨?_, ?_⟩
    · simp only [Tusim.chargeBandwidth, List.sum_append, List.sum_singleton]
      omega
    · simp only [Tusim.chargeBandwidth, List.sum_append, List.sum_singleton]
      split <;> omega

theorem Metered.ensureBandwidth {dram : TuDramRuntime} (h : Metered dram.bandwidth) :
    Metered (ensureBandwidth dram).bandwidth := by
  have hempty : ∀ b : TuDramBandwidth, b.pendingReadBytes = 0 → b.pendingWriteBytes = 0 → b.charges = [] →
      b.bandwidthAvailable = b.installed → Metered b := by
    intro b hread hwrite hcharges hinstalled
    refine ⟨?_, ?_⟩
    · rw [hread, hwrite, hcharges, List.sum_nil, Nat.add_zero]
    · rw [hinstalled, hcharges, List.sum_nil, Nat.sub_zero]
  unfold Tusim.ensureBandwidth
  dsimp only
  split
  · split
    · exact hempty _ rfl rfl rfl rfl
    · exact ⟨h.pending, h.available⟩
  · split
    · exact hempty _ rfl rfl rfl rfl
    · exact h

/-- After the check of the window it has not run out. -/
theorem windowElapsed_ensureBandwidth (dram : TuDramRuntime) :
    windowElapsed (ensureBandwidth dram) < (ensureBandwidth dram).bandwidth.bwWindowSizeCycles := by
  have hnow : ∀ c : Nat, Word.u64 (c + 2 ^ 64 - c) = 0 := by
    intro c
    rw [Nat.add_sub_cancel_left]
    rfl
  unfold ensureBandwidth
  dsimp only
  by_cases hsize : dram.bandwidth.bwWindowSizeCycles = 0
  · rw [if_pos hsize]
    split
    · show Word.u64 (dram.currentCycle + 2 ^ 64 - dram.currentCycle) < 1000
      rw [hnow]
      decide
    · rename_i hlt
      exact Nat.lt_of_not_le hlt
  · rw [if_neg hsize]
    split
    · show Word.u64 (dram.currentCycle + 2 ^ 64 - dram.currentCycle) < dram.bandwidth.bwWindowSizeCycles
      rw [hnow]
      exact Nat.pos_of_ne_zero hsize
    · rename_i hlt
      exact Nat.lt_of_not_le hlt

theorem bandwidthStall_ne_zero {dram : TuDramRuntime} {occupied : Nat} :
    bandwidthStall (ensureBandwidth dram) occupied ≠ 0 ↔ exceedsBandwidth (ensureBandwidth dram) occupied = true := by
  have hlt := windowElapsed_ensureBandwidth dram
  unfold bandwidthStall
  split
  · rename_i hex
    exact ⟨fun _ => hex, fun _ => by omega⟩
  · rename_i hex
    exact ⟨fun h => absurd rfl h, fun h => absurd h hex⟩

/-! ### What the parts of an access leave alone -/

/-- The turnaround records the direction; the availability and the transfers of the channels stay. -/
theorem turnaroundFor_channels (dram : TuDramRuntime) (channel : Nat) (new : TuDramDirection) (i : Nat) :
    ((turnaroundFor dram channel new).1.channels i).availableCycle = (dram.channels i).availableCycle ∧
      ((turnaroundFor dram channel new).1.channels i).transfers = (dram.channels i).transfers := by
  unfold turnaroundFor
  dsimp only
  split
  · exact ⟨rfl, rfl⟩
  · dsimp only
    by_cases h : i = channel
    · rw [h, Function.update_self]
      exact ⟨rfl, rfl⟩
    · rw [Function.update_of_ne h]
      exact ⟨rfl, rfl⟩

/-- The row accounting leaves the window and the channels alone. -/
theorem withRows_bus (dram dram' : TuDramRuntime) :
    (withRows dram dram').bandwidth = dram.bandwidth ∧ (withRows dram dram').channels = dram.channels := ⟨rfl, rfl⟩

/-- Contention only looks at the clock, the window and the availability of the channel. -/
theorem transfer_stall {dram dram' : TuDramRuntime} (hsetup : dram'.setup = dram.setup)
    (hcycle : dram'.currentCycle = dram.currentCycle) (hbandwidth : dram'.bandwidth = dram.bandwidth) {channel : Nat}
    (hchannel : (dram'.channels channel).availableCycle = (dram.channels channel).availableCycle)
    (direction : TuDramDirection) (addr : Nat) (numBytes : UInt32) (totalCycles refreshStall : Nat) :
    (transfer dram' direction channel addr numBytes totalCycles refreshStall).2.2 =
      channelStall dram channel + bandwidthStall dram (occupiedBytesFor dram.setup addr numBytes direction) := by
  unfold transfer channelStall bandwidthStall exceedsBandwidth windowElapsed
  rw [hsetup, hcycle, hbandwidth, hchannel]

theorem ensureBandwidth_channels (dram : TuDramRuntime) : (ensureBandwidth dram).channels = dram.channels := by
  rw [ensureBandwidth_eq]

/-- A timed access is a transfer after steps that leave the clock, the window and the availability of the channels
as they are after `ensureBandwidth`. -/
theorem access_transfer {dram : TuDramRuntime} (htype : dram.setup.type ≠ .ideal) (direction : TuDramDirection)
    (addr : Nat) {numBytes : UInt32} (hbytes : numBytes ≠ 0) :
    ∃ d totalCycles refreshStall,
      access dram direction addr numBytes =
        transfer d direction (decodedPlace dram.setup addr).1 addr numBytes totalCycles refreshStall ∧
      d.setup = dram.setup ∧ d.currentCycle = dram.currentCycle ∧
      d.bandwidth = (ensureBandwidth dram).bandwidth ∧
      ∀ i, (d.channels i).availableCycle = (dram.channels i).availableCycle ∧
        (d.channels i).transfers = (dram.channels i).transfers := by
  have hens := ensureBandwidth_keeps dram
  obtain ⟨hcycle, hband, hchan⟩ := refreshCatchup_frame (ensureBandwidth dram) dram.currentCycle true
  have hturn : (turnedAround dram direction addr).1.bandwidth = (beginAccess dram).bandwidth := by
    unfold turnedAround
    rw [turnaroundFor_eq]
  have hrow := withRows_bus (turnedAround dram direction addr).1
    (rowPenaltyFor (turnedAround dram direction addr).1 direction addr).1
  rw [← rowPenaltyFor_eq] at hrow
  have hturnKeeps := turnaroundFor_keeps (beginAccess dram) (decodedPlace dram.setup addr).1 direction
  have hrowKeeps := rowPenaltyFor_keeps (turnedAround dram direction addr).1 direction addr
  have hbegin : (beginAccess dram).channels = dram.channels := hchan.trans (ensureBandwidth_channels dram)
  refine ⟨_, _, _, access_eq htype direction addr hbytes, ?_, ?_, ?_, fun i => ?_⟩
  · exact hrowKeeps.setup.trans (hturnKeeps.setup.trans ((refreshCatchup_setup ..).trans hens.setup))
  · exact hrowKeeps.cycle.trans (hturnKeeps.cycle.trans (hcycle.trans hens.cycle))
  · exact hrow.1.trans (hturn.trans hband)
  · rw [hrow.2, ← hbegin]
    exact turnaroundFor_channels (beginAccess dram) (decodedPlace dram.setup addr).1 direction i

/-! ### Runs -/

/-- What an operation does to the window: a tick checks it, a timed access checks it and is charged. -/
theorem step_bandwidth {dram : TuDramRuntime} (htype : dram.setup.type ≠ .ideal) (op : TuDramOp) :
    (dram.step op).bandwidth = dram.bandwidth ∨
      (∃ d : TuDramRuntime, d.bandwidth = dram.bandwidth ∧ (dram.step op).bandwidth = (ensureBandwidth d).bandwidth) ∨
      ∃ direction occupied,
        (dram.step op).bandwidth = chargeBandwidth (ensureBandwidth dram).bandwidth direction occupied := by
  rcases op.tick_or_access with rfl | ⟨addr, numBytes, direction, rfl⟩
  · refine Or.inr (Or.inl ⟨{ dram with currentCycle := dram.currentCycle + 1 }, rfl, ?_⟩)
    exact (refreshCatchup_frame ..).2.1
  · rw [TuDramOp.step_ofAccess]
    by_cases hbytes : numBytes = 0
    · left
      rw [hbytes, access_zero]
    · obtain ⟨d, _, _, heq, _, _, hband, _⟩ := access_transfer htype direction addr hbytes
      rw [heq, ← hband]
      exact Or.inr (Or.inr ⟨_, _, rfl⟩)

/-- In every run each counter of the window takes every charged byte once. -/
theorem run_metered {setup : TuDramSetup} (htype : setup.type ≠ .ideal) (ops : List TuDramOp) :
    (Run.exec step (fresh setup) ops).setup = setup ∧ Metered (Run.exec step (fresh setup) ops).bandwidth := by
  refine Run.invariant (P := fun d : TuDramRuntime => d.setup = setup ∧ Metered d.bandwidth) ?_ ⟨rfl, rfl, rfl⟩ ops
  rintro d op ⟨hsetup, hmeter⟩
  refine ⟨(step_setup d op).trans hsetup, ?_⟩
  rcases step_bandwidth (hsetup ▸ htype) op with h | ⟨d', hd', h⟩ | ⟨direction, occupied, h⟩
  · rw [h]
    exact hmeter
  · rw [h]
    exact Metered.ensureBandwidth (hd' ▸ hmeter)
  · rw [h]
    exact hmeter.ensureBandwidth.chargeBandwidth direction occupied

/-- The stall of an access is justified: with its bytes the charged ones exceed the budget of the window. -/
def StallJustified (dram : TuDramRuntime) (occupied : Nat) : Prop :=
  bandwidthStall dram occupied ≠ 0 → dram.bandwidth.installed < dram.bandwidth.charges.sum + occupied

/-- In every run, for every access: its bandwidth stall is justified and each charged byte counts once exactly when
nothing was charged to the window before, or the window has no budget; the stall alone is justified exactly when the
budget covers the bytes charged before twice and the access, or does not cover them once. -/
theorem bandwidth_run {setup : TuDramSetup} (htype : setup.type ≠ .ideal) (ops : List TuDramOp)
    (direction : TuDramDirection) (addr : Nat) {numBytes : UInt32} (hbytes : numBytes ≠ 0) :
    let d := Run.exec step (fresh setup) ops
    let b := (ensureBandwidth d).bandwidth
    let occupied := occupiedBytesFor setup addr numBytes direction
    (access d direction addr numBytes).2.2 =
        channelStall d (decodedPlace setup addr).1 + bandwidthStall (ensureBandwidth d) occupied ∧
      (StallJustified (ensureBandwidth d) occupied ∧ countedBytes b = b.charges.sum ↔
        b.charges.sum = 0 ∨ b.installed = 0) ∧
      (StallJustified (ensureBandwidth d) occupied ↔
        b.installed < b.charges.sum + occupied ∨ 2 * b.charges.sum + occupied ≤ b.installed) := by
  intro d b occupied
  obtain ⟨hsetup, hmeter⟩ := run_metered htype ops
  change d.setup = setup at hsetup
  have hb : Metered b := hmeter.ensureBandwidth
  have hp := hb.pending
  have ha := hb.available
  have hstall : StallJustified (ensureBandwidth d) occupied ↔
      b.installed < b.charges.sum + occupied ∨ 2 * b.charges.sum + occupied ≤ b.installed := by
    unfold StallJustified
    rw [bandwidthStall_ne_zero]
    unfold exceedsBandwidth
    rw [decide_eq_true_eq]
    change (b.pendingReadBytes + b.pendingWriteBytes + occupied > b.bandwidthAvailable →
      b.installed < b.charges.sum + occupied) ↔ _
    omega
  refine ⟨?_, ?_, hstall⟩
  · obtain ⟨d', totalCycles, refreshStall, heq, hs, hcycle, hband, hchan⟩ :=
      access_transfer (hsetup ▸ htype) direction addr hbytes
    have hens := ensureBandwidth_keeps d
    have hchannels := ensureBandwidth_channels d
    rw [heq, transfer_stall (hs.trans hens.setup.symm) (hcycle.trans hens.cycle.symm) hband
      ((hchan _).1.trans (by rw [hchannels])), hens.setup, hsetup]
    congr 1
    unfold channelStall
    rw [hchannels, hens.cycle]
  · rw [hstall]
    unfold countedBytes
    omega

/-- The first access to a window of 256000 bytes. -/
theorem bandwidth_run_hbm2 :
    StallJustified (ensureBandwidth (tuDramCreate .hbm2)) 64 ∧
      countedBytes (ensureBandwidth (tuDramCreate .hbm2)).bandwidth =
        (ensureBandwidth (tuDramCreate .hbm2)).bandwidth.charges.sum := by
  have hbytes : (64 : UInt32) ≠ 0 := by decide
  have htype : (tuDramCreate .hbm2).setup.type ≠ .ideal := by decide
  exact (bandwidth_run htype [] .read 0 hbytes).2.1.2 (Or.inl rfl)

/-- Without refresh a tick inside the window only moves the clock. -/
theorem exec_ticks_within {dram : TuDramRuntime} (hmode : dram.setup.refreshMode = .none) {n : Nat}
    (hstart : dram.bandwidth.bwWindowStart ≤ dram.currentCycle)
    (hwithin : dram.currentCycle + n - dram.bandwidth.bwWindowStart < dram.bandwidth.bwWindowSizeCycles)
    (hsize : dram.bandwidth.bwWindowSizeCycles < 2 ^ 64) :
    Run.exec step dram (List.replicate n .tick) = { dram with currentCycle := dram.currentCycle + n } := by
  induction n with
  | zero => rfl
  | succ n ih =>
    have helapsed : Word.u64 (dram.currentCycle + n + 1 + 2 ^ 64 - dram.bandwidth.bwWindowStart) <
        dram.bandwidth.bwWindowSizeCycles := by
      unfold Word.u64
      omega
    have hne : ¬ dram.bandwidth.bwWindowSizeCycles = 0 := by omega
    rw [List.replicate_succ', Run.exec_append, ih (by omega)]
    have hens : ensureBandwidth { dram with currentCycle := dram.currentCycle + n + 1 } =
        { dram with currentCycle := dram.currentCycle + n + 1 } := by
      unfold ensureBandwidth
      dsimp only
      rw [if_neg hne]
      exact if_neg (Nat.not_le_of_lt helapsed)
    show refreshCatchup (ensureBandwidth { dram with currentCycle := dram.currentCycle + n + 1 }) _ false = _
    rw [hens]
    exact if_pos (Or.inl hmode)

/-- A window of 256000 bytes, two reads of 100000: the second one stalls. -/
theorem not_stallJustified_second_read :
    let d := Run.exec step (tuDramCreate .hbm2) (List.replicate 1001 .tick ++ [.read 0 100000])
    (ensureBandwidth d).bandwidth.installed = 256000 ∧ (ensureBandwidth d).bandwidth.charges = [100000] ∧
      occupiedBytesFor d.setup 64 100000 .read = 100000 ∧ ¬ StallJustified (ensureBandwidth d) 100000 := by
  have hticks : Run.exec step (tuDramCreate .hbm2) (List.replicate 1001 .tick ++ [.read 0 100000]) =
      Run.exec step { (tuDramCreate .hbm2).step .tick with currentCycle := 1000 } [.tick, .read 0 100000] := by
    have hsplit : List.replicate 1001 TuDramOp.tick = .tick :: (List.replicate 999 .tick ++ [.tick]) := by
      rw [← List.replicate_succ', ← List.replicate_succ]
    rw [hsplit, List.cons_append, Run.exec_cons, List.append_assoc, Run.exec_append,
      exec_ticks_within (by decide) (by decide) (by decide) (by decide)]
    rfl
  rw [hticks]
  have hrun : (ensureBandwidth (Run.exec step { (tuDramCreate .hbm2).step .tick with currentCycle := 1000 }
        [.tick, .read 0 100000])).bandwidth.installed = 256000 ∧
      (ensureBandwidth (Run.exec step { (tuDramCreate .hbm2).step .tick with currentCycle := 1000 }
        [.tick, .read 0 100000])).bandwidth.charges = [100000] ∧
      occupiedBytesFor (Run.exec step { (tuDramCreate .hbm2).step .tick with currentCycle := 1000 }
        [.tick, .read 0 100000]).setup 64 100000 .read = 100000 ∧
      bandwidthStall (ensureBandwidth (Run.exec step { (tuDramCreate .hbm2).step .tick with currentCycle := 1000 }
        [.tick, .read 0 100000])) 100000 ≠ 0 := by
    decide +kernel
  generalize Run.exec step { (tuDramCreate .hbm2).step .tick with currentCycle := 1000 }
    [.tick, .read 0 100000] = d at hrun ⊢
  obtain ⟨hinstalled, hcharges, hoccupied, hstall⟩ := hrun
  refine ⟨hinstalled, hcharges, hoccupied, fun h => ?_⟩
  have hlt := h hstall
  rw [hinstalled, hcharges] at hlt
  exact absurd hlt (by decide)

end Tusim
