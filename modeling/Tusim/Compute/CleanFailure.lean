import Tusim.Compute.CycleAccounting
import Tusim.SramAccess

/-!
# Failing calls

The bounds checks of the top-level calls only report: what follows them runs in any case.  A transfer that does not fit is
refused by the engine, or by the region, but its bytes are counted all the same (`step_totalDmaBytes`), and a multiply is
counted and executed (`step_totalMmaCalls`).  So a call whose ranges do not fit leaves everything as it was only if it is
a transfer of no bytes, or a multiply of a core that is not initialised (`cleanFailure_iff`).
-/

namespace Tusim

open Word Run

/-- The fields of a region besides its banks and bytes. -/
structure TuRegionMeters where
  reads : Nat := 0
  writes : Nat := 0
  conflicts : Nat := 0
  stallCycles : Nat := 0
  arbMode : UInt8 := tuSramArbMode
  wordMetering : Nat := 0
  name : String

/-- The core with all of its output region. -/
structure TuMeteredCore extends TuToplevel where
  outputMeters : TuRegionMeters

/-- A call of the top level. -/
inductive CoreCall
  | top (call : TopCall)
  | loadO (hostPtr : Nat) (tuOffset sizeBytes : UInt32)

namespace TuMeteredCore

variable (s s' : TuMeteredCore)

/-- `g_tu.sram_o` -/
def outputRegion : TuCoreRegion :=
  { s.sramO with
    reads := s.outputMeters.reads
    writes := s.outputMeters.writes
    conflicts := s.outputMeters.conflicts
    stallCycles := s.outputMeters.stallCycles
    arbMode := s.outputMeters.arbMode
    wordMetering := s.outputMeters.wordMetering
    name := s.outputMeters.name }

def setOutputRegion (r : TuCoreRegion) : TuMeteredCore :=
  { s with
    sramO := r.toTuSramRegion
    outputMeters :=
      { reads := r.reads, writes := r.writes, conflicts := r.conflicts, stallCycles := r.stallCycles, arbMode := r.arbMode,
        wordMetering := r.wordMetering, name := r.name } }

/-- The cycles of the bus for `size` bytes; the sum has 32 bits. -/
def busCycles (cfg : TuDmaConfig) (size : Nat) : Nat := u32 (size + cfg.busWidthBytes - 1) / cfg.busWidthBytes

/-- The cycles to issue the read bursts of `size` bytes. -/
def issueCycles (cfg : TuDmaConfig) (size : Nat) : Nat :=
  u64 (u64 (size + cfg.readMaxBurstBytes - 1) / cfg.readMaxBurstBytes * cfg.readBurstIssueCycles)

/-- `tu_dma_load_o`, which writes the region itself. -/
def tuDmaLoadO (hostPtr : Nat) (tuOffset sizeBytes : UInt32) : TuMeteredCore :=
  let written := s.setOutputRegion
    (Sram.tuSramWriteBulk s.outputRegion tuOffset.toNat (fun i => s.host (hostPtr + i)) sizeBytes.toNat).1
  { written with
    totalDmaBytes := u64 (s.totalDmaBytes + sizeBytes.toNat)
    estimatedCycles := u64 (u64 (s.estimatedCycles + busCycles s.cfg.dma sizeBytes.toNat) +
      issueCycles s.cfg.dma sizeBytes.toNat) }

def step {R : Type} (fmt : MmaFormats R) (s : TuMeteredCore) : CoreCall → TuMeteredCore
  | .top call => { s with toTuToplevel := s.toTuToplevel.step fmt call }
  | .loadO hostPtr tuOffset sizeBytes => s.tuDmaLoadO hostPtr tuOffset sizeBytes

/-! ### Clean failure -/

/-- A range of bytes that lies in a region, in unbounded integers. -/
def RangeInside (r : TuSramRegion) (offset : UInt32) (size : Nat) : Prop := offset.toNat + size ≤ r.totalSize.toNat

instance (r : TuSramRegion) (offset : UInt32) (size : Nat) : Decidable (RangeInside r offset size) :=
  inferInstanceAs (Decidable (_ ≤ _))

/-- All operand ranges of a call lie inside the regions. -/
def RangesInside : CoreCall → Prop
  | .top (.loadW _ tuOffset sizeBytes) => RangeInside s.sramW tuOffset sizeBytes.toNat
  | .top (.loadA _ tuOffset sizeBytes) => RangeInside s.sramA tuOffset sizeBytes.toNat
  | .top (.storeO _ tuOffset sizeBytes) => RangeInside s.sramO tuOffset sizeBytes.toNat
  | .loadO _ tuOffset sizeBytes => RangeInside s.sramO tuOffset sizeBytes.toNat
  | .top (.mma c) =>
    RangeInside s.sramW c.wOffset (2 * (c.M.toNat * c.K.toNat)) ∧
      RangeInside s.sramA c.aOffset (2 * (c.K.toNat * c.N.toNat)) ∧
      RangeInside s.sramO c.oOffset (4 * (c.M.toNat * c.N.toNat))

/-- No byte of a region or of the host and no counter differs; the counters are compared in 64 bits. -/
structure Unchanged : Prop where
  sramW : s'.sramW = s.sramW
  sramA : s'.sramA = s.sramA
  sramO : s'.sramO = s.sramO
  outputMeters : s'.outputMeters = s.outputMeters
  host : s'.host = s.host
  totalDmaBytes : u64 s'.totalDmaBytes = u64 s.totalDmaBytes
  totalMmaCalls : u64 s'.totalMmaCalls = u64 s.totalMmaCalls
  totalMmaTiles : u64 s'.totalMmaTiles = u64 s.totalMmaTiles
  totalMmaFlops : u64 s'.totalMmaFlops = u64 s.totalMmaFlops
  estimatedCycles : u64 s'.estimatedCycles = u64 s.estimatedCycles
  dmaEstimatedCycles : u64 s'.dmaEstimatedCycles = u64 s.dmaEstimatedCycles
  engineTotalBytes : u64 s'.engineTotalBytes = u64 s.engineTotalBytes
  engineTotalTransfers : u64 s'.engineTotalTransfers = u64 s.engineTotalTransfers
  engineEstimatedCycles : u64 s'.engineEstimatedCycles = u64 s.engineEstimatedCycles

/-- The call fits, or changes nothing. -/
def CleanFailure {R : Type} (fmt : MmaFormats R) (call : CoreCall) : Prop :=
  s.RangesInside call ∨ Unchanged s (s.step fmt call)

/-- A call that has nothing to do: a transfer of no bytes, a multiply of a core that is not initialised. -/
def HasNothingToDo : CoreCall → Prop
  | .top (.loadW _ _ sizeBytes) => sizeBytes = 0
  | .top (.loadA _ _ sizeBytes) => sizeBytes = 0
  | .top (.storeO _ _ sizeBytes) => sizeBytes = 0
  | .loadO _ _ sizeBytes => sizeBytes = 0
  | .top (.mma _) => s.initialized = false

/-! ### What is counted in any case -/

variable {R : Type} (fmt : MmaFormats R)

/-- The bytes of a transfer. -/
def transferBytes : CoreCall → Nat
  | .top (.loadW _ _ sizeBytes) => sizeBytes.toNat
  | .top (.loadA _ _ sizeBytes) => sizeBytes.toNat
  | .top (.storeO _ _ sizeBytes) => sizeBytes.toNat
  | .loadO _ _ sizeBytes => sizeBytes.toNat
  | .top (.mma _) => 0

/-- Every transfer counts its bytes, whatever becomes of them. -/
theorem step_totalDmaBytes {call : CoreCall} (h : ∀ c, call ≠ .top (.mma c)) :
    (s.step fmt call).totalDmaBytes = u64 (s.totalDmaBytes + transferBytes call) := by
  have hload (dst : TuSramRegion) (hostPtr : Nat) (tuOffset sizeBytes : UInt32) :
      (s.toTuToplevel.tuDmaLoad dst tuOffset hostPtr sizeBytes).1.totalDmaBytes = s.totalDmaBytes := by
    unfold TuToplevel.tuDmaLoad
    split <;> rfl
  have hstore (src : TuSramRegion) (hostPtr : Nat) (tuOffset sizeBytes : UInt32) :
      (s.toTuToplevel.tuDmaStore src tuOffset hostPtr sizeBytes).totalDmaBytes = s.totalDmaBytes := by
    unfold TuToplevel.tuDmaStore
    split <;> rfl
  cases call with
  | loadO hostPtr tuOffset sizeBytes => rfl
  | top call =>
    cases call with
    | loadW hostPtr tuOffset sizeBytes =>
      exact congrArg (fun n => u64 (n + sizeBytes.toNat)) (hload s.sramW hostPtr tuOffset sizeBytes)
    | loadA hostPtr tuOffset sizeBytes =>
      exact congrArg (fun n => u64 (n + sizeBytes.toNat)) (hload s.sramA hostPtr tuOffset sizeBytes)
    | storeO hostPtr tuOffset sizeBytes =>
      exact congrArg (fun n => u64 (n + sizeBytes.toNat)) (hstore s.sramO hostPtr tuOffset sizeBytes)
    | mma c => exact absurd rfl (h c)

/-- An initialised core counts every multiply. -/
theorem step_totalMmaCalls (hinit : s.initialized = true) (c : MmaCall) :
    (s.step fmt (.top (.mma c))).totalMmaCalls = u64 (s.totalMmaCalls + 1) := by
  obtain ⟨t, cycles, ht, -⟩ := tuMma_adds fmt (Nat.le_refl _) s.toTuToplevel c
  have hstep : s.toTuToplevel.step fmt (.mma c) = t := congrArg (Option.getD · s.toTuToplevel) ht
  have hcalls : t.totalMmaCalls = u64 (s.totalMmaCalls + 1) := by
    unfold tuMma at ht
    simp only [hinit, Bool.not_true, Bool.false_eq_true, if_false] at ht
    cases hplugin : s.dataflow with
    | some plugin =>
      rw [hplugin] at ht
      obtain ⟨r, -, rfl⟩ := Option.map_eq_some_iff.1 ht
      rfl
    | none =>
      rw [hplugin] at ht
      obtain ⟨r, -, rfl⟩ := Option.map_eq_some_iff.1 ht
      rfl
  exact (congrArg TuToplevel.totalMmaCalls hstep).trans hcalls

theorem u64_add_ne {n k : Nat} (hpos : 0 < k) (hlt : k < 2 ^ 64) : u64 (u64 (n + k)) ≠ u64 n := by
  unfold u64
  omega

/-! ### Calls that have nothing to do -/

theorem exceeds_of_not_inside {r : TuSramRegion} {offset : UInt32} (h : ¬ RangeInside r offset 0) :
    TuToplevel.exceeds r offset 0 = true := by
  unfold RangeInside at h
  unfold TuToplevel.exceeds
  rw [UInt32.add_zero, decide_eq_true_eq, gt_iff_lt, UInt32.lt_iff_toNat_lt]
  omega

theorem u64_u64_add_zero (n : Nat) : u64 (u64 (n + 0)) = u64 n := Nat.mod_mod n _

theorem step_top (call : TopCall) :
    s.step fmt (.top call) = { s with toTuToplevel := s.toTuToplevel.step fmt call } := rfl

/-- The accounting at the end of a transfer of no bytes. -/
theorem unchanged_accountTransfer (hdma : s.dmaEstimatedCycles = 0) :
    Unchanged s { s with toTuToplevel := s.toTuToplevel.accountTransfer 0 } where
  sramW := rfl
  sramA := rfl
  sramO := rfl
  outputMeters := rfl
  host := rfl
  totalDmaBytes := u64_u64_add_zero s.totalDmaBytes
  totalMmaCalls := rfl
  totalMmaTiles := rfl
  totalMmaFlops := rfl
  estimatedCycles := by
    show u64 (u64 (s.estimatedCycles + s.dmaEstimatedCycles)) = _
    rw [hdma, u64_u64_add_zero]
  dmaEstimatedCycles := by rw [hdma]; rfl
  engineTotalBytes := rfl
  engineTotalTransfers := rfl
  engineEstimatedCycles := rfl

/-- A refused transfer of no bytes. -/
theorem unchanged_of_refused (hdma : s.dmaEstimatedCycles = 0) {call : TopCall}
    (h : s.toTuToplevel.step fmt call = s.toTuToplevel.accountTransfer 0) : Unchanged s (s.step fmt (.top call)) := by
  rw [step_top, h]
  exact unchanged_accountTransfer s hdma

theorem busCycles_zero (cfg : TuDmaConfig) : busCycles cfg 0 = 0 := by
  have hpos := cfg.busWidthBytes_pos
  have hle := cfg.busWidthBytes_le
  have hsum : u32 (0 + cfg.busWidthBytes - 1) < cfg.busWidthBytes := by
    unfold u32
    omega
  exact Nat.div_eq_of_lt hsum

theorem issueCycles_zero (cfg : TuDmaConfig) : issueCycles cfg 0 = 0 := by
  have hpos := cfg.readMaxBurstBytes_pos
  have hle := cfg.readMaxBurstBytes_le
  have hsum : u64 (0 + cfg.readMaxBurstBytes - 1) < cfg.readMaxBurstBytes := by
    unfold u64
    omega
  unfold issueCycles
  rw [Nat.div_eq_of_lt hsum, Nat.zero_mul]
  rfl

theorem unchanged_tuDmaLoadO (hostPtr : Nat) (tuOffset : UInt32) : Unchanged s (s.tuDmaLoadO hostPtr tuOffset 0) where
  sramW := rfl
  sramA := rfl
  sramO := by simp [tuDmaLoadO, Sram.tuSramWriteBulk, setOutputRegion, outputRegion]
  outputMeters := by simp [tuDmaLoadO, Sram.tuSramWriteBulk, setOutputRegion, outputRegion]
  host := rfl
  totalDmaBytes := u64_u64_add_zero s.totalDmaBytes
  totalMmaCalls := rfl
  totalMmaTiles := rfl
  totalMmaFlops := rfl
  estimatedCycles := by
    show u64 (u64 (u64 (s.estimatedCycles + busCycles s.cfg.dma 0) + issueCycles s.cfg.dma 0)) = _
    rw [busCycles_zero, issueCycles_zero, u64_u64_add_zero, u64_u64_add_zero]
  dmaEstimatedCycles := rfl
  engineTotalBytes := rfl
  engineTotalTransfers := rfl
  engineEstimatedCycles := rfl

theorem Unchanged.refl : Unchanged s s :=
  ⟨rfl, rfl, rfl, rfl, rfl, rfl, rfl, rfl, rfl, rfl, rfl, rfl, rfl, rfl⟩

/-- A call that has nothing to do does nothing if its ranges do not fit. -/
theorem unchanged_of_hasNothingToDo (hdma : s.dmaEstimatedCycles = 0) {call : CoreCall} (h : s.HasNothingToDo call)
    (hout : ¬ s.RangesInside call) : Unchanged s (s.step fmt call) := by
  cases call with
  | loadO hostPtr tuOffset sizeBytes =>
    obtain rfl : sizeBytes = 0 := h
    exact unchanged_tuDmaLoadO s hostPtr tuOffset
  | top call =>
    cases call with
    | loadW hostPtr tuOffset sizeBytes =>
      obtain rfl : sizeBytes = 0 := h
      refine unchanged_of_refused s fmt hdma ?_
      unfold TuToplevel.step TuToplevel.tuDmaLoadW TuToplevel.tuDmaLoad
      simp only [exceeds_of_not_inside hout, if_true]
    | loadA hostPtr tuOffset sizeBytes =>
      obtain rfl : sizeBytes = 0 := h
      refine unchanged_of_refused s fmt hdma ?_
      unfold TuToplevel.step TuToplevel.tuDmaLoadA TuToplevel.tuDmaLoad
      simp only [exceeds_of_not_inside hout, if_true]
    | storeO hostPtr tuOffset sizeBytes =>
      obtain rfl : sizeBytes = 0 := h
      refine unchanged_of_refused s fmt hdma ?_
      unfold TuToplevel.step TuToplevel.tuDmaStoreO TuToplevel.tuDmaStore
      simp only [exceeds_of_not_inside hout, if_true]
    | mma c =>
      have hinit : s.initialized = false := h
      have hstep : s.toTuToplevel.step fmt (.mma c) = s.toTuToplevel := by
        unfold TuToplevel.step tuMma
        simp [hinit]
      rw [step_top, hstep]
      exact .refl s

/-- A call fails cleanly if and only if it fits or has nothing to do. -/
theorem cleanFailure_iff (hdma : s.dmaEstimatedCycles = 0) (call : CoreCall) :
    s.CleanFailure fmt call ↔ s.RangesInside call ∨ s.HasNothingToDo call := by
  constructor
  · rintro (hinside | hsame)
    · exact .inl hinside
    -- the counter that moves tells that there was nothing to do
    refine .inr ?_
    have hbytes (h : ∀ c, call ≠ .top (.mma c)) (hlt : transferBytes call < 2 ^ 64) : transferBytes call = 0 := by
      by_contra hne
      have hcount := hsame.totalDmaBytes
      rw [step_totalDmaBytes s fmt h] at hcount
      exact u64_add_ne (Nat.pos_of_ne_zero hne) hlt hcount
    have hzero {n : UInt32} (h : n.toNat = 0) : n = 0 := UInt32.toNat_inj.1 h
    have hlt (n : UInt32) : n.toNat < 2 ^ 64 := n.toNat_lt.trans (by decide)
    cases call with
    | loadO hostPtr tuOffset sizeBytes => exact hzero (hbytes (fun c => nofun) (hlt sizeBytes))
    | top call =>
      cases call with
      | loadW hostPtr tuOffset sizeBytes => exact hzero (hbytes (fun c => nofun) (hlt sizeBytes))
      | loadA hostPtr tuOffset sizeBytes => exact hzero (hbytes (fun c => nofun) (hlt sizeBytes))
      | storeO hostPtr tuOffset sizeBytes => exact hzero (hbytes (fun c => nofun) (hlt sizeBytes))
      | mma c =>
        have hcount := hsame.totalMmaCalls
        cases hinit : s.initialized with
        | false => exact hinit
        | true =>
          rw [step_totalMmaCalls s fmt hinit] at hcount
          exact absurd hcount (u64_add_ne Nat.one_pos (by decide))
  · rintro (hinside | hnothing)
    · exact .inl hinside
    · by_cases hinside : s.RangesInside call
      · exact .inl hinside
      · exact .inr (unchanged_of_hasNothingToDo s fmt hdma hnothing hinside)

theorem step_dmaEstimatedCycles (hdma : s.dmaEstimatedCycles = 0) (call : CoreCall) :
    (s.step fmt call).dmaEstimatedCycles = 0 := by
  cases call with
  | loadO hostPtr tuOffset sizeBytes => exact hdma
  | top call =>
    obtain ⟨-, -, -, -, h⟩ := s.toTuToplevel.step_adds fmt hdma call
    exact h

/-- A core right after initialisation. -/
def fresh (cfg : TuToplevelConfig) (sramW sramA : TuSramRegion) (sramO : TuCoreRegion) (host : Nat → UInt8)
    (dataflow : Option TuDataflowPlugin) : TuMeteredCore :=
  let core := TuToplevel.fresh cfg sramW sramA sramO.toTuSramRegion host dataflow
  ({ core with outputMeters := { name := sramO.name } } : TuMeteredCore).setOutputRegion sramO

end TuMeteredCore

/-- From initialisation on, with any configuration and any calls: the next call fits or changes nothing if and only if it
fits or has nothing to do. -/
theorem fails_cleanly_iff {R : Type} (fmt : MmaFormats R) (cfg : TuToplevelConfig) (sramW sramA : TuSramRegion)
    (sramO : TuCoreRegion) (host : Nat → UInt8) (dataflow : Option TuDataflowPlugin) (calls : List CoreCall)
    (call : CoreCall) :
    let s := exec (TuMeteredCore.step fmt) (.fresh cfg sramW sramA sramO host dataflow) calls
    s.CleanFailure fmt call ↔ s.RangesInside call ∨ s.HasNothingToDo call := by
  intro s
  have hdma : s.dmaEstimatedCycles = 0 :=
    Run.invariant (P := fun s : TuMeteredCore => s.dmaEstimatedCycles = 0)
      (fun s call h => s.step_dmaEstimatedCycles fmt h call) rfl calls
  exact s.cleanFailure_iff fmt hdma call

/-- A load of 4 bytes past the end of a region of 64 bytes is refused, but counted. -/
theorem load_fails_uncleanly :
    let banks : TuSramBank :=
      { bankCount := 1, bankWidth := 4, bwBanks := fun _ => { wordsAvailable := 0, lastRefillCycle := 0 }
        bwRefillWindow := 0, currentCycle := 0, wordsPerCycle := 1, stallPenalty := 0, bwModeling := false }
    let region : TuSramRegion := { banks := banks, data := fun _ => 0, totalSize := 64, db := none }
    let output : TuCoreRegion :=
      { region with reads := 0, writes := 0, conflicts := 0, stallCycles := 0, arbMode := 1, wordMetering := 0
                    name := "sram_o" }
    let dma : TuDmaConfig :=
      { asyncMode := false, numChannels := 3, maxDepth := 4, numChannels_pos := by decide, numChannels_le := by decide
        maxDepth_pos := by decide }
    let cfg : TuToplevelConfig :=
      { peRows := 4, peCols := 4, pePipelineDepth := 2, dma := dma, peRows_ne := by decide, peCols_ne := by decide }
    let fmt : MmaFormats Int :=
      { operands := fun _ _ _ _ _ =>
          { zero := 0, add := (· + ·), mul := (· * ·), w := fun _ => 0, a := fun _ => 0, loadO := fun _ _ => 0
            storeO := fun o _ _ => o }
        expandBias := fun o _ _ _ => o }
    let s := TuMeteredCore.fresh cfg region region output (fun _ => 0) (some { id := .weightStationary })
    let call : CoreCall := .top (.loadW 4096 64 4)
    ¬ s.RangesInside call ∧ (s.step fmt call).totalDmaBytes = 4 ∧ ¬ s.CleanFailure fmt call := by
  intro banks region output dma cfg fmt s call
  have hcount : (s.step fmt call).totalDmaBytes = 4 := by decide
  have hout : ¬ (64 + 4 ≤ 64) := by decide
  refine ⟨hout, hcount, ?_⟩
  rintro (hinside | hsame)
  · exact hout hinside
  · have h := hsame.totalDmaBytes
    rw [hcount] at h
    exact absurd h (by decide)

end Tusim
