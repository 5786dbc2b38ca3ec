import Tusim.Lib.Blocks
import Tusim.Sram

/-!
# The state of a core and its saved copy

`ctx_save_full_state` and `ctx_restore_full_state` of the context manager.  The DMA engine structure and the runtime
configuration are copied as they are, so their types are parameters, with `0` for the zeroed structure.  `banks.size` and
`total_size` of a region are always set together and to the same value; `totalSize` stands for both.

`savedFrom` is not in the source: it records the state of the core that a context was last saved from.
-/

namespace Tusim

open Blocks Word

/-- A region with the counters and settings that the DMA engine does not use. -/
structure TuCoreRegion extends TuSramRegion where
  reads : Nat
  writes : Nat
  conflicts : Nat
  stallCycles : Nat
  arbMode : UInt8
  wordMetering : Nat
  name : String

/-- `TU_SRAM_BANKS` -/
def tuSramBanks : UInt32 := 32

/-- `TU_SRAM_BANK_WIDTH` -/
def tuSramBankWidth : UInt32 := 4

/-- `TU_SRAM_WORDS_PER_CYCLE` -/
def tuSramWordsPerCycle : UInt8 := 1

/-- `TU_SRAM_BW_WINDOW_CYCLES` -/
def tuSramBwWindowCycles : Nat := 4

/-- `TU_SRAM_BW_STALL_PENALTY` -/
def tuSramBwStallPenalty : UInt8 := 2

/-- `TU_SRAM_ARB_MODE` -/
def tuSramArbMode : UInt8 := 1

/-- `tu_sram_init_runtime`; a zero selects the default of `tu_config.h`. -/
def tuSramInitRuntime (sizeBytes : UInt32) (name : String) (bankCount bankWidth : UInt32)
    (wordsPerCycle stallPenalty : UInt8) (refillWindow : Nat) : TuCoreRegion where
  banks :=
    { bankCount := if bankCount ≠ 0 then bankCount else tuSramBanks
      bankWidth := if bankWidth ≠ 0 then bankWidth else tuSramBankWidth
      bwBanks := fun _ =>
        { wordsAvailable := (if wordsPerCycle ≠ 0 then wordsPerCycle else tuSramWordsPerCycle).toNat
          lastRefillCycle := 0 }
      bwRefillWindow := if refillWindow ≠ 0 then refillWindow else tuSramBwWindowCycles
      currentCycle := 0
      wordsPerCycle := if wordsPerCycle ≠ 0 then wordsPerCycle else tuSramWordsPerCycle
      stallPenalty := if stallPenalty ≠ 0 then stallPenalty else tuSramBwStallPenalty
      bwModeling := true }
  data := fun _ => 0
  totalSize := sizeBytes
  db := none
  reads := 0
  writes := 0
  conflicts := 0
  stallCycles := 0
  arbMode := tuSramArbMode
  wordMetering := 0
  name := name

/-- `tu_state_t`; `cmdq` and `dataflow` are addresses. -/
structure TuState (D C : Type) where
  sramW : TuCoreRegion
  sramA : TuCoreRegion
  sramO : TuCoreRegion
  dma : D
  cmdq : Nat
  dataflow : Nat
  totalDmaBytes : Nat
  totalMmaCalls : Nat
  totalMmaTiles : Nat
  totalMmaFlops : Nat
  estimatedCycles : Nat
  rtCfg : C
  initialized : Bool

/-- A region of a saved state.  It has no bank meters and no double buffer; `data` holds the retained bytes or is `NULL`. -/
structure TuSavedRegion where
  data : Option (Nat → UInt8) := none
  totalSize : UInt32 := 0
  bankCount : UInt32 := 0
  bankWidth : UInt32 := 0
  reads : Nat := 0
  writes : Nat := 0
  conflicts : Nat := 0
  stallCycles : Nat := 0
  bwModeling : Bool := false
  wordsPerCycle : UInt8 := 0
  arbMode : UInt8 := 0
  stallPenalty : UInt8 := 0
  bwRefillWindow : Nat := 0
  currentCycle : Nat := 0
  name : String := ""

/-- `hw_state` of a context. -/
structure TuSavedState (D C : Type) [Zero D] [Zero C] where
  sramW : TuSavedRegion := {}
  sramA : TuSavedRegion := {}
  sramO : TuSavedRegion := {}
  dma : D := 0
  cmdq : Nat := 0
  dataflow : Nat := 0
  totalDmaBytes : Nat := 0
  totalMmaCalls : Nat := 0
  totalMmaTiles : Nat := 0
  totalMmaFlops : Nat := 0
  estimatedCycles : Nat := 0
  rtCfg : C := 0
  initialized : Bool := false

inductive TuCtxState
  | idle
  | active
  | ready
  | blocked
  | completed
  deriving DecidableEq, Repr

inductive TuCtxSaveScope
  | fullSram
  | liveSram
  | controlOnly
  deriving DecidableEq, Repr

/-- The defaults are the zeroed descriptor. -/
structure TuContextDesc (D C : Type) [Zero D] [Zero C] where
  ctxId : Nat
  state : TuCtxState := .idle
  priority : UInt8 := 0
  hwState : TuSavedState D C := {}
  totalCycles : Nat := 0
  switchCount : Nat := 0
  lastSwitchCycle : Nat := 0
  savedSramBytes : Nat := 0
  savedWBytes : UInt32 := 0
  savedABytes : UInt32 := 0
  savedOBytes : UInt32 := 0
  savedFrom : Option (TuState D C) := none

/-- What the manager is told about saving. -/
structure TuCtxRetention where
  saveScope : TuCtxSaveScope
  liveWBytes : UInt32
  liveABytes : UInt32
  liveOBytes : UInt32

/-- Which of the three allocations of a save succeed. -/
structure SaveHeap where
  w : Bool := true
  a : Bool := true
  o : Bool := true

/-! ### Saving -/

/-- Returns whether the copy was made. -/
def ctxCopySramData (dst : TuSavedRegion) (src : TuCoreRegion) (copyBytes : UInt32) (malloc : Bool) :
    TuSavedRegion × Bool :=
  if copyBytes > 0 ∧ malloc = false then ({ dst with data := none }, false)
  else
    ({ data := if copyBytes > 0 then some (memcpy (fun _ => 0) 0 src.data copyBytes.toNat) else none
       totalSize := src.totalSize
       bankCount := src.banks.bankCount
       bankWidth := src.banks.bankWidth
       reads := src.reads
       writes := src.writes
       conflicts := src.conflicts
       stallCycles := src.stallCycles
       bwModeling := src.banks.bwModeling
       wordsPerCycle := src.banks.wordsPerCycle
       arbMode := src.arbMode
       stallPenalty := src.banks.stallPenalty
       bwRefillWindow := src.banks.bwRefillWindow
       currentCycle := src.banks.currentCycle
       name := dst.name }, true)

def ctxFreeSramData (r : TuSavedRegion) : TuSavedRegion := { r with data := none }

def ctxScopeBytes (scope : TuCtxSaveScope) (live capacity : UInt32) : UInt32 :=
  match scope with
  | .fullSram => capacity
  | .liveSram => live
  | .controlOnly => 0

variable {D C : Type} [Zero D] [Zero C]

/-- Returns whether the state was saved. -/
def ctxSaveFullState (mgr : TuCtxRetention) (ctx : TuContextDesc D C) (state : TuState D C) (heap : SaveHeap) :
    TuContextDesc D C × Bool :=
  let wBytes := ctxScopeBytes mgr.saveScope mgr.liveWBytes state.sramW.totalSize
  let aBytes := ctxScopeBytes mgr.saveScope mgr.liveABytes state.sramA.totalSize
  let oBytes := ctxScopeBytes mgr.saveScope mgr.liveOBytes state.sramO.totalSize
  let (w, savedW) := ctxCopySramData (ctxFreeSramData ctx.hwState.sramW) state.sramW wBytes heap.w
  let (a, savedA) := ctxCopySramData (ctxFreeSramData ctx.hwState.sramA) state.sramA aBytes heap.a
  let (o, savedO) := ctxCopySramData (ctxFreeSramData ctx.hwState.sramO) state.sramO oBytes heap.o
  let ctx := { ctx with
    savedWBytes := wBytes
    savedABytes := aBytes
    savedOBytes := oBytes
    savedSramBytes := wBytes.toNat + aBytes.toNat + oBytes.toNat }
  if !savedW then
    ({ ctx with hwState := { ctx.hwState with
         sramW := w, sramA := ctxFreeSramData ctx.hwState.sramA, sramO := ctxFreeSramData ctx.hwState.sramO } }, false)
  else if !savedA then
    ({ ctx with hwState := { ctx.hwState with
         sramW := ctxFreeSramData w, sramA := a, sramO := ctxFreeSramData ctx.hwState.sramO } }, false)
  else if !savedO then
    ({ ctx with hwState := { ctx.hwState with
         sramW := ctxFreeSramData w, sramA := ctxFreeSramData a, sramO := o } }, false)
  else
    ({ ctx with
       hwState :=
         { sramW := { w with name := state.sramW.name }
           sramA := { a with name := state.sramA.name }
           sramO := { o with name := state.sramO.name }
           dma := state.dma
           cmdq := state.cmdq
           dataflow := state.dataflow
           totalDmaBytes := state.totalDmaBytes
           totalMmaCalls := state.totalMmaCalls
           totalMmaTiles := state.totalMmaTiles
           totalMmaFlops := state.totalMmaFlops
           estimatedCycles := state.estimatedCycles
           rtCfg := state.rtCfg
           initialized := state.initialized }
       savedFrom := some state }, true)

/-! ### Restoring -/

/-- One region of `ctx_restore_full_state`, which repeats the same assignments for each.  The bank meters and the
metering mode of the region stay. -/
def ctxRestoreRegion (r : TuCoreRegion) (saved : TuSavedRegion) (savedBytes : UInt32) : TuCoreRegion where
  data := if savedBytes ≠ 0 then memcpy r.data 0 (saved.data.getD fun _ => 0) savedBytes.toNat else r.data
  totalSize := saved.totalSize
  db := none
  banks := { r.banks with
    bankCount := saved.bankCount
    bankWidth := saved.bankWidth
    bwModeling := saved.bwModeling
    wordsPerCycle := saved.wordsPerCycle
    stallPenalty := saved.stallPenalty
    bwRefillWindow := saved.bwRefillWindow
    currentCycle := saved.currentCycle }
  reads := saved.reads
  writes := saved.writes
  conflicts := saved.conflicts
  stallCycles := saved.stallCycles
  arbMode := saved.arbMode
  wordMetering := r.wordMetering
  name := saved.name

def ctxRestoreFullState (state : TuState D C) (ctx : TuContextDesc D C) : TuState D C where
  sramW := ctxRestoreRegion state.sramW ctx.hwState.sramW ctx.savedWBytes
  sramA := ctxRestoreRegion state.sramA ctx.hwState.sramA ctx.savedABytes
  sramO := ctxRestoreRegion state.sramO ctx.hwState.sramO ctx.savedOBytes
  dma := ctx.hwState.dma
  cmdq := state.cmdq
  dataflow := ctx.hwState.dataflow
  totalDmaBytes := ctx.hwState.totalDmaBytes
  totalMmaCalls := ctx.hwState.totalMmaCalls
  totalMmaTiles := ctx.hwState.totalMmaTiles
  totalMmaFlops := ctx.hwState.totalMmaFlops
  estimatedCycles := ctx.hwState.estimatedCycles
  rtCfg := ctx.hwState.rtCfg
  initialized := ctx.hwState.initialized

/-- A core right after initialisation with regions of `size` bytes and the default settings. -/
def TuState.fresh (D C : Type) [Zero D] [Zero C] (size : UInt32) : TuState D C where
  sramW := tuSramInitRuntime size "W-buf" 0 0 0 0 0
  sramA := tuSramInitRuntime size "A-buf" 0 0 0 0 0
  sramO := tuSramInitRuntime size "O-buf" 0 0 0 0 0
  dma := 0
  cmdq := 0
  dataflow := 0
  totalDmaBytes := 0
  totalMmaCalls := 0
  totalMmaTiles := 0
  totalMmaFlops := 0
  estimatedCycles := 0
  rtCfg := 0
  initialized := true

end Tusim

/-!
### What a saved copy brings back

With the full-SRAM scope a restore from a saved copy gives back the state the copy was made from (`Resumes`), whatever
the core is like by then: the primary buffer, the counters and the settings of each region, the counters of the core and
its runtime configuration.  Double buffering is off afterwards, so what was read before is read again if the primary
buffer was the active one (`RegionResumes.read`).
-/

namespace Tusim

open Blocks

/-- The bytes that `tu_sram_read_bulk` copies, or none if it rejects the span. -/
def tuSramReadBulk (r : TuCoreRegion) (addr bytes : UInt32) : Option (List UInt8) :=
  if addr > r.totalSize ∨ bytes > r.totalSize - addr then none
  else some ((List.range bytes.toNat).map fun i => tuSramRawPtr r.toTuSramRegion (addr.toNat + i))

/-- `sram_data_ptr` does not point to the shadow buffer. -/
def PrimaryActive (r : TuCoreRegion) : Prop := ∀ db, r.db = some db → db.enabled = true → db.activeIdx = 0

/-- `r'` continues where `r` was, without a double buffer. -/
structure RegionResumes (r r' : TuCoreRegion) : Prop where
  db : r'.db = none
  totalSize : r'.totalSize = r.totalSize
  data : ∀ i < r.totalSize.toNat, r'.data i = r.data i
  reads : r'.reads = r.reads
  writes : r'.writes = r.writes
  conflicts : r'.conflicts = r.conflicts
  stallCycles : r'.stallCycles = r.stallCycles
  currentCycle : r'.banks.currentCycle = r.banks.currentCycle
  bankCount : r'.banks.bankCount = r.banks.bankCount
  bankWidth : r'.banks.bankWidth = r.banks.bankWidth
  bwModeling : r'.banks.bwModeling = r.banks.bwModeling
  wordsPerCycle : r'.banks.wordsPerCycle = r.banks.wordsPerCycle
  stallPenalty : r'.banks.stallPenalty = r.banks.stallPenalty
  bwRefillWindow : r'.banks.bwRefillWindow = r.banks.bwRefillWindow
  arbMode : r'.arbMode = r.arbMode
  name : r'.name = r.name

/-- `s'` continues where `s` was. -/
structure Resumes {D C : Type} (s s' : TuState D C) : Prop where
  sramW : RegionResumes s.sramW s'.sramW
  sramA : RegionResumes s.sramA s'.sramA
  sramO : RegionResumes s.sramO s'.sramO
  dma : s'.dma = s.dma
  dataflow : s'.dataflow = s.dataflow
  totalDmaBytes : s'.totalDmaBytes = s.totalDmaBytes
  totalMmaCalls : s'.totalMmaCalls = s.totalMmaCalls
  totalMmaTiles : s'.totalMmaTiles = s.totalMmaTiles
  totalMmaFlops : s'.totalMmaFlops = s.totalMmaFlops
  estimatedCycles : s'.estimatedCycles = s.estimatedCycles
  rtCfg : s'.rtCfg = s.rtCfg
  initialized : s'.initialized = s.initialized

theorem tuSramRawPtr_of_primaryActive {r : TuCoreRegion} (h : PrimaryActive r) :
    tuSramRawPtr r.toTuSramRegion = r.data := by
  unfold tuSramRawPtr
  cases hdb : r.db with
  | none => rfl
  | some db =>
    have hactive := h db hdb
    dsimp only
    rw [if_neg]
    simpa using hactive

/-- Every read from an active primary buffer is the same afterwards. -/
theorem RegionResumes.read {r r' : TuCoreRegion} (h : RegionResumes r r') (hprimary : PrimaryActive r)
    (addr bytes : UInt32) : tuSramReadBulk r' addr bytes = tuSramReadBulk r addr bytes := by
  have hprimary' : PrimaryActive r' := by
    intro db hdb
    rw [h.db] at hdb
    exact absurd hdb (by simp)
  unfold tuSramReadBulk
  rw [h.totalSize, tuSramRawPtr_of_primaryActive hprimary, tuSramRawPtr_of_primaryActive hprimary']
  by_cases hspan : addr > r.totalSize ∨ bytes > r.totalSize - addr
  · rw [if_pos hspan, if_pos hspan]
  · rw [if_neg hspan, if_neg hspan]
    obtain ⟨haddr, hbytes⟩ := not_or.1 hspan
    have haddr := UInt32.le_iff_toNat_le.1 (UInt32.not_lt.1 haddr)
    have hbytes := UInt32.le_iff_toNat_le.1 (UInt32.not_lt.1 hbytes)
    rw [UInt32.toNat_sub_of_le _ _ (UInt32.le_iff_toNat_le.2 haddr)] at hbytes
    congr 1
    apply List.map_congr_left
    intro i hi
    rw [List.mem_range] at hi
    exact h.data _ (by omega)

/-! ### Copies -/

theorem ctxCopySramData_cases (dst : TuSavedRegion) (src : TuCoreRegion) (copyBytes : UInt32) (malloc : Bool) :
    (ctxCopySramData dst src copyBytes malloc).2 = false ∨
      (copyBytes = src.totalSize → ∀ r : TuCoreRegion, RegionResumes src
        (ctxRestoreRegion r { (ctxCopySramData dst src copyBytes malloc).1 with name := src.name } copyBytes)) := by
  unfold ctxCopySramData
  split
  · exact Or.inl rfl
  · refine Or.inr ?_
    rintro rfl r
    refine { db := rfl, totalSize := rfl, data := ?_, reads := rfl, writes := rfl, conflicts := rfl, stallCycles := rfl,
             currentCycle := rfl, bankCount := rfl, bankWidth := rfl, bwModeling := rfl, wordsPerCycle := rfl,
             stallPenalty := rfl, bwRefillWindow := rfl, arbMode := rfl, name := rfl }
    intro i hi
    have hpos : 0 < src.totalSize := UInt32.lt_iff_toNat_lt.2 (Nat.zero_lt_of_lt hi)
    have hne : src.totalSize ≠ 0 := fun h => by simp [h] at hpos
    have hcopy : ∀ mem v : Nat → UInt8, memcpy mem 0 v src.totalSize.toNat i = v i := by
      intro mem v
      have h : memcpy mem 0 v src.totalSize.toNat (0 + i) = v i := memcpy_inside hi
      rwa [Nat.zero_add] at h
    unfold ctxRestoreRegion
    dsimp only
    rw [if_pos hne, if_pos hpos, hcopy, Option.getD_some, hcopy]

variable {D C : Type} [Zero D] [Zero C]

/-- A save leaves the scheduling state of the context alone, and after a successful one a restore continues from `s`. -/
theorem ctxSaveFullState_cases (ret : TuCtxRetention) (ctx : TuContextDesc D C) (s : TuState D C) (heap : SaveHeap) :
    let r := ctxSaveFullState ret ctx s heap
    r.1.state = ctx.state ∧
      (r.2 = true → r.1.savedFrom = some s ∧
        (ret.saveScope = .fullSram → ∀ core, Resumes s (ctxRestoreFullState core r.1))) := by
  have hw := ctxCopySramData_cases (ctxFreeSramData ctx.hwState.sramW) s.sramW
    (ctxScopeBytes ret.saveScope ret.liveWBytes s.sramW.totalSize) heap.w
  have ha := ctxCopySramData_cases (ctxFreeSramData ctx.hwState.sramA) s.sramA
    (ctxScopeBytes ret.saveScope ret.liveABytes s.sramA.totalSize) heap.a
  have ho := ctxCopySramData_cases (ctxFreeSramData ctx.hwState.sramO) s.sramO
    (ctxScopeBytes ret.saveScope ret.liveOBytes s.sramO.totalSize) heap.o
  unfold ctxSaveFullState
  dsimp only
  split
  · exact ⟨rfl, fun h => by simp at h⟩
  · rename_i hsavedW
    split
    · exact ⟨rfl, fun h => by simp at h⟩
    · rename_i hsavedA
      split
      · exact ⟨rfl, fun h => by simp at h⟩
      · rename_i hsavedO
        refine ⟨rfl, fun _ => ⟨rfl, fun hscope core => ?_⟩⟩
        have hfull : ∀ live capacity, ctxScopeBytes ret.saveScope live capacity = capacity := by
          intro live capacity
          rw [hscope]
          rfl
        have hw := hw.resolve_left (by simpa using hsavedW) (hfull _ _)
        have ha := ha.resolve_left (by simpa using hsavedA) (hfull _ _)
        have ho := ho.resolve_left (by simpa using hsavedO) (hfull _ _)
        exact { sramW := hw _, sramA := ha _, sramO := ho _, dma := rfl, dataflow := rfl, totalDmaBytes := rfl,
                totalMmaCalls := rfl, totalMmaTiles := rfl, totalMmaFlops := rfl, estimatedCycles := rfl, rtCfg := rfl,
                initialized := rfl }

end Tusim
