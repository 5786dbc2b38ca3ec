import Tusim.Perf.BankModel
import Tusim.Perf.PipelineTracker

/-!
# The cycle model

`tu_cycle_model_t` composes the pipeline tracker, the bank model and a DRAM channel under one clock.  A tile is decoded,
issued, read, multiplied and written back (`tuCycleModelExecuteTile`); a transfer waits for the bus, the channel and a bank
(`tuCycleModelDmaTransfer`).  Undefined behaviour is `none`.  There are no performance counters (`perf == NULL`).

The numbers of words of a tile are products in `int`.  Where these are defined the clock is advanced by exactly what the
tile costs over the unbounded integers (`executeTile_iff`).
-/

namespace Tusim.Perf

open Word

/-! ### The DRAM channel -/

/-- The timing parameters that an access reads. -/
structure TuDramTiming where
  tRCD : UInt32
  tRP : UInt32
  tCL : UInt32
  tCWL : UInt32
  tCCD : UInt32
  tBL : UInt32
  busWidthBytes : UInt32
  numBanks : UInt32
  deriving DecidableEq, Repr

structure TuDramBankState where
  openRow : UInt32 := 0xffffffff
  accessCount : Nat := 0
  rowHits : Nat := 0
  rowMisses : Nat := 0
  deriving DecidableEq, Repr

structure TuDramChannel where
  timing : TuDramTiming
  banks : Nat → TuDramBankState := fun _ => {}
  currentCycle : Nat := 0
  totalAccesses : Nat := 0
  totalRowHits : Nat := 0
  totalRowMisses : Nat := 0
  totalCyclesStalled : Nat := 0
  totalBytesTransferred : Nat := 0

/-- `set_ideal_timing` -/
def setIdealTiming (bw : UInt32) : TuDramTiming :=
  { tRCD := 0, tRP := 0, tCL := 1, tCWL := 1, tCCD := 0, tBL := bw, busWidthBytes := bw, numBanks := 1 }

/-- `tu_dram_decode_address`: the bank and the row. -/
def tuDramDecodeAddress (ch : TuDramChannel) (address : Nat) : Nat × UInt32 :=
  let bankBits := ch.timing.numBanks.toNat.log2
  let bankMask := u32 ((2 ^ bankBits - 1) * 2 ^ 10)
  ((address &&& bankMask) / 2 ^ 10, UInt32.ofNat (address / 2 ^ (10 + bankBits)))

/-- `tu_dram_access` -/
def tuDramAccess (ch : TuDramChannel) (address : Nat) (isWrite : Bool) (bytes : UInt32) (cycle : Nat) :
    Option (TuDramChannel × Nat) :=
  let t := ch.timing
  let (bankId, row) := tuDramDecodeAddress ch address
  let bankId := if bankId ≥ t.numBanks.toNat then 0 else bankId
  let bank := ch.banks bankId
  let cas := if isWrite then t.tCWL else t.tCL
  let hit := bank.openRow = row
  let rowLatency :=
    if hit then cas
    else if bank.openRow = 0xffffffff then t.tRCD + cas
    else t.tRP + t.tRCD + cas
  let burstBytes := t.busWidthBytes * t.tBL
  if burstBytes = 0 then none
  else
    let bursts := (bytes + burstBytes - 1) / burstBytes
    let latency := u64 (rowLatency.toNat + (bursts * t.tCCD).toNat)
    let bank :=
      { bank with
        openRow := row
        rowHits := if hit then u64 (bank.rowHits + 1) else bank.rowHits
        rowMisses := if hit then bank.rowMisses else u64 (bank.rowMisses + 1)
        accessCount := u64 (bank.accessCount + 1) }
    some ({ ch with
      banks := Function.update ch.banks bankId bank
      totalRowHits := if hit then u64 (ch.totalRowHits + 1) else ch.totalRowHits
      totalRowMisses := if hit then ch.totalRowMisses else u64 (ch.totalRowMisses + 1)
      totalAccesses := u64 (ch.totalAccesses + 1)
      totalBytesTransferred := u64 (ch.totalBytesTransferred + bytes.toNat)
      totalCyclesStalled := u64 (ch.totalCyclesStalled + latency)
      currentCycle := u64 (cycle + latency) }, latency)

/-! ### The model -/

/-- `TU_CYCLE_MODEL_FUNCTIONAL`, ...; `other` is a number above them. -/
inductive TuCycleMode
  | functional
  | estimated
  | cycleAccurate
  | other
  deriving DecidableEq, Repr

/-- `tu_cycle_model_t`; the array of bus cycles has eight entries. -/
structure TuCycleModel where
  mode : TuCycleMode
  currentCycle : Nat := 0
  pipeline : Option TuPipelineTracker
  bankModel : Option TuBankModel
  dramChannel : Option TuDramChannel
  dmaChannels : Nat
  dmaChannels_le : dmaChannels ≤ 8
  dmaBusCycles : Nat → Nat := fun _ => 0
  dmaBusStallCycles : Nat := 0

/-- `TU_DMA_BUS_WIDTH_BYTES` -/
def tuDmaBusWidthBytes : UInt32 := 32

/-- The bank model with `TU_SRAM_BANKS`, `TU_SRAM_BANK_WIDTH`, ... -/
def createdBankModel : TuBankModel := tuBankModelInit 32 4 4 2 1

/-- `tu_cycle_model_create`, with the ideal DRAM -/
def tuCycleModelCreate (mode : TuCycleMode) : TuCycleModel :=
  let accurate := mode = .cycleAccurate ∨ mode = .other
  { mode := mode
    pipeline := if accurate then some (tuCyclePipelineInit (UInt32.ofNat (tuPePipelineDepth * 4))) else none
    bankModel := if accurate then some createdBankModel else none
    dramChannel := if accurate then some { timing := setIdealTiming tuDmaBusWidthBytes } else none
    dmaChannels := 3
    dmaChannels_le := by decide }

/-- `tu_cycle_model_reset` -/
def tuCycleModelReset (cm : TuCycleModel) : TuCycleModel :=
  { cm with
    currentCycle := 0
    dmaBusCycles := fun _ => 0
    dmaBusStallCycles := 0
    pipeline := cm.pipeline.map fun _ => tuCyclePipelineInit (UInt32.ofNat (tuPePipelineDepth * 4))
    bankModel := cm.bankModel.map fun _ => createdBankModel
    dramChannel := cm.dramChannel.map fun _ => { timing := setIdealTiming tuDmaBusWidthBytes } }

/-- `tu_cycle_model_advance` -/
def tuCycleModelAdvance (cm : TuCycleModel) (cycles : Nat) : TuCycleModel :=
  { cm with currentCycle := u64 (cm.currentCycle + cycles) }

/-- A tile and the addresses of its weights, activations and outputs. -/
structure CycleTile where
  shape : TileShape
  wSramAddr : UInt32
  aSramAddr : UInt32
  oSramAddr : UInt32
  deriving DecidableEq, Repr

/-- `(x * y * bytes + width - 1) / width`, with the product in `int` -/
def tileWords (x y : UInt16) (bytes : Nat) (width : UInt32) : Option UInt32 :=
  if x.toNat * y.toNat * bytes ≥ 2 ^ 31 ∨ width = 0 then none
  else some ((UInt32.ofNat (x.toNat * y.toNat * bytes) + width - 1) / width)

/-- The registers of a tile for the pipeline tracker. -/
def CycleTile.pipelineTile (tile : CycleTile) : PipelineTile :=
  { shape := tile.shape, srcRegs := [tile.wSramAddr, tile.aSramAddr], dstRegs := [tile.oSramAddr] }

/-- `tu_cycle_model_execute_tile` -/
def tuCycleModelExecuteTile (cm : TuCycleModel) (tile : CycleTile) : Option (TuCycleModel × Nat) :=
  match cm.mode with
  | .functional => some (cm, 0)
  | .estimated =>
    let total := tuPePipelineDepth * tile.shape.nCount.toNat + tile.shape.kCount.toNat +
      tuPePipelineDepth * tile.shape.mCount.toNat
    some ({ cm with currentCycle := u64 (cm.currentCycle + total) }, total)
  | .cycleAccurate => do
    let cycle := u64 (cm.currentCycle + 1)
    let issued := cm.pipeline.map fun pt => tuCyclePipelineIssue pt tile.pipelineTile cycle pt.totalIssues
    let cycle := u64 (cycle + (issued.map Prod.snd).getD 0)
    let bm ← cm.bankModel
    if bm.numBanks = 0 then none
    else
      let wWords ← tileWords tile.shape.mCount tile.shape.kCount 2 bm.bankWidthBytes
      let (bm, wStall) := tuBankModelAccess bm (tile.wSramAddr % bm.numBanks) false wWords cycle
      let cycle := u64 (cycle + wStall.toNat)
      let aWords ← tileWords tile.shape.kCount tile.shape.nCount 2 bm.bankWidthBytes
      let (bm, aStall) := tuBankModelAccess bm (tile.aSramAddr % bm.numBanks) false aWords cycle
      let cycle := u64 (cycle + aStall.toNat)
      let cycle := u64 (cycle + tile.shape.kCount.toNat)
      let oWords ← tileWords tile.shape.mCount tile.shape.nCount 4 bm.bankWidthBytes
      let (bm, oStall) := tuBankModelAccess bm (tile.oSramAddr % bm.numBanks) true oWords cycle
      let cycle := u64 (cycle + oStall.toNat)
      some ({ cm with
        currentCycle := cycle
        pipeline := issued.map fun (pt, _) => (tuCyclePipelineComplete pt cycle).1
        bankModel := some (tuBankModelTick bm cycle) }, u64 (cycle + 2 ^ 64 - cm.currentCycle))
  | .other => some (cm, 0)

/-- `tu_cycle_model_dma_arbitrate` -/
def tuCycleModelDmaArbitrate (cm : TuCycleModel) : TuCycleModel × Nat :=
  if cm.mode = .functional ∨ cm.mode = .estimated ∨ cm.dmaChannels ≤ 1 then (cm, 0)
  else
    let active := (List.range cm.dmaChannels).countP fun i => cm.dmaBusCycles i > cm.currentCycle
    if active > 1 then ({ cm with dmaBusStallCycles := u64 (cm.dmaBusStallCycles + active) }, active) else (cm, 0)

/-- The arguments of a transfer; `isRead` is DRAM to SRAM. -/
structure CycleTransfer where
  channel : UInt8
  bytes : UInt32
  isRead : Bool
  dramAddr : Nat
  sramBank : UInt32
  deriving DecidableEq, Repr

/-- `TU_LATENCY_DRAM_READ` -/
def tuLatencyDramRead : Nat := 50

/-- Step 2 of a transfer: DRAM, or SRAM directly. -/
def dramPhase (ch : Option TuDramChannel) (t : CycleTransfer) (cycle : Nat) : Option (Option TuDramChannel × Nat) :=
  match ch with
  | some ch =>
    if t.dramAddr ≠ 0 then (tuDramAccess ch t.dramAddr t.isRead t.bytes cycle).map fun (ch, latency) => (some ch, latency)
    else some (some ch, ((t.bytes + tuDmaBusWidthBytes - 1) / tuDmaBusWidthBytes).toNat)
  | none => some (none, ((t.bytes + tuDmaBusWidthBytes - 1) / tuDmaBusWidthBytes).toNat)

/-- Step 3 of a transfer: the bank. -/
def bankPhase (bm : Option TuBankModel) (t : CycleTransfer) (cycle : Nat) : Option (Option TuBankModel × Nat) :=
  match bm with
  | some bm =>
    if t.sramBank < bm.numBanks then
      if bm.bankWidthBytes = 0 then none
      else
        let words := (t.bytes + bm.bankWidthBytes - 1) / bm.bankWidthBytes
        let (bm, stall) := tuBankModelAccess bm t.sramBank (!t.isRead) words cycle
        some (some bm, stall.toNat)
    else some (some bm, 0)
  | none => some (none, 0)

/-- `tu_cycle_model_dma_transfer` -/
def tuCycleModelDmaTransfer (cm : TuCycleModel) (t : CycleTransfer) : Option (TuCycleModel × Nat) :=
  if t.bytes = 0 then some (cm, 0)
  else
    match cm.mode with
    | .functional => some (cm, 0)
    | .estimated =>
      let cycles := ((t.bytes + tuDmaBusWidthBytes - 1) / tuDmaBusWidthBytes).toNat + tuLatencyDramRead
      some ({ cm with currentCycle := u64 (cm.currentCycle + cycles) }, cycles)
    | .cycleAccurate => do
      let start := cm.currentCycle
      let (cm, arbStall) := tuCycleModelDmaArbitrate cm
      let cycle := u64 (start + arbStall)
      let (dramChannel, latency) ← dramPhase cm.dramChannel t cycle
      let cycle := u64 (cycle + latency)
      let (bankModel, sramStall) ← bankPhase cm.bankModel t cycle
      let cycle := u64 (cycle + sramStall)
      let elapsed := u64 (cycle + 2 ^ 64 - start)
      some ({ cm with
        currentCycle := cycle
        dramChannel := dramChannel
        bankModel := bankModel
        dmaBusCycles :=
          if t.channel.toNat < 8 then
            Function.update cm.dmaBusCycles t.channel.toNat (u64 (cm.dmaBusCycles t.channel.toNat + elapsed))
          else cm.dmaBusCycles }, elapsed)
    | .other => some (cm, 0)

/-! ### What a tile costs -/

section

variable (bm : TuBankModel) (bankId wordCount : UInt32) (isWrite : Bool) (cycle : Nat)

@[simp] theorem tuBankModelAccess_numBanks : (tuBankModelAccess bm bankId isWrite wordCount cycle).1.numBanks = bm.numBanks := by
  unfold tuBankModelAccess
  split <;> rfl

@[simp] theorem tuBankModelAccess_bankWidthBytes :
    (tuBankModelAccess bm bankId isWrite wordCount cycle).1.bankWidthBytes = bm.bankWidthBytes := by
  unfold tuBankModelAccess
  split <;> rfl

@[simp] theorem tuBankModelAccess_stallPenalty :
    (tuBankModelAccess bm bankId isWrite wordCount cycle).1.stallPenalty = bm.stallPenalty := by
  unfold tuBankModelAccess
  split <;> rfl

variable {bm bankId}

/-- The words over the budget of the bank at `cycle` are charged the penalty, in 32 bits. -/
theorem tuBankModelAccess_stall (h : bankId < bm.numBanks) :
    (tuBankModelAccess bm bankId isWrite wordCount cycle).2.toNat =
      (wordCount.toNat - (bm.banks bankId.toNat).budgetAt cycle) * bm.stallPenalty.toNat % 2 ^ 32 := by
  unfold tuBankModelAccess
  rw [if_neg (UInt32.not_le.2 h)]
  dsimp only
  rw [TuBankState.take_stall, TuBankState.refill_wordsAvailable]

end

/-- The stall for hazards of a tile issued at `cycle`. -/
def hazardStall (cm : TuCycleModel) (tile : CycleTile) (cycle : Nat) : Nat :=
  ((cm.pipeline.map fun pt => tuCyclePipelineIssue pt tile.pipelineTile cycle pt.totalIssues).map Prod.snd).getD 0

/-- `⌈x * y * bytes / width⌉` -/
def exactWords (x y : UInt16) (bytes width : Nat) : Nat := (x.toNat * y.toNat * bytes + width - 1) / width

/-- What holds a tile up: the hazard stall, and the words over the budgets of the three accesses. -/
structure TileCost where
  hazard : Nat
  wOver : Nat
  aOver : Nat
  oOver : Nat
  deriving DecidableEq, Repr

/-- The cost of a tile, with unbounded cycles and words; the budgets are those of the banks at the cycles of the accesses. -/
def tileCost (cm : TuCycleModel) (bm : TuBankModel) (tile : CycleTile) : TileCost :=
  let s := tile.shape
  let width := bm.bankWidthBytes.toNat
  let penalty := bm.stallPenalty.toNat
  let hazard := hazardStall cm tile (cm.currentCycle + 1)
  let cycle := cm.currentCycle + 1 + hazard
  let wWords := exactWords s.mCount s.kCount 2 width
  let wBank := tile.wSramAddr % bm.numBanks
  let wOver := wWords - (bm.banks wBank.toNat).budgetAt cycle
  let bm := (tuBankModelAccess bm wBank false (UInt32.ofNat wWords) cycle).1
  let cycle := cycle + penalty * wOver
  let aWords := exactWords s.kCount s.nCount 2 width
  let aBank := tile.aSramAddr % bm.numBanks
  let aOver := aWords - (bm.banks aBank.toNat).budgetAt cycle
  let bm := (tuBankModelAccess bm aBank false (UInt32.ofNat aWords) cycle).1
  let cycle := cycle + penalty * aOver + s.kCount.toNat
  let oWords := exactWords s.mCount s.nCount 4 width
  let oBank := tile.oSramAddr % bm.numBanks
  let oOver := oWords - (bm.banks oBank.toNat).budgetAt cycle
  { hazard := hazard, wOver := wOver, aOver := aOver, oOver := oOver }

/-- `1 + k_count` cycles, the hazard stall, and the penalty for every word over a budget. -/
def TileCost.total (cost : TileCost) (kCount penalty : Nat) : Nat :=
  1 + kCount + cost.hazard + penalty * (cost.wOver + cost.aOver + cost.oOver)

/-- A cycle-accurate model whose bank model `bm` has the constants of `tu_cycle_model_create`; everything else is
arbitrary. -/
structure TuCycleModel.Created (cm : TuCycleModel) (bm : TuBankModel) : Prop where
  mode : cm.mode = .cycleAccurate
  bankModel : cm.bankModel = some bm
  numBanks : bm.numBanks = 32
  bankWidthBytes : bm.bankWidthBytes = 4
  stallPenalty : bm.stallPenalty = 2

/-- The products of the dimensions fit in `int`. -/
def CycleTile.Fits (tile : CycleTile) : Prop :=
  2 * (tile.shape.mCount.toNat * tile.shape.kCount.toNat) < 2 ^ 31 ∧
  2 * (tile.shape.kCount.toNat * tile.shape.nCount.toNat) < 2 ^ 31 ∧
  4 * (tile.shape.mCount.toNat * tile.shape.nCount.toNat) < 2 ^ 31

instance (tile : CycleTile) : Decidable tile.Fits := inferInstanceAs (Decidable (_ ∧ _ ∧ _))

theorem tileWords_eq {x y : UInt16} (bytes : Nat) (h : x.toNat * y.toNat * bytes < 2 ^ 31) :
    tileWords x y bytes 4 = some (UInt32.ofNat (exactWords x y bytes 4)) ∧
      (UInt32.ofNat (exactWords x y bytes 4)).toNat = exactWords x y bytes 4 ∧ exactWords x y bytes 4 ≤ 2 ^ 29 := by
  unfold tileWords exactWords
  rw [if_neg (by rw [not_or]; exact ⟨by omega, by decide⟩)]
  generalize x.toNat * y.toNat * bytes = p at h
  have hnat : (UInt32.ofNat ((p + 4 - 1) / 4)).toNat = (p + 4 - 1) / 4 := by
    rw [UInt32.toNat_ofNat']
    omega
  refine ⟨?_, hnat, by omega⟩
  congr 1
  rw [← UInt32.toNat_inj, hnat, UInt32.toNat_div, UInt32.toNat_sub, UInt32.toNat_add, UInt32.toNat_ofNat']
  show (2 ^ 32 - 1 + (p % 2 ^ 32 + 4) % 2 ^ 32) % 2 ^ 32 / 4 = (p + 4 - 1) / 4
  omega

theorem tileWords_none {x y : UInt16} {bytes : Nat} {width : UInt32} (h : ¬ x.toNat * y.toNat * bytes < 2 ^ 31) :
    tileWords x y bytes width = none := if_pos (Or.inl (by omega))


section

variable {cm : TuCycleModel} {bm : TuBankModel} (h : cm.Created bm) (tile : CycleTile)
include h

/-- Where a product leaves `int` the behaviour is undefined. -/
theorem executeTile_undefined (hfits : ¬ tile.Fits) : tuCycleModelExecuteTile cm tile = none := by
  unfold tuCycleModelExecuteTile
  rw [h.mode]
  dsimp only
  rw [h.bankModel]
  show (if bm.numBanks = 0 then none else _) = none
  rw [if_neg (by rw [h.numBanks]; decide)]
  unfold CycleTile.Fits at hfits
  by_cases hw : tile.shape.mCount.toNat * tile.shape.kCount.toNat * 2 < 2 ^ 31
  · by_cases ha : tile.shape.kCount.toNat * tile.shape.nCount.toNat * 2 < 2 ^ 31
    · have ho : ¬ tile.shape.mCount.toNat * tile.shape.nCount.toNat * 4 < 2 ^ 31 := fun ho => hfits (by omega)
      rw [h.bankWidthBytes, (tileWords_eq _ hw).1]
      show (Option.bind (tileWords _ _ 2 _) _) = none
      rw [tuBankModelAccess_bankWidthBytes, h.bankWidthBytes, (tileWords_eq _ ha).1]
      show (Option.bind (tileWords _ _ 4 _) _) = none
      rw [tileWords_none ho]
      rfl
    · rw [h.bankWidthBytes, (tileWords_eq _ hw).1]
      show (Option.bind (tileWords _ _ 2 _) _) = none
      rw [tileWords_none ha]
      rfl
  · rw [tileWords_none hw]
    rfl

/-- The clock and the banks after a tile, as the code computes them. -/
theorem executeTile_defined (hfits : tile.Fits) :
    let s := tile.shape
    let wWords := UInt32.ofNat (exactWords s.mCount s.kCount 2 4)
    let aWords := UInt32.ofNat (exactWords s.kCount s.nCount 2 4)
    let oWords := UInt32.ofNat (exactWords s.mCount s.nCount 4 4)
    let cycle := u64 (cm.currentCycle + 1)
    let cycle := u64 (cycle + hazardStall cm tile cycle)
    let w := tuBankModelAccess bm (tile.wSramAddr % bm.numBanks) false wWords cycle
    let cycle := u64 (cycle + w.2.toNat)
    let a := tuBankModelAccess w.1 (tile.aSramAddr % bm.numBanks) false aWords cycle
    let cycle := u64 (u64 (cycle + a.2.toNat) + s.kCount.toNat)
    let o := tuBankModelAccess a.1 (tile.oSramAddr % bm.numBanks) true oWords cycle
    let cycle := u64 (cycle + o.2.toNat)
    ∃ cm', tuCycleModelExecuteTile cm tile = some (cm', u64 (cycle + 2 ^ 64 - cm.currentCycle)) ∧ cm'.currentCycle = cycle ∧
      cm'.mode = .cycleAccurate ∧ cm'.bankModel = some (tuBankModelTick o.1 cycle) := by
  obtain ⟨hw, ha, ho⟩ := hfits
  intro s wWords aWords oWords
  unfold tuCycleModelExecuteTile
  rw [h.mode]
  dsimp only
  rw [h.bankModel]
  show ∃ cm', (if bm.numBanks = 0 then none else _) = some _ ∧ _
  rw [if_neg (by rw [h.numBanks]; decide), h.bankWidthBytes, (tileWords_eq _ (by omega)).1]
  show ∃ cm', (Option.bind (tileWords _ _ 2 _) _) = some _ ∧ _
  rw [tuBankModelAccess_bankWidthBytes, h.bankWidthBytes, (tileWords_eq _ (by omega)).1]
  show ∃ cm', (Option.bind (tileWords _ _ 4 _) _) = some _ ∧ _
  rw [tuBankModelAccess_bankWidthBytes, tuBankModelAccess_bankWidthBytes, h.bankWidthBytes, (tileWords_eq _ (by omega)).1]
  rw [Option.bind_some]
  simp only [tuBankModelAccess_numBanks]
  exact ⟨_, rfl, rfl, rfl, rfl⟩

omit h in
/-- With the constants of the model a stall stays within 32 bits. -/
theorem access_stall_exact {bm : TuBankModel} (hbanks : bm.numBanks = 32) (hpenalty : bm.stallPenalty = 2) (addr : UInt32)
    (isWrite : Bool) {words : Nat} (hwords : words ≤ 2 ^ 29) (cycle : Nat) :
    (tuBankModelAccess bm (addr % bm.numBanks) isWrite (UInt32.ofNat words) cycle).2.toNat =
      2 * (words - (bm.banks (addr % bm.numBanks).toNat).budgetAt cycle) := by
  have hbank : addr % bm.numBanks < bm.numBanks := UInt32.mod_lt _ (by rw [hbanks]; decide)
  have hnat : (UInt32.ofNat words).toNat = words := by
    rw [UInt32.toNat_ofNat']
    omega
  rw [tuBankModelAccess_stall _ _ _ hbank, hnat, hpenalty]
  show _ * 2 % 2 ^ 32 = _
  omega

/-- As long as the clock has room it advances by the exact cost. -/
theorem executeTile_cost (hfits : tile.Fits) :
    ∃ cm', tuCycleModelExecuteTile cm tile = some (cm', u64 (cm'.currentCycle + 2 ^ 64 - cm.currentCycle)) ∧
      cm'.currentCycle < 2 ^ 64 ∧
      (cm.currentCycle + (tileCost cm bm tile).total tile.shape.kCount.toNat 2 < 2 ^ 64 →
        cm'.currentCycle = cm.currentCycle + (tileCost cm bm tile).total tile.shape.kCount.toNat 2) := by
  obtain ⟨cm', hrun, hcycle, -, -⟩ := executeTile_defined h tile hfits
  obtain ⟨hw, ha, ho⟩ := hfits
  rw [← hcycle] at hrun
  refine ⟨cm', hrun, by rw [hcycle]; exact Nat.mod_lt _ (by decide), fun hroom => ?_⟩
  have hwidth : bm.bankWidthBytes.toNat = 4 := by
    rw [h.bankWidthBytes]
    rfl
  have hpenalty : bm.stallPenalty.toNat = 2 := by
    rw [h.stallPenalty]
    rfl
  have hwWords := (tileWords_eq (x := tile.shape.mCount) (y := tile.shape.kCount) 2 (by omega)).2.2
  have haWords := (tileWords_eq (x := tile.shape.kCount) (y := tile.shape.nCount) 2 (by omega)).2.2
  have hoWords := (tileWords_eq (x := tile.shape.mCount) (y := tile.shape.nCount) 4 (by omega)).2.2
  unfold TileCost.total tileCost at hroom ⊢
  dsimp only at hroom hcycle ⊢
  rw [hwidth, hpenalty] at hroom ⊢
  simp only [tuBankModelAccess_numBanks] at hroom ⊢
  -- the cycles of the three accesses, one after the other
  have hstart : u64 (cm.currentCycle + 1) = cm.currentCycle + 1 := u64_of_lt (by omega)
  rw [hstart] at hcycle
  generalize hazardStall cm tile (cm.currentCycle + 1) = hazard at hroom hcycle ⊢
  rw [u64_of_lt (by omega : cm.currentCycle + 1 + hazard < 2 ^ 64),
    access_stall_exact h.numBanks h.stallPenalty _ _ hwWords] at hcycle
  generalize hbm₁ : (tuBankModelAccess bm (tile.wSramAddr % bm.numBanks) false
    (UInt32.ofNat (exactWords tile.shape.mCount tile.shape.kCount 2 4)) (cm.currentCycle + 1 + hazard)).1 = bm₁ at hroom hcycle ⊢
  have hbanks₁ : bm₁.numBanks = bm.numBanks := hbm₁ ▸ tuBankModelAccess_numBanks _ _ _ _ _
  have hpenalty₁ : bm₁.stallPenalty = 2 := by
    rw [← hbm₁, tuBankModelAccess_stallPenalty, h.stallPenalty]
  generalize exactWords tile.shape.mCount tile.shape.kCount 2 4 -
    (bm.banks (tile.wSramAddr % bm.numBanks).toNat).budgetAt (cm.currentCycle + 1 + hazard) = wOver at hroom hcycle ⊢
  rw [u64_of_lt (by omega : cm.currentCycle + 1 + hazard + 2 * wOver < 2 ^ 64), ← hbanks₁,
    access_stall_exact (hbanks₁.trans h.numBanks) hpenalty₁ _ _ haWords] at hcycle
  rw [← hbanks₁] at hroom ⊢
  generalize hbm₂ : (tuBankModelAccess bm₁ (tile.aSramAddr % bm₁.numBanks) false
    (UInt32.ofNat (exactWords tile.shape.kCount tile.shape.nCount 2 4))
    (cm.currentCycle + 1 + hazard + 2 * wOver)).1 = bm₂ at hroom hcycle ⊢
  have hbanks₂ : bm₂.numBanks = bm₁.numBanks := hbm₂ ▸ tuBankModelAccess_numBanks _ _ _ _ _
  have hpenalty₂ : bm₂.stallPenalty = 2 := by
    rw [← hbm₂, tuBankModelAccess_stallPenalty, hpenalty₁]
  generalize exactWords tile.shape.kCount tile.shape.nCount 2 4 -
    (bm₁.banks (tile.aSramAddr % bm₁.numBanks).toNat).budgetAt (cm.currentCycle + 1 + hazard + 2 * wOver) = aOver
      at hroom hcycle ⊢
  rw [u64_of_lt (by omega : cm.currentCycle + 1 + hazard + 2 * wOver + 2 * aOver < 2 ^ 64),
    u64_of_lt (by omega : cm.currentCycle + 1 + hazard + 2 * wOver + 2 * aOver + tile.shape.kCount.toNat < 2 ^ 64), ← hbanks₂,
    access_stall_exact (hbanks₂.trans (hbanks₁.trans h.numBanks)) hpenalty₂ _ _ hoWords] at hcycle
  rw [← hbanks₂] at hroom ⊢
  generalize exactWords tile.shape.mCount tile.shape.nCount 4 4 -
    (bm₂.banks (tile.oSramAddr % bm₂.numBanks).toNat).budgetAt
      (cm.currentCycle + 1 + hazard + 2 * wOver + 2 * aOver + tile.shape.kCount.toNat) = oOver at hroom hcycle ⊢
  rw [hcycle, u64_of_lt (by omega)]
  omega

/-- What a tile costs over the unbounded integers. -/
def exactCycles (cm : TuCycleModel) (bm : TuBankModel) (tile : CycleTile) : Nat :=
  (tileCost cm bm tile).total tile.shape.kCount.toNat bm.stallPenalty.toNat

/-- The returned value is the advance of the clock and the exact cost iff the products of the dimensions fit in `int` and the
clock has room. -/
theorem executeTile_iff :
    (∃ cm', tuCycleModelExecuteTile cm tile = some (cm', exactCycles cm bm tile) ∧
      cm'.currentCycle = cm.currentCycle + exactCycles cm bm tile) ↔
    tile.Fits ∧ cm.currentCycle + exactCycles cm bm tile < 2 ^ 64 := by
  have hpenalty : bm.stallPenalty.toNat = 2 := by
    rw [h.stallPenalty]
    rfl
  unfold exactCycles
  rw [hpenalty]
  constructor
  · rintro ⟨cm', hrun, hclock⟩
    have hfits : tile.Fits := by
      by_contra hfits
      rw [executeTile_undefined h tile hfits] at hrun
      exact absurd hrun nofun
    obtain ⟨cm'', hrun', hlt, -⟩ := executeTile_cost h tile hfits
    rw [hrun', Option.some.injEq, Prod.mk.injEq] at hrun
    rw [hrun.1, hclock] at hlt
    exact ⟨hfits, hlt⟩
  · rintro ⟨hfits, hroom⟩
    obtain ⟨cm', hrun, hlt, hclock⟩ := executeTile_cost h tile hfits
    refine ⟨cm', ?_, hclock hroom⟩
    rw [hrun, hclock hroom]
    congr 2
    unfold u64
    omega

end

/-- A tile of 16 by 16 by 16 in three banks of a new model. -/
theorem executeTile_iff_small :
    (tuCycleModelCreate .cycleAccurate).Created createdBankModel ∧
    ∃ cm', tuCycleModelExecuteTile (tuCycleModelCreate .cycleAccurate)
        { shape := { mCount := 16, nCount := 16, kCount := 16 }, wSramAddr := 0, aSramAddr := 1, oSramAddr := 2 } =
          some (cm', 1035) ∧ cm'.currentCycle = 0 + 1035 := by
  have hcreated : (tuCycleModelCreate .cycleAccurate).Created createdBankModel := ⟨rfl, rfl, rfl, rfl, rfl⟩
  have hcost : exactCycles (tuCycleModelCreate .cycleAccurate) createdBankModel
      { shape := { mCount := 16, nCount := 16, kCount := 16 }, wSramAddr := 0, aSramAddr := 1, oSramAddr := 2 } = 1035 := by
    decide +kernel
  have hiff := executeTile_iff hcreated
    { shape := { mCount := 16, nCount := 16, kCount := 16 }, wSramAddr := 0, aSramAddr := 1, oSramAddr := 2 }
  rw [hcost] at hiff
  exact ⟨hcreated, hiff.2 ⟨by decide, by decide⟩⟩

/-- The largest number of weights: their bytes are no longer an `int`. -/
theorem executeTile_large :
    (tuCycleModelCreate .cycleAccurate).Created createdBankModel ∧
    tuCycleModelExecuteTile (tuCycleModelCreate .cycleAccurate)
      { shape := { mCount := 65535, nCount := 1, kCount := 65535 }, wSramAddr := 0, aSramAddr := 1, oSramAddr := 2 } = none := by
  have hcreated : (tuCycleModelCreate .cycleAccurate).Created createdBankModel := ⟨rfl, rfl, rfl, rfl, rfl⟩
  exact ⟨hcreated, executeTile_undefined hcreated _ (by decide)⟩

/-! ### Reachable models -/

/-- What can happen to a model. -/
inductive CycleOp
  | tile (tile : CycleTile)
  | transfer (t : CycleTransfer)
  | advance (cycles : Nat)
  | reset
  deriving DecidableEq, Repr

def TuCycleModel.step (cm : TuCycleModel) : CycleOp → Option TuCycleModel
  | .tile tile => (tuCycleModelExecuteTile cm tile).map Prod.fst
  | .transfer t => (tuCycleModelDmaTransfer cm t).map Prod.fst
  | .advance cycles => some (tuCycleModelAdvance cm cycles)
  | .reset => some (tuCycleModelReset cm)

theorem arbitrate_eq (cm : TuCycleModel) : ∃ stalls, (tuCycleModelDmaArbitrate cm).1 = { cm with dmaBusStallCycles := stalls } := by
  unfold tuCycleModelDmaArbitrate
  dsimp only
  split
  · exact ⟨cm.dmaBusStallCycles, rfl⟩
  · split
    · exact ⟨_, rfl⟩
    · exact ⟨cm.dmaBusStallCycles, rfl⟩

/-- A transfer goes through the channel and then through the bank. -/
theorem dmaTransfer_eq_some {cm cm' : TuCycleModel} {t : CycleTransfer} {elapsed : Nat} (hmode : cm.mode = .cycleAccurate)
    (hbytes : t.bytes ≠ 0) (hrun : tuCycleModelDmaTransfer cm t = some (cm', elapsed)) :
    ∃ cycle cycle' latency stall, dramPhase cm.dramChannel t cycle = some (cm'.dramChannel, latency) ∧
      bankPhase cm.bankModel t cycle' = some (cm'.bankModel, stall) ∧ cm'.mode = .cycleAccurate := by
  obtain ⟨stalls, harb⟩ := arbitrate_eq cm
  unfold tuCycleModelDmaTransfer at hrun
  rw [if_neg hbytes, hmode] at hrun
  dsimp only at hrun
  rw [harb] at hrun
  dsimp only at hrun
  rw [Option.bind_eq_bind, Option.bind_eq_some_iff] at hrun
  obtain ⟨⟨dram, latency⟩, hdram, hrun⟩ := hrun
  dsimp only at hrun
  rw [Option.bind_eq_bind, Option.bind_eq_some_iff] at hrun
  obtain ⟨⟨bank, stall⟩, hbank, hrun⟩ := hrun
  dsimp only at hrun
  rw [Option.some.injEq, Prod.mk.injEq] at hrun
  obtain ⟨rfl, -⟩ := hrun
  exact ⟨_, _, latency, stall, hdram, hbank, hmode⟩

theorem TuCycleModel.Created.of_same {cm cm' : TuCycleModel} {bm bm' : TuBankModel} (h : cm.Created bm)
    (hmode : cm'.mode = .cycleAccurate) (hbank : cm'.bankModel = some bm') (hbanks : bm'.numBanks = bm.numBanks)
    (hwidth : bm'.bankWidthBytes = bm.bankWidthBytes) (hpenalty : bm'.stallPenalty = bm.stallPenalty) : cm'.Created bm' :=
  ⟨hmode, hbank, hbanks.trans h.numBanks, hwidth.trans h.bankWidthBytes, hpenalty.trans h.stallPenalty⟩

/-- Every operation keeps the constants of the bank model. -/
theorem step_created {cm cm' : TuCycleModel} {bm : TuBankModel} (h : cm.Created bm) {op : CycleOp}
    (hstep : cm.step op = some cm') : ∃ bm', cm'.Created bm' := by
  cases op with
  | tile tile =>
    obtain ⟨⟨cm'', elapsed⟩, hrun, rfl⟩ := Option.map_eq_some_iff.1 hstep
    have hfits : tile.Fits := by
      by_contra hfits
      rw [executeTile_undefined h tile hfits] at hrun
      exact absurd hrun nofun
    obtain ⟨cm', hrun', -, hmode, hbank⟩ := executeTile_defined h tile hfits
    rw [hrun', Option.some.injEq, Prod.mk.injEq] at hrun
    obtain ⟨rfl, -⟩ := hrun
    refine ⟨_, h.of_same hmode hbank ?_ ?_ ?_⟩ <;> simp [tuBankModelTick]
  | transfer t =>
    obtain ⟨⟨cm'', elapsed⟩, hrun, rfl⟩ := Option.map_eq_some_iff.1 hstep
    by_cases hbytes : t.bytes = 0
    · unfold tuCycleModelDmaTransfer at hrun
      rw [if_pos hbytes, Option.some.injEq, Prod.mk.injEq] at hrun
      obtain ⟨rfl, -⟩ := hrun
      exact ⟨bm, h⟩
    · obtain ⟨-, cycle, -, stall, -, hbank, hmode⟩ := dmaTransfer_eq_some h.mode hbytes hrun
      rw [h.bankModel] at hbank
      unfold bankPhase at hbank
      dsimp only at hbank
      split at hbank
      · split at hbank
        · exact absurd hbank nofun
        · rw [Option.some.injEq, Prod.mk.injEq] at hbank
          refine ⟨_, h.of_same hmode hbank.1.symm ?_ ?_ ?_⟩ <;> simp
      · rw [Option.some.injEq, Prod.mk.injEq] at hbank
        exact ⟨bm, h.of_same hmode hbank.1.symm rfl rfl rfl⟩
  | advance cycles =>
    obtain rfl := Option.some.inj hstep
    exact ⟨bm, h.of_same h.mode h.bankModel rfl rfl rfl⟩
  | reset =>
    obtain rfl := Option.some.inj hstep
    refine ⟨createdBankModel, h.mode, ?_, rfl, rfl, rfl⟩
    show cm.bankModel.map _ = _
    rw [h.bankModel]
    rfl

/-- Every model that a run reaches from a new one has the constants of a new one. -/
theorem run_created {ops : List CycleOp} {cm : TuCycleModel}
    (hrun : ops.foldlM TuCycleModel.step (tuCycleModelCreate .cycleAccurate) = some cm) : ∃ bm, cm.Created bm := by
  have hall : ∀ (ops : List CycleOp) (cm₀ : TuCycleModel), (∃ bm, cm₀.Created bm) →
      ops.foldlM TuCycleModel.step cm₀ = some cm → ∃ bm, cm.Created bm := by
    intro ops
    induction ops with
    | nil =>
      rintro cm₀ hcreated hrun
      obtain rfl := Option.some.inj hrun
      exact hcreated
    | cons op ops ih =>
      rintro cm₀ ⟨bm, hcreated⟩ hrun
      rw [List.foldlM_cons, Option.bind_eq_bind, Option.bind_eq_some_iff] at hrun
      obtain ⟨cm₁, hstep, hrest⟩ := hrun
      exact ih cm₁ (step_created hcreated hstep) hrest
  exact hall ops _ ⟨createdBankModel, rfl, rfl, rfl, rfl, rfl⟩ hrun

end Tusim.Perf
