import Tusim.Dma.Engine

/-!
# The pipeline controller

The controller of `pipeline_controller.c` after `tu_pipeline_init`, together with the DMA engine it drives.  A tile goes
through the stages `dmaPreload`, `compute` and `dmaStore` in one of at most eight slots; descriptors are numbers of the
heap of the engine.  The cycle counters are 64-bit values.  Fields that no function reads (`tile_timeout_cycles`,
`cycles_saved` and the like) are left out.

`serial`, `accepted` and `retired` are not in the source: they number the accepted tiles and record the retired ones,
for the statements about runs.
-/

namespace Tusim

open Word

inductive TuPipelineStage where
  | idle | dmaPreload | compute | dmaStore | done
  deriving DecidableEq, Repr

structure TuPipelineConfig where
  enableLoadOverlap : Bool := true
  enableStoreOverlap : Bool := true
  deriving DecidableEq, Repr

structure TuPipelineTile where
  tileId : UInt32 := 0
  stage : TuPipelineStage := .idle
  cycleEntered : Nat := 0
  cycleExpected : Nat := 0
  loadDesc : Option Nat := none
  loadSignalId : UInt32 := 0
  storeDesc : Option Nat := none
  storeSignalId : UInt32 := 0
  computeCycles : Nat := 0
  cmdId : UInt32 := 0
  bufferRegion : Option Nat := none
  swapped : Bool := false
  serial : Nat := 0
  deriving DecidableEq, Repr

structure TuPipelineController where
  dma : TuDmaEngine
  /-- the addresses of the buffers of the regions -/
  buffers : Nat → TuSramBuffers
  slots : Nat → TuPipelineTile
  depth : Nat
  config : TuPipelineConfig
  activeCount : UInt32
  nextTileId : UInt32
  totalComputeCycles : Nat
  totalLoadCycles : Nat
  totalStoreCycles : Nat
  overlappedLoadCycles : Nat
  overlappedStoreCycles : Nat
  stallCycles : Nat
  sequentialTotal : Nat
  currentCycle : Nat
  totalTilesProcessed : UInt32
  totalStalls : UInt32
  accepted : Nat
  retired : List Nat
  depth_pos : 0 < depth
  depth_le : depth ≤ 8

/-- The depth is clamped to `1..8`. -/
def tuPipelineInit (dma : TuDmaEngine) (buffers : Nat → TuSramBuffers) (depth : UInt32) (config : TuPipelineConfig) :
    TuPipelineController where
  dma := dma
  buffers := buffers
  slots _ := {}
  depth := max 1 (min depth.toNat 8)
  config := config
  activeCount := 0
  nextTileId := 0
  totalComputeCycles := 0
  totalLoadCycles := 0
  totalStoreCycles := 0
  overlappedLoadCycles := 0
  overlappedStoreCycles := 0
  stallCycles := 0
  sequentialTotal := 0
  currentCycle := 0
  totalTilesProcessed := 0
  totalStalls := 0
  accepted := 0
  retired := []
  depth_pos := by omega
  depth_le := by omega

namespace TuPipelineController

def setSlot (p : TuPipelineController) (i : Nat) (f : TuPipelineTile → TuPipelineTile) : TuPipelineController :=
  { p with slots := Function.update p.slots i (f (p.slots i)) }

/-- `tu_sram_is_double_buffered` of the region of a tile. -/
def doubleBuffered (p : TuPipelineController) (region : Option Nat) : Bool :=
  region.any fun r => tuSramIsDoubleBuffered (p.dma.mem.sram r)

def swapBuffers (p : TuPipelineController) (r : Nat) : TuPipelineController :=
  { p with dma := { p.dma with mem := { p.dma.mem with
    sram := Function.update p.dma.mem.sram r (tuSramSwapBuffers (p.dma.mem.sram r)) } } }

/-- `desc->completed`; a missing descriptor counts as completed. -/
def descDone (p : TuPipelineController) (desc : Option Nat) : Bool := desc.all fun d => (p.dma.heap d).completed

/-- `desc->total_bytes / TU_DMA_BUS_WIDTH_BYTES`, or the default without a descriptor. -/
def busCycles (p : TuPipelineController) (desc : Option Nat) (default : Nat) : Nat :=
  desc.elim default fun d => (p.dma.heap d).totalBytes.toNat / 32

end TuPipelineController

open TuPipelineController

/-! ### Advancing -/

/-- A tile whose load is done enters the compute stage; a double-buffered region is swapped. -/
def enterCompute (p : TuPipelineController) (i : Nat) : TuPipelineController :=
  let tile := p.slots i
  let swaps := p.doubleBuffered tile.bufferRegion
  let p :=
    match tile.bufferRegion with
    | some r => if swaps then p.swapBuffers r else p
    | none => p
  let p := p.setSlot i fun tile =>
    { tile with
      swapped := tile.swapped || swaps, stage := .compute, cycleEntered := p.currentCycle
      cycleExpected := u64 (p.currentCycle + tile.computeCycles) }
  { p with
    totalComputeCycles := u64 (p.totalComputeCycles + tile.computeCycles)
    overlappedLoadCycles :=
      if p.activeCount ≥ 2 ∧ p.config.enableLoadOverlap = true then
        u64 (p.overlappedLoadCycles + p.busCycles tile.loadDesc 0)
      else p.overlappedLoadCycles }

/-- A computed tile enters the store stage, and its store is submitted. -/
def enterStore (p : TuPipelineController) (i : Nat) : TuPipelineController :=
  let tile := p.slots i
  let submitted := tuDmaSubmitDesc p.dma tile.storeDesc
  let p := { p with dma := submitted.1, totalStoreCycles := u64 (p.totalStoreCycles + p.busCycles tile.storeDesc 0) }
  p.setSlot i fun tile =>
    { tile with
      stage := .dmaStore, cycleEntered := p.currentCycle
      storeSignalId := if tile.storeDesc.isSome then submitted.2 else tile.storeSignalId }

/-- A stored tile is done, and its slot is free. -/
def retireTile (p : TuPipelineController) (i : Nat) : TuPipelineController :=
  let tile := p.slots i
  let p := { p with
    activeCount := p.activeCount - 1
    totalTilesProcessed := p.totalTilesProcessed + 1
    retired := p.retired ++ [tile.serial] }
  let p := { p with
    overlappedStoreCycles :=
      if p.activeCount ≥ 1 ∧ p.config.enableStoreOverlap = true then
        u64 (p.overlappedStoreCycles + p.busCycles tile.storeDesc 0)
      else p.overlappedStoreCycles }
  p.setSlot i fun tile => { tile with stage := .done, loadDesc := none, storeDesc := none }

/-- The turn of slot `i`, and whether its tile advanced. -/
def advanceSlot (p : TuPipelineController) (i : Nat) : TuPipelineController × Nat :=
  let tile := p.slots i
  match tile.stage with
  | .idle | .done => (p, 0)
  | .dmaPreload => if p.descDone tile.loadDesc then (enterCompute p i, 1) else (p, 0)
  | .compute => if p.currentCycle ≥ tile.cycleExpected then (enterStore p i, 1) else (p, 0)
  | .dmaStore => if p.descDone tile.storeDesc then (retireTile p i, 1) else (p, 0)

/-- The turns of the first `n` slots. -/
def advanceSlots (p : TuPipelineController) : Nat → TuPipelineController × Nat
  | 0 => (p, 0)
  | n + 1 =>
    let s := advanceSlots p n
    let t := advanceSlot s.1 n
    (t.1, s.2 + t.2)

/-- The DMA tick with which an advance starts. -/
def tickDma (p : TuPipelineController) : TuPipelineController := { p with dma := (tuDmaTick p.dma).1 }

def tuPipelineAdvance (p : TuPipelineController) : TuPipelineController × Nat := advanceSlots (tickDma p) p.depth

/-- `current_cycle++` -/
def tickCycle (p : TuPipelineController) : TuPipelineController :=
  { p with currentCycle := u64 (p.currentCycle + 1) }

def elapseAdvance (p : TuPipelineController) : TuPipelineController := (tuPipelineAdvance (tickCycle p)).1

/-! ### Submission -/

/-- The first free slot is recycled. -/
def findFreeSlot (p : TuPipelineController) : TuPipelineController × Option Nat :=
  match (List.range p.depth).find? fun i => (p.slots i).stage = .idle || (p.slots i).stage = .done with
  | some i => (p.setSlot i fun tile => { tile with stage := .idle, loadDesc := none, storeDesc := none }, some i)
  | none => (p, none)

/-- The loop that advances a full pipeline until a slot is free, for at most `n` rounds. -/
def waitForSlot : Nat → TuPipelineController → TuPipelineController × Option Nat
  | 0, p => (p, none)
  | n + 1, p =>
    match findFreeSlot (elapseAdvance p) with
    | (p, some i) => (p, some i)
    | (p, none) => waitForSlot n p

/-- The load is pointed at the shadow buffer of a double-buffered region. -/
def redirectLoad (p : TuPipelineController) (loadDesc bufferRegion : Option Nat) : TuPipelineController :=
  match loadDesc, bufferRegion with
  | some d, some r =>
    match tuSramGetShadowPtr (p.buffers r) (p.dma.mem.sram r) with
    | some shadow =>
      { p with dma := p.dma.setDesc d fun desc =>
        { desc with dstRegion := some r, dstHost := if desc.direction = .hostToTu then some shadow else desc.dstHost } }
    | none => p
  | _, _ => p

/-- No pipelining: the load is not overlapped with the compute stage of the tile before. -/
def isSequential (p : TuPipelineController) : Bool := p.depth = 1 || !p.config.enableLoadOverlap

/-- The new tile in slot `i`. -/
def placeTile (p : TuPipelineController) (i : Nat) (loadDesc storeDesc : Option Nat) (computeCycles : Nat)
    (cmdId : UInt32) (bufferRegion : Option Nat) (loadCycles : Nat) : TuPipelineController :=
  let inPlace := !isSequential p && p.totalTilesProcessed == 0 && loadDesc.isNone
  let stage : TuPipelineStage := if inPlace then .compute else .dmaPreload
  let p := if isSequential p then p else redirectLoad p loadDesc bufferRegion
  let submitted := tuDmaSubmitDesc p.dma loadDesc
  { p with
    dma := submitted.1
    slots := Function.update p.slots i
      { tileId := p.nextTileId
        stage := stage
        cycleEntered := p.currentCycle
        cycleExpected := u64 (p.currentCycle + if inPlace then computeCycles else loadCycles)
        loadDesc := loadDesc
        loadSignalId := submitted.2
        storeDesc := storeDesc
        computeCycles := computeCycles
        cmdId := cmdId
        bufferRegion := bufferRegion
        swapped := inPlace
        serial := p.accepted }
    nextTileId := p.nextTileId + 1
    totalLoadCycles := if loadDesc.isSome then u64 (p.totalLoadCycles + loadCycles) else p.totalLoadCycles
    activeCount := p.activeCount + 1
    accepted := p.accepted + 1 }

/-- `retry < 1000000` -/
def tuPipelineMaxWait : Nat := 1000000

/-- The state in which the slot is taken, if there is one: at once, or after waiting. -/
def claimSlot (p : TuPipelineController) : TuPipelineController × Option Nat :=
  match findFreeSlot p with
  | (p, some i) => (p, some i)
  | (p, none) => waitForSlot tuPipelineMaxWait p

/-- Submission of a tile; the second component is the identifier, `none` for `-1`. -/
def tuPipelineSubmitTile (p : TuPipelineController) (loadDesc storeDesc : Option Nat) (computeCycles : Nat)
    (cmdId : UInt32) (bufferRegion : Option Nat) : TuPipelineController × Option UInt32 :=
  let loadCycles := p.busCycles loadDesc 1
  let storeCycles := p.busCycles storeDesc 1
  let p := { p with sequentialTotal := u64 (p.sequentialTotal + loadCycles + computeCycles + storeCycles) }
  match claimSlot p with
  | (p, some i) => (placeTile p i loadDesc storeDesc computeCycles cmdId bufferRegion loadCycles, some p.nextTileId)
  | (p, none) =>
    ({ p with totalStalls := p.totalStalls + 1, stallCycles := u64 (p.stallCycles + computeCycles) }, none)

/-! ### Draining -/

/-- `while (active_count > 0 && max_wait > 0)`, with `n` for `max_wait`. -/
def syncLoop : Nat → TuPipelineController → TuPipelineController
  | 0, p => p
  | n + 1, p => if p.activeCount > 0 then syncLoop n (elapseAdvance p) else p

def tuPipelineSync (p : TuPipelineController) : TuPipelineController := syncLoop tuPipelineMaxWait p

/-! ### Runs -/

/-- The calls of a run: the controller's own, the cycles its driver adds to `current_cycle`, and the calls of other
users of the DMA engine.  A submission brings chains of fresh descriptors. -/
inductive TuPipelineOp where
  | submit (load store : List TuDmaDescriptor) (computeCycles : Nat) (cmdId : UInt32) (bufferRegion : Option Nat)
  | advance
  | sync
  | elapse (cycles : Nat)
  | dma (op : TuDmaOp)

/-- Build the chains of a tile and submit it. -/
def submitTile (p : TuPipelineController) (load store : List TuDmaDescriptor) (computeCycles : Nat) (cmdId : UInt32)
    (bufferRegion : Option Nat) : TuPipelineController × Option UInt32 :=
  let loadChain := newChain p.dma load
  let storeChain := newChain loadChain.1 store
  tuPipelineSubmitTile { p with dma := storeChain.1 } loadChain.2 storeChain.2 computeCycles cmdId bufferRegion

namespace TuPipelineController

def step (p : TuPipelineController) : TuPipelineOp → TuPipelineController
  | .submit load store computeCycles cmdId bufferRegion =>
    (submitTile p load store computeCycles cmdId bufferRegion).1
  | .advance => (tuPipelineAdvance p).1
  | .sync => tuPipelineSync p
  | .elapse cycles => { p with currentCycle := u64 (p.currentCycle + cycles) }
  | .dma op => { p with dma := p.dma.step op }

end TuPipelineController

end Tusim
