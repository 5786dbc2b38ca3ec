import Mathlib.Algebra.BigOperators.Group.Finset.Basic
import Mathlib.Algebra.Order.BigOperators.Group.Finset
import Mathlib.Algebra.Order.Ring.Nat
import Tusim.Dma.Sizes
import Tusim.Pipeline.Turns

/-!
# Pipeline statistics

The counters of `tu_pipeline_get_stats` are bumped at the submission of a tile and at the turns that move it on.  For
each of them `amountsDue` is what the tiles in the slots still have to bring: a turn moves an amount from there to the
counter, or drops it where nothing overlaps (`advanceSlot_settles`), so what was counted, what was dropped and what is
due add up to the cycles of the accepted tiles (`SlotBooks`).  When the pipeline is idle nothing is due.

Two amounts go astray: a tile that starts in the compute stage passes no turn that counts its computation, and
`sequential_total` is bumped before a slot is found.  `run_statistics_iff` says what this means for a run.
-/

namespace Tusim

open Word TuPipelineController Finset

/-! ### The statistics -/

/-- `tu_pipeline_stats_t` without its quotients. -/
structure TuPipelineStats where
  depth : Nat
  totalTiles : UInt32
  totalComputeCycles : Nat
  totalLoadCycles : Nat
  totalStoreCycles : Nat
  overlappedLoadCycles : Nat
  overlappedStoreCycles : Nat
  stallCycles : Nat
  sequentialTotal : Nat
  pipelinedTotal : Nat
  totalStalls : UInt32
  deriving DecidableEq, Repr

/-- Subtraction of 64-bit values. -/
def sub64 (a b : Nat) : Nat := u64 (a + 2 ^ 64 - b)

def tuPipelineGetStats (p : TuPipelineController) : TuPipelineStats :=
  let nonOverlapLoad := sub64 p.totalLoadCycles p.overlappedLoadCycles
  let nonOverlapStore := sub64 p.totalStoreCycles p.overlappedStoreCycles
  { depth := p.depth
    totalTiles := p.totalTilesProcessed
    totalComputeCycles := p.totalComputeCycles
    totalLoadCycles := p.totalLoadCycles
    totalStoreCycles := p.totalStoreCycles
    overlappedLoadCycles := p.overlappedLoadCycles
    overlappedStoreCycles := p.overlappedStoreCycles
    stallCycles := p.stallCycles
    sequentialTotal := p.sequentialTotal
    pipelinedTotal := u64 (p.totalComputeCycles + nonOverlapLoad + nonOverlapStore)
    totalStalls := p.totalStalls }

/-! ### The submissions of a run -/

structure TileSubmission where
  load : List TuDmaDescriptor
  store : List TuDmaDescriptor
  computeCycles : Nat
  accepted : Bool
  /-- the tile starts in the compute stage if it is accepted -/
  inPlace : Bool

/-- The bus cycles of a chain: the ones of its first descriptor. -/
def chainCycles (descs : List TuDmaDescriptor) (default : Nat) : Nat :=
  descs.head?.elim default fun desc => desc.totalBytes.toNat / 32

/-- `load_cycles + compute_cycles + store_cycles` -/
def TileSubmission.cycles (t : TileSubmission) : Nat := chainCycles t.load 1 + t.computeCycles + chainCycles t.store 1

/-- The submission that an operation makes. -/
def submissionOf (p : TuPipelineController) : TuPipelineOp → List TileSubmission
  | .submit load store computeCycles cmdId bufferRegion =>
    [{ load := load, store := store, computeCycles := computeCycles
       accepted := acceptsTile p (.submit load store computeCycles cmdId bufferRegion)
       inPlace := startsInPlace (claimSlot (queuedTile p load store computeCycles)).1 (newChain p.dma load).2 }]
  | _ => []

def submissions : TuPipelineController → List TuPipelineOp → List TileSubmission
  | _, [] => []
  | p, op :: ops => submissionOf p op ++ submissions (p.step op) ops

/-- The sum of an amount over the submissions of a kind. -/
def sumKind (kind : TileSubmission → Bool) (amount : TileSubmission → Nat) (tiles : List TileSubmission) : Nat :=
  ((tiles.filter kind).map amount).sum

/-- The overlapped cycles do not exceed the totals. -/
def OverlapWithin (p : TuPipelineController) : Prop :=
  let stats := tuPipelineGetStats p
  stats.overlappedLoadCycles ≤ stats.totalLoadCycles ∧ stats.overlappedStoreCycles ≤ stats.totalStoreCycles

/-- What the statistics are to say of the accepted tiles. -/
structure StatsRight (stats : TuPipelineStats) (tiles : List TileSubmission) : Prop where
  compute : stats.totalComputeCycles = sumKind (·.accepted) (·.computeCycles) tiles
  sequential : stats.sequentialTotal = sumKind (·.accepted) (·.cycles) tiles
  pipelined : stats.pipelinedTotal ≤ stats.sequentialTotal

/-! ### Amounts that are due -/

/-- The counters that turns add to. -/
inductive PipelineCounter where
  | compute | store | overlappedLoad | overlappedStore
  deriving DecidableEq, Repr

/-- A tile in the stage has still to pass the turn that adds to the counter. -/
def PipelineCounter.awaits : PipelineCounter → TuPipelineStage → Bool
  | .compute, .dmaPreload | .overlappedLoad, .dmaPreload => true
  | .store, .dmaPreload | .store, .compute => true
  | .overlappedStore, .dmaPreload | .overlappedStore, .compute | .overlappedStore, .dmaStore => true
  | _, _ => false

/-- Every tile adds to the counter, whether or not it overlaps with another one. -/
def PipelineCounter.exact : PipelineCounter → Bool
  | .compute | .store => true
  | .overlappedLoad | .overlappedStore => false

namespace TuPipelineController

def counter (p : TuPipelineController) : PipelineCounter → Nat
  | .compute => p.totalComputeCycles
  | .store => p.totalStoreCycles
  | .overlappedLoad => p.overlappedLoadCycles
  | .overlappedStore => p.overlappedStoreCycles

def tileCycles (p : TuPipelineController) (tile : TuPipelineTile) : PipelineCounter → Nat
  | .compute => tile.computeCycles
  | .store | .overlappedStore => p.busCycles tile.storeDesc 0
  | .overlappedLoad => p.busCycles tile.loadDesc 0

/-- What the tile of slot `i` has still to bring. -/
def amountDue (p : TuPipelineController) (k : PipelineCounter) (i : Nat) : Nat :=
  if k.awaits (p.slots i).stage then p.tileCycles (p.slots i) k else 0

def amountsDue (p : TuPipelineController) (k : PipelineCounter) : Nat := ∑ i ∈ range p.depth, p.amountDue k i

/-- The descriptors of the tiles are in use. -/
def DescsHeld (p : TuPipelineController) : Prop :=
  ∀ i, (∀ d ∈ (p.slots i).loadDesc, d < p.dma.allocated) ∧ ∀ d ∈ (p.slots i).storeDesc, d < p.dma.allocated

end TuPipelineController

theorem awaits_busy {k : PipelineCounter} {stage : TuPipelineStage} (h : k.awaits stage = true) :
    stage.isBusy = true := by
  cases k <;> cases stage <;> first | rfl | cases h

theorem amountDue_of_free {p : TuPipelineController} {i : Nat} (h : (p.slots i).stage.isBusy = false)
    (k : PipelineCounter) : p.amountDue k i = 0 := by
  unfold amountDue
  rw [if_neg]
  intro hawaits
  rw [awaits_busy hawaits] at h
  cases h

/-- The bus cycles of a descriptor in use do not change. -/
theorem busCycles_congr {p q : TuPipelineController} (h : KeepsSizes p.dma q.dma) {desc : Option Nat}
    (hdesc : ∀ d ∈ desc, d < p.dma.allocated) (default : Nat) :
    q.busCycles desc default = p.busCycles desc default := by
  cases desc with
  | none => rfl
  | some d =>
    unfold busCycles
    show ((q.dma.heap d).totalBytes.toNat / 32 : Nat) = (p.dma.heap d).totalBytes.toNat / 32
    rw [h.size d (hdesc d rfl)]

theorem amountDue_congr {p q : TuPipelineController} (h : KeepsSizes p.dma q.dma) (hheld : p.DescsHeld) {i : Nat}
    (hslot : q.slots i = p.slots i) (k : PipelineCounter) : q.amountDue k i = p.amountDue k i := by
  unfold amountDue tileCycles
  rw [hslot]
  cases k with
  | compute => rfl
  | store | overlappedStore => simp only [busCycles_congr h (hheld i).2]
  | overlappedLoad => simp only [busCycles_congr h (hheld i).1]

/-! ### One turn -/

theorem advanceSlot_keepsSizes (p : TuPipelineController) (i : Nat) : KeepsSizes p.dma (advanceSlot p i).1.dma := by
  rcases advanceSlot_cases p i with heq | ⟨_, _, heq⟩ | ⟨_, _, heq⟩ | ⟨_, _, heq⟩
  · rw [heq]
    exact .refl _
  · obtain ⟨mem, swapped, hcompute⟩ := enterCompute_eq p i
    rw [heq, hcompute]
    exact ⟨Nat.le_refl _, fun _ _ => rfl⟩
  · rw [heq]
    exact .submitDesc _ _
  · rw [heq]
    exact .refl _

/-- A turn leaves the descriptors of a tile alone or takes them away. -/
theorem advanceSlot_descs (p : TuPipelineController) (i j : Nat) :
    (((advanceSlot p i).1.slots j).loadDesc = (p.slots j).loadDesc ∨ ((advanceSlot p i).1.slots j).loadDesc = none) ∧
      (((advanceSlot p i).1.slots j).storeDesc = (p.slots j).storeDesc ∨
        ((advanceSlot p i).1.slots j).storeDesc = none) := by
  by_cases hj : j = i
  · subst hj
    rcases advanceSlot_cases p j with heq | ⟨_, _, heq⟩ | ⟨_, _, heq⟩ | ⟨_, _, heq⟩
    · rw [heq]
      exact ⟨Or.inl rfl, Or.inl rfl⟩
    · obtain ⟨mem, swapped, hcompute⟩ := enterCompute_eq p j
      rw [heq, hcompute]
      simp
    · rw [heq]
      simp [enterStore, setSlot]
    · rw [heq]
      simp [retireTile, setSlot]
  · rw [(advanceSlot_stage p i).2 j hj]
    exact ⟨Or.inl rfl, Or.inl rfl⟩

theorem TuPipelineController.DescsHeld.of_descs {p q : TuPipelineController} (h : p.DescsHeld)
    (hdma : p.dma.allocated ≤ q.dma.allocated)
    (hdescs : ∀ i, ((q.slots i).loadDesc = (p.slots i).loadDesc ∨ (q.slots i).loadDesc = none) ∧
      ((q.slots i).storeDesc = (p.slots i).storeDesc ∨ (q.slots i).storeDesc = none)) : q.DescsHeld := by
  intro i
  obtain ⟨hload, hstore⟩ := hdescs i
  constructor
  · intro d hd
    rcases hload with heq | heq
    · exact ((h i).1 d (heq ▸ hd)).trans_le hdma
    · rw [heq] at hd
      cases hd
  · intro d hd
    rcases hstore with heq | heq
    · exact ((h i).2 d (heq ▸ hd)).trans_le hdma
    · rw [heq] at hd
      cases hd

/-- Of what the tile of slot `i` had to bring, the counter took `counted` and nothing took `missed`. -/
structure TurnBooked (p q : TuPipelineController) (k : PipelineCounter) (i counted missed : Nat) : Prop where
  split : p.amountDue k i = counted + missed + q.amountDue k i
  exact : k.exact = true → missed = 0
  counter : ∀ n, p.counter k = u64 n → q.counter k = u64 (n + counted)

/-- A turn that does not concern the counter. -/
theorem TurnBooked.same {p q : TuPipelineController} {k : PipelineCounter} {i : Nat}
    (hdue : q.amountDue k i = p.amountDue k i) (hcounter : q.counter k = p.counter k) : TurnBooked p q k i 0 0 where
  split := by omega
  exact := fun _ => rfl
  counter := fun _ hn => hcounter.trans hn

/-- A turn that adds what was due. -/
theorem TurnBooked.counted {p q : TuPipelineController} {k : PipelineCounter} {i : Nat} (hdue : q.amountDue k i = 0)
    (hcounter : q.counter k = u64 (p.counter k + p.amountDue k i)) : TurnBooked p q k i (p.amountDue k i) 0 where
  split := by omega
  exact := fun _ => rfl
  counter := fun n hn => by rw [hcounter, hn, u64_u64_add]

/-- A turn that drops what was due. -/
theorem TurnBooked.missed {p q : TuPipelineController} {k : PipelineCounter} {i : Nat} (hdue : q.amountDue k i = 0)
    (hcounter : q.counter k = p.counter k) (hk : k.exact = false) : TurnBooked p q k i 0 (p.amountDue k i) where
  split := by omega
  exact := fun hexact => by
    rw [hk] at hexact
    cases hexact
  counter := fun _ hn => hcounter.trans hn

theorem enterCompute_settles {p : TuPipelineController} {i : Nat} (hstage : (p.slots i).stage = .dmaPreload)
    (k : PipelineCounter) : ∃ counted missed, TurnBooked p (enterCompute p i) k i counted missed := by
  obtain ⟨mem, swapped, heq⟩ := enterCompute_eq p i
  rw [heq]
  cases k with
  | compute =>
    refine ⟨_, _, .counted ?_ ?_⟩
    · simp [amountDue, PipelineCounter.awaits]
    · simp [amountDue, PipelineCounter.awaits, hstage, counter, tileCycles]
  | store | overlappedStore =>
    refine ⟨_, _, .same ?_ rfl⟩
    simp [amountDue, PipelineCounter.awaits, hstage, tileCycles, busCycles]
  | overlappedLoad =>
    have hdue : ∀ q : TuPipelineController, (q.slots i).stage = .compute → q.amountDue .overlappedLoad i = 0 := by
      intro q hq
      simp [amountDue, PipelineCounter.awaits, hq]
    by_cases hoverlap : p.activeCount ≥ 2 ∧ p.config.enableLoadOverlap = true
    · refine ⟨_, _, .counted (hdue _ (by simp)) ?_⟩
      simp [amountDue, PipelineCounter.awaits, hstage, counter, tileCycles, hoverlap]
    · refine ⟨_, _, .missed (hdue _ (by simp)) ?_ rfl⟩
      exact if_neg hoverlap

theorem enterStore_settles {p : TuPipelineController} (hheld : p.DescsHeld) {i : Nat}
    (hstage : (p.slots i).stage = .compute) (k : PipelineCounter) :
    ∃ counted missed, TurnBooked p (enterStore p i) k i counted missed := by
  have hslot : ((enterStore p i).slots i).stage = .dmaStore ∧
      ((enterStore p i).slots i).storeDesc = (p.slots i).storeDesc := by simp [enterStore, setSlot]
  cases k with
  | compute | overlappedLoad =>
    refine ⟨_, _, .same ?_ rfl⟩
    simp [amountDue, PipelineCounter.awaits, hstage, hslot]
  | store =>
    refine ⟨_, _, .counted ?_ ?_⟩
    · simp [amountDue, PipelineCounter.awaits, hslot]
    · simp [amountDue, PipelineCounter.awaits, hstage, counter, tileCycles, enterStore, setSlot]
  | overlappedStore =>
    have hsizes : KeepsSizes p.dma (enterStore p i).dma := .submitDesc _ _
    refine ⟨_, _, .same ?_ rfl⟩
    simp [amountDue, PipelineCounter.awaits, hstage, hslot, tileCycles, busCycles_congr hsizes (hheld i).2]

theorem retireTile_settles {p : TuPipelineController} {i : Nat} (hstage : (p.slots i).stage = .dmaStore)
    (k : PipelineCounter) : ∃ counted missed, TurnBooked p (retireTile p i) k i counted missed := by
  have hslot : ((retireTile p i).slots i).stage = .done := by simp [retireTile, setSlot]
  have hdue : (retireTile p i).amountDue k i = 0 := amountDue_of_free (by rw [hslot]; rfl) k
  cases k with
  | compute | overlappedLoad | store =>
    refine ⟨_, _, .same ?_ rfl⟩
    rw [hdue]
    simp [amountDue, PipelineCounter.awaits, hstage]
  | overlappedStore =>
    by_cases hoverlap : p.activeCount - 1 ≥ 1 ∧ p.config.enableStoreOverlap = true
    · refine ⟨_, _, .counted hdue ?_⟩
      have hcounter : (retireTile p i).counter .overlappedStore =
          u64 (p.overlappedStoreCycles + p.busCycles (p.slots i).storeDesc 0) := if_pos hoverlap
      rw [hcounter]
      simp [amountDue, PipelineCounter.awaits, hstage, counter, tileCycles]
    · exact ⟨_, _, .missed hdue (if_neg hoverlap) rfl⟩

/-- A turn moves what its tile had to bring to the counter, or drops it. -/
theorem advanceSlot_settles {p : TuPipelineController} (hheld : p.DescsHeld) (i : Nat) (k : PipelineCounter) :
    ∃ counted missed, TurnBooked p (advanceSlot p i).1 k i counted missed := by
  rcases advanceSlot_cases p i with heq | ⟨hstage, _, heq⟩ | ⟨hstage, _, heq⟩ | ⟨hstage, _, heq⟩
  · rw [heq]
    exact ⟨_, _, .same rfl rfl⟩
  · rw [heq]
    exact enterCompute_settles hstage k
  · rw [heq]
    exact enterStore_settles hheld hstage k
  · rw [heq]
    exact retireTile_settles hstage k

/-! ### The books of the slots -/

/-- What was counted, what was dropped and what is due add up to what is booked for the accepted tiles. -/
structure SlotBooks (booked : PipelineCounter → Nat) (p : TuPipelineController) : Prop where
  held : p.DescsHeld
  balance : ∀ k, ∃ counted missed, p.counter k = u64 counted ∧ counted + missed + p.amountsDue k = booked k ∧
    (k.exact = true → missed = 0)

/-- Where the other slots keep their amounts, the sum changes by what slot `i` brings. -/
theorem amountsDue_exchange {p q : TuPipelineController} {k : PipelineCounter} {i : Nat} (hdepth : q.depth = p.depth)
    (hi : i < p.depth) (hothers : ∀ j ≠ i, q.amountDue k j = p.amountDue k j) :
    q.amountsDue k + p.amountDue k i = p.amountsDue k + q.amountDue k i := by
  have hrest : ∑ j ∈ (range p.depth).erase i, q.amountDue k j = ∑ j ∈ (range p.depth).erase i, p.amountDue k j :=
    sum_congr rfl fun j hj => hothers j (mem_erase.1 hj).1
  have hp := add_sum_erase _ (p.amountDue k) (mem_range.2 hi)
  have hq := add_sum_erase _ (q.amountDue k) (mem_range.2 hi)
  unfold amountsDue
  rw [hdepth]
  omega

section

variable {booked : PipelineCounter → Nat} {p q : TuPipelineController}

/-- Steps that change neither the tiles nor their counters. -/
theorem SlotBooks.of_same (h : SlotBooks booked p) (hsizes : KeepsSizes p.dma q.dma) (hslots : q.slots = p.slots)
    (hdepth : q.depth = p.depth) (hcounter : q.counter = p.counter) : SlotBooks booked q where
  held := h.held.of_descs hsizes.allocated fun i => by simp [hslots]
  balance := by
    intro k
    have hdue : q.amountsDue k = p.amountsDue k := by
      unfold amountsDue
      rw [hdepth]
      exact sum_congr rfl fun i _ => amountDue_congr hsizes h.held (congrFun hslots i) k
    rw [hcounter, hdue]
    exact h.balance k

theorem SlotBooks.advanceSlot (h : SlotBooks booked p) {i : Nat} (hi : i < p.depth) :
    SlotBooks booked (advanceSlot p i).1 where
  held := h.held.of_descs (advanceSlot_keepsSizes p i).allocated (advanceSlot_descs p i)
  balance := by
    intro k
    obtain ⟨counted, missed, hcounter, hsum, hexact⟩ := h.balance k
    obtain ⟨counted', missed', hsettled⟩ := advanceSlot_settles h.held i k
    have hothers : ∀ j ≠ i, (Tusim.advanceSlot p i).1.amountDue k j = p.amountDue k j := fun j hj =>
      amountDue_congr (advanceSlot_keepsSizes p i) h.held ((advanceSlot_stage p i).2 j hj) k
    have hexchange := amountsDue_exchange (advanceSlot_depth p i).1 hi hothers
    have hsplit := hsettled.split
    refine ⟨counted + counted', missed + missed', hsettled.counter counted hcounter, by omega, fun hk => ?_⟩
    rw [hexact hk, hsettled.exact hk]

theorem SlotBooks.tuPipelineAdvance (h : SlotBooks booked p) : SlotBooks booked (tuPipelineAdvance p).1 := by
  have htick : SlotBooks booked (tickDma p) := h.of_same (.tick p.dma) rfl rfl rfl
  refine (advanceSlots_induction (P := SlotBooks booked) ?_ htick p.depth (Nat.le_refl _)).2
  intro q i hdepth hi hq
  exact hq.advanceSlot (hdepth ▸ hi)

theorem SlotBooks.keptWaiting : KeptWaiting (SlotBooks booked) where
  elapseAdvance := fun p h => SlotBooks.tuPipelineAdvance (p := tickCycle p) (h.of_same (.refl _) rfl rfl rfl)
  recycle := by
    intro p i hfree h
    have hmoved := setSlot_idle_moved p i
    generalize hq : (p.setSlot i fun tile => { tile with stage := .idle, loadDesc := none, storeDesc := none }) = q
    rw [hq] at hmoved
    have hsizes : KeepsSizes p.dma q.dma := hq ▸ .refl _
    have hdue : ∀ k j, q.amountDue k j = p.amountDue k j := by
      intro k j
      by_cases hj : j = i
      · rw [hj, amountDue_of_free hfree, amountDue_of_free (by rw [hmoved.stage_eq]; rfl)]
      · exact amountDue_congr hsizes h.held (hmoved.others j hj) k
    refine ⟨h.held.of_descs hsizes.allocated fun j => ?_, fun k => ?_⟩
    · by_cases hj : j = i
      · subst hj hq
        simp [setSlot]
      · rw [hmoved.others j hj]
        exact ⟨Or.inl rfl, Or.inl rfl⟩
    · rw [show q.counter k = p.counter k from hq ▸ rfl, amountsDue, hmoved.depth, sum_congr rfl fun j _ => hdue k j]
      exact h.balance k

end

theorem redirectedDma_keepsSizes (p : TuPipelineController) (loadDesc bufferRegion : Option Nat) :
    KeepsSizes p.dma (redirectedDma p loadDesc bufferRegion) := by
  unfold redirectedDma redirectLoad
  split
  · exact .refl _
  · split
    · rename_i d r
      split
      · refine ⟨Nat.le_refl _, fun x _ => ?_⟩
        by_cases hx : x = d
        · simp [TuDmaEngine.setDesc, hx]
        · simp [TuDmaEngine.setDesc, hx]
      · exact .refl _
    · exact .refl _

theorem placeTile_keepsSizes (p : TuPipelineController) (i : Nat) (loadDesc storeDesc : Option Nat)
    (computeCycles : Nat) (cmdId : UInt32) (bufferRegion : Option Nat) (loadCycles : Nat) :
    KeepsSizes p.dma (placeTile p i loadDesc storeDesc computeCycles cmdId bufferRegion loadCycles).dma := by
  rw [placeTile_eq]
  exact (redirectedDma_keepsSizes p loadDesc bufferRegion).trans (.submitDesc _ _)

/-- A new tile is booked with what it has to bring. -/
theorem SlotBooks.placeTile {booked : PipelineCounter → Nat} {p : TuPipelineController} (h : SlotBooks booked p)
    {i : Nat} (hi : i < p.depth) (hfree : (p.slots i).stage = .idle) {loadDesc storeDesc : Option Nat}
    (hload : ∀ d ∈ loadDesc, d < p.dma.allocated) (hstore : ∀ d ∈ storeDesc, d < p.dma.allocated) (computeCycles : Nat)
    (cmdId : UInt32) (bufferRegion : Option Nat) (loadCycles : Nat) :
    let q := placeTile p i loadDesc storeDesc computeCycles cmdId bufferRegion loadCycles
    SlotBooks (fun k => booked k + q.amountDue k i) q := by
  intro q
  have hsizes : KeepsSizes p.dma q.dma := placeTile_keepsSizes ..
  have hframe : q.depth = p.depth ∧ q.counter = p.counter ∧ (∀ j ≠ i, q.slots j = p.slots j) ∧
      (q.slots i).loadDesc = loadDesc ∧ (q.slots i).storeDesc = storeDesc := by
    show (Tusim.placeTile ..).depth = _ ∧ (Tusim.placeTile ..).counter = _ ∧ _
    rw [placeTile_eq]
    refine ⟨rfl, rfl, fun j hj => ?_, ?_, ?_⟩
    all_goals simp [q, placeTile_eq, *]
  obtain ⟨hdepth, hcounter, hothers, hq⟩ := hframe
  refine ⟨fun j => ?_, fun k => ?_⟩
  · by_cases hj : j = i
    · rw [hj, hq.1, hq.2]
      exact ⟨fun d hd => (hload d hd).trans_le hsizes.allocated, fun d hd => (hstore d hd).trans_le hsizes.allocated⟩
    · rw [hothers j hj]
      exact ⟨fun d hd => ((h.held j).1 d hd).trans_le hsizes.allocated,
        fun d hd => ((h.held j).2 d hd).trans_le hsizes.allocated⟩
  · obtain ⟨counted, missed, hcount, hsum, hexact⟩ := h.balance k
    have hexchange := amountsDue_exchange (k := k) hdepth hi fun j hj => amountDue_congr hsizes h.held (hothers j hj) k
    have hbefore : p.amountDue k i = 0 := amountDue_of_free (by rw [hfree]; rfl) k
    rw [hcounter]
    exact ⟨counted, missed, hcount, by omega, hexact⟩

/-! ### The books of a run -/

/-- What a submission adds to a counter in the end. -/
def TileSubmission.booked (t : TileSubmission) : PipelineCounter → Nat
  | .compute => if t.accepted && !t.inPlace then t.computeCycles else 0
  | .store | .overlappedStore => if t.accepted then chainCycles t.store 0 else 0
  | .overlappedLoad => if t.accepted then chainCycles t.load 0 else 0

def bookedCycles (tiles : List TileSubmission) (k : PipelineCounter) : Nat := (tiles.map (·.booked k)).sum

structure StatsBooks (tiles : List TileSubmission) (p : TuPipelineController) : Prop where
  slots : SlotBooks (bookedCycles tiles) p
  sequential : p.sequentialTotal = u64 (tiles.map (·.cycles)).sum
  load : p.totalLoadCycles = u64 (bookedCycles tiles .overlappedLoad)

theorem bookedCycles_snoc (tiles : List TileSubmission) (t : TileSubmission) (k : PipelineCounter) :
    bookedCycles (tiles ++ [t]) k = bookedCycles tiles k + t.booked k := by
  simp [bookedCycles]

/-- The counters that submissions bump are left alone by the turns. -/
theorem advanceSlot_totals (p : TuPipelineController) (i : Nat) :
    (advanceSlot p i).1.sequentialTotal = p.sequentialTotal ∧
      (advanceSlot p i).1.totalLoadCycles = p.totalLoadCycles := by
  rcases advanceSlot_cases p i with heq | ⟨_, _, heq⟩ | ⟨_, _, heq⟩ | ⟨_, _, heq⟩
  · rw [heq]
    exact ⟨rfl, rfl⟩
  · obtain ⟨mem, swapped, hcompute⟩ := enterCompute_eq p i
    rw [heq, hcompute]
    exact ⟨rfl, rfl⟩
  · rw [heq]
    exact ⟨rfl, rfl⟩
  · rw [heq]
    exact ⟨rfl, rfl⟩

theorem totals_keptWaiting (m n : Nat) :
    KeptWaiting fun q => q.sequentialTotal = m ∧ q.totalLoadCycles = n where
  elapseAdvance := by
    intro p hp
    refine (advanceSlots_induction (P := fun q => q.sequentialTotal = m ∧ q.totalLoadCycles = n) ?_
      (p := tickDma (tickCycle p)) hp p.depth (Nat.le_refl _)).2
    intro q i _ _ hq
    obtain ⟨hsequential, hload⟩ := advanceSlot_totals q i
    exact ⟨hsequential.trans hq.1, hload.trans hq.2⟩
  recycle := fun _ _ _ hp => hp

theorem keepsSizes_keptWaiting (e : TuDmaEngine) : KeptWaiting fun q => KeepsSizes e q.dma where
  elapseAdvance := by
    intro p hp
    refine (advanceSlots_induction (P := fun q => KeepsSizes e q.dma) ?_ (p := tickDma (tickCycle p)) ?_ p.depth
      (Nat.le_refl _)).2
    · exact fun q i _ _ hq => hq.trans (advanceSlot_keepsSizes q i)
    · exact hp.trans (.tick p.dma)
  recycle := fun _ _ _ hp => hp

theorem busCycles_newChain (p : TuPipelineController) (e : TuDmaEngine) (descs : List TuDmaDescriptor)
    (hdma : p.dma = (newChain e descs).1) (default : Nat) :
    p.busCycles (newChain e descs).2 default = chainCycles descs default := by
  cases descs with
  | nil => rfl
  | cons desc descs =>
    have hsome : (newChain e (desc :: descs)).2 = some e.allocated := by
      rw [newChain_eq]
      rfl
    obtain ⟨-, hsize⟩ := newChain_head e (desc :: descs) hsome
    rw [hsome]
    show (p.dma.heap e.allocated).totalBytes.toNat / 32 = desc.totalBytes.toNat / 32
    rw [hdma, ← Option.some.inj hsize]

theorem newChain_lt {e : TuDmaEngine} {descs : List TuDmaDescriptor} :
    ∀ d ∈ (newChain e descs).2, d < (newChain e descs).1.allocated :=
  fun _ hd => (newChain_head e descs hd).1

/-- The cycles of the chains of a queued tile. -/
theorem queuedTile_cycles (p : TuPipelineController) (load store : List TuDmaDescriptor) (computeCycles default : Nat) :
    (queuedTile p load store computeCycles).busCycles (newChain p.dma load).2 default = chainCycles load default ∧
      (queuedTile p load store computeCycles).busCycles (newChain (newChain p.dma load).1 store).2 default =
        chainCycles store default := by
  refine ⟨?_, busCycles_newChain _ _ _ rfl default⟩
  let q : TuPipelineController := { p with dma := (newChain p.dma load).1 }
  have hsizes : KeepsSizes q.dma (queuedTile p load store computeCycles).dma := .newChain _ _
  exact (busCycles_congr hsizes newChain_lt default).trans (busCycles_newChain q _ _ rfl default)

/-- What a new tile has to bring is booked for its submission. -/
theorem placeTile_amountDue (p : TuPipelineController) (i : Nat) (loadDesc storeDesc : Option Nat) (computeCycles : Nat)
    (cmdId : UInt32) (bufferRegion : Option Nat) (loadCycles : Nat) (hload : ∀ d ∈ loadDesc, d < p.dma.allocated)
    (hstore : ∀ d ∈ storeDesc, d < p.dma.allocated) (k : PipelineCounter) :
    (placeTile p i loadDesc storeDesc computeCycles cmdId bufferRegion loadCycles).amountDue k i =
      match k with
      | .compute => if startsInPlace p loadDesc then 0 else computeCycles
      | .store | .overlappedStore => p.busCycles storeDesc 0
      | .overlappedLoad => p.busCycles loadDesc 0 := by
  have hsizes := placeTile_keepsSizes p i loadDesc storeDesc computeCycles cmdId bufferRegion loadCycles
  have hslot : ((placeTile p i loadDesc storeDesc computeCycles cmdId bufferRegion loadCycles).slots i).stage =
        (if startsInPlace p loadDesc then .compute else .dmaPreload) ∧
      ((placeTile p i loadDesc storeDesc computeCycles cmdId bufferRegion loadCycles).slots i).loadDesc = loadDesc ∧
      ((placeTile p i loadDesc storeDesc computeCycles cmdId bufferRegion loadCycles).slots i).storeDesc = storeDesc ∧
      ((placeTile p i loadDesc storeDesc computeCycles cmdId bufferRegion loadCycles).slots i).computeCycles =
        computeCycles := by
    rw [placeTile_eq]
    simp
  obtain ⟨hstage, hl, hs, hc⟩ := hslot
  generalize Tusim.placeTile p i loadDesc storeDesc computeCycles cmdId bufferRegion loadCycles = q at *
  unfold amountDue tileCycles
  rw [hstage, hl, hs, hc, busCycles_congr hsizes hload, busCycles_congr hsizes hstore]
  cases hstarts : startsInPlace p loadDesc with
  | false => cases k <;> rfl
  | true =>
    -- a tile whose data is in place has no load
    have hnone : loadDesc = none := by
      unfold startsInPlace at hstarts
      simp only [Bool.and_eq_true, Option.isNone_iff_eq_none] at hstarts
      exact hstarts.2
    subst hnone
    cases k <;> rfl

section

variable {tiles : List TileSubmission} {p : TuPipelineController}

/-- The sequential cost is counted before a slot is claimed, whether or not there is one. -/
theorem StatsBooks.claimed (h : StatsBooks tiles p) (load store : List TuDmaDescriptor) (computeCycles : Nat) :
    let q := claimSlot (queuedTile p load store computeCycles)
    SlotBooks (bookedCycles tiles) q.1 ∧ KeepsSizes (queuedTile p load store computeCycles).dma q.1.dma ∧
      q.1.sequentialTotal =
        u64 ((tiles.map (·.cycles)).sum + (chainCycles load 1 + computeCycles + chainCycles store 1)) ∧
      q.1.totalLoadCycles = u64 (bookedCycles tiles .overlappedLoad) := by
  intro q
  obtain ⟨hload, hstore⟩ := queuedTile_cycles p load store computeCycles 1
  have hsizes : KeepsSizes p.dma (queuedTile p load store computeCycles).dma :=
    (KeepsSizes.newChain p.dma load).trans (.newChain _ _)
  have hqueued : SlotBooks (bookedCycles tiles) (queuedTile p load store computeCycles) :=
    h.slots.of_same hsizes rfl rfl rfl
  have hsequential : (queuedTile p load store computeCycles).sequentialTotal =
      u64 ((tiles.map (·.cycles)).sum + (chainCycles load 1 + computeCycles + chainCycles store 1)) := by
    rw [← hload, ← hstore, ← u64_u64_add, ← h.sequential, ← Nat.add_assoc, ← Nat.add_assoc]
    rfl
  have htotals := ((totals_keptWaiting _ _).claimSlot (p := queuedTile p load store computeCycles) ⟨rfl, rfl⟩).1
  refine ⟨(SlotBooks.keptWaiting.claimSlot hqueued).1, ?_, htotals.1.trans hsequential, htotals.2.trans h.load⟩
  exact ((keepsSizes_keptWaiting _).claimSlot (KeepsSizes.refl (queuedTile p load store computeCycles).dma)).1

/-- A submission that is refused is booked in the sequential total only. -/
theorem StatsBooks.refused {q : TuPipelineController} {t : TileSubmission} (ht : t.accepted = false)
    (hslots : SlotBooks (bookedCycles tiles) q)
    (hsequential : q.sequentialTotal = u64 ((tiles.map (·.cycles)).sum + t.cycles))
    (hload : q.totalLoadCycles = u64 (bookedCycles tiles .overlappedLoad)) : StatsBooks (tiles ++ [t]) q := by
  have hbooked : bookedCycles (tiles ++ [t]) = bookedCycles tiles := by
    funext k
    rw [bookedCycles_snoc]
    cases k <;> simp [TileSubmission.booked, ht]
  refine ⟨hbooked ▸ hslots, ?_, hbooked ▸ hload⟩
  rw [List.map_append, List.sum_append]
  exact hsequential

theorem StatsBooks.submit (h : StatsBooks tiles p) (load store : List TuDmaDescriptor) (computeCycles : Nat)
    (cmdId : UInt32) (bufferRegion : Option Nat) :
    StatsBooks (tiles ++ submissionOf p (.submit load store computeCycles cmdId bufferRegion))
      (p.step (.submit load store computeCycles cmdId bufferRegion)) := by
  obtain ⟨hslots, hsizes, hsequential, hloads⟩ := h.claimed load store computeCycles
  have hsubmission : submissionOf p (.submit load store computeCycles cmdId bufferRegion) =
      [{ load := load, store := store, computeCycles := computeCycles
         accepted := acceptsTile p (.submit load store computeCycles cmdId bufferRegion)
         inPlace := startsInPlace (claimSlot (queuedTile p load store computeCycles)).1 (newChain p.dma load).2 }] :=
    rfl
  rw [hsubmission]
  rcases submit_cases p load store computeCycles cmdId bufferRegion with ⟨i, hsome, haccepts, heq⟩ | ⟨_, haccepts, heq⟩
  · have hclaim : i < (claimSlot (queuedTile p load store computeCycles)).1.depth ∧
        ((claimSlot (queuedTile p load store computeCycles)).1.slots i).stage = .idle :=
      ((totals_keptWaiting _ _).claimSlot (p := queuedTile p load store computeCycles) ⟨rfl, rfl⟩).2 i hsome
    have hload : ∀ d ∈ (newChain p.dma load).2, d < (queuedTile p load store computeCycles).dma.allocated :=
      fun d hd => (newChain_lt d hd).trans_le (KeepsSizes.newChain (newChain p.dma load).1 store).allocated
    have hstore : ∀ d ∈ (newChain (newChain p.dma load).1 store).2,
        d < (queuedTile p load store computeCycles).dma.allocated := newChain_lt
    have hload' := fun d hd => (hload d hd).trans_le hsizes.allocated
    have hstore' := fun d hd => (hstore d hd).trans_le hsizes.allocated
    have hplaced := hslots.placeTile hclaim.1 hclaim.2 hload' hstore' computeCycles cmdId bufferRegion
      ((queuedTile p load store computeCycles).busCycles (newChain p.dma load).2 1)
    rw [heq, haccepts]
    refine ⟨?_, ?_, ?_⟩
    · convert hplaced using 2 with k
      rw [bookedCycles_snoc, placeTile_amountDue _ _ _ _ _ _ _ _ hload' hstore',
        busCycles_congr hsizes hload, busCycles_congr hsizes hstore,
        (queuedTile_cycles p load store computeCycles 0).1, (queuedTile_cycles p load store computeCycles 0).2]
      cases k with
      | compute =>
        cases startsInPlace (claimSlot (queuedTile p load store computeCycles)).1 (newChain p.dma load).2 <;> rfl
      | store | overlappedStore | overlappedLoad => rfl
    · rw [placeTile_eq, List.map_append, List.sum_append]
      exact hsequential
    · rw [placeTile_eq, bookedCycles_snoc, (queuedTile_cycles p load store computeCycles 1).1]
      dsimp only
      rw [hloads]
      -- without a load nothing is added, and nothing is booked
      cases load with
      | nil => rfl
      | cons desc descs =>
        have hfresh : (newChain p.dma (desc :: descs)).2 = some p.dma.allocated := by
          rw [newChain_eq]
          rfl
        rw [hfresh, Option.isSome_some, if_pos rfl, u64_u64_add]
        rfl
  · rw [heq, haccepts]
    exact .refused rfl (hslots.of_same (.refl _) rfl rfl rfl) hsequential hloads

end

theorem StatsBooks.step {tiles : List TileSubmission} {p : TuPipelineController} (h : StatsBooks tiles p)
    (op : TuPipelineOp) : StatsBooks (tiles ++ submissionOf p op) (p.step op) := by
  cases op with
  | submit load store computeCycles cmdId bufferRegion => exact h.submit load store computeCycles cmdId bufferRegion
  | advance =>
    rw [show submissionOf p .advance = [] from rfl, List.append_nil]
    have htotals := advanceSlots_induction (P := fun q => q.sequentialTotal = p.sequentialTotal ∧
      q.totalLoadCycles = p.totalLoadCycles) (p := tickDma p) (fun q i _ _ hq =>
        ⟨(advanceSlot_totals q i).1.trans hq.1, (advanceSlot_totals q i).2.trans hq.2⟩) ⟨rfl, rfl⟩ p.depth
      (Nat.le_refl _)
    exact ⟨h.slots.tuPipelineAdvance, htotals.2.1.trans h.sequential, htotals.2.2.trans h.load⟩
  | sync =>
    rw [show submissionOf p .sync = [] from rfl, List.append_nil]
    have htotals := (totals_keptWaiting _ _).syncLoop tuPipelineMaxWait (p := p) ⟨rfl, rfl⟩
    exact ⟨SlotBooks.keptWaiting.syncLoop _ h.slots, htotals.1.trans h.sequential, htotals.2.trans h.load⟩
  | elapse cycles =>
    rw [show submissionOf p (.elapse cycles) = [] from rfl, List.append_nil]
    exact ⟨h.slots.of_same (.refl _) rfl rfl rfl, h.sequential, h.load⟩
  | dma op =>
    rw [show submissionOf p (.dma op) = [] from rfl, List.append_nil]
    exact ⟨h.slots.of_same (.step p.dma op) rfl rfl rfl, h.sequential, h.load⟩

theorem StatsBooks.exec {tiles : List TileSubmission} {p : TuPipelineController} (h : StatsBooks tiles p)
    (ops : List TuPipelineOp) :
    StatsBooks (tiles ++ submissions p ops) (Run.exec TuPipelineController.step p ops) := by
  induction ops generalizing tiles p with
  | nil => rwa [show submissions p [] = [] from rfl, List.append_nil]
  | cons op ops ih =>
    have hrest := ih (h.step op)
    rwa [List.append_assoc] at hrest

theorem StatsBooks.init (dma : TuDmaEngine) (buffers : Nat → TuSramBuffers) (depth : UInt32)
    (config : TuPipelineConfig) : StatsBooks [] (tuPipelineInit dma buffers depth config) where
  slots := by
    have hdue : ∀ k, (tuPipelineInit dma buffers depth config).amountsDue k = 0 := fun k =>
      sum_eq_zero fun i _ => amountDue_of_free rfl k
    refine ⟨fun i => ⟨fun d hd => absurd hd ?_, fun d hd => absurd hd ?_⟩, fun k => ⟨0, 0, ?_, ?_, fun _ => rfl⟩⟩
    · exact Option.not_mem_none d
    · exact Option.not_mem_none d
    · cases k <;> rfl
    · rw [hdue]
      rfl
  sequential := rfl
  load := rfl

/-! ### What the statistics say -/

/-- When the pipeline is idle, nothing is due. -/
theorem amountsDue_idle {p : TuPipelineController} (hledger : TileLedger p) (hidle : p.activeCount = 0)
    (k : PipelineCounter) : p.amountsDue k = 0 := by
  have hnone : busySlots p = ∅ := by
    rw [← card_eq_zero, ← hledger.active, hidle]
    rfl
  refine sum_eq_zero fun i hi => amountDue_of_free ?_ k
  by_contra hbusy
  have hmem : i ∈ busySlots p := mem_busySlots.2 ⟨mem_range.1 hi, by simpa using hbusy⟩
  rw [hnone] at hmem
  exact notMem_empty i hmem

theorem sumKind_cons (kind : TileSubmission → Bool) (amount : TileSubmission → Nat) (t : TileSubmission)
    (tiles : List TileSubmission) :
    sumKind kind amount (t :: tiles) = (if kind t then amount t else 0) + sumKind kind amount tiles := by
  unfold sumKind
  rw [List.filter_cons]
  split
  · rw [List.map_cons, List.sum_cons]
  · rw [Nat.zero_add]

theorem sumKind_append (kind : TileSubmission → Bool) (amount : TileSubmission → Nat)
    (tiles tiles' : List TileSubmission) :
    sumKind kind amount (tiles ++ tiles') = sumKind kind amount tiles + sumKind kind amount tiles' := by
  simp [sumKind]

theorem sumKind_eq_zero_iff (kind : TileSubmission → Bool) (amount : TileSubmission → Nat)
    (tiles : List TileSubmission) :
    sumKind kind amount tiles = 0 ↔ ∀ t ∈ tiles, kind t = true → amount t = 0 := by
  induction tiles with
  | nil => simp [sumKind]
  | cons t tiles ih =>
    rw [sumKind_cons, Nat.add_eq_zero_iff, ih, List.forall_mem_cons]
    simp

/-- The accepted and the refused submissions, and what the counters miss of the accepted ones. -/
theorem sumKind_split (tiles : List TileSubmission) :
    (tiles.map (·.cycles)).sum = sumKind (·.accepted) (·.cycles) tiles + sumKind (!·.accepted) (·.cycles) tiles ∧
      bookedCycles tiles .compute + sumKind (fun t => t.accepted && t.inPlace) (·.computeCycles) tiles =
        sumKind (·.accepted) (·.computeCycles) tiles ∧
      sumKind (·.accepted) (·.computeCycles) tiles + bookedCycles tiles .overlappedLoad + bookedCycles tiles .store ≤
        sumKind (·.accepted) (·.cycles) tiles := by
  induction tiles with
  | nil => exact ⟨rfl, rfl, Nat.le_refl _⟩
  | cons t tiles ih =>
    obtain ⟨htotal, hcompute, hcycles⟩ := ih
    have hdefault : ∀ descs, chainCycles descs 0 ≤ chainCycles descs 1 := by
      intro descs
      cases descs with
      | nil => exact Nat.zero_le _
      | cons desc descs => exact Nat.le_refl _
    have hload := hdefault t.load
    have hstore := hdefault t.store
    have hcost : t.cycles = chainCycles t.load 1 + t.computeCycles + chainCycles t.store 1 := rfl
    have hbooked : ∀ k, bookedCycles (t :: tiles) k = t.booked k + bookedCycles tiles k := fun _ => rfl
    simp only [List.map_cons, List.sum_cons, sumKind_cons, hbooked, TileSubmission.booked]
    cases t.accepted <;> cases t.inPlace <;>
      simp only [Bool.not_true, Bool.not_false, Bool.and_true, Bool.and_false, Bool.false_eq_true, if_true, if_false]
    all_goals omega

theorem submissions_append (p : TuPipelineController) (ops ops' : List TuPipelineOp) :
    submissions p (ops ++ ops') =
      submissions p ops ++ submissions (Run.exec TuPipelineController.step p ops) ops' := by
  induction ops generalizing p with
  | nil => rfl
  | cons op ops ih => exact (congrArg _ (ih (p.step op))).trans (List.append_assoc ..).symm

section

variable {tiles : List TileSubmission} {p : TuPipelineController}

/-- Where no sum wraps, the overlapped cycles do not exceed the totals. -/
theorem StatsBooks.overlapWithin (h : StatsBooks tiles p)
    (hfits : sumKind (·.accepted) (·.cycles) tiles < 2 ^ 64) : OverlapWithin p := by
  obtain ⟨-, -, hcycles⟩ := sumKind_split tiles
  obtain ⟨loads, missedLoads, hloads, hloadSum, -⟩ := h.slots.balance .overlappedLoad
  obtain ⟨stores, missed, hstores, hstoreSum, hexact⟩ := h.slots.balance .store
  obtain ⟨hidden, missedStores, hhidden, hhiddenSum, -⟩ := h.slots.balance .overlappedStore
  have hmissed : missed = 0 := hexact rfl
  have hbooked : bookedCycles tiles .overlappedStore = bookedCycles tiles .store := rfl
  -- a store that is still due to the total is due to the overlap too
  have hdue : p.amountsDue .store ≤ p.amountsDue .overlappedStore := by
    refine sum_le_sum fun i _ => ?_
    unfold amountDue tileCycles
    cases (p.slots i).stage <;> simp [PipelineCounter.awaits]
  have hload : p.totalLoadCycles = bookedCycles tiles .overlappedLoad := by
    rw [h.load]
    exact u64_of_lt (by omega)
  have hstore : p.totalStoreCycles = stores := by
    rw [show p.totalStoreCycles = u64 stores from hstores]
    exact u64_of_lt (by omega)
  constructor
  · show p.overlappedLoadCycles ≤ p.totalLoadCycles
    rw [show p.overlappedLoadCycles = u64 loads from hloads, hload]
    exact (u64_le loads).trans (by omega)
  · show p.overlappedStoreCycles ≤ p.totalStoreCycles
    rw [show p.overlappedStoreCycles = u64 hidden from hhidden, hstore]
    exact (u64_le hidden).trans (by omega)

/-- The totals of an idle pipeline. -/
theorem StatsBooks.idle (h : StatsBooks tiles p) (hledger : TileLedger p) (hidle : p.activeCount = 0) :
    p.totalComputeCycles = u64 (bookedCycles tiles .compute) ∧
      p.totalStoreCycles = u64 (bookedCycles tiles .store) := by
  have htotal : ∀ k : PipelineCounter, k.exact = true → p.counter k = u64 (bookedCycles tiles k) := by
    intro k hk
    obtain ⟨counted, missed, hcounter, hsum, hexact⟩ := h.slots.balance k
    rw [hexact hk, amountsDue_idle hledger hidle] at hsum
    rw [hcounter, ← hsum]
    rfl
  exact ⟨htotal .compute rfl, htotal .store rfl⟩

/-- Subtraction without a borrow. -/
theorem sub64_of_le {a b : Nat} (hle : b ≤ a) (ha : a < 2 ^ 64) : sub64 a b = a - b := by
  unfold sub64 u64
  omega

/-- The statistics of an idle pipeline are right exactly where no sum wraps and no amount goes astray. -/
theorem StatsBooks.right_iff (h : StatsBooks tiles p) (hledger : TileLedger p) (hidle : p.activeCount = 0) :
    StatsRight (tuPipelineGetStats p) tiles ↔
      sumKind (·.accepted) (·.cycles) tiles < 2 ^ 64 ∧
        sumKind (fun t => t.accepted && t.inPlace) (·.computeCycles) tiles = 0 ∧
        u64 (sumKind (!·.accepted) (·.cycles) tiles) = 0 := by
  obtain ⟨htotal, hcompute, hcycles⟩ := sumKind_split tiles
  obtain ⟨hcomputed, hstored⟩ := h.idle hledger hidle
  have hsequential := h.sequential
  rw [htotal] at hsequential
  generalize hacc : sumKind (·.accepted) (·.cycles) tiles = accepted at *
  generalize hrej : sumKind (!·.accepted) (·.cycles) tiles = refused at *
  generalize hplace : sumKind (fun t => t.accepted && t.inPlace) (·.computeCycles) tiles = inPlace at *
  constructor
  · intro hright
    have hc : u64 (bookedCycles tiles .compute) = sumKind (·.accepted) (·.computeCycles) tiles :=
      hcomputed.symm.trans hright.compute
    have hs : u64 (accepted + refused) = accepted := hsequential.symm.trans (hright.sequential.trans hacc)
    unfold u64 at hc hs ⊢
    omega
  · rintro ⟨hfits, hnone, hrefused⟩
    have hwithin : OverlapWithin p := h.overlapWithin (hacc.symm ▸ hfits)
    have hload : p.totalLoadCycles = bookedCycles tiles .overlappedLoad := by
      rw [h.load]
      exact u64_of_lt (by omega)
    have hstore : p.totalStoreCycles = bookedCycles tiles .store := by
      rw [hstored]
      exact u64_of_lt (by omega)
    have hc : p.totalComputeCycles = sumKind (·.accepted) (·.computeCycles) tiles := by
      rw [hcomputed, u64_of_lt (by omega)]
      omega
    have hs : p.sequentialTotal = accepted := by
      rw [hsequential]
      unfold u64 at hrefused ⊢
      omega
    refine ⟨hc, hs.trans hacc.symm, ?_⟩
    obtain ⟨hloads, hstores⟩ := hwithin
    have hloads : p.overlappedLoadCycles ≤ p.totalLoadCycles := hloads
    have hstores : p.overlappedStoreCycles ≤ p.totalStoreCycles := hstores
    show u64 (p.totalComputeCycles + sub64 p.totalLoadCycles p.overlappedLoadCycles +
      sub64 p.totalStoreCycles p.overlappedStoreCycles) ≤ p.sequentialTotal
    rw [sub64_of_le hloads (by omega), sub64_of_le hstores (by omega), hs]
    exact (u64_le _).trans (by omega)

end

/-- In a run that ends idle the compute total is the one of the accepted tiles, the sequential total counts the accepted
tiles only and bounds the pipelined total, and the overlapped cycles stay within the totals all along, exactly if the
cycles of the accepted tiles fit in 64 bits, every tile that starts in the compute stage has nothing to compute, and the
refused submissions add nothing modulo `2 ^ 64`. -/
theorem run_statistics_iff (dma : TuDmaEngine) (buffers : Nat → TuSramBuffers) (depth : UInt32)
    (config : TuPipelineConfig) (ops : List TuPipelineOp)
    (hidle : (Run.exec TuPipelineController.step (tuPipelineInit dma buffers depth config) ops).activeCount = 0) :
    let init := tuPipelineInit dma buffers depth config
    let p := Run.exec TuPipelineController.step init ops
    let tiles := submissions init ops
    (StatsRight (tuPipelineGetStats p) tiles ∧
        ∀ past rest, ops = past ++ rest → OverlapWithin (Run.exec TuPipelineController.step init past)) ↔
      sumKind (·.accepted) (·.cycles) tiles < 2 ^ 64 ∧
        (∀ t ∈ tiles, t.accepted = true → t.inPlace = true → t.computeCycles = 0) ∧
        u64 (sumKind (!·.accepted) (·.cycles) tiles) = 0 := by
  intro init p tiles
  have hbooks : ∀ past, StatsBooks (submissions init past) (Run.exec TuPipelineController.step init past) :=
    fun past => (StatsBooks.init dma buffers depth config).exec past
  have hledger : TileLedger p := ((TileLedger.init dma buffers depth config).exec ops).1
  have hinPlace : sumKind (fun t => t.accepted && t.inPlace) (·.computeCycles) tiles = 0 ↔
      ∀ t ∈ tiles, t.accepted = true → t.inPlace = true → t.computeCycles = 0 := by
    rw [sumKind_eq_zero_iff]
    simp only [Bool.and_eq_true, and_imp]
  rw [(hbooks ops).right_iff hledger hidle, hinPlace]
  refine ⟨And.left, fun h => ⟨h, fun past rest hops => (hbooks past).overlapWithin ?_⟩⟩
  have hfits : sumKind (·.accepted) (·.cycles) (submissions init ops) < 2 ^ 64 := h.1
  rw [hops, submissions_append, sumKind_append] at hfits
  exact (Nat.le_add_right _ _).trans_lt hfits

/-- A tile with a load and one without, both computed and stored. -/
theorem run_statistics_iff_pair :
    let cfg : TuDmaConfig :=
      { asyncMode := false, numChannels := 1, maxDepth := 4, numChannels_pos := by decide,
        numChannels_le := by decide, maxDepth_pos := by decide }
    let load := tuDmaDescCreateLinear 1 0 .hostToTu (some 0) 0 (some 0) 4 1
    let init := tuPipelineInit (.fresh cfg (Memory.zero 16)) (fun _ => ⟨0, 16⟩) 2 {}
    let ops : List TuPipelineOp :=
      [.submit [load] [] 1 0 none, .submit [] [] 0 1 none, .advance, .elapse 1, .advance, .advance]
    StatsRight (tuPipelineGetStats (Run.exec TuPipelineController.step init ops)) (submissions init ops) := by
  intro cfg load init ops
  refine ((run_statistics_iff (.fresh cfg (Memory.zero 16)) (fun _ => ⟨0, 16⟩) 2 {} ops (by decide +kernel)).2
    ⟨?_, ?_, ?_⟩).1
  all_goals decide +kernel

/-- The computation of a first tile whose data is in place is not counted. -/
theorem not_statistics_in_place :
    let cfg : TuDmaConfig :=
      { asyncMode := false, numChannels := 1, maxDepth := 4, numChannels_pos := by decide,
        numChannels_le := by decide, maxDepth_pos := by decide }
    let init := tuPipelineInit (.fresh cfg (Memory.zero 16)) (fun _ => ⟨0, 16⟩) 2 {}
    let ops : List TuPipelineOp := [.submit [] [] 5 0 none, .elapse 5, .advance, .advance]
    let p := Run.exec TuPipelineController.step init ops
    p.activeCount = 0 ∧ (submissions init ops).map (·.accepted) = [true] ∧
      (tuPipelineGetStats p).totalComputeCycles = 0 ∧
      sumKind (·.accepted) (·.computeCycles) (submissions init ops) = 5 ∧
      ¬ StatsRight (tuPipelineGetStats p) (submissions init ops) := by
  intro cfg init ops p
  have htotal : (tuPipelineGetStats p).totalComputeCycles = 0 := by decide +kernel
  have hsum : sumKind (·.accepted) (·.computeCycles) (submissions init ops) = 5 := by decide +kernel
  refine ⟨by decide +kernel, by decide +kernel, htotal, hsum, fun h => ?_⟩
  have hcompute := h.compute
  rw [htotal, hsum] at hcompute
  cases hcompute

end Tusim
