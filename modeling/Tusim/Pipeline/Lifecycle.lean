import Mathlib.Data.Finset.Card
import Mathlib.Data.Finset.Range
import Mathlib.Logic.ExistsUnique
import Tusim.Pipeline.Controller

/-!
# The life of a tile

The turn of a slot either leaves everything alone or moves its tile one stage on (`advanceSlot_cases`), and an advance
gives every slot one turn.  So every accepted tile is in exactly one slot until it retires, and the counters of the
controller count the tiles in the slots and the retired ones (`run_lifecycle`).
-/

namespace Tusim

open TuPipelineController

/-- The stage holds a tile. -/
def TuPipelineStage.isBusy : TuPipelineStage → Bool
  | .dmaPreload | .compute | .dmaStore => true
  | .idle | .done => false

/-- The stage after the given one. -/
def TuPipelineStage.next : TuPipelineStage → TuPipelineStage
  | .dmaPreload => .compute
  | .compute => .dmaStore
  | .dmaStore => .done
  | stage => stage

/-- The slots that hold a tile. -/
def busySlots (p : TuPipelineController) : Finset Nat := (Finset.range p.depth).filter fun i => (p.slots i).stage.isBusy

theorem mem_busySlots {p : TuPipelineController} {i : Nat} :
    i ∈ busySlots p ↔ i < p.depth ∧ (p.slots i).stage.isBusy = true := by
  simp [busySlots]

/-! ### One turn -/

theorem advanceSlot_cases (p : TuPipelineController) (i : Nat) :
    (advanceSlot p i).1 = p ∨
      ((p.slots i).stage = .dmaPreload ∧ p.descDone (p.slots i).loadDesc = true ∧ (advanceSlot p i).1 = enterCompute p i) ∨
      ((p.slots i).stage = .compute ∧ (p.slots i).cycleExpected ≤ p.currentCycle ∧
        (advanceSlot p i).1 = enterStore p i) ∨
      ((p.slots i).stage = .dmaStore ∧ p.descDone (p.slots i).storeDesc = true ∧ (advanceSlot p i).1 = retireTile p i) := by
  unfold advanceSlot
  dsimp only
  split
  · exact Or.inl rfl
  · exact Or.inl rfl
  · rename_i hstage
    split
    · rename_i hdone
      exact Or.inr (Or.inl ⟨hstage, hdone, rfl⟩)
    · exact Or.inl rfl
  · rename_i hstage
    split
    · rename_i hcycle
      exact Or.inr (Or.inr (Or.inl ⟨hstage, hcycle, rfl⟩))
    · exact Or.inl rfl
  · rename_i hstage
    split
    · rename_i hdone
      exact Or.inr (Or.inr (Or.inr ⟨hstage, hdone, rfl⟩))
    · exact Or.inl rfl

/-- The tile moved to the stage `stage`. -/
structure SlotMoved (p q : TuPipelineController) (i : Nat) (stage : TuPipelineStage) : Prop where
  depth : q.depth = p.depth
  accepted : q.accepted = p.accepted
  stage_eq : (q.slots i).stage = stage
  serial : (q.slots i).serial = (p.slots i).serial
  others : ∀ j ≠ i, q.slots j = p.slots j

/-- The counters of the tiles are the same. -/
structure SameCounters (p q : TuPipelineController) : Prop where
  activeCount : q.activeCount = p.activeCount
  totalTilesProcessed : q.totalTilesProcessed = p.totalTilesProcessed
  retired : q.retired = p.retired

/-- Only the memory tells whether the region was swapped. -/
theorem enterCompute_eq (p : TuPipelineController) (i : Nat) :
    ∃ mem swapped, enterCompute p i = { p with
      dma := { p.dma with mem := mem }
      slots := Function.update p.slots i { p.slots i with
        swapped := swapped, stage := .compute, cycleEntered := p.currentCycle
        cycleExpected := Word.u64 (p.currentCycle + (p.slots i).computeCycles) }
      totalComputeCycles := Word.u64 (p.totalComputeCycles + (p.slots i).computeCycles)
      overlappedLoadCycles :=
        if p.activeCount ≥ 2 ∧ p.config.enableLoadOverlap = true then
          Word.u64 (p.overlappedLoadCycles + p.busCycles (p.slots i).loadDesc 0)
        else p.overlappedLoadCycles } := by
  cases hregion : (p.slots i).bufferRegion with
  | none =>
    refine ⟨p.dma.mem, (p.slots i).swapped || p.doubleBuffered none, ?_⟩
    simp [enterCompute, setSlot, busCycles, hregion]
  | some r =>
    cases hswaps : p.doubleBuffered (some r) with
    | false =>
      refine ⟨p.dma.mem, (p.slots i).swapped || false, ?_⟩
      simp [enterCompute, setSlot, busCycles, hregion, hswaps]
    | true =>
      refine ⟨(p.swapBuffers r).dma.mem, (p.slots i).swapped || true, ?_⟩
      simp [enterCompute, setSlot, swapBuffers, busCycles, hregion, hswaps]

theorem enterCompute_moved (p : TuPipelineController) (i : Nat) :
    SlotMoved p (enterCompute p i) i .compute ∧ SameCounters p (enterCompute p i) := by
  obtain ⟨mem, swapped, heq⟩ := enterCompute_eq p i
  rw [heq]
  refine ⟨⟨rfl, rfl, ?_, ?_, fun j hj => ?_⟩, ⟨rfl, rfl, rfl⟩⟩
  all_goals simp [*]

theorem enterStore_moved (p : TuPipelineController) (i : Nat) :
    SlotMoved p (enterStore p i) i .dmaStore ∧ SameCounters p (enterStore p i) := by
  refine ⟨⟨rfl, rfl, ?_, ?_, fun j hj => ?_⟩, ⟨rfl, rfl, rfl⟩⟩
  all_goals simp [enterStore, setSlot, *]

theorem retireTile_moved (p : TuPipelineController) (i : Nat) :
    SlotMoved p (retireTile p i) i .done ∧ (retireTile p i).activeCount = p.activeCount - 1 ∧
      (retireTile p i).totalTilesProcessed = p.totalTilesProcessed + 1 ∧
      (retireTile p i).retired = p.retired ++ [(p.slots i).serial] := by
  refine ⟨⟨rfl, rfl, ?_, ?_, fun j hj => ?_⟩, rfl, rfl, rfl⟩
  all_goals simp [retireTile, setSlot, *]

/-- The tile stays where it is, or moves on by one stage. -/
def AtMostOneStage (tile tile' : TuPipelineTile) : Prop :=
  tile'.serial = tile.serial ∧
    (tile'.stage = tile.stage ∨ tile.stage.isBusy = true ∧ tile'.stage = tile.stage.next)

theorem SlotMoved.atMostOneStage {p q : TuPipelineController} {i : Nat} {stage stage' : TuPipelineStage}
    (h : SlotMoved p q i stage') (hstage : (p.slots i).stage = stage) (hbusy : stage.isBusy = true)
    (hnext : stage' = stage.next) : AtMostOneStage (p.slots i) (q.slots i) :=
  ⟨h.serial, Or.inr ⟨by rw [hstage, hbusy], by rw [h.stage_eq, hnext, hstage]⟩⟩

theorem advanceSlot_stage (p : TuPipelineController) (i : Nat) :
    AtMostOneStage (p.slots i) ((advanceSlot p i).1.slots i) ∧ ∀ j ≠ i, (advanceSlot p i).1.slots j = p.slots j := by
  rcases advanceSlot_cases p i with heq | ⟨hstage, _, heq⟩ | ⟨hstage, _, heq⟩ | ⟨hstage, _, heq⟩
  · rw [heq]
    exact ⟨⟨rfl, Or.inl rfl⟩, fun _ _ => rfl⟩
  · rw [heq]
    exact ⟨(enterCompute_moved p i).1.atMostOneStage hstage rfl rfl, (enterCompute_moved p i).1.others⟩
  · rw [heq]
    exact ⟨(enterStore_moved p i).1.atMostOneStage hstage rfl rfl, (enterStore_moved p i).1.others⟩
  · rw [heq]
    exact ⟨(retireTile_moved p i).1.atMostOneStage hstage rfl rfl, (retireTile_moved p i).1.others⟩

theorem advanceSlots_succ (p : TuPipelineController) (n : Nat) :
    (advanceSlots p (n + 1)).1 = (advanceSlot (advanceSlots p n).1 n).1 := rfl

/-- The turns of the first slots move each of them by at most one stage, and leave the others alone. -/
theorem advanceSlots_stage (p : TuPipelineController) (n : Nat) :
    (∀ i ≥ n, (advanceSlots p n).1.slots i = p.slots i) ∧
      ∀ i < n, AtMostOneStage (p.slots i) ((advanceSlots p n).1.slots i) := by
  induction n with
  | zero => exact ⟨fun _ _ => rfl, fun i hi => absurd hi (Nat.not_lt_zero i)⟩
  | succ n ih =>
    obtain ⟨hrest, hdone⟩ := ih
    obtain ⟨hself, hothers⟩ := advanceSlot_stage (advanceSlots p n).1 n
    rw [advanceSlots_succ]
    refine ⟨fun i hi => (hothers i (by omega)).trans (hrest i (by omega)), fun i hi => ?_⟩
    by_cases hin : i = n
    · subst hin
      rwa [hrest i (Nat.le_refl i)] at hself
    · rw [hothers i hin]
      exact hdone i (by omega)

/-- An advance moves a tile by at most one stage. -/
theorem tuPipelineAdvance_stage (p : TuPipelineController) (i : Nat) :
    AtMostOneStage (p.slots i) ((tuPipelineAdvance p).1.slots i) := by
  obtain ⟨hrest, hdone⟩ := advanceSlots_stage (tickDma p) p.depth
  by_cases hi : i < p.depth
  · exact hdone i hi
  · have hself : (tuPipelineAdvance p).1.slots i = p.slots i := hrest i (Nat.le_of_not_lt hi)
    rw [hself]
    exact ⟨rfl, Or.inl rfl⟩

/-! ### The ledger of the tiles -/

/-- Every accepted tile is retired or in exactly one slot, and the counters count them. -/
structure TileLedger (p : TuPipelineController) : Prop where
  active : p.activeCount.toNat = (busySlots p).card
  processed : p.totalTilesProcessed = UInt32.ofNat p.retired.length
  total : p.retired.length + (busySlots p).card = p.accepted
  nodup : p.retired.Nodup
  retired_lt : ∀ s ∈ p.retired, s < p.accepted
  held : ∀ i ∈ busySlots p, (p.slots i).serial < p.accepted ∧ (p.slots i).serial ∉ p.retired
  inj : ∀ i ∈ busySlots p, ∀ j ∈ busySlots p, (p.slots i).serial = (p.slots j).serial → i = j
  found : ∀ s < p.accepted, s ∈ p.retired ∨ ∃ i ∈ busySlots p, (p.slots i).serial = s

theorem TileLedger.init (dma : TuDmaEngine) (buffers : Nat → TuSramBuffers) (depth : UInt32)
    (config : TuPipelineConfig) : TileLedger (tuPipelineInit dma buffers depth config) := by
  have hempty : busySlots (tuPipelineInit dma buffers depth config) = ∅ := by
    ext i
    simp [mem_busySlots, tuPipelineInit, TuPipelineStage.isBusy]
  refine ⟨?_, rfl, ?_, List.nodup_nil, ?_, ?_, ?_, ?_⟩
  · rw [hempty]
    rfl
  · rw [hempty]
    rfl
  · exact fun s hs => absurd hs List.not_mem_nil
  · simp [hempty]
  · simp [hempty]
  · exact fun s hs => absurd hs (Nat.not_lt_zero s)

theorem TileLedger.of_same {p q : TuPipelineController} (h : TileLedger p) (hbusy : busySlots q = busySlots p)
    (hserial : ∀ i, (q.slots i).serial = (p.slots i).serial) (haccepted : q.accepted = p.accepted)
    (hcounters : SameCounters p q) : TileLedger q where
  active := by rw [hcounters.activeCount, hbusy, h.active]
  processed := by rw [hcounters.totalTilesProcessed, hcounters.retired, h.processed]
  total := by rw [hcounters.retired, hbusy, haccepted, h.total]
  nodup := by
    rw [hcounters.retired]
    exact h.nodup
  retired_lt := by
    rw [hcounters.retired, haccepted]
    exact h.retired_lt
  held := by
    rw [hbusy, hcounters.retired, haccepted]
    intro i hi
    rw [hserial]
    exact h.held i hi
  inj := by
    rw [hbusy]
    intro i hi j hj heq
    rw [hserial, hserial] at heq
    exact h.inj i hi j hj heq
  found := by
    rw [hbusy, hcounters.retired, haccepted]
    intro s hs
    refine (h.found s hs).imp id ?_
    rintro ⟨i, hi, heq⟩
    exact ⟨i, hi, (hserial i).trans heq⟩

theorem SlotMoved.serial_all {p q : TuPipelineController} {i : Nat} {stage : TuPipelineStage} (h : SlotMoved p q i stage)
    (j : Nat) : (q.slots j).serial = (p.slots j).serial := by
  by_cases hj : j = i
  · rw [hj, h.serial]
  · rw [h.others j hj]

/-- A move between two stages that hold a tile. -/
theorem SlotMoved.busySlots_eq {p q : TuPipelineController} {i : Nat} {stage : TuPipelineStage} (h : SlotMoved p q i stage)
    (hbusy : (p.slots i).stage.isBusy = stage.isBusy) : busySlots q = busySlots p := by
  ext j
  rw [mem_busySlots, mem_busySlots, h.depth]
  by_cases hj : j = i
  · rw [hj, h.stage_eq, hbusy]
  · rw [h.others j hj]

theorem TileLedger.moved {p q : TuPipelineController} (h : TileLedger p) {i : Nat} {stage : TuPipelineStage}
    (hmoved : SlotMoved p q i stage) (hcounters : SameCounters p q) (hbusy : (p.slots i).stage.isBusy = stage.isBusy) :
    TileLedger q :=
  h.of_same (hmoved.busySlots_eq hbusy) hmoved.serial_all hmoved.accepted hcounters

/-- The tile of a slot retires. -/
theorem TileLedger.retireTile {p : TuPipelineController} (h : TileLedger p) {i : Nat} (hi : i ∈ busySlots p) :
    TileLedger (retireTile p i) := by
  obtain ⟨hmoved, hactive, hprocessed, hretired⟩ := retireTile_moved p i
  have hbusy : busySlots (Tusim.retireTile p i) = (busySlots p).erase i := by
    ext j
    rw [Finset.mem_erase, mem_busySlots, mem_busySlots, hmoved.depth]
    by_cases hj : j = i
    · rw [hj, hmoved.stage_eq]
      simp [TuPipelineStage.isBusy]
    · rw [hmoved.others j hj]
      simp [hj]
  have hcard := Finset.card_erase_of_mem hi
  have hpos := Finset.card_pos.2 ⟨i, hi⟩
  have htotal := h.total
  obtain ⟨hlt, hnot⟩ := h.held i hi
  refine ⟨?_, ?_, ?_, ?_, ?_, ?_, ?_, ?_⟩
  · have hle : (1 : UInt32) ≤ p.activeCount := by
      rw [UInt32.le_iff_toNat_le, h.active]
      exact hpos
    rw [hactive, hbusy, hcard, UInt32.toNat_sub_of_le _ _ hle, h.active]
    rfl
  · rw [hprocessed, hretired, h.processed, List.length_append]
    exact (UInt32.ofNat_add _ _).symm
  · rw [hretired, hbusy, hcard, hmoved.accepted, List.length_append, List.length_singleton]
    omega
  · rw [hretired, List.nodup_append]
    refine ⟨h.nodup, List.nodup_singleton _, fun a ha b hb => ?_⟩
    rw [List.mem_singleton.1 hb]
    rintro rfl
    exact hnot ha
  · rw [hretired, hmoved.accepted]
    intro s hs
    rcases List.mem_append.1 hs with hs | hs
    · exact h.retired_lt s hs
    · rw [List.mem_singleton.1 hs]
      exact hlt
  · rw [hbusy, hretired, hmoved.accepted]
    intro j hj
    obtain ⟨hji, hj⟩ := Finset.mem_erase.1 hj
    rw [hmoved.serial_all]
    refine ⟨(h.held j hj).1, fun hmem => ?_⟩
    rcases List.mem_append.1 hmem with hmem | hmem
    · exact (h.held j hj).2 hmem
    · exact hji (h.inj j hj i hi (List.mem_singleton.1 hmem))
  · rw [hbusy]
    intro j hj k hk heq
    rw [hmoved.serial_all, hmoved.serial_all] at heq
    exact h.inj j (Finset.mem_of_mem_erase hj) k (Finset.mem_of_mem_erase hk) heq
  · rw [hbusy, hretired, hmoved.accepted]
    intro s hs
    rcases h.found s hs with hmem | ⟨j, hj, heq⟩
    · exact Or.inl (List.mem_append_left _ hmem)
    · by_cases hji : j = i
      · rw [hji] at heq
        exact Or.inl (List.mem_append_right _ (List.mem_singleton.2 heq.symm))
      · exact Or.inr ⟨j, Finset.mem_erase.2 ⟨hji, hj⟩, (hmoved.serial_all j).trans heq⟩

/-- A redirection changes the heap only. -/
theorem redirectLoad_eq (p : TuPipelineController) (loadDesc bufferRegion : Option Nat) :
    redirectLoad p loadDesc bufferRegion =
      { p with dma := { p.dma with heap := (redirectLoad p loadDesc bufferRegion).dma.heap } } := by
  unfold redirectLoad
  split
  · split <;> rfl
  · rfl

/-- The engine that gets the load of a new tile. -/
def redirectedDma (p : TuPipelineController) (loadDesc bufferRegion : Option Nat) : TuDmaEngine :=
  if isSequential p then p.dma else (redirectLoad p loadDesc bufferRegion).dma

/-- The new tile starts in the compute stage: its data is in place. -/
def startsInPlace (p : TuPipelineController) (loadDesc : Option Nat) : Bool :=
  !isSequential p && p.totalTilesProcessed == 0 && loadDesc.isNone

theorem placeTile_eq (p : TuPipelineController) (i : Nat) (loadDesc storeDesc : Option Nat) (computeCycles : Nat)
    (cmdId : UInt32) (bufferRegion : Option Nat) (loadCycles : Nat) :
    placeTile p i loadDesc storeDesc computeCycles cmdId bufferRegion loadCycles = { p with
      dma := (tuDmaSubmitDesc (redirectedDma p loadDesc bufferRegion) loadDesc).1
      slots := Function.update p.slots i
        { tileId := p.nextTileId
          stage := if startsInPlace p loadDesc then .compute else .dmaPreload
          cycleEntered := p.currentCycle
          cycleExpected := Word.u64 (p.currentCycle + if startsInPlace p loadDesc then computeCycles else loadCycles)
          loadDesc := loadDesc
          loadSignalId := (tuDmaSubmitDesc (redirectedDma p loadDesc bufferRegion) loadDesc).2
          storeDesc := storeDesc
          computeCycles := computeCycles
          cmdId := cmdId
          bufferRegion := bufferRegion
          swapped := startsInPlace p loadDesc
          serial := p.accepted }
      nextTileId := p.nextTileId + 1
      totalLoadCycles := if loadDesc.isSome then Word.u64 (p.totalLoadCycles + loadCycles) else p.totalLoadCycles
      activeCount := p.activeCount + 1
      accepted := p.accepted + 1 } := by
  unfold placeTile redirectedDma startsInPlace
  dsimp only
  cases hseq : isSequential p with
  | true => rfl
  | false =>
    rw [if_neg Bool.false_ne_true, redirectLoad_eq]
    rfl

/-- A new tile takes a free slot. -/
theorem TileLedger.placeTile {p : TuPipelineController} (h : TileLedger p) {i : Nat} (hi : i < p.depth)
    (hfree : (p.slots i).stage.isBusy = false) (loadDesc storeDesc : Option Nat) (computeCycles : Nat) (cmdId : UInt32)
    (bufferRegion : Option Nat) (loadCycles : Nat) :
    TileLedger (placeTile p i loadDesc storeDesc computeCycles cmdId bufferRegion loadCycles) := by
  generalize hq : Tusim.placeTile p i loadDesc storeDesc computeCycles cmdId bufferRegion loadCycles = q
  have hframe : (∀ j ≠ i, q.slots j = p.slots j) ∧ (q.slots i).serial = p.accepted ∧
      (q.slots i).stage.isBusy = true ∧ q.depth = p.depth ∧ q.accepted = p.accepted + 1 ∧
      q.activeCount = p.activeCount + 1 ∧ q.totalTilesProcessed = p.totalTilesProcessed ∧ q.retired = p.retired := by
    rw [← hq, placeTile_eq]
    refine ⟨fun j hj => Function.update_of_ne hj .., ?_, ?_, rfl, rfl, rfl, rfl, rfl⟩
    · simp only [Function.update_self]
    · simp only [Function.update_self]
      cases startsInPlace p loadDesc <;> rfl
  obtain ⟨hothers, hserial, hstage, hdepth, haccepted, hactive, hprocessed, hretired⟩ := hframe
  have hni : i ∉ busySlots p := by
    rw [mem_busySlots, hfree]
    simp
  have hbusy : busySlots q = insert i (busySlots p) := by
    ext j
    rw [Finset.mem_insert, mem_busySlots, mem_busySlots, hdepth]
    by_cases hj : j = i
    · rw [hj, hstage]
      simp [hi]
    · rw [hothers j hj]
      simp [hj]
  have hcard := Finset.card_insert_of_notMem hni
  have hle : (busySlots q).card ≤ 8 := by
    have hsub : busySlots q ⊆ Finset.range q.depth := Finset.filter_subset _ _
    have hcardle := Finset.card_le_card hsub
    rw [Finset.card_range] at hcardle
    exact hcardle.trans q.depth_le
  have hold : ∀ j ∈ busySlots p, (q.slots j).serial = (p.slots j).serial := by
    intro j hj
    rw [hothers j (fun heq => hni (heq ▸ hj))]
  refine ⟨?_, ?_, ?_, ?_, ?_, ?_, ?_, ?_⟩
  · have hactiveCount := h.active
    rw [hactive, hbusy, hcard, UInt32.toNat_add, hactiveCount]
    rw [hbusy, hcard] at hle
    exact Nat.mod_eq_of_lt (by simp; omega)
  · rw [hprocessed, hretired, h.processed]
  · have htotal := h.total
    rw [hretired, hbusy, hcard, haccepted]
    omega
  · rw [hretired]
    exact h.nodup
  · rw [hretired, haccepted]
    exact fun s hs => Nat.lt_succ_of_lt (h.retired_lt s hs)
  · rw [hbusy, hretired, haccepted]
    intro j hj
    rcases Finset.mem_insert.1 hj with rfl | hj
    · rw [hserial]
      exact ⟨Nat.lt_succ_self _, fun hmem => Nat.lt_irrefl _ (h.retired_lt _ hmem)⟩
    · rw [hold j hj]
      exact ⟨Nat.lt_succ_of_lt (h.held j hj).1, (h.held j hj).2⟩
  · rw [hbusy]
    intro j hj k hk heq
    rcases Finset.mem_insert.1 hj with hj | hj <;> rcases Finset.mem_insert.1 hk with hk | hk
    · exact hj.trans hk.symm
    · rw [hj, hserial, hold k hk] at heq
      exact absurd heq.symm (h.held k hk).1.ne
    · rw [hk, hserial, hold j hj] at heq
      exact absurd heq (h.held j hj).1.ne
    · rw [hold j hj, hold k hk] at heq
      exact h.inj j hj k hk heq
  · rw [hbusy, hretired, haccepted]
    intro s hs
    rcases Nat.lt_succ_iff_lt_or_eq.1 hs with hlt | rfl
    · refine (h.found s hlt).imp id ?_
      rintro ⟨j, hj, heq⟩
      exact ⟨j, Finset.mem_insert_of_mem hj, (hold j hj).trans heq⟩
    · exact Or.inr ⟨i, Finset.mem_insert_self _ _, hserial⟩

/-! ### Runs -/

theorem TileLedger.advanceSlot {p : TuPipelineController} (h : TileLedger p) {i : Nat} (hi : i < p.depth) :
    TileLedger (advanceSlot p i).1 := by
  rcases advanceSlot_cases p i with heq | ⟨hstage, _, heq⟩ | ⟨hstage, _, heq⟩ | ⟨hstage, _, heq⟩
  · rw [heq]
    exact h
  · rw [heq]
    exact h.moved (enterCompute_moved p i).1 (enterCompute_moved p i).2 (by rw [hstage]; rfl)
  · rw [heq]
    exact h.moved (enterStore_moved p i).1 (enterStore_moved p i).2 (by rw [hstage]; rfl)
  · rw [heq]
    exact h.retireTile (mem_busySlots.2 ⟨hi, by rw [hstage]; rfl⟩)

theorem advanceSlot_depth (p : TuPipelineController) (i : Nat) :
    (advanceSlot p i).1.depth = p.depth ∧ (advanceSlot p i).1.accepted = p.accepted := by
  rcases advanceSlot_cases p i with heq | ⟨_, _, heq⟩ | ⟨_, _, heq⟩ | ⟨_, _, heq⟩
  · rw [heq]
    exact ⟨rfl, rfl⟩
  · rw [heq]
    exact ⟨(enterCompute_moved p i).1.depth, (enterCompute_moved p i).1.accepted⟩
  · rw [heq]
    exact ⟨(enterStore_moved p i).1.depth, (enterStore_moved p i).1.accepted⟩
  · rw [heq]
    exact ⟨(retireTile_moved p i).1.depth, (retireTile_moved p i).1.accepted⟩

/-- What every turn keeps, an advance keeps. -/
theorem advanceSlots_induction {P : TuPipelineController → Prop} {p : TuPipelineController}
    (hturn : ∀ q i, q.depth = p.depth → i < p.depth → P q → P (advanceSlot q i).1) (h : P p) (n : Nat)
    (hn : n ≤ p.depth) : (advanceSlots p n).1.depth = p.depth ∧ P (advanceSlots p n).1 := by
  induction n with
  | zero => exact ⟨rfl, h⟩
  | succ n ih =>
    obtain ⟨hdepth, hP⟩ := ih (by omega)
    rw [advanceSlots_succ]
    exact ⟨(advanceSlot_depth _ n).1.trans hdepth, hturn _ n hdepth hn hP⟩

theorem TileLedger.tuPipelineAdvance {p : TuPipelineController} (h : TileLedger p) :
    TileLedger (tuPipelineAdvance p).1 := by
  have htick : TileLedger (tickDma p) := h.of_same rfl (fun _ => rfl) rfl ⟨rfl, rfl, rfl⟩
  refine (advanceSlots_induction (P := TileLedger) ?_ htick p.depth (Nat.le_refl _)).2
  intro q i hdepth hi hq
  exact hq.advanceSlot (hdepth ▸ hi)

theorem tuPipelineAdvance_depth (p : TuPipelineController) :
    (tuPipelineAdvance p).1.depth = p.depth ∧ (tuPipelineAdvance p).1.accepted = p.accepted := by
  have hturns := advanceSlots_induction (P := fun q => q.accepted = p.accepted) (p := tickDma p)
    (fun q i _ _ hq => (advanceSlot_depth q i).2.trans hq) rfl p.depth (Nat.le_refl _)
  exact hturns

/-- A recycled slot. -/
theorem findFreeSlot_spec (p : TuPipelineController) :
    ((findFreeSlot p).2 = none ∧ (findFreeSlot p).1 = p) ∨
      ∃ i < p.depth, (findFreeSlot p).2 = some i ∧ (p.slots i).stage.isBusy = false ∧
        (findFreeSlot p).1 = p.setSlot i fun tile => { tile with stage := .idle, loadDesc := none, storeDesc := none } := by
  unfold findFreeSlot
  split
  · rename_i i hfind
    refine Or.inr ⟨i, List.mem_range.1 (List.mem_of_find?_eq_some hfind), rfl, ?_, rfl⟩
    have hstage := List.find?_some hfind
    simp only [Bool.or_eq_true, decide_eq_true_eq] at hstage
    rcases hstage with hstage | hstage
    · rw [hstage]
      rfl
    · rw [hstage]
      rfl
  · exact Or.inl ⟨rfl, rfl⟩

/-- A property of the controller that waiting for a slot keeps. -/
structure KeptWaiting (P : TuPipelineController → Prop) : Prop where
  elapseAdvance : ∀ p, P p → P (elapseAdvance p)
  recycle : ∀ p i, (p.slots i).stage.isBusy = false → P p →
    P (p.setSlot i fun tile => { tile with stage := .idle, loadDesc := none, storeDesc := none })

/-- What waiting keeps, the search for a slot keeps; a slot it finds is free. -/
theorem KeptWaiting.findFreeSlot {P : TuPipelineController → Prop} (hkept : KeptWaiting P) {p : TuPipelineController}
    (h : P p) :
    P (findFreeSlot p).1 ∧ ∀ i, (findFreeSlot p).2 = some i →
      i < (findFreeSlot p).1.depth ∧ ((findFreeSlot p).1.slots i).stage = .idle := by
  rcases findFreeSlot_spec p with ⟨hnone, heq⟩ | ⟨i, hi, hsome, hfree, heq⟩
  · rw [hnone, heq]
    exact ⟨h, fun i hi => absurd hi (by simp)⟩
  · rw [hsome, heq]
    refine ⟨hkept.recycle p i hfree h, fun j hj => ?_⟩
    rw [Option.some.injEq] at hj
    rw [← hj]
    exact ⟨hi, by simp [setSlot]⟩

theorem KeptWaiting.claimSlot {P : TuPipelineController → Prop} (hkept : KeptWaiting P) {p : TuPipelineController}
    (h : P p) :
    P (claimSlot p).1 ∧ ∀ i, (claimSlot p).2 = some i →
      i < (claimSlot p).1.depth ∧ ((claimSlot p).1.slots i).stage = .idle := by
  have hwait : ∀ n p, P p → P (waitForSlot n p).1 ∧ ∀ i, (waitForSlot n p).2 = some i →
      i < (waitForSlot n p).1.depth ∧ ((waitForSlot n p).1.slots i).stage = .idle := by
    intro n
    induction n with
    | zero => exact fun p h => ⟨h, fun i hi => absurd hi (by simp [waitForSlot])⟩
    | succ n ih =>
      intro p h
      have hf := hkept.findFreeSlot (hkept.elapseAdvance p h)
      unfold waitForSlot
      split
      · rename_i q i heq
        rw [heq] at hf
        exact hf
      · rename_i q heq
        rw [heq] at hf
        exact ih q hf.1
  have hf := hkept.findFreeSlot h
  unfold Tusim.claimSlot
  split
  · rename_i q i heq
    rw [heq] at hf
    exact hf
  · rename_i q heq
    rw [heq] at hf
    exact hwait _ q hf.1

/-- What waiting keeps, draining keeps. -/
theorem KeptWaiting.syncLoop {P : TuPipelineController → Prop} (hkept : KeptWaiting P) (n : Nat)
    {p : TuPipelineController} (h : P p) : P (syncLoop n p) := by
  induction n generalizing p with
  | zero => exact h
  | succ n ih =>
    unfold Tusim.syncLoop
    split
    · exact ih (hkept.elapseAdvance p h)
    · exact h

theorem setSlot_idle_moved (p : TuPipelineController) (i : Nat) :
    SlotMoved p (p.setSlot i fun tile => { tile with stage := .idle, loadDesc := none, storeDesc := none }) i .idle where
  depth := rfl
  accepted := rfl
  stage_eq := by simp [setSlot]
  serial := by simp [setSlot]
  others := fun j hj => by simp [setSlot, hj]

theorem TileLedger.keptWaiting : KeptWaiting TileLedger where
  elapseAdvance := by
    intro p h
    exact TileLedger.tuPipelineAdvance (h.of_same rfl (fun _ => rfl) rfl ⟨rfl, rfl, rfl⟩)
  recycle := by
    intro p i hfree h
    exact h.moved (setSlot_idle_moved p i) ⟨rfl, rfl, rfl⟩ (by rw [hfree]; rfl)

/-- Waiting accepts no tile. -/
theorem accepted_keptWaiting (n : Nat) : KeptWaiting fun q => q.accepted = n where
  elapseAdvance := fun _ hq => (tuPipelineAdvance_depth _).2.trans hq
  recycle := fun _ _ _ hq => hq

theorem claimSlot_accepted (p : TuPipelineController) : (claimSlot p).1.accepted = p.accepted :=
  ((accepted_keptWaiting p.accepted).claimSlot rfl).1

/-- The tile is accepted. -/
def acceptsTile (p : TuPipelineController) : TuPipelineOp → Bool
  | .submit load store computeCycles cmdId bufferRegion =>
    (submitTile p load store computeCycles cmdId bufferRegion).2.isSome
  | _ => false

/-- The number of tiles a run accepts. -/
def acceptedTiles : TuPipelineController → List TuPipelineOp → Nat
  | _, [] => 0
  | p, op :: ops => (if acceptsTile p op then 1 else 0) + acceptedTiles (p.step op) ops

theorem placeTile_accepted (p : TuPipelineController) (i : Nat) (loadDesc storeDesc : Option Nat) (computeCycles : Nat)
    (cmdId : UInt32) (bufferRegion : Option Nat) (loadCycles : Nat) :
    (placeTile p i loadDesc storeDesc computeCycles cmdId bufferRegion loadCycles).accepted = p.accepted + 1 := by
  rw [placeTile_eq]

/-- A submission waits for a slot and takes it, or gives up. -/
theorem tuPipelineSubmitTile_cases (p : TuPipelineController) (loadDesc storeDesc : Option Nat) (computeCycles : Nat)
    (cmdId : UInt32) (bufferRegion : Option Nat) :
    ∃ total, let q := claimSlot { p with sequentialTotal := total }
      (∃ i, q.2 = some i ∧ tuPipelineSubmitTile p loadDesc storeDesc computeCycles cmdId bufferRegion =
        (placeTile q.1 i loadDesc storeDesc computeCycles cmdId bufferRegion (p.busCycles loadDesc 1),
          some q.1.nextTileId)) ∨
      (q.2 = none ∧ tuPipelineSubmitTile p loadDesc storeDesc computeCycles cmdId bufferRegion =
        ({ q.1 with
          totalStalls := q.1.totalStalls + 1, stallCycles := Word.u64 (q.1.stallCycles + computeCycles) }, none)) := by
  refine ⟨Word.u64 (p.sequentialTotal + p.busCycles loadDesc 1 + computeCycles + p.busCycles storeDesc 1), ?_⟩
  intro q
  unfold tuPipelineSubmitTile
  dsimp only
  split
  · rename_i q' i heq
    have hq : q = (q', some i) := heq
    rw [hq]
    exact Or.inl ⟨i, rfl, rfl⟩
  · rename_i q' heq
    have hq : q = (q', none) := heq
    rw [hq]
    exact Or.inr ⟨rfl, rfl⟩

theorem TileLedger.submitTile {p : TuPipelineController} (h : TileLedger p) (load store : List TuDmaDescriptor)
    (computeCycles : Nat) (cmdId : UInt32) (bufferRegion : Option Nat) :
    TileLedger (submitTile p load store computeCycles cmdId bufferRegion).1 ∧
      (submitTile p load store computeCycles cmdId bufferRegion).1.accepted =
        p.accepted + if (submitTile p load store computeCycles cmdId bufferRegion).2.isSome then 1 else 0 := by
  have hqueued : ∀ dma total, TileLedger { p with dma := dma, sequentialTotal := total } :=
    fun dma total => h.of_same rfl (fun _ => rfl) rfl ⟨rfl, rfl, rfl⟩
  unfold Tusim.submitTile
  dsimp only
  obtain ⟨total, ⟨i, hsome, heq⟩ | ⟨hnone, heq⟩⟩ := tuPipelineSubmitTile_cases
    { p with dma := (newChain (newChain p.dma load).1 store).1 } (newChain p.dma load).2
    (newChain (newChain p.dma load).1 store).2 computeCycles cmdId bufferRegion
  all_goals
    rw [heq]
    obtain ⟨hclaim, hslot⟩ := TileLedger.keptWaiting.claimSlot (hqueued _ total)
    have hsame := claimSlot_accepted { p with
      dma := (newChain (newChain p.dma load).1 store).1, sequentialTotal := total }
  · obtain ⟨hi, hstage⟩ := hslot i hsome
    refine ⟨hclaim.placeTile hi (by rw [hstage]; rfl) .., ?_⟩
    rw [placeTile_accepted, hsame]
    rfl
  · exact ⟨hclaim.of_same rfl (fun _ => rfl) rfl ⟨rfl, rfl, rfl⟩, hsame⟩

theorem TileLedger.step {p : TuPipelineController} (h : TileLedger p) (op : TuPipelineOp) :
    TileLedger (p.step op) ∧ (p.step op).accepted = p.accepted + if acceptsTile p op then 1 else 0 := by
  cases op with
  | submit load store computeCycles cmdId bufferRegion => exact h.submitTile load store computeCycles cmdId bufferRegion
  | advance => exact ⟨h.tuPipelineAdvance, (tuPipelineAdvance_depth p).2⟩
  | sync =>
    exact ⟨TileLedger.keptWaiting.syncLoop _ h, (accepted_keptWaiting p.accepted).syncLoop _ rfl⟩
  | elapse cycles => exact ⟨h.of_same rfl (fun _ => rfl) rfl ⟨rfl, rfl, rfl⟩, rfl⟩
  | dma op => exact ⟨h.of_same rfl (fun _ => rfl) rfl ⟨rfl, rfl, rfl⟩, rfl⟩

theorem TileLedger.exec {p : TuPipelineController} (h : TileLedger p) (ops : List TuPipelineOp) :
    TileLedger (Run.exec TuPipelineController.step p ops) ∧
      (Run.exec TuPipelineController.step p ops).accepted = p.accepted + acceptedTiles p ops := by
  induction ops generalizing p with
  | nil => exact ⟨h, rfl⟩
  | cons op ops ih =>
    obtain ⟨hstep, haccepted⟩ := h.step op
    obtain ⟨hrest, hrestAccepted⟩ := ih hstep
    rw [Run.exec_cons]
    refine ⟨hrest, hrestAccepted.trans ?_⟩
    rw [haccepted, Nat.add_assoc]
    rfl

/-- In every run after the initialisation: the active tiles are the ones in the slots, the retired and the active ones
are the accepted ones, every accepted tile is retired once or in exactly one slot, and an advance moves a tile by at most
one stage. -/
theorem run_lifecycle (dma : TuDmaEngine) (buffers : Nat → TuSramBuffers) (depth : UInt32) (config : TuPipelineConfig)
    (ops : List TuPipelineOp) :
    let init := tuPipelineInit dma buffers depth config
    let p := Run.exec TuPipelineController.step init ops
    p.activeCount.toNat = (busySlots p).card ∧
      p.totalTilesProcessed + p.activeCount = UInt32.ofNat (acceptedTiles init ops) ∧
      (∀ tile < acceptedTiles init ops,
        (p.retired.count tile = 1 ∧ ∀ i ∈ busySlots p, (p.slots i).serial ≠ tile) ∨
          (tile ∉ p.retired ∧ ∃! i, i ∈ busySlots p ∧ (p.slots i).serial = tile)) ∧
      ∀ (q : TuPipelineController) (i : Nat), AtMostOneStage (q.slots i) ((tuPipelineAdvance q).1.slots i) := by
  intro init p
  obtain ⟨h, haccepted⟩ := (TileLedger.init dma buffers depth config).exec ops
  have hcount : p.accepted = acceptedTiles init ops := haccepted.trans (Nat.zero_add _)
  rw [← hcount]
  refine ⟨h.active, ?_, fun tile htile => ?_, tuPipelineAdvance_stage⟩
  · have hactive : p.activeCount = UInt32.ofNat (busySlots p).card := by
      rw [← h.active, UInt32.ofNat_toNat]
    rw [hactive, h.processed, ← UInt32.ofNat_add, h.total]
  · by_cases hretired : tile ∈ p.retired
    · refine Or.inl ⟨List.count_eq_one_of_mem h.nodup hretired, fun i hi heq => ?_⟩
      exact (h.held i hi).2 (heq ▸ hretired)
    · obtain ⟨i, hi, heq⟩ := (h.found tile htile).resolve_left hretired
      exact Or.inr ⟨hretired, i, ⟨hi, heq⟩, fun j hj => h.inj j hj.1 i hi (hj.2.trans heq.symm)⟩

end Tusim
