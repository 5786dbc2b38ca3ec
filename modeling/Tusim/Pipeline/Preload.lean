import Tusim.Pipeline.Turns

/-!
# Loads and the compute stage

The DMA engine marks a descriptor completed when it issues it and records in `cyclesCompleted` when the transfer will be
done.  A turn looks at the mark only, so a tile whose load is issued by the tick of an advance is computed in that same
advance.  `LoadedInTime` is what a tile is owed, and `run_loadedInTime` says for which runs it is kept.
-/

namespace Tusim

open Word TuPipelineController

/-- If slot `i` leaves the preload stage for the compute stage in the advance, the clock has reached the completion cycle
of its load. -/
def LoadedInTime (q : TuPipelineController) (i : Nat) : Prop :=
  (q.slots i).stage = .dmaPreload → ((tuPipelineAdvance q).1.slots i).stage = .compute →
    ∀ d ∈ (q.slots i).loadDesc, ((turnState q i).dma.heap d).cyclesCompleted ≤ (turnState q i).dma.currentCycle

/-- The load of a tile in the preload stage was issued before the advance and the tick reaches its completion cycle, or
the tick does not issue it. -/
def Awaited (q : TuPipelineController) : Prop :=
  ∀ i < q.depth, (q.slots i).stage = .dmaPreload → ∀ d ∈ (q.slots i).loadDesc,
    if (q.dma.heap d).completed then (q.dma.heap d).cyclesCompleted ≤ (tuDmaTick q.dma).1.currentCycle
    else ((tuDmaTick q.dma).1.heap d).completed = false

instance (q : TuPipelineController) : Decidable (Awaited q) := by
  unfold Awaited
  infer_instance

/-- The loads are awaited whenever the operation advances the pipeline. -/
def AwaitsLoads (p : TuPipelineController) (op : TuPipelineOp) : Prop := ∀ q ∈ advanceStates p op, Awaited q

instance (p : TuPipelineController) (op : TuPipelineOp) : Decidable (AwaitsLoads p op) := by
  unfold AwaitsLoads
  infer_instance

/-! ### The engine in asynchronous mode -/

/-- The engine is asynchronous and its clock is a 64-bit value. -/
def AsyncEngine (e : TuDmaEngine) : Prop := e.cfg.asyncMode = true ∧ e.currentCycle ≤ uint64Max

theorem AsyncEngine.works {e e' : TuDmaEngine} (h : AsyncEngine e) (hworks : Works e e') : AsyncEngine e' := by
  obtain ⟨hasync, hclock⟩ := h
  exact ⟨hworks.cfg ▸ hasync, (hworks.clock hclock).2⟩

theorem AsyncEngine.tick {e : TuDmaEngine} (h : AsyncEngine e) : AsyncEngine (tuDmaTick e).1 := by
  have hticked : AsyncEngine { e with currentCycle := u64 (e.currentCycle + 1) } := by
    refine ⟨h.1, ?_⟩
    have hlt : u64 (e.currentCycle + 1) < 2 ^ 64 := Nat.mod_lt _ (Nat.two_pow_pos 64)
    exact Nat.le_pred_of_lt hlt
  exact hticked.works (tuDmaTick_work e)

theorem AsyncEngine.newChain {e : TuDmaEngine} (h : AsyncEngine e) (descs : List TuDmaDescriptor) :
    AsyncEngine (newChain e descs).1 := by
  obtain ⟨hcfg, -, hclock⟩ := newChain_frame e descs
  unfold AsyncEngine
  rwa [hcfg, hclock]

theorem AsyncEngine.step {e : TuDmaEngine} (h : AsyncEngine e) (op : TuDmaOp) : AsyncEngine (e.step op) := by
  cases op with
  | submit chain => exact (h.newChain chain).works (tuDmaSubmitDesc_work _ _)
  | tick => exact h.tick
  | flush channel => exact h.works (tuDmaFlushChannel_work e channel)

theorem asyncEngine_advance {p : TuPipelineController} (h : AsyncEngine p.dma) :
    AsyncEngine (tuPipelineAdvance p).1.dma := by
  have htick : AsyncEngine (tickDma p).dma := h.tick
  obtain ⟨hcfg, -, hclock, -⟩ := advanceSlots_async htick.1 htick.2 p.depth
  refine ⟨?_, hclock⟩
  rw [show (tuPipelineAdvance p).1.dma.cfg = (tickDma p).dma.cfg from hcfg]
  exact htick.1

theorem asyncEngine_keptWaiting : KeptWaiting fun p => AsyncEngine p.dma where
  elapseAdvance := fun p h => asyncEngine_advance (p := tickCycle p) h
  recycle := fun _ _ _ h => h

theorem asyncEngine_queuedTile {p : TuPipelineController} (h : AsyncEngine p.dma) (load store : List TuDmaDescriptor)
    (computeCycles : Nat) : AsyncEngine (queuedTile p load store computeCycles).dma :=
  (h.newChain load).newChain store

theorem asyncEngine_placeTile {p : TuPipelineController} (h : AsyncEngine p.dma) (i : Nat)
    (loadDesc storeDesc : Option Nat) (computeCycles : Nat) (cmdId : UInt32) (bufferRegion : Option Nat)
    (loadCycles : Nat) :
    AsyncEngine (placeTile p i loadDesc storeDesc computeCycles cmdId bufferRegion loadCycles).dma := by
  rw [placeTile_eq]
  refine AsyncEngine.works ?_ (tuDmaSubmitDesc_work _ _)
  unfold redirectedDma
  split
  · exact h
  · rw [redirectLoad_eq]
    exact h

theorem asyncEngine_step {p : TuPipelineController} (h : AsyncEngine p.dma) (op : TuPipelineOp) :
    AsyncEngine (p.step op).dma := by
  cases op with
  | submit load store computeCycles cmdId bufferRegion =>
    show AsyncEngine (submitTile p load store computeCycles cmdId bufferRegion).1.dma
    unfold submitTile
    dsimp only
    have hqueued := asyncEngine_queuedTile h load store computeCycles
    obtain ⟨total, ⟨i, hsome, heq⟩ | ⟨hnone, heq⟩⟩ := tuPipelineSubmitTile_cases
      { p with dma := (newChain (newChain p.dma load).1 store).1 } (newChain p.dma load).2
      (newChain (newChain p.dma load).1 store).2 computeCycles cmdId bufferRegion
    all_goals
      rw [heq]
      have hclaim := (asyncEngine_keptWaiting.claimSlot (p := { p with
        dma := (newChain (newChain p.dma load).1 store).1, sequentialTotal := total }) hqueued).1
    · exact asyncEngine_placeTile hclaim ..
    · exact hclaim
  | advance => exact asyncEngine_advance h
  | sync => exact asyncEngine_keptWaiting.syncLoop _ h
  | elapse cycles => exact h
  | dma op => exact h.step op

/-- The engine is asynchronous in every state in which an operation advances. -/
theorem asyncEngine_advanceStates {p : TuPipelineController} (h : AsyncEngine p.dma) (op : TuPipelineOp) :
    ∀ q ∈ advanceStates p op, AsyncEngine q.dma := by
  cases op with
  | submit load store computeCycles cmdId bufferRegion =>
    exact asyncEngine_keptWaiting.submitStates (fun _ hp => hp) (asyncEngine_queuedTile h load store computeCycles)
  | advance =>
    intro q hq
    rwa [List.mem_singleton.1 hq]
  | sync => exact asyncEngine_keptWaiting.syncStates (fun _ hp => hp) _ h
  | elapse cycles => exact fun q hq => absurd hq List.not_mem_nil
  | dma op => exact fun q hq => absurd hq List.not_mem_nil

/-! ### One advance -/

/-- The turns find the loads as the tick leaves them, so awaited loads are in time. -/
theorem Awaited.loadedInTime {q : TuPipelineController} (hawaited : Awaited q) (hasync : AsyncEngine q.dma) {i : Nat}
    (hi : i < q.depth) : LoadedInTime q i := by
  intro hstage hcompute d hload
  obtain ⟨htick, htickClock⟩ := hasync.tick
  obtain ⟨-, hclock, -, hcore⟩ := advanceSlots_async (p := tickDma q) htick htickClock i
  have hslot := turnState_slot q i
  -- the mark is set at the turn, and the tick set it at the latest
  have hissued : ((tuDmaTick q.dma).1.heap d).completed = true := by
    rw [tuPipelineAdvance_slot q hi] at hcompute
    have hdone := advanceSlot_compute (hslot.symm ▸ hstage) hcompute
    rw [hslot, Option.mem_def.1 hload] at hdone
    exact (congrArg TuDmaDescriptor.completed (hcore d)).symm.trans hdone
  have hguard := hawaited i hi hstage d hload
  by_cases hbefore : (q.dma.heap d).completed = true
  · rw [if_pos hbefore] at hguard
    have hsame := congrArg TuDmaDescriptor.cyclesCompleted (turnState_completed q i hbefore)
    calc ((turnState q i).dma.heap d).cyclesCompleted = (q.dma.heap d).cyclesCompleted := hsame
      _ ≤ (tuDmaTick q.dma).1.currentCycle := hguard
      _ ≤ (turnState q i).dma.currentCycle := hclock
  · rw [if_neg hbefore] at hguard
    rw [hguard] at hissued
    exact absurd hissued Bool.false_ne_true

/-! ### Runs -/

/-- With an asynchronous engine, in every run whose advances await the loads, no tile leaves the preload stage for the
compute stage before the completion cycle of its load. -/
theorem run_loadedInTime (dma : TuDmaEngine) (buffers : Nat → TuSramBuffers) (depth : UInt32)
    (config : TuPipelineConfig) (ops : List TuPipelineOp) (hasync : dma.cfg.asyncMode = true)
    (hclock : dma.currentCycle ≤ uint64Max)
    (h : Run.Along AwaitsLoads TuPipelineController.step (tuPipelineInit dma buffers depth config) ops)
    (past rest : List TuPipelineOp) (op : TuPipelineOp) (hops : ops = past ++ op :: rest) :
    ∀ q ∈ advanceStates (Run.exec TuPipelineController.step (tuPipelineInit dma buffers depth config) past) op,
      ∀ i < q.depth, LoadedInTime q i := by
  subst hops
  have hengine : AsyncEngine
      (Run.exec TuPipelineController.step (tuPipelineInit dma buffers depth config) past).dma :=
    Run.invariant (P := fun p : TuPipelineController => AsyncEngine p.dma) (fun _ op hp => asyncEngine_step hp op) ⟨hasync, hclock⟩ past
  intro q hq i hi
  have hawaited : Awaited q := (Run.along_append.1 h).2.1 q hq
  exact hawaited.loadedInTime (asyncEngine_advanceStates hengine op q hq) hi

/-- A load that a tick of the engine issues and the next advance awaits. -/
theorem run_loadedInTime_awaited :
    let cfg : TuDmaConfig :=
      { asyncMode := true, numChannels := 1, maxDepth := 4, numChannels_pos := by decide,
        numChannels_le := by decide, maxDepth_pos := by decide }
    let load := tuDmaDescCreateLinear 1 0 .hostToTu (some 0) 0 (some 0) 4 1
    let init := tuPipelineInit (.fresh cfg (Memory.zero 16)) (fun _ => ⟨0, 16⟩) 2 {}
    let q := Run.exec TuPipelineController.step init [.submit [load] [] 1 0 none, .dma .tick]
    ∀ i < q.depth, LoadedInTime q i := by
  intro cfg load init q
  have hawaits : Run.Along AwaitsLoads TuPipelineController.step init
      [.submit [load] [] 1 0 none, .dma .tick, .advance] := by decide +kernel
  exact run_loadedInTime (.fresh cfg (Memory.zero 16)) (fun _ => ⟨0, 16⟩) 2 {} _ rfl (Nat.zero_le _) hawaits
    [.submit [load] [] 1 0 none, .dma .tick] [] .advance rfl q (List.mem_singleton_self q)

/-- Without a tick in between, the load is issued by the advance that starts the computation. -/
theorem not_loadedInTime_at_once :
    let cfg : TuDmaConfig :=
      { asyncMode := true, numChannels := 1, maxDepth := 4, numChannels_pos := by decide,
        numChannels_le := by decide, maxDepth_pos := by decide }
    let load := tuDmaDescCreateLinear 1 0 .hostToTu (some 0) 0 (some 0) 4 1
    let init := tuPipelineInit (.fresh cfg (Memory.zero 16)) (fun _ => ⟨0, 16⟩) 2 {}
    let q := Run.exec TuPipelineController.step init [.submit [load] [] 1 0 none]
    q ∈ advanceStates q .advance ∧ ¬ ∀ i < q.depth, LoadedInTime q i := by
  intro cfg load init q
  refine ⟨List.mem_singleton_self q, fun h => ?_⟩
  have hload : 0 ∈ (q.slots 0).loadDesc := by decide +kernel
  have hlate := h 0 q.depth_pos (by decide +kernel) (by decide +kernel) 0 hload
  exact absurd hlate (by decide +kernel)

end Tusim
