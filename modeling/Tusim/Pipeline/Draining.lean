import Mathlib.Logic.Function.Iterate
import Tusim.Pipeline.Turns

/-!
# Draining

`tu_pipeline_sync` advances the pipeline until it is idle, for at most `tuPipelineMaxWait` times (`sync_cases`).  A tile
passes each stage in time once its load is complete, its computation is over and its store is complete
(`Draining.idle`); so the pipeline is idle after `tu_pipeline_sync` when this takes no more advances than it makes
(`run_sync`).
-/

namespace Tusim

open Word TuPipelineController

/-- The state after `n` rounds of draining. -/
def drive (n : Nat) (p : TuPipelineController) : TuPipelineController := elapseAdvance^[n] p

theorem drive_succ (n : Nat) (p : TuPipelineController) : drive (n + 1) p = elapseAdvance (drive n p) :=
  Function.iterate_succ_apply' elapseAdvance n p

theorem drive_add (m n : Nat) (p : TuPipelineController) : drive (m + n) p = drive m (drive n p) :=
  Function.iterate_add_apply elapseAdvance m n p

/-! ### The loop -/

theorem TileLedger.activeCount_pos {p : TuPipelineController} (h : TileLedger p) :
    p.activeCount > 0 ↔ busySlots p ≠ ∅ := by
  have hactive := h.active
  rw [← Finset.nonempty_iff_ne_empty, ← Finset.card_pos, ← hactive]
  exact UInt32.lt_iff_toNat_lt

/-- The loop makes at most `n` rounds, and stops as soon as no slot is busy. -/
theorem syncLoop_cases {p : TuPipelineController} (h : TileLedger p) (n : Nat) :
    ∃ k ≤ n, syncLoop n p = drive k p ∧ (∀ j < k, busySlots (drive j p) ≠ ∅) ∧
      (busySlots (drive k p) = ∅ ∨ k = n) := by
  induction n generalizing p with
  | zero => exact ⟨0, Nat.le_refl 0, rfl, fun j hj => absurd hj (Nat.not_lt_zero j), Or.inr rfl⟩
  | succ n ih =>
    unfold syncLoop
    by_cases hbusy : busySlots p = ∅
    · rw [if_neg (fun hpos => h.activeCount_pos.1 hpos hbusy)]
      exact ⟨0, Nat.zero_le _, rfl, fun j hj => absurd hj (Nat.not_lt_zero j), Or.inl hbusy⟩
    · rw [if_pos (h.activeCount_pos.2 hbusy)]
      obtain ⟨k, hk, heq, hearlier, hend⟩ := ih (TileLedger.keptWaiting.elapseAdvance p h)
      refine ⟨k + 1, by omega, heq, fun j hj => ?_, hend.imp id (congrArg (· + 1))⟩
      cases j with
      | zero => exact hbusy
      | succ j => exact hearlier j (by omega)

/-! ### What a round does to a slot -/

/-- The turn of a slot in a round finds the slot and the clock of the round. -/
theorem elapseAdvance_slot (p : TuPipelineController) {i : Nat} (hi : i < p.depth) :
    ∃ q, (elapseAdvance p).slots i = (advanceSlot q i).1.slots i ∧ q.slots i = p.slots i ∧
      q.currentCycle = u64 (p.currentCycle + 1) ∧
      ∀ d, (p.dma.heap d).completed = true → (q.dma.heap d).completed = true := by
  refine ⟨turnState (tickCycle p) i, tuPipelineAdvance_slot (tickCycle p) hi, turnState_slot (tickCycle p) i,
    turnState_cycle (tickCycle p) i, fun d hd => ?_⟩
  have hsame := turnState_completed (tickCycle p) i hd
  exact (congrArg TuDmaDescriptor.completed hsame).trans hd

theorem elapseAdvance_cycle (p : TuPipelineController) : (elapseAdvance p).currentCycle = u64 (p.currentCycle + 1) :=
  advanceSlots_cycle (tickDma (tickCycle p)) p.depth

theorem drive_depth (n : Nat) (p : TuPipelineController) : (drive n p).depth = p.depth := by
  induction n with
  | zero => rfl
  | succ n ih =>
    rw [drive_succ]
    exact (tuPipelineAdvance_depth _).1.trans ih

/-- Draining does not wrap the cycle counter. -/
theorem drive_cycle {p : TuPipelineController} {n : Nat} (h : p.currentCycle + n < 2 ^ 64) :
    (drive n p).currentCycle = p.currentCycle + n := by
  induction n with
  | zero => rfl
  | succ n ih =>
    rw [drive_succ, elapseAdvance_cycle, ih (by omega)]
    exact u64_of_lt h

/-- A round leaves a tile alone or moves it on by one stage. -/
theorem elapseAdvance_cases (p : TuPipelineController) {i : Nat} (hi : i < p.depth) :
    (elapseAdvance p).slots i = p.slots i ∨
      ((p.slots i).stage = .dmaPreload ∧ ((elapseAdvance p).slots i).stage = .compute ∧
        ((elapseAdvance p).slots i).cycleExpected = u64 (u64 (p.currentCycle + 1) + (p.slots i).computeCycles) ∧
        ((elapseAdvance p).slots i).storeDesc = (p.slots i).storeDesc) ∨
      ((p.slots i).stage = .compute ∧ (p.slots i).cycleExpected ≤ u64 (p.currentCycle + 1) ∧
        ((elapseAdvance p).slots i).stage = .dmaStore ∧
        ((elapseAdvance p).slots i).storeDesc = (p.slots i).storeDesc) ∨
      ((p.slots i).stage = .dmaStore ∧ ((elapseAdvance p).slots i).stage = .done) := by
  obtain ⟨q, hturn, hslot, hclock, -⟩ := elapseAdvance_slot p hi
  rcases advanceSlot_cases q i with heq | ⟨hstage, _, heq⟩ | ⟨hstage, hreached, heq⟩ | ⟨hstage, _, heq⟩
  · rw [hturn, heq]
    exact Or.inl hslot
  · obtain ⟨hexpected, hstore⟩ := enterCompute_tile q i
    rw [hturn, heq, ← hslot, ← hclock]
    exact Or.inr (Or.inl ⟨hstage, (enterCompute_moved q i).1.stage_eq, hexpected, hstore⟩)
  · rw [hturn, heq, ← hslot, ← hclock]
    exact Or.inr (Or.inr (Or.inl ⟨hstage, hreached, (enterStore_moved q i).1.stage_eq,
      by simp [enterStore, setSlot]⟩))
  · rw [hturn, heq, ← hslot]
    exact Or.inr (Or.inr (Or.inr ⟨hstage, (retireTile_moved q i).1.stage_eq⟩))

/-- A tile whose load is complete leaves the preload stage in the round. -/
theorem elapseAdvance_preload {p : TuPipelineController} {i : Nat} (hi : i < p.depth)
    (hstage : (p.slots i).stage = .dmaPreload)
    (hdone : ∀ d ∈ (p.slots i).loadDesc, (p.dma.heap d).completed = true) :
    ((elapseAdvance p).slots i).stage = .compute := by
  obtain ⟨q, hturn, hslot, -, hcompleted⟩ := elapseAdvance_slot p hi
  have hload : q.descDone (q.slots i).loadDesc = true := by
    rw [hslot]
    exact (Option.all_eq_true _ _).2 fun d hd => hcompleted d (hdone d hd)
  rw [hturn, advanceSlot_preload (hslot ▸ hstage) hload]
  exact (enterCompute_moved q i).1.stage_eq

theorem elapseAdvance_store {p : TuPipelineController} {i : Nat} (hi : i < p.depth)
    (hstage : (p.slots i).stage = .compute) (hdone : (p.slots i).cycleExpected ≤ u64 (p.currentCycle + 1)) :
    ((elapseAdvance p).slots i).stage = .dmaStore := by
  obtain ⟨q, hturn, hslot, hclock, -⟩ := elapseAdvance_slot p hi
  have hreached : (q.slots i).cycleExpected ≤ q.currentCycle := by rwa [hslot, hclock]
  rw [hturn, advanceSlot_store (hslot ▸ hstage) hreached]
  exact (enterStore_moved q i).1.stage_eq

theorem elapseAdvance_retire {p : TuPipelineController} {i : Nat} (hi : i < p.depth)
    (hstage : (p.slots i).stage = .dmaStore)
    (hdone : ∀ d ∈ (p.slots i).storeDesc, (p.dma.heap d).completed = true) :
    ((elapseAdvance p).slots i).stage = .done := by
  obtain ⟨q, hturn, hslot, -, hcompleted⟩ := elapseAdvance_slot p hi
  have hstore : q.descDone (q.slots i).storeDesc = true := by
    rw [hslot]
    exact (Option.all_eq_true _ _).2 fun d hd => hcompleted d (hdone d hd)
  rw [hturn, advanceSlot_retire (hslot ▸ hstage) hstore]
  exact (retireTile_moved q i).1.stage_eq

/-! ### Tiles that finish -/

/-- The number of stages that a tile has behind it. -/
def TuPipelineStage.rank : TuPipelineStage → Nat
  | .dmaPreload => 0
  | .compute => 1
  | .dmaStore => 2
  | .idle | .done => 3

theorem TuPipelineStage.isBusy_eq_false_iff (stage : TuPipelineStage) : stage.isBusy = false ↔ 3 ≤ stage.rank := by
  cases stage <;> decide

/-- The load of the tile is complete after `l` rounds, it computes for at most `c` cycles, and its store is complete `s`
rounds after its submission. -/
structure Draining (p : TuPipelineController) (i l c s : Nat) : Prop where
  load : (p.slots i).stage = .dmaPreload → ∀ d ∈ (p.slots i).loadDesc, ((drive l p).dma.heap d).completed = true
  cycles : (p.slots i).stage = .dmaPreload → (p.slots i).computeCycles ≤ c
  compute : (p.slots i).stage = .compute → (p.slots i).cycleExpected ≤ p.currentCycle + c
  store : ∀ n, ((drive n p).slots i).stage = .dmaStore →
    ∀ d ∈ (p.slots i).storeDesc, ((drive (n + s) p).dma.heap d).completed = true

section

variable {p : TuPipelineController} {i : Nat} (hi : i < p.depth)

include hi

theorem rank_drive_mono {m n : Nat} (h : m ≤ n) :
    ((drive m p).slots i).stage.rank ≤ ((drive n p).slots i).stage.rank := by
  induction n, h using Nat.le_induction with
  | base => exact Nat.le_refl _
  | succ n _ ih =>
    refine ih.trans ?_
    rw [drive_succ]
    rcases elapseAdvance_cases (drive n p) (i := i) (by rwa [drive_depth]) with
      heq | ⟨hstage, hstage', _⟩ | ⟨hstage, _, hstage', _⟩ | ⟨hstage, hstage'⟩
    · rw [heq]
    all_goals
      rw [hstage, hstage']
      decide

/-- A tile in the preload stage has not changed. -/
theorem drive_preload {n : Nat} (hstage : ((drive n p).slots i).stage = .dmaPreload) :
    (drive n p).slots i = p.slots i := by
  induction n with
  | zero => rfl
  | succ n ih =>
    rw [drive_succ] at hstage ⊢
    rcases elapseAdvance_cases (drive n p) (i := i) (by rwa [drive_depth]) with
      heq | ⟨_, hstage', _⟩ | ⟨_, _, hstage', _⟩ | ⟨_, hstage'⟩
    · rw [heq] at hstage ⊢
      exact ih hstage
    all_goals
      rw [hstage'] at hstage
      cases hstage

/-- A busy tile keeps its store. -/
theorem drive_storeDesc {n : Nat} (hbusy : ((drive n p).slots i).stage.isBusy = true) :
    ((drive n p).slots i).storeDesc = (p.slots i).storeDesc := by
  induction n with
  | zero => rfl
  | succ n ih =>
    rw [drive_succ] at hbusy ⊢
    rcases elapseAdvance_cases (drive n p) (i := i) (by rwa [drive_depth]) with
      heq | ⟨hstage, _, _, hstore⟩ | ⟨hstage, _, _, hstore⟩ | ⟨_, hstage'⟩
    · rw [heq] at hbusy ⊢
      exact ih hbusy
    · exact hstore.trans (ih (by rw [hstage]; rfl))
    · exact hstore.trans (ih (by rw [hstage]; rfl))
    · rw [hstage'] at hbusy
      cases hbusy

/-- A tile computes until its cycles are over. -/
theorem drive_computing {n : Nat} (hstage : (p.slots i).stage = .compute)
    (hn : p.currentCycle + n < (p.slots i).cycleExpected) (hclock : p.currentCycle + n < 2 ^ 64) :
    (drive n p).slots i = p.slots i := by
  induction n with
  | zero => rfl
  | succ n ih =>
    have hsame := ih (by omega) (by omega)
    have hcycle : (drive n p).currentCycle = p.currentCycle + n := drive_cycle (by omega)
    rw [drive_succ]
    rcases elapseAdvance_cases (drive n p) (i := i) (by rwa [drive_depth]) with
      heq | ⟨hstage', _⟩ | ⟨_, hreached, _⟩ | ⟨hstage', _⟩
    · exact heq.trans hsame
    · rw [hsame, hstage] at hstage'
      cases hstage'
    · rw [hsame, hcycle, u64_of_lt (show p.currentCycle + n + 1 < 2 ^ 64 by omega)] at hreached
      omega
    · rw [hsame, hstage] at hstage'
      cases hstage'

variable {l c s : Nat} (h : Draining p i l c s)

include h

/-- After `l + 1` rounds the tile has left the preload stage. -/
theorem Draining.loaded : 1 ≤ ((drive (l + 1) p).slots i).stage.rank := by
  by_cases hstage : ((drive l p).slots i).stage = .dmaPreload
  · have hsame := drive_preload hi hstage
    rw [hsame] at hstage
    have hdone : ∀ d ∈ ((drive l p).slots i).loadDesc, ((drive l p).dma.heap d).completed = true := by
      rw [hsame]
      exact h.load hstage
    rw [drive_succ, elapseAdvance_preload (by rwa [drive_depth]) (hsame ▸ hstage) hdone]
    exact Nat.le_refl 1
  · refine Nat.le_trans ?_ (rank_drive_mono hi (Nat.le_succ l))
    cases hrank : ((drive l p).slots i).stage with
    | dmaPreload => exact absurd hrank hstage
    | idle | compute | dmaStore | done => decide

/-- A tile in the compute stage entered it in one of the first `l + 1` rounds. -/
theorem Draining.expected {n : Nat} (hn : p.currentCycle + n < 2 ^ 64)
    (hstage : ((drive n p).slots i).stage = .compute) :
    ((drive n p).slots i).cycleExpected ≤ p.currentCycle + l + 1 + c := by
  induction n with
  | zero => exact (h.compute hstage).trans (by omega)
  | succ n ih =>
    rw [drive_succ] at hstage ⊢
    rcases elapseAdvance_cases (drive n p) (i := i) (by rwa [drive_depth]) with
      heq | ⟨hpreload, _, hexpected, _⟩ | ⟨_, _, hstage', _⟩ | ⟨_, hstage'⟩
    · rw [heq] at hstage ⊢
      exact ih (by omega) hstage
    · have hnl : n ≤ l := by
        by_contra hlate
        have hrank := (h.loaded hi).trans (rank_drive_mono hi (show l + 1 ≤ n by omega))
        rw [hpreload] at hrank
        exact absurd hrank (by decide)
      have hsame := drive_preload hi hpreload
      have hc : (p.slots i).computeCycles ≤ c := h.cycles (hsame ▸ hpreload)
      have hclock : (drive n p).currentCycle = p.currentCycle + n := drive_cycle (by omega)
      rw [hexpected, hsame, hclock, u64_of_lt (show p.currentCycle + n + 1 < 2 ^ 64 by omega)]
      exact (Nat.mod_le _ _).trans (by omega)
    all_goals
      rw [hstage'] at hstage
      cases hstage

/-- After `l + c + 2` rounds the computation is over. -/
theorem Draining.computed (hclock : p.currentCycle + (l + c + s + 3) < 2 ^ 64) :
    2 ≤ ((drive (l + c + 2) p).slots i).stage.rank := by
  have hloaded := (h.loaded hi).trans (rank_drive_mono hi (show l + 1 ≤ l + c + 1 by omega))
  by_cases hstage : ((drive (l + c + 1) p).slots i).stage = .compute
  · have hexpected := h.expected hi (n := l + c + 1) (by omega) hstage
    have hcycle : (drive (l + c + 1) p).currentCycle = p.currentCycle + (l + c + 1) := drive_cycle (by omega)
    have hreached : ((drive (l + c + 1) p).slots i).cycleExpected ≤ u64 ((drive (l + c + 1) p).currentCycle + 1) := by
      rw [hcycle, u64_of_lt (show p.currentCycle + (l + c + 1) + 1 < 2 ^ 64 by omega)]
      omega
    rw [drive_succ, elapseAdvance_store (by rwa [drive_depth]) hstage hreached]
    exact Nat.le_refl 2
  · refine Nat.le_trans ?_ (rank_drive_mono hi (Nat.le_succ (l + c + 1)))
    cases hrank : ((drive (l + c + 1) p).slots i).stage with
    | dmaPreload =>
      rw [hrank] at hloaded
      exact absurd hloaded (by decide)
    | compute => exact absurd hrank hstage
    | idle | dmaStore | done => decide

/-- After `l + c + s + 3` rounds the slot is free. -/
theorem Draining.idle (hclock : p.currentCycle + (l + c + s + 3) < 2 ^ 64) :
    3 ≤ ((drive (l + c + s + 3) p).slots i).stage.rank := by
  have hcomputed := h.computed hi hclock
  by_cases hstage : ((drive (l + c + 2 + s) p).slots i).stage = .dmaStore
  · -- the tile was in the store stage since the computation ended
    have hstored : ((drive (l + c + 2) p).slots i).stage = .dmaStore := by
      have hrank := rank_drive_mono hi (show l + c + 2 ≤ l + c + 2 + s by omega)
      rw [hstage] at hrank
      cases hbefore : ((drive (l + c + 2) p).slots i).stage with
      | dmaStore => rfl
      | dmaPreload | compute | idle | done =>
        rw [hbefore] at hcomputed hrank
        simp [TuPipelineStage.rank] at hcomputed hrank
    have hdone : ∀ d ∈ ((drive (l + c + 2 + s) p).slots i).storeDesc,
        ((drive (l + c + 2 + s) p).dma.heap d).completed = true := by
      rw [drive_storeDesc hi (by rw [hstage]; rfl)]
      exact h.store _ hstored
    rw [show l + c + s + 3 = l + c + 2 + s + 1 by omega, drive_succ,
      elapseAdvance_retire (by rwa [drive_depth]) hstage hdone]
    exact Nat.le_refl 3
  · have hrank := hcomputed.trans (rank_drive_mono hi (show l + c + 2 ≤ l + c + 2 + s by omega))
    refine Nat.le_trans ?_ (rank_drive_mono hi (show l + c + 2 + s ≤ l + c + s + 3 by omega))
    cases hlast : ((drive (l + c + 2 + s) p).slots i).stage with
    | dmaPreload | compute =>
      rw [hlast] at hrank
      exact absurd hrank (by decide)
    | dmaStore => exact absurd hlast hstage
    | idle | done => decide

end

/-! ### Runs -/

/-- In every run, `tu_pipeline_sync` advances at most `tuPipelineMaxWait` times and stops when no slot is busy, or after
the last of these advances.  No slot is busy afterwards when the tiles finish within so many rounds. -/
theorem run_sync (dma : TuDmaEngine) (buffers : Nat → TuSramBuffers) (depth : UInt32) (config : TuPipelineConfig)
    (ops : List TuPipelineOp) :
    let p := Run.exec TuPipelineController.step (tuPipelineInit dma buffers depth config) ops
    (∃ k ≤ tuPipelineMaxWait, tuPipelineSync p = drive k p ∧ (∀ j < k, busySlots (drive j p) ≠ ∅) ∧
      (busySlots (tuPipelineSync p) = ∅ ∨ k = tuPipelineMaxWait)) ∧
    (p.currentCycle + tuPipelineMaxWait < 2 ^ 64 →
      (∀ i ∈ busySlots p, ∃ l c s, Draining p i l c s ∧ l + c + s + 3 ≤ tuPipelineMaxWait) →
      busySlots (tuPipelineSync p) = ∅) := by
  intro p
  have hledger : TileLedger p := ((TileLedger.init dma buffers depth config).exec ops).1
  obtain ⟨k, hk, heq, hearlier, hend⟩ := syncLoop_cases hledger tuPipelineMaxWait
  have hsync : tuPipelineSync p = drive k p := heq
  rw [hsync]
  refine ⟨⟨k, hk, rfl, hearlier, hend⟩, fun hclock hdrains => ?_⟩
  rcases hend with hidle | rfl
  · exact hidle
  · ext i
    rw [mem_busySlots, drive_depth]
    simp only [Finset.notMem_empty, iff_false, not_and, Bool.not_eq_true]
    intro hi
    rw [TuPipelineStage.isBusy_eq_false_iff]
    by_cases hbusy : i ∈ busySlots p
    · obtain ⟨l, c, s, hdraining, hle⟩ := hdrains i hbusy
      exact (hdraining.idle hi (by omega)).trans (rank_drive_mono hi hle)
    · have hfree : (p.slots i).stage.isBusy = false := by
        rw [mem_busySlots] at hbusy
        exact Bool.not_eq_true _ ▸ fun hstage => hbusy ⟨hi, hstage⟩
      exact ((TuPipelineStage.isBusy_eq_false_iff _).1 hfree).trans (rank_drive_mono hi (Nat.zero_le _))

/-- A tile whose load is done and that computes for five cycles. -/
theorem run_sync_short :
    let cfg : TuDmaConfig :=
      { asyncMode := false, numChannels := 1, maxDepth := 4, numChannels_pos := by decide,
        numChannels_le := by decide, maxDepth_pos := by decide }
    let load := tuDmaDescCreateLinear 1 0 .hostToTu (some 0) 0 (some 0) 4 1
    let init := tuPipelineInit (.fresh cfg (Memory.zero 16)) (fun _ => ⟨0, 16⟩) 2 {}
    busySlots (tuPipelineSync (Run.exec TuPipelineController.step init [.submit [load] [] 5 0 none])) = ∅ := by
  intro cfg load init
  refine (run_sync (.fresh cfg (Memory.zero 16)) (fun _ => ⟨0, 16⟩) 2 {} [.submit [load] [] 5 0 none]).2
    (by decide +kernel) fun i hi => ⟨0, 5, 0, ⟨?_, ?_, ?_, ?_⟩, by decide⟩
  · revert i
    decide +kernel
  · revert i
    decide +kernel
  · revert i
    decide +kernel
  · intro n hstage d hd
    have hnone : ∀ i ∈ busySlots (Run.exec TuPipelineController.step init [.submit [load] [] 5 0 none]),
        ((Run.exec TuPipelineController.step init [.submit [load] [] 5 0 none]).slots i).storeDesc = none := by
      decide +kernel
    have hd' := Option.mem_def.1 hd
    rw [hnone i hi] at hd'
    cases hd'

/-- A tile that computes for two million cycles is still computing after `tu_pipeline_sync`. -/
theorem not_drained_long :
    let cfg : TuDmaConfig :=
      { asyncMode := false, numChannels := 1, maxDepth := 4, numChannels_pos := by decide,
        numChannels_le := by decide, maxDepth_pos := by decide }
    let init := tuPipelineInit (.fresh cfg (Memory.zero 16)) (fun _ => ⟨0, 16⟩) 1 {}
    busySlots (tuPipelineSync (Run.exec TuPipelineController.step init [.submit [] [] 2000000 0 none])) ≠ ∅ := by
  intro cfg init hidle
  have hledger := ((TileLedger.init (.fresh cfg (Memory.zero 16)) (fun _ => ⟨0, 16⟩) 1 {}).exec
    [.submit [] [] 2000000 0 none]).1
  obtain ⟨k, hk, heq, -⟩ := syncLoop_cases hledger tuPipelineMaxWait
  have hbusy : 0 ∈ busySlots (tuPipelineSync (Run.exec TuPipelineController.step init
      [.submit [] [] 2000000 0 none])) := by
    rw [mem_busySlots, show tuPipelineSync _ = _ from heq]
    refine ⟨TuPipelineController.depth_pos _, ?_⟩
    cases k with
    | zero => decide +kernel
    | succ k =>
      unfold tuPipelineMaxWait at hk
      -- the first round starts the computation
      rw [drive_add k 1, drive_computing (by decide +kernel) (by decide +kernel)]
      · decide +kernel
      · refine Nat.lt_of_lt_of_le (Nat.add_lt_add_left (show k < 1000000 by omega) _) ?_
        decide +kernel
      · refine Nat.lt_of_lt_of_le (Nat.add_lt_add_left (show k < 1000000 by omega) _) ?_
        decide +kernel
  rw [hidle] at hbusy
  exact absurd hbusy (Finset.notMem_empty 0)

end Tusim
