import Tusim.Dma.Work
import Tusim.Pipeline.Lifecycle

/-!
# The turns of an advance

An advance is a DMA tick and a turn of every slot.  `turnState p i` is the state in which slot `i` has its turn: the
slot is still the one before the advance, the cycle counter too, and a descriptor completed by then stays as it is
(`turnState_slot`, `turnState_completed`).  `advanceStates` are the states in which an operation of a run advances the
pipeline.
-/

namespace Tusim

open Word TuPipelineController

/-- The state in which slot `i` has its turn in an advance. -/
def turnState (p : TuPipelineController) (i : Nat) : TuPipelineController := (advanceSlots (tickDma p) i).1

/-- The states in which the wait for a slot advances the pipeline. -/
def waitStates : Nat → TuPipelineController → List TuPipelineController
  | 0, _ => []
  | n + 1, p =>
    let rest :=
      match findFreeSlot (elapseAdvance p) with
      | (_, some _) => []
      | (p, none) => waitStates n p
    tickCycle p :: rest

/-- The states in which a submission advances a full pipeline. -/
def submitStates (p : TuPipelineController) : List TuPipelineController :=
  match findFreeSlot p with
  | (_, some _) => []
  | (p, none) => waitStates tuPipelineMaxWait p

/-- The states in which draining advances the pipeline. -/
def syncStates : Nat → TuPipelineController → List TuPipelineController
  | 0, _ => []
  | n + 1, p => if p.activeCount > 0 then tickCycle p :: syncStates n (elapseAdvance p) else []

/-- The state after the chains of a tile are built and its sequential cost is counted. -/
def queuedTile (p : TuPipelineController) (load store : List TuDmaDescriptor) (computeCycles : Nat) :
    TuPipelineController :=
  let loadChain := newChain p.dma load
  let storeChain := newChain loadChain.1 store
  let q : TuPipelineController := { p with dma := storeChain.1 }
  let loadCycles := q.busCycles loadChain.2 1
  let storeCycles := q.busCycles storeChain.2 1
  { q with sequentialTotal := u64 (q.sequentialTotal + loadCycles + computeCycles + storeCycles) }

/-- A submission waits for a slot and places its tile there, or gives up. -/
theorem submit_cases (p : TuPipelineController) (load store : List TuDmaDescriptor) (computeCycles : Nat)
    (cmdId : UInt32) (bufferRegion : Option Nat) :
    let c := claimSlot (queuedTile p load store computeCycles)
    let op : TuPipelineOp := .submit load store computeCycles cmdId bufferRegion
    (∃ i, c.2 = some i ∧ acceptsTile p op = true ∧ p.step op =
      placeTile c.1 i (newChain p.dma load).2 (newChain (newChain p.dma load).1 store).2 computeCycles cmdId bufferRegion
        ((queuedTile p load store computeCycles).busCycles (newChain p.dma load).2 1)) ∨
    (c.2 = none ∧ acceptsTile p op = false ∧ p.step op =
      { c.1 with totalStalls := c.1.totalStalls + 1, stallCycles := u64 (c.1.stallCycles + computeCycles) }) := by
  intro c op
  have hstep : p.step op = (submitTile p load store computeCycles cmdId bufferRegion).1 := rfl
  have haccepts : acceptsTile p op = (submitTile p load store computeCycles cmdId bufferRegion).2.isSome := rfl
  rw [hstep, haccepts]
  unfold submitTile tuPipelineSubmitTile
  dsimp only
  split
  · rename_i q i heq
    have hc : c = (q, some i) := heq
    rw [hc]
    exact Or.inl ⟨i, rfl, rfl, rfl⟩
  · rename_i q heq
    have hc : c = (q, none) := heq
    rw [hc]
    exact Or.inr ⟨rfl, rfl, rfl⟩

/-- The states in which an operation advances the pipeline. -/
def advanceStates (p : TuPipelineController) : TuPipelineOp → List TuPipelineController
  | .submit load store computeCycles _ _ => submitStates (queuedTile p load store computeCycles)
  | .advance => [p]
  | .sync => syncStates tuPipelineMaxWait p
  | .elapse _ | .dma _ => []

/-- What waiting keeps, every state in which a submission advances has. -/
theorem KeptWaiting.submitStates {P : TuPipelineController → Prop} (hkept : KeptWaiting P)
    (htick : ∀ p, P p → P (tickCycle p)) {p : TuPipelineController} (h : P p) : ∀ q ∈ submitStates p, P q := by
  have hwait : ∀ n p, P p → ∀ q ∈ waitStates n p, P q := by
    intro n
    induction n with
    | zero => exact fun p _ q hq => absurd hq List.not_mem_nil
    | succ n ih =>
      intro p h q hq
      have hf := hkept.findFreeSlot (hkept.elapseAdvance p h)
      unfold waitStates at hq
      rcases List.mem_cons.1 hq with rfl | hq
      · exact htick p h
      · split at hq
        · exact absurd hq List.not_mem_nil
        · rename_i p' heq
          rw [heq] at hf
          exact ih p' hf.1 q hq
  have hf := hkept.findFreeSlot h
  intro q hq
  unfold Tusim.submitStates at hq
  split at hq
  · exact absurd hq List.not_mem_nil
  · rename_i p' heq
    rw [heq] at hf
    exact hwait _ p' hf.1 q hq

theorem KeptWaiting.syncStates {P : TuPipelineController → Prop} (hkept : KeptWaiting P)
    (htick : ∀ p, P p → P (tickCycle p)) (n : Nat) {p : TuPipelineController} (h : P p) :
    ∀ q ∈ syncStates n p, P q := by
  induction n generalizing p with
  | zero => exact fun q hq => absurd hq List.not_mem_nil
  | succ n ih =>
    intro q hq
    unfold Tusim.syncStates at hq
    split at hq
    · rcases List.mem_cons.1 hq with rfl | hq
      · exact htick p h
      · exact ih (hkept.elapseAdvance p h) q hq
    · exact absurd hq List.not_mem_nil

/-! ### What a turn does -/

theorem advanceSlot_preload {p : TuPipelineController} {i : Nat} (hstage : (p.slots i).stage = .dmaPreload)
    (hdone : p.descDone (p.slots i).loadDesc = true) : (advanceSlot p i).1 = enterCompute p i := by
  simp [advanceSlot, hstage, hdone]

theorem advanceSlot_store {p : TuPipelineController} {i : Nat} (hstage : (p.slots i).stage = .compute)
    (hdone : (p.slots i).cycleExpected ≤ p.currentCycle) : (advanceSlot p i).1 = enterStore p i := by
  simp [advanceSlot, hstage, hdone]

theorem advanceSlot_retire {p : TuPipelineController} {i : Nat} (hstage : (p.slots i).stage = .dmaStore)
    (hdone : p.descDone (p.slots i).storeDesc = true) : (advanceSlot p i).1 = retireTile p i := by
  simp [advanceSlot, hstage, hdone]

theorem advanceSlot_compute {p : TuPipelineController} {i : Nat} (hstage : (p.slots i).stage = .dmaPreload)
    (hcompute : ((advanceSlot p i).1.slots i).stage = .compute) : p.descDone (p.slots i).loadDesc = true := by
  by_contra hnot
  unfold advanceSlot at hcompute
  dsimp only at hcompute
  rw [hstage] at hcompute
  simp only [hnot, Bool.false_eq_true, if_false, hstage, reduceCtorEq] at hcompute

theorem enterCompute_heap (p : TuPipelineController) (i : Nat) :
    (enterCompute p i).dma.heap = p.dma.heap ∧ (enterCompute p i).dma.currentCycle = p.dma.currentCycle ∧
      (enterCompute p i).dma.cfg = p.dma.cfg ∧ (enterCompute p i).currentCycle = p.currentCycle := by
  obtain ⟨mem, swapped, heq⟩ := enterCompute_eq p i
  rw [heq]
  exact ⟨rfl, rfl, rfl, rfl⟩

theorem enterCompute_tile (p : TuPipelineController) (i : Nat) :
    ((enterCompute p i).slots i).cycleExpected = u64 (p.currentCycle + (p.slots i).computeCycles) ∧
      ((enterCompute p i).slots i).storeDesc = (p.slots i).storeDesc := by
  obtain ⟨mem, swapped, heq⟩ := enterCompute_eq p i
  rw [heq]
  constructor <;> simp

/-- A turn works, or leaves the heap and the clock alone. -/
theorem advanceSlot_work (p : TuPipelineController) (i : Nat) :
    ((advanceSlot p i).1.dma.heap = p.dma.heap ∧ (advanceSlot p i).1.dma.currentCycle = p.dma.currentCycle ∧
      (advanceSlot p i).1.dma.cfg = p.dma.cfg ∨
      (advanceSlot p i).1.dma = (tuDmaSubmitDesc p.dma (p.slots i).storeDesc).1) ∧
    (advanceSlot p i).1.currentCycle = p.currentCycle := by
  rcases advanceSlot_cases p i with heq | ⟨_, _, heq⟩ | ⟨_, _, heq⟩ | ⟨_, _, heq⟩
  · rw [heq]
    exact ⟨Or.inl ⟨rfl, rfl, rfl⟩, rfl⟩
  · rw [heq]
    obtain ⟨hheap, hclock, hcfg, hcycle⟩ := enterCompute_heap p i
    exact ⟨Or.inl ⟨hheap, hclock, hcfg⟩, hcycle⟩
  · rw [heq]
    exact ⟨Or.inr rfl, rfl⟩
  · rw [heq]
    exact ⟨Or.inl ⟨rfl, rfl, rfl⟩, rfl⟩

/-- A completed descriptor stays as it is. -/
theorem advanceSlot_completed (p : TuPipelineController) (i : Nat) {d : Nat} (hd : (p.dma.heap d).completed = true) :
    ((advanceSlot p i).1.dma.heap d).core = (p.dma.heap d).core := by
  rcases (advanceSlot_work p i).1 with ⟨hheap, _⟩ | heq
  · rw [hheap]
  · rw [heq]
    exact (tuDmaSubmitDesc_work p.dma _).completed hd

theorem advanceSlots_completed (p : TuPipelineController) {d : Nat} (hd : (p.dma.heap d).completed = true) (n : Nat) :
    ((advanceSlots p n).1.dma.heap d).core = (p.dma.heap d).core := by
  induction n with
  | zero => rfl
  | succ n ih =>
    rw [advanceSlots_succ]
    have hdone : ((advanceSlots p n).1.dma.heap d).completed = true := (congrArg TuDmaDescriptor.completed ih).trans hd
    exact (advanceSlot_completed _ n hdone).trans ih

theorem advanceSlots_cycle (p : TuPipelineController) (n : Nat) :
    (advanceSlots p n).1.currentCycle = p.currentCycle := by
  induction n with
  | zero => rfl
  | succ n ih =>
    rw [advanceSlots_succ]
    exact (advanceSlot_work _ n).2.trans ih

theorem turnState_cycle (p : TuPipelineController) (i : Nat) : (turnState p i).currentCycle = p.currentCycle :=
  advanceSlots_cycle (tickDma p) i

theorem turnState_slot (p : TuPipelineController) (i : Nat) : (turnState p i).slots i = p.slots i :=
  (advanceSlots_stage (tickDma p) i).1 i (Nat.le_refl i)

/-- A descriptor completed before the advance is the same at the turn of a slot. -/
theorem turnState_completed (p : TuPipelineController) (i : Nat) {d : Nat} (hd : (p.dma.heap d).completed = true) :
    ((turnState p i).dma.heap d).core = (p.dma.heap d).core := by
  have htick := (tuDmaTick_work p.dma).completed hd
  have hdone : ((tickDma p).dma.heap d).completed = true := (congrArg TuDmaDescriptor.completed htick).trans hd
  exact (advanceSlots_completed (tickDma p) hdone i).trans htick

/-- Its turn decides what becomes of a slot. -/
theorem tuPipelineAdvance_slot (p : TuPipelineController) {i : Nat} (hi : i < p.depth) :
    (tuPipelineAdvance p).1.slots i = (advanceSlot (turnState p i) i).1.slots i := by
  have hlater : ∀ n, i < n → (advanceSlots (tickDma p) n).1.slots i = (advanceSlot (turnState p i) i).1.slots i := by
    intro n hn
    induction n with
    | zero => exact absurd hn (Nat.not_lt_zero i)
    | succ n ih =>
      rw [advanceSlots_succ]
      rcases Nat.lt_succ_iff_lt_or_eq.1 hn with hlt | rfl
      · rw [(advanceSlot_stage _ n).2 i hlt.ne]
        exact ih hlt
      · rfl
  exact hlater p.depth hi

/-! ### The engine in asynchronous mode -/

/-- With an asynchronous engine the turns of an advance execute nothing. -/
theorem advanceSlots_async {p : TuPipelineController} (hasync : p.dma.cfg.asyncMode = true)
    (hclock : p.dma.currentCycle ≤ uint64Max) (n : Nat) :
    (advanceSlots p n).1.dma.cfg = p.dma.cfg ∧ p.dma.currentCycle ≤ (advanceSlots p n).1.dma.currentCycle ∧
      (advanceSlots p n).1.dma.currentCycle ≤ uint64Max ∧
      ∀ d, ((advanceSlots p n).1.dma.heap d).core = (p.dma.heap d).core := by
  induction n with
  | zero => exact ⟨rfl, Nat.le_refl _, hclock, fun _ => rfl⟩
  | succ n ih =>
    obtain ⟨hcfg, hle, hmax, hcore⟩ := ih
    rw [advanceSlots_succ]
    rcases (advanceSlot_work (advanceSlots p n).1 n).1 with ⟨hheap, hcycle, hcfg'⟩ | heq
    · rw [hheap, hcycle, hcfg']
      exact ⟨hcfg, hle, hmax, hcore⟩
    · rw [heq]
      have hun := tuDmaSubmitDesc_unexecuted (hcfg ▸ hasync) ((advanceSlots p n).1.slots n).storeDesc
      have hclock' := hun.clock hmax
      exact ⟨hun.cfg.trans hcfg, hle.trans hclock'.1, hclock'.2, fun d => (hun.core d).trans (hcore d)⟩

end Tusim
