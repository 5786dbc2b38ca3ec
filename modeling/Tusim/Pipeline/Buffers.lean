import Tusim.Dma.Loads
import Tusim.Pipeline.Turns

/-!
# The bytes a tile computes on

A load is pointed at the shadow buffer through `dst_host`, but the executor takes the active buffer of `dst_region`, and
the swap that starts the computation makes the other buffer active.  So a tile computes on what the idle buffer held
before its turn (`delivered_iff`), and a load that is issued while a tile computes writes to the buffer of that tile.
`run_buffers` says in which runs of load tiles this goes unnoticed.
-/

namespace Tusim

open Word TuPipelineController

/-- The operations of a run of tiles that load from host memory. -/
def LoadTileOp : TuPipelineOp → Prop
  | .submit load store _ _ _ => store = [] ∧ ∀ desc ∈ load, desc.direction = .hostToTu
  | .advance | .sync | .elapse _ => True
  | .dma _ => False

/-- The region is double-buffered, and one of its tiles computes. -/
def Computes (p : TuPipelineController) (r : Nat) : Prop :=
  tuSramIsDoubleBuffered (p.dma.mem.sram r) = true ∧
    ∃ k < p.depth, (p.slots k).stage = .compute ∧ (p.slots k).bufferRegion = some r

section

variable (host : Nat → UInt8) (sizes : Nat → UInt32)

/-- If the tile of slot `i` enters the compute stage at its turn, the active buffer of its region then holds the bytes of
its load. -/
def Delivered (q : TuPipelineController) (i : Nat) : Prop :=
  let t := turnState q i
  let t' := (advanceSlot t i).1
  (t.slots i).stage = .dmaPreload → (t'.slots i).stage = .compute →
    ∀ r ∈ (t.slots i).bufferRegion, tuSramIsDoubleBuffered (t.dma.mem.sram r) = true →
    ∀ d ∈ (t.slots i).loadDesc, HoldsLoad host sizes (t.dma.heap d) r (tuSramRawPtr (t'.dma.mem.sram r))

/-- Before the turn at which the tile of slot `i` is loaded, the idle buffer of its region already holds the bytes. -/
def IdleHolds (q : TuPipelineController) (i : Nat) : Prop :=
  let t := turnState q i
  (t.slots i).stage = .dmaPreload →
    ∀ r ∈ (t.slots i).bufferRegion, tuSramIsDoubleBuffered (t.dma.mem.sram r) = true →
    ∀ d ∈ (t.slots i).loadDesc, (t.dma.heap d).completed = true →
    ∀ buffer ∈ (t.dma.mem.sram r).idleData, HoldsLoad host sizes (t.dma.heap d) r buffer

/-- Every load that the engine issues on its way from `e` to `e'` brings bytes that the active buffers of the busy regions
hold. -/
def NothingNew (busy : Nat → Prop) (e e' : TuDmaEngine) : Prop :=
  ∀ r, busy r → ∀ d, (e.heap d).completed = false → (e'.heap d).completed = true →
    HoldsLoad host sizes (e.heap d) r (tuSramRawPtr (e.mem.sram r))

end

/-- The active buffers of the busy regions are the same at every moment on the way from `e` to `e'`. -/
def Undisturbed (busy : Nat → Prop) (e e' : TuDmaEngine) : Prop :=
  ∀ r, busy r → ∀ e₁, Works e e₁ → Works e₁ e' → tuSramRawPtr (e₁.mem.sram r) = tuSramRawPtr (e.mem.sram r)

/-- The engine at the start of a tick. -/
def tickStart (e : TuDmaEngine) : TuDmaEngine := { e with currentCycle := u64 (e.currentCycle + 1) }

/-- The load of a tile is redirected, unless there is no pipelining. -/
def prepareLoad (p : TuPipelineController) (loadDesc bufferRegion : Option Nat) : TuPipelineController :=
  if isSequential p then p else redirectLoad p loadDesc bufferRegion

/-- The state in which a submission hands the load of its tile to the engine. -/
def loadState (p : TuPipelineController) : TuPipelineOp → Option TuPipelineController
  | .submit load store computeCycles _ bufferRegion =>
    match claimSlot (queuedTile p load store computeCycles) with
    | (c, some _) => some (prepareLoad c (newChain p.dma load).2 bufferRegion)
    | (_, none) => none
  | _ => none

/-- What double buffering is for, over one operation: a tile computes on the bytes of its load, and no load disturbs a tile
that computes. -/
structure BuffersRight (host : Nat → UInt8) (sizes : Nat → UInt32) (p : TuPipelineController) (op : TuPipelineOp) :
    Prop where
  delivered : ∀ q ∈ advanceStates p op, ∀ i < q.depth, Delivered host sizes q i
  ticks : ∀ q ∈ advanceStates p op, Undisturbed (Computes q) (tickStart q.dma) (tuDmaTick q.dma).1
  submission : ∀ c ∈ loadState p op, Undisturbed (Computes c) c.dma (p.step op).dma

/-- The contents of the buffers hide that the loads go to the wrong one. -/
structure BuffersReady (host : Nat → UInt8) (sizes : Nat → UInt32) (p : TuPipelineController) (op : TuPipelineOp) :
    Prop where
  idle : ∀ q ∈ advanceStates p op, ∀ i < q.depth, IdleHolds host sizes q i
  ticks : ∀ q ∈ advanceStates p op, NothingNew host sizes (Computes q) q.dma (tuDmaTick q.dma).1
  submission : ∀ c ∈ loadState p op, NothingNew host sizes (Computes c) c.dma (p.step op).dma

/-! ### The turn of a loaded tile -/

theorem enterCompute_sram {p : TuPipelineController} {i r : Nat} (hregion : (p.slots i).bufferRegion = some r)
    (hdouble : tuSramIsDoubleBuffered (p.dma.mem.sram r) = true) :
    (enterCompute p i).dma.mem.sram r = tuSramSwapBuffers (p.dma.mem.sram r) := by
  simp [enterCompute, setSlot, swapBuffers, doubleBuffered, hregion, hdouble]

/-- A tile computes on what the idle buffer held before its turn. -/
theorem delivered_iff (host : Nat → UInt8) (sizes : Nat → UInt32) (q : TuPipelineController) (i : Nat) :
    Delivered host sizes q i ↔ IdleHolds host sizes q i := by
  unfold Delivered IdleHolds
  dsimp only
  generalize turnState q i = t
  have hactive : ∀ r ∈ (t.slots i).bufferRegion, tuSramIsDoubleBuffered (t.dma.mem.sram r) = true →
      (t.slots i).stage = .dmaPreload → t.descDone (t.slots i).loadDesc = true →
      (t.dma.mem.sram r).idleData = some (tuSramRawPtr ((advanceSlot t i).1.dma.mem.sram r)) := by
    intro r hr hdouble hstage hdone
    rw [advanceSlot_preload hstage hdone, enterCompute_sram hr hdouble]
    exact tuSramRawPtr_swap hdouble
  constructor
  · intro h hstage r hr hdouble d hd hcompleted buffer hbuffer
    have hdone : t.descDone (t.slots i).loadDesc = true := by
      rw [Option.mem_def.1 hd]
      exact hcompleted
    have hcompute : ((advanceSlot t i).1.slots i).stage = .compute := by
      rw [advanceSlot_preload hstage hdone]
      exact (enterCompute_moved t i).1.stage_eq
    have hidle := hactive r hr hdouble hstage hdone
    rw [Option.mem_def.1 hbuffer, Option.some.injEq] at hidle
    rw [hidle]
    exact h hstage hcompute r hr hdouble d hd
  · intro h hstage hcompute r hr hdouble d hd
    have hdone := advanceSlot_compute hstage hcompute
    have hcompleted : (t.dma.heap d).completed = true := by
      rw [Option.mem_def.1 hd] at hdone
      exact hdone
    exact h hstage r hr hdouble d hd hcompleted _ (hactive r hr hdouble hstage hdone)

/-! ### Runs of load tiles -/

/-- The engine has only loads, and no tile has a store. -/
structure LoadRun (host : Nat → UInt8) (sizes : Nat → UInt32) (p : TuPipelineController) : Prop where
  engine : LoadEngine host sizes p.dma
  stores : ∀ i, (p.slots i).storeDesc = none

variable {host : Nat → UInt8} {sizes : Nat → UInt32} {p : TuPipelineController}

theorem LoadEngine.of_same {e e' : TuDmaEngine} (h : LoadEngine host sizes e) (hheap : e'.heap = e.heap)
    (hhost : e'.mem.host = e.mem.host) (hsizes : e'.mem.sizes = e.mem.sizes) : LoadEngine host sizes e' where
  loads := fun d => by
    rw [hheap]
    exact h.loads d
  host_eq := hhost.trans h.host_eq
  sizes_eq := hsizes.trans h.sizes_eq

theorem LoadEngine.tick {e : TuDmaEngine} (h : LoadEngine host sizes e) : LoadEngine host sizes (tuDmaTick e).1 := by
  have hstart : LoadEngine host sizes (tickStart e) := h.of_same rfl rfl rfl
  exact hstart.works (tuDmaTick_work e)

theorem LoadEngine.newChain {e : TuDmaEngine} (h : LoadEngine host sizes e) {descs : List TuDmaDescriptor}
    (hdescs : ∀ desc ∈ descs, desc.direction = .hostToTu) : LoadEngine host sizes (newChain e descs).1 := by
  rw [newChain_eq]
  refine ⟨fun d => ?_, h.host_eq, h.sizes_eq⟩
  show (builtHeap e.heap e.allocated descs d).direction = .hostToTu ∨
    (builtHeap e.heap e.allocated descs d).direction = .other
  unfold builtHeap
  split
  · exact h.loads d
  · split
    · exact h.loads d
    · rename_i desc hdesc
      exact Or.inl (hdescs desc (List.mem_of_getElem? hdesc))

theorem LoadEngine.prepareLoad (h : LoadEngine host sizes p.dma) (loadDesc bufferRegion : Option Nat) :
    LoadEngine host sizes (prepareLoad p loadDesc bufferRegion).dma := by
  unfold Tusim.prepareLoad redirectLoad
  split
  · exact h
  · split
    · rename_i d r
      split
      · refine ⟨fun d' => ?_, h.host_eq, h.sizes_eq⟩
        by_cases hd : d' = d
        · subst hd
          simpa [TuDmaEngine.setDesc] using h.loads d'
        · simpa [TuDmaEngine.setDesc, hd] using h.loads d'
      · exact h
    · exact h

theorem enterCompute_mem (p : TuPipelineController) (i : Nat) :
    (enterCompute p i).dma.mem.host = p.dma.mem.host ∧ (enterCompute p i).dma.mem.sizes = p.dma.mem.sizes := by
  cases hregion : (p.slots i).bufferRegion with
  | none => constructor <;> simp [enterCompute, setSlot, hregion]
  | some r =>
    by_cases hswaps : p.doubleBuffered (some r) = true
    · refine ⟨by simp [enterCompute, setSlot, swapBuffers, hregion, hswaps], funext fun r' => ?_⟩
      by_cases hr : r' = r
      · simp [enterCompute, setSlot, swapBuffers, hregion, hswaps, Memory.sizes, hr]
      · simp [enterCompute, setSlot, swapBuffers, hregion, hswaps, Memory.sizes, hr]
    · constructor <;> simp [enterCompute, setSlot, hregion, hswaps]

/-- A turn issues no load. -/
theorem LoadRun.advanceSlot (h : LoadRun host sizes p) (i : Nat) :
    LoadRun host sizes (advanceSlot p i).1 ∧ (advanceSlot p i).1.dma.heap = p.dma.heap := by
  have hothers := (advanceSlot_stage p i).2
  have hstores : ((Tusim.advanceSlot p i).1.slots i).storeDesc = none →
      ∀ j, ((Tusim.advanceSlot p i).1.slots j).storeDesc = none := by
    intro hi j
    by_cases hj : j = i
    · rwa [hj]
    · rw [hothers j hj]
      exact h.stores j
  rcases advanceSlot_cases p i with heq | ⟨_, _, heq⟩ | ⟨_, _, heq⟩ | ⟨_, _, heq⟩
  · rw [heq]
    exact ⟨h, rfl⟩
  · rw [heq] at hstores ⊢
    obtain ⟨hhost, hsizes⟩ := enterCompute_mem p i
    have hheap := (enterCompute_heap p i).1
    exact ⟨⟨h.engine.of_same hheap hhost hsizes, hstores ((enterCompute_tile p i).2.trans (h.stores i))⟩, hheap⟩
  · rw [heq] at hstores ⊢
    have hsame : (enterStore p i).dma = p.dma := by
      show (tuDmaSubmitDesc p.dma (p.slots i).storeDesc).1 = p.dma
      rw [h.stores i]
      rfl
    rw [hsame]
    refine ⟨⟨hsame ▸ h.engine, hstores ?_⟩, rfl⟩
    simp [enterStore, setSlot, h.stores i]
  · rw [heq] at hstores ⊢
    exact ⟨⟨h.engine, hstores (by simp [retireTile, setSlot])⟩, rfl⟩

theorem LoadRun.advanceSlots (h : LoadRun host sizes p) (n : Nat) :
    LoadRun host sizes (advanceSlots p n).1 ∧ (advanceSlots p n).1.dma.heap = p.dma.heap := by
  induction n with
  | zero => exact ⟨h, rfl⟩
  | succ n ih =>
    obtain ⟨hrun, hheap⟩ := ih.1.advanceSlot n
    rw [advanceSlots_succ]
    exact ⟨hrun, hheap.trans ih.2⟩

/-- An advance issues loads in its tick only. -/
theorem LoadRun.tuPipelineAdvance (h : LoadRun host sizes p) :
    LoadRun host sizes (tuPipelineAdvance p).1 ∧
      (tuPipelineAdvance p).1.dma.heap = (tuDmaTick p.dma).1.heap :=
  LoadRun.advanceSlots (p := tickDma p) ⟨h.engine.tick, h.stores⟩ p.depth

theorem LoadRun.keptWaiting : KeptWaiting (LoadRun host sizes) where
  elapseAdvance := fun p h => (LoadRun.tuPipelineAdvance (p := tickCycle p) ⟨h.engine, h.stores⟩).1
  recycle := by
    intro p i _ h
    refine ⟨h.engine, fun j => ?_⟩
    by_cases hj : j = i
    · simp [setSlot, hj]
    · simp [setSlot, hj, h.stores j]

theorem LoadRun.queuedTile (h : LoadRun host sizes p) {load : List TuDmaDescriptor}
    (hload : ∀ desc ∈ load, desc.direction = .hostToTu) (computeCycles : Nat) :
    LoadRun host sizes (queuedTile p load [] computeCycles) :=
  ⟨h.engine.newChain hload, h.stores⟩

theorem placeTile_stores (h : ∀ j, (p.slots j).storeDesc = none) (i : Nat) (loadDesc : Option Nat) (computeCycles : Nat)
    (cmdId : UInt32) (bufferRegion : Option Nat) (loadCycles : Nat) :
    ∀ j, ((placeTile p i loadDesc none computeCycles cmdId bufferRegion loadCycles).slots j).storeDesc = none := by
  intro j
  rw [placeTile_eq]
  dsimp only
  by_cases hj : j = i
  · rw [hj, Function.update_self]
  · rw [Function.update_of_ne hj]
    exact h j

theorem LoadRun.step (h : LoadRun host sizes p) {op : TuPipelineOp} (hop : LoadTileOp op) :
    LoadRun host sizes (p.step op) := by
  cases op with
  | submit load store computeCycles cmdId bufferRegion =>
    obtain ⟨rfl, hload⟩ := hop
    have hclaim := (LoadRun.keptWaiting.claimSlot (h.queuedTile hload computeCycles)).1
    rcases submit_cases p load [] computeCycles cmdId bufferRegion with ⟨i, _, _, heq⟩ | ⟨_, _, heq⟩
    · rw [heq]
      exact ⟨(hclaim.engine.prepareLoad _ _).works (tuDmaSubmitDesc_work _ _), placeTile_stores hclaim.stores _ _ _ _ _ _⟩
    · rw [heq]
      exact ⟨hclaim.engine, hclaim.stores⟩
  | advance => exact h.tuPipelineAdvance.1
  | sync => exact LoadRun.keptWaiting.syncLoop _ h
  | elapse cycles => exact ⟨h.engine, h.stores⟩
  | dma op => exact absurd hop id

theorem LoadRun.advanceStates (h : LoadRun host sizes p) {op : TuPipelineOp} (hop : LoadTileOp op) :
    ∀ q ∈ advanceStates p op, LoadRun host sizes q := by
  have htick : ∀ q, LoadRun host sizes q → LoadRun host sizes (tickCycle q) := fun q hq => ⟨hq.engine, hq.stores⟩
  cases op with
  | submit load store computeCycles cmdId bufferRegion =>
    obtain ⟨rfl, hload⟩ := hop
    exact LoadRun.keptWaiting.submitStates htick (h.queuedTile hload computeCycles)
  | advance =>
    intro q hq
    rwa [List.mem_singleton.1 hq]
  | sync => exact LoadRun.keptWaiting.syncStates htick _ h
  | elapse cycles => exact fun q hq => absurd hq List.not_mem_nil
  | dma op => exact absurd hop id

/-- The submission from the prepared state is the rest of the step. -/
theorem LoadRun.loadState (h : LoadRun host sizes p) {op : TuPipelineOp} (hop : LoadTileOp op) :
    ∀ c ∈ loadState p op, LoadEngine host sizes c.dma ∧ Works c.dma (p.step op).dma := by
  cases op with
  | submit load store computeCycles cmdId bufferRegion =>
    obtain ⟨rfl, hload⟩ := hop
    intro c hc
    have hclaim := (LoadRun.keptWaiting.claimSlot (h.queuedTile hload computeCycles)).1
    unfold Tusim.loadState at hc
    dsimp only at hc
    rcases submit_cases p load [] computeCycles cmdId bufferRegion with ⟨i, hsome, _, heq⟩ | ⟨hnone, _, heq⟩
    · rw [show claimSlot (Tusim.queuedTile p load [] computeCycles) = (_, some i) from Prod.ext rfl hsome] at hc
      cases hc
      rw [heq]
      exact ⟨hclaim.engine.prepareLoad _ _, tuDmaSubmitDesc_work _ _⟩
    · rw [show claimSlot (Tusim.queuedTile p load [] computeCycles) = (_, none) from Prod.ext rfl hnone] at hc
      cases hc
  | advance | sync | elapse cycles => exact fun c hc => by cases hc
  | dma op => exact absurd hop id

theorem NothingNew.undisturbed {busy : Nat → Prop} {e e' : TuDmaEngine} (h : NothingNew host sizes busy e e')
    (hload : LoadEngine host sizes e) : Undisturbed busy e e' :=
  fun r hr _ hbefore hafter => hbefore.undisturbed hafter hload (h r hr)

theorem BuffersReady.right {op : TuPipelineOp} (h : BuffersReady host sizes p op) (hrun : LoadRun host sizes p)
    (hop : LoadTileOp op) : BuffersRight host sizes p op where
  delivered := fun q hq i hi => (delivered_iff host sizes q i).2 (h.idle q hq i hi)
  ticks := by
    intro q hq
    have hstart : LoadEngine host sizes (tickStart q.dma) :=
      (hrun.advanceStates hop q hq).engine.of_same rfl rfl rfl
    exact NothingNew.undisturbed (h.ticks q hq) hstart
  submission := fun c hc => (h.submission c hc).undisturbed (hrun.loadState hop c hc).1

theorem LoadRun.init (cfg : TuDmaConfig) (mem : Memory) (buffers : Nat → TuSramBuffers) (depth : UInt32)
    (config : TuPipelineConfig) :
    LoadRun mem.host mem.sizes (tuPipelineInit (.fresh cfg mem) buffers depth config) where
  engine := ⟨fun _ => Or.inr rfl, rfl, rfl⟩
  stores := fun _ => rfl

/-- In a run of load tiles a tile computes on the bytes of its load exactly if the idle buffer of its region held them
before its turn, and no tick changes an idle buffer.  In every run in which the buffers hide it, each tile computes on the
bytes of its load, and no load disturbs a tile that computes. -/
theorem run_buffers (cfg : TuDmaConfig) (mem : Memory) (buffers : Nat → TuSramBuffers) (depth : UInt32)
    (config : TuPipelineConfig) (ops : List TuPipelineOp) (hops : ∀ op ∈ ops, LoadTileOp op) :
    let init := tuPipelineInit (.fresh cfg mem) buffers depth config
    (∀ past op rest, ops = past ++ op :: rest →
      ∀ q ∈ advanceStates (Run.exec TuPipelineController.step init past) op,
        (∀ i < q.depth, Delivered mem.host mem.sizes q i ↔ IdleHolds mem.host mem.sizes q i) ∧
        (∀ r, ((tuDmaTick q.dma).1.mem.sram r).idleData = (q.dma.mem.sram r).idleData) ∧
        (tuPipelineAdvance q).1.dma.heap = (tuDmaTick q.dma).1.heap) ∧
    (Run.Along (BuffersReady mem.host mem.sizes) TuPipelineController.step init ops →
      ∀ past op rest, ops = past ++ op :: rest →
        BuffersRight mem.host mem.sizes (Run.exec TuPipelineController.step init past) op) := by
  intro init
  have hrun : ∀ past op rest, ops = past ++ op :: rest →
      LoadRun mem.host mem.sizes (Run.exec TuPipelineController.step init past) ∧ LoadTileOp op := by
    intro past op rest heq
    have hpast : Run.Along (fun _ op => LoadTileOp op) TuPipelineController.step init past :=
      .of_forall (fun op hop _ => hops op (heq ▸ List.mem_append_left _ hop)) init
    refine ⟨hpast.invariant (fun _ _ hp hop => hp.step hop) (LoadRun.init cfg mem buffers depth config), ?_⟩
    exact hops op (heq ▸ List.mem_append_right past List.mem_cons_self)
  constructor
  · intro past op rest heq q hq
    obtain ⟨hp, hop⟩ := hrun past op rest heq
    have hq' := hp.advanceStates hop q hq
    refine ⟨fun i _ => delivered_iff _ _ q i, fun r => ?_, hq'.tuPipelineAdvance.2⟩
    exact (tuDmaTick_work q.dma).idleData r
  · intro h past op rest heq
    obtain ⟨hp, hop⟩ := hrun past op rest heq
    subst heq
    exact BuffersReady.right (Run.along_append.1 h).2.1 hp hop

/-- The idle buffer happens to hold the bytes of the load. -/
theorem run_buffers_idle :
    let cfg : TuDmaConfig :=
      { asyncMode := false, numChannels := 1, maxDepth := 4, numChannels_pos := by decide,
        numChannels_le := by decide, maxDepth_pos := by decide }
    let db : TuDoubleBuffer := { enabled := true, activeIdx := 0, shadowData := fun _ => 7 }
    let mem : Memory := { sram := fun r => { (Memory.zero 16).sram r with db := some db }, host := fun _ => 7 }
    let load := tuDmaDescCreateLinear 1 0 .hostToTu (some 0) 0 (some 0) 4 1
    let init := tuPipelineInit (.fresh cfg mem) (fun _ => ⟨0, 16⟩) 2 {}
    let p := Run.exec TuPipelineController.step init [.submit [load] [] 5 0 (some 0)]
    ∀ i < p.depth, Delivered mem.host mem.sizes p i := by
  intro cfg db mem load init p
  have hquiet : (advanceStates init (.submit [load] [] 5 0 (some 0))).length = 0 := by decide +kernel
  have hidle : ∀ c ∈ loadState init (.submit [load] [] 5 0 (some 0)),
      ∀ k < c.depth, (c.slots k).stage ≠ .compute := by decide +kernel
  have hidle' : ∀ k < p.depth, (p.slots k).stage ≠ .compute := by decide +kernel
  have hholds : ∀ i < p.depth, IdleHolds mem.host mem.sizes p i := by
    have hbytes : ∀ buffer ∈ ((turnState p 0).dma.mem.sram 0).idleData,
        ∀ k < ((turnState p 0).dma.heap 0).totalBytes.toNat,
          buffer (((turnState p 0).dma.heap 0).dstBase.toNat + k) = mem.host (0 + k) := by decide +kernel
    have hload : ((turnState p 0).dma.heap 0).type = .linear ∧ ((turnState p 0).dma.heap 0).direction = .hostToTu ∧
        ((turnState p 0).dma.heap 0).srcHost = some 0 ∧ ((turnState p 0).dma.heap 0).dstRegion = some 0 := by
      decide +kernel
    have hslot : ((turnState p 0).slots 0).bufferRegion = some 0 ∧ ((turnState p 0).slots 0).loadDesc = some 0 ∧
        ((turnState p 1).slots 1).stage = .idle := by decide +kernel
    have hdepth : p.depth = 2 := by decide +kernel
    rintro i hi hstage r hr - d hd - buffer hbuffer
    rcases (show i = 0 ∨ i = 1 by omega) with rfl | rfl
    · cases hslot.1.symm.trans hr
      cases hslot.2.1.symm.trans hd
      exact (holdsLoad_linear hload.1 hload.2.1 hload.2.2.1 hload.2.2.2).2 (hbytes buffer hbuffer)
    · rw [hslot.2.2] at hstage
      cases hstage
  have hready : Run.Along (BuffersReady mem.host mem.sizes) TuPipelineController.step init
      [.submit [load] [] 5 0 (some 0), .advance] := by
    refine ⟨⟨?_, ?_, ?_⟩, ⟨?_, ?_, ?_⟩, trivial⟩
    · rw [List.eq_nil_of_length_eq_zero hquiet]
      exact fun q hq => absurd hq List.not_mem_nil
    · rw [List.eq_nil_of_length_eq_zero hquiet]
      exact fun q hq => absurd hq List.not_mem_nil
    · rintro c hc r ⟨-, k, hk, hstage, -⟩
      exact absurd hstage (hidle c hc k hk)
    · intro q hq
      rw [List.mem_singleton.1 hq]
      exact hholds
    · intro q hq
      rw [List.mem_singleton.1 hq]
      rintro r ⟨-, k, hk, hstage, -⟩
      exact absurd hstage (hidle' k hk)
    · exact fun c hc => by cases hc
  have hloads : ∀ op ∈ [.submit [load] [] 5 0 (some 0), .advance], LoadTileOp op := by
    intro op hop
    rcases List.mem_cons.1 hop with rfl | hop
    · exact ⟨rfl, fun desc hdesc => by rw [List.mem_singleton.1 hdesc]; rfl⟩
    · rw [List.mem_singleton.1 hop]
      trivial
  have hright := (run_buffers cfg mem (fun _ => ⟨0, 16⟩) 2 {} _ hloads).2 hready
    [.submit [load] [] 5 0 (some 0)] .advance [] rfl
  exact hright.delivered p (List.mem_singleton_self p)

/-- A zeroed double buffer: the bytes `7` are loaded, and the tile computes on zeros. -/
theorem not_delivered_zero :
    let cfg : TuDmaConfig :=
      { asyncMode := false, numChannels := 1, maxDepth := 4, numChannels_pos := by decide,
        numChannels_le := by decide, maxDepth_pos := by decide }
    let db : TuDoubleBuffer := { enabled := true, activeIdx := 0, shadowData := fun _ => 0 }
    let mem : Memory := { sram := fun r => { (Memory.zero 16).sram r with db := some db }, host := fun _ => 7 }
    let load := tuDmaDescCreateLinear 1 0 .hostToTu (some 0) 0 (some 0) 4 1
    let init := tuPipelineInit (.fresh cfg mem) (fun _ => ⟨0, 16⟩) 2 {}
    let p := Run.exec TuPipelineController.step init [.submit [load] [] 5 0 (some 0)]
    p ∈ advanceStates p .advance ∧ ¬ ∀ i < p.depth, Delivered mem.host mem.sizes p i := by
  intro cfg db mem load init p
  refine ⟨List.mem_singleton_self p, fun h => ?_⟩
  have hslot : ((turnState p 0).slots 0).bufferRegion = some 0 ∧ ((turnState p 0).slots 0).loadDesc = some 0 ∧
      ((turnState p 0).slots 0).stage = .dmaPreload ∧
      ((advanceSlot (turnState p 0) 0).1.slots 0).stage = .compute := by decide +kernel
  have hload : ((turnState p 0).dma.heap 0).type = .linear ∧ ((turnState p 0).dma.heap 0).direction = .hostToTu ∧
      ((turnState p 0).dma.heap 0).srcHost = some 0 ∧ ((turnState p 0).dma.heap 0).dstRegion = some 0 := by
    decide +kernel
  have hdouble : tuSramIsDoubleBuffered ((turnState p 0).dma.mem.sram 0) = true := by decide +kernel
  have hholds := h 0 p.depth_pos hslot.2.2.1 hslot.2.2.2 0 hslot.1 hdouble 0 hslot.2.1
  have hbytes := (holdsLoad_linear hload.1 hload.2.1 hload.2.2.1 hload.2.2.2).1 hholds 0 (by decide +kernel)
  exact absurd hbytes (by decide +kernel)

end Tusim
