import Tusim.Context.Table

/-!
# A restored context continues

Whatever is done with other contexts and with the core, every context that can be restored was saved from some state and
a restore continues from it (`Resumable`, an invariant of the manager).  So with the full-SRAM scope a restored context
finds its SRAM, its counters and its configuration as they were when it was last saved.  Double buffers are switched off,
and what was in the shadow buffer is not saved: reads are the same if they were served by the primary buffer.
-/

namespace Tusim

open TuCtxManager Blocks

variable {D C : Type} [Zero D] [Zero C]

/-- Every context that may be restored, now or once it is unblocked, can be continued. -/
def Resumable (mgr : TuCtxManager D C) : Prop :=
  ∀ i, mgr.stateOf i = .ready ∨ mgr.stateOf i = .blocked → SavedFrom mgr.cfg.toTuCtxRetention (mgr.contexts i)

/-- The reads of `r` that its primary buffer serves. -/
def SameReads (r r' : TuCoreRegion) : Prop :=
  PrimaryActive r → ∀ addr bytes, tuSramReadBulk r' addr bytes = tuSramReadBulk r addr bytes

/-- Context `id` has the core and continues from the state it was last saved from. -/
def Continues (mgr : TuCtxManager D C) (id : Nat) : Prop :=
  ∃ s, (mgr.contexts id).savedFrom = some s ∧ Resumes s mgr.core ∧
    SameReads s.sramW mgr.core.sramW ∧ SameReads s.sramA mgr.core.sramA ∧ SameReads s.sramO mgr.core.sramO

/-- If the call restores a context, this context continues. -/
def Transparent (mgr : TuCtxManager D C) (e : CtxCall D C × CtxEnv D C) : Prop :=
  match e.1 with
  | .restore id => (tuCtxRestore mgr id.toNat).2 = true → Continues (mgr.step e) id.toNat
  | .switch id => (tuCtxSwitch e.2 mgr id.toNat).2 = true → Continues (mgr.step e) id.toNat
  | .requestSwitch => (tuCtxRequestSwitch e.2 mgr).2 = true → Continues (mgr.step e) (mgr.step e).activeCtxId.toNat
  | _ => True

/-- A successful switch names its target active. -/
theorem tuCtxSwitch_activeCtxId (env : CtxEnv D C) (mgr : TuCtxManager D C) {id : Nat}
    (hok : (tuCtxSwitch env mgr id).2 = true) : (tuCtxSwitch env mgr id).1.activeCtxId = UInt32.ofNat id := by
  unfold tuCtxSwitch at hok ⊢
  dsimp only at hok ⊢
  split at hok
  · simp at hok
  · rename_i hsaved
    rw [if_neg hsaved]
    rcases tuCtxRestore_cases (switchSave env mgr).1 id with ⟨hrestore, -⟩ | ⟨-, mgr', hrestore, -, htable, -⟩
    · rw [hrestore] at hok
      simp at hok
    · rw [hrestore]
      exact congrArg CtxTable.activeId htable

namespace Resumable

variable {mgr : TuCtxManager D C}

theorem of_eq {mgr' : TuCtxManager D C} (h : Resumable mgr) (hcfg : mgr'.cfg = mgr.cfg)
    (hcontexts : mgr'.contexts = mgr.contexts) : Resumable mgr' := by
  intro i hi
  unfold stateOf at hi
  rw [hcontexts] at hi
  rw [hcfg, hcontexts]
  exact h i hi

/-- A context that cannot be restored, or can be continued, takes the place of another. -/
theorem replace {mgr' : TuCtxManager D C} (h : Resumable mgr) (id : Nat) (hcfg : mgr'.cfg = mgr.cfg)
    (hothers : ∀ i, i ≠ id → mgr'.contexts i = mgr.contexts i)
    (hid : mgr'.stateOf id = .ready ∨ mgr'.stateOf id = .blocked →
      SavedFrom mgr.cfg.toTuCtxRetention (mgr'.contexts id)) : Resumable mgr' := by
  intro i hi
  rw [hcfg]
  by_cases hne : i = id
  · rw [hne] at hi ⊢
    exact hid hi
  · unfold stateOf at hi
    rw [hothers i hne] at hi ⊢
    exact h i hi

theorem setContext (h : Resumable mgr) (id : Nat) (ctx : TuContextDesc D C)
    (hctx : ctx.state = .ready ∨ ctx.state = .blocked → SavedFrom mgr.cfg.toTuCtxRetention ctx) :
    Resumable (mgr.setContext id ctx) := by
  refine h.replace id (show (mgr.setContext id ctx).cfg = mgr.cfg from rfl) (fun i hi => ?_) ?_
  · unfold TuCtxManager.setContext
    exact Function.update_of_ne hi ctx mgr.contexts
  · unfold stateOf
    rw [setContext_contexts_self]
    exact hctx

theorem save (h : Resumable mgr) (env : CtxEnv D C) : Resumable (tuCtxSave env mgr).1 := by
  rcases tuCtxSave_cases env mgr with ⟨hsave, -⟩ | ⟨-, ctx, ⟨hstate, hsave⟩ | ⟨-, hctx, hsave⟩⟩
  · rw [hsave]
    exact h
  · rw [hsave]
    apply Resumable.setContext (show Resumable { mgr with core := env.coreSync mgr.core } from h)
    rw [hstate]
    simp
  · rw [hsave]
    exact Resumable.setContext (show Resumable { mgr with core := env.coreSync mgr.core } from h) _ ctx fun _ => hctx

theorem switchSave (h : Resumable mgr) (env : CtxEnv D C) : Resumable (switchSave env mgr).1 := by
  by_cases hrunning : mgr.Running
  · rw [switchSave_of_running env mgr hrunning]
    exact h.save env
  · rw [switchSave_of_not_running env mgr hrunning]
    exact h

theorem restore (h : Resumable mgr) (id : Nat) : Resumable (tuCtxRestore mgr id).1 := by
  rcases tuCtxRestore_cases mgr id with ⟨hrestore, -⟩ | ⟨-, mgr', hrestore, hcfg, htable, -, hothers, -⟩
  · rw [hrestore]
    exact h
  · rw [hrestore]
    apply h.replace id hcfg hothers
    have hactive : mgr'.stateOf id = .active := by
      rw [show mgr'.stateOf id = (mgr.table.set id .active).states id from congrArg (CtxTable.states · id) htable,
        CtxTable.set_states, Function.update_self]
    rw [hactive]
    simp

theorem switch (h : Resumable mgr) (env : CtxEnv D C) (id : Nat) : Resumable (tuCtxSwitch env mgr id).1 := by
  unfold tuCtxSwitch
  dsimp only
  split
  · exact h.switchSave env
  · exact (h.switchSave env).restore id

theorem alloc (h : Resumable mgr) (env : CtxEnv D C) : Resumable (tuCtxAlloc env mgr).1 := by
  rcases tuCtxAlloc_cases env mgr with hsame | ⟨i, -, -, ⟨ctx, hstate, hset⟩ | ⟨mgr', halloc, hcfg, -, -, hothers, hctx⟩⟩
  · rw [hsame]
    exact h
  · rw [hset]
    apply h.setContext
    rw [hstate]
    simp
  · rw [halloc]
    exact h.replace i hcfg hothers fun _ => hctx

theorem free (h : Resumable mgr) (env : CtxEnv D C) (id : Nat) : Resumable (tuCtxFree env mgr id) := by
  have hfreed : ∀ m : TuCtxManager D C, Resumable m → Resumable (m.setContext id { ctxId := id }) := by
    intro m hm
    apply hm.setContext
    simp
  unfold tuCtxFree
  split
  · exact h
  · dsimp only
    have hsaved : Resumable (if mgr.stateOf id = .active then (tuCtxSave env mgr).1 else mgr) := by
      split
      · exact h.save env
      · exact h
    generalize (if mgr.stateOf id = .active then (tuCtxSave env mgr).1 else mgr) = m at hsaved ⊢
    split
    · exact hsaved
    · split
      · exact (hfreed m hsaved).of_eq rfl rfl
      · exact hfreed m hsaved

theorem block (h : Resumable mgr) (env : CtxEnv D C) : Resumable (tuCtxBlockCurrent env mgr).1 := by
  unfold tuCtxBlockCurrent
  rcases tuCtxSave_cases env mgr with ⟨hsave, -⟩ | ⟨hrunning, ctx, ⟨-, hsave⟩ | ⟨-, hctx, hsave⟩⟩
  · rw [hsave]
    exact h
  · have h' := h.save env
    rw [hsave] at h' ⊢
    exact h'
  · have h' := h.save env
    rw [hsave] at h' ⊢
    dsimp only
    split
    · exact h'
    · split
      · -- the blocked context is the one that was saved
        apply h'.setContext
        intro _
        show SavedFrom mgr.cfg.toTuCtxRetention
          { Function.update mgr.contexts mgr.activeCtxId.toNat ctx mgr.activeCtxId.toNat with state := .blocked }
        rw [Function.update_self]
        exact hctx
      · exact h'

theorem unblock (h : Resumable mgr) (id : Nat) : Resumable (tuCtxUnblock mgr id).1 := by
  unfold tuCtxUnblock
  split
  · exact h
  · dsimp only
    split
    · rename_i hblocked
      exact h.setContext id _ fun _ => h id (Or.inr hblocked)
    · exact h

/-! ### Runs -/

theorem step (h : Resumable mgr) (e : CtxCall D C × CtxEnv D C) : Resumable (mgr.step e) := by
  obtain ⟨call, env⟩ := e
  cases call with
  | alloc => exact h.alloc env
  | free id => exact h.free env id.toNat
  | save => exact h.save env
  | restore id => exact h.restore id.toNat
  | switch id => exact h.switch env id.toNat
  | requestSwitch =>
    show Resumable (tuCtxRequestSwitch env mgr).1
    unfold tuCtxRequestSwitch
    split
    · exact h
    · exact h.switch env _
  | blockCurrent => exact h.block env
  | unblock id => exact h.unblock id.toNat
  | setPriority id priority =>
    show Resumable (if id.toNat < mgr.maxContexts ∧ mgr.stateOf id.toNat ≠ .idle then
      mgr.setContext id.toNat { mgr.contexts id.toNat with priority := priority } else mgr)
    split
    · exact h.setContext id.toNat _ fun hstate => h id.toNat hstate
    · exact h
  | useCore op => exact h.of_eq rfl rfl

theorem create {core : TuState D C} {cfg : TuCtxManagerConfig} (h : tuCtxManagerCreate core cfg = some mgr) :
    Resumable mgr ∧ mgr.cfg = cfg := by
  unfold tuCtxManagerCreate at h
  split at h
  · obtain rfl := Option.some.inj h
    exact ⟨fun i hi => by simp [stateOf] at hi, rfl⟩
  · simp at h

/-- A restored context continues from what it was saved from. -/
theorem continues (h : Resumable mgr) (hscope : mgr.cfg.saveScope = .fullSram) {id : Nat}
    (hok : (tuCtxRestore mgr id).2 = true) : Continues (tuCtxRestore mgr id).1 id := by
  rcases tuCtxRestore_cases mgr id with ⟨hrestore, -⟩ | ⟨⟨-, hready⟩, mgr', hrestore, -, -, hcore, -, hsavedFrom⟩
  · rw [hrestore] at hok
    simp at hok
  · rw [hrestore]
    obtain ⟨s, hs, hresumes⟩ := h id (Or.inl hready)
    have hresumes := hresumes hscope mgr.core
    rw [← hcore] at hresumes
    exact ⟨s, hsavedFrom.trans hs, hresumes, hresumes.sramW.read, hresumes.sramA.read, hresumes.sramO.read⟩

theorem continues_switch (h : Resumable mgr) (hscope : mgr.cfg.saveScope = .fullSram) (env : CtxEnv D C) {id : Nat}
    (hok : (tuCtxSwitch env mgr id).2 = true) : Continues (tuCtxSwitch env mgr id).1 id := by
  have hcfg := (switchSave_table env mgr).1
  unfold tuCtxSwitch at hok ⊢
  dsimp only at hok ⊢
  split at hok
  · simp at hok
  · rename_i hsaved
    rw [if_neg hsaved]
    exact (h.switchSave env).continues (hcfg ▸ hscope) hok

theorem transparent {mgr : TuCtxManager D C} (h : Resumable mgr) (hscope : mgr.cfg.saveScope = .fullSram)
    (e : CtxCall D C × CtxEnv D C) : Transparent mgr e := by
  obtain ⟨call, env⟩ := e
  cases call with
  | restore id => exact fun hok => h.continues hscope hok
  | switch id => exact fun hok => h.continues_switch hscope env hok
  | requestSwitch =>
    show (tuCtxRequestSwitch env mgr).2 = true →
      Continues (tuCtxRequestSwitch env mgr).1 (tuCtxRequestSwitch env mgr).1.activeCtxId.toNat
    unfold tuCtxRequestSwitch
    cases hnext : tuCtxScheduleNext mgr with
    | none => exact fun hok => absurd hok (by simp)
    | some id =>
      intro hok
      have hlt := Nat.lt_trans (tuCtxScheduleNext_ready mgr hnext).1 mgr.cfg.maxContexts.toNat_lt
      dsimp only at hok ⊢
      rw [tuCtxSwitch_activeCtxId env mgr hok, UInt32.toNat_ofNat_of_lt' hlt]
      exact h.continues_switch hscope env hok
  | _ => trivial

end Resumable

/-- With the full-SRAM scope, in every run of a new manager on any core: whenever a context is restored it continues from
the state it was last saved from. -/
theorem contextSwitch_transparent {core : TuState D C} {cfg : TuCtxManagerConfig} {mgr : TuCtxManager D C}
    (h : tuCtxManagerCreate core cfg = some mgr) (hscope : cfg.saveScope = .fullSram)
    (es : List (CtxCall D C × CtxEnv D C)) : Run.Along Transparent TuCtxManager.step mgr es := by
  obtain ⟨hresumable, hcfg⟩ := Resumable.create h
  refine Run.Along.of_invariant (I := fun mgr => Resumable mgr ∧ mgr.cfg.saveScope = .fullSram) ?_ ?_ ⟨hresumable, ?_⟩ es
  · rintro mgr e ⟨hmgr, hscope⟩
    exact ⟨hmgr.step e, (TuCtxManager.step_cfg mgr e).symm ▸ hscope⟩
  · rintro mgr e ⟨hmgr, hscope⟩
    exact hmgr.transparent hscope e
  · rw [hcfg]
    exact hscope

/-- A use of the core: a change of the W region through its raw pointer or by a function of its double buffer. -/
def onSramW (f : TuSramRegion → TuSramRegion) : CtxCall D C :=
  .useCore fun s => { s with sramW := { s.sramW with toTuSramRegion := f s.sramW.toTuSramRegion } }

/-- Store a byte through `tu_sram_raw_ptr`. -/
def storeFirst (v : UInt8) (r : TuSramRegion) : TuSramRegion := r.setRaw (memcpy (tuSramRawPtr r) 0 (fun _ => v) 1)

theorem transparent_stores :
    ∃ mgr, tuCtxManagerCreate (TuState.fresh Nat Nat 16) twoContexts = some mgr ∧
      Run.Along Transparent TuCtxManager.step mgr
        ([.alloc, .alloc, onSramW (storeFirst 7), .switch 1, onSramW (storeFirst 9), .switch 0].map (quiet Nat Nat)) :=
  ⟨_, rfl, contextSwitch_transparent (show tuCtxManagerCreate (TuState.fresh Nat Nat 16) twoContexts = some _ from rfl)
    rfl _⟩

/-- One read is metered in bank 0. -/
def meterRead (r : TuSramRegion) : TuSramRegion :=
  let bw := r.banks.bwBanks 0
  { r with banks := { r.banks with
      bwBanks := Function.update r.banks.bwBanks 0
        { bw with wordsAvailable := bw.wordsAvailable - 1, readsServed := bw.readsServed + 1 } } }

/-- Context 0 is saved while the shadow buffer is the active one: a read that gave 7 gives 0 when it is restored.  And
what context 1 reads is on the meter of bank 0 when context 0 is restored. -/
theorem doubleBuffer_not_transparent :
    ∃ mgr, tuCtxManagerCreate (TuState.fresh Nat Nat 16) twoContexts = some mgr ∧
      (let mgr' := Run.exec TuCtxManager.step mgr
        ([.alloc, .alloc, onSramW tuSramEnableDoubleBuffer, onSramW tuSramSwapBuffers, onSramW (storeFirst 7), .switch 1,
          .switch 0].map (quiet Nat Nat))
       mgr'.activeCtxId = 0 ∧ mgr'.stateOf 0 = .active ∧
        ∃ s, (mgr'.contexts 0).savedFrom = some s ∧ tuSramReadBulk s.sramW 0 1 = some [7] ∧
          tuSramReadBulk mgr'.core.sramW 0 1 = some [0]) ∧
      (let mgr' := Run.exec TuCtxManager.step mgr
        ([.alloc, .alloc, .switch 1, onSramW meterRead, .switch 0].map (quiet Nat Nat))
       mgr'.activeCtxId = 0 ∧ mgr'.stateOf 0 = .active ∧
        ∃ s, (mgr'.contexts 0).savedFrom = some s ∧ (s.sramW.banks.bwBanks 0).readsServed = 0 ∧
          (mgr'.core.sramW.banks.bwBanks 0).readsServed = 1) :=
  ⟨_, rfl, ⟨by decide, by decide, _, rfl, by decide, by decide⟩, by decide, by decide, _, rfl, by decide, by decide⟩

end Tusim
