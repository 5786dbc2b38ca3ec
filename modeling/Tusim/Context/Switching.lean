import Tusim.Context.Table

/-!
# Switches that fail

`tu_ctx_switch` saves the running context before it looks at the target.  If the target then turns out not to be ready,
the switch fails with the running context parked and its saved bytes pending, to be charged to a later switch.  A failed
switch is harmless in exactly the other cases (`failureHarmless_iff`); the target of `tu_ctx_request_switch` is always
ready, so only `tu_ctx_switch` is concerned.
-/

namespace Tusim

open TuCtxManager

variable {D C : Type} [Zero D] [Zero C]

/-- The running context still runs and no overhead was accounted or is pending. -/
structure NoEffect (mgr mgr' : TuCtxManager D C) : Prop where
  active : ∀ i, mgr.stateOf i = .active → mgr'.stateOf i = .active
  activeCtxId : mgr'.activeCtxId = mgr.activeCtxId
  activeCount : mgr'.activeCount = mgr.activeCount
  totalCyclesStolen : mgr'.totalCyclesStolen = mgr.totalCyclesStolen
  pendingSaveBytes : mgr'.pendingSaveBytes = mgr.pendingSaveBytes

/-- A switch that fails has no effect. -/
def FailureHarmless (mgr : TuCtxManager D C) (e : CtxCall D C × CtxEnv D C) : Prop :=
  match e.1 with
  | .switch id => (tuCtxSwitch e.2 mgr id.toNat).2 = false → NoEffect mgr (tuCtxSwitch e.2 mgr id.toNat).1
  | .requestSwitch => (tuCtxRequestSwitch e.2 mgr).2 = false → NoEffect mgr (tuCtxRequestSwitch e.2 mgr).1
  | _ => True

/-- Every allocation that a save of `s` needs succeeds. -/
def SaveHeap.Suffices (heap : SaveHeap) (ret : TuCtxRetention) (s : TuState D C) : Prop :=
  (ctxScopeBytes ret.saveScope ret.liveWBytes s.sramW.totalSize > 0 → heap.w = true) ∧
    (ctxScopeBytes ret.saveScope ret.liveABytes s.sramA.totalSize > 0 → heap.a = true) ∧
    (ctxScopeBytes ret.saveScope ret.liveOBytes s.sramO.totalSize > 0 → heap.o = true)

/-- If the running context can be saved, the target of a switch can be restored. -/
def TargetRestorable (mgr : TuCtxManager D C) (e : CtxCall D C × CtxEnv D C) : Prop :=
  match e.1 with
  | .switch id => mgr.Running → e.2.heap.Suffices mgr.cfg.toTuCtxRetention (e.2.coreSync mgr.core) →
      id.toNat < mgr.maxContexts ∧ (mgr.stateOf id.toNat = .ready ∨ id = mgr.activeCtxId)
  | _ => True

theorem NoEffect.refl (mgr : TuCtxManager D C) : NoEffect mgr mgr := ⟨fun _ h => h, rfl, rfl, rfl, rfl⟩

/-! ### One switch -/

theorem ctxCopySramData_copied (dst : TuSavedRegion) (src : TuCoreRegion) (copyBytes : UInt32) (malloc : Bool) :
    (ctxCopySramData dst src copyBytes malloc).2 = true ↔ (copyBytes > 0 → malloc = true) := by
  unfold ctxCopySramData
  split
  · rename_i h
    simp [h.1, h.2]
  · rename_i h
    simp only [true_iff]
    intro hpos
    by_contra hmalloc
    exact h ⟨hpos, by simpa using hmalloc⟩

theorem ctxSaveFullState_saved (ret : TuCtxRetention) (ctx : TuContextDesc D C) (s : TuState D C) (heap : SaveHeap) :
    (ctxSaveFullState ret ctx s heap).2 = true ↔ heap.Suffices ret s := by
  have hw := ctxCopySramData_copied (ctxFreeSramData ctx.hwState.sramW) s.sramW
    (ctxScopeBytes ret.saveScope ret.liveWBytes s.sramW.totalSize) heap.w
  have ha := ctxCopySramData_copied (ctxFreeSramData ctx.hwState.sramA) s.sramA
    (ctxScopeBytes ret.saveScope ret.liveABytes s.sramA.totalSize) heap.a
  have ho := ctxCopySramData_copied (ctxFreeSramData ctx.hwState.sramO) s.sramO
    (ctxScopeBytes ret.saveScope ret.liveOBytes s.sramO.totalSize) heap.o
  unfold SaveHeap.Suffices
  rw [← hw, ← ha, ← ho]
  unfold ctxSaveFullState
  dsimp only
  split
  · rename_i h
    simp_all
  · split
    · simp_all
    · split <;> simp_all

variable (env : CtxEnv D C) (mgr : TuCtxManager D C)

theorem tuCtxSave_saved :
    (tuCtxSave env mgr).2 = true ↔
      mgr.Running ∧ env.heap.Suffices mgr.cfg.toTuCtxRetention (env.coreSync mgr.core) := by
  unfold tuCtxSave Running
  rw [← ctxSaveFullState_saved mgr.cfg.toTuCtxRetention (mgr.contexts mgr.activeCtxId.toNat)]
  dsimp only
  by_cases hlt : mgr.activeCtxId.toNat < mgr.maxContexts
  · rw [if_neg (by omega)]
    by_cases hactive : mgr.stateOf mgr.activeCtxId.toNat = .active
    · rw [if_neg (by simpa using hactive)]
      split
      · rename_i h
        simp_all
      · rename_i h
        simp_all
    · rw [if_pos hactive]
      simp [hactive]
  · rw [if_pos (by omega)]
    simp [hlt]

/-- A failed save leaves the context running. -/
theorem tuCtxSave_noEffect (h : (tuCtxSave env mgr).2 = false) : NoEffect mgr (tuCtxSave env mgr).1 := by
  rcases tuCtxSave_cases env mgr with ⟨hsave, -⟩ | ⟨hrunning, ctx, ⟨hstate, hsave⟩ | ⟨-, -, hsave⟩⟩
  · rw [hsave]
    exact NoEffect.refl mgr
  · rw [hsave]
    refine ⟨fun i hi => ?_, rfl, rfl, rfl, rfl⟩
    have htable := table_setContext { mgr with core := env.coreSync mgr.core } mgr.activeCtxId.toNat ctx
    have hsame : (mgr.table.set mgr.activeCtxId.toNat ctx.state) = mgr.table := by
      rw [hstate, ← hrunning.2]
      exact set_stateOf mgr _
    exact (congrArg (CtxTable.states · i) (htable.trans hsame)).trans hi
  · rw [hsave] at h
    simp at h

/-- A failed switch has no effect if and only if the running context cannot be saved or the target can be restored. -/
theorem tuCtxSwitch_noEffect_iff (id : UInt32) :
    ((tuCtxSwitch env mgr id.toNat).2 = false → NoEffect mgr (tuCtxSwitch env mgr id.toNat).1) ↔
      (mgr.Running → env.heap.Suffices mgr.cfg.toTuCtxRetention (env.coreSync mgr.core) →
        id.toNat < mgr.maxContexts ∧ (mgr.stateOf id.toNat = .ready ∨ id = mgr.activeCtxId)) := by
  unfold tuCtxSwitch
  dsimp only
  by_cases hrunning : mgr.Running
  · rw [switchSave_of_running env mgr hrunning]
    by_cases hheap : env.heap.Suffices mgr.cfg.toTuCtxRetention (env.coreSync mgr.core)
    · -- the save succeeds, and a failed restore comes too late
      have hok : (tuCtxSave env mgr).2 = true := (tuCtxSave_saved env mgr).2 ⟨hrunning, hheap⟩
      obtain ⟨hcfg, ⟨hfail, -⟩ | ⟨-, -, htable⟩⟩ := tuCtxSave_table env mgr
      · rw [hok] at hfail
        simp at hfail
      have hmax : (tuCtxSave env mgr).1.maxContexts = mgr.maxContexts := congrArg (·.maxContexts.toNat) hcfg
      have hstates : ∀ i, (tuCtxSave env mgr).1.stateOf i =
          Function.update mgr.stateOf mgr.activeCtxId.toNat .ready i := fun i => congrArg (CtxTable.states · i) htable
      have hready : (tuCtxSave env mgr).1.stateOf id.toNat = .ready ↔
          mgr.stateOf id.toNat = .ready ∨ id = mgr.activeCtxId := by
        rw [hstates]
        by_cases hid : id = mgr.activeCtxId
        · rw [hid, Function.update_self]
          simp
        · rw [Function.update_of_ne fun h => hid (UInt32.toNat_inj.1 h)]
          simp [hid]
      rw [if_neg (by simp [hok])]
      rcases tuCtxRestore_cases (tuCtxSave env mgr).1 id.toNat with ⟨hrestore, hnot⟩ | ⟨hyes, mgr', hrestore, -⟩
      · rw [hrestore, hmax, hready] at *
        constructor
        · intro h
          have hactive := (h rfl).active mgr.activeCtxId.toNat hrunning.2
          rw [hstates, Function.update_self] at hactive
          exact absurd hactive (by simp)
        · intro h
          exact absurd (h hrunning hheap) hnot
      · rw [hrestore]
        rw [hmax, hready] at hyes
        exact ⟨fun _ _ _ => hyes, fun _ h => absurd h (by simp)⟩
    · have hfail : (tuCtxSave env mgr).2 = false := by
        rw [← Bool.not_eq_true, tuCtxSave_saved]
        exact fun h => hheap h.2
      rw [if_pos (by simp [hfail])]
      exact ⟨fun _ _ h => absurd h hheap, fun _ _ => tuCtxSave_noEffect env mgr hfail⟩
  · rw [switchSave_of_not_running env mgr hrunning, if_neg (by simp)]
    refine ⟨fun _ h => absurd h hrunning, fun _ hfail => ?_⟩
    rcases tuCtxRestore_cases mgr id.toNat with ⟨hrestore, -⟩ | ⟨-, mgr', hrestore, -⟩
    · rw [hrestore]
      exact NoEffect.refl mgr
    · rw [hrestore] at hfail
      simp at hfail

theorem failureHarmless_iff_targetRestorable (e : CtxCall D C × CtxEnv D C) :
    FailureHarmless mgr e ↔ TargetRestorable mgr e := by
  obtain ⟨call, env⟩ := e
  cases call with
  | switch id => exact tuCtxSwitch_noEffect_iff env mgr id
  | requestSwitch =>
    refine iff_of_true ?_ trivial
    show (tuCtxRequestSwitch env mgr).2 = false → NoEffect mgr (tuCtxRequestSwitch env mgr).1
    unfold tuCtxRequestSwitch
    cases hnext : tuCtxScheduleNext mgr with
    | none => exact fun _ => NoEffect.refl mgr
    | some id =>
      obtain ⟨hlt, hready⟩ := tuCtxScheduleNext_ready mgr hnext
      have hid : (UInt32.ofNat id).toNat = id :=
        UInt32.toNat_ofNat_of_lt' (Nat.lt_trans hlt mgr.cfg.maxContexts.toNat_lt)
      have h := (tuCtxSwitch_noEffect_iff env mgr (UInt32.ofNat id)).2 fun _ _ => by
        rw [hid]
        exact ⟨hlt, Or.inl hready⟩
      rw [hid] at h
      exact h
  | _ => exact Iff.rfl

/-- In every run, from whatever state: every failed switch is harmless if and only if every switch that can save the
running context has a target that can be restored. -/
theorem failureHarmless_iff (es : List (CtxCall D C × CtxEnv D C)) :
    Run.Along FailureHarmless step mgr es ↔ Run.Along TargetRestorable step mgr es :=
  Run.along_congr step failureHarmless_iff_targetRestorable mgr es

/-- A switch to context 5 of two fails with context 0 parked and its 48 bytes pending: going back to it then costs 103
cycles, 100 fixed and 3 for 96 bytes. -/
theorem outOfRange_not_harmless :
    ∃ mgr, tuCtxManagerCreate (TuState.fresh Nat Nat 16) twoContexts = some mgr ∧
      ¬ Run.Along FailureHarmless step mgr ([.alloc, .switch 5].map (quiet Nat Nat)) ∧
      (let before := Run.exec step mgr ([.alloc].map (quiet Nat Nat))
       let failed := tuCtxSwitch { coreSync := id, heap := {} } before 5
       before.stateOf 0 = .active ∧ failed.2 = false ∧ failed.1.stateOf 0 = .ready ∧ before.pendingSaveBytes = 0 ∧
         failed.1.pendingSaveBytes = 48) ∧
      (Run.exec step mgr ([.alloc, .switch 5, .restore 0].map (quiet Nat Nat))).totalCyclesStolen = 103 := by
  refine ⟨_, rfl, ?_, ⟨by decide, by decide, by decide, by decide, by decide⟩, by decide⟩
  rintro ⟨-, h, -⟩
  exact absurd (h (by decide)).pendingSaveBytes (by decide)

end Tusim
