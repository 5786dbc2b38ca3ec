import Tusim.Context.Manager

/-!
# The table of contexts

A manager seen as a table: the state of every context, which context is named active and how many are counted.  Each
call of the manager changes the table in one of a few ways, and these are all the invariants of contexts need to know.
-/

namespace Tusim

open Word

/-- What the scheduling of contexts depends on. -/
structure CtxTable where
  states : Nat → TuCtxState
  activeId : UInt32
  count : UInt32

namespace CtxTable

variable (t : CtxTable)

def set (i : Nat) (state : TuCtxState) : CtxTable := { t with states := Function.update t.states i state }

/-- Context `i` becomes the active one. -/
def resume (i : Nat) : CtxTable := { t.set i .active with activeId := UInt32.ofNat i }

/-- An idle context is allocated. -/
def claim (i : Nat) : CtxTable :=
  if t.count = 0 then { t.resume i with count := t.count + 1 } else { t.set i .ready with count := t.count + 1 }

/-- A context is freed. -/
def release (i : Nat) : CtxTable := { t.set i .idle with count := if t.count > 0 then t.count - 1 else t.count }

@[simp] theorem set_states (i : Nat) (state : TuCtxState) :
    (t.set i state).states = Function.update t.states i state := rfl

@[simp] theorem set_activeId (i : Nat) (state : TuCtxState) : (t.set i state).activeId = t.activeId := rfl

@[simp] theorem set_count (i : Nat) (state : TuCtxState) : (t.set i state).count = t.count := rfl

@[simp] theorem set_self (i : Nat) : t.set i (t.states i) = t := by
  unfold set
  rw [Function.update_eq_self]

end CtxTable

variable {D C : Type} [Zero D] [Zero C]

namespace TuCtxManager

variable (mgr : TuCtxManager D C)

def table : CtxTable where
  states := mgr.stateOf
  activeId := mgr.activeCtxId
  count := mgr.activeCount

/-- The context named active is a context and active. -/
def Running : Prop := mgr.activeCtxId.toNat < mgr.maxContexts ∧ mgr.stateOf mgr.activeCtxId.toNat = .active

@[simp] theorem table_setContext (i : Nat) (ctx : TuContextDesc D C) :
    (mgr.setContext i ctx).table = mgr.table.set i ctx.state := by
  unfold setContext table CtxTable.set
  congr 1
  funext j
  unfold stateOf
  dsimp only
  by_cases hj : j = i
  · rw [hj, Function.update_self, Function.update_self]
  · rw [Function.update_of_ne hj, Function.update_of_ne hj]

theorem setContext_contexts_self (i : Nat) (ctx : TuContextDesc D C) : (mgr.setContext i ctx).contexts i = ctx := by
  unfold setContext
  exact Function.update_self i ctx mgr.contexts

theorem set_stateOf (i : Nat) : mgr.table.set i (mgr.stateOf i) = mgr.table := mgr.table.set_self i

end TuCtxManager

open TuCtxManager

variable (env : CtxEnv D C) (mgr : TuCtxManager D C)

/-- A context from which `s` can be continued. -/
def SavedFrom (ret : TuCtxRetention) (ctx : TuContextDesc D C) : Prop :=
  ∃ s, ctx.savedFrom = some s ∧ (ret.saveScope = .fullSram → ∀ core, Resumes s (ctxRestoreFullState core ctx))

/-- A save changes the active context only: it is left active if the save fails, and ready to be continued otherwise. -/
theorem tuCtxSave_cases :
    tuCtxSave env mgr = (mgr, false) ∧ ¬ mgr.Running ∨
      mgr.Running ∧ ∃ ctx : TuContextDesc D C,
        ctx.state = .active ∧
          tuCtxSave env mgr = ({ mgr with core := env.coreSync mgr.core }.setContext mgr.activeCtxId.toNat ctx, false) ∨
        ctx.state = .ready ∧ SavedFrom mgr.cfg.toTuCtxRetention ctx ∧
          tuCtxSave env mgr =
            ({ { mgr with core := env.coreSync mgr.core }.setContext mgr.activeCtxId.toNat ctx with
               pendingSaveBytes := ctx.savedSramBytes }, true) := by
  unfold tuCtxSave TuCtxManager.Running
  dsimp only
  by_cases hlt : mgr.activeCtxId.toNat < mgr.maxContexts
  · rw [if_neg (by omega)]
    by_cases hactive : mgr.stateOf mgr.activeCtxId.toNat = .active
    · rw [if_neg (by simpa using hactive)]
      refine Or.inr ⟨⟨hlt, hactive⟩, ?_⟩
      obtain ⟨hstate, hsaved⟩ := ctxSaveFullState_cases mgr.cfg.toTuCtxRetention
        (mgr.contexts mgr.activeCtxId.toNat) (env.coreSync mgr.core) env.heap
      generalize ctxSaveFullState mgr.cfg.toTuCtxRetention (mgr.contexts mgr.activeCtxId.toNat) (env.coreSync mgr.core)
        env.heap = r at hstate hsaved ⊢
      obtain ⟨ctx, saved⟩ := r
      cases saved with
      | false => exact ⟨ctx, Or.inl ⟨hstate.trans hactive, rfl⟩⟩
      | true =>
        refine ⟨{ ctx with
          state := .ready
          totalCycles := u64 (ctx.totalCycles + u64 ((env.coreSync mgr.core).estimatedCycles + 2 ^ 64 -
            ctx.lastSwitchCycle)) }, Or.inr ⟨rfl, ⟨_, hsaved rfl⟩, rfl⟩⟩
    · rw [if_pos hactive]
      exact Or.inl ⟨rfl, fun h => hactive h.2⟩
  · rw [if_pos (by omega)]
    exact Or.inl ⟨rfl, fun h => hlt h.1⟩

theorem tuCtxRestore_cases (id : Nat) :
    tuCtxRestore mgr id = (mgr, false) ∧ ¬ (id < mgr.maxContexts ∧ mgr.stateOf id = .ready) ∨
      (id < mgr.maxContexts ∧ mgr.stateOf id = .ready) ∧ ∃ mgr', tuCtxRestore mgr id = (mgr', true) ∧
        mgr'.cfg = mgr.cfg ∧ mgr'.table = mgr.table.resume id ∧ mgr'.core = ctxRestoreFullState mgr.core (mgr.contexts id) ∧
        (∀ i, i ≠ id → mgr'.contexts i = mgr.contexts i) ∧ (mgr'.contexts id).savedFrom = (mgr.contexts id).savedFrom := by
  unfold tuCtxRestore
  dsimp only
  by_cases hlt : id < mgr.maxContexts
  · rw [if_neg (by omega)]
    by_cases hready : mgr.stateOf id = .ready
    · rw [if_neg (by simpa using hready)]
      refine Or.inr ⟨⟨hlt, hready⟩, _, rfl, rfl, ?_, rfl, ?_, ?_⟩
      · exact congrArg (fun t : CtxTable => { t with activeId := UInt32.ofNat id }) (table_setContext mgr id _)
      · intro i hi
        exact Function.update_of_ne hi _ _
      · dsimp only
        rw [setContext_contexts_self]
    · rw [if_pos hready]
      exact Or.inl ⟨rfl, fun h => hready h.2⟩
  · rw [if_pos (by omega)]
    exact Or.inl ⟨rfl, fun h => hlt h.1⟩

theorem tuCtxAlloc_cases :
    (tuCtxAlloc env mgr).1 = mgr ∨ ∃ i < mgr.maxContexts, mgr.stateOf i = .idle ∧
      ((∃ ctx : TuContextDesc D C, ctx.state = .idle ∧ (tuCtxAlloc env mgr).1 = mgr.setContext i ctx) ∨
        ∃ mgr', (tuCtxAlloc env mgr).1 = mgr' ∧ mgr'.cfg = mgr.cfg ∧ mgr'.table = mgr.table.claim i ∧
          mgr'.core = mgr.core ∧ (∀ j, j ≠ i → mgr'.contexts j = mgr.contexts j) ∧
          SavedFrom mgr.cfg.toTuCtxRetention (mgr'.contexts i)) := by
  unfold tuCtxAlloc
  cases hfind : (List.range mgr.maxContexts).find? fun i => mgr.stateOf i = TuCtxState.idle with
  | none => exact Or.inl rfl
  | some i =>
    have hidle := List.find?_some hfind
    have hmem := List.mem_of_find?_eq_some hfind
    refine Or.inr ⟨i, List.mem_range.1 hmem, by simpa using hidle, ?_⟩
    obtain ⟨hstate, hsaved⟩ := ctxSaveFullState_cases mgr.cfg.toTuCtxRetention
      { ctxId := i, state := .ready, priority := 128 } mgr.core env.heap
    dsimp only
    generalize ctxSaveFullState mgr.cfg.toTuCtxRetention { ctxId := i, state := .ready, priority := 128 } mgr.core
      env.heap = r at hstate hsaved ⊢
    obtain ⟨ctx, saved⟩ := r
    cases saved with
    | false => exact Or.inl ⟨{ ctx with state := .idle }, rfl, rfl⟩
    | true =>
      refine Or.inr ⟨_, rfl, ?_⟩
      have hsaved : SavedFrom mgr.cfg.toTuCtxRetention ctx := ⟨_, hsaved rfl⟩
      by_cases hcount : mgr.activeCount = 0
      · rw [if_pos hcount]
        refine ⟨rfl, ?_, rfl, fun j hj => Function.update_of_ne hj _ _, ?_⟩
        · unfold CtxTable.claim
          rw [if_pos (show mgr.table.count = 0 from hcount)]
          exact congrArg (fun t : CtxTable => { t with activeId := UInt32.ofNat i, count := mgr.activeCount + 1 })
            (table_setContext mgr i { ctx with state := .active })
        · exact (mgr.setContext_contexts_self i { ctx with state := .active }).symm ▸ hsaved
      · rw [if_neg hcount]
        refine ⟨rfl, ?_, rfl, fun j hj => Function.update_of_ne hj _ _, ?_⟩
        · unfold CtxTable.claim
          rw [if_neg (show mgr.table.count ≠ 0 from hcount)]
          have htable := (table_setContext mgr i ctx).trans (congrArg (mgr.table.set i) hstate)
          exact congrArg (fun t : CtxTable => { t with count := mgr.activeCount + 1 }) htable
        · exact (mgr.setContext_contexts_self i ctx).symm ▸ hsaved

/-! ### The table after a call -/

theorem tuCtxSave_table :
    (tuCtxSave env mgr).1.cfg = mgr.cfg ∧
      ((tuCtxSave env mgr).2 = false ∧ (tuCtxSave env mgr).1.table = mgr.table ∨
        (tuCtxSave env mgr).2 = true ∧ mgr.Running ∧
          (tuCtxSave env mgr).1.table = mgr.table.set mgr.activeCtxId.toNat .ready) := by
  rcases tuCtxSave_cases env mgr with ⟨hsave, -⟩ | ⟨hrunning, ctx, ⟨hstate, hsave⟩ | ⟨hstate, -, hsave⟩⟩
  · rw [hsave]
    exact ⟨rfl, Or.inl ⟨rfl, rfl⟩⟩
  · rw [hsave]
    refine ⟨rfl, Or.inl ⟨rfl, ?_⟩⟩
    rw [table_setContext, hstate, ← hrunning.2]
    exact set_stateOf mgr _
  · rw [hsave]
    refine ⟨rfl, Or.inr ⟨rfl, hrunning, ?_⟩⟩
    rw [← hstate]
    exact table_setContext { mgr with core := env.coreSync mgr.core } _ ctx

/-- Freeing an active context saves the one that is named active, which need not be the same. -/
theorem tuCtxFree_table (id : Nat) :
    (tuCtxFree env mgr id).cfg = mgr.cfg ∧
      ((tuCtxFree env mgr id).table = mgr.table ∧ (id < mgr.maxContexts → mgr.stateOf id = .active) ∨
        id < mgr.maxContexts ∧ mgr.stateOf id ≠ .active ∧ (tuCtxFree env mgr id).table = mgr.table.release id ∨
        mgr.Running ∧ id = mgr.activeCtxId.toNat ∧
          (tuCtxFree env mgr id).table = (mgr.table.set id .ready).release id ∨
        mgr.Running ∧ id < mgr.maxContexts ∧ mgr.stateOf id = .active ∧ id ≠ mgr.activeCtxId.toNat ∧
          (tuCtxFree env mgr id).table = mgr.table.set mgr.activeCtxId.toNat .ready) := by
  have hrelease : ∀ m : TuCtxManager D C,
      (if (m.setContext id { ctxId := id }).activeCount > 0 then
        { m.setContext id { ctxId := id } with activeCount := (m.setContext id { ctxId := id }).activeCount - 1 }
        else m.setContext id { ctxId := id }).table = m.table.release id ∧
      (if (m.setContext id { ctxId := id }).activeCount > 0 then
        { m.setContext id { ctxId := id } with activeCount := (m.setContext id { ctxId := id }).activeCount - 1 }
        else m.setContext id { ctxId := id }).cfg = m.cfg := by
    intro m
    have hset := table_setContext m id { ctxId := id }
    unfold CtxTable.release
    split
    · rename_i hpos
      rw [if_pos (show m.table.count > 0 from hpos)]
      exact ⟨congrArg (fun t : CtxTable => { t with count := m.activeCount - 1 }) hset, rfl⟩
    · rename_i hpos
      rw [if_neg (show ¬ m.table.count > 0 from hpos)]
      exact ⟨hset, rfl⟩
  unfold tuCtxFree
  by_cases hlt : id < mgr.maxContexts
  · rw [if_neg (by omega)]
    dsimp only
    by_cases hactive : mgr.stateOf id = .active
    · rw [if_pos hactive]
      obtain ⟨hcfg, ⟨-, hsave⟩ | ⟨-, hrunning, hsave⟩⟩ := tuCtxSave_table env mgr
      · have hstate : (tuCtxSave env mgr).1.stateOf id = .active := (congrArg (CtxTable.states · id) hsave).trans hactive
        rw [if_pos hstate]
        exact ⟨hcfg, Or.inl ⟨hsave, fun _ => hactive⟩⟩
      · have hstate : (tuCtxSave env mgr).1.stateOf id =
            Function.update mgr.stateOf mgr.activeCtxId.toNat .ready id := congrArg (CtxTable.states · id) hsave
        by_cases hid : id = mgr.activeCtxId.toNat
        · rw [if_neg (by rw [hstate, hid, Function.update_self]; simp)]
          refine ⟨(hrelease _).2.trans hcfg, Or.inr (Or.inr (Or.inl ⟨hrunning, hid, ?_⟩))⟩
          rw [(hrelease _).1, hsave, hid]
        · rw [if_pos (by rw [hstate, Function.update_of_ne hid, hactive])]
          exact ⟨hcfg, Or.inr (Or.inr (Or.inr ⟨hrunning, hlt, hactive, hid, hsave⟩))⟩
    · rw [if_neg hactive, if_neg hactive]
      exact ⟨(hrelease mgr).2, Or.inr (Or.inl ⟨hlt, hactive, (hrelease mgr).1⟩)⟩
  · rw [if_pos (by omega)]
    exact ⟨rfl, Or.inl ⟨rfl, fun h => absurd h hlt⟩⟩

/-- The scheduler picks a context that can be restored. -/
theorem tuCtxScheduleNext_ready {id : Nat} (h : tuCtxScheduleNext mgr = some id) :
    id < mgr.maxContexts ∧ mgr.stateOf id = .ready := by
  unfold tuCtxScheduleNext at h
  dsimp only at h
  obtain ⟨h, -⟩ := Option.filter_eq_some_iff.1 h
  split at h
  · have hready := List.find?_some h
    obtain ⟨i, hi, rfl⟩ := List.mem_map.1 (List.mem_of_find?_eq_some h)
    have hpos : 0 < mgr.maxContexts := Nat.zero_lt_of_lt (List.mem_range.1 hi)
    exact ⟨Nat.mod_lt _ hpos, by simpa using hready⟩
  · have hbest : ∀ (is : List Nat) (best : UInt8 × Option Nat), (∀ i ∈ is, i < mgr.maxContexts) →
        (∀ i, best.2 = some i → i < mgr.maxContexts ∧ mgr.stateOf i = .ready) →
        ∀ i, (is.foldl (fun (best : UInt8 × Option Nat) i =>
          if mgr.stateOf i = TuCtxState.ready ∧ (mgr.contexts i).priority > best.1 then
            ((mgr.contexts i).priority, some i)
          else best) best).2 = some i → i < mgr.maxContexts ∧ mgr.stateOf i = .ready := by
      intro is
      induction is with
      | nil => exact fun best _ hbest => hbest
      | cons j js ih =>
        intro best hlt hbest
        apply ih _ fun i hi => hlt i (List.mem_cons_of_mem j hi)
        intro i hi
        dsimp only at hi
        split at hi
        · rename_i hready
          obtain rfl := Option.some.inj hi
          exact ⟨hlt j List.mem_cons_self, hready.1⟩
        · exact hbest i hi
    exact hbest _ _ (fun i hi => List.mem_range.1 hi) (fun i hi => by simp at hi) id h

theorem switchSave_of_running (h : mgr.Running) : switchSave env mgr = tuCtxSave env mgr := if_pos h

theorem switchSave_of_not_running (h : ¬ mgr.Running) : switchSave env mgr = (mgr, true) := if_neg h

/-- After the save of a switch no context is running, if the save succeeds. -/
theorem switchSave_table :
    (switchSave env mgr).1.cfg = mgr.cfg ∧
      ((switchSave env mgr).2 = false ∧ mgr.Running ∧ (switchSave env mgr).1.table = mgr.table ∨
        (switchSave env mgr).2 = true ∧ ¬ mgr.Running ∧ (switchSave env mgr).1 = mgr ∨
        (switchSave env mgr).2 = true ∧ mgr.Running ∧
          (switchSave env mgr).1.table = mgr.table.set mgr.activeCtxId.toNat .ready) := by
  by_cases hrunning : mgr.Running
  · rw [switchSave_of_running env mgr hrunning]
    obtain ⟨hcfg, ⟨hfail, hsave⟩ | ⟨hok, -, hsave⟩⟩ := tuCtxSave_table env mgr
    · exact ⟨hcfg, Or.inl ⟨hfail, hrunning, hsave⟩⟩
    · exact ⟨hcfg, Or.inr (Or.inr ⟨hok, hrunning, hsave⟩)⟩
  · rw [switchSave_of_not_running env mgr hrunning]
    exact ⟨rfl, Or.inr (Or.inl ⟨rfl, hrunning, rfl⟩)⟩

theorem tuCtxBlockCurrent_table :
    (tuCtxBlockCurrent env mgr).1.cfg = mgr.cfg ∧
      ((tuCtxBlockCurrent env mgr).1.table = mgr.table ∨
        mgr.Running ∧ (tuCtxBlockCurrent env mgr).1.table =
          (mgr.table.set mgr.activeCtxId.toNat .ready).set mgr.activeCtxId.toNat .blocked) := by
  unfold tuCtxBlockCurrent
  obtain ⟨hcfg, ⟨hfail, hsave⟩ | ⟨hok, hrunning, hsave⟩⟩ := tuCtxSave_table env mgr
  · dsimp only
    rw [hfail]
    exact ⟨hcfg, Or.inl hsave⟩
  · dsimp only
    rw [hok]
    have hid : (tuCtxSave env mgr).1.activeCtxId = mgr.activeCtxId := congrArg CtxTable.activeId hsave
    have hmax : (tuCtxSave env mgr).1.maxContexts = mgr.maxContexts := congrArg (·.maxContexts.toNat) hcfg
    rw [if_neg (by simp), hid, hmax, if_pos hrunning.1]
    refine ⟨hcfg, Or.inr ⟨hrunning, ?_⟩⟩
    rw [← hsave]
    exact table_setContext _ _ _

theorem tuCtxUnblock_table (id : Nat) :
    (tuCtxUnblock mgr id).1.cfg = mgr.cfg ∧
      ((tuCtxUnblock mgr id).1.table = mgr.table ∨
        mgr.stateOf id = .blocked ∧ (tuCtxUnblock mgr id).1.table = mgr.table.set id .ready) := by
  unfold tuCtxUnblock
  split
  · exact ⟨rfl, Or.inl rfl⟩
  · dsimp only
    split
    · rename_i hblocked
      exact ⟨rfl, Or.inr ⟨hblocked, table_setContext mgr id _⟩⟩
    · exact ⟨rfl, Or.inl rfl⟩

theorem tuCtxSwitch_cfg (id : Nat) : (tuCtxSwitch env mgr id).1.cfg = mgr.cfg := by
  have hcfg := (switchSave_table env mgr).1
  unfold tuCtxSwitch
  dsimp only
  split
  · exact hcfg
  · rcases tuCtxRestore_cases (switchSave env mgr).1 id with ⟨hrestore, -⟩ | ⟨-, mgr', hrestore, hcfg', -⟩
    · rw [hrestore]
      exact hcfg
    · rw [hrestore]
      exact hcfg'.trans hcfg

/-- No call changes the configuration. -/
theorem TuCtxManager.step_cfg (e : CtxCall D C × CtxEnv D C) : (mgr.step e).cfg = mgr.cfg := by
  obtain ⟨call, env⟩ := e
  cases call with
  | alloc =>
    show (tuCtxAlloc env mgr).1.cfg = mgr.cfg
    rcases tuCtxAlloc_cases env mgr with hsame | ⟨i, -, -, ⟨ctx, -, hset⟩ | ⟨mgr', halloc, hcfg, -⟩⟩
    · rw [hsame]
    · rw [hset]
      rfl
    · rw [halloc]
      exact hcfg
  | free id => exact (tuCtxFree_table env mgr id.toNat).1
  | save => exact (tuCtxSave_table env mgr).1
  | restore id =>
    show (tuCtxRestore mgr id.toNat).1.cfg = mgr.cfg
    rcases tuCtxRestore_cases mgr id.toNat with ⟨hrestore, -⟩ | ⟨-, mgr', hrestore, hcfg, -⟩
    · rw [hrestore]
    · rw [hrestore]
      exact hcfg
  | switch id => exact tuCtxSwitch_cfg env mgr id.toNat
  | requestSwitch =>
    show (tuCtxRequestSwitch env mgr).1.cfg = mgr.cfg
    unfold tuCtxRequestSwitch
    split
    · rfl
    · exact tuCtxSwitch_cfg env mgr _
  | blockCurrent => exact (tuCtxBlockCurrent_table env mgr).1
  | unblock id => exact (tuCtxUnblock_table mgr id.toNat).1
  | setPriority id priority =>
    show (if id.toNat < mgr.maxContexts ∧ mgr.stateOf id.toNat ≠ .idle then
      mgr.setContext id.toNat { mgr.contexts id.toNat with priority := priority } else mgr).cfg = mgr.cfg
    split <;> rfl
  | useCore op => rfl

end Tusim
