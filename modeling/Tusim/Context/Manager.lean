import Mathlib.Logic.Function.Basic
import Tusim.Context.State
import Tusim.Lib.Run

/-!
# The context manager

The functions of `tu_context.c` that change a manager.  What draining the core does before a save is an argument, and so
is which allocations succeed.  A result says whether the call returned zero.  `step` is one call of a client; between
two calls the core may be used in any way.
-/

namespace Tusim

open Word

inductive TuCtxSchedPolicy
  | roundRobin
  | priority
  deriving DecidableEq, Repr

/-- The fields of a manager that only `tu_ctx_manager_create` writes. -/
structure TuCtxManagerConfig extends TuCtxRetention where
  maxContexts : UInt32
  schedPolicy : TuCtxSchedPolicy
  switchOverhead : Nat
  stateBytesPerCycle : UInt32

structure TuCtxManager (D C : Type) [Zero D] [Zero C] where
  cfg : TuCtxManagerConfig
  core : TuState D C
  contexts : Nat → TuContextDesc D C
  activeCount : UInt32
  activeCtxId : UInt32
  sliceCyclesUsed : Nat
  sliceCmdsUsed : Nat
  totalSwitches : Nat
  totalCyclesStolen : Nat
  pendingSaveBytes : Nat

variable {D C : Type} [Zero D] [Zero C]

/-- What happens around a save: the effect of `tu_core_sync` on the core and the outcome of the allocations. -/
structure CtxEnv (D C : Type) where
  coreSync : TuState D C → TuState D C
  heap : SaveHeap

def tuCtxManagerConfigValidate (core : TuState D C) (cfg : TuCtxManagerConfig) : Bool :=
  cfg.maxContexts ≠ 0 ∧ (cfg.saveScope = .liveSram →
    cfg.liveWBytes ≤ core.sramW.totalSize ∧ cfg.liveABytes ≤ core.sramA.totalSize ∧
      cfg.liveOBytes ≤ core.sramO.totalSize)

def tuCtxManagerCreate (core : TuState D C) (cfg : TuCtxManagerConfig) : Option (TuCtxManager D C) :=
  if tuCtxManagerConfigValidate core cfg then
    some
      { cfg := cfg
        core := core
        contexts := fun i => { ctxId := i, state := .idle, priority := 128 }
        activeCount := 0
        activeCtxId := 0
        sliceCyclesUsed := 0
        sliceCmdsUsed := 0
        totalSwitches := 0
        totalCyclesStolen := 0
        pendingSaveBytes := 0 }
  else none

namespace TuCtxManager

variable (mgr : TuCtxManager D C)

def maxContexts : Nat := mgr.cfg.maxContexts.toNat

def setContext (id : Nat) (ctx : TuContextDesc D C) : TuCtxManager D C :=
  { mgr with contexts := Function.update mgr.contexts id ctx }

/-- The state of context `id`. -/
def stateOf (id : Nat) : TuCtxState := (mgr.contexts id).state

def setState (id : Nat) (state : TuCtxState) : TuCtxManager D C :=
  mgr.setContext id { mgr.contexts id with state := state }

end TuCtxManager

variable (env : CtxEnv D C) (mgr : TuCtxManager D C)

/-! ### Allocation and switching -/

/-- The new context, if there is one. -/
def tuCtxAlloc : TuCtxManager D C × Option Nat :=
  match (List.range mgr.maxContexts).find? fun i => mgr.stateOf i = .idle with
  | none => (mgr, none)
  | some i =>
    let (ctx, saved) :=
      ctxSaveFullState mgr.cfg.toTuCtxRetention { ctxId := i, state := .ready, priority := 128 } mgr.core env.heap
    if !saved then (mgr.setContext i { ctx with state := .idle }, none)
    else
      -- the first context becomes active
      let mgr' :=
        if mgr.activeCount = 0 then { mgr.setContext i { ctx with state := .active } with activeCtxId := UInt32.ofNat i }
        else mgr.setContext i ctx
      ({ mgr' with activeCount := mgr'.activeCount + 1 }, some i)

def tuCtxSave : TuCtxManager D C × Bool :=
  let activeId := mgr.activeCtxId.toNat
  if activeId ≥ mgr.maxContexts then (mgr, false)
  else if mgr.stateOf activeId ≠ .active then (mgr, false)
  else
    let mgr := { mgr with core := env.coreSync mgr.core }
    let (ctx, saved) := ctxSaveFullState mgr.cfg.toTuCtxRetention (mgr.contexts activeId) mgr.core env.heap
    if !saved then (mgr.setContext activeId ctx, false)
    else
      ({ mgr.setContext activeId { ctx with
           state := .ready
           totalCycles := u64 (ctx.totalCycles + u64 (mgr.core.estimatedCycles + 2 ^ 64 - ctx.lastSwitchCycle)) } with
         pendingSaveBytes := ctx.savedSramBytes }, true)

def tuCtxRestore (id : Nat) : TuCtxManager D C × Bool :=
  if id ≥ mgr.maxContexts then (mgr, false)
  else if mgr.stateOf id ≠ .ready then (mgr, false)
  else
    let ctx := mgr.contexts id
    let core := ctxRestoreFullState mgr.core ctx
    let transferBytes := mgr.pendingSaveBytes + ctx.savedSramBytes
    let bytesPerCycle := mgr.cfg.stateBytesPerCycle.toNat
    let transferCycles := if bytesPerCycle > 0 then u64 (transferBytes + bytesPerCycle - 1) / bytesPerCycle else 0
    ({ mgr.setContext id { ctx with
         state := .active
         switchCount := u64 (ctx.switchCount + 1)
         lastSwitchCycle := core.estimatedCycles } with
       core := core
       activeCtxId := UInt32.ofNat id
       totalSwitches := u64 (mgr.totalSwitches + 1)
       totalCyclesStolen := u64 (mgr.totalCyclesStolen + mgr.cfg.switchOverhead + transferCycles)
       pendingSaveBytes := 0
       sliceCyclesUsed := 0
       sliceCmdsUsed := 0 }, true)

def tuCtxFree (id : Nat) : TuCtxManager D C :=
  if id ≥ mgr.maxContexts then mgr
  else
    let mgr := if mgr.stateOf id = .active then (tuCtxSave env mgr).1 else mgr
    if mgr.stateOf id = .active then mgr
    else
      let mgr := mgr.setContext id { ctxId := id }
      if mgr.activeCount > 0 then { mgr with activeCount := mgr.activeCount - 1 } else mgr

/-- The save of `tu_ctx_switch`, made if a context is active. -/
def switchSave : TuCtxManager D C × Bool :=
  let activeId := mgr.activeCtxId.toNat
  if activeId < mgr.maxContexts ∧ mgr.stateOf activeId = .active then tuCtxSave env mgr else (mgr, true)

def tuCtxSwitch (id : Nat) : TuCtxManager D C × Bool :=
  let (mgr, saved) := switchSave env mgr
  if !saved then (mgr, false) else tuCtxRestore mgr id

/-! ### Scheduling -/

/-- The next context, if there is one: as an `int` its number is negative from `2 ^ 31` on. -/
def tuCtxScheduleNext : Option Nat :=
  let next : Option Nat :=
    match mgr.cfg.schedPolicy with
    | .roundRobin =>
      let start := u32 (mgr.activeCtxId.toNat + 1) % mgr.maxContexts
      ((List.range mgr.maxContexts).map fun i => u32 (start + i) % mgr.maxContexts).find?
        fun id => mgr.stateOf id = TuCtxState.ready
    | .priority =>
      ((List.range mgr.maxContexts).foldl (fun (best : UInt8 × Option Nat) i =>
        if mgr.stateOf i = TuCtxState.ready ∧ (mgr.contexts i).priority > best.1 then
          ((mgr.contexts i).priority, some i)
        else best) (0, none)).2
  next.filter fun id => id < 2 ^ 31

def tuCtxRequestSwitch : TuCtxManager D C × Bool :=
  match tuCtxScheduleNext mgr with
  | none => (mgr, false)
  | some nextId => tuCtxSwitch env mgr nextId

def tuCtxBlockCurrent : TuCtxManager D C × Bool :=
  let (mgr, saved) := tuCtxSave env mgr
  if !saved then (mgr, false)
  else
    let activeId := mgr.activeCtxId.toNat
    (if activeId < mgr.maxContexts then mgr.setState activeId .blocked else mgr, true)

def tuCtxUnblock (id : Nat) : TuCtxManager D C × Bool :=
  if id ≥ mgr.maxContexts then (mgr, false)
  else (if mgr.stateOf id = .blocked then mgr.setState id .ready else mgr, true)

/-! ### Runs -/

/-- What a client does: call the manager, set the priority of a context or use the core. -/
inductive CtxCall (D C : Type)
  | alloc
  | free (id : UInt32)
  | save
  | restore (id : UInt32)
  | switch (id : UInt32)
  | requestSwitch
  | blockCurrent
  | unblock (id : UInt32)
  | setPriority (id : UInt32) (priority : UInt8)
  | useCore (op : TuState D C → TuState D C)

namespace TuCtxManager

def step (e : CtxCall D C × CtxEnv D C) : TuCtxManager D C :=
  match e.1 with
  | .alloc => (tuCtxAlloc e.2 mgr).1
  | .free id => tuCtxFree e.2 mgr id.toNat
  | .save => (tuCtxSave e.2 mgr).1
  | .restore id => (tuCtxRestore mgr id.toNat).1
  | .switch id => (tuCtxSwitch e.2 mgr id.toNat).1
  | .requestSwitch => (tuCtxRequestSwitch e.2 mgr).1
  | .blockCurrent => (tuCtxBlockCurrent e.2 mgr).1
  | .unblock id => (tuCtxUnblock mgr id.toNat).1
  | .setPriority id priority =>
    -- `tu_ctx_get` gives no context that is out of range or idle
    if id.toNat < mgr.maxContexts ∧ mgr.stateOf id.toNat ≠ .idle then
      mgr.setContext id.toNat { mgr.contexts id.toNat with priority := priority }
    else mgr
  | .useCore op => { mgr with core := op mgr.core }

end TuCtxManager

/-- Two contexts of a core with regions of 16 bytes, all of it saved. -/
def twoContexts : TuCtxManagerConfig where
  saveScope := .fullSram
  liveWBytes := 0
  liveABytes := 0
  liveOBytes := 0
  maxContexts := 2
  schedPolicy := .roundRobin
  switchOverhead := 100
  stateBytesPerCycle := 32

/-- Calls around which draining the core does nothing and every allocation succeeds. -/
def quiet (D C : Type) (call : CtxCall D C) : CtxCall D C × CtxEnv D C := (call, { coreSync := id, heap := {} })

end Tusim
