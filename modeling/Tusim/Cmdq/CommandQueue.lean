import Mathlib.Logic.Function.Basic
import Tusim.Lib.Word
import Tusim.Lib.Run
import Tusim.Isa.Access

/-!
# The command queue

Commands wait in a circular buffer of slots.  A synchronous queue executes a command when it is submitted; an
asynchronous one executes it in a tick that finds its dependencies completed and no barrier in its way.  The
operand descriptors are a type parameter, since the queue only carries them; a slot that was never written is the
zeroed command.

`tuCmdqWait` and `tuCmdqSync` are loops without a bound, so they take the number of rounds to run them for.  `log`
records what was submitted and executed since the last reset and is not part of the source.
-/

namespace Tusim

open Word

inductive TuCmdStatus
  | pending
  | issued
  | completed
  | faulted
deriving DecidableEq, Repr

inductive TuCmdEvent
  | submitted (cmdId : Nat) (depIds : List Nat) (isBarrier : Bool)
  | executed (cmdId : Nat) (status : TuCmdStatus)
deriving DecidableEq, Repr

structure TuCompletionSignal where
  signalId : Nat
  fired : Bool := false
  cycleCompleted : Nat := 0
deriving DecidableEq, Repr

namespace TuCmd

/-! The opcodes of the queue are those of the instruction set, widened to the enumeration type. -/

def nop : UInt32 := TuIsa.nop.toUInt32
def dmaLoad : UInt32 := TuIsa.dmaLoad.toUInt32
def dmaStore : UInt32 := TuIsa.dmaStore.toUInt32
def mma : UInt32 := TuIsa.mma.toUInt32
def sync : UInt32 := TuIsa.sync.toUInt32
def barrier : UInt32 := TuIsa.barrier.toUInt32
def halt : UInt32 := TuIsa.halt.toUInt32
def elementwise : UInt32 := TuIsa.elementwise.toUInt32

/-- The opcodes with a case of their own in `executeCommand`. -/
def isKnown (opcode : UInt32) : Bool :=
  opcode ∈ [nop, dmaLoad, dmaStore, mma, sync, barrier, halt, elementwise]

/-- The opcodes whose operand descriptor is copied at submission. -/
def hasOperands (opcode : UInt32) : Bool := opcode ∈ [dmaLoad, dmaStore, mma, elementwise]

end TuCmd

structure TuCommand (Op : Type) where
  cmdId : Nat := 0
  opcode : UInt32 := TuCmd.nop
  status : TuCmdStatus := .pending
  op : Option Op := none
  depIds : List Nat := []
  signalId : Nat := 0
  cycleSubmitted : Nat := 0
  cycleCompleted : Nat := 0
  isBarrier : Bool := false

structure TuCommandQueue (Op : Type) where
  commands : Nat → TuCommand Op
  capacity : Nat
  head : Nat := 0
  tail : Nat := 0
  count : Nat := 0
  /-- Starts at 1; `count` is never lowered, so it does not wrap before a reset. -/
  nextCmdId : Nat := 1
  nextSignalId : Nat := 1
  totalSubmitted : Nat := 0
  totalCompleted : Nat := 0
  totalFaulted : Nat := 0
  /-- The first `signal_count` entries of the registry. -/
  signals : List TuCompletionSignal := []
  lastBarrierId : Nat := 0
  currentCycle : Nat := 0
  synchronous : Bool
  log : List TuCmdEvent := []
  four_le : 4 ≤ capacity
  capacity_lt : capacity < 2 ^ 32

variable {Op : Type}

namespace TuCommandQueue

/-- The first slot that carries this id. -/
def findCommand (q : TuCommandQueue Op) (cmdId : Nat) : Option Nat :=
  (List.range q.capacity).find? fun j => (q.commands j).cmdId = cmdId

end TuCommandQueue

open TuCommandQueue

/-- A dependency that is in no slot counts as completed. -/
def depsSatisfied (q : TuCommandQueue Op) (cmd : TuCommand Op) : Bool :=
  cmd.depIds.all fun depId =>
    match q.findCommand depId with
    | some j => (q.commands j).status = .completed
    | none => true

/-- No slot holds a barrier that is not completed. -/
def barrierClear (q : TuCommandQueue Op) : Bool :=
  (List.range q.capacity).all fun i =>
    (q.commands i).cmdId = 0 || !(q.commands i).isBarrier || (q.commands i).status = .completed

/-- Fire the first registered entry of a signal. -/
def fireSignal (signals : List TuCompletionSignal) (signalId cycle : Nat) : List TuCompletionSignal :=
  if 0 < signalId then
    match signals.findIdx? (·.signalId = signalId) with
    | some i => signals.modify i fun s => { s with fired := true, cycleCompleted := cycle }
    | none => signals
  else
    signals

/-- Run the command of a slot.  What it does to the memories is left to the model of those operations. -/
def executeCommand (q : TuCommandQueue Op) (slot : Nat) : TuCommandQueue Op :=
  let cmd := { q.commands slot with status := .issued, cycleSubmitted := q.currentCycle }
  if TuCmd.isKnown cmd.opcode then
    { q with
      commands := Function.update q.commands slot
        { cmd with status := .completed, cycleCompleted := q.currentCycle }
      totalCompleted := u64 (q.totalCompleted + 1)
      signals := fireSignal q.signals cmd.signalId q.currentCycle
      log := q.log ++ [.executed cmd.cmdId .completed] }
  else
    { q with
      commands := Function.update q.commands slot { cmd with status := .faulted }
      totalFaulted := u64 (q.totalFaulted + 1)
      log := q.log ++ [.executed cmd.cmdId .faulted] }

def tuCmdqCreate (Op : Type) (capacity : UInt32) (synchronous : Bool) : TuCommandQueue Op where
  commands _ := {}
  capacity := max 4 capacity.toNat
  synchronous := synchronous
  four_le := Nat.le_max_left 4 capacity.toNat
  capacity_lt := Nat.max_lt.2 ⟨by decide, capacity.toNat_lt⟩

/-- The numbering of the completion signals is not reset. -/
def tuCmdqReset (q : TuCommandQueue Op) : TuCommandQueue Op :=
  { q with
    commands := fun _ => {}
    head := 0
    tail := 0
    count := 0
    nextCmdId := 1
    totalSubmitted := 0
    totalCompleted := 0
    totalFaulted := 0
    signals := []
    lastBarrierId := 0
    currentCycle := 0
    log := [] }

namespace TuCommandQueue

/-- The command of a slot waits and neither a barrier nor a dependency keeps it. -/
def ready (q : TuCommandQueue Op) (i : Nat) : Bool :=
  (q.commands i).cmdId ≠ 0 && (q.commands i).status = .pending &&
    (!(0 < q.lastBarrierId && q.lastBarrierId < (q.commands i).cmdId) || barrierClear q) &&
    depsSatisfied q (q.commands i)

/-- Execute the command of a slot in a tick; a synchronous queue also frees the slot. -/
def retire (q : TuCommandQueue Op) (i : Nat) : TuCommandQueue Op :=
  let q := executeCommand q i
  if q.synchronous then
    { q with
      commands := Function.update q.commands i { q.commands i with cmdId := 0 }
      count := u32 (q.count + (2 ^ 32 - 1))
      tail := (q.tail + 1) % q.capacity }
  else
    q

/-- A tick at one slot. -/
def scanSlot (q : TuCommandQueue Op) (i : Nat) : TuCommandQueue Op := if q.ready i then q.retire i else q

/-- The clock of a tick. -/
def advance (q : TuCommandQueue Op) : TuCommandQueue Op := { q with currentCycle := u64 (q.currentCycle + 1) }

end TuCommandQueue

/-- One cycle of the queue and the number of commands retired in it. -/
def tuCmdqTick (q : TuCommandQueue Op) : TuCommandQueue Op × Nat :=
  (List.range q.capacity).foldl (fun s i => (s.1.scanSlot i, if s.1.ready i then s.2 + 1 else s.2)) (q.advance, 0)

/-- Write a new command into the slot at the head. -/
def TuCommandQueue.enqueue (q : TuCommandQueue Op) (opcode : UInt32) (opDesc : Option Op) (depIds : List Nat) :
    TuCommandQueue Op :=
  let cmd : TuCommand Op :=
    { cmdId := q.nextCmdId
      opcode := opcode
      op := if TuCmd.hasOperands opcode then opDesc else none
      depIds := depIds
      signalId := q.nextSignalId
      isBarrier := opcode = TuCmd.barrier }
  { q with
    commands := Function.update q.commands q.head cmd
    head := (q.head + 1) % q.capacity
    count := q.count + 1
    nextCmdId := q.nextCmdId + 1
    nextSignalId := u32 (q.nextSignalId + 1)
    totalSubmitted := u64 (q.totalSubmitted + 1)
    lastBarrierId := if cmd.isBarrier then cmd.cmdId else q.lastBarrierId
    log := q.log ++ [.submitted cmd.cmdId cmd.depIds cmd.isBarrier] }

/-- The queue and the id of the new command, `none` when the queue is full. -/
def tuCmdqSubmit (q : TuCommandQueue Op) (opcode : UInt32) (opDesc : Option Op) (depIds : List Nat) :
    Option (TuCommandQueue Op × Nat) :=
  if q.capacity ≤ q.count then
    none
  else
    let slot := q.head
    let q' := q.enqueue opcode opDesc depIds
    if q'.synchronous then
      some (executeCommand q' slot, q.nextCmdId)
    else
      some ((tuCmdqTick q').1, q.nextCmdId)

def tuCmdqBarrier (q : TuCommandQueue Op) : Option (TuCommandQueue Op × Nat) :=
  tuCmdqSubmit q TuCmd.barrier none []

inductive TuCmdqWaitResult
  | completed
  | timeout
  | faulted
deriving DecidableEq, Repr

namespace TuCommandQueue

/-- What a round of `tuCmdqWait` finds before it advances the queue. -/
def waitCheck (q : TuCommandQueue Op) (cmdId : Nat) : Option TuCmdqWaitResult :=
  match q.findCommand cmdId with
  | none => some .completed
  | some i =>
    match (q.commands i).status with
    | .completed => some .completed
    | .faulted => some .faulted
    | .pending | .issued => none

def waitRounds (cmdId start : Nat) (timeoutCycles : UInt64) :
    Nat → TuCommandQueue Op → TuCommandQueue Op × Option TuCmdqWaitResult
  | 0, q => (q, none)
  | rounds + 1, q =>
    match q.waitCheck cmdId with
    | some result => (q, some result)
    | none =>
      let q := if q.synchronous then q else (tuCmdqTick q).1
      if 0 < timeoutCycles.toNat ∧ timeoutCycles.toNat ≤ u64 (q.currentCycle + 2 ^ 64 - start) then
        (q, some .timeout)
      else
        waitRounds cmdId start timeoutCycles rounds q

def drain : Nat → TuCommandQueue Op → TuCommandQueue Op × Bool
  | 0, q => (q, q.count = 0)
  | rounds + 1, q => if q.count = 0 then (q, true) else drain rounds (tuCmdqTick q).1

end TuCommandQueue

/-- The state after at most `rounds` rounds and the result, `none` while the call has not returned. -/
def tuCmdqWait (q : TuCommandQueue Op) (cmdId : Nat) (timeoutCycles : UInt64) (rounds : Nat) :
    TuCommandQueue Op × Option TuCmdqWaitResult :=
  waitRounds cmdId q.currentCycle timeoutCycles rounds q

/-- The state after at most `rounds` ticks and whether the call has returned. -/
def tuCmdqSync (q : TuCommandQueue Op) (rounds : Nat) : TuCommandQueue Op × Bool :=
  if q.synchronous then (q, true) else drain rounds q

/-- `TU_CMD_COMPLETED` for an id in no slot. -/
def tuCmdqGetStatus (q : TuCommandQueue Op) (cmdId : Nat) : TuCmdStatus :=
  match q.findCommand cmdId with
  | some i => (q.commands i).status
  | none => .completed

/-- The calls of the public interface. -/
inductive TuCmdqOp (Op : Type)
  | submit (opcode : UInt32) (opDesc : Option Op) (depIds : List Nat)
  | barrier
  | tick
  | wait (cmdId : Nat) (timeoutCycles : UInt64) (rounds : Nat)
  | sync (rounds : Nat)
  | reset

namespace TuCommandQueue

def step (q : TuCommandQueue Op) : TuCmdqOp Op → TuCommandQueue Op
  | .submit opcode opDesc depIds =>
    match tuCmdqSubmit q opcode opDesc depIds with
    | some (q', _) => q'
    | none => q
  | .barrier =>
    match tuCmdqBarrier q with
    | some (q', _) => q'
    | none => q
  | .tick => (tuCmdqTick q).1
  | .wait cmdId timeoutCycles rounds => (tuCmdqWait q cmdId timeoutCycles rounds).1
  | .sync rounds => (tuCmdqSync q rounds).1
  | .reset => tuCmdqReset q

/-- The state a new queue reaches by these calls. -/
def run (capacity : UInt32) (synchronous : Bool) (ops : List (TuCmdqOp Op)) : TuCommandQueue Op :=
  Run.exec step (tuCmdqCreate Op capacity synchronous) ops

end TuCommandQueue

end Tusim
