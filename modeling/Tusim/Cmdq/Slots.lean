import Mathlib.Data.List.Range
import Tusim.Cmdq.CommandQueue

/-!
# The slots and the log of a command queue

Between two resets the number of commands in the queue never falls, so no slot is used twice: command `c` stays in
slot `c - 1`.  `Filled` is this correspondence between the slots and the log; `run_filled` says that every
reachable queue has it.  The calls of the interface are made of a few small actions (`exec_actions`), and an
asynchronous queue keeps what its actions keep.
-/

namespace Tusim

open Word TuCommandQueue

variable {Op : Type}

def TuCmdEvent.submittedId : TuCmdEvent → Option Nat
  | .submitted cmdId _ _ => some cmdId
  | .executed _ _ => none

def TuCmdEvent.executedId : TuCmdEvent → Option Nat
  | .submitted _ _ _ => none
  | .executed cmdId _ => some cmdId

/-- The commands submitted, in order. -/
def cmdsSubmitted (log : List TuCmdEvent) : List Nat := log.filterMap (·.submittedId)

/-- The commands completed or faulted, in order. -/
def cmdsExecuted (log : List TuCmdEvent) : List Nat := log.filterMap (·.executedId)

theorem cmdsSubmitted_submitted (log : List TuCmdEvent) (c : Nat) (deps : List Nat) (bar : Bool) :
    cmdsSubmitted (log ++ [.submitted c deps bar]) = cmdsSubmitted log ++ [c] := List.filterMap_append

theorem cmdsSubmitted_executed (log : List TuCmdEvent) (c : Nat) (st : TuCmdStatus) :
    cmdsSubmitted (log ++ [.executed c st]) = cmdsSubmitted log := by
  unfold cmdsSubmitted
  rw [List.filterMap_append]
  exact List.append_nil _

theorem cmdsExecuted_submitted (log : List TuCmdEvent) (c : Nat) (deps : List Nat) (bar : Bool) :
    cmdsExecuted (log ++ [.submitted c deps bar]) = cmdsExecuted log := by
  unfold cmdsExecuted
  rw [List.filterMap_append]
  exact List.append_nil _

theorem cmdsExecuted_executed (log : List TuCmdEvent) (c : Nat) (st : TuCmdStatus) :
    cmdsExecuted (log ++ [.executed c st]) = cmdsExecuted log ++ [c] := List.filterMap_append

theorem mem_cmdsSubmitted {log : List TuCmdEvent} {c : Nat} {deps : List Nat} {bar : Bool}
    (h : .submitted c deps bar ∈ log) : c ∈ cmdsSubmitted log :=
  List.mem_filterMap.2 ⟨_, h, rfl⟩

theorem mem_cmdsExecuted {log : List TuCmdEvent} {c : Nat} : c ∈ cmdsExecuted log ↔ ∃ st, .executed c st ∈ log := by
  unfold cmdsExecuted
  rw [List.mem_filterMap]
  constructor
  · rintro ⟨e, he, hid⟩
    cases e with
    | submitted => cases hid
    | executed c' st =>
      injection hid with hid
      exact ⟨st, hid ▸ he⟩
  · rintro ⟨st, h⟩
    exact ⟨_, h, rfl⟩

/-! ### Executing a command -/

/-- The status a command retires with. -/
def TuCommand.outcome (cmd : TuCommand Op) : TuCmdStatus := if TuCmd.isKnown cmd.opcode then .completed else .faulted

/-- The command after its execution in the given cycle. -/
def TuCommand.executed (cmd : TuCommand Op) (cycle : Nat) : TuCommand Op :=
  if TuCmd.isKnown cmd.opcode then
    { cmd with status := .completed, cycleSubmitted := cycle, cycleCompleted := cycle }
  else
    { cmd with status := .faulted, cycleSubmitted := cycle }

section

variable (cmd : TuCommand Op) (cycle : Nat)

@[simp] theorem TuCommand.executed_cmdId : (cmd.executed cycle).cmdId = cmd.cmdId := by
  unfold TuCommand.executed
  split <;> rfl

@[simp] theorem TuCommand.executed_depIds : (cmd.executed cycle).depIds = cmd.depIds := by
  unfold TuCommand.executed
  split <;> rfl

@[simp] theorem TuCommand.executed_isBarrier : (cmd.executed cycle).isBarrier = cmd.isBarrier := by
  unfold TuCommand.executed
  split <;> rfl

@[simp] theorem TuCommand.executed_status : (cmd.executed cycle).status = cmd.outcome := by
  unfold TuCommand.executed TuCommand.outcome
  split <;> rfl

theorem TuCommand.outcome_ne_pending : cmd.outcome ≠ .pending := by
  unfold TuCommand.outcome
  split <;> simp

theorem TuCommand.outcome_ne_issued : cmd.outcome ≠ .issued := by
  unfold TuCommand.outcome
  split <;> simp

end

section

variable (q : TuCommandQueue Op) (opcode : UInt32) (opDesc : Option Op) (depIds : List Nat)

/-- The new command is in the slot at the head. -/
theorem enqueue_self :
    (q.enqueue opcode opDesc depIds).commands q.head =
      { cmdId := q.nextCmdId
        opcode := opcode
        op := if TuCmd.hasOperands opcode then opDesc else none
        depIds := depIds
        signalId := q.nextSignalId
        isBarrier := opcode = TuCmd.barrier } :=
  Function.update_self ..

theorem enqueue_of_ne {s : Nat} (hs : s ≠ q.head) :
    (q.enqueue opcode opDesc depIds).commands s = q.commands s :=
  Function.update_of_ne hs _ _

end

section

variable (q : TuCommandQueue Op) (i : Nat)

theorem executeCommand_commands :
    (executeCommand q i).commands = Function.update q.commands i ((q.commands i).executed q.currentCycle) := by
  unfold executeCommand TuCommand.executed
  dsimp only
  split <;> rfl

theorem executeCommand_self : (executeCommand q i).commands i = (q.commands i).executed q.currentCycle := by
  rw [executeCommand_commands, Function.update_self]

theorem executeCommand_of_ne {s : Nat} (hs : s ≠ i) : (executeCommand q i).commands s = q.commands s := by
  rw [executeCommand_commands, Function.update_of_ne hs]

theorem executeCommand_log :
    (executeCommand q i).log = q.log ++ [.executed (q.commands i).cmdId (q.commands i).outcome] := by
  unfold executeCommand TuCommand.outcome
  dsimp only
  split <;> rfl

@[simp] theorem executeCommand_capacity : (executeCommand q i).capacity = q.capacity := by
  unfold executeCommand
  dsimp only
  split <;> rfl

@[simp] theorem executeCommand_head : (executeCommand q i).head = q.head := by
  unfold executeCommand
  dsimp only
  split <;> rfl

@[simp] theorem executeCommand_count : (executeCommand q i).count = q.count := by
  unfold executeCommand
  dsimp only
  split <;> rfl

@[simp] theorem executeCommand_nextCmdId : (executeCommand q i).nextCmdId = q.nextCmdId := by
  unfold executeCommand
  dsimp only
  split <;> rfl

@[simp] theorem executeCommand_lastBarrierId : (executeCommand q i).lastBarrierId = q.lastBarrierId := by
  unfold executeCommand
  dsimp only
  split <;> rfl

@[simp] theorem executeCommand_currentCycle : (executeCommand q i).currentCycle = q.currentCycle := by
  unfold executeCommand
  dsimp only
  split <;> rfl

@[simp] theorem executeCommand_synchronous : (executeCommand q i).synchronous = q.synchronous := by
  unfold executeCommand
  dsimp only
  split <;> rfl

end

/-! ### The correspondence -/

/-- Slot `c - 1` holds command `c` of those submitted since the last reset, the other slots are empty, and the log
tells the dependencies and the status of every command. -/
structure Filled (q : TuCommandQueue Op) : Prop where
  count_le : q.count ≤ q.capacity
  head : q.head = q.count % q.capacity
  next : q.nextCmdId = q.count + 1
  empty : ∀ s, q.count ≤ s → q.commands s = {}
  cmdId : ∀ s, s < q.count → (q.commands s).cmdId = s + 1
  not_issued : ∀ s, (q.commands s).status ≠ .issued
  submitted : cmdsSubmitted q.log = List.range' 1 q.count
  content : ∀ c deps bar, .submitted c deps bar ∈ q.log →
    (q.commands (c - 1)).depIds = deps ∧ (q.commands (c - 1)).isBarrier = bar
  executed : ∀ c st, .executed c st ∈ q.log ↔
    ∃ s, s < q.count ∧ c = s + 1 ∧ (q.commands s).status = st ∧ st ≠ .pending
  barriers : ∀ s, s < q.count → (q.commands s).isBarrier → s < q.lastBarrierId
  last : 0 < q.lastBarrierId → q.lastBarrierId ≤ q.count ∧ (q.commands (q.lastBarrierId - 1)).isBarrier
  cycle : q.currentCycle < 2 ^ 64

namespace Filled

variable {q : TuCommandQueue Op}

theorem reset (q : TuCommandQueue Op) : Filled (tuCmdqReset q) where
  count_le := Nat.zero_le _
  head := (Nat.zero_mod _).symm
  next := rfl
  empty _ _ := rfl
  cmdId s hs := absurd hs (Nat.not_lt_zero s)
  not_issued _ := nofun
  submitted := rfl
  content := nofun
  executed c st := by
    constructor
    · nofun
    · rintro ⟨s, hs, _⟩
      exact absurd hs (Nat.not_lt_zero s)
  barriers s hs := absurd hs (Nat.not_lt_zero s)
  last := nofun
  cycle := by show 0 < 2 ^ 64; decide

/-- A new queue is one that has just been reset. -/
theorem create (capacity : UInt32) (synchronous : Bool) : Filled (tuCmdqCreate Op capacity synchronous) :=
  reset (tuCmdqCreate Op capacity synchronous)

theorem advance (h : Filled q) : Filled q.advance :=
  { h with cycle := Nat.mod_lt _ (by decide) }

theorem lt_count (h : Filled q) {s : Nat} (hs : (q.commands s).cmdId ≠ 0) : s < q.count := by
  by_contra hle
  rw [h.empty s (Nat.not_lt.1 hle)] at hs
  exact hs rfl

theorem submitted_iff (h : Filled q) {c : Nat} : c ∈ cmdsSubmitted q.log ↔ 1 ≤ c ∧ c ≤ q.count := by
  rw [h.submitted, List.mem_range'_1]
  omega

theorem head_eq (h : Filled q) (hroom : q.count < q.capacity) : q.head = q.count := by
  rw [h.head, Nat.mod_eq_of_lt hroom]

/-- The slot of a submitted command is found by its id. -/
theorem findCommand_eq (h : Filled q) {c : Nat} (h1 : 1 ≤ c) (hc : c ≤ q.count) : q.findCommand c = some (c - 1) := by
  have hle := h.count_le
  unfold findCommand
  rw [List.find?_eq_some_iff_getElem]
  have hid : (q.commands (c - 1)).cmdId = c := by
    rw [h.cmdId (c - 1) (by omega)]
    omega
  refine ⟨by simpa using hid, c - 1, by rw [List.length_range]; omega, List.getElem_range _, ?_⟩
  intro j hj
  rw [List.getElem_range]
  have hj' : (q.commands j).cmdId = j + 1 := h.cmdId j (by omega)
  simp only [hj', Bool.not_eq_true', decide_eq_false_iff_not]
  omega

/-- The log has the completion of every command whose slot is completed. -/
theorem mem_completed (h : Filled q) {c : Nat} (h1 : 1 ≤ c) (hc : c ≤ q.count)
    (hst : (q.commands (c - 1)).status = .completed) : .executed c .completed ∈ q.log :=
  (h.executed c .completed).2 ⟨c - 1, by omega, by omega, hst, nofun⟩

/-- A submission fills the next slot. -/
theorem enqueue (h : Filled q) (hroom : q.count < q.capacity) (opcode : UInt32) (opDesc : Option Op)
    (depIds : List Nat) : Filled (q.enqueue opcode opDesc depIds) := by
  have hhead := h.head_eq hroom
  have hne : ∀ s, s ≠ q.count → (q.enqueue opcode opDesc depIds).commands s = q.commands s := by
    intro s hs
    exact enqueue_of_ne q opcode opDesc depIds (by rwa [hhead])
  have hself := enqueue_self q opcode opDesc depIds
  rw [hhead] at hself
  have hcount : (q.enqueue opcode opDesc depIds).count = q.count + 1 := rfl
  have hlog : (q.enqueue opcode opDesc depIds).log =
      q.log ++ [.submitted q.nextCmdId depIds (opcode = TuCmd.barrier)] := rfl
  constructor
  case count_le => exact hroom
  case head =>
    show (q.head + 1) % q.capacity = (q.count + 1) % q.capacity
    rw [hhead]
  case next =>
    show q.nextCmdId + 1 = q.count + 1 + 1
    rw [h.next]
  case empty =>
    intro s hs
    rw [hcount] at hs
    rw [hne s (by omega)]
    exact h.empty s (by omega)
  case cmdId =>
    intro s hs
    rw [hcount] at hs
    by_cases hsc : s = q.count
    · rw [hsc, hself]
      exact h.next
    · rw [hne s hsc]
      exact h.cmdId s (by omega)
  case not_issued =>
    intro s
    by_cases hsc : s = q.count
    · rw [hsc, hself]
      nofun
    · rw [hne s hsc]
      exact h.not_issued s
  case submitted =>
    rw [hlog, cmdsSubmitted_submitted, h.submitted, hcount, List.range'_1_concat, h.next, Nat.add_comm q.count 1]
  -- an old event speaks of a slot before the head, the new one of the head
  case content =>
    intro c deps bar hmem
    rw [hlog, List.mem_append, List.mem_singleton] at hmem
    rcases hmem with hmem | hmem
    · have hc := h.submitted_iff.1 (mem_cmdsSubmitted hmem)
      rw [hne (c - 1) (by omega)]
      exact h.content c deps bar hmem
    · injection hmem with hc hdeps hbar
      have hslot : c - 1 = q.count := by rw [hc, h.next]; rfl
      rw [hslot, hself]
      exact ⟨hdeps.symm, hbar.symm⟩
  case executed =>
    intro c st
    rw [hlog, List.mem_append, List.mem_singleton, h.executed, hcount]
    constructor
    · rintro (⟨s, hs, hc, hst, hp⟩ | hfalse)
      · exact ⟨s, by omega, hc, by rwa [hne s (by omega)], hp⟩
      · cases hfalse
    · rintro ⟨s, hs, hc, hst, hp⟩
      by_cases hsc : s = q.count
      · rw [hsc, hself] at hst
        exact absurd hst.symm hp
      · rw [hne s hsc] at hst
        exact Or.inl ⟨s, by omega, hc, hst, hp⟩
  case barriers =>
    intro s hs hbar
    show s < if decide (opcode = TuCmd.barrier) then q.nextCmdId else q.lastBarrierId
    rw [hcount] at hs
    by_cases hsc : s = q.count
    · rw [hsc, hself] at hbar
      rw [if_pos hbar, h.next, hsc]
      exact Nat.lt_succ_self _
    · rw [hne s hsc] at hbar
      have hlt := h.barriers s (by omega) hbar
      have hnext := h.next
      split <;> omega
  case last =>
    show 0 < (if decide (opcode = TuCmd.barrier) then q.nextCmdId else q.lastBarrierId) →
      (if decide (opcode = TuCmd.barrier) then q.nextCmdId else q.lastBarrierId) ≤ q.count + 1 ∧
        ((q.enqueue opcode opDesc depIds).commands
          ((if decide (opcode = TuCmd.barrier) then q.nextCmdId else q.lastBarrierId) - 1)).isBarrier
    split
    · rename_i hbar
      intro _
      rw [h.next, Nat.add_sub_cancel, hself]
      exact ⟨Nat.le_refl _, hbar⟩
    · intro hpos
      obtain ⟨hle, hbar⟩ := h.last hpos
      rw [hne _ (by omega)]
      exact ⟨by omega, hbar⟩
  case cycle => exact h.cycle

/-- Executing a waiting command only settles its status. -/
theorem execute (h : Filled q) {i : Nat} (hi : i < q.count) (hp : (q.commands i).status = .pending) :
    Filled (executeCommand q i) := by
  have hne : ∀ s, s ≠ i → (executeCommand q i).commands s = q.commands s := fun s hs => executeCommand_of_ne q i hs
  have hself := executeCommand_self q i
  have hbarrier : ∀ s, ((executeCommand q i).commands s).isBarrier = (q.commands s).isBarrier := by
    intro s
    by_cases hs : s = i
    · rw [hs, hself, TuCommand.executed_isBarrier]
    · rw [hne s hs]
  constructor
  case count_le => simpa using h.count_le
  case head => simpa using h.head
  case next => simpa using h.next
  case empty =>
    intro s hs
    rw [executeCommand_count] at hs
    rw [hne s (by omega)]
    exact h.empty s hs
  case cmdId =>
    intro s hs
    rw [executeCommand_count] at hs
    by_cases hsi : s = i
    · rw [hsi, hself, TuCommand.executed_cmdId]
      exact h.cmdId i hi
    · rw [hne s hsi]
      exact h.cmdId s hs
  case not_issued =>
    intro s
    by_cases hsi : s = i
    · rw [hsi, hself, TuCommand.executed_status]
      exact TuCommand.outcome_ne_issued _
    · rw [hne s hsi]
      exact h.not_issued s
  case submitted =>
    rw [executeCommand_log, cmdsSubmitted_executed, executeCommand_count]
    exact h.submitted
  case content =>
    intro c deps bar hmem
    rw [executeCommand_log, List.mem_append, List.mem_singleton] at hmem
    rcases hmem with hmem | hmem
    · obtain ⟨hdeps, hbar⟩ := h.content c deps bar hmem
      rw [hbarrier]
      by_cases hsi : c - 1 = i
      · rw [hsi] at hdeps hbar ⊢
        rw [hself, TuCommand.executed_depIds]
        exact ⟨hdeps, hbar⟩
      · rw [hne _ hsi]
        exact ⟨hdeps, hbar⟩
    · cases hmem
  case executed =>
    intro c st
    rw [executeCommand_log, List.mem_append, List.mem_singleton, h.executed, executeCommand_count, h.cmdId i hi]
    constructor
    · rintro (⟨s, hs, hc, hst, hpend⟩ | hev)
      · have hsi : s ≠ i := by
          rintro rfl
          exact hpend (hst.symm.trans hp)
        exact ⟨s, hs, hc, by rwa [hne s hsi], hpend⟩
      · injection hev with hc hst
        refine ⟨i, hi, hc, ?_, hst ▸ TuCommand.outcome_ne_pending _⟩
        rw [hself, TuCommand.executed_status, hst]
    · rintro ⟨s, hs, hc, hst, hpend⟩
      by_cases hsi : s = i
      · rw [hsi, hself, TuCommand.executed_status] at hst
        exact Or.inr (by rw [hc, hst, hsi])
      · rw [hne s hsi] at hst
        exact Or.inl ⟨s, hs, hc, hst, hpend⟩
  case barriers =>
    intro s hs hbar
    rw [executeCommand_count] at hs
    rw [hbarrier] at hbar
    rw [executeCommand_lastBarrierId]
    exact h.barriers s hs hbar
  case last =>
    rw [executeCommand_lastBarrierId, executeCommand_count, hbarrier]
    exact h.last
  case cycle =>
    rw [executeCommand_currentCycle]
    exact h.cycle

end Filled

end Tusim
