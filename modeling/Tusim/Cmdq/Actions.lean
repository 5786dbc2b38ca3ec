import Tusim.Cmdq.Slots

/-!
# The actions of a command queue

A call on an asynchronous queue is a sequence of actions: write a command into a slot, move the clock, look at one
slot, reset.  `exec_actions` gives the sequence of every call, so that a property of all runs is a property of each
action (`Run.invariant`).  A synchronous queue has executed all it holds (`Settled`), so its ticks do nothing.
-/

namespace Tusim

open Word TuCommandQueue

variable {Op : Type}

inductive TuCmdqAction (Op : Type)
  | enqueue (opcode : UInt32) (opDesc : Option Op) (depIds : List Nat)
  | advance
  | scan (slot : Nat)
  | reset

namespace TuCommandQueue

def act (q : TuCommandQueue Op) : TuCmdqAction Op → TuCommandQueue Op
  | .enqueue opcode opDesc depIds => if q.capacity ≤ q.count then q else q.enqueue opcode opDesc depIds
  | .advance => q.advance
  | .scan slot => q.scanSlot slot
  | .reset => tuCmdqReset q

def tickActions (Op : Type) (capacity : Nat) : List (TuCmdqAction Op) :=
  .advance :: (List.range capacity).map .scan

def submitActions (q : TuCommandQueue Op) (opcode : UInt32) (opDesc : Option Op) (depIds : List Nat) :
    List (TuCmdqAction Op) :=
  if q.capacity ≤ q.count then [] else .enqueue opcode opDesc depIds :: tickActions Op q.capacity

def waitActions (cmdId start : Nat) (timeoutCycles : UInt64) : Nat → TuCommandQueue Op → List (TuCmdqAction Op)
  | 0, _ => []
  | rounds + 1, q =>
    match q.waitCheck cmdId with
    | some _ => []
    | none =>
      let q' := (tuCmdqTick q).1
      tickActions Op q.capacity ++
        if 0 < timeoutCycles.toNat ∧ timeoutCycles.toNat ≤ u64 (q'.currentCycle + 2 ^ 64 - start) then []
        else waitActions cmdId start timeoutCycles rounds q'

def drainActions : Nat → TuCommandQueue Op → List (TuCmdqAction Op)
  | 0, _ => []
  | rounds + 1, q =>
    if q.count = 0 then [] else tickActions Op q.capacity ++ drainActions rounds (tuCmdqTick q).1

/-- The actions a call makes on an asynchronous queue. -/
def actions (q : TuCommandQueue Op) : TuCmdqOp Op → List (TuCmdqAction Op)
  | .submit opcode opDesc depIds => q.submitActions opcode opDesc depIds
  | .barrier => q.submitActions TuCmd.barrier none []
  | .tick => tickActions Op q.capacity
  | .wait cmdId timeoutCycles rounds => waitActions cmdId q.currentCycle timeoutCycles rounds q
  | .sync rounds => drainActions rounds q
  | .reset => [.reset]

end TuCommandQueue

theorem tuCmdqTick_fst (q : TuCommandQueue Op) :
    (tuCmdqTick q).1 = (List.range q.capacity).foldl scanSlot q.advance := by
  have hfold : ∀ (slots : List Nat) (s : TuCommandQueue Op × Nat),
      (slots.foldl (fun s i => (s.1.scanSlot i, if s.1.ready i then s.2 + 1 else s.2)) s).1 =
        slots.foldl scanSlot s.1 := by
    intro slots
    induction slots with
    | nil => exact fun _ => rfl
    | cons i slots ih => exact fun s => ih _
  exact hfold _ _

theorem exec_tickActions (q : TuCommandQueue Op) :
    Run.exec act q (tickActions Op q.capacity) = (tuCmdqTick q).1 := by
  rw [tuCmdqTick_fst]
  unfold tickActions
  rw [Run.exec_cons]
  exact List.foldl_map

/-! ### Submissions -/

section

variable {q : TuCommandQueue Op} {opcode : UInt32} {opDesc : Option Op} {depIds : List Nat}

theorem act_enqueue (hroom : q.count < q.capacity) :
    act q (.enqueue opcode opDesc depIds) = q.enqueue opcode opDesc depIds := by
  show (if q.capacity ≤ q.count then q else q.enqueue opcode opDesc depIds) = _
  rw [if_neg (Nat.not_le.2 hroom)]

/-- A full queue refuses. -/
theorem tuCmdqSubmit_eq_none : tuCmdqSubmit q opcode opDesc depIds = none ↔ q.capacity ≤ q.count := by
  unfold tuCmdqSubmit
  dsimp only
  split
  · simp [*]
  · split <;> simp [*]

theorem step_submit_full (hfull : q.capacity ≤ q.count) : q.step (.submit opcode opDesc depIds) = q := by
  unfold step
  dsimp only
  rw [tuCmdqSubmit_eq_none.2 hfull]

theorem step_submit_async (hroom : q.count < q.capacity) (ha : q.synchronous = false) :
    q.step (.submit opcode opDesc depIds) = (tuCmdqTick (q.enqueue opcode opDesc depIds)).1 := by
  have hsync : (q.enqueue opcode opDesc depIds).synchronous = false := ha
  have hsubmit : tuCmdqSubmit q opcode opDesc depIds =
      some ((tuCmdqTick (q.enqueue opcode opDesc depIds)).1, q.nextCmdId) := by
    unfold tuCmdqSubmit
    dsimp only
    rw [if_neg (Nat.not_le.2 hroom), hsync, if_neg Bool.false_ne_true]
  unfold step
  dsimp only
  rw [hsubmit]

theorem step_submit_sync (hroom : q.count < q.capacity) (hs : q.synchronous = true) :
    q.step (.submit opcode opDesc depIds) = executeCommand (q.enqueue opcode opDesc depIds) q.head := by
  have hsync : (q.enqueue opcode opDesc depIds).synchronous = true := hs
  have hsubmit : tuCmdqSubmit q opcode opDesc depIds =
      some (executeCommand (q.enqueue opcode opDesc depIds) q.head, q.nextCmdId) := by
    unfold tuCmdqSubmit
    dsimp only
    rw [if_neg (Nat.not_le.2 hroom), hsync, if_pos rfl]
  unfold step
  dsimp only
  rw [hsubmit]

end

/-! ### Ready commands -/

section

variable {q : TuCommandQueue Op} {i : Nat}

/-- What lets a command execute in a tick. -/
theorem ready_iff : q.ready i = true ↔ (q.commands i).cmdId ≠ 0 ∧ (q.commands i).status = .pending ∧
    (0 < q.lastBarrierId ∧ q.lastBarrierId < (q.commands i).cmdId → barrierClear q = true) ∧
    depsSatisfied q (q.commands i) = true := by
  unfold ready
  by_cases hb : 0 < q.lastBarrierId ∧ q.lastBarrierId < (q.commands i).cmdId
  · simp [hb.1, hb.2, and_assoc]
  · have hb' : (decide (0 < q.lastBarrierId) && decide (q.lastBarrierId < (q.commands i).cmdId)) = false := by
      rw [Bool.and_eq_false_iff, decide_eq_false_iff_not, decide_eq_false_iff_not]
      omega
    rw [hb']
    simp [hb, and_assoc]

theorem ready_cmdId (h : q.ready i = true) : (q.commands i).cmdId ≠ 0 := (ready_iff.1 h).1

theorem ready_pending (h : q.ready i = true) : (q.commands i).status = .pending := (ready_iff.1 h).2.1

end

/-! ### What an action leaves alone -/

@[simp] theorem retire_of_async {q : TuCommandQueue Op} (ha : q.synchronous = false) (i : Nat) :
    q.retire i = executeCommand q i := by
  unfold retire
  dsimp only
  rw [executeCommand_synchronous, ha]
  rfl

theorem scanSlot_eq {q : TuCommandQueue Op} (ha : q.synchronous = false) (i : Nat) :
    q.scanSlot i = if q.ready i then executeCommand q i else q := by
  unfold scanSlot
  rw [retire_of_async ha]

@[simp] theorem act_synchronous (q : TuCommandQueue Op) (a : TuCmdqAction Op) :
    (act q a).synchronous = q.synchronous := by
  cases a with
  | enqueue opcode opDesc depIds =>
    unfold act
    dsimp only
    split <;> rfl
  | advance => rfl
  | scan i =>
    show (q.scanSlot i).synchronous = q.synchronous
    unfold scanSlot retire
    dsimp only
    split
    · split <;> simp
    · rfl
  | reset => rfl

theorem exec_synchronous (q : TuCommandQueue Op) (as : List (TuCmdqAction Op)) :
    (Run.exec act q as).synchronous = q.synchronous :=
  Run.invariant (P := fun q' => q'.synchronous = q.synchronous) (fun s a h => (act_synchronous s a).trans h) rfl as

theorem tuCmdqTick_synchronous (q : TuCommandQueue Op) : (tuCmdqTick q).1.synchronous = q.synchronous := by
  rw [← exec_tickActions]
  exact exec_synchronous q _

/-! ### The calls of an asynchronous queue -/

private theorem exec_waitActions (cmdId start : Nat) (timeoutCycles : UInt64) (rounds : Nat) {q : TuCommandQueue Op}
    (ha : q.synchronous = false) :
    Run.exec act q (waitActions cmdId start timeoutCycles rounds q) =
      (waitRounds cmdId start timeoutCycles rounds q).1 := by
  induction rounds generalizing q with
  | zero => rfl
  | succ rounds ih =>
    have ha' : (tuCmdqTick q).1.synchronous = false := (tuCmdqTick_synchronous q).trans ha
    unfold waitActions waitRounds
    cases hcheck : q.waitCheck cmdId with
    | some result => rfl
    | none =>
      dsimp only
      rw [Run.exec_append, exec_tickActions, ha, if_neg Bool.false_ne_true]
      split
      · rfl
      · exact ih ha'

private theorem exec_drainActions (rounds : Nat) (q : TuCommandQueue Op) :
    Run.exec act q (drainActions rounds q) = (drain rounds q).1 := by
  induction rounds generalizing q with
  | zero => rfl
  | succ rounds ih =>
    unfold drainActions drain
    split
    · rfl
    · rw [Run.exec_append, exec_tickActions]
      exact ih _

private theorem exec_submitActions {q : TuCommandQueue Op} (ha : q.synchronous = false) (opcode : UInt32)
    (opDesc : Option Op) (depIds : List Nat) :
    Run.exec act q (q.submitActions opcode opDesc depIds) = q.step (.submit opcode opDesc depIds) := by
  unfold submitActions
  by_cases hfull : q.capacity ≤ q.count
  · rw [if_pos hfull, step_submit_full hfull]
    rfl
  · rw [if_neg hfull, Run.exec_cons, act_enqueue (Nat.not_le.1 hfull),
      step_submit_async (Nat.not_le.1 hfull) ha]
    exact exec_tickActions (q.enqueue opcode opDesc depIds)

/-- A call on an asynchronous queue is the sequence of its actions. -/
theorem exec_actions {q : TuCommandQueue Op} (ha : q.synchronous = false) (op : TuCmdqOp Op) :
    Run.exec act q (q.actions op) = q.step op := by
  cases op with
  | submit opcode opDesc depIds => exact exec_submitActions ha opcode opDesc depIds
  | barrier => exact exec_submitActions ha TuCmd.barrier none []
  | tick => exact exec_tickActions q
  | wait cmdId timeoutCycles rounds => exact exec_waitActions cmdId q.currentCycle timeoutCycles rounds ha
  | sync rounds =>
    show Run.exec act q (drainActions rounds q) = (tuCmdqSync q rounds).1
    unfold tuCmdqSync
    rw [ha, if_neg Bool.false_ne_true]
    exact exec_drainActions rounds q
  | reset => rfl

/-! ### Reachable queues -/

theorem Filled.act {q : TuCommandQueue Op} (h : Filled q) (ha : q.synchronous = false) (a : TuCmdqAction Op) :
    Filled (act q a) := by
  cases a with
  | enqueue opcode opDesc depIds =>
    show Filled (if q.capacity ≤ q.count then q else q.enqueue opcode opDesc depIds)
    split
    · exact h
    · rename_i hroom
      exact h.enqueue (Nat.not_le.1 hroom) opcode opDesc depIds
  | advance => exact h.advance
  | scan i =>
    show Filled (q.scanSlot i)
    rw [scanSlot_eq ha]
    split
    · rename_i hready
      exact h.execute (h.lt_count (ready_cmdId hready)) (ready_pending hready)
    · exact h
  | reset => exact Filled.reset q

/-- A slot out of the queue is never ready. -/
theorem Filled.not_ready_of_le {q : TuCommandQueue Op} (h : Filled q) {i : Nat} (hi : q.capacity ≤ i) : q.ready i = false := by
  by_contra hready
  rw [Bool.not_eq_false] at hready
  have hlt := h.lt_count (ready_cmdId hready)
  have hle := h.count_le
  omega

/-- Nothing in the queue waits to be executed. -/
def Settled (q : TuCommandQueue Op) : Prop := ∀ s, s < q.count → (q.commands s).status ≠ .pending

theorem Settled.not_ready {q : TuCommandQueue Op} (hq : Settled q) (h : Filled q) (i : Nat) : q.ready i = false := by
  by_contra hready
  rw [Bool.not_eq_false] at hready
  exact hq i (h.lt_count (ready_cmdId hready)) (ready_pending hready)

/-- A tick of a queue with nothing to execute moves the clock. -/
theorem tuCmdqTick_of_not_ready {q : TuCommandQueue Op} (h : ∀ i, q.advance.ready i = false) :
    tuCmdqTick q = (q.advance, 0) := by
  have hfold : ∀ slots : List Nat,
      slots.foldl (fun s i => (s.1.scanSlot i, if s.1.ready i then s.2 + 1 else s.2)) (q.advance, 0) =
        (q.advance, 0) := by
    intro slots
    induction slots with
    | nil => rfl
    | cons i slots ih =>
      rw [List.foldl_cons]
      have hscan : q.advance.scanSlot i = q.advance := by
        unfold scanSlot
        rw [h i, if_neg Bool.false_ne_true]
      dsimp only
      rw [hscan, h i, if_neg Bool.false_ne_true]
      exact ih
  exact hfold _

/-- A synchronous queue does not move while a call waits. -/
theorem waitRounds_of_sync {q : TuCommandQueue Op} (hs : q.synchronous = true) (cmdId start : Nat)
    (timeoutCycles : UInt64) (rounds : Nat) : (waitRounds cmdId start timeoutCycles rounds q).1 = q := by
  induction rounds with
  | zero => rfl
  | succ rounds ih =>
    unfold waitRounds
    split
    · rfl
    · dsimp only
      rw [if_pos hs]
      split
      · rfl
      · exact ih

/-- What is true of every reachable queue. -/
structure Sound (q : TuCommandQueue Op) : Prop where
  filled : Filled q
  settled : q.synchronous = true → Settled q

namespace Sound

theorem create (capacity : UInt32) (synchronous : Bool) : Sound (tuCmdqCreate Op capacity synchronous) :=
  ⟨Filled.create capacity synchronous, fun _ s hs => absurd hs (Nat.not_lt_zero s)⟩

theorem reset (q : TuCommandQueue Op) : Sound (tuCmdqReset q) :=
  ⟨Filled.reset q, fun _ s hs => absurd hs (Nat.not_lt_zero s)⟩

variable {q : TuCommandQueue Op}

theorem advance (h : Sound q) : Sound q.advance := ⟨h.filled.advance, h.settled⟩

private theorem submit_sync (h : Sound q) (hs : q.synchronous = true) (opcode : UInt32) (opDesc : Option Op)
    (depIds : List Nat) : Sound (q.step (.submit opcode opDesc depIds)) := by
  by_cases hroom : q.count < q.capacity
  · have hhead := h.filled.head_eq hroom
    have hself : ((q.enqueue opcode opDesc depIds).commands q.head).status = .pending := by rw [enqueue_self]
    have hcount : (q.enqueue opcode opDesc depIds).count = q.count + 1 := rfl
    rw [step_submit_sync hroom hs]
    refine ⟨(h.filled.enqueue hroom opcode opDesc depIds).execute (by rw [hhead, hcount]; omega) hself, ?_⟩
    intro _ s hlt
    rw [executeCommand_count, hcount] at hlt
    by_cases hsc : s = q.head
    · rw [hsc, executeCommand_self, TuCommand.executed_status]
      exact TuCommand.outcome_ne_pending _
    · rw [executeCommand_of_ne _ _ hsc, enqueue_of_ne _ _ _ _ hsc]
      exact h.settled hs s (by omega)
  · rw [step_submit_full (Nat.not_lt.1 hroom)]
    exact h

private theorem step_sync (h : Sound q) (hs : q.synchronous = true) (op : TuCmdqOp Op) : Sound (q.step op) := by
  cases op with
  | submit opcode opDesc depIds => exact h.submit_sync hs opcode opDesc depIds
  | barrier => exact h.submit_sync hs TuCmd.barrier none []
  | tick =>
    have htick := tuCmdqTick_of_not_ready fun i => (h.settled hs).not_ready (q := q.advance) h.filled.advance i
    show Sound (tuCmdqTick q).1
    rw [htick]
    exact h.advance
  | wait cmdId timeoutCycles rounds =>
    have hwait := waitRounds_of_sync hs cmdId q.currentCycle timeoutCycles rounds
    show Sound (waitRounds cmdId q.currentCycle timeoutCycles rounds q).1
    rwa [hwait]
  | sync rounds =>
    show Sound (tuCmdqSync q rounds).1
    unfold tuCmdqSync
    rwa [if_pos hs]
  | reset => exact Sound.reset q

theorem step (h : Sound q) (op : TuCmdqOp Op) : Sound (q.step op) := by
  by_cases hs : q.synchronous = true
  · exact h.step_sync hs op
  · rw [Bool.not_eq_true] at hs
    have hkept : Filled (q.step op) ∧ (q.step op).synchronous = false := by
      rw [← exec_actions hs op]
      refine Run.invariant (P := fun q' => Filled q' ∧ q'.synchronous = false) ?_ ⟨h.filled, hs⟩ _
      rintro s a ⟨hfilled, hasync⟩
      exact ⟨hfilled.act hasync a, (act_synchronous s a).trans hasync⟩
    refine ⟨hkept.1, fun htrue => ?_⟩
    rw [hkept.2] at htrue
    exact absurd htrue Bool.false_ne_true

end Sound

/-- Every reachable queue keeps its commands in their slots, and a synchronous one has executed them. -/
theorem run_sound (capacity : UInt32) (synchronous : Bool) (ops : List (TuCmdqOp Op)) :
    Sound (run capacity synchronous ops) :=
  Run.invariant (fun _ op h => h.step op) (Sound.create capacity synchronous) ops

/-- A property of queues in which nothing can be executed, kept by the clock. -/
structure Stuck (P : TuCommandQueue Op → Prop) : Prop where
  ready : ∀ q, P q → ∀ i, q.ready i = false
  advance : ∀ q, P q → P q.advance

namespace Stuck

variable {P : TuCommandQueue Op → Prop} {q : TuCommandQueue Op}

theorem tick (hP : Stuck P) (h : P q) : P (tuCmdqTick q).1 := by
  rw [tuCmdqTick_of_not_ready (q := q) (hP.ready q h)]
  exact hP.advance q h

theorem wait (hP : Stuck P) (h : P q) (cmdId start : Nat) (timeoutCycles : UInt64) (rounds : Nat) :
    P (waitRounds cmdId start timeoutCycles rounds q).1 := by
  induction rounds generalizing q with
  | zero => exact h
  | succ rounds ih =>
    have hround : P (if q.synchronous then q else (tuCmdqTick q).1) := by
      split
      · exact h
      · exact hP.tick h
    unfold waitRounds
    split
    · exact h
    · dsimp only
      generalize (if q.synchronous = true then q else (tuCmdqTick q).1) = q' at hround ⊢
      split
      · exact hround
      · exact ih hround

theorem sync (hP : Stuck P) (h : P q) (rounds : Nat) : P (tuCmdqSync q rounds).1 := by
  have hdrain : ∀ rounds q, P q → P (drain rounds q).1 := by
    intro rounds
    induction rounds with
    | zero => exact fun _ h => h
    | succ rounds ih =>
      intro q h
      unfold drain
      split
      · exact h
      · exact ih _ (hP.tick h)
  unfold tuCmdqSync
  split
  · exact h
  · exact hdrain rounds q h

end Stuck

/-- A property of queues kept by a submission, by the clock, by the execution of a waiting command and by a reset. -/
structure Kept (P : TuCommandQueue Op → Prop) : Prop where
  enqueue : ∀ q, Filled q → P q → q.count < q.capacity → ∀ opcode opDesc depIds, P (q.enqueue opcode opDesc depIds)
  advance : ∀ q, P q → P q.advance
  execute : ∀ q i, Filled q → P q → i < q.count → (q.commands i).status = .pending → P (executeCommand q i)
  reset : ∀ q, P (tuCmdqReset q)

namespace Kept

variable {P : TuCommandQueue Op → Prop} {q : TuCommandQueue Op}

private theorem act (hP : Kept P) (h : Filled q) (ha : q.synchronous = false) (hq : P q) (a : TuCmdqAction Op) :
    P (act q a) := by
  cases a with
  | enqueue opcode opDesc depIds =>
    show P (if q.capacity ≤ q.count then q else q.enqueue opcode opDesc depIds)
    split
    · exact hq
    · rename_i hroom
      exact hP.enqueue q h hq (Nat.not_le.1 hroom) opcode opDesc depIds
  | advance => exact hP.advance q hq
  | scan i =>
    show P (q.scanSlot i)
    rw [scanSlot_eq ha]
    split
    · rename_i hready
      exact hP.execute q i h hq (h.lt_count (ready_cmdId hready)) (ready_pending hready)
    · exact hq
  | reset => exact hP.reset q

private theorem submit_sync (hP : Kept P) (h : Filled q) (hs : q.synchronous = true) (hq : P q) (opcode : UInt32)
    (opDesc : Option Op) (depIds : List Nat) : P (q.step (.submit opcode opDesc depIds)) := by
  by_cases hroom : q.count < q.capacity
  · have hhead := h.head_eq hroom
    have hcount : (q.enqueue opcode opDesc depIds).count = q.count + 1 := rfl
    have hnew : ((q.enqueue opcode opDesc depIds).commands q.head).status = .pending := by
      simp [TuCommandQueue.enqueue]
    rw [step_submit_sync hroom hs]
    apply hP.execute _ _ (h.enqueue hroom opcode opDesc depIds) (hP.enqueue q h hq hroom opcode opDesc depIds)
    · omega
    · exact hnew
  · rw [step_submit_full (Nat.not_lt.1 hroom)]
    exact hq

/-- What the small actions keep is kept by every call in either mode. -/
theorem step (hP : Kept P) (h : Sound q) (hq : P q) (op : TuCmdqOp Op) : P (q.step op) := by
  by_cases hs : q.synchronous = true
  · cases op with
    | submit opcode opDesc depIds => exact hP.submit_sync h.filled hs hq opcode opDesc depIds
    | barrier => exact hP.submit_sync h.filled hs hq TuCmd.barrier none []
    | tick =>
      have htick := tuCmdqTick_of_not_ready fun i => (h.settled hs).not_ready (q := q.advance) h.filled.advance i
      show P (tuCmdqTick q).1
      rw [htick]
      exact hP.advance q hq
    | wait cmdId timeoutCycles rounds =>
      have hwait := waitRounds_of_sync hs cmdId q.currentCycle timeoutCycles rounds
      show P (waitRounds cmdId q.currentCycle timeoutCycles rounds q).1
      rwa [hwait]
    | sync rounds =>
      show P (tuCmdqSync q rounds).1
      unfold tuCmdqSync
      rwa [if_pos hs]
    | reset => exact hP.reset q
  · rw [Bool.not_eq_true] at hs
    rw [← exec_actions hs op]
    have hkept := Run.invariant (P := fun q' => Filled q' ∧ q'.synchronous = false ∧ P q')
      (fun q' a h => ⟨h.1.act h.2.1 a, (act_synchronous q' a).trans h.2.1, hP.act h.1 h.2.1 h.2.2 a⟩)
      ⟨h.filled, hs, hq⟩ (q.actions op)
    exact hkept.2.2

/-- What a reset brings and the small actions keep holds of every reachable queue. -/
theorem run (hP : Kept P) (capacity : UInt32) (synchronous : Bool) (ops : List (TuCmdqOp Op)) :
    P (run capacity synchronous ops) := by
  -- a new queue is one that has just been reset
  have hcreate : P (tuCmdqCreate Op capacity synchronous) := hP.reset (tuCmdqCreate Op capacity synchronous)
  have hboth := Run.invariant (P := fun q => Sound q ∧ P q) (fun _ op h => ⟨h.1.step op, hP.step h.1 h.2 op⟩)
    ⟨Sound.create capacity synchronous, hcreate⟩ ops
  exact hboth.2

end Kept

end Tusim
