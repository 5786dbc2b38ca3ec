import Mathlib.Data.Finset.Card
import Mathlib.Order.Interval.Finset.Nat
import Tusim.Cmdq.Actions

/-!
# Command accounting

The three totals count the commands since the last reset.  A submission adds a waiting command, an execution takes
one, so `total_submitted` is what completed, what faulted and what waits.  The log gives the ids: they are issued in
increasing order, and no id is executed twice, since an execution takes a waiting command and none waits again.
-/

namespace Tusim

open Word TuCommandQueue

variable {Op : Type}

namespace TuCommandQueue

/-- The slots with a waiting command. -/
def pendingSlots (q : TuCommandQueue Op) : Finset Nat :=
  {i ∈ Finset.range q.capacity | (q.commands i).cmdId ≠ 0 ∧ (q.commands i).status = .pending}

/-- The totals add up, the ids grow with the submissions, and only submitted commands are executed, each once. -/
structure Accounted (q : TuCommandQueue Op) : Prop where
  total : q.totalSubmitted = q.totalCompleted + q.totalFaulted + q.pendingSlots.card
  increasing : (cmdsSubmitted q.log).Pairwise (· < ·)
  once : (cmdsExecuted q.log).Nodup
  submitted : cmdsExecuted q.log ⊆ cmdsSubmitted q.log
  issued : ∀ opcode opDesc depIds q' c, tuCmdqSubmit q opcode opDesc depIds = some (q', c) →
    cmdsSubmitted q'.log = cmdsSubmitted q.log ++ [c]

end TuCommandQueue

/-! ### Waiting commands -/

section

variable {q : TuCommandQueue Op}

theorem Filled.mem_pendingSlots (h : Filled q) {i : Nat} :
    i ∈ q.pendingSlots ↔ i < q.count ∧ (q.commands i).status = .pending := by
  have hle := h.count_le
  unfold pendingSlots
  rw [Finset.mem_filter, Finset.mem_range]
  constructor
  · rintro ⟨_, hid, hp⟩
    exact ⟨h.lt_count hid, hp⟩
  · rintro ⟨hi, hp⟩
    have hid := h.cmdId i hi
    exact ⟨by omega, by omega, hp⟩

theorem Filled.pendingSlots_enqueue (h : Filled q) (hroom : q.count < q.capacity) (opcode : UInt32)
    (opDesc : Option Op) (depIds : List Nat) :
    (q.enqueue opcode opDesc depIds).pendingSlots = insert q.count q.pendingSlots := by
  have hhead := h.head_eq hroom
  have hcount : (q.enqueue opcode opDesc depIds).count = q.count + 1 := rfl
  ext i
  rw [(h.enqueue hroom opcode opDesc depIds).mem_pendingSlots, Finset.mem_insert, h.mem_pendingSlots, hcount]
  by_cases hi : i = q.count
  · simp [hi, TuCommandQueue.enqueue, hhead]
  · rw [enqueue_of_ne q opcode opDesc depIds (by rwa [hhead])]
    constructor
    · rintro ⟨hlt, hp⟩
      exact Or.inr ⟨by omega, hp⟩
    · rintro (heq | ⟨hlt, hp⟩)
      · exact absurd heq hi
      · exact ⟨by omega, hp⟩

theorem Filled.pendingSlots_execute (h : Filled q) {i : Nat} (hi : i < q.count)
    (hp : (q.commands i).status = .pending) : (executeCommand q i).pendingSlots = q.pendingSlots.erase i := by
  ext s
  rw [(h.execute hi hp).mem_pendingSlots, Finset.mem_erase, h.mem_pendingSlots, executeCommand_count,
    executeCommand_commands]
  by_cases hs : s = i
  · simp [hs, TuCommand.outcome_ne_pending]
  · simp [hs]

end

/-! ### Runs -/

/-- Every command of the queue is in one of the totals or waits, and none has been executed twice. -/
private structure Counted (q : TuCommandQueue Op) : Prop where
  submitted : q.totalSubmitted = q.count
  balance : q.totalCompleted + q.totalFaulted + q.pendingSlots.card = q.count
  once : (cmdsExecuted q.log).Nodup

namespace Counted

variable {q : TuCommandQueue Op}

private theorem enqueue (h : Counted q) (hq : Filled q) (hroom : q.count < q.capacity) (opcode : UInt32)
    (opDesc : Option Op) (depIds : List Nat) : Counted (q.enqueue opcode opDesc depIds) := by
  have hcap := q.capacity_lt
  have hnew : q.count ∉ q.pendingSlots := by
    rw [hq.mem_pendingSlots]
    omega
  constructor
  · show u64 (q.totalSubmitted + 1) = q.count + 1
    rw [h.submitted]
    exact Nat.mod_eq_of_lt (by omega)
  · have hcard := Finset.card_insert_of_notMem hnew
    have hbalance := h.balance
    rw [hq.pendingSlots_enqueue hroom, hcard]
    show q.totalCompleted + q.totalFaulted + (q.pendingSlots.card + 1) = q.count + 1
    omega
  · show (cmdsExecuted (q.log ++ [_])).Nodup
    rw [cmdsExecuted_submitted]
    exact h.once

/-- One of the totals grows by one. -/
private theorem totals_execute (h : Counted q) (hq : Filled q) (i : Nat) :
    (executeCommand q i).totalCompleted + (executeCommand q i).totalFaulted = q.totalCompleted + q.totalFaulted + 1 := by
  have hbalance := h.balance
  have hle := hq.count_le
  have hcap := q.capacity_lt
  -- the totals are bounded by the number of commands, so neither of them wraps
  have hcompleted : u64 (q.totalCompleted + 1) = q.totalCompleted + 1 := Nat.mod_eq_of_lt (by omega)
  have hfaulted : u64 (q.totalFaulted + 1) = q.totalFaulted + 1 := Nat.mod_eq_of_lt (by omega)
  unfold executeCommand
  dsimp only
  split
  · show u64 (q.totalCompleted + 1) + q.totalFaulted = _
    omega
  · show q.totalCompleted + u64 (q.totalFaulted + 1) = _
    omega

private theorem execute (h : Counted q) (hq : Filled q) {i : Nat} (hi : i < q.count)
    (hp : (q.commands i).status = .pending) : Counted (executeCommand q i) := by
  have hmem : i ∈ q.pendingSlots := hq.mem_pendingSlots.2 ⟨hi, hp⟩
  constructor
  · rw [executeCommand_count, ← h.submitted]
    unfold executeCommand
    dsimp only
    split <;> rfl
  · have hcard := Finset.card_erase_add_one hmem
    have hbalance := h.balance
    rw [h.totals_execute hq i, hq.pendingSlots_execute hi hp, executeCommand_count]
    omega
  · rw [executeCommand_log, cmdsExecuted_executed, List.nodup_append]
    refine ⟨h.once, List.nodup_singleton _, ?_⟩
    rintro c hc c' hc' rfl
    rw [List.mem_singleton, hq.cmdId i hi] at hc'
    -- an id in the log belongs to a slot that no longer waits
    obtain ⟨st, hst⟩ := mem_cmdsExecuted.1 hc
    obtain ⟨s, _, hcs, hstatus, hne⟩ := (hq.executed c st).1 hst
    have hsi : s = i := by omega
    rw [hsi] at hstatus
    exact hne (hstatus.symm.trans hp)

private theorem kept : Kept (@Counted Op) where
  enqueue _ hq h hroom := h.enqueue hq hroom
  advance _ h := ⟨h.submitted, h.balance, h.once⟩
  execute _ _ hq h := h.execute hq
  reset q := by
    refine ⟨rfl, ?_, List.nodup_nil⟩
    show 0 + 0 + (tuCmdqReset q).pendingSlots.card = 0
    rw [Finset.card_eq_zero.2]
    ext i
    rw [(Filled.reset q).mem_pendingSlots]
    simp [tuCmdqReset]

end Counted

/-! ### The ids that submissions return -/

theorem cmdsSubmitted_tick (q : TuCommandQueue Op) :
    cmdsSubmitted (tuCmdqTick q).1.log = cmdsSubmitted q.log := by
  have hscan : ∀ (q : TuCommandQueue Op) (i : Nat), cmdsSubmitted (q.scanSlot i).log = cmdsSubmitted q.log := by
    intro q i
    have hexec : cmdsSubmitted (executeCommand q i).log = cmdsSubmitted q.log := by
      rw [executeCommand_log, cmdsSubmitted_executed]
    unfold scanSlot retire
    dsimp only
    split
    · split <;> exact hexec
    · rfl
  have hfold : ∀ (slots : List Nat) (q : TuCommandQueue Op),
      cmdsSubmitted (slots.foldl scanSlot q).log = cmdsSubmitted q.log := by
    intro slots
    induction slots with
    | nil => exact fun _ => rfl
    | cons i slots ih => exact fun q => (ih _).trans (hscan q i)
  rw [tuCmdqTick_fst]
  exact hfold _ q.advance

theorem cmdsSubmitted_submit {q q' : TuCommandQueue Op} {opcode : UInt32} {opDesc : Option Op} {depIds : List Nat}
    {c : Nat} (h : tuCmdqSubmit q opcode opDesc depIds = some (q', c)) :
    cmdsSubmitted q'.log = cmdsSubmitted q.log ++ [c] := by
  have hnew : cmdsSubmitted (q.enqueue opcode opDesc depIds).log = cmdsSubmitted q.log ++ [q.nextCmdId] :=
    cmdsSubmitted_submitted q.log _ _ _
  unfold tuCmdqSubmit at h
  dsimp only at h
  split at h
  · cases h
  · split at h
    · cases h
      rw [executeCommand_log, cmdsSubmitted_executed]
      exact hnew
    · cases h
      rw [cmdsSubmitted_tick]
      exact hnew

/-- In every run of a queue in either mode the commands since the last reset are accounted for. -/
theorem run_accounted (capacity : UInt32) (synchronous : Bool) (ops : List (TuCmdqOp Op)) :
    (run capacity synchronous ops).Accounted := by
  have hcounted := Counted.kept.run capacity synchronous ops
  have hfilled := (run_sound capacity synchronous ops).filled
  refine ⟨?_, ?_, hcounted.once, ?_, fun _ _ _ _ _ h => cmdsSubmitted_submit h⟩
  · rw [hcounted.balance, hcounted.submitted]
  · rw [hfilled.submitted]
    exact List.pairwise_lt_range' 1
  · intro c hc
    obtain ⟨st, hst⟩ := mem_cmdsExecuted.1 hc
    obtain ⟨s, hs, rfl, _⟩ := (hfilled.executed c st).1 hst
    exact hfilled.submitted_iff.2 ⟨by omega, by omega⟩

end Tusim

/-!
### Occupancy of the command queue

`count` is raised by every submission and never lowered, so it is the number of commands in flight only while
nothing has been executed since the last reset.  `run_occupancy` is the exact condition on the submissions of a
run.
-/

namespace Tusim

open Word TuCommandQueue

variable {Op : Type}

namespace TuCommandQueue

/-- The number of submitted commands that are neither completed nor faulted. -/
def inFlight (q : TuCommandQueue Op) : Nat := ((cmdsSubmitted q.log).filter (· ∉ cmdsExecuted q.log)).length

/-- `count` is the number of commands in flight, and a submission is refused when they fill the queue. -/
def Occupancy (q : TuCommandQueue Op) : Prop :=
  q.count = q.inFlight ∧
    ∀ opcode opDesc depIds, tuCmdqSubmit q opcode opDesc depIds = none ↔ q.inFlight = q.capacity

/-- A submission is accepted by an asynchronous queue in which nothing is ready to execute afterwards. -/
def SubmitKeepsWaiting (q : TuCommandQueue Op) (opcode : UInt32) (opDesc : Option Op) (depIds : List Nat) : Prop :=
  q.count < q.capacity →
    q.synchronous = false ∧ ∀ i, i < q.capacity → (q.enqueue opcode opDesc depIds).ready i = false

/-- The call is no submission, is refused, or leaves every command waiting. -/
def KeepsWaiting (q : TuCommandQueue Op) : TuCmdqOp Op → Prop
  | .submit opcode opDesc depIds => q.SubmitKeepsWaiting opcode opDesc depIds
  | .barrier => q.SubmitKeepsWaiting TuCmd.barrier none []
  | .tick | .wait _ _ _ | .sync _ | .reset => True

end TuCommandQueue

theorem count_eq_inFlight {q : TuCommandQueue Op} (h : Filled q) :
    q.count = q.inFlight ↔ cmdsExecuted q.log = [] := by
  have hlength : (cmdsSubmitted q.log).length = q.count := by rw [h.submitted, List.length_range']
  unfold inFlight
  constructor
  · intro hcount
    have hall : ∀ c ∈ cmdsSubmitted q.log, c ∉ cmdsExecuted q.log := by
      have hself := List.length_filter_eq_length_iff.1 (hcount.symm.trans hlength.symm)
      intro c hc
      simpa using hself c hc
    rw [List.eq_nil_iff_forall_not_mem]
    intro c hc
    obtain ⟨st, hst⟩ := mem_cmdsExecuted.1 hc
    obtain ⟨s, hs, rfl, _⟩ := (h.executed c st).1 hst
    exact hall (s + 1) (h.submitted_iff.2 ⟨by omega, by omega⟩) hc
  · intro hnil
    rw [hnil, List.filter_eq_self.2 (by simp), hlength]

/-- Occupancy holds of a reachable queue exactly when it has executed nothing since the last reset. -/
theorem occupancy_iff {q : TuCommandQueue Op} (h : Filled q) : q.Occupancy ↔ cmdsExecuted q.log = [] := by
  constructor
  · exact fun ho => (count_eq_inFlight h).1 ho.1
  · intro hnil
    have hcount := (count_eq_inFlight h).2 hnil
    refine ⟨hcount, fun opcode opDesc depIds => ?_⟩
    have hle := h.count_le
    rw [tuCmdqSubmit_eq_none]
    omega

/-! ### The log only grows within a tick -/

theorem scanSlot_log (q : TuCommandQueue Op) (i : Nat) : q.log <+: (q.scanSlot i).log := by
  unfold scanSlot retire
  dsimp only
  split
  · have hexec : q.log <+: (executeCommand q i).log := by
      rw [executeCommand_log]
      exact List.prefix_append ..
    split <;> exact hexec
  · exact List.prefix_rfl

theorem scan_log (slots : List Nat) (q : TuCommandQueue Op) : q.log <+: (slots.foldl scanSlot q).log := by
  induction slots generalizing q with
  | nil => exact List.prefix_rfl
  | cons i slots ih => exact (scanSlot_log q i).trans (ih _)

private theorem cmdsExecuted_ne_nil {log log' : List TuCmdEvent} {c : Nat} {st : TuCmdStatus} (h : log <+: log')
    (hmem : .executed c st ∈ log) : cmdsExecuted log' ≠ [] :=
  List.ne_nil_of_mem (mem_cmdsExecuted.2 ⟨st, h.subset hmem⟩)

private theorem executeCommand_mem (q : TuCommandQueue Op) (i : Nat) :
    .executed (q.commands i).cmdId (q.commands i).outcome ∈ (executeCommand q i).log := by
  rw [executeCommand_log]
  exact List.mem_append_right _ (List.mem_singleton.2 rfl)

/-- A scan that finds a ready command executes one. -/
private theorem scan_executes {slots : List Nat} {q : TuCommandQueue Op} (ha : q.synchronous = false)
    (h : ∃ i ∈ slots, q.ready i = true) : cmdsExecuted (slots.foldl scanSlot q).log ≠ [] := by
  induction slots with
  | nil =>
    obtain ⟨i, hi, _⟩ := h
    cases hi
  | cons i slots ih =>
    rw [List.foldl_cons, scanSlot_eq ha]
    split
    · exact cmdsExecuted_ne_nil (scan_log slots _) (executeCommand_mem q i)
    · rename_i hready
      obtain ⟨j, hj, hready'⟩ := h
      rcases List.mem_cons.1 hj with rfl | hj
      · exact absurd hready' hready
      · exact ih ⟨j, hj, hready'⟩

/-! ### Runs -/

/-- Nothing has been executed and nothing can be. -/
private structure Waiting (q : TuCommandQueue Op) : Prop where
  sound : Sound q
  executed : cmdsExecuted q.log = []
  stuck : ∀ i, q.ready i = false

namespace Waiting

variable {q : TuCommandQueue Op}

private theorem stuck_waiting : Stuck (@Waiting Op) where
  ready _ h := h.stuck
  advance _ h := ⟨h.sound.advance, h.executed, h.stuck⟩

private theorem submit (h : Waiting q) (opcode : UInt32) (opDesc : Option Op) (depIds : List Nat)
    (hop : q.SubmitKeepsWaiting opcode opDesc depIds) : Waiting (q.step (.submit opcode opDesc depIds)) := by
  have hsound := h.sound.step (.submit opcode opDesc depIds)
  by_cases hroom : q.count < q.capacity
  · obtain ⟨ha, hstuck⟩ := hop hroom
    have hfilled := h.sound.filled.enqueue hroom opcode opDesc depIds
    have hstuck' : ∀ i, (q.enqueue opcode opDesc depIds).ready i = false := by
      intro i
      by_cases hi : i < q.capacity
      · exact hstuck i hi
      · exact hfilled.not_ready_of_le (Nat.not_lt.1 hi)
    rw [step_submit_async hroom ha] at hsound ⊢
    rw [tuCmdqTick_of_not_ready (q := q.enqueue opcode opDesc depIds) hstuck'] at hsound ⊢
    refine ⟨hsound, ?_, hstuck'⟩
    show cmdsExecuted (q.log ++ [_]) = []
    rw [cmdsExecuted_submitted]
    exact h.executed
  · rw [step_submit_full (Nat.not_lt.1 hroom)]
    exact h

private theorem step (h : Waiting q) {op : TuCmdqOp Op} (hop : q.KeepsWaiting op) : Waiting (q.step op) := by
  cases op with
  | submit opcode opDesc depIds => exact h.submit opcode opDesc depIds hop
  | barrier => exact h.submit TuCmd.barrier none [] hop
  | tick => exact stuck_waiting.tick h
  | wait cmdId timeoutCycles rounds => exact stuck_waiting.wait h cmdId q.currentCycle timeoutCycles rounds
  | sync rounds => exact stuck_waiting.sync h rounds
  | reset => exact ⟨Sound.reset q, rfl, fun i => rfl⟩

private theorem submit_executes (opcode : UInt32) (opDesc : Option Op) (depIds : List Nat)
    (hop : ¬ q.SubmitKeepsWaiting opcode opDesc depIds) :
    cmdsExecuted (q.step (.submit opcode opDesc depIds)).log ≠ [] := by
  unfold SubmitKeepsWaiting at hop
  rw [Classical.not_imp] at hop
  obtain ⟨hroom, hready⟩ := hop
  by_cases ha : q.synchronous = false
  · have hexists : ∃ i, i < q.capacity ∧ (q.enqueue opcode opDesc depIds).ready i = true := by
      by_contra hno
      refine hready ⟨ha, fun i hi => ?_⟩
      by_contra hi'
      rw [Bool.not_eq_false] at hi'
      exact hno ⟨i, hi, hi'⟩
    obtain ⟨i, hi, hi'⟩ := hexists
    rw [step_submit_async hroom ha, tuCmdqTick_fst]
    exact scan_executes ha ⟨i, List.mem_range.2 hi, hi'⟩
  · rw [Bool.not_eq_false] at ha
    rw [step_submit_sync hroom ha]
    exact cmdsExecuted_ne_nil List.prefix_rfl (executeCommand_mem _ _)

private theorem step_executes {op : TuCmdqOp Op} (hop : ¬ q.KeepsWaiting op) :
    cmdsExecuted (q.step op).log ≠ [] := by
  cases op with
  | submit opcode opDesc depIds => exact submit_executes opcode opDesc depIds hop
  | barrier => exact submit_executes TuCmd.barrier none [] hop
  | tick => exact absurd trivial hop
  | wait cmdId timeoutCycles rounds => exact absurd trivial hop
  | sync rounds => exact absurd trivial hop
  | reset => exact absurd trivial hop

end Waiting

/-- Every state of a run has `count` commands in flight exactly when each accepted submission leaves all waiting. -/
theorem run_occupancy (capacity : UInt32) (synchronous : Bool) (ops : List (TuCmdqOp Op)) :
    (∀ k, (run capacity synchronous (ops.take k)).Occupancy) ↔
      Run.Along KeepsWaiting step (tuCmdqCreate Op capacity synchronous) ops := by
  have hcreate : Waiting (tuCmdqCreate Op capacity synchronous) :=
    ⟨Sound.create capacity synchronous, rfl, fun i => rfl⟩
  have hI : ∀ q : TuCommandQueue Op, Waiting q → Sound q ∧ q.Occupancy := fun q h =>
    ⟨h.sound, (occupancy_iff h.sound.filled).2 h.executed⟩
  have hbad : ∀ (q : TuCommandQueue Op) op, Waiting q → ¬ q.KeepsWaiting op →
      ¬ (Sound (q.step op) ∧ (q.step op).Occupancy) := by
    rintro q op h hop ⟨hsound, hocc⟩
    exact Waiting.step_executes hop ((occupancy_iff hsound.filled).1 hocc)
  rw [← Run.forall_take_iff_along hI (fun q op h hop => h.step hop) hbad hcreate]
  exact forall_congr' fun k => ⟨fun h => ⟨run_sound _ _ _, h⟩, fun h => h.2⟩

/-- Four commands run at once leave a queue of four slots full, with nothing in flight. -/
theorem run_occupancy_stuck :
    ¬ (run 4 true (List.replicate 4 (.submit TuCmd.nop none [])) : TuCommandQueue Unit).Occupancy := by
  rintro ⟨hcount, _⟩
  revert hcount
  decide +kernel

end Tusim
