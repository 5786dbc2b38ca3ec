import Tusim.Cmdq.Actions

/-!
# Completion signals

A submission numbers the signal of its command but enters nothing in the registry, so the registry stays empty and
no completion is ever signalled.  `run_signalsFired` is the exact condition: every state of a run has its signals
right when no call completes a command.
-/

namespace Tusim

open Word TuCommandQueue

variable {Op : Type}

namespace TuCommandQueue

/-- Every completed command has one entry, fired in its cycle, and every fired entry is that of a completed
command. -/
def SignalsFired (q : TuCommandQueue Op) : Prop :=
  (∀ i, (q.commands i).status = .completed →
    q.signals.filter (·.signalId = (q.commands i).signalId) =
      [{ signalId := (q.commands i).signalId, fired := true, cycleCompleted := (q.commands i).cycleCompleted }]) ∧
  ∀ s ∈ q.signals, s.fired = true →
    ∃ i, (q.commands i).status = .completed ∧ (q.commands i).signalId = s.signalId

/-- No command that is ready to execute has a known opcode. -/
def ReadyFault (q : TuCommandQueue Op) : Prop :=
  ∀ i, i < q.capacity → q.ready i = true → TuCmd.isKnown (q.commands i).opcode = false

/-- A submission is refused, or what it executes faults. -/
def SubmitFaults (q : TuCommandQueue Op) (opcode : UInt32) (opDesc : Option Op) (depIds : List Nat) : Prop :=
  q.count < q.capacity →
    if q.synchronous then TuCmd.isKnown opcode = false else (q.enqueue opcode opDesc depIds).ReadyFault

/-- The call is no submission, is refused, or executes only commands that fault. -/
def CompletesNothing (q : TuCommandQueue Op) : TuCmdqOp Op → Prop
  | .submit opcode opDesc depIds => q.SubmitFaults opcode opDesc depIds
  | .barrier => q.SubmitFaults TuCmd.barrier none []
  | .tick | .wait _ _ _ | .sync _ | .reset => True

/-- A command has completed since the last reset. -/
def SomeCompleted (q : TuCommandQueue Op) : Prop := ∃ i, (q.commands i).status = .completed

end TuCommandQueue

/-! ### The registry is empty -/

theorem fireSignal_nil (signalId cycle : Nat) : fireSignal [] signalId cycle = [] := by
  simp [fireSignal]

theorem executeCommand_signals {q : TuCommandQueue Op} (h : q.signals = []) (i : Nat) :
    (executeCommand q i).signals = [] := by
  unfold executeCommand
  dsimp only
  split
  · rw [h, fireSignal_nil]
  · exact h

theorem kept_signals : Kept fun q : TuCommandQueue Op => q.signals = [] where
  enqueue _ _ h _ _ _ _ := h
  advance _ h := h
  execute _ i _ h _ _ := executeCommand_signals h i
  reset _ := rfl

/-- With an empty registry the signals are right exactly when nothing has completed. -/
theorem signalsFired_iff {q : TuCommandQueue Op} (h : q.signals = []) : q.SignalsFired ↔ ¬ q.SomeCompleted := by
  unfold SignalsFired SomeCompleted
  simp [h]

/-! ### Commands that fault -/

section

variable {q : TuCommandQueue Op} {i : Nat}

theorem executed_of_unknown {cmd : TuCommand Op} (h : TuCmd.isKnown cmd.opcode = false) (cycle : Nat) :
    cmd.executed cycle = { cmd with status := .faulted, cycleSubmitted := cycle } := by
  unfold TuCommand.executed
  rw [h, if_neg Bool.false_ne_true]

theorem outcome_of_known {cmd : TuCommand Op} (h : TuCmd.isKnown cmd.opcode = true) : cmd.outcome = .completed := by
  unfold TuCommand.outcome
  rw [if_pos h]

/-- What a faulting command leaves: its slot no longer waits and no slot has completed. -/
private theorem fault_status (hp : (q.commands i).status = .pending) (hu : TuCmd.isKnown (q.commands i).opcode = false)
    (s : Nat) : ((executeCommand q i).commands s).status = .completed ↔ (q.commands s).status = .completed := by
  rw [executeCommand_commands]
  by_cases hs : s = i
  · simp [hs, executed_of_unknown hu, hp]
  · simp [hs]

private theorem fault_cmdId (s : Nat) : ((executeCommand q i).commands s).cmdId = (q.commands s).cmdId := by
  rw [executeCommand_commands]
  by_cases hs : s = i <;> simp [hs]

private theorem fault_isBarrier (s : Nat) :
    ((executeCommand q i).commands s).isBarrier = (q.commands s).isBarrier := by
  rw [executeCommand_commands]
  by_cases hs : s = i <;> simp [hs]

/-- A fault frees no other command. -/
private theorem fault_ready (hp : (q.commands i).status = .pending)
    (hu : TuCmd.isKnown (q.commands i).opcode = false) {j : Nat} (hj : j ≠ i) :
    (executeCommand q i).ready j = q.ready j := by
  have hcommand := executeCommand_of_ne q i hj
  -- neither the dependencies nor the barriers see the fault: they wait for completed commands
  have hfind : ∀ d, (executeCommand q i).findCommand d = q.findCommand d := by
    intro d
    unfold findCommand
    simp [fault_cmdId]
  have hclear : barrierClear (executeCommand q i) = barrierClear q := by
    unfold barrierClear
    simp [fault_cmdId, fault_isBarrier, fault_status hp hu]
  have hdeps : depsSatisfied (executeCommand q i) (q.commands j) = depsSatisfied q (q.commands j) := by
    unfold depsSatisfied
    simp [hfind, fault_status hp hu]
  unfold ready
  rw [hcommand, hclear, hdeps, executeCommand_lastBarrierId]

private theorem executed_not_ready (q : TuCommandQueue Op) (i : Nat) : (executeCommand q i).ready i = false := by
  by_contra hready
  rw [Bool.not_eq_false] at hready
  have hpending := ready_pending hready
  rw [executeCommand_self, TuCommand.executed_status] at hpending
  exact TuCommand.outcome_ne_pending _ hpending

end

/-! ### Scans -/

/-- A scan keeps what has completed. -/
private theorem someCompleted_scan (slots : List Nat) {q : TuCommandQueue Op} (ha : q.synchronous = false)
    (h : q.SomeCompleted) : (slots.foldl scanSlot q).SomeCompleted := by
  induction slots generalizing q with
  | nil => exact h
  | cons i slots ih =>
    rw [List.foldl_cons, scanSlot_eq ha]
    split
    · rename_i hready
      apply ih ((executeCommand_synchronous q i).trans ha)
      obtain ⟨s, hs⟩ := h
      have hsi : s ≠ i := by
        rintro rfl
        rw [ready_pending hready] at hs
        cases hs
      refine ⟨s, ?_⟩
      rw [executeCommand_of_ne q i hsi]
      exact hs
    · exact ih ha h

/-- A scan of slots whose ready commands all fault completes nothing and leaves none of them ready. -/
private theorem scan_faults (slots : List Nat) {q : TuCommandQueue Op} (ha : q.synchronous = false)
    (hfault : ∀ i ∈ slots, q.ready i = true → TuCmd.isKnown (q.commands i).opcode = false)
    (h : ¬ q.SomeCompleted) :
    ¬ (slots.foldl scanSlot q).SomeCompleted ∧
      ∀ i, (slots.foldl scanSlot q).ready i = true → q.ready i = true ∧ i ∉ slots := by
  induction slots generalizing q with
  | nil => exact ⟨h, fun i hi => ⟨hi, List.not_mem_nil⟩⟩
  | cons i slots ih =>
    rw [List.foldl_cons, scanSlot_eq ha]
    split
    · rename_i hready
      have hp := ready_pending hready
      have hu := hfault i List.mem_cons_self hready
      have hnone : ¬ (executeCommand q i).SomeCompleted := by
        rintro ⟨s, hs⟩
        exact h ⟨s, (fault_status hp hu s).1 hs⟩
      have hstill : ∀ j, (executeCommand q i).ready j = true → j ≠ i ∧ q.ready j = true := by
        intro j hj
        have hji : j ≠ i := by
          rintro rfl
          rw [executed_not_ready q j] at hj
          cases hj
        rw [fault_ready hp hu hji] at hj
        exact ⟨hji, hj⟩
      have hfault' : ∀ j ∈ slots, (executeCommand q i).ready j = true →
          TuCmd.isKnown ((executeCommand q i).commands j).opcode = false := by
        intro j hj hready'
        obtain ⟨hji, hready'⟩ := hstill j hready'
        rw [executeCommand_of_ne q i hji]
        exact hfault j (List.mem_cons_of_mem i hj) hready'
      obtain ⟨hdone, hleft⟩ := ih ((executeCommand_synchronous q i).trans ha) hfault' hnone
      refine ⟨hdone, fun j hj => ?_⟩
      obtain ⟨hj, hjs⟩ := hleft j hj
      obtain ⟨hji, hj⟩ := hstill j hj
      exact ⟨hj, by simp [hji, hjs]⟩
    · rename_i hready
      obtain ⟨hdone, hleft⟩ := ih ha (fun j hj => hfault j (List.mem_cons_of_mem i hj)) h
      refine ⟨hdone, fun j hj => ?_⟩
      obtain ⟨hj, hjs⟩ := hleft j hj
      have hji : j ≠ i := by
        rintro rfl
        exact hready hj
      exact ⟨hj, by simp [hji, hjs]⟩

/-- A scan that comes to a ready command with a known opcode completes one. -/
private theorem scan_completes (slots : List Nat) {q : TuCommandQueue Op} (ha : q.synchronous = false)
    (h : ∃ i ∈ slots, q.ready i = true ∧ TuCmd.isKnown (q.commands i).opcode = true) :
    (slots.foldl scanSlot q).SomeCompleted := by
  induction slots generalizing q with
  | nil => simp at h
  | cons i slots ih =>
    obtain ⟨j, hj, hready, hknown⟩ := h
    have ha' : (executeCommand q i).synchronous = false := (executeCommand_synchronous q i).trans ha
    rw [List.foldl_cons, scanSlot_eq ha]
    by_cases hi : q.ready i = true
    · rw [if_pos hi]
      by_cases hk : TuCmd.isKnown (q.commands i).opcode = true
      · apply someCompleted_scan slots ha'
        refine ⟨i, ?_⟩
        rw [executeCommand_self, TuCommand.executed_status, outcome_of_known hk]
      · rw [Bool.not_eq_true] at hk
        have hji : j ≠ i := by
          rintro rfl
          rw [hk] at hknown
          cases hknown
        apply ih ha'
        refine ⟨j, (List.mem_cons.1 hj).resolve_left hji, ?_, ?_⟩
        · rw [fault_ready (ready_pending hi) hk hji]
          exact hready
        · rw [executeCommand_of_ne q i hji]
          exact hknown
    · rw [if_neg hi]
      have hji : j ≠ i := by
        rintro rfl
        exact hi hready
      exact ih ha ⟨j, (List.mem_cons.1 hj).resolve_left hji, hready, hknown⟩

/-! ### Runs -/

/-- Nothing has completed and nothing can be executed. -/
private structure Unsignalled (q : TuCommandQueue Op) : Prop where
  sound : Sound q
  signals : q.signals = []
  none_completed : ¬ q.SomeCompleted
  stuck : ∀ i, q.ready i = false

namespace Unsignalled

variable {q : TuCommandQueue Op}

private theorem stuck_unsignalled : Stuck (@Unsignalled Op) where
  ready _ h := h.stuck
  advance _ h := ⟨h.sound.advance, h.signals, h.none_completed, h.stuck⟩

private theorem enqueue_none_completed (h : Unsignalled q) (opcode : UInt32) (opDesc : Option Op)
    (depIds : List Nat) : ¬ (q.enqueue opcode opDesc depIds).SomeCompleted := by
  rintro ⟨s, hs⟩
  by_cases hhead : s = q.head
  · simp [hhead, enqueue] at hs
  · rw [enqueue_of_ne q opcode opDesc depIds hhead] at hs
    exact h.none_completed ⟨s, hs⟩

private theorem submit (h : Unsignalled q) (opcode : UInt32) (opDesc : Option Op) (depIds : List Nat)
    (hop : q.SubmitFaults opcode opDesc depIds) : Unsignalled (q.step (.submit opcode opDesc depIds)) := by
  have hsound := h.sound.step (.submit opcode opDesc depIds)
  have hsignals := kept_signals.step h.sound h.signals (.submit opcode opDesc depIds)
  have hnone := h.enqueue_none_completed opcode opDesc depIds
  by_cases hroom : q.count < q.capacity
  · have hop := hop hroom
    by_cases hs : q.synchronous = true
    · rw [if_pos hs] at hop
      have hself := enqueue_self q opcode opDesc depIds
      have hp : ((q.enqueue opcode opDesc depIds).commands q.head).status = .pending := by rw [hself]
      have hu : TuCmd.isKnown ((q.enqueue opcode opDesc depIds).commands q.head).opcode = false := by
        rw [hself]
        exact hop
      have hsync : (q.step (.submit opcode opDesc depIds)).synchronous = true := by
        rw [step_submit_sync hroom hs, executeCommand_synchronous]
        exact hs
      refine ⟨hsound, hsignals, ?_, (hsound.settled hsync).not_ready hsound.filled⟩
      rw [step_submit_sync hroom hs]
      rintro ⟨s, hstatus⟩
      exact hnone ⟨s, (fault_status hp hu s).1 hstatus⟩
    · rw [if_neg hs] at hop
      rw [Bool.not_eq_true] at hs
      rw [step_submit_async hroom hs, tuCmdqTick_fst] at hsound hsignals ⊢
      obtain ⟨hdone, hleft⟩ := scan_faults (List.range (q.enqueue opcode opDesc depIds).capacity)
        (q := (q.enqueue opcode opDesc depIds).advance) hs (fun i hi => hop i (List.mem_range.1 hi)) hnone
      refine ⟨hsound, hsignals, hdone, fun i => ?_⟩
      by_contra hready
      rw [Bool.not_eq_false] at hready
      obtain ⟨hready, hi⟩ := hleft i hready
      have hfilled := (h.sound.filled.enqueue hroom opcode opDesc depIds).advance
      rw [List.mem_range, Nat.not_lt] at hi
      rw [hfilled.not_ready_of_le hi] at hready
      cases hready
  · rw [step_submit_full (Nat.not_lt.1 hroom)]
    exact h

private theorem step (h : Unsignalled q) {op : TuCmdqOp Op} (hop : q.CompletesNothing op) :
    Unsignalled (q.step op) := by
  cases op with
  | submit opcode opDesc depIds => exact h.submit opcode opDesc depIds hop
  | barrier => exact h.submit TuCmd.barrier none [] hop
  | tick => exact stuck_unsignalled.tick h
  | wait cmdId timeoutCycles rounds => exact stuck_unsignalled.wait h cmdId q.currentCycle timeoutCycles rounds
  | sync rounds => exact stuck_unsignalled.sync h rounds
  | reset => exact ⟨Sound.reset q, rfl, fun ⟨_, hs⟩ => (nomatch hs), fun i => rfl⟩

private theorem submit_completes {opcode : UInt32} {opDesc : Option Op} {depIds : List Nat}
    (hop : ¬ q.SubmitFaults opcode opDesc depIds) : (q.step (.submit opcode opDesc depIds)).SomeCompleted := by
  unfold SubmitFaults at hop
  rw [Classical.not_imp] at hop
  obtain ⟨hroom, hop⟩ := hop
  by_cases hs : q.synchronous = true
  · rw [if_pos hs, Bool.not_eq_false] at hop
    rw [step_submit_sync hroom hs]
    refine ⟨q.head, ?_⟩
    rw [executeCommand_self, TuCommand.executed_status, enqueue_self]
    exact outcome_of_known hop
  · rw [if_neg hs] at hop
    rw [Bool.not_eq_true] at hs
    rw [step_submit_async hroom hs, tuCmdqTick_fst]
    have hready : ∃ i, i < (q.enqueue opcode opDesc depIds).capacity ∧
        (q.enqueue opcode opDesc depIds).ready i = true ∧
        TuCmd.isKnown ((q.enqueue opcode opDesc depIds).commands i).opcode = true := by
      simpa [ReadyFault] using hop
    obtain ⟨i, hi, hready, hknown⟩ := hready
    exact scan_completes _ hs ⟨i, List.mem_range.2 hi, hready, hknown⟩

private theorem step_completes {op : TuCmdqOp Op} (hop : ¬ q.CompletesNothing op) : (q.step op).SomeCompleted := by
  cases op with
  | submit opcode opDesc depIds => exact submit_completes hop
  | barrier => exact submit_completes hop
  | tick => exact absurd trivial hop
  | wait cmdId timeoutCycles rounds => exact absurd trivial hop
  | sync rounds => exact absurd trivial hop
  | reset => exact absurd trivial hop

end Unsignalled

/-- Every state of a run has its signals right exactly when no call of the run completes a command. -/
theorem run_signalsFired (capacity : UInt32) (synchronous : Bool) (ops : List (TuCmdqOp Op)) :
    (∀ k, (run capacity synchronous (ops.take k)).SignalsFired) ↔
      Run.Along CompletesNothing step (tuCmdqCreate Op capacity synchronous) ops := by
  have hcreate : Unsignalled (tuCmdqCreate Op capacity synchronous) :=
    ⟨Sound.create capacity synchronous, rfl, fun ⟨_, hs⟩ => (nomatch hs), fun i => rfl⟩
  rw [← Run.forall_take_iff_along (P := fun q => q.signals = [] → q.SignalsFired) ?_
    (fun q op h hop => h.step hop) ?_ hcreate]
  · exact forall_congr' fun k => ⟨fun h _ => h, fun h => h (kept_signals.run capacity synchronous _)⟩
  · exact fun q h hsignals => (signalsFired_iff hsignals).2 h.none_completed
  · intro q op h hop hfired
    have hsignals := kept_signals.step h.sound h.signals op
    exact (signalsFired_iff hsignals).1 (hfired hsignals) (Unsignalled.step_completes hop)

/-- A command that has completed is not in the registry. -/
theorem run_signalsFired_nop : ¬ (run 4 true [.submit TuCmd.nop none []] : TuCommandQueue Unit).SignalsFired := by
  rintro ⟨hfired, _⟩
  have hentry := hfired 0 (by decide +kernel)
  revert hentry
  decide +kernel

end Tusim
