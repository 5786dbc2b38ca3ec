import Tusim.Cmdq.Actions

/-!
# Waiting for commands

A wait on an asynchronous queue ends, since each round moves the clock.  On a synchronous queue the clock stands
still, so a wait ends only because every command has been executed; id 0 finds an empty slot, which looks like a
waiting command.  Draining an asynchronous queue never ends once something was submitted.  `run_waits` puts this
together.
-/

namespace Tusim

open Word TuCommandQueue

variable {Op : Type}

namespace TuCommandQueue

def SyncReturns (q : TuCommandQueue Op) : Prop := ∃ rounds, (tuCmdqSync q rounds).2 = true

def WaitReturns (q : TuCommandQueue Op) (cmdId : Nat) (timeoutCycles : UInt64) : Prop :=
  ∃ rounds, (tuCmdqWait q cmdId timeoutCycles rounds).2.isSome

/-- Draining returns, and so does every wait with a timeout. -/
def Returns (q : TuCommandQueue Op) : Prop :=
  q.SyncReturns ∧ ∀ cmdId timeoutCycles, 0 < timeoutCycles.toNat → q.WaitReturns cmdId timeoutCycles

/-- Every dependency of a queued command names an earlier command. -/
def EarlierDeps (q : TuCommandQueue Op) : Prop :=
  ∀ s < q.capacity, ∀ d ∈ (q.commands s).depIds, 0 < d ∧ d < (q.commands s).cmdId

instance (q : TuCommandQueue Op) : Decidable q.EarlierDeps := by
  unfold EarlierDeps
  infer_instance

end TuCommandQueue

/-! ### Draining -/

/-- A tick of an asynchronous queue moves the clock and keeps the count. -/
private theorem tick_frame {q : TuCommandQueue Op} (ha : q.synchronous = false) :
    (tuCmdqTick q).1.count = q.count ∧ (tuCmdqTick q).1.currentCycle = u64 (q.currentCycle + 1) := by
  have hscan : ∀ (s : TuCommandQueue Op) i, s.synchronous = false → (s.scanSlot i).synchronous = false ∧
      (s.scanSlot i).count = s.count ∧ (s.scanSlot i).currentCycle = s.currentCycle := by
    intro s i hs
    rw [scanSlot_eq hs]
    split
    · exact ⟨(executeCommand_synchronous s i).trans hs, executeCommand_count s i, executeCommand_currentCycle s i⟩
    · exact ⟨hs, rfl, rfl⟩
  have hkept : (Run.exec scanSlot q.advance (List.range q.capacity)).synchronous = false ∧
      (Run.exec scanSlot q.advance (List.range q.capacity)).count = q.count ∧
      (Run.exec scanSlot q.advance (List.range q.capacity)).currentCycle = u64 (q.currentCycle + 1) := by
    refine Run.invariant (P := fun s : TuCommandQueue Op => s.synchronous = false ∧ s.count = q.count ∧
      s.currentCycle = u64 (q.currentCycle + 1)) (s := q.advance) ?_ ⟨ha, rfl, rfl⟩ _
    rintro s i ⟨hs, hcount, hcycle⟩
    obtain ⟨hs', hcount', hcycle'⟩ := hscan s i hs
    exact ⟨hs', hcount'.trans hcount, hcycle'.trans hcycle⟩
  rw [tuCmdqTick_fst]
  exact hkept.2

theorem tuCmdqTick_count {q : TuCommandQueue Op} (ha : q.synchronous = false) : (tuCmdqTick q).1.count = q.count :=
  (tick_frame ha).1

theorem tuCmdqTick_currentCycle {q : TuCommandQueue Op} (ha : q.synchronous = false) :
    (tuCmdqTick q).1.currentCycle = u64 (q.currentCycle + 1) := (tick_frame ha).2

/-- Ticks do not lower the count, so draining a queue that is not empty goes on. -/
theorem drain_of_count {q : TuCommandQueue Op} (ha : q.synchronous = false) (hc : q.count ≠ 0) (rounds : Nat) :
    (drain rounds q).2 = false := by
  induction rounds generalizing q with
  | zero => exact decide_eq_false hc
  | succ rounds ih =>
    unfold drain
    rw [if_neg hc]
    exact ih ((tuCmdqTick_synchronous q).trans ha) (by rwa [tuCmdqTick_count ha])

/-- An asynchronous queue is drained only if nothing was submitted since the last reset. -/
theorem syncReturns_iff {q : TuCommandQueue Op} (ha : q.synchronous = false) : q.SyncReturns ↔ q.count = 0 := by
  have hsync : ∀ rounds, tuCmdqSync q rounds = drain rounds q := by
    intro rounds
    unfold tuCmdqSync
    rw [ha, if_neg Bool.false_ne_true]
  constructor
  · rintro ⟨rounds, hret⟩
    by_contra hc
    rw [hsync, drain_of_count ha hc] at hret
    exact absurd hret Bool.false_ne_true
  · intro hc
    exact ⟨0, by rw [hsync]; exact decide_eq_true hc⟩

/-! ### Waiting -/

/-- The clock reaches the timeout, whatever the commands do. -/
private theorem waitRounds_isSome {start : Nat} {timeoutCycles : UInt64} (hstart : start < 2 ^ 64)
    (ht : 0 < timeoutCycles.toNat) (cmdId : Nat) {rounds k : Nat} (hrounds : timeoutCycles.toNat ≤ k + rounds)
    (hk : k < timeoutCycles.toNat) {q : TuCommandQueue Op} (ha : q.synchronous = false)
    (hcycle : q.currentCycle = u64 (start + k)) : (waitRounds cmdId start timeoutCycles rounds q).2.isSome := by
  induction rounds generalizing k q with
  | zero => omega
  | succ rounds ih =>
    have ha' := (tuCmdqTick_synchronous q).trans ha
    have hcycle' : (tuCmdqTick q).1.currentCycle = u64 (start + (k + 1)) := by
      rw [tuCmdqTick_currentCycle ha, hcycle, u64_u64_add]
      rfl
    have hmax := timeoutCycles.toNat_lt
    unfold waitRounds
    cases hcheck : q.waitCheck cmdId with
    | some result => rfl
    | none =>
      dsimp only
      rw [ha, if_neg Bool.false_ne_true]
      split
      · rfl
      · rename_i hno
        have helapsed : u64 ((tuCmdqTick q).1.currentCycle + 2 ^ 64 - start) = k + 1 := by
          rw [hcycle']
          unfold u64
          omega
        rw [helapsed] at hno
        exact ih (by omega) (by omega) ha' hcycle'

theorem waitReturns_of_async {q : TuCommandQueue Op} (h : Filled q) (ha : q.synchronous = false) (cmdId : Nat)
    {timeoutCycles : UInt64} (ht : 0 < timeoutCycles.toNat) : q.WaitReturns cmdId timeoutCycles := by
  have hcycle : q.currentCycle = u64 (q.currentCycle + 0) := (u64_of_lt h.cycle).symm
  exact ⟨timeoutCycles.toNat, waitRounds_isSome h.cycle ht cmdId (by omega) ht ha hcycle⟩

/-- A wait on a synchronous queue returns at once or never. -/
theorem waitReturns_of_sync {q : TuCommandQueue Op} (hs : q.synchronous = true) (cmdId : Nat)
    {timeoutCycles : UInt64} : q.WaitReturns cmdId timeoutCycles ↔ (q.waitCheck cmdId).isSome := by
  have helapsed : u64 (q.currentCycle + 2 ^ 64 - q.currentCycle) = 0 := by
    rw [Nat.add_sub_cancel_left]
    rfl
  constructor
  · rintro ⟨rounds, hret⟩
    by_contra hcheck
    rw [Option.not_isSome_iff_eq_none] at hcheck
    have hnever : ∀ rounds, (waitRounds cmdId q.currentCycle timeoutCycles rounds q).2 = none := by
      intro rounds
      induction rounds with
      | zero => rfl
      | succ rounds ih =>
        unfold waitRounds
        rw [hcheck]
        dsimp only
        rw [if_pos hs, helapsed, if_neg (by omega)]
        exact ih
    unfold tuCmdqWait at hret
    rw [hnever rounds] at hret
    cases hret
  · intro hcheck
    obtain ⟨result, hresult⟩ := Option.isSome_iff_exists.1 hcheck
    refine ⟨1, ?_⟩
    unfold tuCmdqWait waitRounds
    rw [hresult]
    rfl

/-- Every wait on a synchronous queue returns exactly when no slot is empty. -/
theorem waitCheck_isSome_iff {q : TuCommandQueue Op} (h : Filled q) (hq : Settled q) :
    (∀ cmdId, (q.waitCheck cmdId).isSome) ↔ q.count = q.capacity := by
  have hle := h.count_le
  constructor
  · intro hall
    by_contra hne
    have hfind : ∃ i, q.findCommand 0 = some i := by
      rw [← Option.isSome_iff_exists]
      unfold findCommand
      rw [List.find?_isSome]
      refine ⟨q.count, List.mem_range.2 (by omega), ?_⟩
      rw [h.empty q.count (Nat.le_refl _)]
      rfl
    obtain ⟨i, hi⟩ := hfind
    have hid : (q.commands i).cmdId = 0 := by
      unfold findCommand at hi
      have hsome := List.find?_some hi
      exact of_decide_eq_true hsome
    have hge : q.count ≤ i := by
      by_contra hlt
      rw [h.cmdId i (by omega)] at hid
      omega
    have hcheck := hall 0
    unfold waitCheck at hcheck
    rw [hi] at hcheck
    dsimp only at hcheck
    rw [h.empty i hge] at hcheck
    cases hcheck
  · intro hfull cmdId
    unfold waitCheck
    cases hfind : q.findCommand cmdId with
    | none => rfl
    | some i =>
      have hi : i < q.count := by
        rw [hfull]
        exact List.mem_range.1 (List.mem_of_find?_eq_some hfind)
      have hpending := hq i hi
      have hissued := h.not_issued i
      dsimp only
      cases hst : (q.commands i).status with
      | pending => exact absurd hst hpending
      | issued => exact absurd hst hissued
      | completed => rfl
      | faulted => rfl

/-- Draining and every wait with a timeout return exactly in a full synchronous queue and in an empty asynchronous
one. -/
theorem run_waits (capacity : UInt32) (synchronous : Bool) (ops : List (TuCmdqOp Op)) :
    (run capacity synchronous ops).Returns ↔
      ((run capacity synchronous ops).synchronous = true ∧
        (run capacity synchronous ops).count = (run capacity synchronous ops).capacity) ∨
      ((run capacity synchronous ops).synchronous = false ∧ (run capacity synchronous ops).count = 0) := by
  obtain ⟨h, hsettled⟩ := run_sound capacity synchronous ops
  generalize run capacity synchronous ops = q at h hsettled ⊢
  by_cases hs : q.synchronous = true
  · have hsync : q.SyncReturns := by
      refine ⟨0, ?_⟩
      unfold tuCmdqSync
      rw [if_pos hs]
    rw [← waitCheck_isSome_iff h (hsettled hs)]
    constructor
    · rintro ⟨_, hwait⟩
      exact Or.inl ⟨hs, fun cmdId => (waitReturns_of_sync hs cmdId).1 (hwait cmdId 1 (by decide))⟩
    · rintro (⟨_, hcheck⟩ | ⟨hfalse, _⟩)
      · exact ⟨hsync, fun cmdId timeoutCycles _ => (waitReturns_of_sync hs cmdId).2 (hcheck cmdId)⟩
      · rw [hs] at hfalse
        exact absurd hfalse (Ne.symm Bool.false_ne_true)
  · rw [Bool.not_eq_true] at hs
    constructor
    · exact fun hret => Or.inr ⟨hs, (syncReturns_iff hs).1 hret.1⟩
    · rintro (⟨htrue, _⟩ | ⟨_, hc⟩)
      · rw [hs] at htrue
        exact absurd htrue Bool.false_ne_true
      · exact ⟨(syncReturns_iff hs).2 hc, fun cmdId _ ht => waitReturns_of_async h hs cmdId ht⟩

/-- Draining an asynchronous queue does not return although its only command has completed. -/
theorem drain_stuck :
    let q : TuCommandQueue Unit := run 4 false [.submit TuCmd.nop none []]
    q.EarlierDeps ∧ (q.commands 0).status = .completed ∧ ¬ q.Returns := by
  refine ⟨by decide +kernel, by decide +kernel, ?_⟩
  rintro ⟨⟨rounds, hret⟩, _⟩
  rw [tuCmdqSync, if_neg (by decide +kernel), drain_of_count (by decide +kernel) (by decide +kernel)] at hret
  cases hret

end Tusim
