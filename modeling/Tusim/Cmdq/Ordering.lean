import Tusim.Lib.Commuting
import Tusim.Cmdq.Actions
import Mathlib.Logic.Relation

/-!
# Order of execution in an asynchronous queue

Dependencies are kept in every run, since a slot is never given to another command (`run_dependencyOrder`).
Barriers are not: a barrier without dependencies executes at once, and a command older than the latest barrier is
not checked against the barriers before it.  `run_barrierOrder` is about the runs in which neither happens to a
command that is still waiting.

What the commands do to a memory is a parameter.  If every two commands that do not commute are linked by dependencies,
the memory of a run is the one after its completed commands in the order of their submission (`run_serialisable`).
-/

namespace Tusim

open Word TuCommandQueue Emission History Commuting

variable {Op : Type}

/-- A command executes after all earlier commands it depends on have completed. -/
def DependencyOrder (log : List TuCmdEvent) : Prop :=
  Everywhere (fun past e => ∀ c st, e = .executed c st → ∀ deps bar, .submitted c deps bar ∈ past →
    ∀ d ∈ deps, Precedes (cmdsSubmitted past) d c → .executed d .completed ∈ past) log

/-- A command submitted after a barrier executes after all commands submitted before the barrier have completed. -/
def BarrierOrder (log : List TuCmdEvent) : Prop :=
  Everywhere (fun past e => ∀ c st, e = .executed c st → ∀ b deps, .submitted b deps true ∈ past →
    Precedes (cmdsSubmitted past) b c → ∀ a, Precedes (cmdsSubmitted past) a b → .executed a .completed ∈ past) log

theorem lt_of_precedes_range' {a b n : Nat} (h : Precedes (List.range' 1 n) a b) : a < b := by
  have hpair : List.Pairwise (· < ·) [a, b] := List.Pairwise.sublist h (List.pairwise_lt_range' 1)
  exact (List.pairwise_cons.1 hpair).1 b (List.mem_singleton.2 rfl)

/-- The ids of a queue tell the order of the submissions. -/
theorem Filled.precedes {q : TuCommandQueue Op} (h : Filled q) {a b : Nat}
    (hab : Precedes (cmdsSubmitted q.log) a b) : 1 ≤ a ∧ a < b ∧ b ≤ q.count := by
  have ha := h.submitted_iff.1 hab.mem_left
  have hb : b ∈ cmdsSubmitted q.log := hab.subset (List.mem_cons_of_mem a (List.mem_singleton.2 rfl))
  rw [h.submitted] at hab
  exact ⟨ha.1, lt_of_precedes_range' hab, (h.submitted_iff.1 hb).2⟩

/-- What the log says of a command is its status. -/
theorem Filled.getStatus_eq {q : TuCommandQueue Op} (h : Filled q) {c : Nat} {st : TuCmdStatus}
    (hmem : .executed c st ∈ q.log) : tuCmdqGetStatus q c = st := by
  obtain ⟨s, hs, rfl, hst, _⟩ := (h.executed c st).1 hmem
  unfold tuCmdqGetStatus
  rw [h.findCommand_eq (by omega) (by omega)]
  exact hst

/-- A satisfied dependency on a submitted command has completed. -/
theorem Filled.depsSatisfied {q : TuCommandQueue Op} (h : Filled q) {cmd : TuCommand Op}
    (hdeps : depsSatisfied q cmd = true) {d : Nat} (hd : d ∈ cmd.depIds) (h1 : 1 ≤ d) (hle : d ≤ q.count) :
    .executed d .completed ∈ q.log := by
  have hd := List.all_eq_true.1 hdeps d hd
  rw [h.findCommand_eq h1 hle] at hd
  exact h.mem_completed h1 hle (of_decide_eq_true hd)

/-! ### Dependencies -/

private structure DependencyKept (q : TuCommandQueue Op) : Prop where
  filled : Filled q
  async : q.synchronous = false
  order : DependencyOrder q.log

private theorem DependencyKept.act {q : TuCommandQueue Op} (h : DependencyKept q) (a : TuCmdqAction Op) :
    DependencyKept (act q a) := by
  refine ⟨h.filled.act h.async a, (act_synchronous q a).trans h.async, ?_⟩
  cases a with
  | enqueue opcode opDesc depIds =>
    show DependencyOrder (if q.capacity ≤ q.count then q else q.enqueue opcode opDesc depIds).log
    split
    · exact h.order
    · exact everywhere_snoc.2 ⟨h.order, nofun⟩
  | advance => exact h.order
  | scan i =>
    show DependencyOrder (q.scanSlot i).log
    rw [scanSlot_eq h.async]
    split
    · rename_i hready
      rw [executeCommand_log]
      refine everywhere_snoc.2 ⟨h.order, ?_⟩
      intro c st he deps bar hmem d hd hprec
      obtain ⟨h1, hdc, hle⟩ := h.filled.precedes hprec
      have hi := h.filled.lt_count (ready_cmdId hready)
      injection he with hc _
      rw [h.filled.cmdId i hi] at hc
      have hdeps := (h.filled.content c deps bar hmem).1
      rw [show c - 1 = i by omega] at hdeps
      rw [← hdeps] at hd
      exact h.filled.depsSatisfied (ready_iff.1 hready).2.2.2 hd h1 (by omega)
    · exact h.order
  | reset => exact everywhere_nil _

/-- In every run of an asynchronous queue a command executes after its dependencies have completed, and what the log
says of a command is the status the queue reports. -/
theorem run_dependencyOrder (capacity : UInt32) (ops : List (TuCmdqOp Op)) :
    DependencyOrder (run capacity false ops).log ∧
      ∀ c st, .executed c st ∈ (run capacity false ops).log → tuCmdqGetStatus (run capacity false ops) c = st := by
  have hkept : DependencyKept (run capacity false ops) := by
    refine Run.invariant ?_ ⟨Filled.create capacity false, rfl, everywhere_nil _⟩ ops
    intro q op h
    rw [← exec_actions h.async op]
    exact Run.invariant (fun _ a h => h.act a) h _
  exact ⟨hkept.order, fun c st hmem => hkept.filled.getStatus_eq hmem⟩

/-! ### Barriers -/

namespace TuCommandQueue

/-- At this slot no command passes a barrier: a ready barrier has only completed commands before it, and a ready
command older than the latest barrier has only completed barriers before it. -/
def RespectsBarriers (q : TuCommandQueue Op) (i : Nat) : Prop :=
  q.ready i = true →
    ((q.commands i).isBarrier = true → ∀ s < q.capacity, (q.commands s).cmdId ≠ 0 →
      (q.commands s).cmdId < (q.commands i).cmdId → (q.commands s).status = .completed) ∧
    ((q.commands i).cmdId < q.lastBarrierId → ∀ s < q.capacity, (q.commands s).isBarrier = true →
      (q.commands s).cmdId < (q.commands i).cmdId → (q.commands s).status = .completed)

/-- An action respects the barriers if it looks at no slot whose command passes one. -/
def ActionRespects (q : TuCommandQueue Op) : TuCmdqAction Op → Prop
  | .scan i => q.RespectsBarriers i
  | .enqueue _ _ _ | .advance | .reset => True

/-- Every action of the call respects the barriers. -/
def CallRespects (q : TuCommandQueue Op) (op : TuCmdqOp Op) : Prop := Run.Along ActionRespects act q (q.actions op)

instance (q : TuCommandQueue Op) (i : Nat) : Decidable (q.RespectsBarriers i) := by
  unfold RespectsBarriers
  infer_instance

instance (q : TuCommandQueue Op) : (a : TuCmdqAction Op) → Decidable (q.ActionRespects a)
  | .scan i => inferInstanceAs (Decidable (q.RespectsBarriers i))
  | .enqueue _ _ _ | .advance | .reset => inferInstanceAs (Decidable True)

instance (q : TuCommandQueue Op) (op : TuCmdqOp Op) : Decidable (q.CallRespects op) :=
  inferInstanceAs (Decidable (Run.Along _ _ _ _))

end TuCommandQueue

private structure BarrierKept (q : TuCommandQueue Op) : Prop where
  filled : Filled q
  async : q.synchronous = false
  order : BarrierOrder q.log
  /-- a completed barrier has only completed commands before it -/
  passed : ∀ s, s < q.count → (q.commands s).isBarrier = true → (q.commands s).status = .completed →
    ∀ t, t < s → (q.commands t).status = .completed

namespace BarrierKept

variable {q : TuCommandQueue Op}

private theorem enqueue (h : BarrierKept q) (hroom : q.count < q.capacity) (opcode : UInt32) (opDesc : Option Op)
    (depIds : List Nat) : BarrierKept (q.enqueue opcode opDesc depIds) := by
  refine ⟨h.filled.enqueue hroom opcode opDesc depIds, h.async, everywhere_snoc.2 ⟨h.order, nofun⟩, ?_⟩
  have hhead := h.filled.head_eq hroom
  have hold : ∀ s, s ≠ q.count → (q.enqueue opcode opDesc depIds).commands s = q.commands s := by
    intro s hs
    exact enqueue_of_ne q opcode opDesc depIds (by rwa [hhead])
  have hnew : ((q.enqueue opcode opDesc depIds).commands q.count).status = .pending := by
    rw [← hhead, enqueue_self]
  intro s hs hbar hst t ht
  have hs : s < q.count + 1 := hs
  by_cases hsc : s = q.count
  · rw [hsc, hnew] at hst
    cases hst
  · rw [hold s hsc] at hbar hst
    rw [hold t (by omega)]
    exact h.passed s (by omega) hbar hst t ht

/-- Before a command executes every earlier barrier has let all earlier commands complete. -/
private theorem passed_of_ready (h : BarrierKept q) {i : Nat} (hready : q.ready i = true) (hguard : q.RespectsBarriers i)
    {s : Nat} (hs : s < i) (hbar : (q.commands s).isBarrier = true) {t : Nat} (ht : t < s) :
    (q.commands t).status = .completed := by
  have hi := h.filled.lt_count (ready_cmdId hready)
  have hcap := h.filled.count_le
  have hids := h.filled.cmdId s (by omega)
  have hidi := h.filled.cmdId i hi
  obtain ⟨hself, holder⟩ := hguard hready
  have hlast := h.filled.barriers s (by omega) hbar
  have hpos : 0 < q.lastBarrierId := by omega
  rcases Nat.lt_trichotomy (i + 1) q.lastBarrierId with hlt | heq | hgt
  · have hdone := holder (by rw [hidi]; exact hlt) s (by omega) hbar (by omega)
    exact h.passed s (by omega) hbar hdone t ht
  · have hbar' := (h.filled.last hpos).2
    rw [← heq] at hbar'
    have hidt := h.filled.cmdId t (by omega)
    exact hself hbar' t (by omega) (by omega) (by omega)
  · have hclear : barrierClear q = true := (ready_iff.1 hready).2.2.1 ⟨hpos, by omega⟩
    have hs' := List.all_eq_true.1 hclear s (List.mem_range.2 (by omega))
    rw [hids, hbar] at hs'
    have hdone : (q.commands s).status = .completed := by simpa using hs'
    exact h.passed s (by omega) hbar hdone t ht

private theorem execute (h : BarrierKept q) {i : Nat} (hready : q.ready i = true) (hguard : q.RespectsBarriers i) :
    BarrierKept (executeCommand q i) := by
  have hi := h.filled.lt_count (ready_cmdId hready)
  have hp := ready_pending hready
  have hcap := h.filled.count_le
  refine ⟨h.filled.execute hi hp, (executeCommand_synchronous q i).trans h.async, ?_, ?_⟩
  · rw [executeCommand_log]
    refine everywhere_snoc.2 ⟨h.order, ?_⟩
    intro c st he b deps hmem hbc a hab
    obtain ⟨hb1, hbc, hle⟩ := h.filled.precedes hbc
    obtain ⟨ha1, hab, _⟩ := h.filled.precedes hab
    injection he with hc _
    rw [h.filled.cmdId i hi] at hc
    have hbar := (h.filled.content b deps true hmem).2
    have hdone := h.passed_of_ready hready hguard (s := b - 1) (by omega) hbar (t := a - 1) (by omega)
    exact h.filled.mem_completed ha1 (by omega) hdone
  · have hold : ∀ s, s ≠ i → (executeCommand q i).commands s = q.commands s :=
      fun s hs => executeCommand_of_ne q i hs
    intro s hs hbar hst t ht
    rw [executeCommand_count] at hs
    by_cases hsi : s = i
    · rw [hsi, executeCommand_self, TuCommand.executed_isBarrier] at hbar
      have hidt := h.filled.cmdId t (by omega)
      have hidi := h.filled.cmdId i hi
      rw [hold t (by omega)]
      exact (hguard hready).1 hbar t (by omega) (by omega) (by omega)
    · rw [hold s hsi] at hbar hst
      have hdone := h.passed s hs hbar hst t ht
      have hti : t ≠ i := by
        rintro rfl
        rw [hp] at hdone
        cases hdone
      rw [hold t hti]
      exact hdone

private theorem act (h : BarrierKept q) (a : TuCmdqAction Op) (hguard : q.ActionRespects a) :
    BarrierKept (act q a) := by
  cases a with
  | enqueue opcode opDesc depIds =>
    show BarrierKept (if q.capacity ≤ q.count then q else q.enqueue opcode opDesc depIds)
    split
    · exact h
    · rename_i hroom
      exact h.enqueue (Nat.not_le.1 hroom) opcode opDesc depIds
  | advance => exact ⟨h.filled.advance, h.async, h.order, h.passed⟩
  | scan i =>
    show BarrierKept (q.scanSlot i)
    rw [scanSlot_eq h.async]
    split
    · rename_i hready
      exact h.execute hready hguard
    · exact h
  | reset => exact ⟨Filled.reset q, h.async, everywhere_nil _, fun s hs => absurd hs (Nat.not_lt_zero s)⟩

end BarrierKept

/-- In every run that takes no command past a barrier, what was submitted before a barrier completes before anything
submitted after it executes. -/
theorem run_barrierOrder (capacity : UInt32) (ops : List (TuCmdqOp Op))
    (h : Run.Along CallRespects step (tuCmdqCreate Op capacity false) ops) :
    BarrierOrder (run capacity false ops).log := by
  have hcreate : BarrierKept (tuCmdqCreate Op capacity false) :=
    ⟨Filled.create capacity false, rfl, everywhere_nil _, fun s hs => absurd hs (Nat.not_lt_zero s)⟩
  refine (h.invariant ?_ hcreate).order
  intro q op hq hop
  rw [← exec_actions hq.async op]
  exact hop.invariant (fun _ a hq ha => hq.act a ha) hq

/-- A barrier between two commands, submitted with a dependency on the first. -/
theorem run_barrierOrder_nop :
    BarrierOrder (run 4 false [.submit TuCmd.nop none [], .submit TuCmd.barrier none [1], .submit TuCmd.nop none []] :
      TuCommandQueue Unit).log :=
  run_barrierOrder 4 _ (by decide +kernel)

/-- Command 1 faults, command 2 waits for it without end, and the barrier after them lets command 4 execute. -/
theorem barrier_passes_faulted :
    ¬ BarrierOrder (run 4 false [.submit 0x99 none [], .submit TuCmd.nop none [1], .barrier, .submit TuCmd.nop none []] :
      TuCommandQueue Unit).log := by
  intro h
  have hlog : (run 4 false [.submit 0x99 none [], .submit TuCmd.nop none [1], .barrier, .submit TuCmd.nop none []] :
      TuCommandQueue Unit).log = [.submitted 1 [] false, .executed 1 .faulted, .submitted 2 [1] false,
        .submitted 3 [] true, .executed 3 .completed, .submitted 4 [] false] ++ .executed 4 .completed :: [] := by
    decide +kernel
  have hdone := h _ _ _ hlog 4 .completed rfl 3 [] (by decide) (by unfold Precedes; decide) 2 (by unfold Precedes; decide)
  revert hdone
  decide

/-! ### What the commands do -/

def TuCmdEvent.completedId : TuCmdEvent → Option Nat
  | .executed c .completed => some c
  | .executed _ _ | .submitted .. => none

/-- The completed commands, in the order of their execution. -/
def cmdsCompleted (log : List TuCmdEvent) : List Nat := log.filterMap (·.completedId)

theorem mem_cmdsCompleted {log : List TuCmdEvent} {c : Nat} : c ∈ cmdsCompleted log ↔ .executed c .completed ∈ log := by
  unfold cmdsCompleted
  rw [List.mem_filterMap]
  constructor
  · rintro ⟨e, he, hid⟩
    cases e with
    | submitted => cases hid
    | executed c' st =>
      cases st with
      | completed =>
        injection hid with hid
        exact hid ▸ he
      | pending | issued | faulted => cases hid
  · exact fun h => ⟨_, h, rfl⟩

@[simp] theorem cmdsCompleted_submitted (log : List TuCmdEvent) (c : Nat) (deps : List Nat) (bar : Bool) :
    cmdsCompleted (log ++ [.submitted c deps bar]) = cmdsCompleted log := by
  simp [cmdsCompleted, TuCmdEvent.completedId]

theorem cmdsCompleted_executed (log : List TuCmdEvent) (c : Nat) (cmd : TuCommand Op) :
    cmdsCompleted (log ++ [.executed c cmd.outcome]) = cmdsCompleted log ++ if TuCmd.isKnown cmd.opcode then [c] else [] := by
  unfold TuCommand.outcome
  split <;> simp [cmdsCompleted, TuCmdEvent.completedId]

@[simp] theorem TuCommand.executed_opcode (cmd : TuCommand Op) (cycle : Nat) : (cmd.executed cycle).opcode = cmd.opcode := by
  unfold TuCommand.executed
  split <;> rfl

@[simp] theorem TuCommand.executed_op (cmd : TuCommand Op) (cycle : Nat) : (cmd.executed cycle).op = cmd.op := by
  unfold TuCommand.executed
  split <;> rfl

section Meaning

variable {σ : Type} (meaning : UInt32 → Option Op → σ → σ)

namespace TuCommandQueue

/-- The memory after an action: a slot that is executed does what its opcode means on its operands. -/
def actMemory (q : TuCommandQueue Op) (s : σ) : TuCmdqAction Op → σ
  | .scan i =>
    if q.ready i && TuCmd.isKnown (q.commands i).opcode then meaning (q.commands i).opcode (q.commands i).op s else s
  | .enqueue .. | .advance | .reset => s

/-- A queue with its memory after an action. -/
def actOn (x : TuCommandQueue Op × σ) (a : TuCmdqAction Op) : TuCommandQueue Op × σ := (act x.1 a, actMemory meaning x.1 x.2 a)

/-- An asynchronous queue with its memory after a call. -/
def stepOn (x : TuCommandQueue Op × σ) (op : TuCmdqOp Op) : TuCommandQueue Op × σ := Run.exec (actOn meaning) x (x.1.actions op)

/-- A new asynchronous queue and the memory after these calls. -/
def runOn (capacity : UInt32) (s : σ) (ops : List (TuCmdqOp Op)) : TuCommandQueue Op × σ :=
  Run.exec (stepOn meaning) (tuCmdqCreate Op capacity false, s) ops

/-- What command `c` does to a memory. -/
def effect (q : TuCommandQueue Op) (s : σ) (c : Nat) : σ := meaning (q.commands (c - 1)).opcode (q.commands (c - 1)).op s

/-- Command `b` names the earlier command `a` as a dependency. -/
def Awaits (q : TuCommandQueue Op) (a b : Nat) : Prop := a < b ∧ a ∈ (q.commands (b - 1)).depIds

/-- Every two commands that do not commute are linked by a chain of dependencies. -/
def Linked (q : TuCommandQueue Op) : Prop :=
  ∀ a b, 1 ≤ a → a < b → b ≤ q.count → ¬ Swaps (q.effect meaning) a b → Relation.TransGen q.Awaits a b

end TuCommandQueue

/-- The memory holds the completed commands, in the order of their execution. -/
private structure Replayed (s₀ : σ) (x : TuCommandQueue Op × σ) : Prop where
  filled : Filled x.1
  async : x.1.synchronous = false
  memory : x.2 = (cmdsCompleted x.1.log).foldl (x.1.effect meaning) s₀
  nodup : (cmdsCompleted x.1.log).Nodup
  order : ∀ b ∈ cmdsCompleted x.1.log, ∀ a, x.1.Awaits a b → 1 ≤ a → Precedes (cmdsCompleted x.1.log) a b

namespace Replayed

variable {meaning} {s₀ : σ} {q : TuCommandQueue Op} {s : σ}

/-- A step that keeps what the completed commands do and completes nothing. -/
private theorem keep {q' : TuCommandQueue Op} (h : Replayed meaning s₀ (q, s)) (hfilled : Filled q')
    (hasync : q'.synchronous = false) (hlog : cmdsCompleted q'.log = cmdsCompleted q.log)
    (hcmd : ∀ c ∈ cmdsCompleted q.log, q'.commands (c - 1) = q.commands (c - 1)) : Replayed meaning s₀ (q', s) where
  filled := hfilled
  async := hasync
  memory := by
    show s = _
    rw [hlog, show s = _ from h.memory]
    refine List.foldl_ext _ _ _ fun t c hc => ?_
    simp only [effect, hcmd c hc]
  nodup := by
    show (cmdsCompleted q'.log).Nodup
    rw [hlog]
    exact h.nodup
  order := by
    show ∀ b ∈ cmdsCompleted q'.log, _
    rw [hlog]
    rintro b hb a ⟨hab, ha⟩ h1
    rw [hcmd b hb] at ha
    exact h.order b hb a ⟨hab, ha⟩ h1

private theorem slot {c : Nat} (h : Filled q) (hc : c ∈ cmdsCompleted q.log) :
    1 ≤ c ∧ c ≤ q.count ∧ (q.commands (c - 1)).status = .completed := by
  obtain ⟨i, hi, rfl, hst, -⟩ := (h.executed c .completed).1 (mem_cmdsCompleted.1 hc)
  exact ⟨by omega, by omega, hst⟩

private theorem enqueue (h : Replayed meaning s₀ (q, s)) (hroom : q.count < q.capacity) (opcode : UInt32)
    (opDesc : Option Op) (depIds : List Nat) : Replayed meaning s₀ (q.enqueue opcode opDesc depIds, s) := by
  have hfilled : Filled q := h.filled
  refine h.keep (hfilled.enqueue hroom opcode opDesc depIds) h.async (cmdsCompleted_submitted ..) fun c hc => ?_
  obtain ⟨h1, hle, -⟩ := slot hfilled hc
  have hhead : q.head = q.count := hfilled.head_eq hroom
  exact enqueue_of_ne q opcode opDesc depIds (by omega)

private theorem execute (h : Replayed meaning s₀ (q, s)) {i : Nat} (hready : q.ready i = true) :
    Replayed meaning s₀ (executeCommand q i, actMemory meaning q s (.scan i)) := by
  have hi : i < q.count := h.filled.lt_count (ready_cmdId hready)
  have hid : (q.commands i).cmdId = i + 1 := h.filled.cmdId i hi
  have hpending := ready_pending hready
  have hfilled : Filled (executeCommand q i) := h.filled.execute hi hpending
  have hasync := (executeCommand_synchronous q i).trans h.async
  -- opcode, operands and dependencies of every slot stay
  have hcmd : ∀ t c, (executeCommand q i).effect meaning t c = q.effect meaning t c := by
    intro t c
    unfold effect
    by_cases hc : c - 1 = i
    · rw [hc, executeCommand_self, TuCommand.executed_opcode, TuCommand.executed_op]
    · rw [executeCommand_of_ne q i hc]
  have hawaits : ∀ a b, (executeCommand q i).Awaits a b ↔ q.Awaits a b := by
    intro a b
    unfold Awaits
    by_cases hb : b - 1 = i
    · rw [hb, executeCommand_self, TuCommand.executed_depIds]
    · rw [executeCommand_of_ne q i hb]
  have hfold : (cmdsCompleted q.log).foldl ((executeCommand q i).effect meaning) s₀ = s := by
    rw [show s = _ from h.memory]
    exact List.foldl_ext _ _ _ fun t c _ => hcmd t c
  have hlog : cmdsCompleted (executeCommand q i).log =
      cmdsCompleted q.log ++ if TuCmd.isKnown (q.commands i).opcode then [i + 1] else [] := by
    rw [executeCommand_log, cmdsCompleted_executed, hid]
  have hnew : i + 1 ∉ cmdsCompleted q.log := by
    intro hmem
    have hst := (slot h.filled hmem).2.2
    rw [Nat.add_sub_cancel, hpending] at hst
    cases hst
  by_cases hknown : TuCmd.isKnown (q.commands i).opcode
  · rw [if_pos hknown] at hlog
    refine ⟨hfilled, hasync, ?_, ?_, ?_⟩
    · show (if q.ready i && TuCmd.isKnown (q.commands i).opcode then _ else s) = _
      rw [hlog, List.foldl_append, hfold, hready, hknown]
      exact (hcmd s (i + 1)).symm
    · show (cmdsCompleted (executeCommand q i).log).Nodup
      rw [hlog]
      simpa [List.nodup_append] using ⟨h.nodup, fun c hc => ne_of_mem_of_not_mem hc hnew⟩
    · show ∀ b ∈ cmdsCompleted (executeCommand q i).log, _
      rw [hlog]
      intro b hb a hab h1
      have hab := (hawaits a b).1 hab
      rcases List.mem_append.1 hb with hb | hb
      · exact (h.order b hb a hab h1).append _
      · obtain rfl := List.mem_singleton.1 hb
        have hle : a ≤ q.count := by
          have hlt := hab.1
          omega
        have hdone := h.filled.depsSatisfied (ready_iff.1 hready).2.2.2 hab.2 h1 hle
        exact precedes_snoc (mem_cmdsCompleted.2 hdone) _
  · rw [if_neg hknown, List.append_nil] at hlog
    refine ⟨hfilled, hasync, ?_, ?_, ?_⟩
    · show (if q.ready i && TuCmd.isKnown (q.commands i).opcode then _ else s) = _
      rw [hlog, hfold, hready]
      simp [hknown]
    · show (cmdsCompleted (executeCommand q i).log).Nodup
      rw [hlog]
      exact h.nodup
    · show ∀ b ∈ cmdsCompleted (executeCommand q i).log, _
      rw [hlog]
      exact fun b hb a hab h1 => h.order b hb a ((hawaits a b).1 hab) h1

private theorem act (h : Replayed meaning s₀ (q, s)) {a : TuCmdqAction Op} (ha : a ≠ .reset) :
    Replayed meaning s₀ (actOn meaning (q, s) a) := by
  cases a with
  | enqueue opcode opDesc depIds =>
    show Replayed meaning s₀ (if q.capacity ≤ q.count then q else q.enqueue opcode opDesc depIds, s)
    split
    · exact h
    · rename_i hroom
      exact h.enqueue (Nat.not_le.1 hroom) opcode opDesc depIds
  | advance => exact h.keep h.filled.advance h.async rfl fun _ _ => rfl
  | scan i =>
    show Replayed meaning s₀ (q.scanSlot i, actMemory meaning q s (.scan i))
    rw [scanSlot_eq h.async]
    by_cases hready : q.ready i = true
    · rw [if_pos hready]
      exact h.execute hready
    · rw [if_neg hready]
      simpa [actMemory, hready] using h
  | reset => exact absurd rfl ha

end Replayed

/-! A call other than a reset makes no reset. -/

private theorem tickActions_ne_reset {capacity : Nat} {a : TuCmdqAction Op} (ha : a ∈ tickActions Op capacity) :
    a ≠ .reset := by
  simp only [tickActions, List.mem_cons, List.mem_map] at ha
  rcases ha with rfl | ⟨i, -, rfl⟩ <;> simp

private theorem waitActions_ne_reset (cmdId start : Nat) (timeoutCycles : UInt64) (rounds : Nat) (q : TuCommandQueue Op)
    {a : TuCmdqAction Op} (ha : a ∈ waitActions cmdId start timeoutCycles rounds q) : a ≠ .reset := by
  induction rounds generalizing q with
  | zero => cases ha
  | succ rounds ih =>
    unfold waitActions at ha
    split at ha
    · cases ha
    · rcases List.mem_append.1 ha with ha | ha
      · exact tickActions_ne_reset ha
      · split at ha
        · cases ha
        · exact ih _ ha

private theorem drainActions_ne_reset (rounds : Nat) (q : TuCommandQueue Op) {a : TuCmdqAction Op}
    (ha : a ∈ drainActions rounds q) : a ≠ .reset := by
  induction rounds generalizing q with
  | zero => cases ha
  | succ rounds ih =>
    unfold drainActions at ha
    split at ha
    · cases ha
    · rcases List.mem_append.1 ha with ha | ha
      · exact tickActions_ne_reset ha
      · exact ih _ ha

private theorem actions_ne_reset {q : TuCommandQueue Op} {op : TuCmdqOp Op} (hop : op ≠ .reset) {a : TuCmdqAction Op}
    (ha : a ∈ q.actions op) : a ≠ .reset := by
  have hsubmit : ∀ opcode opDesc depIds, a ∈ q.submitActions opcode opDesc depIds → a ≠ .reset := by
    intro opcode opDesc depIds ha
    unfold submitActions at ha
    split at ha
    · cases ha
    · rcases List.mem_cons.1 ha with rfl | ha
      · simp
      · exact tickActions_ne_reset ha
  cases op with
  | submit opcode opDesc depIds => exact hsubmit _ _ _ ha
  | barrier => exact hsubmit _ _ _ ha
  | tick => exact tickActions_ne_reset ha
  | wait cmdId timeoutCycles rounds => exact waitActions_ne_reset _ _ _ _ _ ha
  | sync rounds => exact drainActions_ne_reset _ _ ha
  | reset => exact absurd rfl hop

private theorem run_replayed (capacity : UInt32) (s : σ) (ops : List (TuCmdqOp Op)) (hops : .reset ∉ ops) :
    Replayed meaning s (runOn meaning capacity s ops) := by
  have hcreate : Replayed meaning s (tuCmdqCreate Op capacity false, s) :=
    ⟨Filled.create capacity false, rfl, rfl, List.nodup_nil, fun b hb => absurd hb List.not_mem_nil⟩
  have hguard : Run.Along (fun _ op => op ≠ .reset) (stepOn meaning) (tuCmdqCreate Op capacity false, s) ops :=
    Run.Along.of_forall (fun op hop _ => ne_of_mem_of_not_mem hop hops) _
  refine hguard.invariant (fun x op hx hop => ?_) hcreate
  have hactions : Run.Along (fun _ a => a ≠ .reset) (actOn meaning) x (x.1.actions op) :=
    Run.Along.of_forall (fun a ha _ => actions_ne_reset hop ha) _
  exact hactions.invariant (fun _ _ hx ha => hx.act ha) hx

variable {meaning}

/-- A chain of dependencies is kept by the order of execution. -/
private theorem Replayed.chain {s₀ : σ} {x : TuCommandQueue Op × σ} (h : Replayed meaning s₀ x) {a b : Nat}
    (hchain : Relation.TransGen x.1.Awaits a b) (h1 : 1 ≤ a) (hb : b ∈ cmdsCompleted x.1.log) :
    Precedes (cmdsCompleted x.1.log) a b := by
  induction hchain with
  | single hab => exact h.order _ hb a hab h1
  | tail hac hcb ih =>
    rename_i c b
    have hle : 1 ≤ c := by
      have hlt : a < c := by
        refine Relation.TransGen.trans_induction_on hac (fun h => h.1) (fun _ _ h h' => Nat.lt_trans h h')
      omega
    have hlast := h.order b hb c hcb hle
    exact (ih hlast.mem_left).trans h.nodup hlast

/-- If every two commands that do not commute are linked by dependencies, a run of an asynchronous queue leaves the
memory that its completed commands leave in the order of their submission. -/
theorem run_serialisable (meaning : UInt32 → Option Op → σ → σ) (capacity : UInt32) (s : σ) (ops : List (TuCmdqOp Op))
    (hops : .reset ∉ ops) (hlinked : (runOn meaning capacity s ops).1.Linked meaning) :
    (runOn meaning capacity s ops).2 =
      ((cmdsSubmitted (runOn meaning capacity s ops).1.log).filter
        (· ∈ cmdsCompleted (runOn meaning capacity s ops).1.log)).foldl ((runOn meaning capacity s ops).1.effect meaning) s := by
  have h := run_replayed meaning capacity s ops hops
  generalize runOn meaning capacity s ops = x at h hlinked
  have hsubmitted := h.filled.submitted
  have hnodup : (cmdsSubmitted x.1.log).Nodup := by
    rw [hsubmitted]
    exact List.nodup_range'
  have hperm : (cmdsCompleted x.1.log).Perm ((cmdsSubmitted x.1.log).filter (· ∈ cmdsCompleted x.1.log)) := by
    rw [List.perm_ext_iff_of_nodup h.nodup (hnodup.filter _)]
    intro c
    rw [List.mem_filter, decide_eq_true_iff]
    refine ⟨fun hc => ⟨?_, hc⟩, fun hc => hc.2⟩
    obtain ⟨h1, hle, -⟩ := Replayed.slot h.filled hc
    exact h.filled.submitted_iff.2 ⟨h1, hle⟩
  rw [h.memory]
  refine foldl_eq_of_order (hnodup.filter _) hperm ?_ s
  intro a b hab hswap
  have hb : b ∈ cmdsCompleted x.1.log := hperm.mem_iff.2 (hab.subset (by simp))
  have hab : Precedes (cmdsSubmitted x.1.log) a b := List.Sublist.trans hab List.filter_sublist
  obtain ⟨h1, hlt, hle⟩ := h.filled.precedes hab
  exact h.chain (hlinked a b h1 hlt hle hswap) h1 hb

/-- Command 1 names an id that no command has and waits until no slot is free, behind commands 2 and 3. -/
theorem run_serialisable_load :
    let meaning : UInt32 → Option Unit → Nat × Nat → Nat × Nat := fun opcode _ s =>
      if opcode = TuCmd.dmaLoad then (2 * s.1 + 3, s.2)
      else if opcode = TuCmd.mma then (s.1, s.2 + 5)
      else if opcode = TuCmd.dmaStore then (s.1 + s.2, s.2)
      else s
    let x := runOn meaning 4 (1, 1) [.submit TuCmd.dmaLoad none [0], .submit TuCmd.mma none [], .submit TuCmd.nop none [],
      .submit TuCmd.dmaStore none [1, 2]]
    cmdsCompleted x.1.log = [2, 3, 1, 4] ∧ x.2 = [1, 2, 3, 4].foldl (x.1.effect meaning) (1, 1) := by
  intro meaning x
  have hsubmitted : cmdsSubmitted x.1.log = [1, 2, 3, 4] := by decide +kernel
  have hcompleted : cmdsCompleted x.1.log = [2, 3, 1, 4] := by decide +kernel
  have hcount : x.1.count = 4 := by decide +kernel
  have hslots : [1, 2, 3, 4].map (fun c => ((x.1.commands (c - 1)).opcode, (x.1.commands (c - 1)).depIds)) =
      [(TuCmd.dmaLoad, [0]), (TuCmd.mma, []), (TuCmd.nop, []), (TuCmd.dmaStore, [1, 2])] := by decide +kernel
  simp only [List.map_cons, List.map_nil, List.cons.injEq, Prod.mk.injEq, and_true] at hslots
  obtain ⟨⟨hop1, -⟩, ⟨hop2, -⟩, ⟨hop3, -⟩, ⟨-, hdeps⟩⟩ := hslots
  have heffect1 : ∀ s, x.1.effect meaning s 1 = (2 * s.1 + 3, s.2) := fun s => by
    unfold effect
    rw [hop1]
    rfl
  have heffect2 : ∀ s, x.1.effect meaning s 2 = (s.1, s.2 + 5) := fun s => by
    unfold effect
    rw [hop2]
    rfl
  have heffect3 : ∀ s, x.1.effect meaning s 3 = s := fun s => by
    unfold effect
    rw [hop3]
    rfl
  have hlinked : x.1.Linked meaning := by
    intro a b h1 hab hb hswap
    rw [hcount] at hb
    by_cases hlast : b = 4 ∧ a ≠ 3
    · obtain ⟨rfl, ha⟩ := hlast
      refine .single ⟨hab, ?_⟩
      rw [hdeps]
      simp
      omega
    · -- the load, the product and the empty command commute
      refine absurd (fun s => ?_) hswap
      obtain ⟨rfl, rfl⟩ | ⟨rfl, rfl⟩ | ⟨rfl, rfl⟩ | ⟨rfl, rfl⟩ :
          (a = 1 ∧ b = 2) ∨ (a = 1 ∧ b = 3) ∨ (a = 2 ∧ b = 3) ∨ (a = 3 ∧ b = 4) := by omega
      · rw [heffect1, heffect2, heffect1, heffect2]
      all_goals rw [heffect3, heffect3]
  have hfilter : (cmdsSubmitted x.1.log).filter (· ∈ cmdsCompleted x.1.log) = [1, 2, 3, 4] := by
    rw [hsubmitted, hcompleted]
    decide
  refine ⟨hcompleted, ?_⟩
  have hmem := run_serialisable meaning 4 (1, 1) _ (by simp) hlinked
  rw [hmem, hfilter]

end Meaning

end Tusim
