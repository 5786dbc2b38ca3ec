import Tusim.Dma.Work

/-!
# The sizes of descriptors

Whatever the engine does, a descriptor in use stays in use and keeps its `total_bytes` (`KeepsSizes`); new descriptors
go behind the ones in use.
-/

namespace Tusim

open Relation

/-- The descriptors in use stay in use and keep their sizes. -/
structure KeepsSizes (e e' : TuDmaEngine) : Prop where
  allocated : e.allocated ≤ e'.allocated
  size : ∀ d < e.allocated, (e'.heap d).totalBytes = (e.heap d).totalBytes

theorem KeepsSizes.refl (e : TuDmaEngine) : KeepsSizes e e := ⟨Nat.le_refl _, fun _ _ => rfl⟩

theorem KeepsSizes.trans {e e' e'' : TuDmaEngine} (h : KeepsSizes e e') (h' : KeepsSizes e' e'') : KeepsSizes e e'' where
  allocated := h.allocated.trans h'.allocated
  size := fun d hd => (h'.size d (hd.trans_le h.allocated)).trans (h.size d hd)

/-! ### Descriptors in use -/

private theorem accountTransfer_sizes (e : TuDmaEngine) (d : Nat) :
    (accountTransfer e d).allocated = e.allocated ∧
      ∀ x, ((accountTransfer e d).heap x).totalBytes = (e.heap x).totalBytes := by
  have hheap : ∀ x, (Function.update e.heap d { e.heap d with
      completed := true
      cyclesCompleted := Word.u64 (e.currentCycle + Word.u64 (descriptorTransferCycles e.cfg (e.heap d) +
        (sramStallCycles e.mem (e.heap d) (descriptorTransferCycles e.cfg (e.heap d))).2)) } x).totalBytes =
      (e.heap x).totalBytes := by
    intro x
    by_cases hx : x = d
    · rw [hx, Function.update_self]
    · rw [Function.update_of_ne hx]
  unfold accountTransfer
  dsimp only
  split <;> exact ⟨rfl, hheap⟩

theorem tuDmaExecuteDesc_size (e : TuDmaEngine) (d : Nat) :
    (tuDmaExecuteDesc e d).allocated = e.allocated ∧
      ∀ x, ((tuDmaExecuteDesc e d).heap x).totalBytes = (e.heap x).totalBytes := by
  rcases tuDmaExecuteDesc_cases e d with heq | heq | ⟨copies, heq⟩
  · rw [heq]
    exact ⟨rfl, fun _ => rfl⟩
  · rw [heq]
    exact ⟨rfl, fun _ => rfl⟩
  · rw [heq]
    exact accountTransfer_sizes _ d

theorem executePending_allocated (n : Nat) (e : TuDmaEngine) (i : Nat) :
    (executePending n e i).allocated = e.allocated := by
  induction n generalizing e with
  | zero => rfl
  | succ n ih =>
    unfold executePending
    split
    · rfl
    · exact (ih _).trans (tuDmaExecuteDesc_size e _).1

theorem acceptChain_allocated (e : TuDmaEngine) (i d : Nat) : (acceptChain e i d).allocated = e.allocated := by
  have hbind : (commitBinding e i d).allocated = e.allocated := by
    unfold commitBinding
    split <;> rfl
  have hstamp : ∀ (l : List Nat) (e : TuDmaEngine), (l.foldl stampSubmitted e).allocated = e.allocated := by
    intro l
    induction l with
    | nil => exact fun _ => rfl
    | cons d l ih => exact fun e => ih (stampSubmitted e d)
  have hqueue : ∀ e : TuDmaEngine, (enqueue e i d).allocated = e.allocated := by
    intro e
    unfold enqueue
    split
    · rfl
    · split <;> rfl
  exact (hqueue _).trans ((hstamp _ _).trans hbind)

theorem tuDmaSubmitDesc_allocated (e : TuDmaEngine) (desc : Option Nat) :
    (tuDmaSubmitDesc e desc).1.allocated = e.allocated := by
  rcases tuDmaSubmitDesc_cases e desc with heq | ⟨i, d, heq⟩
  · rw [heq]
  · rw [heq]
    unfold commitSubmission
    dsimp only
    split
    · exact acceptChain_allocated e i d
    · exact (executePending_allocated _ _ i).trans (acceptChain_allocated e i d)

theorem tuDmaTick_allocated (e : TuDmaEngine) : (tuDmaTick e).1.allocated = e.allocated := by
  have hsteps : ∀ {v w : QueueView}, ReflTransGen QueueView.TickStep v w → w.allocated = v.allocated := by
    intro v w h
    induction h with
    | refl => rfl
    | tail _ hstep ih =>
      cases hstep with
      | start cost _ _ _ => exact (QueueView.start_allocated _ _ _ cost).trans ih
      | retire _ _ => exact ih
  exact hsteps (view_tuDmaTick e)

theorem tuDmaFlushChannel_allocated (e : TuDmaEngine) (channel : UInt8) :
    (tuDmaFlushChannel e channel).allocated = e.allocated := by
  unfold tuDmaFlushChannel
  dsimp only
  split
  · rfl
  · split
    · exact executePending_allocated _ e _
    · exact (tuDmaExecuteDesc_size _ _).1.trans (executePending_allocated _ e _)

/-! ### Sizes -/

/-- What the engine does between two states executes descriptors and does not resize them. -/
theorem Works.size {e e' : TuDmaEngine} (h : Works e e') (d : Nat) :
    (e'.heap d).totalBytes = (e.heap d).totalBytes := by
  refine h.induction (P := fun e' => (e'.heap d).totalBytes = (e.heap d).totalBytes) ?_ ?_ rfl
  · exact fun e₁ d' h₁ => ((tuDmaExecuteDesc_size e₁ d').2 d).trans h₁
  · intro e₁ e₂ hun h₁
    have hcore : (e₂.heap d).core.totalBytes = (e₁.heap d).core.totalBytes := by rw [hun.core d]
    exact hcore.trans h₁

theorem KeepsSizes.tick (e : TuDmaEngine) : KeepsSizes e (tuDmaTick e).1 where
  allocated := (tuDmaTick_allocated e).ge
  size := fun d _ => (tuDmaTick_work e).size d

theorem KeepsSizes.submitDesc (e : TuDmaEngine) (desc : Option Nat) : KeepsSizes e (tuDmaSubmitDesc e desc).1 where
  allocated := (tuDmaSubmitDesc_allocated e desc).ge
  size := fun d _ => (tuDmaSubmitDesc_work e desc).size d

theorem KeepsSizes.newChain (e : TuDmaEngine) (descs : List TuDmaDescriptor) : KeepsSizes e (newChain e descs).1 := by
  rw [newChain_eq]
  exact ⟨Nat.le_add_right _ _, fun d hd => congrArg TuDmaDescriptor.totalBytes (if_pos hd)⟩

theorem KeepsSizes.step (e : TuDmaEngine) (op : TuDmaOp) : KeepsSizes e (e.step op) := by
  cases op with
  | submit chain => exact (KeepsSizes.newChain e chain).trans (.submitDesc _ _)
  | tick => exact .tick e
  | flush channel =>
    exact ⟨(tuDmaFlushChannel_allocated e channel).ge, fun d _ => (tuDmaFlushChannel_work e channel).size d⟩

/-- The first descriptor of a new chain is in use and has the size it was built with. -/
theorem newChain_head (e : TuDmaEngine) (descs : List TuDmaDescriptor) {d : Nat} (hd : d ∈ (newChain e descs).2) :
    d < (newChain e descs).1.allocated ∧
      (descs.head?.map (·.totalBytes)) = some ((newChain e descs).1.heap d).totalBytes := by
  rw [newChain_eq] at hd ⊢
  cases descs with
  | nil => cases hd
  | cons desc descs =>
    have heq : d = e.allocated := (Option.some.inj (Option.mem_def.1 hd)).symm
    subst heq
    refine ⟨Nat.lt_add_of_pos_right (Nat.zero_lt_succ _), ?_⟩
    show some desc.totalBytes = some (builtHeap e.heap e.allocated (desc :: descs) e.allocated).totalBytes
    unfold builtHeap
    rw [if_neg (Nat.lt_irrefl _), Nat.sub_self]
    rfl

end Tusim
