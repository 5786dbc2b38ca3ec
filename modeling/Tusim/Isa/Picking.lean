import Tusim.Isa.Estimates
import Tusim.Lib.Run

/-!
# What list scheduling picks

The ready queue holds the nodes whose recorded predecessors are all emitted, apart from synchronisation
instructions without recorded predecessors (`ListScheduler.Emitting.Full`).  So each node of the schedule is the
best of these, and only where there are none the first node that is left (`listSchedule_picks`).
-/

namespace Tusim

open Emission History

namespace TuSchedGraph

/-- The node is not emitted and all its recorded predecessors are. -/
structure Free (g : TuSchedGraph) (past : List Nat) (k : Nat) : Prop where
  lt : k < g.numNodes
  fresh : k ∉ past
  preds : ∀ p ∈ g.preds k, p ∈ past

/-- The node may be in the ready queue. -/
def Queued (g : TuSchedGraph) (past : List Nat) (k : Nat) : Prop :=
  g.Free past k ∧ ((g.nodes k).isBarrier = false ∨ g.preds k ≠ [])

/-- The scheduler prefers node `k` to node `m`. -/
def Prefers (g : TuSchedGraph) (k m : Nat) : Prop :=
  g.priority m < g.priority k ∨ g.priority m = g.priority k ∧ k ≤ m

/-- After `past` the scheduler emits `k`. -/
structure Picks (g : TuSchedGraph) (past : List Nat) (k : Nat) : Prop where
  free : g.Free past k
  best : ∀ m, g.Queued past m → g.Queued past k ∧ g.Prefers k m
  first : (∀ m, ¬ g.Queued past m) → ∀ m, g.Free past m → k ≤ m

variable {g : TuSchedGraph}

/-! ### The best candidate -/

/-- The search for the best candidate finds one that it prefers to all. -/
theorem best_prefers {ready : List Nat} (hprio : ∀ k ∈ ready, -2 ^ 31 ≤ g.priority k) {m : Nat} (hm : m ∈ ready) :
    g.Prefers (ready.getD (g.best ready) 0) m := by
  have hscan : ∀ n, n ≤ ready.length → 0 < n → ∃ q, q < n ∧
      (List.range n).foldl (fun (best : Nat × Int) q =>
        let nodeId := ready.getD q 0
        let prio := g.priority nodeId
        if prio > best.2 || (prio = best.2 && nodeId < ready.getD best.1 0) then (q, prio) else best) (0, -2 ^ 31) =
          (q, g.priority (ready.getD q 0)) ∧
      ∀ p, p < n → g.Prefers (ready.getD q 0) (ready.getD p 0) := by
    intro n hn hpos
    induction n with
    | zero => omega
    | succ n ih =>
      rw [List.range_succ, List.foldl_append, List.foldl_cons, List.foldl_nil]
      rcases Nat.eq_zero_or_pos n with rfl | hpos'
      · -- the first candidate
        refine ⟨0, Nat.zero_lt_succ 0, ?_, fun p hp => ?_⟩
        · have hge := hprio (ready.getD 0 0) (by
            rw [List.getD_eq_getElem _ _ hn]
            exact List.getElem_mem hn)
          rw [List.range_zero, List.foldl_nil]
          dsimp only
          split
          · rfl
          · rename_i hlow
            simp only [Bool.or_eq_true, decide_eq_true_eq, not_or] at hlow
            rw [show g.priority (ready.getD 0 0) = -2 ^ 31 by omega]
        · obtain rfl : p = 0 := by omega
          exact Or.inr ⟨rfl, Nat.le_refl _⟩
      · obtain ⟨q, hq, hfold, hbest⟩ := ih (by omega) hpos'
        rw [hfold]
        dsimp only
        split
        · rename_i hbetter
          simp only [Bool.or_eq_true, decide_eq_true_eq, Bool.and_eq_true] at hbetter
          refine ⟨n, Nat.lt_succ_self n, rfl, fun p hp => ?_⟩
          rcases Nat.lt_succ_iff_lt_or_eq.1 hp with hp | rfl
          · have hold := hbest p hp
            unfold Prefers at hold ⊢
            omega
          · exact Or.inr ⟨rfl, Nat.le_refl _⟩
        · rename_i hworse
          simp only [Bool.or_eq_true, decide_eq_true_eq, Bool.and_eq_true, not_or, not_and] at hworse
          refine ⟨q, by omega, rfl, fun p hp => ?_⟩
          rcases Nat.lt_succ_iff_lt_or_eq.1 hp with hp | rfl
          · exact hbest p hp
          · unfold Prefers
            omega
  obtain ⟨p, hp, rfl⟩ := List.mem_iff_getElem.1 hm
  obtain ⟨q, -, hfold, hbest⟩ := hscan ready.length (Nat.le_refl _) (by omega)
  have hq : g.best ready = q := congrArg Prod.fst hfold
  rw [hq, ← List.getD_eq_getElem _ 0 hp]
  exact hbest p hp

end TuSchedGraph

variable {g : TuSchedGraph} {s : ListScheduler}

/-- The ready queue holds what may be in it. -/
def ListScheduler.Full (g : TuSchedGraph) (s : ListScheduler) : Prop := ∀ k, k ∈ s.readyQueue ↔ g.Queued s.order k

theorem ListScheduler.full_init (g : TuSchedGraph) : (ListScheduler.init g).Full g := by
  intro k
  unfold ListScheduler.init TuSchedGraph.Queued
  dsimp only
  rw [List.mem_filter, List.mem_range]
  simp only [Bool.and_eq_true, decide_eq_true_eq, Bool.not_eq_true', List.length_eq_zero_iff]
  constructor
  · rintro ⟨hk, hnil, hbar⟩
    exact ⟨⟨hk, List.not_mem_nil, by rw [hnil]; exact fun p hp => hp⟩, Or.inl hbar⟩
  · rintro ⟨⟨hk, -, hpreds⟩, hqueue⟩
    have hnil : g.preds k = [] := List.eq_nil_iff_forall_not_mem.2 fun p hp => List.not_mem_nil (hpreds p hp)
    exact ⟨hk, hnil, hqueue.resolve_right fun hne => hne hnil⟩

/-- With room for all of them the releases push every node that waits for nothing else. -/
theorem ListScheduler.foldl_release_push (ids : List Nat) (hids : ids.Nodup) (s : ListScheduler)
    (hroom : s.readyQueue.length + ids.length ≤ tuSchedMaxReadyQueue) :
    (∀ k ∈ s.readyQueue, k ∈ (ids.foldl .release s).readyQueue) ∧
      ∀ k ∈ ids, s.remainingPreds k - 1 = 0 → s.scheduled k = false → k ∈ (ids.foldl .release s).readyQueue := by
  induction ids generalizing s with
  | nil => exact ⟨fun k hk => hk, fun k hk => absurd hk List.not_mem_nil⟩
  | cons i ids ih =>
    rw [List.nodup_cons] at hids
    rw [List.length_cons] at hroom
    have hpush := s.release_readyQueue i
    have hlen : (s.release i).readyQueue.length ≤ s.readyQueue.length + 1 := by
      rcases hpush with hq | ⟨hq, -, -⟩
      · rw [hq]
        omega
      · rw [hq, List.length_append, List.length_singleton]
    obtain ⟨hkeep, hnew⟩ := ih hids.2 (s.release i) (by omega)
    rw [List.foldl_cons]
    refine ⟨fun k hk => hkeep k ?_, fun k hk hzero hfresh => ?_⟩
    · rcases hpush with hq | ⟨hq, -, -⟩
      · rw [hq]
        exact hk
      · rw [hq]
        exact List.mem_append_left _ hk
    · rcases List.mem_cons.1 hk with rfl | hk
      · refine hkeep k ?_
        have hcond : (decide (s.remainingPreds k - 1 = 0) && decide (s.readyQueue.length < tuSchedMaxReadyQueue) &&
            !s.scheduled k) = true := by
          rw [hfresh, decide_eq_true hzero, decide_eq_true (by omega)]
          rfl
        unfold ListScheduler.release
        dsimp only
        rw [if_pos hcond]
        exact List.mem_append_right _ (List.mem_singleton.2 rfl)
      · have hki : k ≠ i := fun hc => hids.1 (hc ▸ hk)
        refine hnew k hk ?_ hfresh
        rw [release_remainingPreds, Function.update_of_ne hki]
        exact hzero

/-! ### One turn -/

private theorem Free.of_remaining (h : s.Emitting g) {k : Nat} (hlt : k < g.numNodes) (hfresh : k ∉ s.order)
    (hzero : s.remainingPreds k = 0) : g.Free s.order k :=
  ⟨hlt, hfresh, pending_eq_zero.1 ((h.remaining k).symm.trans hzero)⟩

private theorem TuSchedGraph.Free.remaining (h : s.Emitting g) {k : Nat} (hk : g.Free s.order k) :
    s.remainingPreds k = 0 := by
  rw [h.remaining k]
  exact pending_eq_zero.2 hk.preds

/-- The selected candidate is what the scheduler picks. -/
theorem ListScheduler.Emitting.picks (h : s.Emitting g) (hfull : s.Full g)
    (hprio : ∀ k, k < g.numNodes → -2 ^ 31 ≤ g.priority k) (hne : s.candidates g ≠ []) :
    g.Picks s.order ((s.candidates g).getD (g.best (s.candidates g)) 0) := by
  obtain ⟨-, hcand⟩ := h.candidates
  have hmem : (s.candidates g).getD (g.best (s.candidates g)) 0 ∈ s.candidates g := by
    rw [List.getD_eq_getElem _ _ (g.best_lt hne)]
    exact List.getElem_mem _
  obtain ⟨hlt, hfresh, hzero⟩ := hcand _ hmem
  refine ⟨Free.of_remaining h hlt hfresh hzero, fun m hm => ?_, fun hnone m hm => ?_⟩
  · -- the candidates are the ready queue
    have hready := (hfull m).2 hm
    have hqueue : s.candidates g = s.readyQueue := by
      unfold ListScheduler.candidates
      rw [if_neg (by rw [List.isEmpty_iff]; exact List.ne_nil_of_mem hready)]
    rw [hqueue] at hmem ⊢
    refine ⟨(hfull _).1 hmem, TuSchedGraph.best_prefers (fun k hk => hprio k ?_) hready⟩
    exact ((hfull k).1 hk).1.lt
  · -- the queue is empty and the first node left is the only candidate
    have hempty : s.readyQueue = [] := List.eq_nil_iff_forall_not_mem.2 fun k hk => hnone k ((hfull k).1 hk)
    have hcands : s.candidates g =
        ((List.range g.numNodes).find? fun i => !s.scheduled i && s.remainingPreds i = 0).toList := by
      unfold ListScheduler.candidates
      rw [hempty]
      rfl
    rw [hcands] at hmem
    obtain ⟨-, -, hfirst⟩ := List.find?_range_eq_some.1 (Option.mem_toList.1 hmem)
    rw [← hcands] at hfirst
    by_contra hlt
    have hskip := hfirst m (Nat.not_le.1 hlt)
    have hunscheduled : s.scheduled m = false := by
      rw [← Bool.not_eq_true, h.scheduled m]
      exact hm.fresh
    rw [hunscheduled, hm.remaining h] at hskip
    exact absurd hskip (by decide)

private theorem foldl_release_order (ids : List Nat) (s : ListScheduler) :
    (ids.foldl ListScheduler.release s).order = s.order := by
  induction ids generalizing s with
  | nil => rfl
  | cons i ids ih => exact ih (s.release i)

/-- What is left of the candidates was in the ready queue. -/
private theorem rest_mem {rest : List Nat} {selected : Nat} (hperm : (selected :: rest).Perm (s.candidates g)) {k : Nat}
    (hk : k ∈ rest) : k ∈ s.readyQueue := by
  have hmem := hperm.subset (List.mem_cons_of_mem selected hk)
  have hlen := hperm.length_eq
  unfold ListScheduler.candidates at hmem hlen
  split at hmem
  · rename_i hempty
    rw [if_pos hempty, List.length_cons] at hlen
    have hle : (((List.range g.numNodes).find? fun i => !s.scheduled i && s.remainingPreds i = 0).toList).length ≤ 1 :=
      Option.length_toList_le
    have hpos := List.length_pos_of_mem hk
    omega
  · exact hmem

/-- The turn emits the selected candidate. -/
theorem ListScheduler.emit_order (g : TuSchedGraph) (s : ListScheduler) (ready : List Nat) :
    (s.emit g ready).order = s.order ++ [ready.getD (g.best ready) 0] := foldl_release_order _ _

/-- The ready queue after a turn. -/
theorem ListScheduler.Emitting.full (h : s.Emitting g) (hg : g.Dag) (hlen : g.numNodes ≤ tuSchedMaxReadyQueue)
    (hfull : s.Full g) (hne : s.candidates g ≠ []) : (s.emit g (s.candidates g)).Full g := by
  obtain ⟨hnodup, hcand⟩ := h.candidates
  obtain ⟨hemitting, -⟩ := h.emit hg hne
  have horder := s.emit_order g (s.candidates g)
  have hperm := swapRemove_perm (g.best_lt hne) 0
  have hsel := hcand _ (hperm.subset (List.mem_cons_self ..))
  have hqueue : (s.emit g (s.candidates g)).readyQueue =
      ((g.succs ((s.candidates g).getD (g.best (s.candidates g)) 0)).foldl ListScheduler.release
      { s with
        readyQueue := swapRemove (s.candidates g) (g.best (s.candidates g))
        scheduled := Function.update s.scheduled ((s.candidates g).getD (g.best (s.candidates g)) 0) true
        order := s.order ++ [(s.candidates g).getD (g.best (s.candidates g)) 0]
        estimatedCycles := s.estimatedCycles +
          (g.nodes ((s.candidates g).getD (g.best (s.candidates g)) 0)).cycles }).readyQueue := rfl
  generalize (s.candidates g).getD (g.best (s.candidates g)) 0 = selected at hperm hsel horder hqueue
  generalize hrest : swapRemove (s.candidates g) (g.best (s.candidates g)) = rest at hperm hqueue
  generalize s.emit g (s.candidates g) = t at hemitting horder hqueue ⊢
  obtain ⟨hlt, hout, hzero⟩ := hsel
  have hnodup' := hperm.nodup_iff.2 hnodup
  rw [List.nodup_cons] at hnodup'
  have hleft : ∀ k ∈ rest, k ≠ selected ∧ k < g.numNodes ∧ k ∉ s.order ∧ s.remainingPreds k = 0 := fun k hk =>
    ⟨fun hc => hnodup'.1 (hc ▸ hk), hcand k (hperm.subset (List.mem_cons_of_mem selected hk))⟩
  have hsucc : ∀ k ∈ g.succs selected, k < g.numNodes ∧ 0 < s.remainingPreds k := by
    intro k hk
    have hpred := (hg.sym selected k).1 hk
    refine ⟨(hg.edge selected k hpred).2, ?_⟩
    rw [h.remaining k]
    exact pending_pos hout hpred
  have hdisjoint : ∀ k ∈ g.succs selected, k ∉ rest := fun k hk hc => by
    have hpos := (hsucc k hk).2
    have hnone := (hleft k hc).2.2.2
    omega
  -- the candidates that are left and the successors are different nodes
  have hroom : rest.length + (g.succs selected).length ≤ tuSchedMaxReadyQueue := by
    have hall : (rest ++ g.succs selected).Nodup :=
      List.Nodup.append hnodup'.2 (hg.succs_nodup selected) fun k hk hk' => hdisjoint k hk' hk
    have hsub : rest ++ g.succs selected ⊆ List.range g.numNodes := fun k hk => by
      rcases List.mem_append.1 hk with hk | hk
      · exact List.mem_range.2 (hleft k hk).2.1
      · exact List.mem_range.2 (hsucc k hk).1
    have hle := (hall.subperm hsub).length_le
    rw [List.length_append, List.length_range] at hle
    omega
  have hfresh : ∀ k ∈ g.succs selected, k ∉ ({ s with
      readyQueue := rest
      scheduled := Function.update s.scheduled selected true
      order := s.order ++ [selected]
      estimatedCycles := s.estimatedCycles + (g.nodes selected).cycles } : ListScheduler).readyQueue := hdisjoint
  obtain ⟨-, -, -, -, hpushed⟩ := foldl_release _ (hg.succs_nodup selected) _ hnodup'.2 hfresh
  obtain ⟨hkeep, hpush⟩ := foldl_release_push _ (hg.succs_nodup selected) { s with
      readyQueue := rest
      scheduled := Function.update s.scheduled selected true
      order := s.order ++ [selected]
      estimatedCycles := s.estimatedCycles + (g.nodes selected).cycles } hroom
  rw [← hqueue] at hpushed hkeep hpush
  intro k
  constructor
  · intro hk
    obtain ⟨hklt, hkout, hkzero⟩ := hemitting.ready k hk
    refine ⟨Free.of_remaining hemitting hklt hkout hkzero, ?_⟩
    rcases hpushed k hk with hk | ⟨hk, -, -⟩
    · exact ((hfull k).1 (rest_mem hperm hk)).2
    · exact Or.inr (List.ne_nil_of_mem ((hg.sym selected k).1 hk))
  · rintro ⟨hfree, hqueued⟩
    rw [horder] at hfree
    have hkout : k ∉ s.order := fun hc => hfree.fresh (List.mem_append_left _ hc)
    have hksel : k ≠ selected := fun hc => hfree.fresh (List.mem_append_right _ (List.mem_singleton.2 hc))
    by_cases hsel : selected ∈ g.preds k
    · -- the last predecessor is emitted
      have hk := (hg.sym selected k).2 hsel
      refine hpush k hk ?_ ?_
      · show s.remainingPreds k - 1 = 0
        rw [h.remaining k, ← pending_snoc_of_mem (hg.preds_nodup k) hout hsel]
        exact pending_eq_zero.2 hfree.preds
      · show Function.update s.scheduled selected true k = false
        rw [Function.update_of_ne hksel, ← Bool.not_eq_true, h.scheduled k]
        exact hkout
    · -- it was in the queue before
      have hold : g.Queued s.order k := by
        refine ⟨⟨hfree.lt, hkout, fun p hp => ?_⟩, hqueued⟩
        rcases List.mem_append.1 (hfree.preds p hp) with hp' | hp'
        · exact hp'
        · obtain rfl := List.mem_singleton.1 hp'
          exact absurd hp hsel
      have hready := (hfull k).2 hold
      have hcands : s.candidates g = s.readyQueue := by
        unfold ListScheduler.candidates
        rw [if_neg (by rw [List.isEmpty_iff]; exact List.ne_nil_of_mem hready)]
      rw [← hcands] at hready
      exact hkeep k ((List.mem_cons.1 (hperm.symm.subset hready)).resolve_left hksel)

/-! ### The schedule -/

/-- Every node of a schedule is what the scheduler picks after the nodes before it. -/
theorem ListScheduler.Emitting.picks_loop (hg : g.Dag) (hlen : g.numNodes ≤ tuSchedMaxReadyQueue)
    (hprio : ∀ k, k < g.numNodes → -2 ^ 31 ≤ g.priority k) (n : Nat) {s : ListScheduler} (h : s.Emitting g)
    (hfull : s.Full g) (hpicks : Everywhere g.Picks s.order) : Everywhere g.Picks (ListScheduler.loop g n s).order := by
  induction n generalizing s with
  | zero => exact hpicks
  | succ n ih =>
    unfold ListScheduler.loop
    by_cases hmore : s.order.length < g.numNodes
    · have hne := h.candidates_ne_nil hg hmore
      rw [if_pos hmore]
      dsimp only
      rw [if_neg (by rwa [List.isEmpty_iff])]
      refine ih (h.emit hg hne).1 (h.full hg hlen hfull hne) ?_
      rw [ListScheduler.emit_order]
      exact everywhere_snoc.2 ⟨hpicks, h.picks hfull hprio hne⟩
    · rw [if_neg hmore]
      exact hpicks

theorem listSchedule_picks (hg : g.Dag) (hlen : g.numNodes ≤ tuSchedMaxReadyQueue)
    (hprio : ∀ k, k < g.numNodes → -2 ^ 31 ≤ g.priority k) (result : TuSchedResult) :
    Everywhere g.Picks (listSchedule g result).order :=
  (ListScheduler.emitting_init g).picks_loop hg hlen hprio g.numNodes (ListScheduler.full_init g) (everywhere_nil _)

end Tusim
