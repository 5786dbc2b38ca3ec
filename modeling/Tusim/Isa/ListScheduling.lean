import Tusim.Isa.Graph

/-!
# List scheduling

The emission loop keeps `ListScheduler.Emitting`: the counters are the numbers of recorded predecessors that are
not emitted yet, and what is emitted comes after its recorded predecessors.  Since predecessors have smaller ids
the loop never gets stuck, so a schedule is an order of all the nodes that obeys every recorded edge
(`listSchedule_order`).  The policy only chooses among nodes that may be emitted.
-/

namespace Tusim

open Emission

variable {g : TuSchedGraph} {s : ListScheduler}

/-- Edges lead from smaller to larger ids below the number of nodes, and both arrays hold each once. -/
structure TuSchedGraph.Dag (g : TuSchedGraph) : Prop where
  sym : ∀ p k, k ∈ g.succs p ↔ p ∈ g.preds k
  edge : ∀ p k, p ∈ g.preds k → p < k ∧ k < g.numNodes
  succs_nodup : ∀ p, (g.succs p).Nodup
  preds_nodup : ∀ k, (g.preds k).Nodup

/-- The estimates leave the edges alone. -/
theorem TuSchedGraph.Dag.mobility (hg : g.Dag) : (tuSchedComputeMobility g).Dag := by
  obtain ⟨asap, alap, slack, hmob⟩ := g.computeMobility_eq
  rw [hmob]
  exact ⟨hg.sym, hg.edge, hg.succs_nodup, hg.preds_nodup⟩

/-- What holds before every turn of the emission loop. -/
structure ListScheduler.Emitting (g : TuSchedGraph) (s : ListScheduler) : Prop where
  nodup : s.order.Nodup
  lt : ∀ k ∈ s.order, k < g.numNodes
  scheduled : ∀ k, s.scheduled k = true ↔ k ∈ s.order
  remaining : ∀ k, s.remainingPreds k = pending s.order (g.preds k)
  ready_nodup : s.readyQueue.Nodup
  ready : ∀ k ∈ s.readyQueue, k < g.numNodes ∧ k ∉ s.order ∧ s.remainingPreds k = 0
  closed : Closed (fun a b => a ∈ g.preds b) s.order

/-! ### Choosing a node -/

private theorem foldl_best_lt (ready : List Nat) (qs : List Nat) (hqs : ∀ q ∈ qs, q < ready.length) (best : Nat × Int)
    (hbest : best.1 < ready.length) :
    (qs.foldl (fun (best : Nat × Int) q =>
      let nodeId := ready.getD q 0
      let prio := g.priority nodeId
      if prio > best.2 || (prio = best.2 && nodeId < ready.getD best.1 0) then (q, prio) else best) best).1 <
      ready.length := by
  induction qs generalizing best with
  | nil => exact hbest
  | cons q qs ih =>
    refine ih (fun x hx => hqs x (List.mem_cons_of_mem q hx)) _ ?_
    dsimp only
    split
    · exact hqs q (List.mem_cons_self ..)
    · exact hbest

theorem TuSchedGraph.best_lt (g : TuSchedGraph) {ready : List Nat} (h : ready ≠ []) : g.best ready < ready.length :=
  foldl_best_lt ready _ (fun _ hq => List.mem_range.1 hq) _ (List.length_pos_of_ne_nil h)

/-- Every candidate may be emitted. -/
theorem ListScheduler.Emitting.candidates (h : s.Emitting g) :
    (s.candidates g).Nodup ∧
      ∀ k ∈ s.candidates g, k < g.numNodes ∧ k ∉ s.order ∧ s.remainingPreds k = 0 := by
  unfold ListScheduler.candidates
  split
  · cases hfind : (List.range g.numNodes).find? fun i => !s.scheduled i && s.remainingPreds i = 0 with
    | none => exact ⟨List.nodup_nil, fun k hk => absurd hk List.not_mem_nil⟩
    | some i =>
      refine ⟨List.nodup_singleton i, fun k hk => ?_⟩
      obtain rfl := List.mem_singleton.1 hk
      have hmem := List.mem_range.1 (List.mem_of_find?_eq_some hfind)
      have hfree := List.find?_some hfind
      simp only [Bool.and_eq_true, Bool.not_eq_true', decide_eq_true_eq] at hfree
      exact ⟨hmem, fun hc => by simp [(h.scheduled k).2 hc] at hfree, hfree.2⟩
  · exact ⟨h.ready_nodup, h.ready⟩

/-- While a node is missing there is a candidate. -/
theorem ListScheduler.Emitting.candidates_ne_nil (h : s.Emitting g) (hg : g.Dag) (hlen : s.order.length < g.numNodes) :
    s.candidates g ≠ [] := by
  have hlt : ∀ a b, a ∈ g.preds b → a < b := fun a b hab => (hg.edge a b hab).1
  obtain ⟨k, hk, hmem, hpreds⟩ := exists_next hlt (exists_not_mem hlen)
  have hfree : s.remainingPreds k = 0 := by
    rw [h.remaining k]
    exact pending_eq_zero.2 hpreds
  have hsched : s.scheduled k = false := by
    rw [← Bool.not_eq_true, h.scheduled k]
    exact hmem
  unfold ListScheduler.candidates
  split
  · have hsome : ((List.range g.numNodes).find? fun i => !s.scheduled i && s.remainingPreds i = 0).isSome = true := by
      rw [List.find?_isSome]
      exact ⟨k, List.mem_range.2 hk, by simp [hsched, hfree]⟩
    obtain ⟨i, hi⟩ := Option.isSome_iff_exists.1 hsome
    rw [hi]
    exact List.cons_ne_nil i []
  · rename_i hne
    exact fun hc => hne (by rw [hc]; rfl)

/-! ### Releasing the successors -/

@[simp] theorem ListScheduler.release_order (s : ListScheduler) (i : Nat) : (s.release i).order = s.order := rfl

@[simp] theorem ListScheduler.release_scheduled (s : ListScheduler) (i : Nat) :
    (s.release i).scheduled = s.scheduled := rfl

@[simp] theorem ListScheduler.release_remainingPreds (s : ListScheduler) (i : Nat) :
    (s.release i).remainingPreds = Function.update s.remainingPreds i (s.remainingPreds i - 1) := rfl

/-- The release of `i` pushes nothing, or it pushes `i`, whose last predecessor this was. -/
theorem ListScheduler.release_readyQueue (s : ListScheduler) (i : Nat) :
    (s.release i).readyQueue = s.readyQueue ∨
      (s.release i).readyQueue = s.readyQueue ++ [i] ∧ s.remainingPreds i - 1 = 0 ∧ s.scheduled i = false := by
  unfold ListScheduler.release
  dsimp only
  split
  · rename_i hc
    simp only [Bool.and_eq_true, decide_eq_true_eq, Bool.not_eq_true'] at hc
    exact Or.inr ⟨rfl, hc.1.1, hc.2⟩
  · exact Or.inl rfl

/-- What the releases of distinct nodes that are not queued do. -/
theorem ListScheduler.foldl_release (ids : List Nat) (hids : ids.Nodup) (s : ListScheduler)
    (hready : s.readyQueue.Nodup) (hfresh : ∀ k ∈ ids, k ∉ s.readyQueue) :
    (ids.foldl .release s).order = s.order ∧ (ids.foldl .release s).scheduled = s.scheduled ∧
      (∀ k, (ids.foldl .release s).remainingPreds k = if k ∈ ids then s.remainingPreds k - 1 else s.remainingPreds k) ∧
      (ids.foldl .release s).readyQueue.Nodup ∧
      ∀ k ∈ (ids.foldl .release s).readyQueue,
        k ∈ s.readyQueue ∨ k ∈ ids ∧ s.remainingPreds k - 1 = 0 ∧ s.scheduled k = false := by
  induction ids generalizing s with
  | nil => exact ⟨rfl, rfl, fun k => rfl, hready, fun k hk => Or.inl hk⟩
  | cons i ids ih =>
    rw [List.nodup_cons] at hids
    have hi := hfresh i (List.mem_cons_self ..)
    have hpush := s.release_readyQueue i
    have hready' : (s.release i).readyQueue.Nodup := by
      rcases hpush with hq | ⟨hq, -, -⟩
      · rw [hq]
        exact hready
      · rw [hq, ← List.concat_eq_append]
        exact hready.concat hi
    have hfresh' : ∀ k ∈ ids, k ∉ (s.release i).readyQueue := by
      intro k hk hc
      have hold := hfresh k (List.mem_cons_of_mem i hk)
      rcases hpush with hq | ⟨hq, -, -⟩
      · exact hold (hq ▸ hc)
      · rw [hq, List.mem_append, List.mem_singleton] at hc
        rcases hc with hc | rfl
        · exact hold hc
        · exact hids.1 hk
    obtain ⟨horder, hsched, hrem, hnodup, hqueue⟩ := ih hids.2 (s.release i) hready' hfresh'
    rw [List.foldl_cons]
    refine ⟨horder, hsched, fun k => ?_, hnodup, fun k hk => ?_⟩
    · rw [hrem k, release_remainingPreds]
      by_cases hki : k = i
      · subst hki
        rw [if_neg hids.1, Function.update_self, if_pos (List.mem_cons_self ..)]
      · rw [Function.update_of_ne hki]
        simp [hki]
    · rcases hqueue k hk with hk | ⟨hk, hzero, hnot⟩
      · rcases hpush with hq | ⟨hq, hzero, hnot⟩
        · exact Or.inl (hq ▸ hk)
        · rw [hq, List.mem_append, List.mem_singleton] at hk
          rcases hk with hk | rfl
          · exact Or.inl hk
          · exact Or.inr ⟨List.mem_cons_self .., hzero, hnot⟩
      · have hki : k ≠ i := fun hc => hids.1 (hc ▸ hk)
        rw [release_remainingPreds, Function.update_of_ne hki] at hzero
        exact Or.inr ⟨List.mem_cons_of_mem i hk, hzero, hnot⟩

/-! ### One turn -/

private theorem getD_best_mem {ready : List Nat} (h : ready ≠ []) : ready.getD (g.best ready) 0 ∈ ready := by
  rw [List.getD_eq_getElem _ _ (g.best_lt h)]
  exact List.getElem_mem _

/-- One turn emits one node that nothing recorded holds back. -/
theorem ListScheduler.Emitting.emit (h : s.Emitting g) (hg : g.Dag) (hne : s.candidates g ≠ []) :
    (s.emit g (s.candidates g)).Emitting g ∧ (s.emit g (s.candidates g)).order.length = s.order.length + 1 := by
  obtain ⟨hnodup, hcand⟩ := h.candidates
  have hperm := swapRemove_perm (g.best_lt hne) 0
  have hsel := hcand _ (getD_best_mem (g := g) hne)
  unfold ListScheduler.emit
  dsimp only
  generalize (s.candidates g).getD (g.best (s.candidates g)) 0 = selected at hperm hsel ⊢
  generalize swapRemove (s.candidates g) (g.best (s.candidates g)) = rest at hperm ⊢
  obtain ⟨hlt, hout, hzero⟩ := hsel
  -- what is left of the candidates
  have hnodup' := hperm.nodup_iff.2 hnodup
  rw [List.nodup_cons] at hnodup'
  have hrest : ∀ k ∈ rest, k ≠ selected ∧ k < g.numNodes ∧ k ∉ s.order ∧ s.remainingPreds k = 0 := fun k hk =>
    ⟨fun hc => hnodup'.1 (hc ▸ hk), hcand k (hperm.subset (List.mem_cons_of_mem selected hk))⟩
  have hsucc : ∀ k ∈ g.succs selected, 0 < s.remainingPreds k := by
    intro k hk
    rw [h.remaining k]
    exact pending_pos hout ((hg.sym selected k).1 hk)
  obtain ⟨horder, hsched, hrem, hready, hqueue⟩ := foldl_release (g.succs selected) (hg.succs_nodup selected)
    { s with
      readyQueue := rest
      scheduled := Function.update s.scheduled selected true
      order := s.order ++ [selected]
      estimatedCycles := s.estimatedCycles + (g.nodes selected).cycles }
    hnodup'.2 fun k hk hc => by
      have hpos := hsucc k hk
      have hnone := (hrest k hc).2.2.2
      omega
  generalize (g.succs selected).foldl ListScheduler.release _ = t at horder hsched hrem hready hqueue ⊢
  dsimp only at horder hsched hrem hqueue
  have hremaining : ∀ k, t.remainingPreds k = pending t.order (g.preds k) := by
    intro k
    rw [hrem k, horder]
    by_cases hk : k ∈ g.succs selected
    · rw [if_pos hk, h.remaining k, pending_snoc_of_mem (hg.preds_nodup k) hout ((hg.sym selected k).1 hk)]
    · rw [if_neg hk, h.remaining k, pending_snoc_of_not_mem fun hc => hk ((hg.sym selected k).2 hc)]
  refine ⟨⟨?_, fun k hk => ?_, fun k => ?_, hremaining, hready, fun k hk => ?_, ?_⟩, ?_⟩
  · rw [horder, ← List.concat_eq_append]
    exact h.nodup.concat hout
  · rw [horder, List.mem_append, List.mem_singleton] at hk
    rcases hk with hk | rfl
    · exact h.lt k hk
    · exact hlt
  · rw [hsched, horder, List.mem_append, List.mem_singleton]
    by_cases hk : k = selected
    · subst hk
      rw [Function.update_self]
      simp
    · rw [Function.update_of_ne hk, h.scheduled k]
      simp [hk]
  · rw [horder, hrem k, List.mem_append, List.mem_singleton]
    rcases hqueue k hk with hk | ⟨hk, hleft, hnot⟩
    · obtain ⟨hkne, hklt, hkout, hkzero⟩ := hrest k hk
      refine ⟨hklt, fun hc => hc.elim hkout hkne, ?_⟩
      rw [hkzero]
      exact ite_self 0
    · have hkne : k ≠ selected := by
        rintro rfl
        rw [Function.update_self] at hnot
        cases hnot
      rw [Function.update_of_ne hkne] at hnot
      have hkout : k ∉ s.order := fun hc => by simp [(h.scheduled k).2 hc] at hnot
      refine ⟨(hg.edge selected k ((hg.sym selected k).1 hk)).2, fun hc => hc.elim hkout hkne, ?_⟩
      rw [if_pos hk]
      exact hleft
  · rw [horder]
    refine h.closed.snoc fun a ha => ?_
    exact pending_eq_zero.1 ((h.remaining selected).symm.trans hzero) a ha
  · rw [horder, List.length_append, List.length_singleton]

/-! ### The loop -/

theorem ListScheduler.emitting_init (g : TuSchedGraph) : (ListScheduler.init g).Emitting g := by
  refine ⟨List.nodup_nil, fun k hk => absurd hk List.not_mem_nil, fun k => ?_, fun k => (pending_nil _).symm,
    List.nodup_range.filter _, fun k hk => ?_, closed_nil _⟩
  · exact iff_of_false Bool.false_ne_true List.not_mem_nil
  · obtain ⟨hk, hfree⟩ := List.mem_filter.1 hk
    simp only [Bool.and_eq_true, decide_eq_true_eq] at hfree
    exact ⟨List.mem_range.1 hk, List.not_mem_nil, hfree.1⟩

/-- The turns keep the invariant. -/
theorem ListScheduler.Emitting.loop_emitting (h : s.Emitting g) (hg : g.Dag) (n : Nat) :
    (ListScheduler.loop g n s).Emitting g := by
  induction n generalizing s with
  | zero => exact h
  | succ n ih =>
    unfold ListScheduler.loop
    by_cases hlen : s.order.length < g.numNodes
    · rw [if_pos hlen]
      have hne := h.candidates_ne_nil hg hlen
      dsimp only
      rw [if_neg (by rwa [List.isEmpty_iff])]
      exact ih (h.emit hg hne).1
    · rw [if_neg hlen]
      exact h

/-- With a turn left for every missing node, the loop emits all of them. -/
theorem ListScheduler.Emitting.loop_length (h : s.Emitting g) (hg : g.Dag) {n : Nat}
    (hn : g.numNodes ≤ s.order.length + n) : g.numNodes ≤ (ListScheduler.loop g n s).order.length := by
  induction n generalizing s with
  | zero => exact hn
  | succ n ih =>
    unfold ListScheduler.loop
    by_cases hlen : s.order.length < g.numNodes
    · rw [if_pos hlen]
      have hne := h.candidates_ne_nil hg hlen
      dsimp only
      rw [if_neg (by rwa [List.isEmpty_iff])]
      obtain ⟨hemit, hcount⟩ := h.emit hg hne
      exact ih hemit (by omega)
    · rw [if_neg hlen]
      exact Nat.not_lt.1 hlen

/-- A schedule is an order of all the nodes that obeys every recorded edge. -/
theorem listSchedule_order (hg : g.Dag) (result : TuSchedResult) :
    (listSchedule g result).valid = true ∧ (listSchedule g result).order.Perm (List.range g.numNodes) ∧
      Closed (fun a b => a ∈ g.preds b) (listSchedule g result).order := by
  have h := (ListScheduler.emitting_init g).loop_emitting hg g.numNodes
  have hlen := (ListScheduler.emitting_init g).loop_length hg (n := g.numNodes) (by simp [ListScheduler.init])
  have hperm : (ListScheduler.loop g g.numNodes (.init g)).order.length ≤ g.numNodes := by
    have hsub : (ListScheduler.loop g g.numNodes (.init g)).order ⊆ List.range g.numNodes := fun k hk =>
      List.mem_range.2 (h.lt k hk)
    have hle := (h.nodup.subperm hsub).length_le
    rwa [List.length_range] at hle
  exact ⟨decide_eq_true (Nat.le_antisymm hperm hlen), perm_range h.nodup h.lt (Nat.le_antisymm hperm hlen), h.closed⟩

end Tusim
