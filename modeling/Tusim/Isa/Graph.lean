import Tusim.Isa.Scheduler

/-!
# The recorded dependence graph

The construction looks at the pairs `(i, j)` with `j < i` row by row.  `TuSchedGraph.Recorded base i j g` says what
the edge arrays hold before the pair `(i, j)`: only dependences among the visited pairs, once each, and every
visited dependence that found room in both arrays (`Room`).
-/

namespace Tusim

open Emission

/-- The pass means instruction `i` to wait for the earlier instruction `j`. -/
def Depends (nodes : Nat → TuSchedNode) (j i : Nat) : Bool :=
  !(nodes j).isBarrier && ((nodes i).isBarrier || hasDependency (nodes j).access (nodes i).access)

/-- The instructions before `i` that wait for `j`. -/
def consumersBefore (nodes : Nat → TuSchedNode) (j i : Nat) : List Nat :=
  (List.range i).filter fun k => j < k && Depends nodes j k

/-- The instructions before `j` that `i` waits for. -/
def producersBefore (nodes : Nat → TuSchedNode) (j i : Nat) : List Nat :=
  (List.range j).filter fun k => Depends nodes k i

/-- When the pass comes to the pair, its arrays cannot be full. -/
def Room (nodes : Nat → TuSchedNode) (j i : Nat) : Prop :=
  (consumersBefore nodes j i).length < tuSchedMaxDeps ∧ (producersBefore nodes j i).length < tuSchedMaxDeps

instance (nodes : Nat → TuSchedNode) (j i : Nat) : Decidable (Room nodes j i) := inferInstanceAs (Decidable (_ ∧ _))

namespace TuSchedGraph

variable {base g : TuSchedGraph}

/-- The pair `(k, p)` comes before the pair `(i, j)`. -/
def Visited (i j p k : Nat) : Prop := k < i ∨ k = i ∧ p < j

/-- What is recorded before the pair `(i, j)`. -/
structure Recorded (base : TuSchedGraph) (i j : Nat) (g : TuSchedGraph) : Prop where
  static : g = { base with preds := g.preds, succs := g.succs }
  sym : ∀ p k, k ∈ g.succs p ↔ p ∈ g.preds k
  edge : ∀ p k, k ∈ g.succs p → p < k ∧ Depends base.nodes p k = true ∧ Visited i j p k
  succs_nodup : ∀ p, (g.succs p).Nodup
  preds_nodup : ∀ k, (g.preds k).Nodup
  succs_le : ∀ p, (g.succs p).length ≤ tuSchedMaxDeps
  preds_le : ∀ k, (g.preds k).length ≤ tuSchedMaxDeps
  complete : ∀ p k, p < k → Depends base.nodes p k = true → Visited i j p k → Room base.nodes p k → k ∈ g.succs p

theorem visit_eq (g : TuSchedGraph) (i j : Nat) : visit i g j = if Depends g.nodes j i then g.link i j else g := by
  unfold visit Depends
  cases (g.nodes j).isBarrier
  · cases (g.nodes i).isBarrier <;> rfl
  · rfl

private theorem mem_update_snoc {f : Nat → List Nat} {a b x y : Nat} :
    y ∈ Function.update f a (f a ++ [b]) x ↔ y ∈ f x ∨ x = a ∧ y = b := by
  by_cases hx : x = a
  · subst hx
    rw [Function.update_self, List.mem_append, List.mem_singleton]
    simp
  · rw [Function.update_of_ne hx]
    simp [hx]

private theorem length_update_snoc {f : Nat → List Nat} {a b : Nat} (h : ∀ x, (f x).length ≤ tuSchedMaxDeps)
    (ha : (f a).length < tuSchedMaxDeps) (x : Nat) :
    (Function.update f a (f a ++ [b]) x).length ≤ tuSchedMaxDeps := by
  by_cases hx : x = a
  · subst hx
    rw [Function.update_self, List.length_append, List.length_singleton]
    exact ha
  · rw [Function.update_of_ne hx]
    exact h x

private theorem nodup_update_snoc {f : Nat → List Nat} {a b : Nat} (h : ∀ x, (f x).Nodup) (hb : b ∉ f a) (x : Nat) :
    (Function.update f a (f a ++ [b]) x).Nodup := by
  by_cases hx : x = a
  · subst hx
    rw [Function.update_self, ← List.concat_eq_append]
    exact (h x).concat hb
  · rw [Function.update_of_ne hx]
    exact h x

/-- With room for the pair neither array is full. -/
theorem Recorded.not_full {i j : Nat} (h : Recorded base i j g) (hroom : Room base.nodes j i) :
    (g.succs j).length < tuSchedMaxDeps ∧ (g.preds i).length < tuSchedMaxDeps := by
  constructor
  · refine Nat.lt_of_le_of_lt (((h.succs_nodup j).subperm fun k hk => ?_).length_le) hroom.1
    obtain ⟨hlt, hdep, hvis⟩ := h.edge j k hk
    have hki : k < i := hvis.resolve_right fun hc => Nat.lt_irrefl j hc.2
    exact List.mem_filter.2 ⟨List.mem_range.2 hki, by simp [hlt, hdep]⟩
  · refine Nat.lt_of_le_of_lt (((h.preds_nodup i).subperm fun p hp => ?_).length_le) hroom.2
    obtain ⟨-, hdep, hvis⟩ := h.edge p i ((h.sym p i).2 hp)
    have hpj : p < j := (hvis.resolve_left (Nat.lt_irrefl i)).2
    exact List.mem_filter.2 ⟨List.mem_range.2 hpj, hdep⟩

/-- The pair `(i, j)` is not recorded before it is visited. -/
private theorem Recorded.fresh {i j : Nat} (h : Recorded base i j g) : i ∉ g.succs j := by
  intro hm
  rcases (h.edge j i hm).2.2 with hc | hc
  · exact Nat.lt_irrefl i hc
  · exact Nat.lt_irrefl j hc.2

private theorem visited_succ {i j p k : Nat} : Visited i (j + 1) p k ↔ Visited i j p k ∨ k = i ∧ p = j := by
  unfold Visited
  omega

theorem Recorded.link {i j : Nat} (h : Recorded base i j g) (hji : j < i) (hdep : Depends base.nodes j i = true) :
    Recorded base i (j + 1) (g.link i j) := by
  unfold TuSchedGraph.link
  by_cases hfull : (tuSchedMaxDeps ≤ (g.succs j).length || tuSchedMaxDeps ≤ (g.preds i).length) = true
  · -- the edge is dropped: the pair had no room
    rw [if_pos hfull]
    refine ⟨h.static, h.sym, fun p k hk => ?_, h.succs_nodup, h.preds_nodup, h.succs_le, h.preds_le,
      fun p k hpk hd hv hroom => ?_⟩
    · obtain ⟨hlt, hd, hv⟩ := h.edge p k hk
      exact ⟨hlt, hd, visited_succ.2 (Or.inl hv)⟩
    · rcases visited_succ.1 hv with hv | ⟨rfl, rfl⟩
      · exact h.complete p k hpk hd hv hroom
      · have hnot := h.not_full hroom
        simp only [Bool.or_eq_true, decide_eq_true_eq] at hfull
        omega
  · rw [if_neg hfull]
    simp only [Bool.or_eq_true, decide_eq_true_eq, not_or, Nat.not_le] at hfull
    have hfresh := h.fresh
    refine ⟨?_, fun p k => ?_, fun p k hk => ?_, nodup_update_snoc h.succs_nodup hfresh,
      nodup_update_snoc h.preds_nodup fun hc => hfresh ((h.sym j i).2 hc), length_update_snoc h.succs_le hfull.1,
      length_update_snoc h.preds_le hfull.2, fun p k hpk hd hv hroom => ?_⟩
    · rw [h.static]
    · show k ∈ Function.update g.succs j (g.succs j ++ [i]) p ↔ p ∈ Function.update g.preds i (g.preds i ++ [j]) k
      rw [mem_update_snoc, mem_update_snoc, h.sym p k, And.comm]
    · have hk : k ∈ Function.update g.succs j (g.succs j ++ [i]) p := hk
      rcases mem_update_snoc.1 hk with hk | ⟨rfl, rfl⟩
      · obtain ⟨hlt, hd, hv⟩ := h.edge p k hk
        exact ⟨hlt, hd, visited_succ.2 (Or.inl hv)⟩
      · exact ⟨hji, hdep, visited_succ.2 (Or.inr ⟨rfl, rfl⟩)⟩
    · show k ∈ Function.update g.succs j (g.succs j ++ [i]) p
      rw [mem_update_snoc]
      rcases visited_succ.1 hv with hv | ⟨rfl, rfl⟩
      · exact Or.inl (h.complete p k hpk hd hv hroom)
      · exact Or.inr ⟨rfl, rfl⟩

private theorem Recorded.nodes {i j : Nat} (h : Recorded base i j g) : g.nodes = base.nodes := by rw [h.static]

theorem Recorded.visit {i j : Nat} (h : Recorded base i j g) (hji : j < i) : Recorded base i (j + 1) (visit i g j) := by
  rw [visit_eq, h.nodes]
  by_cases hdep : Depends base.nodes j i = true
  · rw [if_pos hdep]
    exact h.link hji hdep
  · rw [if_neg hdep]
    refine ⟨h.static, h.sym, fun p k hk => ?_, h.succs_nodup, h.preds_nodup, h.succs_le, h.preds_le,
      fun p k hpk hd hv hroom => ?_⟩
    · obtain ⟨hlt, hd, hv⟩ := h.edge p k hk
      exact ⟨hlt, hd, visited_succ.2 (Or.inl hv)⟩
    · rcases visited_succ.1 hv with hv | ⟨rfl, rfl⟩
      · exact h.complete p k hpk hd hv hroom
      · exact absurd hd hdep

theorem Recorded.row {i j : Nat} (h : Recorded base i 0 g) (hji : j ≤ i) :
    Recorded base i j ((List.range j).foldl (TuSchedGraph.visit i) g) := by
  induction j with
  | zero => exact h
  | succ j ih =>
    rw [List.range_succ, List.foldl_append]
    exact (ih (Nat.le_of_succ_le hji)).visit hji

theorem Recorded.next {i : Nat} (h : Recorded base i i g) : Recorded base (i + 1) 0 g := by
  refine ⟨h.static, h.sym, fun p k hk => ?_, h.succs_nodup, h.preds_nodup, h.succs_le, h.preds_le,
      fun p k hpk hd hv hroom => ?_⟩
  · obtain ⟨hlt, hd, hv⟩ := h.edge p k hk
    refine ⟨hlt, hd, Or.inl ?_⟩
    rcases hv with hv | hv
    · exact Nat.lt_succ_of_lt hv
    · exact hv.1 ▸ Nat.lt_succ_self i
  · refine h.complete p k hpk hd ?_ hroom
    rcases hv with hv | hv
    · rcases Nat.lt_succ_iff_lt_or_eq.1 hv with hv | rfl
      · exact Or.inl hv
      · exact Or.inr ⟨rfl, hpk⟩
    · exact absurd hv.2 (Nat.not_lt_zero p)

theorem recorded_create (instrs : List TuInstruction) (config : Option TuSchedConfig) :
    Recorded (create instrs config) 0 0 (create instrs config) := by
  refine ⟨rfl, fun p k => ?_, fun p k hk => ?_, fun _ => List.nodup_nil, fun _ => List.nodup_nil,
    fun _ => Nat.zero_le _, fun _ => Nat.zero_le _, fun p k _ _ hv _ => ?_⟩
  · exact iff_of_false List.not_mem_nil List.not_mem_nil
  · cases hk
  · rcases hv with hv | hv
    · exact absurd hv (Nat.not_lt_zero k)
    · exact absurd hv.2 (Nat.not_lt_zero p)

private theorem recorded_rows (h : Recorded base 0 0 base) (n : Nat) :
    Recorded base n 0 ((List.range n).foldl (fun g i => (List.range i).foldl (TuSchedGraph.visit i) g) base) := by
  induction n with
  | zero => exact h
  | succ n ih =>
    rw [List.range_succ, List.foldl_append]
    exact (ih.row (Nat.le_refl n)).next

/-- What the construction records. -/
theorem buildDag_recorded {instrs : List TuInstruction} {config : Option TuSchedConfig}
    (h : tuSchedBuildDag instrs config = some g) : Recorded (create instrs config) instrs.length 0 g := by
  unfold tuSchedBuildDag at h
  split at h
  · cases h
  · obtain rfl := Option.some.inj h
    exact recorded_rows (recorded_create instrs config) instrs.length

private theorem nodup_filter_snoc (q : Nat → Bool) (n : Nat) : ((List.range n).filter q ++ [n]).Nodup := by
  rw [← List.concat_eq_append]
  refine (List.nodup_range.filter _).concat fun hc => ?_
  exact absurd (List.mem_range.1 (List.mem_filter.1 hc).1) (Nat.lt_irrefl n)

/-- If some pair finds no room, the construction drops an edge: all of them do not fit into the arrays. -/
theorem Recorded.exists_dropped {n : Nat} (h : Recorded base n 0 g) {j i : Nat} (hji : j < i) (hin : i < n)
    (hdep : Depends base.nodes j i = true) (hroom : ¬ Room base.nodes j i) :
    ∃ p k, p < k ∧ k < n ∧ Depends base.nodes p k = true ∧ k ∉ g.succs p := by
  by_contra hall
  push Not at hall
  refine hroom ⟨?_, ?_⟩
  · -- all consumers of `j` up to `i` are recorded at `j`
    have hsub : consumersBefore base.nodes j i ++ [i] ⊆ g.succs j := by
      intro k hk
      rw [List.mem_append, List.mem_singleton] at hk
      rcases hk with hk | rfl
      · obtain ⟨hki, hk⟩ := List.mem_filter.1 hk
        simp only [Bool.and_eq_true, decide_eq_true_eq] at hk
        exact hall j k hk.1 (Nat.lt_trans (List.mem_range.1 hki) hin) hk.2
      · exact hall j k hji hin hdep
    have hle := ((nodup_filter_snoc _ i).subperm hsub).length_le
    rw [List.length_append, List.length_singleton] at hle
    exact Nat.lt_of_lt_of_le hle (h.succs_le j)
  · have hsub : producersBefore base.nodes j i ++ [j] ⊆ g.preds i := by
      intro k hk
      rw [List.mem_append, List.mem_singleton] at hk
      rcases hk with hk | rfl
      · obtain ⟨hkj, hk⟩ := List.mem_filter.1 hk
        exact (h.sym k i).1 (hall k i (Nat.lt_trans (List.mem_range.1 hkj) hji) hin hk)
      · exact (h.sym k i).1 (hall k i hji hin hdep)
    have hle := ((nodup_filter_snoc _ j).subperm hsub).length_le
    rw [List.length_append, List.length_singleton] at hle
    exact Nat.lt_of_lt_of_le hle (h.preds_le i)

/-! ### Mobility -/

private theorem foldl_asap (ids : List Nat) (g : TuSchedGraph) :
    ∃ asap, ids.foldl (fun g i => { g with asapCycle := Function.update g.asapCycle i (g.earliest i) }) g =
      { g with asapCycle := asap } := by
  induction ids generalizing g with
  | nil => exact ⟨g.asapCycle, rfl⟩
  | cons i ids ih => exact ih { g with asapCycle := Function.update g.asapCycle i (g.earliest i) }

private theorem foldl_alap (maxAsap : Int) (ids : List Nat) (g : TuSchedGraph) :
    ∃ alap slack, ids.foldl (fun g i =>
      let alap := g.latest maxAsap i
      { g with
        alapCycle := Function.update g.alapCycle i alap
        slack := Function.update g.slack i (alap - g.asapCycle i) }) g =
      { g with alapCycle := alap, slack := slack } := by
  induction ids generalizing g with
  | nil => exact ⟨g.alapCycle, g.slack, rfl⟩
  | cons i ids ih =>
    exact ih
      { g with
        alapCycle := Function.update g.alapCycle i (g.latest maxAsap i)
        slack := Function.update g.slack i (g.latest maxAsap i - g.asapCycle i) }

/-- The estimates leave the nodes and the edges alone. -/
theorem computeMobility_eq (g : TuSchedGraph) :
    ∃ asap alap slack, tuSchedComputeMobility g = { g with asapCycle := asap, alapCycle := alap, slack := slack } := by
  unfold tuSchedComputeMobility
  obtain ⟨asap, hasap⟩ := foldl_asap (List.range g.numNodes) g
  rw [hasap]
  obtain ⟨alap, slack, halap⟩ := foldl_alap
    ((List.range g.numNodes).foldl (fun m i => if asap i > m then asap i else m) 0)
    (List.range g.numNodes).reverse { g with asapCycle := asap }
  exact ⟨asap, alap, slack, halap⟩

end TuSchedGraph

end Tusim
