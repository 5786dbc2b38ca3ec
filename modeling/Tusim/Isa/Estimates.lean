import Tusim.Isa.Reordering

/-!
# Cycle estimates

The earliest cycle of a node is at least one cycle after those of its recorded predecessors and reached through one of
them; a node without recorded successors has the latest cycle of all (`computeMobility_estimated`).
-/

namespace Tusim

namespace TuSchedGraph

variable {g : TuSchedGraph}

/-- What holds of the estimates. -/
structure Estimated (g : TuSchedGraph) : Prop where
  asap_nonneg : ∀ i, i < g.numNodes → 0 ≤ g.asapCycle i
  asap_le : ∀ i, i < g.numNodes → g.asapCycle i ≤ 4 * i
  asap_pred : ∀ i p, i < g.numNodes → p ∈ g.preds i → g.asapCycle p + (g.nodes p).cycles ≤ g.asapCycle i
  asap_reached : ∀ i, i < g.numNodes → g.preds i ≠ [] →
    ∃ p ∈ g.preds i, g.asapCycle i = g.asapCycle p + (g.nodes p).cycles
  asap_source : ∀ i, i < g.numNodes → g.preds i = [] → g.asapCycle i = 0
  alap_nonneg : ∀ i, i < g.numNodes → 0 ≤ g.alapCycle i
  alap_sink : ∀ i j, i < g.numNodes → j < g.numNodes → g.succs i = [] → g.succs j = [] → g.alapCycle i = g.alapCycle j

theorem cycles_pos (node : TuSchedNode) : 1 ≤ node.cycles ∧ node.cycles ≤ 4 := by
  unfold TuSchedNode.cycles
  split <;> omega

/-! ### The earliest cycle -/

/-- The end of a predecessor. -/
def predEnd (asap : Nat → Int) (g : TuSchedGraph) (p : Nat) : Int := asap p + (g.nodes p).cycles

private theorem foldl_latest (f : Nat → Int) (ps : List Nat) (start : Int) :
    let last := ps.foldl (fun latest p => if f p > latest then f p else latest) start
    start ≤ last ∧ (∀ p ∈ ps, f p ≤ last) ∧ (last = start ∨ ∃ p ∈ ps, last = f p) := by
  induction ps generalizing start with
  | nil => exact ⟨Int.le_refl _, fun p hp => absurd hp List.not_mem_nil, Or.inl rfl⟩
  | cons p ps ih =>
    obtain ⟨hstart, hall, hreached⟩ := ih (if f p > start then f p else start)
    dsimp only at hstart hall hreached ⊢
    rw [List.foldl_cons]
    generalize ps.foldl (fun latest p => if f p > latest then f p else latest) (if f p > start then f p else start) =
      last at hstart hall hreached ⊢
    refine ⟨?_, fun q hq => ?_, ?_⟩
    · split at hstart <;> omega
    · rcases List.mem_cons.1 hq with rfl | hq
      · split at hstart <;> omega
      · exact hall q hq
    · rcases hreached with hreached | ⟨q, hq, hreached⟩
      · split at hreached
        · exact Or.inr ⟨p, List.mem_cons_self .., hreached⟩
        · exact Or.inl hreached
      · exact Or.inr ⟨q, List.mem_cons_of_mem p hq, hreached⟩

/-- The value computed for a node, with the estimates of its predecessors. -/
def earliestOf (g : TuSchedGraph) (asap : Nat → Int) (i : Nat) : Int := { g with asapCycle := asap }.earliest i

private theorem earliestOf_congr {asap asap' : Nat → Int} {i : Nat} (h : ∀ p ∈ g.preds i, asap p = asap' p) :
    g.earliestOf asap i = g.earliestOf asap' i := by
  unfold earliestOf earliest
  dsimp only
  split
  · rfl
  · generalize (-1 : Int) = start
    revert h
    generalize g.preds i = ps
    intro h
    induction ps generalizing start with
    | nil => rfl
    | cons p ps ih =>
      rw [List.foldl_cons, List.foldl_cons, h p (List.mem_cons_self ..)]
      exact ih _ fun q hq => h q (List.mem_cons_of_mem p hq)

/-- The pass computes the earliest cycles in the order of the nodes. -/
private theorem asap_rows (hg : g.Dag) (n : Nat) :
    ∃ asap, (List.range n).foldl (fun g i =>
        { g with asapCycle := Function.update g.asapCycle i (g.earliest i) }) g = { g with asapCycle := asap } ∧
      ∀ i, i < n → asap i = g.earliestOf asap i := by
  induction n with
  | zero => exact ⟨g.asapCycle, rfl, fun i hi => absurd hi (Nat.not_lt_zero i)⟩
  | succ n ih =>
    obtain ⟨asap, hfold, hrows⟩ := ih
    refine ⟨Function.update asap n (g.earliestOf asap n), ?_, fun i hi => ?_⟩
    · rw [List.range_succ, List.foldl_append, hfold]
      rfl
    · have hfresh : g.earliestOf (Function.update asap n (g.earliestOf asap n)) i = g.earliestOf asap i := by
        refine earliestOf_congr fun p hp => Function.update_of_ne ?_ _ _
        have hlt := (hg.edge p i hp).1
        omega
      rw [hfresh]
      rcases Nat.lt_succ_iff_lt_or_eq.1 hi with hlt | rfl
      · rw [Function.update_of_ne (Nat.ne_of_lt hlt)]
        exact hrows i hlt
      · exact Function.update_self ..

/-- A value between the predecessors, and `0` without them. -/
private theorem earliestOf_spec (asap : Nat → Int) (i : Nat) (hnonneg : ∀ p ∈ g.preds i, 0 ≤ asap p) :
    (g.preds i = [] → g.earliestOf asap i = 0) ∧
      (∀ p ∈ g.preds i, g.predEnd asap p ≤ g.earliestOf asap i) ∧
      (g.preds i ≠ [] → ∃ p ∈ g.preds i, g.earliestOf asap i = g.predEnd asap p) := by
  obtain ⟨-, hall, hreached⟩ := foldl_latest (g.predEnd asap) (g.preds i) (-1)
  have heq : g.preds i ≠ [] → g.earliestOf asap i = (g.preds i).foldl (fun latest p =>
      if g.predEnd asap p > latest then g.predEnd asap p else latest) (-1) := by
    intro hne
    unfold earliestOf earliest
    rw [if_neg (by rwa [List.isEmpty_iff])]
    rfl
  refine ⟨fun hnil => ?_, fun p hp => ?_, fun hne => ?_⟩
  · unfold earliestOf earliest
    rw [if_pos (by rwa [List.isEmpty_iff])]
  · rw [heq (List.ne_nil_of_mem hp)]
    exact hall p hp
  · rw [heq hne]
    rcases hreached with hstart | hreached
    · -- the end of a predecessor is positive
      obtain ⟨p, hp⟩ := List.exists_mem_of_ne_nil _ hne
      have hle := hall p hp
      have hpos := hnonneg p hp
      have hcycles := (cycles_pos (g.nodes p)).1
      rw [hstart] at hle
      unfold predEnd at hle
      omega
    · exact hreached

/-- Estimates are small and not negative. -/
private theorem asap_bounds (hg : g.Dag) {asap : Nat → Int} {n : Nat} (hrows : ∀ i, i < n → asap i = g.earliestOf asap i)
    (i : Nat) (hi : i < n) : 0 ≤ asap i ∧ asap i ≤ 4 * i := by
  induction i using Nat.strong_induction_on with
  | _ i ih =>
    have hpreds : ∀ p ∈ g.preds i, 0 ≤ asap p ∧ asap p ≤ 4 * p ∧ p < i := fun p hp => by
      have hlt := (hg.edge p i hp).1
      obtain ⟨hnonneg, hle⟩ := ih p hlt (Nat.lt_trans hlt hi)
      exact ⟨hnonneg, hle, hlt⟩
    obtain ⟨hsource, -, hreached⟩ := earliestOf_spec asap i fun p hp => (hpreds p hp).1
    rw [hrows i hi]
    by_cases hnil : g.preds i = []
    · rw [hsource hnil]
      omega
    · obtain ⟨p, hp, heq⟩ := hreached hnil
      obtain ⟨hnonneg, hle, hlt⟩ := hpreds p hp
      have hcycles := cycles_pos (g.nodes p)
      rw [heq]
      unfold predEnd
      omega

/-! ### The latest cycle -/

/-- The smallest start that the successors of a node leave it. -/
def soonest (g : TuSchedGraph) (i : Nat) : Int :=
  (g.succs i).foldl (fun soonest s =>
    let succStart := g.alapCycle s - (g.nodes i).cycles
    if succStart < soonest then succStart else soonest) (2 ^ 31 - 1)

theorem latest_eq (g : TuSchedGraph) (maxAsap : Int) (i : Nat) :
    g.latest maxAsap i =
      if g.succs i = [] then maxAsap else if g.soonest i < g.asapCycle i then g.asapCycle i else g.soonest i := by
  unfold latest
  simp only [List.isEmpty_iff]
  rfl

private theorem foldl_soonest (f : Nat → Int) (ss : List Nat) (start : Int) :
    let first := ss.foldl (fun soonest s => if f s < soonest then f s else soonest) start
    first ≤ start ∧ (∀ s ∈ ss, first ≤ f s) ∧ (first = start ∨ ∃ s ∈ ss, first = f s) := by
  induction ss generalizing start with
  | nil => exact ⟨Int.le_refl _, fun s hs => absurd hs List.not_mem_nil, Or.inl rfl⟩
  | cons s ss ih =>
    obtain ⟨hstart, hall, hreached⟩ := ih (if f s < start then f s else start)
    dsimp only at hstart hall hreached ⊢
    rw [List.foldl_cons]
    generalize ss.foldl (fun soonest s => if f s < soonest then f s else soonest) (if f s < start then f s else start) =
      first at hstart hall hreached ⊢
    refine ⟨?_, fun t ht => ?_, ?_⟩
    · split at hstart <;> omega
    · rcases List.mem_cons.1 ht with rfl | ht
      · split at hstart <;> omega
      · exact hall t ht
    · rcases hreached with hreached | ⟨t, ht, hreached⟩
      · split at hreached
        · exact Or.inr ⟨s, List.mem_cons_self .., hreached⟩
        · exact Or.inl hreached
      · exact Or.inr ⟨t, List.mem_cons_of_mem s ht, hreached⟩

theorem soonest_spec (g : TuSchedGraph) (i : Nat) :
    (∀ s ∈ g.succs i, g.soonest i + (g.nodes i).cycles ≤ g.alapCycle s) ∧
      (g.soonest i = 2 ^ 31 - 1 ∨ ∃ s ∈ g.succs i, g.soonest i + (g.nodes i).cycles = g.alapCycle s) := by
  obtain ⟨-, hall, hreached⟩ := foldl_soonest (fun s => g.alapCycle s - (g.nodes i).cycles) (g.succs i) (2 ^ 31 - 1)
  constructor
  · intro s hs
    have hle : g.soonest i ≤ g.alapCycle s - (g.nodes i).cycles := hall s hs
    omega
  · rcases hreached with hstart | ⟨s, hs, hreached⟩
    · exact Or.inl hstart
    · have heq : g.soonest i = g.alapCycle s - (g.nodes i).cycles := hreached
      exact Or.inr ⟨s, hs, by omega⟩

/-- Only the latest cycles of the successors matter. -/
private theorem latest_congr (asap slack slack' : Nat → Int) {alap alap' : Nat → Int} (maxAsap : Int) {i : Nat}
    (h : ∀ s ∈ g.succs i, alap s = alap' s) :
    ({ g with asapCycle := asap, alapCycle := alap, slack := slack } : TuSchedGraph).latest maxAsap i =
      ({ g with asapCycle := asap, alapCycle := alap', slack := slack' } : TuSchedGraph).latest maxAsap i := by
  have hsoonest : ({ g with asapCycle := asap, alapCycle := alap, slack := slack } : TuSchedGraph).soonest i =
      ({ g with asapCycle := asap, alapCycle := alap', slack := slack' } : TuSchedGraph).soonest i := by
    unfold soonest
    dsimp only
    refine List.foldl_ext _ _ _ fun first s hs => ?_
    rw [h s hs]
  rw [latest_eq, latest_eq, hsoonest]

/-- The pass computes the latest cycles in the opposite order. -/
private theorem alap_rows (hg : g.Dag) (asap : Nat → Int) (maxAsap : Int) (n : Nat) (alap slack : Nat → Int)
    (hrows : ∀ i, n ≤ i → i < g.numNodes →
      alap i = ({ g with asapCycle := asap, alapCycle := alap, slack := slack } : TuSchedGraph).latest maxAsap i ∧
        slack i = alap i - asap i) :
    ∃ alap' slack', (List.range n).reverse.foldl (fun g i =>
        let alap := g.latest maxAsap i
        { g with
          alapCycle := Function.update g.alapCycle i alap
          slack := Function.update g.slack i (alap - g.asapCycle i) })
        { g with asapCycle := asap, alapCycle := alap, slack := slack } =
          { g with asapCycle := asap, alapCycle := alap', slack := slack' } ∧
      ∀ i, i < g.numNodes →
        alap' i = ({ g with asapCycle := asap, alapCycle := alap', slack := slack' } : TuSchedGraph).latest maxAsap i ∧
          slack' i = alap' i - asap i := by
  induction n generalizing alap slack with
  | zero => exact ⟨alap, slack, rfl, fun i hi => hrows i (Nat.zero_le i) hi⟩
  | succ n ih =>
    rw [List.range_succ, List.reverse_append, List.reverse_singleton, List.singleton_append, List.foldl_cons]
    dsimp only
    generalize hnew :
      ({ g with asapCycle := asap, alapCycle := alap, slack := slack } : TuSchedGraph).latest maxAsap n = new
    refine ih _ _ fun i hni hi => ?_
    -- the successors of a node are behind it
    have hsame : ({ g with
          asapCycle := asap
          alapCycle := Function.update alap n new
          slack := Function.update slack n (new - asap n) } : TuSchedGraph).latest maxAsap i =
        ({ g with asapCycle := asap, alapCycle := alap, slack := slack } : TuSchedGraph).latest maxAsap i := by
      refine latest_congr asap _ _ maxAsap fun s hs => Function.update_of_ne ?_ _ _
      have hlt := (hg.edge i s ((hg.sym i s).1 hs)).1
      omega
    rw [hsame]
    rcases Nat.eq_or_lt_of_le hni with rfl | hlt
    · rw [Function.update_self, Function.update_self]
      exact ⟨hnew.symm, rfl⟩
    · rw [Function.update_of_ne (Nat.ne_of_gt hlt), Function.update_of_ne (Nat.ne_of_gt hlt)]
      exact hrows i hlt hi

/-- The values that the two passes settle on. -/
structure Settled (g : TuSchedGraph) (maxAsap : Int) : Prop where
  asap : ∀ i, i < g.numNodes → g.asapCycle i = g.earliest i
  max_nonneg : 0 ≤ maxAsap
  le_max : ∀ i, i < g.numNodes → g.asapCycle i ≤ maxAsap
  max_reached : maxAsap = 0 ∨ ∃ i, i < g.numNodes ∧ maxAsap = g.asapCycle i
  alap : ∀ i, i < g.numNodes → g.alapCycle i = g.latest maxAsap i
  slack : ∀ i, i < g.numNodes → g.slack i = g.alapCycle i - g.asapCycle i

theorem computeMobility_settled (hg : g.Dag) : ∃ maxAsap, (tuSchedComputeMobility g).Settled maxAsap := by
  obtain ⟨asap, hfold, hrows⟩ := asap_rows hg g.numNodes
  obtain ⟨hstart, hall, hreached⟩ := foldl_latest asap (List.range g.numNodes) 0
  generalize hmax : (List.range g.numNodes).foldl (fun latest p => if asap p > latest then asap p else latest) 0 =
    maxAsap at hstart hall hreached
  obtain ⟨alap, slack, hback, halap⟩ := alap_rows hg asap maxAsap g.numNodes g.alapCycle g.slack
    fun i hle hlt => absurd hle (Nat.not_le.2 hlt)
  have hmob : tuSchedComputeMobility g = { g with asapCycle := asap, alapCycle := alap, slack := slack } := by
    unfold tuSchedComputeMobility
    rw [hfold]
    dsimp only
    rw [hmax]
    exact hback
  refine ⟨maxAsap, ?_⟩
  rw [hmob]
  refine ⟨hrows, hstart, fun i hi => hall i (List.mem_range.2 hi), ?_, fun i hi => (halap i hi).1,
    fun i hi => (halap i hi).2⟩
  rcases hreached with hzero | ⟨i, hi, heq⟩
  · exact Or.inl hzero
  · exact Or.inr ⟨i, List.mem_range.1 hi, heq⟩

/-- Settled cycles are estimates. -/
theorem Settled.estimated {maxAsap : Int} (hg : g.Dag) (h : g.Settled maxAsap) : g.Estimated := by
  have hbounds := asap_bounds hg h.asap
  have hspec := fun i (hi : i < g.numNodes) => earliestOf_spec g.asapCycle i fun p hp =>
    (hbounds p (Nat.lt_trans (hg.edge p i hp).1 hi)).1
  have hsink : ∀ i, i < g.numNodes → g.succs i = [] → g.alapCycle i = maxAsap := fun i hi hnil => by
    rw [h.alap i hi, latest_eq, if_pos hnil]
  refine ⟨fun i hi => (hbounds i hi).1, fun i hi => (hbounds i hi).2, fun i p hi hp => ?_, fun i hi hne => ?_,
    fun i hi hnil => ?_, fun i hi => ?_, fun i j hi hj hnil hnil' => (hsink i hi hnil).trans (hsink j hj hnil').symm⟩
  · rw [h.asap i hi]
    exact (hspec i hi).2.1 p hp
  · rw [h.asap i hi]
    exact (hspec i hi).2.2 hne
  · rw [h.asap i hi]
    exact (hspec i hi).1 hnil
  · have hasap := (hbounds i hi).1
    have hmax := h.max_nonneg
    rw [h.alap i hi, latest_eq]
    split
    · exact hmax
    · split <;> omega

/-- The estimates of the pass. -/
theorem computeMobility_estimated (hg : g.Dag) : (tuSchedComputeMobility g).Estimated := by
  obtain ⟨maxAsap, h⟩ := computeMobility_settled hg
  exact h.estimated hg.mobility

/-- No priority is below the start value of the search for the best node. -/
theorem Estimated.priority_ge (h : g.Estimated) (hlen : g.numNodes ≤ tuSchedMaxInstrs) {i : Nat}
    (hi : i < g.numNodes) : -2 ^ 31 ≤ g.priority i := by
  have hmax : tuSchedMaxInstrs = 256 := rfl
  have hasap := h.asap_le i hi
  have halap := h.alap_nonneg i hi
  unfold priority
  split
  · omega
  · omega
  all_goals
    unfold balancedPriority
    repeat' split
    all_goals omega

end TuSchedGraph

end Tusim

/-!
### Mobility windows

The window of a node reaches from its earliest to its latest cycle.  Along a recorded edge both ends grow by the cycles
of the producer, and no window reaches behind the largest earliest cycle (`computeMobility_windows`).  A node whose
successors start late enough for their own predecessors leaves them room as well, so the pass never has to raise a
latest cycle to the earliest one.
-/

namespace Tusim

namespace TuSchedGraph

variable {g : TuSchedGraph}

/-- The windows of the nodes are consistent. -/
structure Windows (g : TuSchedGraph) : Prop where
  asap_edge : ∀ p s, s ∈ g.succs p → g.asapCycle p + (g.nodes p).cycles ≤ g.asapCycle s
  alap_edge : ∀ p s, s ∈ g.succs p → g.alapCycle p + (g.nodes p).cycles ≤ g.alapCycle s
  asap_nonneg : ∀ i, i < g.numNodes → 0 ≤ g.asapCycle i
  asap_le_alap : ∀ i, i < g.numNodes → g.asapCycle i ≤ g.alapCycle i
  alap_le_max : ∀ i, i < g.numNodes → ∃ j, j < g.numNodes ∧ g.alapCycle i ≤ g.asapCycle j
  slack_eq : ∀ i, i < g.numNodes → g.slack i = g.alapCycle i - g.asapCycle i
  /-- The value that is compared with the earliest cycle stays. -/
  not_raised : ∀ i, i < g.numNodes → g.succs i ≠ [] → g.asapCycle i ≤ g.soonest i ∧ g.alapCycle i = g.soonest i

namespace Settled

variable {maxAsap : Int} (h : g.Settled maxAsap) (hg : g.Dag)

include h

theorem asap_le_alap {i : Nat} (hi : i < g.numNodes) : g.asapCycle i ≤ g.alapCycle i := by
  have hmax := h.le_max i hi
  rw [h.alap i hi, latest_eq]
  split
  · exact hmax
  · split <;> omega

include hg

/-- The successors leave a node enough time: their windows do not end before they begin. -/
theorem asap_le_soonest (hlen : g.numNodes ≤ tuSchedMaxInstrs) {i : Nat} (hi : i < g.numNodes) :
    g.asapCycle i ≤ g.soonest i := by
  have hestimated := h.estimated hg
  rcases (g.soonest_spec i).2 with hstart | ⟨s, hs, hreached⟩
  · have hle := hestimated.asap_le i hi
    have hcount : tuSchedMaxInstrs = 256 := rfl
    omega
  · have hpred := (hg.sym i s).1 hs
    have hlt := (hg.edge i s hpred).2
    have hedge := hestimated.asap_pred s i hlt hpred
    have hwindow := h.asap_le_alap hlt
    omega

theorem alap_eq_soonest (hlen : g.numNodes ≤ tuSchedMaxInstrs) {i : Nat} (hi : i < g.numNodes) (hne : g.succs i ≠ []) :
    g.alapCycle i = g.soonest i := by
  rw [h.alap i hi, latest_eq, if_neg hne, if_neg (Int.not_lt.2 (h.asap_le_soonest hg hlen hi))]

theorem alap_le (hlen : g.numNodes ≤ tuSchedMaxInstrs) {i : Nat} (hi : i < g.numNodes) : g.alapCycle i ≤ maxAsap := by
  -- the successors come first
  induction hk : g.numNodes - i using Nat.strong_induction_on generalizing i with
  | _ k ih =>
    by_cases hnil : g.succs i = []
    · have heq : g.alapCycle i = maxAsap := by rw [h.alap i hi, latest_eq, if_pos hnil]
      exact Int.le_of_eq heq
    · obtain ⟨s, hs⟩ := List.exists_mem_of_ne_nil _ hnil
      obtain ⟨hlt, hs'⟩ := hg.edge i s ((hg.sym i s).1 hs)
      have hbehind := ih (g.numNodes - s) (by omega) hs' rfl
      have hle := (g.soonest_spec i).1 s hs
      have hpos := (cycles_pos (g.nodes i)).1
      rw [h.alap_eq_soonest hg hlen hi hnil]
      omega

/-- Settled cycles are consistent windows. -/
theorem windows (hlen : g.numNodes ≤ tuSchedMaxInstrs) : g.Windows := by
  have hestimated := h.estimated hg
  have hedge : ∀ p s, s ∈ g.succs p → p ∈ g.preds s ∧ s < g.numNodes ∧ p < g.numNodes := fun p s hs => by
    have hpred := (hg.sym p s).1 hs
    obtain ⟨hlt, hs'⟩ := hg.edge p s hpred
    exact ⟨hpred, hs', by omega⟩
  refine ⟨fun p s hs => ?_, fun p s hs => ?_, hestimated.asap_nonneg, fun i hi => h.asap_le_alap hi, fun i hi => ?_,
    h.slack, fun i hi hne => ⟨h.asap_le_soonest hg hlen hi, h.alap_eq_soonest hg hlen hi hne⟩⟩
  · obtain ⟨hpred, hs', -⟩ := hedge p s hs
    exact hestimated.asap_pred s p hs' hpred
  · obtain ⟨-, -, hp⟩ := hedge p s hs
    rw [h.alap_eq_soonest hg hlen hp (List.ne_nil_of_mem hs)]
    exact (g.soonest_spec p).1 s hs
  · have hle := h.alap_le hg hlen hi
    rcases h.max_reached with hzero | ⟨j, hj, heq⟩
    · have hnonneg := hestimated.asap_nonneg i hi
      exact ⟨i, hi, by omega⟩
    · exact ⟨j, hj, by omega⟩

end Settled

end TuSchedGraph

open TuSchedGraph

/-- The windows of a graph that the pass builds are consistent. -/
theorem computeMobility_windows {instrs : List TuInstruction} {config : Option TuSchedConfig} {g : TuSchedGraph}
    (hg : tuSchedBuildDag instrs config = some g) : (tuSchedComputeMobility g).Windows := by
  have hdag : g.Dag := (buildDag_recorded hg).dag
  obtain ⟨maxAsap, h⟩ := computeMobility_settled hdag
  refine h.windows hdag.mobility ?_
  rw [(computeMobility_built hg).1]
  exact buildDag_length hg

theorem computeMobility_windows_load_mma :
    let instrs : List TuInstruction :=
      [{ opcode := TuIsa.dmaLoad, dim0 := 0, dim1 := 8 }, { opcode := TuIsa.mma, dim0 := 2, dim1 := 2, dim2 := 2 }]
    ∃ g, tuSchedBuildDag instrs none = some g ∧ (tuSchedComputeMobility g).Windows := by
  intro instrs
  obtain ⟨g, hg⟩ : ∃ g, tuSchedBuildDag instrs none = some g := ⟨_, if_neg (by decide)⟩
  exact ⟨g, hg, computeMobility_windows hg⟩

end Tusim
