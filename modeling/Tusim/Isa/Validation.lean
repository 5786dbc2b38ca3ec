import Tusim.Isa.Picking

/-!
# Validation of schedules

The validator matches each instruction of a schedule to the first marked node with the same opcode, first two
dimensions and flags that has no position yet, and checks the recorded edges between nodes with positions.  On marked
nodes without equal keys it decides whether the schedule obeys the recorded edges (`tuSchedValidate_marked`).  The
construction of the graph marks no node, and then no edge is checked (`tuSchedValidate_fresh`).
-/

/-!
### Every program is scheduled

The pass emits every instruction once and obeys what it recorded, whatever the policy (`tuSchedRun_total`).  The ready
queue never holds a node twice, neither between the turns nor while the successors of a node are released, so its array
is long enough (`ListScheduler.Emitting.queueFits`).
-/

namespace Tusim

open Emission

namespace ListScheduler

/-- The candidate that is emitted. -/
def selected (g : TuSchedGraph) (s : ListScheduler) : Nat := (s.candidates g).getD (g.best (s.candidates g)) 0

/-- A candidate is emitted, and its successors are still to be released. -/
def select (g : TuSchedGraph) (s : ListScheduler) : ListScheduler :=
  { s with
    readyQueue := swapRemove (s.candidates g) (g.best (s.candidates g))
    scheduled := Function.update s.scheduled (s.selected g) true
    order := s.order ++ [s.selected g]
    estimatedCycles := s.estimatedCycles + (g.nodes (s.selected g)).cycles }

/-- The array of the ready queue is long enough during a turn. -/
structure QueueFits (g : TuSchedGraph) (s : ListScheduler) : Prop where
  ready : s.readyQueue.length ≤ tuSchedMaxReadyQueue
  candidates : (s.candidates g).length ≤ tuSchedMaxReadyQueue
  releases : s.order.length < g.numNodes →
    ∀ m, (((g.succs (s.selected g)).take m).foldl .release (s.select g)).readyQueue.length ≤ tuSchedMaxReadyQueue

variable {g : TuSchedGraph} {s : ListScheduler}

theorem length_le_of_nodup {n : Nat} {l : List Nat} (hnodup : l.Nodup) (hlt : ∀ k ∈ l, k < n) : l.length ≤ n := by
  have hsub : l ⊆ List.range n := fun k hk => List.mem_range.2 (hlt k hk)
  have hle := (hnodup.subperm hsub).length_le
  rwa [List.length_range] at hle

theorem Emitting.queueFits (h : s.Emitting g) (hg : g.Dag) (hlen : g.numNodes ≤ tuSchedMaxReadyQueue) :
    s.QueueFits g := by
  obtain ⟨hnodup, hcand⟩ := h.candidates
  refine ⟨Nat.le_trans (length_le_of_nodup h.ready_nodup fun k hk => (h.ready k hk).1) hlen,
    Nat.le_trans (length_le_of_nodup hnodup fun k hk => (hcand k hk).1) hlen, fun hmore m => ?_⟩
  have hne := h.candidates_ne_nil hg hmore
  have hperm := swapRemove_perm (g.best_lt hne) 0
  have hnodup' := hperm.nodup_iff.2 hnodup
  rw [List.nodup_cons] at hnodup'
  have hrest : ∀ k ∈ (s.select g).readyQueue, k < g.numNodes ∧ s.remainingPreds k = 0 := fun k hk => by
    obtain ⟨hlt, -, hzero⟩ := hcand k (hperm.subset (List.mem_cons_of_mem _ hk))
    exact ⟨hlt, hzero⟩
  have hout : s.selected g ∉ s.order := (hcand _ (hperm.subset (List.mem_cons_self ..))).2.1
  have hsucc : ∀ k ∈ g.succs (s.selected g), k < g.numNodes ∧ 0 < s.remainingPreds k := by
    intro k hk
    have hpred := (hg.sym _ k).1 hk
    refine ⟨(hg.edge _ k hpred).2, ?_⟩
    rw [h.remaining k]
    exact pending_pos hout hpred
  -- the successors still waited for the selected node, so they are not queued
  obtain ⟨-, -, -, hreleased, hqueue⟩ := foldl_release ((g.succs (s.selected g)).take m)
    ((hg.succs_nodup _).sublist (List.take_sublist m _)) (s.select g) hnodup'.2 fun k hk hc => by
      have hpos := (hsucc k (List.take_subset m _ hk)).2
      have hnone := (hrest k hc).2
      omega
  refine Nat.le_trans (length_le_of_nodup hreleased fun k hk => ?_) hlen
  rcases hqueue k hk with hk | ⟨hk, -, -⟩
  · exact (hrest k hk).1
  · exact (hsucc k (List.take_subset m _ hk)).1

end ListScheduler

theorem map_range_instructions (instrs : List TuInstruction) :
    (List.range instrs.length).map (fun i => instrs.getD i default) = instrs := by
  apply List.ext_getElem
  · simp
  · intro i hi hi'
    rw [List.getElem_map, List.getElem_range]
    exact List.getD_eq_getElem _ _ hi'

/-- A program in another order. -/
theorem instructions_perm {instrs : List TuInstruction} {order : List Nat} (h : order.Perm (List.range instrs.length)) :
    (order.map fun i => instrs.getD i default).Perm instrs :=
  (h.map _).trans (List.Perm.of_eq (map_range_instructions instrs))

/-- A schedule of a program for a graph: every instruction once, and the recorded edges go forward. -/
structure Scheduling (instrs : List TuInstruction) (g : TuSchedGraph) (result : TuSchedResult) : Prop where
  valid : result.valid = true
  order_perm : result.order.Perm (List.range instrs.length)
  instructions : result.instructions = result.order.map fun i => instrs.getD i default
  instructions_perm : result.instructions.Perm instrs
  edges : ∀ p s, s ∈ g.succs p → Precedes result.order p s

/-- The pass schedules every program, and the ready queue fits at every turn. -/
theorem tuSchedRun_total (instrs : List TuInstruction) (config : Option TuSchedConfig) (hpos : instrs ≠ [])
    (hlen : instrs.length ≤ tuSchedMaxInstrs) :
    ∃ g result, tuSchedBuildDag instrs config = some g ∧ tuSchedRun instrs config = some result ∧
      Scheduling instrs g result ∧
      ∀ n, (ListScheduler.loop (tuSchedComputeMobility g) n (.init (tuSchedComputeMobility g))).QueueFits
        (tuSchedComputeMobility g) := by
  obtain ⟨g, hg⟩ : ∃ g, tuSchedBuildDag instrs config = some g := ⟨_, if_neg (Nat.not_lt.2 hlen)⟩
  have hrec := TuSchedGraph.buildDag_recorded hg
  have hdag : g.Dag := hrec.dag
  obtain ⟨hnum, -⟩ := computeMobility_built hg
  obtain ⟨result, hrun, -, hvalid, hperm, hinstr, hclosed⟩ := tuSchedRun_built hg hpos
  refine ⟨g, result, hg, hrun, ⟨hvalid, hperm, hinstr, ?_, fun p s hs => ?_⟩, fun n => ?_⟩
  · rw [hinstr]
    exact instructions_perm hperm
  · have hpred := (hdag.sym p s).1 hs
    have hlt := (hdag.edge p s hpred).2
    refine hclosed s (hperm.mem_iff.2 (List.mem_range.2 ?_)) p hpred
    rw [hrec.static] at hlt
    exact hlt
  · have hemitting := (ListScheduler.emitting_init (tuSchedComputeMobility g)).loop_emitting hdag.mobility n
    exact hemitting.queueFits hdag.mobility (by rw [hnum]; exact hlen)

theorem tuSchedRun_total_load_mma :
    let instrs : List TuInstruction :=
      [{ opcode := TuIsa.dmaLoad, dim0 := 0, dim1 := 8 }, { opcode := TuIsa.mma, dim0 := 2, dim1 := 2, dim2 := 2 }]
    ∃ g result, tuSchedBuildDag instrs none = some g ∧ tuSchedRun instrs none = some result ∧
      Scheduling instrs g result ∧
      ∀ n, (ListScheduler.loop (tuSchedComputeMobility g) n (.init (tuSchedComputeMobility g))).QueueFits
        (tuSchedComputeMobility g) :=
  tuSchedRun_total _ none (List.cons_ne_nil _ _) (by decide)

end Tusim

namespace Tusim

open Emission

/-- The fields by which the validator recognises an instruction. -/
def matchKey (instr : TuInstruction) : UInt8 × UInt16 × UInt16 × UInt8 :=
  (instr.opcode, instr.dim0, instr.dim1, instr.flags)

/-- Give instruction `i` of the schedule, `si`, to a node; `positions` holds `none` for `-1`. -/
def placeInstruction (g : TuSchedGraph) (scheduled : Nat → Bool) (positions : Nat → Option Nat)
    (i : Nat) (si : TuInstruction) : Nat → Option Nat :=
  match (List.range g.numNodes).find? fun j =>
      scheduled j && matchKey si = matchKey (g.nodes j).instr && (positions j).isNone with
  | some j => Function.update positions j (some i)
  | none => positions

/-- The positions of the nodes in a schedule. -/
def matchPositions (g : TuSchedGraph) (scheduled : Nat → Bool) (instructions : List TuInstruction) : Nat → Option Nat :=
  (List.range instructions.length).foldl
    (fun positions i => placeInstruction g scheduled positions i (instructions.getD i default)) fun _ => none

/-- The validator; `scheduled` marks the nodes that count as emitted, none in a graph as it is built. -/
def tuSchedValidate (result : TuSchedResult) (g : TuSchedGraph) (scheduled : Nat → Bool := fun _ => false) : Bool :=
  result.valid &&
    let positions := matchPositions g scheduled result.instructions
    (List.range g.numNodes).all fun i =>
      match positions i with
      | none => true
      | some posI => (g.succs i).all fun s =>
        match positions s with
        | none => true
        | some posS => posI < posS

/-- The instructions are those of the program in an order in which the recorded edges go forward. -/
def Readable (instrs : List TuInstruction) (g : TuSchedGraph) (result : TuSchedResult) : Prop :=
  ∃ order : List Nat, order.Perm (List.range instrs.length) ∧
    result.instructions = order.map (fun i => instrs.getD i default) ∧ ∀ p s, s ∈ g.succs p → Precedes order p s

/-- Before is at a smaller index. -/
theorem precedes_iff_idxOf {order : List Nat} (hn : order.Nodup) {a b : Nat} (hb : b ∈ order) :
    Precedes order a b ↔ order.idxOf a < order.idxOf b := by
  obtain ⟨past, rest, rfl⟩ := List.append_of_mem hb
  have hout : b ∉ past := fun hc => (List.nodup_append.1 hn).2.2 b hc b (List.mem_cons_self ..) rfl
  have hidx : (past ++ b :: rest).idxOf b = past.length := by
    rw [List.idxOf_append_of_notMem hout, List.idxOf_cons_self, Nat.add_zero]
  rw [hidx]
  by_cases ha : a ∈ past
  · rw [List.idxOf_append_of_mem ha]
    exact iff_of_true (precedes_of_mem ha b rest) (List.idxOf_lt_length_of_mem ha)
  · rw [List.idxOf_append_of_notMem ha]
    exact iff_of_false (fun hc => ha (hc.mem_past hn)) (by omega)

/-! ### A graph without marks -/

/-- No instruction finds a node. -/
theorem matchPositions_fresh (g : TuSchedGraph) (instructions : List TuInstruction) :
    matchPositions g (fun _ => false) instructions = fun _ => none := by
  unfold matchPositions
  generalize List.range instructions.length = ids
  induction ids with
  | nil => rfl
  | cons i ids ih =>
    rw [List.foldl_cons]
    have hnone : placeInstruction g (fun _ => false) (fun _ => none) i (instructions.getD i default) =
        fun _ => none := by
      unfold placeInstruction
      rw [List.find?_eq_none.2 fun j _ => by simp]
    rw [hnone]
    exact ih

/-- As the graph is built the validator only looks at the flag of the result. -/
theorem tuSchedValidate_fresh (result : TuSchedResult) (g : TuSchedGraph) : tuSchedValidate result g = result.valid := by
  unfold tuSchedValidate
  rw [matchPositions_fresh]
  simp

/-! ### A graph whose nodes are all marked -/

section Marked

variable {instrs : List TuInstruction} {g : TuSchedGraph} {order : List Nat}

/-- The keys tell the instructions of the program apart. -/
def DistinctKeys (instrs : List TuInstruction) : Prop :=
  ∀ i j, i < instrs.length → j < instrs.length →
    matchKey (instrs.getD i default) = matchKey (instrs.getD j default) → i = j

/-- The instruction at index `m` is matched to its own node. -/
theorem placeInstruction_marked (hnum : g.numNodes = instrs.length) (hnodes : g.nodes = schedNodes instrs)
    (hkeys : DistinctKeys instrs) {positions : Nat → Option Nat} {j : Nat} (hj : j < instrs.length)
    (hfree : positions j = none) (i : Nat) :
    placeInstruction g (fun _ => true) positions i (instrs.getD j default) = Function.update positions j (some i) := by
  have hkey : ∀ k, (g.nodes k).instr = instrs.getD k default := fun k => by
    rw [hnodes]
    rfl
  have hfind : (List.range g.numNodes).find? (fun k => true && decide (matchKey (instrs.getD j default) =
      matchKey (g.nodes k).instr) && (positions k).isNone) = some j := by
    rw [List.find?_range_eq_some]
    refine ⟨by simp [hkey, hfree], List.mem_range.2 (by omega), fun k hk => ?_⟩
    have hne : matchKey (instrs.getD j default) ≠ matchKey (instrs.getD k default) := fun hc => by
      have heq := hkeys j k hj (by omega) hc
      omega
    rw [hkey, decide_eq_false hne]
    rfl
  unfold placeInstruction
  rw [hfind]

/-- Every node has the index of its own instruction. -/
theorem matchPositions_marked (hnum : g.numNodes = instrs.length) (hnodes : g.nodes = schedNodes instrs)
    (hkeys : DistinctKeys instrs) (hperm : order.Perm (List.range instrs.length)) :
    matchPositions g (fun _ => true) (order.map fun i => instrs.getD i default) =
      fun j => if j < instrs.length then some (order.idxOf j) else none := by
  have hlen : order.length = instrs.length := by rw [hperm.length_eq, List.length_range]
  have hnodup : order.Nodup := hperm.nodup_iff.2 List.nodup_range
  have hmem : ∀ j, j ∈ order ↔ j < instrs.length := fun j => hperm.mem_iff.trans List.mem_range
  have hrun : ∀ m, m ≤ order.length → (List.range m).foldl (fun positions i =>
      placeInstruction g (fun _ => true) positions i
        ((order.map fun i => instrs.getD i default).getD i default)) (fun _ => none) =
      fun j => if order.idxOf j < m then some (order.idxOf j) else none := by
    intro m hm
    induction m with
    | zero => rfl
    | succ m ih =>
      rw [List.range_succ, List.foldl_append, ih (by omega), List.foldl_cons, List.foldl_nil]
      have hat : (order.map fun i => instrs.getD i default).getD m default = instrs.getD order[m] default := by
        rw [List.getD_eq_getElem _ _ (by rw [List.length_map]; exact hm), List.getElem_map]
      have hidx : order.idxOf order[m] = m := hnodup.idxOf_getElem m hm
      rw [hat, placeInstruction_marked hnum hnodes hkeys ((hmem _).1 (List.getElem_mem hm)) (by
        rw [hidx, if_neg (Nat.lt_irrefl m)])]
      funext j
      by_cases hj : j = order[m]
      · rw [hj, Function.update_self, hidx, if_pos (Nat.lt_succ_self m)]
      · have hne : order.idxOf j ≠ m := by
          intro hc
          subst hc
          exact hj (List.getElem_idxOf hm).symm
        rw [Function.update_of_ne hj]
        by_cases hlt : order.idxOf j < m
        · rw [if_pos hlt, if_pos (by omega)]
        · rw [if_neg hlt, if_neg (by omega)]
  unfold matchPositions
  rw [List.length_map, hrun order.length (Nat.le_refl _)]
  funext j
  by_cases hj : j < instrs.length
  · rw [if_pos hj, if_pos (List.idxOf_lt_length_of_mem ((hmem j).2 hj))]
  · rw [if_neg hj, if_neg fun hc => hj ((hmem j).1 (List.idxOf_lt_length_iff.1 hc))]

/-- A rearranged program is the program in some order. -/
theorem exists_order {l : List TuInstruction} (h : l.Perm instrs) :
    ∃ order : List Nat, order.Perm (List.range instrs.length) ∧ l = order.map fun i => instrs.getD i default := by
  have hself : List.Forall₂ (fun x i => x = instrs.getD i default) instrs (List.range instrs.length) := by
    rw [← List.forall₂_map_right_iff, List.forall₂_eq_eq_eq, map_range_instructions]
  obtain ⟨order, hall, hperm⟩ := List.perm_comp_forall₂ h hself
  rw [← List.forall₂_map_right_iff, List.forall₂_eq_eq_eq] at hall
  exact ⟨order, hperm, hall⟩

/-- There is only one order. -/
theorem order_unique (hkeys : DistinctKeys instrs) {order' : List Nat} (hperm : order.Perm (List.range instrs.length))
    (hperm' : order'.Perm (List.range instrs.length))
    (h : (order.map fun i => instrs.getD i default) = order'.map fun i => instrs.getD i default) : order = order' := by
  apply List.ext_getElem
  · rw [hperm.length_eq, hperm'.length_eq]
  · intro i hi hi'
    refine hkeys _ _ (List.mem_range.1 (hperm.subset (List.getElem_mem hi)))
      (List.mem_range.1 (hperm'.subset (List.getElem_mem hi'))) (congrArg matchKey ?_)
    have hat : (order.map fun i => instrs.getD i default)[i]? = (order'.map fun i => instrs.getD i default)[i]? := by
      rw [h]
    rw [List.getElem?_map, List.getElem?_map, List.getElem?_eq_getElem hi, List.getElem?_eq_getElem hi'] at hat
    exact Option.some.inj hat

/-- On marked nodes that the keys tell apart, the validator accepts what obeys the recorded edges. -/
theorem tuSchedValidate_marked {config : Option TuSchedConfig} (hg : tuSchedBuildDag instrs config = some g)
    (hkeys : DistinctKeys instrs) {result : TuSchedResult} (hperm : result.instructions.Perm instrs) :
    tuSchedValidate result g (fun _ => true) = true ↔ result.valid = true ∧ Readable instrs g result := by
  have hrec := TuSchedGraph.buildDag_recorded hg
  have hdag : g.Dag := hrec.dag
  have hnum : g.numNodes = instrs.length := by
    rw [hrec.static]
    rfl
  have hnodes : g.nodes = schedNodes instrs := by
    rw [hrec.static]
    rfl
  obtain ⟨order, horder, hinstr⟩ := exists_order hperm
  have hlt : ∀ p s, s ∈ g.succs p → p < instrs.length ∧ s < instrs.length := fun p s hs => by
    have hedge := hdag.edge p s ((hdag.sym p s).1 hs)
    omega
  have hreadable : Readable instrs g result ↔ ∀ p s, s ∈ g.succs p → Precedes order p s := by
    constructor
    · rintro ⟨order', horder', hinstr', hforward⟩
      rw [order_unique hkeys horder horder' (hinstr.symm.trans hinstr')]
      exact hforward
    · exact fun hforward => ⟨order, horder, hinstr, hforward⟩
  unfold tuSchedValidate
  rw [hinstr, matchPositions_marked hnum hnodes hkeys horder, hreadable, Bool.and_eq_true]
  refine and_congr_right fun _ => ?_
  dsimp only
  rw [List.all_eq_true]
  have hprecedes : ∀ p s, s < instrs.length → (Precedes order p s ↔ order.idxOf p < order.idxOf s) := fun p s hs =>
    precedes_iff_idxOf (horder.nodup_iff.2 List.nodup_range) (horder.mem_iff.2 (List.mem_range.2 hs))
  constructor
  · intro h p s hs
    obtain ⟨hp', hs'⟩ := hlt p s hs
    have hrow := h p (List.mem_range.2 (by omega))
    rw [if_pos hp'] at hrow
    have hedge := List.all_eq_true.1 hrow s hs
    rw [if_pos hs'] at hedge
    exact (hprecedes p s hs').2 (of_decide_eq_true hedge)
  · intro h p hp
    rw [List.mem_range] at hp
    rw [if_pos (by omega)]
    refine List.all_eq_true.2 fun s hs => ?_
    obtain ⟨-, hs'⟩ := hlt p s hs
    rw [if_pos hs']
    exact decide_eq_true ((hprecedes p s hs').1 (h p s hs))

end Marked

/-- On a graph as it is built the validator judges a rearranged program right exactly if the flag of the result does.
With all nodes marked it would check the edges. -/
theorem tuSchedValidate_iff {instrs : List TuInstruction} {config : Option TuSchedConfig} {g : TuSchedGraph}
    (hg : tuSchedBuildDag instrs config = some g) {result : TuSchedResult} (hperm : result.instructions.Perm instrs) :
    ((tuSchedValidate result g = true ↔ Readable instrs g result) ↔
        (result.valid = true ↔ Readable instrs g result)) ∧
      (DistinctKeys instrs →
        (tuSchedValidate result g (fun _ => true) = true ↔ result.valid = true ∧ Readable instrs g result)) := by
  refine ⟨?_, fun hkeys => tuSchedValidate_marked hg hkeys hperm⟩
  rw [tuSchedValidate_fresh]

theorem tuSchedValidate_load_mma :
    let instrs : List TuInstruction :=
      [{ opcode := TuIsa.dmaLoad, dim0 := 0, dim1 := 8 }, { opcode := TuIsa.mma, dim0 := 2, dim1 := 2, dim2 := 2 }]
    let result : TuSchedResult := { instructions := instrs, valid := true }
    ∃ g, tuSchedBuildDag instrs none = some g ∧
      ((tuSchedValidate result g = true ↔ Readable instrs g result) ↔
        (result.valid = true ↔ Readable instrs g result)) ∧
      (DistinctKeys instrs →
        (tuSchedValidate result g (fun _ => true) = true ↔ result.valid = true ∧ Readable instrs g result)) := by
  intro instrs result
  obtain ⟨g, hg⟩ : ∃ g, tuSchedBuildDag instrs none = some g := ⟨_, if_neg (by decide)⟩
  exact ⟨g, hg, tuSchedValidate_iff hg (List.Perm.refl instrs)⟩

/-- A product before the load it reads passes. -/
theorem tuSchedValidate_accepts_reversed :
    let load : TuInstruction := { opcode := TuIsa.dmaLoad, dim0 := 0, dim1 := 8 }
    let mma : TuInstruction := { opcode := TuIsa.mma, dim0 := 2, dim1 := 2, dim2 := 2 }
    let result : TuSchedResult := { instructions := [mma, load], valid := true }
    ¬ ∀ g, tuSchedBuildDag [load, mma] none = some g → result.instructions.Perm [load, mma] →
      (tuSchedValidate result g = true ↔ Readable [load, mma] g result) := by
  intro load mma result hall
  have hsuccs : (tuSchedBuildDag [load, mma] none).map (fun g => g.succs 0) = some [1] := by decide +kernel
  obtain ⟨g, hg, hsuccs⟩ := Option.map_eq_some_iff.1 hsuccs
  have haccepts : tuSchedValidate result g = true := tuSchedValidate_fresh result g
  obtain ⟨order, horder, hinstr, hforward⟩ := (hall g hg (List.Perm.swap load mma [])).1 haccepts
  have hkeys : DistinctKeys [load, mma] := by
    intro i j hi hj
    have hlen : [load, mma].length = 2 := rfl
    obtain ⟨rfl | rfl, rfl | rfl⟩ : (i = 0 ∨ i = 1) ∧ (j = 0 ∨ j = 1) := by omega
    all_goals decide
  have hreversed : order = [1, 0] :=
    order_unique hkeys horder (List.Perm.swap 0 1 []) (hinstr.symm.trans rfl)
  have hedge := hforward 0 1 (by rw [hsuccs]; exact List.mem_singleton.2 rfl)
  rw [hreversed] at hedge
  exact absurd hedge (by unfold Precedes; decide)

end Tusim
