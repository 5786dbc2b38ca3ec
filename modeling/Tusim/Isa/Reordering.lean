import Tusim.Isa.ListScheduling
import Tusim.Lib.Commuting
import Mathlib.Logic.Relation

/-!
# Scheduling and data hazards

A schedule may change the order of two instructions only if they share no byte that one of them writes.  The pass
records dependences in arrays of `tuSchedMaxDeps` entries and drops what does not fit, so it keeps the meaning of a
program when every hazard is covered by dependences that find room (`tuSchedRun_preserves`).  Whatever the instructions
do within their footprints, such a program leaves the same bytes behind (`tuSchedRun_meaning`).
-/

namespace Tusim

open Emission

/-- A schedule of the program: every instruction once, and those with a hazard in program order. -/
structure Preserves (instrs : List TuInstruction) (result : TuSchedResult) : Prop where
  valid : result.valid = true
  emitted : result.order.Perm (List.range instrs.length)
  instructions : result.instructions = result.order.map fun i => instrs.getD i default
  ordered : ∀ i j, i < j → j < instrs.length →
    (tuSchedAnalyzeAccess (instrs.getD i default)).Hazard (tuSchedAnalyzeAccess (instrs.getD j default)) →
      Precedes result.order i j

/-- Instruction `i` waits for the earlier `j`, and the pass has room for it. -/
def Recordable (nodes : Nat → TuSchedNode) (j i : Nat) : Prop := j < i ∧ Depends nodes j i = true ∧ Room nodes j i

/-- A chain of dependences that find room leads from the first to the second instruction of every hazard. -/
def Covered (instrs : List TuInstruction) : Prop :=
  ∀ i j, i < j → j < instrs.length →
    (tuSchedAnalyzeAccess (instrs.getD i default)).Hazard (tuSchedAnalyzeAccess (instrs.getD j default)) →
      Relation.TransGen (Recordable (schedNodes instrs)) i j

private theorem depends_of_hazard {instrs : List TuInstruction} {i j : Nat}
    (hz : (tuSchedAnalyzeAccess (instrs.getD i default)).Hazard (tuSchedAnalyzeAccess (instrs.getD j default))) :
    Depends (schedNodes instrs) i j = true := by
  have hbar : isBarrierOp (instrs.getD i default).opcode = false := by
    by_contra hb
    rw [Bool.not_eq_false] at hb
    rw [analyzeAccess_barrier hb] at hz
    obtain ⟨r, x, ⟨⟨hw, -⟩, -⟩ | ⟨⟨hr, -⟩, -⟩ | ⟨⟨hw, -⟩, -⟩⟩ := hz
    · cases hw
    · cases hr
    · cases hw
  have hdep : hasDependency (schedNodes instrs i).access (schedNodes instrs j).access = true :=
    hasDependency_of_hazard hz
  have hbar : (schedNodes instrs i).isBarrier = false := hbar
  unfold Depends
  rw [hbar, hdep]
  simp

/-- A hazard with room for its pair is covered by that pair alone. -/
theorem covered_of_room {instrs : List TuInstruction}
    (h : ∀ i j, i < j → j < instrs.length →
      (tuSchedAnalyzeAccess (instrs.getD i default)).Hazard (tuSchedAnalyzeAccess (instrs.getD j default)) →
        Room (schedNodes instrs) i j) : Covered instrs := by
  intro i j hij hj hz
  exact Relation.TransGen.single ⟨hij, depends_of_hazard hz, h i j hij hj hz⟩

theorem TuSchedGraph.Recorded.dag {base g : TuSchedGraph} (h : TuSchedGraph.Recorded base base.numNodes 0 g) : g.Dag := by
  have hnum : g.numNodes = base.numNodes := by rw [h.static]
  refine ⟨h.sym, fun p k hp => ?_, h.succs_nodup, h.preds_nodup⟩
  obtain ⟨hlt, -, hv⟩ := h.edge p k ((h.sym p k).2 hp)
  refine ⟨hlt, ?_⟩
  rw [hnum]
  exact hv.resolve_right fun hc => Nat.not_lt_zero p hc.2

theorem buildDag_length {instrs : List TuInstruction} {config : Option TuSchedConfig} {g : TuSchedGraph}
    (hg : tuSchedBuildDag instrs config = some g) : instrs.length ≤ tuSchedMaxInstrs := by
  unfold tuSchedBuildDag at hg
  split at hg
  · cases hg
  · omega

/-- What the estimates leave of the graph of a program. -/
theorem computeMobility_built {instrs : List TuInstruction} {config : Option TuSchedConfig} {g : TuSchedGraph}
    (hg : tuSchedBuildDag instrs config = some g) :
    (tuSchedComputeMobility g).numNodes = instrs.length ∧ (tuSchedComputeMobility g).nodes = schedNodes instrs ∧
      (tuSchedComputeMobility g).preds = g.preds ∧
      (tuSchedComputeMobility g).config = config.getD tuSchedConfigDefault := by
  obtain ⟨asap, alap, slack, hmob⟩ := g.computeMobility_eq
  rw [hmob, (TuSchedGraph.buildDag_recorded hg).static]
  exact ⟨rfl, rfl, rfl, rfl⟩

/-- A run of the pass schedules the graph of the program. -/
theorem tuSchedRun_built {instrs : List TuInstruction} {config : Option TuSchedConfig} {g : TuSchedGraph}
    (hg : tuSchedBuildDag instrs config = some g) (hpos : instrs ≠ []) :
    ∃ result, tuSchedRun instrs config = some result ∧
      (∃ reported, result = listSchedule (tuSchedComputeMobility g) reported) ∧ result.valid = true ∧
      result.order.Perm (List.range instrs.length) ∧
      result.instructions = result.order.map (fun i => instrs.getD i default) ∧
      Closed (fun a b => a ∈ g.preds b) result.order := by
  have hlen := buildDag_length hg
  have hdag : g.Dag := (TuSchedGraph.buildDag_recorded hg).dag
  obtain ⟨hnum, hnodes, hpreds, -⟩ := computeMobility_built hg
  obtain ⟨reported, hrun⟩ : ∃ reported,
      tuSchedRun instrs config = some (listSchedule (tuSchedComputeMobility g) reported) := by
    unfold tuSchedRun
    rw [if_neg (by simp [hpos, hlen]), hg]
    exact ⟨_, rfl⟩
  obtain ⟨hvalid, hperm, hclosed⟩ := listSchedule_order hdag.mobility reported
  rw [hnum] at hperm
  rw [hpreds] at hclosed
  refine ⟨_, hrun, ⟨reported, rfl⟩, hvalid, hperm, ?_, hclosed⟩
  show (listSchedule (tuSchedComputeMobility g) reported).order.map _ = _
  rw [hnodes]
  rfl

/-- A chain of recorded dependences is obeyed. -/
theorem precedes_of_chain {g : TuSchedGraph} {instrs : List TuInstruction} {order : List Nat}
    (hcomplete : ∀ p k, k < instrs.length → Recordable (schedNodes instrs) p k → p ∈ g.preds k)
    (hperm : order.Perm (List.range instrs.length)) (hclosed : Closed (fun a b => a ∈ g.preds b) order) {i j : Nat}
    (h : Relation.TransGen (Recordable (schedNodes instrs)) i j) (hj : j < instrs.length) : Precedes order i j := by
  have hstep : ∀ p k, k < instrs.length → Recordable (schedNodes instrs) p k → Precedes order p k := fun p k hk hr =>
    hclosed k (hperm.mem_iff.2 (List.mem_range.2 hk)) p (hcomplete p k hk hr)
  induction h with
  | single hr => exact hstep i _ hj hr
  | tail _ hr ih =>
    have hb := Nat.lt_trans hr.1 hj
    exact (ih hb).trans (hperm.nodup_iff.2 List.nodup_range) (hstep _ _ hj hr)

/-- Where the hazards are not covered, the construction drops a dependence. -/
theorem buildDag_drops {instrs : List TuInstruction} {config : Option TuSchedConfig} {g : TuSchedGraph}
    (hg : tuSchedBuildDag instrs config = some g) (h : ¬ Covered instrs) :
    ∃ p k, p < k ∧ k < instrs.length ∧ Depends (schedNodes instrs) p k = true ∧ k ∉ g.succs p := by
  obtain ⟨i, j, hij, hj, hz, hroom⟩ : ∃ i j, i < j ∧ j < instrs.length ∧
      (tuSchedAnalyzeAccess (instrs.getD i default)).Hazard (tuSchedAnalyzeAccess (instrs.getD j default)) ∧
      ¬ Room (schedNodes instrs) i j := by
    by_contra hall
    push Not at hall
    exact h (covered_of_room hall)
  exact (TuSchedGraph.buildDag_recorded hg).exists_dropped hij hj (depends_of_hazard hz) hroom

/-- A program whose hazards are covered keeps its meaning under every configuration. -/
theorem tuSchedRun_preserves (instrs : List TuInstruction) (config : Option TuSchedConfig) (hpos : instrs ≠ [])
    (hlen : instrs.length ≤ tuSchedMaxInstrs) (hcov : Covered instrs) :
    ∃ result, tuSchedRun instrs config = some result ∧ Preserves instrs result := by
  obtain ⟨g, hg⟩ : ∃ g, tuSchedBuildDag instrs config = some g :=
    ⟨_, if_neg (Nat.not_lt.2 hlen)⟩
  have hrec := TuSchedGraph.buildDag_recorded hg
  obtain ⟨result, hrun, -, hvalid, hperm, hinstr, hclosed⟩ := tuSchedRun_built hg hpos
  refine ⟨result, hrun, hvalid, hperm, hinstr, fun i j hij hj hz => ?_⟩
  refine precedes_of_chain (fun p k hk hr => ?_) hperm hclosed (hcov i j hij hj hz) hj
  exact (hrec.sym p k).1 (hrec.complete p k hr.1 hr.2.1 (Or.inl hk) hr.2.2)

theorem tuSchedRun_preserves_load_mma :
    let instrs : List TuInstruction :=
      [{ opcode := TuIsa.dmaLoad, dim0 := 0, dim1 := 8 }, { opcode := TuIsa.mma, dim0 := 2, dim1 := 2, dim2 := 2 }]
    ∃ result, tuSchedRun instrs none = some result ∧ Preserves instrs result := by
  intro instrs
  refine tuSchedRun_preserves instrs none (List.cons_ne_nil _ _) (by decide) (covered_of_room fun i j hij hj _ => ?_)
  have hlen : instrs.length = 2 := rfl
  obtain ⟨rfl, rfl⟩ : i = 0 ∧ j = 1 := by omega
  decide

/-- A store followed by seventeen loads into the bytes it reads: the last load finds the store's array full, and
being a load it is emitted first. -/
theorem tuSchedRun_reorders :
    let instrs : List TuInstruction :=
      { opcode := TuIsa.dmaStore, dim0 := 0, dim1 := 34 } ::
        [0, 2, 4, 6, 8, 10, 12, 14, 16, 18, 20, 22, 24, 26, 28, 30, 32].map fun offset =>
          { opcode := TuIsa.dmaLoad, dim0 := offset, dim1 := 2 }
    ¬ ∃ result, tuSchedRun instrs none = some result ∧ Preserves instrs result := by
  intro instrs
  rintro ⟨result, hrun, h⟩
  have horder : (tuSchedRun instrs none).map (·.order) =
      some [17, 0, 1, 2, 3, 4, 5, 6, 7, 8, 9, 10, 11, 12, 13, 14, 15, 16] := by decide +kernel
  rw [hrun] at horder
  have horder : result.order = [17, 0, 1, 2, 3, 4, 5, 6, 7, 8, 9, 10, 11, 12, 13, 14, 15, 16] := Option.some.inj horder
  have hlen : instrs.length = 18 := rfl
  have hstore := h.ordered 0 17 (by decide) (by rw [hlen]; decide)
    ⟨.w, 32, Or.inr (Or.inl ⟨⟨by decide, by decide, by decide⟩, by decide, by decide, by decide⟩)⟩
  have hload : Precedes result.order 17 0 := by
    show [17, 0].Sublist result.order
    rw [horder]
    decide
  exact hstore.asymm (h.emitted.nodup_iff.2 List.nodup_range) hload

/-! ### Meaning -/

section Meaning

open Commuting

/-- A byte of a scratchpad or a place of the host. -/
abbrev IsaPlace (κ : Type) : Type := TuSramRegionId × Nat ⊕ κ

/-- What the instructions do to the scratchpads and to the host.  An instruction stays within the bytes that the pass
takes it to read and write; the pass knows nothing of the host. -/
structure IsaMeaning (κ β : Type) where
  exec : TuInstruction → (IsaPlace κ → β) → IsaPlace κ → β
  hostReads : TuInstruction → Set κ
  hostWrites : TuInstruction → Set κ
  within : ∀ instr, Within (exec instr)
    {p | p.elim (fun q => (tuSchedAnalyzeAccess instr).ReadsByte q.1 q.2) (· ∈ hostReads instr)}
    {p | p.elim (fun q => (tuSchedAnalyzeAccess instr).WritesByte q.1 q.2) (· ∈ hostWrites instr)}

namespace IsaMeaning

variable {κ β : Type} (s : IsaMeaning κ β)

/-- The bytes a program leaves. -/
def run (instrs : List TuInstruction) (m : IsaPlace κ → β) : IsaPlace κ → β := instrs.foldl (fun m instr => s.exec instr m) m

/-- No two instructions of the program meet at a place of the host that one of them writes. -/
def HostApart (instrs : List TuInstruction) : Prop :=
  ∀ i j, i < j → j < instrs.length → ¬ Conflict (s.hostReads (instrs.getD i default)) (s.hostWrites (instrs.getD i default))
    (s.hostReads (instrs.getD j default)) (s.hostWrites (instrs.getD j default))

variable {s}

theorem run_eq (instrs : List TuInstruction) (m : IsaPlace κ → β) :
    s.run instrs m = (List.range instrs.length).foldl (fun m i => s.exec (instrs.getD i default) m) m := by
  have hinstrs : (List.range instrs.length).map (fun i => instrs.getD i default) = instrs := by
    apply List.ext_getElem
    · simp
    · intro i _ hi
      simp [hi]
  unfold run
  conv_lhs => rw [← hinstrs]
  rw [List.foldl_map]

/-- Instructions without a hazard commute. -/
theorem exec_comm {i j : TuInstruction} (hz : ¬ (tuSchedAnalyzeAccess i).Hazard (tuSchedAnalyzeAccess j))
    (hhost : ¬ Conflict (s.hostReads i) (s.hostWrites i) (s.hostReads j) (s.hostWrites j)) (m : IsaPlace κ → β) :
    s.exec j (s.exec i m) = s.exec i (s.exec j m) := by
  refine (s.within i).comm (s.within j) ?_ m
  rintro ⟨⟨r, x⟩ | y, h⟩
  · exact hz ⟨r, x, h⟩
  · exact hhost ⟨y, h⟩

end IsaMeaning

instance (acc : TuSramAccess) (r : TuSramRegionId) (x : Nat) : Decidable (acc.ReadsByte r x) :=
  inferInstanceAs (Decidable (_ ∧ _ ∧ _))

instance (acc : TuSramAccess) (r : TuSramRegionId) (x : Nat) : Decidable (acc.WritesByte r x) :=
  inferInstanceAs (Decidable (_ ∧ _ ∧ _))

/-- Every byte of a scratchpad has a place in the host: loads and stores copy between the two, and a compute instruction
adds one to what it writes. -/
def mirroring : IsaMeaning (TuSramRegionId × Nat) Nat where
  exec instr m p := p.elim
    (fun q => if (tuSchedAnalyzeAccess instr).WritesByte q.1 q.2 then
      if isDmaOp instr.opcode then m (.inr q) else m (.inl q) + 1
      else m (.inl q))
    (fun q => if isDmaOp instr.opcode = true ∧ (tuSchedAnalyzeAccess instr).ReadsByte q.1 q.2 then m (.inl q) else m (.inr q))
  hostReads instr := {q | isDmaOp instr.opcode = true ∧ (tuSchedAnalyzeAccess instr).WritesByte q.1 q.2}
  hostWrites instr := {q | isDmaOp instr.opcode = true ∧ (tuSchedAnalyzeAccess instr).ReadsByte q.1 q.2}
  within instr := by
    constructor
    · rintro m (q | q) hq
      · exact if_neg hq
      · exact if_neg hq
    · rintro m m' hm (q | q) hq
      · have hself := hm (.inl q) (Or.inr hq)
        have hw : (tuSchedAnalyzeAccess instr).WritesByte q.1 q.2 := hq
        simp only [Sum.elim_inl, if_pos hw]
        split
        · rename_i hdma
          exact hm (.inr q) (Or.inl ⟨hdma, hw⟩)
        · rw [hself]
      · have hw : isDmaOp instr.opcode = true ∧ (tuSchedAnalyzeAccess instr).ReadsByte q.1 q.2 := hq
        simp only [Sum.elim_inr, if_pos hw]
        exact hm (.inl q) (Or.inl hw.2)

end Meaning

end Tusim
