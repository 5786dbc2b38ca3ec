import Tusim.Isa.Synchronisation

/-!
# What the policies document

The documentation ranks the instructions that wait for nothing: by the earliest cycle, by the latest cycle, or loads
before compute before stores.  The pass ranks them the same way by the earliest cycle.  By the latest cycle it
prefers the largest, the balanced policy takes compute instructions that write a scratchpad for loads, and a
synchronisation instruction competes with the others once something it waits for is recorded.  Where none of this
matters a pick is the documented one, and elsewhere it is not (`TuSchedGraph.Picks.documented_iff`).
-/

namespace Tusim

open Emission History

/-- A DMA instruction that writes a scratchpad. -/
def TuSchedNode.isLoad (node : TuSchedNode) : Bool := node.isDma && node.writesSram

/-- The rank in the order load, compute, store. -/
def documentedClass (node : TuSchedNode) : Nat :=
  if node.isLoad then 3 else if node.isCompute then 2 else if node.isDma then 1 else 0

namespace TuSchedGraph

/-- The node may be emitted and is no synchronisation instruction. -/
def Open (g : TuSchedGraph) (past : List Nat) (k : Nat) : Prop := g.Free past k ∧ (g.nodes k).isBarrier = false

/-- The policy is documented to prefer node `k` to node `m`. -/
def Before (g : TuSchedGraph) (k m : Nat) : Prop :=
  match g.config.policy with
  | .asap => g.asapCycle k < g.asapCycle m ∨ g.asapCycle k = g.asapCycle m ∧ k ≤ m
  | .alap => g.alapCycle k < g.alapCycle m ∨ g.alapCycle k = g.alapCycle m ∧ k ≤ m
  | .balanced | .count =>
    documentedClass (g.nodes m) < documentedClass (g.nodes k) ∨
      documentedClass (g.nodes m) = documentedClass (g.nodes k) ∧ k ≤ m

/-- After `past` the documentation lets the scheduler emit `k`. -/
def Documented (g : TuSchedGraph) (past : List Nat) (k : Nat) : Prop :=
  (∃ m, g.Open past m) → g.Open past k ∧ ∀ m, g.Open past m → g.Before k m

/-- Nothing of what the pass ranks differently matters after `past`. -/
structure Undisturbed (g : TuSchedGraph) (past : List Nat) : Prop where
  /-- No synchronisation instruction in the ready queue precedes all the others there. -/
  sync : (∃ m, g.Open past m) → ∀ b, g.Free past b → (g.nodes b).isBarrier = true → g.preds b ≠ [] →
    ∃ m, g.Open past m ∧ g.Prefers m b
  /-- The latest cycle decides nothing. -/
  alap : g.config.policy = .alap → ∀ k m, g.Open past k → g.Open past m → g.alapCycle k = g.alapCycle m
  /-- If the first instruction that writes a scratchpad computes, no other is a load and none that computes is before
  it. -/
  balanced : g.config.policy = .balanced ∨ g.config.policy = .count →
    ∀ c, g.Open past c → (g.nodes c).writesSram = true → (g.nodes c).isCompute = true →
      (∀ m, g.Open past m → (g.nodes m).writesSram = true → c ≤ m) →
      ∀ m, g.Open past m → (g.nodes m).isLoad = false ∧ ((g.nodes m).isCompute = true → c ≤ m)

variable {g : TuSchedGraph} {past : List Nat} {k : Nat}

theorem Open.queued {m : Nat} (h : g.Open past m) : g.Queued past m := ⟨h.1, Or.inl h.2⟩

/-- Of two different nodes the scheduler prefers one. -/
theorem Prefers.antisymm {m : Nat} (h : g.Prefers k m) (h' : g.Prefers m k) : k = m := by
  unfold Prefers at h h'
  omega

/-- While an instruction is open, the pick is one exactly if no synchronisation instruction comes first. -/
theorem Picks.open_iff (h : g.Picks past k) (hopen : ∃ m, g.Open past m) :
    g.Open past k ↔ ∀ b, g.Free past b → (g.nodes b).isBarrier = true → g.preds b ≠ [] →
      ∃ m, g.Open past m ∧ g.Prefers m b := by
  obtain ⟨m, hm⟩ := hopen
  constructor
  · intro hk b hb hbar hpreds
    exact ⟨k, hk, (h.best b ⟨hb, Or.inr hpreds⟩).2⟩
  · intro hsync
    refine ⟨h.free, ?_⟩
    by_contra hbar
    rw [Bool.not_eq_false] at hbar
    have hqueued := (h.best m hm.queued).1
    have hpreds : g.preds k ≠ [] := hqueued.2.resolve_left (by rw [hbar]; exact Bool.noConfusion)
    obtain ⟨m', hm', hprefers⟩ := hsync k h.free hbar hpreds
    obtain rfl := hprefers.antisymm (h.best m' hm'.queued).2
    rw [hm'.2] at hbar
    cases hbar

/-! ### Loads, compute and stores -/

/-- What DMA and compute instructions are not. -/
structure Classified (node : TuSchedNode) : Prop where
  compute : node.isCompute = true → node.isDma = false
  writes : node.writesSram = true → node.isDma = true ∨ node.isCompute = true

/-- The pass ranks an instruction as documented, except that compute instructions may count as loads. -/
theorem balancedPriority_eq {node : TuSchedNode} (hbar : node.isBarrier = false) (h : Classified node) :
    balancedPriority node =
      if node.isCompute = true ∧ node.writesSram = true then 3 else (documentedClass node : Int) := by
  obtain ⟨hcompute, hwrites⟩ := h
  unfold balancedPriority documentedClass TuSchedNode.isLoad
  rw [hbar]
  revert hcompute hwrites
  cases node.isDma <;> cases node.isCompute <;> cases node.writesSram <;> simp

theorem balancedPriority_le {node : TuSchedNode} (hbar : node.isBarrier = false) :
    balancedPriority node ≤ 3 ∧ (balancedPriority node = 3 ↔ node.writesSram = true) := by
  unfold balancedPriority
  rw [hbar]
  cases node.isDma <;> cases node.isCompute <;> cases node.writesSram <;> simp

theorem documentedClass_le {node : TuSchedNode} (hload : node.isLoad = false) :
    documentedClass node ≤ 2 ∧ (documentedClass node = 2 ↔ node.isCompute = true) := by
  unfold documentedClass
  rw [hload]
  cases node.isDma <;> cases node.isCompute <;> simp

theorem documentedClass_compute {node : TuSchedNode} (h : Classified node) (hcompute : node.isCompute = true) :
    documentedClass node = 2 := by
  unfold documentedClass TuSchedNode.isLoad
  rw [h.compute hcompute, hcompute]
  rfl

theorem isLoad_iff {node : TuSchedNode} : node.isLoad = true ↔ documentedClass node = 3 := by
  unfold documentedClass
  cases node.isLoad <;> cases node.isDma <;> cases node.isCompute <;> simp

/-! ### The policies -/

/-- The earliest cycle ranks as documented. -/
theorem before_iff_asap (hpolicy : g.config.policy = .asap) (k m : Nat) : g.Before k m ↔ g.Prefers k m := by
  unfold Before Prefers priority
  rw [hpolicy]
  dsimp only
  omega

/-- The latest cycle ranks the other way round. -/
theorem forall_before_iff_alap (hpolicy : g.config.policy = .alap) (hk : g.Open past k)
    (hbest : ∀ m, g.Open past m → g.Prefers k m) :
    (∀ m, g.Open past m → g.Before k m) ↔
      ∀ a b, g.Open past a → g.Open past b → g.alapCycle a = g.alapCycle b := by
  have hprefers : ∀ m, g.Prefers k m ↔ g.alapCycle m < g.alapCycle k ∨ g.alapCycle m = g.alapCycle k ∧ k ≤ m := by
    intro m
    unfold Prefers priority
    rw [hpolicy]
  have hbefore : ∀ m, g.Before k m ↔ g.alapCycle k < g.alapCycle m ∨ g.alapCycle k = g.alapCycle m ∧ k ≤ m := by
    intro m
    unfold Before
    rw [hpolicy]
  constructor
  · intro h
    have heq : ∀ m, g.Open past m → g.alapCycle m = g.alapCycle k := fun m hm => by
      have hcode := (hprefers m).1 (hbest m hm)
      have hdoc := (hbefore m).1 (h m hm)
      omega
    exact fun a b ha hb => (heq a ha).trans (heq b hb).symm
  · intro h m hm
    have heq := h k m hk hm
    have hcode := (hprefers m).1 (hbest m hm)
    exact (hbefore m).2 (by omega)

/-- What the balanced policy picks is documented unless a compute instruction counted as a load. -/
theorem forall_before_iff_balanced (hpolicy : g.config.policy = .balanced ∨ g.config.policy = .count)
    (hclass : ∀ i, Classified (g.nodes i)) (hk : g.Open past k) (hbest : ∀ m, g.Open past m → g.Prefers k m) :
    (∀ m, g.Open past m → g.Before k m) ↔
      ∀ c, g.Open past c → (g.nodes c).writesSram = true → (g.nodes c).isCompute = true →
        (∀ m, g.Open past m → (g.nodes m).writesSram = true → c ≤ m) →
        ∀ m, g.Open past m → (g.nodes m).isLoad = false ∧ ((g.nodes m).isCompute = true → c ≤ m) := by
  have hprio : ∀ i, g.priority i = balancedPriority (g.nodes i) := by
    intro i
    unfold priority
    rcases hpolicy with h | h <;> rw [h]
  have hbefore : ∀ m, g.Before k m ↔ documentedClass (g.nodes m) < documentedClass (g.nodes k) ∨
      documentedClass (g.nodes m) = documentedClass (g.nodes k) ∧ k ≤ m := by
    intro m
    unfold Before
    rcases hpolicy with h | h <;> rw [h]
  have hprefers : ∀ m, g.Open past m → balancedPriority (g.nodes m) < balancedPriority (g.nodes k) ∨
      balancedPriority (g.nodes m) = balancedPriority (g.nodes k) ∧ k ≤ m := fun m hm => by
    have h := hbest m hm
    unfold Prefers at h
    rwa [hprio, hprio] at h
  obtain ⟨htop, hwriter⟩ := balancedPriority_le hk.2
  constructor
  · intro h c hc hwrites hcompute hfirst m hm
    -- the pass picks the first instruction that writes a scratchpad
    have hkc : k = c := by
      have hthree := (balancedPriority_le hc.2).2.2 hwrites
      have hpref := hprefers c hc
      have hle := hfirst k hk (hwriter.1 (by omega))
      omega
    have hdoc := (hbefore m).1 (h m hm)
    rw [hkc, documentedClass_compute (hclass c) hcompute] at hdoc
    have hload : (g.nodes m).isLoad = false := by
      rw [← Bool.not_eq_true, isLoad_iff]
      omega
    refine ⟨hload, fun hmc => ?_⟩
    have htwo := (documentedClass_le hload).2.2 hmc
    omega
  · intro h m hm
    have hpref := hprefers m hm
    rw [hbefore]
    by_cases hcounted : (g.nodes k).isCompute = true ∧ (g.nodes k).writesSram = true
    · -- the pick is a compute instruction that counts as a load
      have hthree := hwriter.2 hcounted.2
      obtain ⟨hload, hcompute⟩ := h k hk hcounted.2 hcounted.1 (fun w hw hwrites => by
        have hw3 := (balancedPriority_le hw.2).2.2 hwrites
        have hpw := hprefers w hw
        omega) m hm
      obtain ⟨hle, htwo⟩ := documentedClass_le hload
      rw [documentedClass_compute (hclass k) hcounted.1]
      rcases Nat.lt_or_eq_of_le hle with hlt | heq
      · exact Or.inl hlt
      · exact Or.inr ⟨heq, hcompute (htwo.1 heq)⟩
    · have hkrank := balancedPriority_eq hk.2 (hclass k)
      rw [if_neg hcounted] at hkrank
      have hmrank := balancedPriority_eq hm.2 (hclass m)
      split at hmrank
      · rename_i hcompute
        have htwo := documentedClass_compute (hclass m) hcompute.1
        omega
      · omega

/-! ### One pick -/

/-- A pick is the documented one exactly if nothing that is ranked differently matters. -/
theorem Picks.documented_iff (h : g.Picks past k) (hclass : ∀ i, Classified (g.nodes i)) :
    g.Documented past k ↔ g.Undisturbed past := by
  by_cases hopen : ∃ m, g.Open past m
  · have hsync := h.open_iff hopen
    have hbest : ∀ m, g.Open past m → g.Prefers k m := fun m hm => (h.best m hm.queued).2
    constructor
    · intro hdoc
      obtain ⟨hk, hbefore⟩ := hdoc hopen
      exact ⟨fun _ => hsync.1 hk, fun hpolicy => (forall_before_iff_alap hpolicy hk hbest).1 hbefore,
        fun hpolicy => (forall_before_iff_balanced hpolicy hclass hk hbest).1 hbefore⟩
    · intro hun _
      have hk := hsync.2 (hun.sync hopen)
      refine ⟨hk, ?_⟩
      cases hpolicy : g.config.policy with
      | asap => exact fun m hm => (before_iff_asap hpolicy k m).2 (hbest m hm)
      | alap => exact (forall_before_iff_alap hpolicy hk hbest).2 (hun.alap hpolicy)
      | balanced => exact (forall_before_iff_balanced (Or.inl hpolicy) hclass hk hbest).2 (hun.balanced (Or.inl hpolicy))
      | count => exact (forall_before_iff_balanced (Or.inr hpolicy) hclass hk hbest).2 (hun.balanced (Or.inr hpolicy))
  · exact iff_of_true (fun hc => absurd hc hopen)
      ⟨fun hc => absurd hc hopen, fun _ a _ ha => absurd ⟨a, ha⟩ hopen, fun _ c hc => absurd ⟨c, hc⟩ hopen⟩

end TuSchedGraph

open TuSchedGraph

private theorem not_isDmaOp_of_isComputeOp {op : UInt8} (h : isComputeOp op = true) : isDmaOp op = false := by
  have hcode : ∀ code : Fin 256, isComputeOp (UInt8.ofFin code) = true → isDmaOp (UInt8.ofFin code) = false := by
    decide +kernel
  exact hcode op.toFin h

/-- What the pass makes of an instruction. -/
theorem classified_schedNode (instr : TuInstruction) : Classified (schedNode instr) := by
  refine ⟨not_isDmaOp_of_isComputeOp, fun hwrites => ?_⟩
  by_contra hnone
  simp only [not_or, Bool.not_eq_true] at hnone
  have haccess : (schedNode instr).access = {} := by
    show tuSchedAnalyzeAccess instr = {}
    unfold tuSchedAnalyzeAccess
    rw [show isDmaOp instr.opcode = false from hnone.1, show isComputeOp instr.opcode = false from hnone.2]
    rfl
  unfold TuSchedNode.writesSram at hwrites
  rw [haccess] at hwrites
  cases hwrites

/-- Every step of every schedule emits the documented instruction exactly if nothing that the pass ranks differently
matters there. -/
theorem tuSchedRun_documented (instrs : List TuInstruction) (config : Option TuSchedConfig) (hpos : instrs ≠ [])
    (hlen : instrs.length ≤ tuSchedMaxInstrs) :
    ∃ g result, tuSchedBuildDag instrs config = some g ∧ tuSchedRun instrs config = some result ∧
      result.order.Perm (List.range instrs.length) ∧
      result.instructions = result.order.map (fun i => instrs.getD i default) ∧
      ∀ past k rest, result.order = past ++ k :: rest →
        ((tuSchedComputeMobility g).Documented past k ↔ (tuSchedComputeMobility g).Undisturbed past) := by
  obtain ⟨g, hg⟩ : ∃ g, tuSchedBuildDag instrs config = some g := ⟨_, if_neg (Nat.not_lt.2 hlen)⟩
  obtain ⟨result, hrun, ⟨reported, rfl⟩, -, hperm, hinstr, -⟩ := tuSchedRun_built hg hpos
  have hsched := @scheduled_of_built _ _ _ hg reported
  refine ⟨g, _, hg, hrun, hperm, hinstr, fun past k rest hsplit => ?_⟩
  refine (hsched.picks past k rest hsplit).documented_iff fun i => ?_
  rw [hsched.nodes]
  exact classified_schedNode _

/-- A load and a product in order. -/
theorem tuSchedRun_documented_load_mma :
    let instrs : List TuInstruction :=
      [{ opcode := TuIsa.dmaLoad, dim0 := 0, dim1 := 8 }, { opcode := TuIsa.mma, dim0 := 2, dim1 := 2, dim2 := 2 }]
    ∃ g result, tuSchedBuildDag instrs none = some g ∧ tuSchedRun instrs none = some result ∧
      result.order.Perm (List.range instrs.length) ∧
      result.instructions = result.order.map (fun i => instrs.getD i default) ∧
      ∀ past k rest, result.order = past ++ k :: rest →
        ((tuSchedComputeMobility g).Documented past k ↔ (tuSchedComputeMobility g).Undisturbed past) :=
  tuSchedRun_documented _ none (List.cons_ne_nil _ _) (by decide)

/-- As late as possible, a load that nothing waits for is emitted before the load of a product, whose latest cycle is
the smaller one. -/
theorem tuSchedRun_undocumented :
    let instrs : List TuInstruction :=
      [{ opcode := TuIsa.dmaLoad, dim0 := 0, dim1 := 8 }, { opcode := TuIsa.dmaLoad, dim0 := 100, dim1 := 8 },
        { opcode := TuIsa.mma, dim0 := 2, dim1 := 2, dim2 := 2 }]
    let config : Option TuSchedConfig := some { tuSchedConfigDefault with policy := .alap }
    ¬ ∀ g result, tuSchedBuildDag instrs config = some g → tuSchedRun instrs config = some result →
      ∀ past k rest, result.order = past ++ k :: rest → (tuSchedComputeMobility g).Documented past k := by
  intro instrs config hall
  have horder : (tuSchedRun instrs config).map (·.order) = some [1, 0, 2] := by decide +kernel
  have hgraph : (tuSchedBuildDag instrs config).map (fun g =>
      ((tuSchedComputeMobility g).preds 0, (tuSchedComputeMobility g).alapCycle 0,
        (tuSchedComputeMobility g).alapCycle 1)) = some ([], 0, 1) := by decide +kernel
  obtain ⟨result, hrun, horder⟩ := Option.map_eq_some_iff.1 horder
  obtain ⟨g, hg, hgraph⟩ := Option.map_eq_some_iff.1 hgraph
  obtain ⟨hpreds, halap0, halap1⟩ : (tuSchedComputeMobility g).preds 0 = [] ∧
      (tuSchedComputeMobility g).alapCycle 0 = 0 ∧ (tuSchedComputeMobility g).alapCycle 1 = 1 := by
    simpa only [Prod.mk.injEq] using hgraph
  obtain ⟨hnum, hnodes, -, hconfig⟩ := computeMobility_built hg
  have hopen : (tuSchedComputeMobility g).Open [] 0 := by
    refine ⟨⟨by rw [hnum]; decide, List.not_mem_nil, ?_⟩, ?_⟩
    · rw [hpreds]
      exact fun p hp => hp
    · rw [hnodes]
      decide
  have hbefore := (hall g result hg hrun [] 1 [0, 2] horder ⟨0, hopen⟩).2 0 hopen
  unfold Before at hbefore
  rw [hconfig] at hbefore
  have hbefore : (tuSchedComputeMobility g).alapCycle 1 < (tuSchedComputeMobility g).alapCycle 0 ∨
      (tuSchedComputeMobility g).alapCycle 1 = (tuSchedComputeMobility g).alapCycle 0 ∧ 1 ≤ 0 := hbefore
  omega

end Tusim
