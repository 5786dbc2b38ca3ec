import Tusim.Isa.Picking

/-!
# Scheduling and synchronisation

A synchronisation instruction waits for the instructions before it, but nothing waits for it: the pass records no
edge to later instructions.  A program whose synchronisation instructions are its last instructions, each covered
by recorded dependences, keeps them in place; in any other program some configuration moves an instruction across
(`tuSchedRun_keepsSync`).
-/

namespace Tusim

open Emission History

/-- Instruction `i` is a synchronisation point. -/
def isSync (instrs : List TuInstruction) (i : Nat) : Bool := isBarrierOp (instrs.getD i default).opcode

/-- No instruction crosses a synchronisation instruction, and these keep their order. -/
def KeepsSync (instrs : List TuInstruction) (order : List Nat) : Prop :=
  ∀ i j, i < j → j < instrs.length → (isSync instrs i = true ∨ isSync instrs j = true) → Precedes order i j

/-- After a synchronisation instruction there are only others. -/
def SyncLast (instrs : List TuInstruction) : Prop :=
  ∀ i j, i < j → j < instrs.length → isSync instrs i = true → isSync instrs j = true

/-- A chain of dependences that find room leads from every other instruction to every later synchronisation
instruction. -/
def SyncCovered (instrs : List TuInstruction) : Prop :=
  ∀ i j, i < j → j < instrs.length → isSync instrs i = false → isSync instrs j = true →
    Relation.TransGen (Recordable (schedNodes instrs)) i j

/-! ### A run of the pass -/

/-- What a run of the pass does with its graph. -/
structure Scheduled (instrs : List TuInstruction) (config : Option TuSchedConfig) (g : TuSchedGraph)
    (order : List Nat) : Prop where
  dag : g.Dag
  estimated : g.Estimated
  num : g.numNodes = instrs.length
  nodes : g.nodes = schedNodes instrs
  config_eq : g.config = config.getD tuSchedConfigDefault
  depends : ∀ p k, p ∈ g.preds k → Depends (schedNodes instrs) p k = true
  complete : ∀ p k, k < instrs.length → Recordable (schedNodes instrs) p k → p ∈ g.preds k
  perm : order.Perm (List.range instrs.length)
  picks : Everywhere g.Picks order

theorem scheduled_of_built {instrs : List TuInstruction} {config : Option TuSchedConfig} {g : TuSchedGraph}
    (hg : tuSchedBuildDag instrs config = some g) {reported : TuSchedResult} :
    Scheduled instrs config (tuSchedComputeMobility g) (listSchedule (tuSchedComputeMobility g) reported).order := by
  have hrec := TuSchedGraph.buildDag_recorded hg
  have hdag : g.Dag := hrec.dag
  have hlen := buildDag_length hg
  have hestimated := TuSchedGraph.computeMobility_estimated hdag
  obtain ⟨hnum, hnodes, hpreds, hconfig⟩ := computeMobility_built hg
  have hprio : ∀ k, k < (tuSchedComputeMobility g).numNodes → -2 ^ 31 ≤ (tuSchedComputeMobility g).priority k :=
    fun k hk => hestimated.priority_ge (by rw [hnum]; exact hlen) hk
  obtain ⟨-, hperm, -⟩ := listSchedule_order hdag.mobility reported
  rw [hnum] at hperm
  refine ⟨hdag.mobility, hestimated, hnum, hnodes, hconfig, fun p k hp => ?_, fun p k hk hr => ?_, hperm,
    listSchedule_picks hdag.mobility (by rw [hnum]; exact hlen) hprio reported⟩
  · rw [hpreds] at hp
    exact (hrec.edge p k ((hrec.sym p k).2 hp)).2.1
  · rw [hpreds]
    exact (hrec.sym p k).1 (hrec.complete p k hr.1 hr.2.1 (Or.inl hk) hr.2.2)

theorem tuSchedRun_scheduled (instrs : List TuInstruction) (config : Option TuSchedConfig) (hpos : instrs ≠ [])
    (hlen : instrs.length ≤ tuSchedMaxInstrs) :
    ∃ result g, tuSchedRun instrs config = some result ∧ Scheduled instrs config g result.order := by
  obtain ⟨g, hg⟩ : ∃ g, tuSchedBuildDag instrs config = some g := ⟨_, if_neg (Nat.not_lt.2 hlen)⟩
  obtain ⟨result, hrun, ⟨reported, rfl⟩, -⟩ := tuSchedRun_built hg hpos
  exact ⟨_, _, hrun, scheduled_of_built hg⟩

namespace Scheduled

variable {instrs : List TuInstruction} {config : Option TuSchedConfig} {g : TuSchedGraph} {order : List Nat}

theorem isBarrier (h : Scheduled instrs config g order) (k : Nat) : (g.nodes k).isBarrier = isSync instrs k := by
  rw [h.nodes]
  rfl

theorem nodup (h : Scheduled instrs config g order) : order.Nodup := h.perm.nodup_iff.2 List.nodup_range

/-- Nothing waits for a synchronisation instruction. -/
theorem not_sync_pred (h : Scheduled instrs config g order) {p k : Nat} (hp : p ∈ g.preds k) :
    isSync instrs p = false := by
  have hdep := h.depends p k hp
  unfold Depends at hdep
  simp only [Bool.and_eq_true, Bool.not_eq_true'] at hdep
  exact hdep.1

/-- The schedule split at a node. -/
theorem split (h : Scheduled instrs config g order) {k : Nat} (hk : k < instrs.length) :
    ∃ past rest, order = past ++ k :: rest ∧ g.Picks past k := by
  obtain ⟨past, rest, hsplit⟩ := List.append_of_mem (h.perm.mem_iff.2 (List.mem_range.2 hk))
  exact ⟨past, rest, hsplit, h.picks past k rest hsplit⟩

theorem closed (h : Scheduled instrs config g order) : Closed (fun a b => a ∈ g.preds b) order := by
  intro b hb a ha
  obtain ⟨past, rest, hsplit, hpick⟩ := h.split (List.mem_range.1 (h.perm.mem_iff.1 hb))
  rw [hsplit]
  exact precedes_of_mem (hpick.free.preds a ha) b rest

theorem precedes (h : Scheduled instrs config g order) {i j : Nat}
    (hchain : Relation.TransGen (Recordable (schedNodes instrs)) i j) (hj : j < instrs.length) : Precedes order i j :=
  precedes_of_chain h.complete h.perm h.closed hchain hj

/-- A chain ends with a recorded predecessor. -/
theorem preds_ne_nil (h : Scheduled instrs config g order) {i j : Nat}
    (hchain : Relation.TransGen (Recordable (schedNodes instrs)) i j) (hj : j < instrs.length) : g.preds j ≠ [] := by
  cases hchain with
  | single hr => exact List.ne_nil_of_mem (h.complete _ j hj hr)
  | tail _ hr => exact List.ne_nil_of_mem (h.complete _ j hj hr)

/-- The estimates grow along a chain. -/
theorem asap_chain (h : Scheduled instrs config g order) {i j : Nat}
    (hchain : Relation.TransGen (Recordable (schedNodes instrs)) i j) (hj : j < instrs.length) :
    g.asapCycle i + (g.nodes i).cycles ≤ g.asapCycle j := by
  have hstep : ∀ p k, k < instrs.length → Recordable (schedNodes instrs) p k →
      g.asapCycle p + (g.nodes p).cycles ≤ g.asapCycle k := fun p k hk hr =>
    h.estimated.asap_pred k p (by rw [h.num]; exact hk) (h.complete p k hk hr)
  induction hchain with
  | single hr => exact hstep i _ hj hr
  | @tail p k _ hr ih =>
    have hp := ih (Nat.lt_trans hr.1 hj)
    have hk := hstep p k hj hr
    omega

/-! ### Synchronisation at the end -/

/-- Covered synchronisation instructions at the end have one priority. -/
private theorem priority_eq (h : Scheduled instrs config g order) (hlast : SyncLast instrs) (hcov : SyncCovered instrs)
    {i j : Nat} (hij : i < j) (hj : j < instrs.length) (hi : isSync instrs i = true) (hne : g.preds i ≠ []) :
    g.priority i = g.priority j := by
  have hilt := Nat.lt_trans hij hj
  have hj' := hlast i j hij hj hi
  unfold TuSchedGraph.priority
  split
  · -- the longest chain to either comes from the same instruction
    obtain ⟨p, hp, hpi⟩ := h.estimated.asap_reached i (by rw [h.num]; exact hilt) hne
    have hplt := (h.dag.edge p i hp).1
    have hpj := hcov p j (Nat.lt_trans hplt hij) hj (h.not_sync_pred hp) hj'
    have hle := h.asap_chain hpj hj
    obtain ⟨q, hq, hqj⟩ := h.estimated.asap_reached j (by rw [h.num]; exact hj) (h.preds_ne_nil hpj hj)
    have hqsync := h.not_sync_pred hq
    have hqlt : q < i := by
      by_contra hge
      rcases Nat.lt_or_eq_of_le (Nat.not_lt.1 hge) with hlt | rfl
      · rw [hlast i q hlt (Nat.lt_trans (h.dag.edge q j hq).1 hj) hi] at hqsync
        cases hqsync
      · rw [hi] at hqsync
        cases hqsync
    have hge := h.asap_chain (hcov q i hqlt hilt hqsync hi) hilt
    omega
  · -- nothing waits for either
    have hsink : ∀ k, isSync instrs k = true → g.succs k = [] := by
      intro k hk
      refine List.eq_nil_iff_forall_not_mem.2 fun c hc => ?_
      rw [h.not_sync_pred ((h.dag.sym k c).1 hc)] at hk
      cases hk
    exact h.estimated.alap_sink i j (by rw [h.num]; exact hilt) (by rw [h.num]; exact hj) (hsink i hi) (hsink j hj')
  all_goals
    unfold balancedPriority
    rw [h.isBarrier, h.isBarrier, hi, hj']
    rfl

/-- A schedule keeps covered synchronisation instructions at the end. -/
theorem keepsSync (h : Scheduled instrs config g order) (hlast : SyncLast instrs) (hcov : SyncCovered instrs) :
    KeepsSync instrs order := by
  intro i j hij hj hsync
  have hilt := Nat.lt_trans hij hj
  cases hi : isSync instrs i with
  | false =>
    have hj' : isSync instrs j = true := hsync.resolve_left (by rw [hi]; exact Bool.false_ne_true)
    exact h.precedes (hcov i j hij hj hi hj') hj
  | true =>
    have hj' := hlast i j hij hj hi
    obtain ⟨past, rest, hsplit, hpick⟩ := h.split hj
    have hn := h.nodup
    rw [hsplit] at hn ⊢
    by_cases hmem : i ∈ past
    · exact precedes_of_mem hmem j rest
    -- otherwise `i` could have been emitted, and it comes first
    exfalso
    have hfree : g.Free past i := by
      refine ⟨by rw [h.num]; exact hilt, hmem, fun p hp => ?_⟩
      have hchain := hcov p j (Nat.lt_trans (h.dag.edge p i hp).1 hij) hj (h.not_sync_pred hp) hj'
      have hprec := h.precedes hchain hj
      rw [hsplit] at hprec
      exact hprec.mem_past hn
    by_cases hnil : g.preds i = []
    · -- then the program has nothing but synchronisation instructions
      have hall : ∀ k, k < instrs.length → isSync instrs k = true := by
        intro k hk
        rcases Nat.lt_trichotomy k i with hlt | rfl | hlt
        · by_contra hno
          rw [Bool.not_eq_true] at hno
          exact h.preds_ne_nil (hcov k i hlt hilt hno hi) hilt hnil
        · exact hi
        · exact hlast i k hlt hk hi
      have hnone : ∀ m, ¬ g.Queued past m := by
        rintro m ⟨hm, hq⟩
        have hmlt : m < instrs.length := by
          rw [← h.num]
          exact hm.lt
        rw [h.isBarrier, hall m hmlt] at hq
        obtain ⟨p, hp⟩ := List.exists_mem_of_ne_nil _ (hq.resolve_left Bool.noConfusion)
        have hpsync := h.not_sync_pred hp
        rw [hall p (Nat.lt_trans (h.dag.edge p m hp).1 hmlt)] at hpsync
        cases hpsync
      have hle := hpick.first hnone i hfree
      omega
    · have hprefers := (hpick.best i ⟨hfree, Or.inr hnil⟩).2
      have hprio := h.priority_eq hlast hcov hij hj hi hnil
      unfold TuSchedGraph.Prefers at hprefers
      omega

/-! ### Synchronisation before other instructions -/

/-- What follows a synchronisation instruction and stays behind it is not emitted before it. -/
private theorem not_emitted (h : Scheduled instrs config g order) (hkeeps : KeepsSync instrs order) {b m : Nat}
    (hbm : b < m) (hm : m < instrs.length) (hb : isSync instrs b = true) {past rest : List Nat}
    (hsplit : order = past ++ b :: rest) : m ∉ past := by
  intro hmem
  have hn := h.nodup
  have hkept := hkeeps b m hbm hm (Or.inl hb)
  rw [hsplit] at hn hkept
  exact hkept.asymm hn (precedes_of_mem hmem b rest)

/-- If an instruction stays behind a synchronisation instruction, the latter is picked while some later instruction
waits for nothing. -/
private theorem exists_waiting (h : Scheduled instrs config g order) (hkeeps : KeepsSync instrs order) {b m : Nat}
    (hbm : b < m) (hm : m < instrs.length) (hb : isSync instrs b = true) (hmsync : isSync instrs m = false) :
    ∃ k, b < k ∧ k < instrs.length ∧ isSync instrs k = false ∧ g.Prefers b k := by
  have hblt := Nat.lt_trans hbm hm
  obtain ⟨past, rest, hsplit, hpick⟩ := h.split hblt
  have hmout := h.not_emitted hkeeps hbm hm hb hsplit
  have hn := h.nodup
  rw [hsplit] at hn
  -- the first other instruction that is left
  have hex : ∃ k, isSync instrs k = false ∧ k ∉ past := ⟨m, hmsync, hmout⟩
  obtain ⟨hksync, hkout⟩ := Nat.find_spec hex
  have hklt : Nat.find hex < instrs.length := Nat.lt_of_le_of_lt (Nat.find_min' hex ⟨hmsync, hmout⟩) hm
  have hfree : g.Free past (Nat.find hex) := by
    refine ⟨by rw [h.num]; exact hklt, hkout, fun p hp => ?_⟩
    by_contra hpout
    exact Nat.find_min hex (h.dag.edge p _ hp).1 ⟨h.not_sync_pred hp, hpout⟩
  obtain ⟨-, hprefers⟩ := hpick.best _ ⟨hfree, Or.inl (by rw [h.isBarrier]; exact hksync)⟩
  refine ⟨Nat.find hex, ?_, hklt, hksync, hprefers⟩
  -- an earlier one would have been kept before `b`
  rcases Nat.lt_trichotomy b (Nat.find hex) with hlt | heq | hgt
  · exact hlt
  · rw [← heq, hb] at hksync
    cases hksync
  · have hkept := hkeeps _ b hgt hblt (Or.inr hb)
    rw [hsplit] at hkept
    exact absurd (hkept.mem_past hn) hkout

end Scheduled

/-- What the balanced policy prefers least touches no scratchpad. -/
private theorem analyzeAccess_of_priority {instr : TuInstruction} (hbar : isBarrierOp instr.opcode = false)
    (h : balancedPriority (schedNode instr) ≤ 0) : tuSchedAnalyzeAccess instr = {} := by
  have hbar' : (schedNode instr).isBarrier = false := hbar
  unfold balancedPriority at h
  rw [hbar', if_neg Bool.false_ne_true] at h
  split at h
  · omega
  · split at h
    · omega
    · rename_i hcompute
      split at h
      · omega
      · rename_i hdma
        have hdma : isDmaOp instr.opcode = false := Bool.not_eq_true _ ▸ hdma
        have hcompute : isComputeOp instr.opcode = false := Bool.not_eq_true _ ▸ hcompute
        unfold tuSchedAnalyzeAccess
        rw [hdma, hcompute]
        rfl

/-- If every configuration keeps the synchronisation instructions in place, they are the last instructions. -/
private theorem syncLast_of_keeps {instrs : List TuInstruction} (hpos : instrs ≠ [])
    (hlen : instrs.length ≤ tuSchedMaxInstrs)
    (hkeeps : ∀ config, ∃ result, tuSchedRun instrs config = some result ∧ KeepsSync instrs result.order) :
    SyncLast instrs := by
  have hrun : ∀ config, ∃ g order, Scheduled instrs config g order ∧ KeepsSync instrs order := by
    intro config
    obtain ⟨result, hresult, hkept⟩ := hkeeps config
    obtain ⟨result', g, hresult', hsched⟩ := tuSchedRun_scheduled instrs config hpos hlen
    obtain rfl := Option.some.inj (hresult.symm.trans hresult')
    exact ⟨g, result.order, hsched, hkept⟩
  intro b m hbm hm hb
  by_contra hmsync
  rw [Bool.not_eq_true] at hmsync
  -- the balanced policy picks `b` while an instruction `k` waits: `k` touches no scratchpad
  obtain ⟨g, order, hsched, hkept⟩ := hrun none
  obtain ⟨k, hbk, hk, hksync, hprefers⟩ := hsched.exists_waiting hkept hbm hm hb hmsync
  have hbalanced : ∀ i, g.priority i = balancedPriority (g.nodes i) := by
    intro i
    unfold TuSchedGraph.priority
    rw [hsched.config_eq]
    rfl
  have hprio : balancedPriority (g.nodes k) ≤ 0 := by
    have hzero : balancedPriority (g.nodes b) = 0 := by
      unfold balancedPriority
      rw [hsched.isBarrier, hb]
      rfl
    unfold TuSchedGraph.Prefers at hprefers
    rw [hbalanced, hbalanced] at hprefers
    omega
  rw [hsched.nodes] at hprio
  have haccess : (schedNodes instrs k).access = {} := analyzeAccess_of_priority hksync hprio
  -- so as soon as possible `k` comes first
  obtain ⟨g', order', hsched', hkept'⟩ := hrun (some { tuSchedConfigDefault with policy := .asap })
  have hblt := Nat.lt_trans hbm hm
  obtain ⟨past, rest, hsplit, hpick⟩ := hsched'.split hblt
  have hnil : g'.preds k = [] := by
    refine List.eq_nil_iff_forall_not_mem.2 fun p hp => ?_
    have hdep := hsched'.depends p k hp
    have hbar : (schedNodes instrs k).isBarrier = false := hksync
    unfold Depends hasDependency TuSramRegionId.all at hdep
    rw [hbar, haccess] at hdep
    simp at hdep
  have hfree : g'.Free past k := by
    refine ⟨by rw [hsched'.num]; exact hk, hsched'.not_emitted hkept' hbk hk hb hsplit, ?_⟩
    rw [hnil]
    exact fun p hp => absurd hp List.not_mem_nil
  obtain ⟨hqueued, hprefers'⟩ := hpick.best k ⟨hfree, Or.inl (by rw [hsched'.isBarrier]; exact hksync)⟩
  have hbne : g'.preds b ≠ [] := hqueued.2.resolve_left (by rw [hsched'.isBarrier, hb]; exact Bool.noConfusion)
  have hbnum : b < g'.numNodes := by rw [hsched'.num]; exact hblt
  obtain ⟨p, hp, hpb⟩ := hsched'.estimated.asap_reached b hbnum hbne
  have hpos := hsched'.estimated.asap_nonneg p (Nat.lt_trans (hsched'.dag.edge p b hp).1 hbnum)
  have hcycles := (TuSchedGraph.cycles_pos (g'.nodes p)).1
  have hkzero := hsched'.estimated.asap_source k (by rw [hsched'.num]; exact hk) hnil
  have hasap : ∀ i, g'.priority i = -g'.asapCycle i := by
    intro i
    unfold TuSchedGraph.priority
    rw [hsched'.config_eq]
    rfl
  unfold TuSchedGraph.Prefers at hprefers'
  rw [hasap, hasap] at hprefers'
  omega

/-- Synchronisation instructions at the end of a program that recorded dependences cover keep their place under every
configuration; if all configurations keep them, they are at the end. -/
theorem tuSchedRun_keepsSync (instrs : List TuInstruction) (hpos : instrs ≠ [])
    (hlen : instrs.length ≤ tuSchedMaxInstrs) :
    (SyncLast instrs ∧ SyncCovered instrs →
        ∀ config, ∃ result, tuSchedRun instrs config = some result ∧ KeepsSync instrs result.order) ∧
      ((∀ config, ∃ result, tuSchedRun instrs config = some result ∧ KeepsSync instrs result.order) →
        SyncLast instrs) := by
  refine ⟨fun ⟨hlast, hcov⟩ config => ?_, syncLast_of_keeps hpos hlen⟩
  obtain ⟨result, g, hrun, hsched⟩ := tuSchedRun_scheduled instrs config hpos hlen
  exact ⟨result, hrun, hsched.keepsSync hlast hcov⟩

/-- A load and a product before two synchronisation instructions. -/
theorem tuSchedRun_keepsSync_load_mma :
    let instrs : List TuInstruction :=
      [{ opcode := TuIsa.dmaLoad, dim1 := 8 }, { opcode := TuIsa.mma, dim0 := 2, dim1 := 2, dim2 := 2 },
        { opcode := TuIsa.barrier }, { opcode := TuIsa.sync }]
    ∀ config, ∃ result, tuSchedRun instrs config = some result ∧ KeepsSync instrs result.order := by
  intro instrs
  have hlen : instrs.length = 4 := rfl
  refine (tuSchedRun_keepsSync instrs (List.cons_ne_nil _ _) (by decide)).1
    ⟨fun i j hij hj hi => ?_, fun i j hij hj hi hj' => ?_⟩
  · obtain rfl | rfl | ⟨rfl, rfl⟩ : i = 0 ∨ i = 1 ∨ i = 2 ∧ j = 3 := by omega
    · exact absurd hi (by decide)
    · exact absurd hi (by decide)
    · decide
  · refine Relation.TransGen.single ?_
    obtain ⟨rfl, rfl⟩ | ⟨rfl, rfl⟩ | ⟨rfl, rfl⟩ | ⟨rfl, rfl⟩ | ⟨rfl, rfl⟩ | rfl : i = 0 ∧ j = 1 ∨ i = 0 ∧ j = 2 ∨
        i = 0 ∧ j = 3 ∨ i = 1 ∧ j = 2 ∨ i = 1 ∧ j = 3 ∨ i = 2 := by omega
    · exact absurd hj' (by decide)
    · exact ⟨by decide, by decide, by decide⟩
    · exact ⟨by decide, by decide, by decide⟩
    · exact ⟨by decide, by decide, by decide⟩
    · exact ⟨by decide, by decide, by decide⟩
    · exact absurd hi (by decide)

/-- A load after a barrier is emitted before it. -/
theorem tuSchedRun_crosses_barrier :
    let instrs : List TuInstruction := [{ opcode := TuIsa.barrier }, { opcode := TuIsa.dmaLoad, dim1 := 8 }]
    ¬ ∃ result, tuSchedRun instrs none = some result ∧ KeepsSync instrs result.order := by
  intro instrs
  rintro ⟨result, hrun, hkeeps⟩
  have horder : (tuSchedRun instrs none).map (·.order) = some [1, 0] := by decide +kernel
  rw [hrun] at horder
  have horder : result.order = [1, 0] := Option.some.inj horder
  have hkept := hkeeps 0 1 (by decide) (by decide) (Or.inl (by decide))
  rw [horder] at hkept
  exact absurd hkept (by unfold Precedes; decide)

end Tusim
