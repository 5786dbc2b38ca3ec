import Tusim.Isa.LiveRanges

/-!
# Which reads the live ranges cover

A register lives until the last use the analysis attaches to it, and every use is attached to the latest definition
of its region (`Justified`).  So a read is covered exactly when the allocator decodes the writer's definition and
finds a use of the region at the read or later, with no other definition of the region in between
(`coversUses_iff`).  The definition of an instruction counts before its own uses.
-/

namespace Tusim

/-- `j` reads byte `x` of the region and `i` is the last instruction before `j` that writes it. -/
def LastWriter (instrs : List TuInstruction) (i j : Nat) (region : TuSramRegionId) (x : Nat) : Prop :=
  i < j ∧ j < instrs.length ∧ (tuSchedAnalyzeAccess (instrs.getD i default)).WritesByte region x ∧
    (tuSchedAnalyzeAccess (instrs.getD j default)).ReadsByte region x ∧
    ∀ k, i < k → k < j → ¬ (tuSchedAnalyzeAccess (instrs.getD k default)).WritesByte region x

/-- The register of the writer of every byte that is read lives until the read. -/
def CoversUses (instrs : List TuInstruction) (vs : List TuVreg) : Prop :=
  ∀ i j region x, LastWriter instrs i j region x →
    ∃ v ∈ vs, v.firstDef = i ∧ v.region = region ∧ (j : Int) ≤ v.lastUse

/-- The allocator decodes a definition of the region at `i` and, at `j` or later, a use of the region with no other
definition of it in between. -/
def KeptAlive (instrs : List TuInstruction) (i j : Nat) (region : TuSramRegionId) : Prop :=
  definesRegion (instrs.getD i default) region = true ∧
    ∃ j', j ≤ j' ∧ j' < instrs.length ∧ (∃ u ∈ extractVregUses (instrs.getD j' default), u.region = region) ∧
      ∀ k, i < k → k ≤ j' → definesRegion (instrs.getD k default) region = false

/-! ### What extends a live range -/

/-- A register outlives its definition only because of a use with no definition of the region in between. -/
def Justified (instrs : List TuInstruction) (n : Nat) (vs : List TuVreg) : Prop :=
  ∀ v ∈ vs, 0 ≤ v.firstDef → v.lastUse = v.firstDef ∨
    ∃ j, j < n ∧ v.lastUse = j ∧ (∃ u ∈ extractVregUses (instrs.getD j default), u.region = v.region) ∧
      ∀ k : Nat, v.firstDef < k → k ≤ j → definesRegion (instrs.getD k default) v.region = false

theorem Justified.mono {instrs : List TuInstruction} {m n : Nat} {vs : List TuVreg} (h : Justified instrs m vs)
    (hmn : m ≤ n) : Justified instrs n vs := by
  intro v hv hpos
  rcases h v hv hpos with heq | ⟨j, hj, hrest⟩
  · exact Or.inl heq
  · exact Or.inr ⟨j, by omega, hrest⟩

/-- A new register lives only at its definition. -/
private theorem justified_createVreg {instrs : List TuInstruction} {n : Nat} {vs : List TuVreg}
    (h : Justified instrs n vs) (u : TuOperand) {d l : Int} (hdl : 0 ≤ d → l = d) :
    Justified instrs n (createVreg vs u d l) := by
  unfold createVreg
  split
  · exact h
  · intro v hv hpos
    rw [List.mem_append, List.mem_singleton] at hv
    rcases hv with hv | rfl
    · exact h v hv hpos
    · exact Or.inl (hdl hpos)

/-- Every definition up to `n` has a register. -/
def Registered (instrs : List TuInstruction) (n : Nat) (vs : List TuVreg) : Prop :=
  ∀ k region, k ≤ n → definesRegion (instrs.getD k default) region = true →
    ∃ v ∈ vs, v.region = region ∧ v.firstDef = k

private theorem justified_use {instrs : List TuInstruction} {n : Nat} {vs : List TuVreg}
    (h : Justified instrs (n + 1) vs) (hasc : InDefOrder (vs.map TuVreg.key)) (hreg : Registered instrs n vs)
    {u : TuOperand} (hu : u ∈ extractVregUses (instrs.getD n default)) :
    Justified instrs (n + 1) (findOrCreateVreg vs u n false) := by
  unfold findOrCreateVreg
  rw [if_neg Bool.false_ne_true]
  cases hrecent : recentVreg vs u.region with
  | none => exact justified_createVreg h u (by omega)
  | some k =>
    obtain ⟨hk, hr, hpos, hmax⟩ := recentVreg_max hasc hrecent
    intro v hv hvpos
    obtain ⟨q, hq, rfl⟩ := List.mem_iff_getElem.1 hv
    rw [List.length_modify] at hq
    rw [List.getElem_modify] at hvpos ⊢
    by_cases hkq : k = q
    · subst hkq
      rw [if_pos rfl] at hvpos ⊢
      by_cases hle : (n : Int) > vs[k].lastUse
      · right
        have hlast : (vs[k].use n).lastUse = n := if_pos hle
        refine ⟨n, Nat.lt_succ_self n, hlast, ⟨u, hu, hr.symm⟩, fun m hm hmn => ?_⟩
        -- a later definition of the region would be the most recent one
        by_contra hdef
        rw [Bool.not_eq_false] at hdef
        obtain ⟨w, hw, hwr, hwd⟩ := hreg m (vs[k].use n).region hmn hdef
        have hwmax := hmax w hw (hwr.trans hr) (by omega)
        have hm : vs[k].firstDef < m := hm
        omega
      · have hlast : (vs[k].use n).lastUse = vs[k].lastUse := if_neg hle
        have hold := h vs[k] (List.getElem_mem hk) hpos
        rw [hlast]
        exact hold
    · rw [if_neg hkq] at hvpos ⊢
      exact h vs[q] (List.getElem_mem hq) hvpos

private theorem Registered.grows {instrs : List TuInstruction} {n : Nat} {vs vs' : List TuVreg}
    (h : Registered instrs n vs) (hgrow : Grows vs vs') : Registered instrs n vs' := by
  intro k region hk hdef
  obtain ⟨v, hv, hr, hd⟩ := h k region hk hdef
  obtain ⟨v', hv', hkey, -⟩ := hgrow v hv
  exact ⟨v', hv', (congrArg (·.1) hkey).trans hr, (congrArg (·.2.2) hkey).trans hd⟩

/-- A use adds at most an implicit register. -/
private theorem inDefOrder_findOrCreate {vs : List TuVreg} (hasc : InDefOrder (vs.map TuVreg.key)) (u : TuOperand)
    (i : Int) : InDefOrder ((findOrCreateVreg vs u i false).map TuVreg.key) := by
  unfold findOrCreateVreg
  rw [if_neg Bool.false_ne_true]
  cases recentVreg vs u.region with
  | some k =>
    dsimp only
    rwa [map_modify_of_eq (fun v => TuVreg.key_use v i) vs k]
  | none =>
    dsimp only
    unfold createVreg
    split
    · exact hasc
    · rw [List.map_append]
      exact inDefOrder_append_implicit hasc rfl

private theorem justified_uses {instrs : List TuInstruction} {n : Nat} {uses : List TuOperand}
    (hsub : ∀ u ∈ uses, u ∈ extractVregUses (instrs.getD n default)) {vs : List TuVreg}
    (h : Justified instrs (n + 1) vs) (hasc : InDefOrder (vs.map TuVreg.key)) (hreg : Registered instrs n vs) :
    Justified instrs (n + 1) (analyzeUses vs uses n) := by
  induction uses generalizing vs with
  | nil => exact h
  | cons u uses ih =>
    have hnext := justified_use h hasc hreg (hsub u (List.mem_cons_self ..))
    exact ih (fun x hx => hsub x (List.mem_cons_of_mem u hx)) hnext (inDefOrder_findOrCreate hasc u n)
      (hreg.grows (grows_findOrCreate vs u n false))

private theorem justified_def {instrs : List TuInstruction} {n : Nat} {vs : List TuVreg} (h : Justified instrs n vs)
    (instr : TuInstruction) : Justified instrs n (analyzeDef vs instr n) := by
  unfold analyzeDef
  cases extractVregDef instr with
  | none => exact h
  | some d => exact justified_createVreg h d (fun _ => rfl)

theorem Justified.step {instrs : List TuInstruction} {n : Nat} {vs : List TuVreg} (h : Justified instrs n vs)
    (hvs : Analyzed instrs n vs) (hroom : (demands instrs (n + 1)).length ≤ tuLiveMaxVregs) :
    Justified instrs (n + 1) (analyzeInstr vs (instrs.getD n default) n) := by
  have hlen := congrArg List.length hvs.keys
  rw [List.length_map] at hlen
  rw [demands_succ, List.length_append, List.length_append] at hroom
  have hdefine : vs.length + (defDemand instrs n).length ≤ tuLiveMaxVregs := by omega
  have hkey := analyzeDef_keys hdefine
  rw [hvs.keys] at hkey
  have hasc : InDefOrder ((analyzeDef vs (instrs.getD n default) n).map TuVreg.key) := by
    have hall := inDefOrder_demands instrs (n + 1)
    unfold InDefOrder at hall ⊢
    rw [demands_succ, List.pairwise_append] at hall
    rw [hkey]
    exact hall.1
  have hreg : Registered instrs n (analyzeDef vs (instrs.getD n default) n) := by
    intro k region hk hdef
    obtain ⟨d, hd, hr⟩ := definesRegion_iff.1 hdef
    obtain ⟨hx, hpos⟩ := mem_demands_def.2 ⟨k, d, Nat.lt_succ_of_le hk, hd, rfl⟩
    rw [demands_succ, List.mem_append] at hx
    have hx := hx.resolve_right fun hc => by
      have hneg := mem_useDemand hc
      dsimp only at hneg hpos
      omega
    rw [← hkey] at hx
    obtain ⟨v, hv, hvk⟩ := List.mem_map.1 hx
    exact ⟨v, hv, (congrArg (·.1) hvk).trans hr, congrArg (·.2.2) hvk⟩
  exact justified_uses (fun u hu => hu) ((justified_def h _).mono (Nat.le_succ n)) hasc hreg

/-- The analysis extends live ranges only to uses. -/
theorem justified_analyzePrefix {instrs : List TuInstruction} {n : Nat}
    (hroom : (demands instrs n).length ≤ tuLiveMaxVregs) : Justified instrs n (analyzePrefix instrs n) := by
  induction n with
  | zero => exact fun v hv => absurd hv List.not_mem_nil
  | succ n ih =>
    have hroom' := Nat.le_trans (length_demands_mono (Nat.le_succ n)) hroom
    rw [analyzePrefix_succ]
    exact (ih hroom').step (analyzed_analyzePrefix hroom') hroom

/-! ### Coverage -/

/-- A read is covered exactly when its writer's definition is decoded and kept alive to the read or beyond. -/
theorem coversUses_iff {instrs : List TuInstruction} {vs : List TuVreg} (h : tuLiveAnalyze instrs = some vs)
    (hroom : (demands instrs instrs.length).length ≤ tuLiveMaxVregs) :
    CoversUses instrs vs ↔ ∀ i j region x, LastWriter instrs i j region x → KeptAlive instrs i j region := by
  have hvs := analyze_analyzed h hroom
  have hjust := justified_analyzePrefix hroom
  rw [← tuLiveAnalyze_eq h] at hjust
  constructor
  · intro hcovers i j region x hlast
    obtain ⟨v, hv, hd, hr, hle⟩ := hcovers i j region x hlast
    have hkey : v.key ∈ demands instrs instrs.length := by
      rw [← hvs.keys]
      exact List.mem_map_of_mem hv
    have hpos : 0 ≤ v.firstDef := by omega
    obtain ⟨i', d, hi', hdef, hvk⟩ := mem_demands_def.1 ⟨hkey, hpos⟩
    have hii : v.firstDef = i' := congrArg (·.2.2) hvk
    obtain rfl : i = i' := by omega
    refine ⟨definesRegion_iff.2 ⟨d, hdef, ?_⟩, ?_⟩
    · rw [← hr]
      exact (congrArg (·.1) hvk).symm
    · have hij := hlast.1
      rcases hjust v hv hpos with heq | ⟨j', hj', hlastUse, ⟨u, hu, hur⟩, hbetween⟩
      · omega
      · refine ⟨j', by omega, hj', ⟨u, hu, hur.trans hr⟩, fun k hk hkj => ?_⟩
        rw [← hr]
        exact hbetween k (by omega) hkj
  · intro hkept i j region x hlast
    obtain ⟨hdef, j', hjj', hj', ⟨u, hu, hur⟩, hbetween⟩ := hkept i j region x hlast
    have hij := hlast.1
    rw [← hur] at hdef hbetween
    obtain ⟨v, hv, hr, hd, hle⟩ := hvs.alive j' u i hj' hu (by omega) hdef hbetween
    exact ⟨v, hv, hd, hr.trans hur, by omega⟩

/-- Two loads and the product that reads them. -/
theorem coversUses_loads_mma :
    let instrs : List TuInstruction :=
      [{ opcode := TuIsa.dmaLoad, dim1 := 32 }, { opcode := TuIsa.dmaLoad, flags := 1, dim1 := 32 },
        { opcode := TuIsa.mma, dim1 := 4, dim2 := 4 }]
    CoversUses instrs (analyzePrefix instrs 3) ↔
      ∀ i j region x, LastWriter instrs i j region x → KeptAlive instrs i j region :=
  coversUses_iff rfl (by decide)

/-- A product and the store of its result: the store counts as a new definition of the outputs, so the register of the
product dies at the product. -/
theorem not_coversUses_store :
    let instrs : List TuInstruction :=
      [{ opcode := TuIsa.mma, dim0 := 4, dim1 := 4, dim2 := 4 }, { opcode := TuIsa.dmaStore, flags := 2, dim1 := 64 }]
    tuLiveAnalyze instrs = some (analyzePrefix instrs 2) ∧ (demands instrs 2).length ≤ tuLiveMaxVregs ∧
      ¬ CoversUses instrs (analyzePrefix instrs 2) := by
  refine ⟨rfl, by decide, fun hcovers => ?_⟩
  have hlast : LastWriter [{ opcode := TuIsa.mma, dim0 := 4, dim1 := 4, dim2 := 4 },
      { opcode := TuIsa.dmaStore, flags := 2, dim1 := 64 }] 0 1 .o 0 :=
    ⟨by decide, by decide, ⟨by decide, by decide, by decide⟩, ⟨by decide, by decide, by decide⟩,
      fun k hk hk' => by omega⟩
  obtain ⟨v, hv, hd, hr, hle⟩ := hcovers 0 1 .o 0 hlast
  have hnone : ∀ v ∈ analyzePrefix [{ opcode := TuIsa.mma, dim0 := 4, dim1 := 4, dim2 := 4 },
      { opcode := TuIsa.dmaStore, flags := 2, dim1 := 64 }] 2, v.firstDef = 0 → v.region = .o → v.lastUse = 0 := by
    decide
  have hzero := hnone v hv hd hr
  omega

end Tusim
