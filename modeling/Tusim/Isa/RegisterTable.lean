import Tusim.Isa.LiveRanges

/-!
# The register table of any program

The table has 128 entries and drops what comes after (`Tabled.keys`), so exactly the definitions that come early
enough get a register (`registered_iff`).  A use creates a register only while its region has no definition, so the
live ranges of these implicit registers end before the first definition of the region.
-/

namespace Tusim

/-- An implicit register is not read once its region has a definition. -/
def ImplicitsFirst (instrs : List TuInstruction) (vs : List TuVreg) : Prop :=
  ∀ v ∈ vs, v.firstDef < 0 → ∀ k : Nat, (k : Int) ≤ v.lastUse → definesRegion (instrs.getD k default) v.region = false

/-- The table after `n` instructions. -/
structure Tabled (instrs : List TuInstruction) (n : Nat) (vs : List TuVreg) : Prop where
  keys : vs.map TuVreg.key = (demands instrs n).take tuLiveMaxVregs
  untouched : Untouched vs
  implicit : ImplicitsFirst instrs vs

private theorem take_append_take {α : Type} (xs ys : List α) (m : Nat) :
    (xs.take m ++ ys).take m = (xs ++ ys).take m := by
  rw [List.take_append, List.take_append, List.take_take, Nat.min_self, List.length_take]
  congr 2
  omega

/-! ### One use -/

/-- The table while the uses of instruction `n` are read. -/
private structure Reading (instrs : List TuInstruction) (n : Nat) (vs : List TuVreg) : Prop where
  length_le : vs.length ≤ tuLiveMaxVregs
  ascending : vs.length < tuLiveMaxVregs → InDefOrder (vs.map TuVreg.key)
  hasDef : vs.length < tuLiveMaxVregs → ∀ r, HasDef (vs.map TuVreg.key) r ↔ definedUpTo instrs n r = true
  implicit : ImplicitsFirst instrs vs

private theorem useDemand_cons (instrs : List TuInstruction) (n : Nat) (u : TuOperand) (uses : List TuOperand) :
    useDemand instrs n (u :: uses) = useDemand instrs n [u] ++ useDemand instrs n uses := by
  unfold useDemand
  rw [← List.map_append, ← List.filter_append]
  rfl

private theorem definedUpTo_false {instrs : List TuInstruction} {n : Nat} {region : TuSramRegionId}
    (h : definedUpTo instrs n region = false) {k : Nat} (hk : k ≤ n) :
    definesRegion (instrs.getD k default) region = false := by
  by_contra hdef
  rw [Bool.not_eq_false] at hdef
  have htrue : definedUpTo instrs n region = true := List.any_eq_true.2 ⟨k, List.mem_range.2 (by omega), hdef⟩
  rw [h] at htrue
  cases htrue

/-- Extending explicit registers keeps the implicit ones. -/
private theorem implicit_modify {instrs : List TuInstruction} {vs : List TuVreg} {k : Nat} (hk : k < vs.length)
    (hpos : 0 ≤ vs[k].firstDef) (i : Int)
    (h : ImplicitsFirst instrs vs) : ImplicitsFirst instrs (vs.modify k (·.use i)) := by
  intro v hv hneg
  obtain ⟨q, hq, rfl⟩ := List.mem_iff_getElem.1 hv
  rw [List.length_modify] at hq
  rw [List.getElem_modify] at hneg ⊢
  by_cases hkq : k = q
  · subst hkq
    rw [if_pos rfl] at hneg
    have hneg : vs[k].firstDef < 0 := hneg
    omega
  · rw [if_neg hkq] at hneg ⊢
    exact h vs[q] (List.getElem_mem hq) hneg

/-- Keys that fill the table, or that leave room for all of the demand, are what is recorded of them. -/
private theorem take_keys {xs ys : List (TuSramRegionId × UInt32 × Int)} (hle : xs.length ≤ tuLiveMaxVregs)
    (h : xs.length < tuLiveMaxVregs → ys = []) : xs = (xs ++ ys).take tuLiveMaxVregs := by
  rcases Nat.lt_or_eq_of_le hle with hlt | heq
  · rw [h hlt, List.append_nil, List.take_of_length_le hle]
  · exact (List.take_left' heq).symm

private theorem Reading.use {instrs : List TuInstruction} {n : Nat} {vs : List TuVreg} (h : Reading instrs n vs)
    (u : TuOperand) :
    (findOrCreateVreg vs u n false).map TuVreg.key = (vs.map TuVreg.key ++ useDemand instrs n [u]).take tuLiveMaxVregs ∧
      Reading instrs n (findOrCreateVreg vs u n false) := by
  have hle := h.length_le
  have hlekey : (vs.map TuVreg.key).length ≤ tuLiveMaxVregs := by rwa [List.length_map]
  unfold findOrCreateVreg
  rw [if_neg Bool.false_ne_true]
  cases hrecent : recentVreg vs u.region with
  | some k =>
    -- an explicit register of the region is extended
    obtain ⟨hk, hkey, -⟩ := find?_reverse_range.1 k hrecent
    rw [List.getD_eq_getElem _ _ hk] at hkey
    simp only [Bool.and_eq_true, decide_eq_true_eq] at hkey
    have hkeys : (vs.modify k (·.use n)).map TuVreg.key = vs.map TuVreg.key :=
      map_modify_of_eq (fun v => TuVreg.key_use v n) vs k
    have hlen : (vs.modify k (·.use n)).length = vs.length := List.length_modify ..
    dsimp only
    refine ⟨?_, by rwa [hlen], ?_, ?_, implicit_modify hk hkey.2 n h.implicit⟩
    · rw [hkeys]
      refine take_keys hlekey fun hlt => ?_
      rw [List.length_map] at hlt
      have hd := (h.hasDef hlt u.region).1 (hasDef_map.2 ⟨vs[k], List.getElem_mem hk, hkey⟩)
      unfold useDemand
      rw [List.filter_cons_of_neg (by simp [hd])]
      rfl
    · rw [hkeys, hlen]
      exact h.ascending
    · rw [hkeys, hlen]
      exact h.hasDef
  | none =>
    dsimp only
    unfold createVreg
    split
    · rename_i hfull
      refine ⟨take_keys hlekey fun hlt => ?_, h⟩
      rw [List.length_map] at hlt
      omega
    · rename_i hroom
      rw [Nat.not_le] at hroom
      have hno : ¬ HasDef (vs.map TuVreg.key) u.region := by
        rw [hasDef_map]
        rintro ⟨v, hv, hr, hpos⟩
        exact recentVreg_none hrecent v hv hr hpos
      have hd : definedUpTo instrs n u.region = false := by
        by_contra hc
        rw [Bool.not_eq_false] at hc
        exact hno ((h.hasDef hroom u.region).2 hc)
      have hdemand : useDemand instrs n [u] = [(u.region, u.size, -1)] := by
        unfold useDemand
        rw [List.filter_cons_of_pos (by simp [hd])]
        rfl
      have hkeys : (vs ++ [TuVreg.create vs.length u (-1) n]).map TuVreg.key =
          vs.map TuVreg.key ++ [(u.region, u.size, -1)] := List.map_append
      have hlen : (vs ++ [TuVreg.create vs.length u (-1) n]).length = vs.length + 1 := List.length_append
      refine ⟨?_, by omega, ?_, ?_, ?_⟩
      · rw [hkeys, hdemand, List.take_of_length_le]
        rw [List.length_append, List.length_map]
        exact hroom
      · rw [hkeys]
        exact fun _ => inDefOrder_append_implicit (h.ascending hroom) rfl
      · rw [hkeys]
        exact fun _ r => (hasDef_append_implicit rfl).trans (h.hasDef hroom r)
      · intro v hv hneg k hk
        rw [List.mem_append, List.mem_singleton] at hv
        rcases hv with hv | rfl
        · exact h.implicit v hv hneg k hk
        · have hk : (k : Int) ≤ n := hk
          exact definedUpTo_false hd (by omega)

private theorem Reading.uses {instrs : List TuInstruction} {n : Nat} (uses : List TuOperand) {vs : List TuVreg}
    (h : Reading instrs n vs) :
    (analyzeUses vs uses n).map TuVreg.key = (vs.map TuVreg.key ++ useDemand instrs n uses).take tuLiveMaxVregs ∧
      Reading instrs n (analyzeUses vs uses n) := by
  induction uses generalizing vs with
  | nil =>
    have hlekey : (vs.map TuVreg.key).length ≤ tuLiveMaxVregs := by
      rw [List.length_map]
      exact h.length_le
    exact ⟨take_keys hlekey fun _ => rfl, h⟩
  | cons u uses ih =>
    obtain ⟨hkeys, hnext⟩ := h.use u
    obtain ⟨hkeys', hrest⟩ := ih hnext
    refine ⟨?_, hrest⟩
    have hcons : analyzeUses vs (u :: uses) n = analyzeUses (findOrCreateVreg vs u n false) uses n := List.foldl_cons ..
    rw [hcons, hkeys', hkeys, take_append_take, useDemand_cons instrs n u uses, List.append_assoc]

/-! ### One instruction -/

/-- The definition of an instruction takes the next entry, if there is one. -/
private theorem analyzeDef_take {instrs : List TuInstruction} {n : Nat} {vs : List TuVreg}
    (hle : vs.length ≤ tuLiveMaxVregs) :
    (analyzeDef vs (instrs.getD n default) n).map TuVreg.key =
      (vs.map TuVreg.key ++ defDemand instrs n).take tuLiveMaxVregs := by
  have hlekey : (vs.map TuVreg.key).length ≤ tuLiveMaxVregs := by rwa [List.length_map]
  unfold analyzeDef defDemand
  cases extractVregDef (instrs.getD n default) with
  | none => exact take_keys hlekey fun _ => rfl
  | some d =>
    show (createVreg vs d n n).map TuVreg.key = _
    unfold createVreg
    split
    · refine take_keys hlekey fun hlt => ?_
      rw [List.length_map] at hlt
      omega
    · rename_i hroom
      rw [List.map_append, List.take_of_length_le]
      · rfl
      · rw [List.length_append, List.length_map]
        exact Nat.not_le.1 hroom

private theorem implicit_analyzeDef {instrs : List TuInstruction} {n : Nat} {vs : List TuVreg}
    (h : ImplicitsFirst instrs vs) (instr : TuInstruction) : ImplicitsFirst instrs (analyzeDef vs instr n) := by
  unfold analyzeDef
  cases extractVregDef instr with
  | none => exact h
  | some d =>
    show ImplicitsFirst instrs (createVreg vs d n n)
    unfold createVreg
    split
    · exact h
    · intro v hv hneg
      rw [List.mem_append, List.mem_singleton] at hv
      rcases hv with hv | rfl
      · exact h v hv hneg
      · have hneg : (n : Int) < 0 := hneg
        omega

theorem Tabled.step {instrs : List TuInstruction} {n : Nat} {vs : List TuVreg} (h : Tabled instrs n vs) :
    Tabled instrs (n + 1) (analyzeInstr vs (instrs.getD n default) n) := by
  have hlen := congrArg List.length h.keys
  rw [List.length_map, List.length_take] at hlen
  have hle : vs.length ≤ tuLiveMaxVregs := by omega
  have hkey : (analyzeDef vs (instrs.getD n default) n).map TuVreg.key =
      (demands instrs n ++ defDemand instrs n).take tuLiveMaxVregs := by
    rw [analyzeDef_take hle, h.keys, take_append_take]
  have hun := untouched_foldl (extractVregUses (instrs.getD n default)) (n : Int)
    (untouched_analyzeDef h.untouched (instrs.getD n default) n)
  have himplicit := implicit_analyzeDef (n := n) h.implicit (instrs.getD n default)
  unfold analyzeInstr
  generalize analyzeDef vs (instrs.getD n default) n = vs₁ at hkey hun himplicit ⊢
  have hlen₁ := congrArg List.length hkey
  rw [List.length_map, List.length_take] at hlen₁
  -- a table with room holds all registers so far
  have hall : vs₁.length < tuLiveMaxVregs → vs₁.map TuVreg.key = demands instrs n ++ defDemand instrs n := by
    intro hroom
    rw [hkey, List.take_of_length_le (by omega)]
  have hreading : Reading instrs n vs₁ := by
    refine ⟨by omega, fun hroom => ?_, fun hroom r => ?_, himplicit⟩
    · have hasc := inDefOrder_demands instrs (n + 1)
      unfold InDefOrder at hasc ⊢
      rw [demands_succ, List.pairwise_append] at hasc
      rw [hall hroom]
      exact hasc.1
    · rw [hall hroom]
      exact hasDef_demands
  obtain ⟨hkeys, hread⟩ := hreading.uses (extractVregUses (instrs.getD n default))
  refine ⟨?_, hun, hread.implicit⟩
  rw [hkeys, hkey, take_append_take, demands_succ]

theorem tabled_analyzePrefix (instrs : List TuInstruction) (n : Nat) : Tabled instrs n (analyzePrefix instrs n) := by
  induction n with
  | zero => exact ⟨rfl, fun v hv => absurd hv List.not_mem_nil, fun v hv => absurd hv List.not_mem_nil⟩
  | succ n ih =>
    rw [analyzePrefix_succ]
    exact ih.step

theorem analyze_tabled {instrs : List TuInstruction} {vs : List TuVreg} (h : tuLiveAnalyze instrs = some vs) :
    Tabled instrs instrs.length vs := by
  rw [tuLiveAnalyze_eq h]
  exact tabled_analyzePrefix instrs instrs.length

/-! ### Which definitions have a register -/

theorem demands_mono (instrs : List TuInstruction) {m n : Nat} (h : m ≤ n) : demands instrs m <+: demands instrs n := by
  induction n with
  | zero =>
    obtain rfl := Nat.le_zero.1 h
    exact List.prefix_rfl
  | succ n ih =>
    rcases Nat.le_succ_iff.1 h with h | rfl
    · rw [demands_succ, List.append_assoc]
      exact (ih h).trans (List.prefix_append ..)
    · exact List.prefix_rfl

/-- A definition has a register exactly when fewer than 128 registers are asked for before it. -/
theorem registered_iff {instrs : List TuInstruction} {vs : List TuVreg} (h : tuLiveAnalyze instrs = some vs) {i : Nat}
    (hi : i < instrs.length) {d : TuOperand} (hd : extractVregDef (instrs.getD i default) = some d) :
    (∃ v ∈ vs, v.region = d.region ∧ v.sizeBytes = d.size ∧ v.firstDef = i) ↔
      (demands instrs i).length < tuLiveMaxVregs := by
  have hkeys := (analyze_tabled h).keys
  obtain ⟨rest, hrest⟩ := demands_mono instrs (Nat.succ_le_of_lt hi)
  constructor
  · rintro ⟨v, hv, hr, hsize, hvd⟩
    by_contra hfull
    have hmem : v.key ∈ (demands instrs instrs.length).take tuLiveMaxVregs := by
      rw [← hkeys]
      exact List.mem_map_of_mem hv
    obtain ⟨tail, htail⟩ := demands_mono instrs (Nat.le_of_lt hi)
    rw [← htail, List.take_append_of_le_length (Nat.not_lt.1 hfull)] at hmem
    have hlt := demands_lt (List.mem_of_mem_take hmem)
    have hlt : v.firstDef < i := hlt
    omega
  · intro hroom
    have hdef : defDemand instrs i = [(d.region, d.size, (i : Int))] := by
      unfold defDemand
      rw [hd]
      rfl
    have hmem : (d.region, d.size, (i : Int)) ∈ vs.map TuVreg.key := by
      rw [hkeys, ← hrest, demands_succ, hdef, List.append_assoc, List.append_assoc, List.take_append]
      refine List.mem_append_right _ ?_
      obtain ⟨m, hm⟩ : ∃ m, tuLiveMaxVregs - (demands instrs i).length = m + 1 :=
        ⟨tuLiveMaxVregs - (demands instrs i).length - 1, by omega⟩
      rw [hm]
      exact List.mem_cons_self ..
    obtain ⟨v, hv, hvk⟩ := List.mem_map.1 hmem
    exact ⟨v, hv, congrArg (·.1) hvk, congrArg (·.2.1) hvk, congrArg (·.2.2) hvk⟩

end Tusim
