import Tusim.Isa.Liveness
import Mathlib.Data.List.Basic
import Mathlib.Data.List.GetD

/-!
# What the analysis computes

As long as the register table does not overflow, its registers are those the program asks for (`demands`), in
order, and every use keeps the most recent definition of its region alive (`Analyzed`).
-/

namespace Tusim

/-- What colouring and patching never change: region, size and definition. -/
def TuVreg.key (v : TuVreg) : TuSramRegionId × UInt32 × Int := (v.region, v.sizeBytes, v.firstDef)

def definesRegion (instr : TuInstruction) (region : TuSramRegionId) : Bool :=
  (extractVregDef instr).any (·.region = region)

/-- Some instruction up to `i` defines the region. -/
def definedUpTo (instrs : List TuInstruction) (i : Nat) (region : TuSramRegionId) : Bool :=
  (List.range (i + 1)).any fun k => definesRegion (instrs.getD k default) region

/-- The register of the definition of instruction `i`. -/
def defDemand (instrs : List TuInstruction) (i : Nat) : List (TuSramRegionId × UInt32 × Int) :=
  (extractVregDef (instrs.getD i default)).toList.map fun d => (d.region, d.size, (i : Int))

/-- The registers of the uses of instruction `i` that no definition precedes. -/
def useDemand (instrs : List TuInstruction) (i : Nat) (uses : List TuOperand) : List (TuSramRegionId × UInt32 × Int) :=
  (uses.filter fun u => !definedUpTo instrs i u.region).map fun u => (u.region, u.size, -1)

/-- The registers the first `n` instructions ask for. -/
def demands (instrs : List TuInstruction) (n : Nat) : List (TuSramRegionId × UInt32 × Int) :=
  (List.range n).flatMap fun i => defDemand instrs i ++ useDemand instrs i (extractVregUses (instrs.getD i default))

theorem demands_succ (instrs : List TuInstruction) (n : Nat) :
    demands instrs (n + 1) =
      demands instrs n ++ defDemand instrs n ++ useDemand instrs n (extractVregUses (instrs.getD n default)) := by
  unfold demands
  rw [List.range_succ, List.flatMap_append, List.append_assoc]
  simp

private theorem mem_defDemand {instrs : List TuInstruction} {i : Nat} {x : TuSramRegionId × UInt32 × Int} :
    x ∈ defDemand instrs i ↔
      ∃ d, extractVregDef (instrs.getD i default) = some d ∧ x = (d.region, d.size, (i : Int)) := by
  unfold defDemand
  cases extractVregDef (instrs.getD i default) with
  | none => simp
  | some d => simp

theorem mem_useDemand {instrs : List TuInstruction} {i : Nat} {uses : List TuOperand}
    {x : TuSramRegionId × UInt32 × Int} (h : x ∈ useDemand instrs i uses) : x.2.2 = -1 := by
  obtain ⟨u, -, rfl⟩ := List.mem_map.1 h
  rfl

/-- The demands with a definition are the definitions of the program. -/
theorem mem_demands_def {instrs : List TuInstruction} {n : Nat} {x : TuSramRegionId × UInt32 × Int} :
    x ∈ demands instrs n ∧ 0 ≤ x.2.2 ↔
      ∃ i d, i < n ∧ extractVregDef (instrs.getD i default) = some d ∧ x = (d.region, d.size, (i : Int)) := by
  unfold demands
  rw [List.mem_flatMap]
  constructor
  · rintro ⟨⟨i, hi, hx⟩, hpos⟩
    rcases List.mem_append.1 hx with hx | hx
    · obtain ⟨d, hd, rfl⟩ := mem_defDemand.1 hx
      exact ⟨i, d, List.mem_range.1 hi, hd, rfl⟩
    · rw [mem_useDemand hx] at hpos
      omega
  · rintro ⟨i, d, hi, hd, rfl⟩
    exact ⟨⟨i, List.mem_range.2 hi, List.mem_append_left _ (mem_defDemand.2 ⟨d, hd, rfl⟩)⟩, Int.natCast_nonneg i⟩

/-- Definitions are numbered upwards. -/
def InDefOrder (keys : List (TuSramRegionId × UInt32 × Int)) : Prop :=
  keys.Pairwise fun a b => 0 ≤ b.2.2 → a.2.2 < b.2.2

theorem demands_lt {instrs : List TuInstruction} {n : Nat} {x : TuSramRegionId × UInt32 × Int}
    (h : x ∈ demands instrs n) : x.2.2 < n := by
  by_cases hpos : 0 ≤ x.2.2
  · obtain ⟨i, d, hi, -, rfl⟩ := mem_demands_def.1 ⟨h, hpos⟩
    exact Int.ofNat_lt.2 hi
  · omega

theorem inDefOrder_demands (instrs : List TuInstruction) (n : Nat) : InDefOrder (demands instrs n) := by
  induction n with
  | zero => exact List.Pairwise.nil
  | succ n ih =>
    rw [demands_succ]
    unfold InDefOrder
    rw [List.pairwise_append, List.pairwise_append]
    refine ⟨⟨ih, ?_, fun a ha b hb _ => ?_⟩, ?_, fun a _ b hb hpos => ?_⟩
    · unfold defDemand
      cases extractVregDef (instrs.getD n default) with
      | none => exact List.Pairwise.nil
      | some d => exact List.pairwise_singleton _ _
    · obtain ⟨d, -, rfl⟩ := mem_defDemand.1 hb
      exact demands_lt ha
    · refine List.pairwise_of_forall_mem_list fun a _ b hb hpos => ?_
      rw [mem_useDemand hb] at hpos
      omega
    · rw [mem_useDemand hb] at hpos
      omega

/-! ### Lists of registers -/

theorem map_modify_of_eq {α β : Type} {f : α → α} {e : α → β} (h : ∀ v, e (f v) = e v) (vs : List α) (k : Nat) :
    (vs.modify k f).map e = vs.map e := by
  apply List.ext_getElem?
  intro q
  rw [List.getElem?_map, List.getElem?_map, List.getElem?_modify]
  cases vs[q]? with
  | none => rfl
  | some v =>
    by_cases hk : k = q
    · simp [hk, h]
    · simp [hk]

/-- The last index below `n` with a property. -/
theorem find?_reverse_range {q : Nat → Bool} {n : Nat} :
    (∀ k, (List.range n).reverse.find? q = some k → k < n ∧ q k = true ∧ ∀ m, k < m → m < n → q m = false) ∧
      ((List.range n).reverse.find? q = none → ∀ m, m < n → q m = false) := by
  induction n with
  | zero => exact ⟨fun k h => by simp at h, fun _ m hm => absurd hm (Nat.not_lt_zero m)⟩
  | succ n ih =>
    rw [List.range_succ, List.reverse_append, List.reverse_singleton, List.singleton_append, List.find?_cons]
    cases hq : q n with
    | true =>
      refine ⟨fun k h => ?_, fun h => by cases h⟩
      obtain rfl := Option.some.inj h
      exact ⟨Nat.lt_succ_self n, hq, fun m hm hm' => by omega⟩
    | false =>
      refine ⟨fun k h => ?_, fun h m hm => ?_⟩
      · obtain ⟨hk, hqk, hlast⟩ := ih.1 k h
        refine ⟨Nat.lt_succ_of_lt hk, hqk, fun m hm hm' => ?_⟩
        rcases Nat.lt_succ_iff_lt_or_eq.1 hm' with hm' | rfl
        · exact hlast m hm hm'
        · exact hq
      · rcases Nat.lt_succ_iff_lt_or_eq.1 hm with hm | rfl
        · exact ih.2 h m hm
        · exact hq

/-- Live ranges only grow. -/
def Grows (vs vs' : List TuVreg) : Prop := ∀ v ∈ vs, ∃ v' ∈ vs', v'.key = v.key ∧ v.lastUse ≤ v'.lastUse

theorem Grows.refl (vs : List TuVreg) : Grows vs vs := fun v hv => ⟨v, hv, rfl, Int.le_refl _⟩

theorem Grows.trans {vs vs' vs'' : List TuVreg} (h : Grows vs vs') (h' : Grows vs' vs'') : Grows vs vs'' := by
  intro v hv
  obtain ⟨v', hv', hkey, hle⟩ := h v hv
  obtain ⟨v'', hv'', hkey', hle'⟩ := h' v' hv'
  exact ⟨v'', hv'', hkey'.trans hkey, Int.le_trans hle hle'⟩

theorem TuVreg.key_use (v : TuVreg) (i : Int) : (v.use i).key = v.key := rfl

private theorem TuVreg.le_lastUse_use (v : TuVreg) (i : Int) : v.lastUse ≤ (v.use i).lastUse ∧ i ≤ (v.use i).lastUse := by
  unfold TuVreg.use
  dsimp only
  split <;> omega

theorem grows_modify (vs : List TuVreg) (k : Nat) (i : Int) : Grows vs (vs.modify k (·.use i)) := by
  intro v hv
  obtain ⟨q, hq, rfl⟩ := List.mem_iff_getElem.1 hv
  have hq' : q < (vs.modify k (·.use i)).length := by rwa [List.length_modify]
  refine ⟨_, List.getElem_mem hq', ?_⟩
  rw [List.getElem_modify]
  split
  · exact ⟨rfl, (TuVreg.le_lastUse_use _ i).1⟩
  · exact ⟨rfl, Int.le_refl _⟩

theorem createVreg_eq {vs : List TuVreg} (h : vs.length < tuLiveMaxVregs) (u : TuOperand) (d l : Int) :
    createVreg vs u d l = vs ++ [TuVreg.create vs.length u d l] :=
  if_neg (Nat.not_le.2 h)

/-- The most recent definition of a region is alive at `i`. -/
def Alive (vs : List TuVreg) (region : TuSramRegionId) (i : Int) : Prop :=
  ∃ v ∈ vs, v.region = region ∧ 0 ≤ v.firstDef ∧ i ≤ v.lastUse ∧
    ∀ w ∈ vs, w.region = region → 0 ≤ w.firstDef → w.firstDef ≤ v.firstDef

/-- A register of the region has a definition. -/
def HasDef (keys : List (TuSramRegionId × UInt32 × Int)) (region : TuSramRegionId) : Prop :=
  ∃ x ∈ keys, x.1 = region ∧ 0 ≤ x.2.2

theorem hasDef_map {vs : List TuVreg} {region : TuSramRegionId} :
    HasDef (vs.map TuVreg.key) region ↔ ∃ v ∈ vs, v.region = region ∧ 0 ≤ v.firstDef := by
  constructor
  · rintro ⟨x, hx, h⟩
    obtain ⟨v, hv, rfl⟩ := List.mem_map.1 hx
    exact ⟨v, hv, h⟩
  · rintro ⟨v, hv, h⟩
    exact ⟨v.key, List.mem_map_of_mem hv, h⟩

/-- The most recent register of a region has the latest definition. -/
theorem recentVreg_max {vs : List TuVreg} {region : TuSramRegionId} {k : Nat} (hasc : InDefOrder (vs.map TuVreg.key))
    (h : recentVreg vs region = some k) :
    ∃ hk : k < vs.length, vs[k].region = region ∧ 0 ≤ vs[k].firstDef ∧
      ∀ w ∈ vs, w.region = region → 0 ≤ w.firstDef → w.firstDef ≤ vs[k].firstDef := by
  obtain ⟨hk, hkey, hlast⟩ := find?_reverse_range.1 k h
  rw [List.getD_eq_getElem _ _ hk] at hkey
  simp only [Bool.and_eq_true, decide_eq_true_eq] at hkey
  refine ⟨hk, hkey.1, hkey.2, fun w hw hr hpos => ?_⟩
  obtain ⟨q, hq, rfl⟩ := List.mem_iff_getElem.1 hw
  rcases Nat.lt_trichotomy q k with hqk | rfl | hqk
  · have hpair := List.pairwise_iff_getElem.1 hasc q k (by simpa using hq) (by simpa using hk) hqk
    rw [List.getElem_map, List.getElem_map] at hpair
    exact Int.le_of_lt (hpair hkey.2)
  · exact Int.le_refl _
  · -- a register of the region behind `k` would have been found first
    have hnot := hlast q hqk hq
    rw [List.getD_eq_getElem _ _ hq] at hnot
    simp [hr, hpos] at hnot

theorem recentVreg_none {vs : List TuVreg} {region : TuSramRegionId} (h : recentVreg vs region = none) :
    ∀ v ∈ vs, v.region = region → ¬ 0 ≤ v.firstDef := by
  intro v hv hr hpos
  obtain ⟨q, hq, rfl⟩ := List.mem_iff_getElem.1 hv
  have hnone := find?_reverse_range.2 h q hq
  rw [List.getD_eq_getElem _ _ hq] at hnone
  simp [hr, hpos] at hnone

theorem grows_append (vs vs' : List TuVreg) : Grows vs (vs ++ vs') := fun v hv =>
  ⟨v, List.mem_append_left _ hv, rfl, Int.le_refl _⟩

theorem grows_findOrCreate (vs : List TuVreg) (u : TuOperand) (i : Int) (isDef : Bool) :
    Grows vs (findOrCreateVreg vs u i isDef) := by
  have hcreate : ∀ d l, Grows vs (createVreg vs u d l) := by
    intro d l
    unfold createVreg
    split
    · exact Grows.refl vs
    · exact grows_append vs _
  unfold findOrCreateVreg
  split
  · exact hcreate _ _
  · split
    · exact grows_modify vs _ i
    · exact hcreate _ _

theorem grows_analyzeUses (vs : List TuVreg) (uses : List TuOperand) (i : Int) : Grows vs (analyzeUses vs uses i) := by
  induction uses generalizing vs with
  | nil => exact Grows.refl vs
  | cons u uses ih => exact (grows_findOrCreate vs u i false).trans (ih _)

theorem grows_analyzeDef (vs : List TuVreg) (instr : TuInstruction) (i : Int) : Grows vs (analyzeDef vs instr i) := by
  unfold analyzeDef
  split
  · exact grows_findOrCreate vs _ i true
  · exact Grows.refl vs

theorem HasDef.grows {vs vs' : List TuVreg} {region : TuSramRegionId} (h : HasDef (vs.map TuVreg.key) region)
    (hgrow : Grows vs vs') : HasDef (vs'.map TuVreg.key) region := by
  obtain ⟨v, hv, hr, hpos⟩ := hasDef_map.1 h
  obtain ⟨v', hv', hkey, -⟩ := hgrow v hv
  have hfirst : v'.firstDef = v.firstDef := congrArg (·.2.2) hkey
  exact hasDef_map.2 ⟨v', hv', (congrArg (·.1) hkey).trans hr, hfirst ▸ hpos⟩

/-- A use with a definition before it extends that definition and creates nothing. -/
theorem findOrCreate_use {vs : List TuVreg} {u : TuOperand} (i : Int) (hasc : InDefOrder (vs.map TuVreg.key))
    (hdef : HasDef (vs.map TuVreg.key) u.region) :
    (findOrCreateVreg vs u i false).map TuVreg.key = vs.map TuVreg.key ∧
      Alive (findOrCreateVreg vs u i false) u.region i := by
  unfold findOrCreateVreg
  rw [if_neg Bool.false_ne_true]
  cases hrecent : recentVreg vs u.region with
  | none =>
    obtain ⟨v, hv, hr, hpos⟩ := hasDef_map.1 hdef
    exact absurd hpos (recentVreg_none hrecent v hv hr)
  | some k =>
    obtain ⟨hk, hr, hpos, hmax⟩ := recentVreg_max hasc hrecent
    refine ⟨map_modify_of_eq (fun v => TuVreg.key_use v i) vs k, ?_⟩
    have hk' : k < (vs.modify k (·.use i)).length := by rwa [List.length_modify]
    refine ⟨(vs.modify k (·.use i))[k], List.getElem_mem hk', ?_⟩
    rw [List.getElem_modify, if_pos rfl]
    refine ⟨hr, hpos, (TuVreg.le_lastUse_use _ i).2, fun w hw hwr hwpos => ?_⟩
    obtain ⟨q, hq, rfl⟩ := List.mem_iff_getElem.1 hw
    have hq' : q < vs.length := by rwa [List.length_modify] at hq
    have hqkey : ((vs.modify k (·.use i))[q]).key = vs[q].key := by
      rw [List.getElem_modify]
      split <;> rfl
    have hqd : (vs.modify k (·.use i))[q].firstDef = vs[q].firstDef := congrArg (·.2.2) hqkey
    rw [hqd] at hwpos ⊢
    exact hmax vs[q] (List.getElem_mem hq') ((congrArg (·.1) hqkey).symm.trans hwr) hwpos

/-- A use without a definition before it creates a register. -/
theorem findOrCreate_implicit {vs : List TuVreg} {u : TuOperand} (i : Int) (hroom : vs.length < tuLiveMaxVregs)
    (hdef : ¬ HasDef (vs.map TuVreg.key) u.region) :
    findOrCreateVreg vs u i false = vs ++ [TuVreg.create vs.length u (-1) i] := by
  unfold findOrCreateVreg
  rw [if_neg Bool.false_ne_true]
  cases hrecent : recentVreg vs u.region with
  | none => exact createVreg_eq hroom u (-1) i
  | some k =>
    obtain ⟨hk, hkey, -⟩ := find?_reverse_range.1 k hrecent
    rw [List.getD_eq_getElem _ _ hk] at hkey
    simp only [Bool.and_eq_true, decide_eq_true_eq] at hkey
    exact absurd (hasDef_map.2 ⟨_, List.getElem_mem hk, hkey⟩) hdef

/-! ### The analysis -/

theorem inDefOrder_append_implicit {keys : List (TuSramRegionId × UInt32 × Int)}
    {x : TuSramRegionId × UInt32 × Int} (h : InDefOrder keys) (hx : x.2.2 = -1) : InDefOrder (keys ++ [x]) := by
  unfold InDefOrder
  rw [List.pairwise_append]
  refine ⟨h, List.pairwise_singleton _ _, fun a _ b hb hpos => ?_⟩
  obtain rfl := List.mem_singleton.1 hb
  omega

theorem hasDef_append_implicit {keys : List (TuSramRegionId × UInt32 × Int)}
    {x : TuSramRegionId × UInt32 × Int} (hx : x.2.2 = -1) {region : TuSramRegionId} :
    HasDef (keys ++ [x]) region ↔ HasDef keys region := by
  constructor
  · rintro ⟨y, hy, hr, hpos⟩
    rw [List.mem_append, List.mem_singleton] at hy
    rcases hy with hy | rfl
    · exact ⟨y, hy, hr, hpos⟩
    · omega
  · rintro ⟨y, hy, h⟩
    exact ⟨y, List.mem_append_left _ hy, h⟩

/-- No register is spilled or placed yet. -/
def Untouched (vs : List TuVreg) : Prop := ∀ v ∈ vs, v.spilled = false ∧ v.physicalOffset = tuUnassigned

theorem untouched_createVreg {vs : List TuVreg} (h : Untouched vs) (u : TuOperand) (d l : Int) :
    Untouched (createVreg vs u d l) := by
  unfold createVreg
  split
  · exact h
  · intro v hv
    rw [List.mem_append, List.mem_singleton] at hv
    rcases hv with hv | rfl
    · exact h v hv
    · exact ⟨rfl, rfl⟩

theorem untouched_findOrCreate {vs : List TuVreg} (h : Untouched vs) (u : TuOperand) (i : Int) (isDef : Bool) :
    Untouched (findOrCreateVreg vs u i isDef) := by
  unfold findOrCreateVreg
  split
  · exact untouched_createVreg h u i i
  · split
    · rename_i k _
      intro v hv
      obtain ⟨q, hq, rfl⟩ := List.mem_iff_getElem.1 hv
      rw [List.length_modify] at hq
      have hold := h vs[q] (List.getElem_mem hq)
      rw [List.getElem_modify]
      split
      · exact hold
      · exact hold
    · exact untouched_createVreg h u (-1) i

theorem untouched_foldl {vs : List TuVreg} (uses : List TuOperand) (i : Int) (h : Untouched vs) :
    Untouched (analyzeUses vs uses i) := by
  induction uses generalizing vs with
  | nil => exact h
  | cons u uses ih => exact ih (untouched_findOrCreate h u i false)

theorem untouched_analyzeDef {vs : List TuVreg} (h : Untouched vs) (instr : TuInstruction) (i : Int) :
    Untouched (analyzeDef vs instr i) := by
  unfold analyzeDef
  cases extractVregDef instr with
  | none => exact h
  | some d => exact untouched_findOrCreate h d i true

/-- A live definition stays alive while registers grow and no definition is added. -/
private theorem Alive.grows {vs vs' : List TuVreg} {region : TuSramRegionId} {i : Int} (h : Alive vs region i)
    (hg : Grows vs vs') (hkeys : ∀ w ∈ vs', 0 ≤ w.firstDef → ∃ v ∈ vs, v.key = w.key) : Alive vs' region i := by
  obtain ⟨v, hv, hr, hpos, hle, hmax⟩ := h
  obtain ⟨v', hv', hkey, hle'⟩ := hg v hv
  have hd : v'.firstDef = v.firstDef := congrArg (·.2.2) hkey
  refine ⟨v', hv', (congrArg (·.1) hkey).trans hr, by omega, Int.le_trans hle hle', fun w hw hwr hwpos => ?_⟩
  obtain ⟨x, hx, hxkey⟩ := hkeys w hw hwpos
  have hxd : x.firstDef = w.firstDef := congrArg (·.2.2) hxkey
  have hxr : x.region = w.region := congrArg (·.1) hxkey
  have hle := hmax x hx (hxr.trans hwr) (by omega)
  omega

/-- The uses of instruction `i`, once its definition is made. -/
private theorem foldl_uses {instrs : List TuInstruction} {i : Nat} (uses : List TuOperand) {vs : List TuVreg}
    (hasc : InDefOrder (vs.map TuVreg.key)) (hdef : ∀ r, HasDef (vs.map TuVreg.key) r ↔ definedUpTo instrs i r = true)
    (hroom : vs.length + (useDemand instrs i uses).length ≤ tuLiveMaxVregs) :
    (analyzeUses vs uses i).map TuVreg.key =
        vs.map TuVreg.key ++ useDemand instrs i uses ∧
      ∀ u ∈ uses, definedUpTo instrs i u.region = true →
        Alive (analyzeUses vs uses i) u.region i := by
  induction uses generalizing vs with
  | nil => exact ⟨(List.append_nil _).symm, fun u hu => absurd hu List.not_mem_nil⟩
  | cons u uses ih =>
    have hcons : analyzeUses vs (u :: uses) i = analyzeUses (findOrCreateVreg vs u i false) uses i := List.foldl_cons ..
    rw [hcons]
    by_cases hd : definedUpTo instrs i u.region = true
    · have hcons : useDemand instrs i (u :: uses) = useDemand instrs i uses := by
        unfold useDemand
        rw [List.filter_cons_of_neg (by simp [hd])]
      obtain ⟨hkey, halive⟩ := findOrCreate_use (i : Int) hasc ((hdef u.region).2 hd)
      have hlen := congrArg List.length hkey
      rw [List.length_map, List.length_map] at hlen
      rw [hcons] at hroom ⊢
      obtain ⟨hkeys, hlive⟩ := ih (by rwa [hkey]) (by rwa [hkey]) (by rwa [hlen])
      refine ⟨by rw [hkeys, hkey], fun x hx hxd => ?_⟩
      rcases List.mem_cons.1 hx with rfl | hx
      · -- the later uses add no definition
        refine halive.grows (grows_analyzeUses _ uses i) fun w hw hpos => ?_
        have hmem := List.mem_map_of_mem (f := TuVreg.key) hw
        rw [hkeys, List.mem_append] at hmem
        refine List.mem_map.1 (hmem.resolve_right fun hc => ?_)
        have hneg : w.firstDef = -1 := mem_useDemand hc
        omega
      · exact hlive x hx hxd
    · have hcons : useDemand instrs i (u :: uses) = (u.region, u.size, -1) :: useDemand instrs i uses := by
        unfold useDemand
        rw [List.filter_cons_of_pos (by simp [hd])]
        rfl
      rw [hcons, List.length_cons] at hroom
      rw [findOrCreate_implicit (i : Int) (by omega) fun hc => hd ((hdef u.region).1 hc), hcons]
      have hkey : (vs ++ [TuVreg.create vs.length u (-1) i]).map TuVreg.key =
          vs.map TuVreg.key ++ [(u.region, u.size, -1)] := List.map_append
      have hlen : (vs ++ [TuVreg.create vs.length u (-1) i]).length = vs.length + 1 := List.length_append
      obtain ⟨hkeys, hlive⟩ := ih (by rw [hkey]; exact inDefOrder_append_implicit hasc rfl)
        (fun r => by rw [hkey, hasDef_append_implicit rfl]; exact hdef r) (by rw [hlen]; omega)
      refine ⟨by rw [hkeys, hkey, List.append_assoc]; rfl, fun x hx hxd => ?_⟩
      rcases List.mem_cons.1 hx with rfl | hx
      · exact absurd hxd hd
      · exact hlive x hx hxd

/-- What the analysis has computed after `n` instructions. -/
structure Analyzed (instrs : List TuInstruction) (n : Nat) (vs : List TuVreg) : Prop where
  keys : vs.map TuVreg.key = demands instrs n
  untouched : Untouched vs
  /-- the last definition of what instruction `i` reads is alive there -/
  alive : ∀ i u j, i < n → u ∈ extractVregUses (instrs.getD i default) → j ≤ i →
    definesRegion (instrs.getD j default) u.region = true →
    (∀ k, j < k → k ≤ i → definesRegion (instrs.getD k default) u.region = false) →
      ∃ v ∈ vs, v.region = u.region ∧ v.firstDef = j ∧ (i : Int) ≤ v.lastUse

theorem length_demands_mono {instrs : List TuInstruction} {m n : Nat} (h : m ≤ n) :
    (demands instrs m).length ≤ (demands instrs n).length := by
  induction n with
  | zero =>
    obtain rfl := Nat.le_zero.1 h
    exact Nat.le_refl _
  | succ n ih =>
    rcases Nat.le_succ_iff.1 h with h | rfl
    · refine Nat.le_trans (ih h) ?_
      rw [demands_succ, List.length_append, List.length_append]
      omega
    · exact Nat.le_refl _

theorem definesRegion_iff {instr : TuInstruction} {region : TuSramRegionId} :
    definesRegion instr region = true ↔ ∃ d, extractVregDef instr = some d ∧ d.region = region := by
  unfold definesRegion
  cases extractVregDef instr with
  | none => simp
  | some d => simp

theorem hasDef_demands {instrs : List TuInstruction} {n : Nat} {region : TuSramRegionId} :
    HasDef (demands instrs n ++ defDemand instrs n) region ↔ definedUpTo instrs n region = true := by
  unfold definedUpTo
  rw [List.any_eq_true]
  constructor
  · rintro ⟨x, hx, hr, hpos⟩
    have hx : x ∈ demands instrs (n + 1) := by
      rw [demands_succ]
      exact List.mem_append_left _ hx
    obtain ⟨i, d, hi, hd, rfl⟩ := mem_demands_def.1 ⟨hx, hpos⟩
    exact ⟨i, List.mem_range.2 hi, definesRegion_iff.2 ⟨d, hd, hr⟩⟩
  · rintro ⟨i, hi, hdef⟩
    obtain ⟨d, hd, hr⟩ := definesRegion_iff.1 hdef
    obtain ⟨hx, hpos⟩ := mem_demands_def.2 ⟨i, d, List.mem_range.1 hi, hd, rfl⟩
    rw [demands_succ, List.mem_append] at hx
    refine ⟨_, hx.resolve_right fun hc => ?_, hr, hpos⟩
    have hneg := mem_useDemand hc
    dsimp only at hneg hpos
    omega

/-- The definition of an instruction adds its register. -/
theorem analyzeDef_keys {instrs : List TuInstruction} {n : Nat} {vs : List TuVreg}
    (hroom : vs.length + (defDemand instrs n).length ≤ tuLiveMaxVregs) :
    (analyzeDef vs (instrs.getD n default) n).map TuVreg.key = vs.map TuVreg.key ++ defDemand instrs n := by
  unfold defDemand at hroom ⊢
  unfold analyzeDef
  cases hd : extractVregDef (instrs.getD n default) with
  | none => exact (List.append_nil _).symm
  | some d =>
    rw [hd] at hroom
    have hnew : findOrCreateVreg vs d (n : Int) true = vs ++ [TuVreg.create vs.length d n n] :=
      createVreg_eq hroom d n n
    dsimp only
    rw [hnew]
    exact List.map_append

/-- One instruction of the analysis. -/
theorem Analyzed.step {instrs : List TuInstruction} {n : Nat} {vs : List TuVreg} (h : Analyzed instrs n vs)
    (hroom : (demands instrs (n + 1)).length ≤ tuLiveMaxVregs) :
    Analyzed instrs (n + 1) (analyzeInstr vs (instrs.getD n default) n) := by
  have hlen := congrArg List.length h.keys
  rw [List.length_map] at hlen
  have hroom' := hroom
  rw [demands_succ, List.length_append, List.length_append] at hroom'
  have hdefine : vs.length + (defDemand instrs n).length ≤ tuLiveMaxVregs := by omega
  have hkey := analyzeDef_keys hdefine
  have hgrow := grows_analyzeDef vs (instrs.getD n default) n
  have hun := untouched_analyzeDef h.untouched (instrs.getD n default) n
  unfold analyzeInstr
  generalize analyzeDef vs (instrs.getD n default) n = vs₁ at hkey hgrow hun ⊢
  rw [h.keys] at hkey
  have hlen₁ := congrArg List.length hkey
  rw [List.length_map, List.length_append] at hlen₁
  have hasc : InDefOrder (vs₁.map TuVreg.key) := by
    have hall := inDefOrder_demands instrs (n + 1)
    unfold InDefOrder at hall ⊢
    rw [demands_succ, List.pairwise_append] at hall
    rw [hkey]
    exact hall.1
  have hdefs : ∀ r, HasDef (vs₁.map TuVreg.key) r ↔ definedUpTo instrs n r = true := fun r => by
    rw [hkey]
    exact hasDef_demands
  obtain ⟨hkeys, hlive⟩ := foldl_uses (extractVregUses (instrs.getD n default)) hasc hdefs (by omega)
  have hgrow' := grows_analyzeUses vs₁ (extractVregUses (instrs.getD n default)) n
  have hun' := untouched_foldl (extractVregUses (instrs.getD n default)) (n : Int) hun
  generalize analyzeUses vs₁ (extractVregUses (instrs.getD n default)) n = vs₂ at hkeys hgrow' hlive hun' ⊢
  rw [hkey, ← demands_succ] at hkeys
  refine ⟨hkeys, hun', fun i u j hi hu hji hj hlast => ?_⟩
  rcases Nat.lt_succ_iff_lt_or_eq.1 hi with hi | rfl
  · obtain ⟨v, hv, hr, hd, hle⟩ := h.alive i u j hi hu hji hj hlast
    obtain ⟨v', hv', hkey', hle'⟩ := (hgrow.trans hgrow') v hv
    exact ⟨v', hv', (congrArg (·.1) hkey').trans hr, (congrArg (·.2.2) hkey').trans hd, Int.le_trans hle hle'⟩
  · have hdef : definedUpTo instrs i u.region = true := by
      unfold definedUpTo
      rw [List.any_eq_true]
      exact ⟨j, List.mem_range.2 (Nat.lt_succ_of_le hji), hj⟩
    obtain ⟨v, hv, hr, hpos, hle, hmax⟩ := hlive u hu hdef
    -- the register that is alive is the one of `j`
    have hvkey : v.key ∈ demands instrs (i + 1) := by
      rw [← hkeys]
      exact List.mem_map_of_mem hv
    obtain ⟨k, d, hk, hd, hvk⟩ := mem_demands_def.1 ⟨hvkey, hpos⟩
    have hvd : v.firstDef = k := congrArg (·.2.2) hvk
    have hvr : v.region = d.region := congrArg (·.1) hvk
    have hkj : k ≤ j := by
      by_contra hc
      have hnot := hlast k (Nat.lt_of_not_le hc) (Nat.le_of_lt_succ hk)
      rw [definesRegion_iff.2 ⟨d, hd, hvr.symm.trans hr⟩] at hnot
      cases hnot
    obtain ⟨d', hd', hr'⟩ := definesRegion_iff.1 hj
    have hjkey := (mem_demands_def.2 ⟨j, d', Nat.lt_succ_of_le hji, hd', rfl⟩).1
    rw [← hkeys] at hjkey
    obtain ⟨w, hw, hwkey⟩ := List.mem_map.1 hjkey
    have hwd : w.firstDef = j := congrArg (·.2.2) hwkey
    have hwr : w.region = d'.region := congrArg (·.1) hwkey
    have hjk := hmax w hw (hwr.trans hr') (by omega)
    exact ⟨v, hv, hr, by omega, hle⟩

/-- The register table after the first `n` instructions. -/
def analyzePrefix (instrs : List TuInstruction) (n : Nat) : List TuVreg :=
  (List.range n).foldl (fun vregs i => analyzeInstr vregs (instrs.getD i default) i) []

theorem analyzePrefix_succ (instrs : List TuInstruction) (n : Nat) :
    analyzePrefix instrs (n + 1) = analyzeInstr (analyzePrefix instrs n) (instrs.getD n default) n := by
  unfold analyzePrefix
  rw [List.range_succ, List.foldl_append]
  rfl

theorem grows_analyzePrefix (instrs : List TuInstruction) {m n : Nat} (h : m ≤ n) :
    Grows (analyzePrefix instrs m) (analyzePrefix instrs n) := by
  induction n with
  | zero =>
    obtain rfl := Nat.le_zero.1 h
    exact Grows.refl _
  | succ n ih =>
    rcases Nat.le_succ_iff.1 h with h | rfl
    · rw [analyzePrefix_succ]
      exact ((ih h).trans (grows_analyzeDef _ _ n)).trans (grows_analyzeUses _ _ n)
    · exact Grows.refl _

theorem tuLiveAnalyze_eq {instrs : List TuInstruction} {vs : List TuVreg} (h : tuLiveAnalyze instrs = some vs) :
    vs = analyzePrefix instrs instrs.length := by
  unfold tuLiveAnalyze at h
  split at h
  · cases h
  · exact (Option.some.inj h).symm

/-- A prefix that does not overflow the table is analysed in full. -/
theorem analyzed_analyzePrefix {instrs : List TuInstruction} {n : Nat}
    (hroom : (demands instrs n).length ≤ tuLiveMaxVregs) : Analyzed instrs n (analyzePrefix instrs n) := by
  induction n with
  | zero => exact ⟨rfl, fun v hv => absurd hv List.not_mem_nil, fun i _ _ hi => absurd hi (Nat.not_lt_zero i)⟩
  | succ n ih =>
    rw [analyzePrefix_succ]
    exact (ih (Nat.le_trans (length_demands_mono (Nat.le_succ n)) hroom)).step hroom

/-- The registers of a program that does not overflow the table. -/
theorem analyze_analyzed {instrs : List TuInstruction} {vs : List TuVreg} (h : tuLiveAnalyze instrs = some vs)
    (hroom : (demands instrs instrs.length).length ≤ tuLiveMaxVregs) : Analyzed instrs instrs.length vs := by
  rw [tuLiveAnalyze_eq h]
  exact analyzed_analyzePrefix hroom

end Tusim
