import Tusim.Isa.LiveRanges
import Tusim.Isa.Coloring

/-!
# Live ranges of a region do not meet

A use extends the latest register of its region, so a register is dead when the next one is defined
(`analyze_apart`).  Two registers of a region overlap only when neither has a definition
(`Apart.implicit_of_overlaps`), and then they have no edge in the interference graph: the graph is empty
(`interferes_eq_false`).
-/

namespace Tusim

/-- The live ranges have an instruction in common. -/
def TuVreg.Overlaps (v w : TuVreg) : Prop := v.firstDef ≤ w.lastUse ∧ w.firstDef ≤ v.lastUse

instance (v w : TuVreg) : Decidable (v.Overlaps w) := inferInstanceAs (Decidable (_ ∧ _))

/-- What a register of the table has to do with a later one of its region. -/
def TuVreg.Earlier (v w : TuVreg) : Prop :=
  v.region = w.region → (0 ≤ w.firstDef → v.lastUse < w.firstDef) ∧ (w.firstDef < 0 → v.firstDef < 0)

/-- The live range lies among the first `n` instructions, `-1` standing for no definition. -/
structure TuVreg.Ranged (n : Nat) (v : TuVreg) : Prop where
  firstDef_ge : -1 ≤ v.firstDef
  firstDef_le : v.firstDef ≤ v.lastUse
  lastUse_nonneg : 0 ≤ v.lastUse
  lastUse_lt : v.lastUse < n

/-- The table after `n` instructions. -/
structure Apart (n : Nat) (vs : List TuVreg) : Prop where
  length_le : vs.length ≤ tuLiveMaxVregs
  ids : ∀ k, k < vs.length → (vs.getD k default).id = (k + 1).toUInt32
  ranged : ∀ v ∈ vs, v.Ranged n
  earlier : vs.Pairwise TuVreg.Earlier

/-! ### The table grows -/

private theorem TuVreg.Ranged.mono {n m : Nat} {v : TuVreg} (h : v.Ranged n) (hnm : n ≤ m) : v.Ranged m := by
  have hlt := h.lastUse_lt
  exact ⟨h.firstDef_ge, h.firstDef_le, h.lastUse_nonneg, by omega⟩

private theorem Apart.mono {n m : Nat} {vs : List TuVreg} (h : Apart n vs) (hnm : n ≤ m) : Apart m vs :=
  ⟨h.length_le, h.ids, fun v hv => (h.ranged v hv).mono hnm, h.earlier⟩

/-- A new register at the end of the table. -/
private theorem Apart.create {n : Nat} {vs : List TuVreg} (h : Apart (n + 1) vs) (operand : TuOperand) {firstDef : Int}
    (hge : -1 ≤ firstDef) (hle : firstDef ≤ n)
    (hnew : ∀ v ∈ vs, v.Earlier (TuVreg.create vs.length operand firstDef n)) :
    Apart (n + 1) (createVreg vs operand firstDef n) := by
  unfold createVreg
  split
  · exact h
  · rename_i hroom
    refine ⟨?_, fun k hk => ?_, fun v hv => ?_, ?_⟩
    · rw [List.length_append, List.length_singleton]
      omega
    · rw [List.length_append, List.length_singleton] at hk
      by_cases hlast : k < vs.length
      · rw [List.getD_append _ _ _ _ hlast]
        exact h.ids k hlast
      · obtain rfl : k = vs.length := by omega
        rw [List.getD_append_right _ _ _ _ (Nat.le_refl _), Nat.sub_self]
        rfl
    · rw [List.mem_append, List.mem_singleton] at hv
      rcases hv with hv | rfl
      · exact h.ranged v hv
      · have hlt : (n : Int) < ((n + 1 : Nat) : Int) := by omega
        exact ⟨hge, hle, Int.natCast_nonneg n, hlt⟩
    · rw [List.pairwise_append]
      refine ⟨h.earlier, List.pairwise_singleton _ _, fun v hv w hw => ?_⟩
      obtain rfl := List.mem_singleton.1 hw
      exact hnew v hv

/-- A definition comes after all uses so far. -/
private theorem Apart.define {n : Nat} {vs : List TuVreg} (h : Apart n vs) (instr : TuInstruction) :
    Apart (n + 1) (analyzeDef vs instr n) := by
  unfold analyzeDef
  cases extractVregDef instr with
  | none => exact h.mono (Nat.le_succ n)
  | some d =>
    refine (h.mono (Nat.le_succ n)).create d (by omega) (Int.le_refl _) fun v hv _ => ?_
    refine ⟨fun _ => (h.ranged v hv).lastUse_lt, fun hneg => ?_⟩
    have hneg : (n : Int) < 0 := hneg
    omega

private theorem TuVreg.Ranged.use {n : Nat} {v : TuVreg} (h : v.Ranged (n + 1)) : (v.use n).Ranged (n + 1) := by
  obtain ⟨hge, hle, hnonneg, hlt⟩ := h
  have hlast : (v.use n).lastUse = if (n : Int) > v.lastUse then (n : Int) else v.lastUse := rfl
  refine ⟨hge, ?_, ?_, ?_⟩
  · show v.firstDef ≤ _
    rw [hlast]
    split <;> omega
  · rw [hlast]
    split <;> omega
  · rw [hlast]
    split <;> omega

/-- A use extends the latest register of its region: every later register of the region would have no definition, but
such a register is made only before the first definition. -/
private theorem Apart.extend {n k : Nat} {vs : List TuVreg} {region : TuSramRegionId} (h : Apart (n + 1) vs)
    (hrecent : recentVreg vs region = some k) : Apart (n + 1) (vs.modify k (·.use n)) := by
  obtain ⟨hk, hkey, hmax⟩ := find?_reverse_range.1 k hrecent
  rw [List.getD_eq_getElem _ _ hk] at hkey
  simp only [Bool.and_eq_true, decide_eq_true_eq] at hkey
  refine ⟨by rw [List.length_modify]; exact h.length_le, fun q hq => ?_, fun v hv => ?_, ?_⟩
  · rw [List.length_modify] at hq
    rw [List.getD_eq_getElem _ _ (by rwa [List.length_modify]), List.getElem_modify, ← h.ids q hq,
      List.getD_eq_getElem _ _ hq]
    split <;> rfl
  · obtain ⟨q, hq, rfl⟩ := List.mem_iff_getElem.1 hv
    rw [List.length_modify] at hq
    rw [List.getElem_modify]
    split
    · exact (h.ranged vs[q] (List.getElem_mem hq)).use
    · exact h.ranged vs[q] (List.getElem_mem hq)
  · rw [List.pairwise_iff_getElem]
    intro p q hp hq hpq
    rw [List.length_modify] at hp hq
    have hearlier := List.pairwise_iff_getElem.1 h.earlier p q hp hq hpq
    rw [List.getElem_modify, List.getElem_modify]
    by_cases hkp : k = p
    · subst hkp
      rw [if_pos rfl, if_neg (Nat.ne_of_lt hpq)]
      intro hr
      have hr : vs[k].region = vs[q].region := hr
      obtain ⟨-, himplicit⟩ := hearlier hr
      refine ⟨fun hpos => ?_, himplicit⟩
      have hnot := hmax q hpq hq
      rw [List.getD_eq_getElem _ _ hq] at hnot
      simp [← hr, hkey.1, hpos] at hnot
    · rw [if_neg hkp]
      split
      · exact hearlier
      · exact hearlier

private theorem Apart.read {n : Nat} {vs : List TuVreg} (h : Apart (n + 1) vs) (u : TuOperand) :
    Apart (n + 1) (findOrCreateVreg vs u n false) := by
  unfold findOrCreateVreg
  rw [if_neg Bool.false_ne_true]
  cases hrecent : recentVreg vs u.region with
  | some k => exact h.extend hrecent
  | none =>
    refine h.create u (Int.le_refl _) (by omega) fun v hv hr => ⟨fun hpos => ?_, fun _ => ?_⟩
    · have hpos : (0 : Int) ≤ -1 := hpos
      omega
    · by_contra hneg
      exact recentVreg_none hrecent v hv hr (Int.not_lt.1 hneg)

theorem Apart.step {n : Nat} {vs : List TuVreg} (h : Apart n vs) (instr : TuInstruction) :
    Apart (n + 1) (analyzeInstr vs instr n) := by
  have huses : ∀ (uses : List TuOperand) (vs : List TuVreg), Apart (n + 1) vs →
      Apart (n + 1) (analyzeUses vs uses n) := by
    intro uses
    induction uses with
    | nil => exact fun _ hvs => hvs
    | cons u uses ih => exact fun vs hvs => ih _ (hvs.read u)
  exact huses _ _ (h.define instr)

theorem apart_analyzePrefix (instrs : List TuInstruction) (n : Nat) : Apart n (analyzePrefix instrs n) := by
  induction n with
  | zero => exact ⟨Nat.zero_le _, fun k hk => absurd hk (Nat.not_lt_zero k), fun v hv => absurd hv List.not_mem_nil,
      List.Pairwise.nil⟩
  | succ n ih =>
    rw [analyzePrefix_succ]
    exact ih.step _

theorem analyze_apart {instrs : List TuInstruction} {vs : List TuVreg} (h : tuLiveAnalyze instrs = some vs) :
    Apart instrs.length vs := by
  rw [tuLiveAnalyze_eq h]
  exact apart_analyzePrefix instrs instrs.length

/-! ### The interference graph -/

/-- Overlapping registers of a region have no definition. -/
theorem Apart.implicit_of_overlaps {n : Nat} {vs : List TuVreg} (h : Apart n vs) {p q : Nat} (hp : p < vs.length)
    (hq : q < vs.length) (hpq : p ≠ q) (hr : (vs.getD p default).region = (vs.getD q default).region)
    (hover : (vs.getD p default).Overlaps (vs.getD q default)) :
    (vs.getD p default).firstDef < 0 ∧ (vs.getD q default).firstDef < 0 := by
  have hearlier := List.pairwise_iff_getElem.1 h.earlier
  rw [List.getD_eq_getElem _ _ hp, List.getD_eq_getElem _ _ hq] at hr hover ⊢
  obtain ⟨hleft, hright⟩ := hover
  rcases Nat.lt_or_gt_of_ne hpq with hlt | hlt
  · obtain ⟨hexplicit, himplicit⟩ := hearlier p q hp hq hlt hr
    have hneg : vs[q].firstDef < 0 := by
      by_contra hc
      have hbefore := hexplicit (Int.not_lt.1 hc)
      omega
    exact ⟨himplicit hneg, hneg⟩
  · obtain ⟨hexplicit, himplicit⟩ := hearlier q p hq hp hlt hr.symm
    have hneg : vs[p].firstDef < 0 := by
      by_contra hc
      have hbefore := hexplicit (Int.not_lt.1 hc)
      omega
    exact ⟨hneg, himplicit hneg⟩

theorem mem_regionVregs {vs : List TuVreg} {region : TuSramRegionId} {k : Nat} :
    k ∈ regionVregs vs region ↔ k < vs.length ∧ (vs.getD k default).region = region := by
  unfold regionVregs
  rw [List.mem_filter, List.mem_range, decide_eq_true_eq]

theorem regionVregs_lt (vs : List TuVreg) (region : TuSramRegionId) : (regionVregs vs region).Pairwise (· < ·) :=
  List.pairwise_lt_range.filter _

/-- No two registers of a region interfere. -/
theorem interferes_eq_false {n : Nat} {vs : List TuVreg} (h : Apart n vs) (region : TuSramRegionId) {p q : Nat}
    (hp : p < (regionVregs vs region).length) (hq : q < (regionVregs vs region).length) :
    interferes vs (regionVregs vs region) p q = false := by
  by_contra hedge
  rw [Bool.not_eq_false] at hedge
  unfold interferes at hedge
  simp only [Bool.and_eq_true, decide_eq_true_eq] at hedge
  obtain ⟨⟨⟨⟨hpq, hpos⟩, -⟩, hleft⟩, hright⟩ := hedge
  rw [List.getD_eq_getElem _ _ hp, List.getD_eq_getElem _ _ hq] at hleft hright
  rw [List.getD_eq_getElem _ _ hp] at hpos
  have hmemp := mem_regionVregs.1 (List.getElem_mem hp)
  have hmemq := mem_regionVregs.1 (List.getElem_mem hq)
  have hne : (regionVregs vs region)[p] ≠ (regionVregs vs region)[q] := by
    have hlt := List.pairwise_iff_getElem.1 (regionVregs_lt vs region)
    rcases Nat.lt_or_gt_of_ne hpq with hc | hc
    · exact Nat.ne_of_lt (hlt p q hp hq hc)
    · exact Nat.ne_of_gt (hlt q p hq hp hc)
  have hneg := h.implicit_of_overlaps hmemp.1 hmemq.1 hne (hmemp.2.trans hmemq.2.symm) ⟨hleft, hright⟩
  omega

end Tusim
