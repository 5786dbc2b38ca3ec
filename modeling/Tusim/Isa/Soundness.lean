import Tusim.Isa.Placement

/-!
# Soundness of the colouring

Registers of a region that are alive together have no definition, and these are put at offset `0` without an
allocation.  So colouring keeps apart what has a definition (`color_sound`), and it keeps apart everything exactly
when a region has at most one such register that is not empty and whatever is placed fits (`coloringSound_iff`).
-/

namespace Tusim

/-- The register occupies byte `x` of its region. -/
def TuVreg.Occupies (v : TuVreg) (x : Nat) : Prop :=
  v.physicalOffset.toNat ≤ x ∧ x < v.physicalOffset.toNat + v.sizeBytes.toNat

/-- The register is not spilled and has an offset. -/
def TuVreg.Placed (v : TuVreg) : Prop := v.spilled = false ∧ v.physicalOffset ≠ tuUnassigned

/-- The bytes of the register lie within the capacity of its region less the safety margin. -/
def TuVreg.Within (config : TuLiveConfig) (v : TuVreg) : Prop :=
  ∀ x, v.Occupies x → x + config.safetyMargin.toNat < (regionCapacity config v.region).toNat

/-- Two different registers of a region are placed and alive together. -/
structure Coloring.Meet (s : Coloring) (p q : Nat) : Prop where
  lt_left : p < s.vregs.length
  lt_right : q < s.vregs.length
  ne : p ≠ q
  region : (s.vreg p).region = (s.vreg q).region
  placed_left : (s.vreg p).Placed
  placed_right : (s.vreg q).Placed
  overlaps : (s.vreg p).Overlaps (s.vreg q)

/-- Placed registers of a region that are alive together share no byte, and placed registers are in bounds. -/
structure ColoringSound (config : TuLiveConfig) (s : Coloring) : Prop where
  disjoint : ∀ p q, s.Meet p q → ∀ x, ¬ ((s.vreg p).Occupies x ∧ (s.vreg q).Occupies x)
  within : ∀ p, p < s.vregs.length → (s.vreg p).Placed → (s.vreg p).Within config

/-- What is placed fits, and no region has two registers without definition that are not empty. -/
structure Fits (config : TuLiveConfig) (vs : List TuVreg) : Prop where
  small : ∀ v ∈ vs, v.placeable config = true →
    v.sizeBytes.toNat = 0 ∨
      v.sizeBytes.toNat + config.safetyMargin.toNat ≤ (regionCapacity config v.region).toNat
  single : vs.Pairwise fun v w => v.region = w.region → v.firstDef < 0 → w.firstDef < 0 →
    v.sizeBytes.toNat = 0 ∨ w.sizeBytes.toNat = 0

variable {config : TuLiveConfig} {vs : List TuVreg} {s : Coloring} {n : Nat}

/-- A placed register is at offset `0`. -/
theorem TuVreg.Settled.placed {v : TuVreg} (h : v.Settled config) (hplaced : v.Placed) :
    v.placeable config = true ∧ v.physicalOffset = 0 := by
  unfold TuVreg.Settled at h
  split at h
  · rename_i hplace
    exact ⟨hplace, h⟩
  · rw [hplaced.1] at h
    exact absurd h.1 Bool.false_ne_true

/-- At offset `0` the bytes are those below the size. -/
theorem TuVreg.occupies_zero {v : TuVreg} (h : v.physicalOffset = 0) {x : Nat} :
    v.Occupies x ↔ x < v.sizeBytes.toNat := by
  unfold Occupies
  rw [h, UInt32.toNat_zero, Nat.zero_add]
  exact and_iff_right (Nat.zero_le x)

theorem TuVreg.within_zero {v : TuVreg} (h : v.physicalOffset = 0) :
    v.Within config ↔ v.sizeBytes.toNat = 0 ∨
      v.sizeBytes.toNat + config.safetyMargin.toNat ≤ (regionCapacity config v.region).toNat := by
  unfold Within
  simp only [occupies_zero h]
  constructor
  · intro hwithin
    by_cases hsize : v.sizeBytes.toNat = 0
    · exact Or.inl hsize
    · have hlast := hwithin (v.sizeBytes.toNat - 1) (by omega)
      exact Or.inr (by omega)
  · rintro (hsize | hfits) x hx
    · omega
    · omega

/-- Registers that meet have no definition. -/
theorem Places.implicit_of_meet (h : Places vs s) (hapart : Apart n vs) {p q : Nat} (hmeet : s.Meet p q) :
    (s.vreg p).firstDef < 0 ∧ (s.vreg q).firstDef < 0 := by
  have hp := hmeet.lt_left
  have hq := hmeet.lt_right
  have hr := hmeet.region
  have hover := hmeet.overlaps
  unfold TuVreg.Overlaps at hover
  rw [h.length] at hp hq
  rw [h.region, h.region] at hr
  rw [h.firstDef, h.firstDef, h.lastUse, h.lastUse] at hover
  rw [h.firstDef, h.firstDef]
  exact hapart.implicit_of_overlaps hp hq hmeet.ne hr hover

/-- Registers that meet share no byte, unless both have no definition: these are at offset `0`.  A register whose
region is larger than the safety margin is in bounds, unless it has no definition or spilling is off: then it is at
offset `0`. -/
theorem color_sound {instrs : List TuInstruction} {vs : List TuVreg} (h : tuLiveAnalyze instrs = some vs)
    (config : TuLiveConfig) :
    ∃ s, tuLiveColor config vs = some s ∧
      (∀ p q, s.Meet p q → (∀ x, ¬ ((s.vreg p).Occupies x ∧ (s.vreg q).Occupies x)) ∨
        (s.vreg p).firstDef < 0 ∧ (s.vreg q).firstDef < 0 ∧ (s.vreg p).physicalOffset = 0 ∧
          (s.vreg q).physicalOffset = 0) ∧
      ∀ p, p < s.vregs.length → (s.vreg p).Placed →
        config.safetyMargin ≤ regionCapacity config (s.vreg p).region →
          (s.vreg p).Within config ∨
            ((s.vreg p).firstDef < 0 ∨ config.enableSpilling = false) ∧ (s.vreg p).physicalOffset = 0 := by
  obtain ⟨s, hs, hplaces, hsettled, -⟩ := color_settled h config
  refine ⟨s, hs, fun p q hmeet => ?_, fun p hp hplaced hmargin => ?_⟩
  · obtain ⟨hpdef, hqdef⟩ := hplaces.implicit_of_meet (analyze_apart h) hmeet
    have hp := (hsettled p (by rw [← hplaces.length]; exact hmeet.lt_left)).placed hmeet.placed_left
    have hq := (hsettled q (by rw [← hplaces.length]; exact hmeet.lt_right)).placed hmeet.placed_right
    exact Or.inr ⟨hpdef, hqdef, hp.2, hq.2⟩
  · obtain ⟨hplace, hoffset⟩ := (hsettled p (by rw [← hplaces.length]; exact hp)).placed hplaced
    unfold TuVreg.placeable at hplace
    simp only [Bool.or_eq_true, decide_eq_true_eq, Bool.not_eq_true'] at hplace
    rcases hplace with hforced | hsize
    · exact Or.inr ⟨hforced, hoffset⟩
    · left
      rw [TuVreg.within_zero hoffset]
      rw [UInt32.le_iff_toNat_le, UInt32.toNat_sub_of_le _ _ hmargin] at hsize
      rw [UInt32.le_iff_toNat_le] at hmargin
      omega

/-- Two loads and their product. -/
theorem color_sound_loads_mma :
    let instrs : List TuInstruction :=
      [{ opcode := TuIsa.dmaLoad, dim1 := 32 }, { opcode := TuIsa.dmaLoad, flags := 1, dim1 := 32 },
        { opcode := TuIsa.mma, dim1 := 4, dim2 := 4 }]
    ∃ s, tuLiveColor tuLiveConfigDefault (analyzePrefix instrs 3) = some s ∧
      (∀ p q, s.Meet p q → (∀ x, ¬ ((s.vreg p).Occupies x ∧ (s.vreg q).Occupies x)) ∨
        (s.vreg p).firstDef < 0 ∧ (s.vreg q).firstDef < 0 ∧ (s.vreg p).physicalOffset = 0 ∧
          (s.vreg q).physicalOffset = 0) ∧
      ∀ p, p < s.vregs.length → (s.vreg p).Placed →
        tuLiveConfigDefault.safetyMargin ≤ regionCapacity tuLiveConfigDefault (s.vreg p).region →
          (s.vreg p).Within tuLiveConfigDefault ∨
            ((s.vreg p).firstDef < 0 ∨ tuLiveConfigDefault.enableSpilling = false) ∧ (s.vreg p).physicalOffset = 0 := by
  intro instrs
  exact @color_sound instrs _ rfl tuLiveConfigDefault

/-- Two products without loads: the weights of both are registers without definition at offset `0`. -/
theorem not_coloringSound_products :
    let instrs : List TuInstruction := List.replicate 2 { opcode := TuIsa.mma, dim0 := 4, dim1 := 4, dim2 := 4 }
    ∃ vs s, tuLiveAnalyze instrs = some vs ∧ tuLiveColor tuLiveConfigDefault vs = some s ∧
      ¬ ColoringSound tuLiveConfigDefault s := by
  intro instrs
  have hall : ((tuLiveAnalyze instrs).bind (tuLiveColor tuLiveConfigDefault)).any (fun s =>
      decide (4 < s.vregs.length ∧ (s.vreg 1).region = (s.vreg 4).region ∧ (s.vreg 1).Overlaps (s.vreg 4)) &&
        decide ((s.vreg 1).spilled = false ∧ (s.vreg 1).physicalOffset = 0 ∧ (s.vreg 1).sizeBytes.toNat = 32) &&
        decide ((s.vreg 4).spilled = false ∧ (s.vreg 4).physicalOffset = 0 ∧ (s.vreg 4).sizeBytes.toNat = 32)) =
      true := by decide +kernel
  obtain ⟨s, hs, hfacts⟩ := (Option.any_eq_true ..).1 hall
  obtain ⟨vs, hvs, hcolor⟩ := Option.bind_eq_some_iff.1 hs
  simp only [Bool.and_eq_true, decide_eq_true_eq] at hfacts
  obtain ⟨⟨⟨hlen, hr, hover⟩, hp, hpoffset, hpsize⟩, hq, hqoffset, hqsize⟩ := hfacts
  refine ⟨vs, s, hvs, hcolor, fun hsound => ?_⟩
  have hmeet : s.Meet 1 4 := by
    refine ⟨by omega, hlen, by decide, hr, ⟨hp, ?_⟩, ⟨hq, ?_⟩, hover⟩
    · rw [hpoffset]
      decide
    · rw [hqoffset]
      decide
  refine hsound.disjoint 1 4 hmeet 0 ⟨(TuVreg.occupies_zero hpoffset).2 ?_, (TuVreg.occupies_zero hqoffset).2 ?_⟩
  · omega
  · omega

/-! ### Exactly when -/

private theorem Fits.single_of_ne (h : Fits config vs) {p q : Nat} (hp : p < vs.length) (hq : q < vs.length)
    (hpq : p ≠ q) (hr : (vs.getD p default).region = (vs.getD q default).region)
    (hpdef : (vs.getD p default).firstDef < 0) (hqdef : (vs.getD q default).firstDef < 0) :
    (vs.getD p default).sizeBytes.toNat = 0 ∨ (vs.getD q default).sizeBytes.toNat = 0 := by
  have hsingle := List.pairwise_iff_getElem.1 h.single
  rw [List.getD_eq_getElem _ _ hp] at hr hpdef ⊢
  rw [List.getD_eq_getElem _ _ hq] at hr hqdef ⊢
  rcases Nat.lt_or_gt_of_ne hpq with hlt | hlt
  · exact hsingle p q hp hq hlt hr hpdef hqdef
  · exact (hsingle q p hq hp hlt hr.symm hqdef hpdef).symm

/-- When victims come in program order, colouring is sound exactly when everything that is placed fits and no
region has two registers without definition that are not empty; in any order that is enough. -/
theorem coloringSound_iff {instrs : List TuInstruction} {vs : List TuVreg} (h : tuLiveAnalyze instrs = some vs)
    (config : TuLiveConfig) :
    ∃ s, tuLiveColor config vs = some s ∧ (Fits config vs → ColoringSound config s) ∧
      (config.VictimsInOrder instrs.length → ColoringSound config s → Fits config vs) := by
  have hapart := analyze_apart h
  obtain ⟨s, hs, hplaces, hsettled, hordered⟩ := color_settled h config
  have hlt : ∀ {k}, k < s.vregs.length → k < vs.length := fun hk => hplaces.length ▸ hk
  refine ⟨s, hs, fun hfits => ⟨fun p q hmeet => ?_, fun p hp hplaced => ?_⟩, fun horder hsound => ?_⟩
  · obtain ⟨hpdef, hqdef⟩ := hplaces.implicit_of_meet hapart hmeet
    have hp := (hsettled p (hlt hmeet.lt_left)).placed hmeet.placed_left
    have hq := (hsettled q (hlt hmeet.lt_right)).placed hmeet.placed_right
    have hr := hmeet.region
    rw [hplaces.region, hplaces.region] at hr
    rw [hplaces.firstDef] at hpdef hqdef
    have hsingle := hfits.single_of_ne (hlt hmeet.lt_left) (hlt hmeet.lt_right) hmeet.ne hr hpdef hqdef
    intro x
    rw [TuVreg.occupies_zero hp.2, TuVreg.occupies_zero hq.2, hplaces.sizeBytes, hplaces.sizeBytes]
    omega
  · have hk := (hsettled p (hlt hp)).placed hplaced
    rw [TuVreg.within_zero hk.2]
    rw [hplaces.placeable] at hk
    rw [hplaces.sizeBytes, hplaces.region]
    refine hfits.small _ ?_ hk.1
    rw [List.getD_eq_getElem _ _ (hlt hp)]
    exact List.getElem_mem (hlt hp)
  · -- what can be placed is placed at offset `0`
    have hplaced : ∀ k, k < vs.length → (vs.getD k default).placeable config = true →
        (s.vreg k).Placed ∧ (s.vreg k).physicalOffset = 0 := by
      intro k hk hplace
      rw [← hplaces.placeable] at hplace
      have hoffset := hsettled k hk
      unfold TuVreg.Settled at hoffset
      rw [if_pos hplace] at hoffset
      refine ⟨⟨?_, ?_⟩, hoffset⟩
      · by_contra hspilled
        rw [Bool.not_eq_false] at hspilled
        rw [hordered horder k hk hspilled] at hplace
        cases hplace
      · rw [hoffset]
        decide
    constructor
    · intro v hv hplace
      obtain ⟨k, hk, rfl⟩ := List.mem_iff_getElem.1 hv
      rw [← List.getD_eq_getElem _ default hk] at hplace ⊢
      obtain ⟨hkplaced, hoffset⟩ := hplaced k hk hplace
      have hwithin := hsound.within k (by rw [hplaces.length]; exact hk) hkplaced
      rwa [TuVreg.within_zero hoffset, hplaces.sizeBytes, hplaces.region] at hwithin
    · rw [List.pairwise_iff_getElem]
      intro p q hp hq hpq hr hpdef hqdef
      have hplast := (hapart.ranged _ (List.getElem_mem hp)).lastUse_nonneg
      have hqlast := (hapart.ranged _ (List.getElem_mem hq)).lastUse_nonneg
      rw [← List.getD_eq_getElem _ default hp] at hr hpdef hplast ⊢
      rw [← List.getD_eq_getElem _ default hq] at hr hqdef hqlast ⊢
      have himplicit : ∀ v : TuVreg, v.firstDef < 0 → v.placeable config = true := by
        intro v hv
        unfold TuVreg.placeable
        rw [decide_eq_true hv]
        rfl
      obtain ⟨hpplaced, hpoffset⟩ := hplaced p hp (himplicit _ hpdef)
      obtain ⟨hqplaced, hqoffset⟩ := hplaced q hq (himplicit _ hqdef)
      have hover : (s.vreg p).Overlaps (s.vreg q) := by
        unfold TuVreg.Overlaps
        rw [hplaces.firstDef, hplaces.firstDef, hplaces.lastUse, hplaces.lastUse]
        omega
      have hmeet : s.Meet p q := by
        refine ⟨?_, ?_, Nat.ne_of_lt hpq, ?_, hpplaced, hqplaced, hover⟩
        · rw [hplaces.length]
          exact hp
        · rw [hplaces.length]
          exact hq
        · rw [hplaces.region, hplaces.region]
          exact hr
      have hnone := hsound.disjoint p q hmeet 0
      rw [TuVreg.occupies_zero hpoffset, TuVreg.occupies_zero hqoffset, hplaces.sizeBytes, hplaces.sizeBytes] at hnone
      omega

/-- Everything that two loads and their product need fits. -/
theorem coloringSound_iff_loads_mma :
    let instrs : List TuInstruction :=
      [{ opcode := TuIsa.dmaLoad, dim1 := 32 }, { opcode := TuIsa.dmaLoad, flags := 1, dim1 := 32 },
        { opcode := TuIsa.mma, dim1 := 4, dim2 := 4 }]
    ∃ s, tuLiveColor tuLiveConfigDefault (analyzePrefix instrs 3) = some s ∧ ColoringSound tuLiveConfigDefault s := by
  intro instrs
  obtain ⟨s, hs, hsound, -⟩ := @coloringSound_iff instrs _ rfl tuLiveConfigDefault
  exact ⟨s, hs, hsound ⟨by decide +kernel, by decide +kernel⟩⟩

end Tusim
