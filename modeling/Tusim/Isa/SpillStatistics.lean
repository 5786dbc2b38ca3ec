import Tusim.Isa.Placement

/-!
# The spill statistics

`tu_live_color` counts every time it marks a register.  A register that finds no place marks a victim and then itself.  If
these are the same register, it is counted twice.  If the victim waits for its own turn, it is placed or counted again
then; and if it had its turn, it is marked where it lies.  So the first register that finds no place upsets the
statistics, and no later turn repairs them (`settle_reckoned`): they are right exactly when every register can be placed
(`spillLedger_iff`).
-/

namespace Tusim

/-- The number of registers marked as spilled. -/
def Coloring.spilledCount (s : Coloring) : Nat := s.vregs.countP TuVreg.spilled

/-- The sum of their sizes. -/
def Coloring.spilledBytes (s : Coloring) : Nat :=
  ((s.vregs.filter TuVreg.spilled).map fun v => v.sizeBytes.toNat).sum

/-- The statistics agree with the marks, and no marked register has an offset. -/
structure SpillLedger (s : Coloring) : Prop where
  count : s.numSpills = s.spilledCount
  bytes : s.spillBytes.toNat = s.spilledBytes
  unplaced : ∀ v ∈ s.vregs, v.spilled = true → v.physicalOffset = tuUnassigned

/-- Nothing is marked or counted. -/
structure Unspilled (s : Coloring) : Prop where
  numSpills : s.numSpills = 0
  spillBytes : s.spillBytes = 0
  spilled : ∀ v ∈ s.vregs, v.spilled = false

/-- More was counted than is marked, or a marked register has an offset. -/
def Miscounted (s : Coloring) : Prop :=
  s.spilledCount < s.numSpills ∨ ∃ k, k < s.vregs.length ∧ (s.vreg k).spilled = true ∧ (s.vreg k).physicalOffset ≠ tuUnassigned

theorem Unspilled.ledger {s : Coloring} (h : Unspilled s) : SpillLedger s := by
  have hnone : s.vregs.filter TuVreg.spilled = [] :=
    List.filter_eq_nil_iff.2 fun v hv => by rw [h.spilled v hv]; exact Bool.false_ne_true
  refine ⟨?_, ?_, fun v hv hspilled => ?_⟩
  · unfold Coloring.spilledCount
    rw [h.numSpills, List.countP_eq_length_filter, hnone]
    rfl
  · unfold Coloring.spilledBytes
    rw [h.spillBytes, hnone]
    rfl
  · rw [h.spilled v hv] at hspilled
    cases hspilled

theorem Miscounted.not_ledger {s : Coloring} (h : Miscounted s) : ¬ SpillLedger s := by
  intro hledger
  rcases h with hless | ⟨k, hk, hspilled, hplaced⟩
  · have hcount := hledger.count
    omega
  · refine hplaced (hledger.unplaced _ ?_ hspilled)
    unfold Coloring.vreg
    rw [List.getD_eq_getElem _ _ hk]
    exact List.getElem_mem hk

/-! ### One update -/

private theorem zero_ne_unassigned : (0 : UInt32) ≠ tuUnassigned := by decide

private theorem countP_modify (p : TuVreg → Bool) (f : TuVreg → TuVreg) {vs : List TuVreg} {k : Nat} (hk : k < vs.length) :
    (vs.modify k f).countP p + (if p vs[k] then 1 else 0) = vs.countP p + (if p (f vs[k]) then 1 else 0) := by
  induction vs generalizing k with
  | nil => exact absurd hk (Nat.not_lt_zero k)
  | cons v vs ih =>
    cases k with
    | zero =>
      rw [List.modify_zero_cons, List.countP_cons, List.countP_cons, List.getElem_cons_zero]
      omega
    | succ k =>
      have hrest := ih (Nat.lt_of_succ_lt_succ hk)
      rw [List.modify_succ_cons, List.countP_cons, List.countP_cons, List.getElem_cons_succ]
      omega

namespace Coloring

variable {s : Coloring} {k : Nat}

theorem spilledCount_place (hk : k < s.vregs.length) (offset : UInt32) :
    (s.place k offset).spilledCount = s.spilledCount :=
  Nat.add_right_cancel (countP_modify TuVreg.spilled (fun v => { v with physicalOffset := offset }) hk)

/-- A mark counts once. -/
theorem spilledCount_spill (hk : k < s.vregs.length) :
    (s.spill k).spilledCount + (if (s.vreg k).spilled then 1 else 0) = s.spilledCount + 1 := by
  have hmodify := countP_modify TuVreg.spilled (fun v => { v with spilled := true }) hk
  unfold vreg
  rw [List.getD_eq_getElem _ _ hk]
  exact hmodify

theorem spilledCount_spill_le (hk : k < s.vregs.length) (h : s.spilledCount ≤ s.numSpills) :
    (s.spill k).spilledCount ≤ (s.spill k).numSpills := by
  have hcount := spilledCount_spill hk
  show _ ≤ s.numSpills + 1
  omega

theorem spilled_spill (hk : k < s.vregs.length) : ((s.spill k).vreg k).spilled = true := by
  rw [vreg_spill hk, if_pos rfl]

/-- Marks stay. -/
theorem spilled_mono (hk : k < s.vregs.length) {q : Nat} (h : (s.vreg q).spilled = true) :
    ((s.spill k).vreg q).spilled = true := by
  rw [vreg_spill hk]
  split
  · rfl
  · exact h

/-- Marking a register again is counted. -/
theorem miscounted_spill_again (hk : k < s.vregs.length) (h : s.spilledCount ≤ s.numSpills)
    (hspilled : (s.vreg k).spilled = true) : Miscounted (s.spill k) := by
  have hcount := spilledCount_spill hk
  rw [hspilled, if_pos rfl] at hcount
  refine Or.inl ?_
  show _ < s.numSpills + 1
  omega

/-- Placing a marked register gives it an offset. -/
theorem miscounted_place_spilled (hk : k < s.vregs.length) (hspilled : (s.vreg k).spilled = true) :
    Miscounted (s.place k 0) := by
  refine Or.inr ⟨k, by rw [length_place]; exact hk, ?_⟩
  rw [vreg_place hk, if_pos rfl]
  exact ⟨hspilled, zero_ne_unassigned⟩

end Coloring

section

variable {s : Coloring} {k : Nat}

theorem Miscounted.spill (h : Miscounted s) (hk : k < s.vregs.length) : Miscounted (s.spill k) := by
  rcases h with hless | ⟨q, hq, hspilled, hplaced⟩
  · have hcount := Coloring.spilledCount_spill hk
    refine Or.inl ?_
    show _ < s.numSpills + 1
    omega
  · refine Or.inr ⟨q, by rw [Coloring.length_spill]; exact hq, Coloring.spilled_mono hk hspilled, ?_⟩
    rw [Coloring.vreg_spill hk]
    split <;> exact hplaced

theorem Miscounted.place (h : Miscounted s) (hk : k < s.vregs.length) : Miscounted (s.place k 0) := by
  rcases h with hless | ⟨q, hq, hspilled, hplaced⟩
  · refine Or.inl ?_
    rw [Coloring.spilledCount_place hk]
    exact hless
  · refine Or.inr ⟨q, by rw [Coloring.length_place]; exact hq, ?_⟩
    rw [Coloring.vreg_place hk]
    split
    · exact ⟨hspilled, zero_ne_unassigned⟩
    · exact ⟨hspilled, hplaced⟩

end

/-! ### One turn -/

section Turn

variable {config : TuLiveConfig} {vs : List TuVreg} {region : TuSramRegionId} {s₀ s : Coloring} {m : Nat}

/-- The statistics before turn `m` of a region: nothing happened, they are wrong, or a marked register waits. -/
structure Reckoned (config : TuLiveConfig) (vs : List TuVreg) (region : TuSramRegionId) (m : Nat) (s : Coloring) : Prop where
  count_le : s.spilledCount ≤ s.numSpills
  cases : Unspilled s ∨ Miscounted s ∨
    ∃ p, m ≤ p ∧ p < (regionVregs vs region).length ∧ (s.vreg (memberAt vs region p)).spilled = true
  unspilled : (∀ v ∈ vs, v.placeable config = true) → Unspilled s

private theorem Unspilled.vreg (h : Unspilled s) (k : Nat) (hk : k < s.vregs.length) : (s.vreg k).spilled = false := by
  unfold Coloring.vreg
  rw [List.getD_eq_getElem _ _ hk]
  exact h.spilled _ (List.getElem_mem hk)

private theorem Unspilled.place (h : Unspilled s) {k : Nat} (hk : k < s.vregs.length) : Unspilled (s.place k 0) := by
  refine ⟨h.numSpills, h.spillBytes, fun v hv => ?_⟩
  obtain ⟨q, hq, rfl⟩ := List.mem_iff_getElem.1 hv
  rw [Coloring.length_place] at hq
  have hplace := Coloring.vreg_place hk 0 q
  unfold Coloring.vreg at hplace
  rw [List.getD_eq_getElem _ _ (by rw [Coloring.length_place]; exact hq)] at hplace
  rw [hplace]
  have hspilled := h.vreg q hq
  unfold Coloring.vreg at hspilled
  split <;> exact hspilled

/-- The position of the victim is one of the region. -/
private theorem selectSpillVictim_inside (s : Coloring) {members : List Nat} (strategy : TuSpillStrategy)
    (hpos : 0 < members.length) : selectSpillVictim s members strategy < members.length := by
  unfold selectSpillVictim
  have hfold : ∀ (ps : List Nat) (best : Nat × UInt32), (∀ p ∈ ps, p < members.length) → best.1 < members.length →
      (ps.foldl (fun (best : Nat × UInt32) p =>
        let v := s.vreg (members.getD p 0)
        if v.spilled || v.physicalOffset ≠ tuUnassigned then best
        else if strategy.score v > best.2 then (p, strategy.score v) else best) best).1 < members.length := by
    intro ps
    induction ps with
    | nil => exact fun best _ hbest => hbest
    | cons p ps ih =>
      intro best hps hbest
      refine ih _ (fun q hq => hps q (List.mem_cons_of_mem p hq)) ?_
      dsimp only
      split
      · exact hbest
      · split
        · exact hps p List.mem_cons_self
        · exact hbest
  exact hfold _ _ (fun p hp => List.mem_range.1 hp) hpos

/-- The first victim was not marked before. -/
private theorem Unspilled.makeRoom (h : Unspilled s) (config : TuLiveConfig) (hm : m < (regionVregs vs region).length)
    (hlt : ∀ k ∈ regionVregs vs region, k < s.vregs.length) :
    ∃ q, q < (regionVregs vs region).length ∧
      s.makeRoom config (regionVregs vs region) = s.spill (memberAt vs region q) := by
  have hvictim := selectSpillVictim_inside s config.spillStrategy (Nat.zero_lt_of_lt hm)
  refine ⟨_, hvictim, if_pos ?_⟩
  have hmem : (regionVregs vs region).getD (selectSpillVictim s (regionVregs vs region) config.spillStrategy) 0 ∈
      regionVregs vs region := by
    rw [List.getD_eq_getElem _ _ hvictim]
    exact List.getElem_mem hvictim
  rw [h.vreg _ (hlt _ hmem), decide_eq_true hvictim]
  rfl

/-- A register that can be placed takes its turn. -/
private theorem Reckoned.place (h : Reckoned config vs region m s) (hplacing : Placing config vs region s₀ m s)
    (hm : m < (regionVregs vs region).length) : Reckoned config vs region (m + 1) (s.place (memberAt vs region m) 0) := by
  have hk : memberAt vs region m < s.vregs.length := by
    rw [hplacing.places.length]
    exact (memberAt_mem hm).1
  refine ⟨?_, ?_, fun hall => (h.unspilled hall).place hk⟩
  · rw [Coloring.spilledCount_place hk]
    exact h.count_le
  · rcases h.cases with hclean | hwrong | ⟨p, hmp, hp, hspilled⟩
    · exact Or.inl (hclean.place hk)
    · exact Or.inr (Or.inl (hwrong.place hk))
    · rcases Nat.eq_or_lt_of_le hmp with rfl | hlt
      · exact Or.inr (Or.inl (Coloring.miscounted_place_spilled hk hspilled))
      · refine Or.inr (Or.inr ⟨p, hlt, hp, ?_⟩)
        rw [Coloring.vreg_place hk, if_neg (memberAt_ne hm hp (by omega))]
        exact hspilled

/-- A register that finds no place upsets the statistics. -/
private theorem Reckoned.evict (h : Reckoned config vs region m s) (hplacing : Placing config vs region s₀ m s)
    (hm : m < (regionVregs vs region).length)
    (hplace : (s.vreg (memberAt vs region m)).placeable config = false) :
    Reckoned config vs region (m + 1) ((s.makeRoom config (regionVregs vs region)).spill (memberAt vs region m)) := by
  have hlen := hplacing.places.length
  have hk : memberAt vs region m < s.vregs.length := by
    rw [hlen]
    exact (memberAt_mem hm).1
  have hnotAll : ¬ ∀ v ∈ vs, v.placeable config = true := by
    intro hall
    have hv := hall _ (List.getElem_mem (memberAt_mem hm).1)
    rw [hplacing.places.placeable, List.getD_eq_getElem _ _ (memberAt_mem hm).1, hv] at hplace
    cases hplace
  -- the state after the victim is marked
  obtain ⟨hlen₁, hcount₁, hmarks⟩ : (s.makeRoom config (regionVregs vs region)).vregs.length = s.vregs.length ∧
      (s.makeRoom config (regionVregs vs region)).spilledCount ≤ (s.makeRoom config (regionVregs vs region)).numSpills ∧
      ∀ q, (s.vreg q).spilled = true → ((s.makeRoom config (regionVregs vs region)).vreg q).spilled = true := by
    rcases s.makeRoom_cases config (regionVregs vs region) with heq | ⟨v, hv, heq⟩
    · rw [heq]
      exact ⟨rfl, h.count_le, fun _ hq => hq⟩
    · have hv : v < s.vregs.length := by
        rw [hlen]
        exact (mem_regionVregs.1 hv).1
      rw [heq]
      exact ⟨s.length_spill v, Coloring.spilledCount_spill_le hv h.count_le, fun _ hq => Coloring.spilled_mono hv hq⟩
  have hk₁ : memberAt vs region m < (s.makeRoom config (regionVregs vs region)).vregs.length := by
    rw [hlen₁]
    exact hk
  refine ⟨Coloring.spilledCount_spill_le hk₁ hcount₁, Or.inr ?_, fun hall => absurd hall hnotAll⟩
  rcases h.cases with hclean | hwrong | ⟨p, hmp, hp, hspilled⟩
  · obtain ⟨q, hq, hroom⟩ := hclean.makeRoom config hm fun k hk => by rw [hlen]; exact (mem_regionVregs.1 hk).1
    have hkq : memberAt vs region q < s.vregs.length := by
      rw [hlen]
      exact (memberAt_mem hq).1
    rw [hroom] at hk₁ hcount₁ ⊢
    rcases Nat.lt_trichotomy q m with hqm | rfl | hmq
    · -- the victim had its turn and is placed
      refine Or.inl (Miscounted.spill (Or.inr ⟨memberAt vs region q, by rw [Coloring.length_spill]; exact hkq,
        Coloring.spilled_spill hkq, ?_⟩) hk₁)
      have hsettled := hplacing.settled q hqm hq
      unfold TuVreg.Settled at hsettled
      rw [hclean.vreg _ hkq] at hsettled
      rw [Coloring.vreg_spill hkq, if_pos rfl]
      split at hsettled
      · show (s.vreg (memberAt vs region q)).physicalOffset ≠ _
        rw [hsettled]
        exact zero_ne_unassigned
      · exact absurd hsettled.1 Bool.false_ne_true
    · exact Or.inl (Coloring.miscounted_spill_again hk₁ hcount₁ (Coloring.spilled_spill hkq))
    · exact Or.inr ⟨q, hmq, hq, Coloring.spilled_mono hk₁ (Coloring.spilled_spill hkq)⟩
  · refine Or.inl (Miscounted.spill ?_ hk₁)
    rcases s.makeRoom_cases config (regionVregs vs region) with heq | ⟨v, hv, heq⟩
    · rw [heq]
      exact hwrong
    · rw [heq]
      exact hwrong.spill (by rw [hlen]; exact (mem_regionVregs.1 hv).1)
  · have hmarked := hmarks _ hspilled
    rcases Nat.eq_or_lt_of_le hmp with rfl | hlt
    · exact Or.inl (Coloring.miscounted_spill_again hk₁ hcount₁ hmarked)
    · exact Or.inr ⟨p, hlt, hp, Coloring.spilled_mono hk₁ hmarked⟩

/-- No turn repairs the statistics. -/
private theorem Reckoned.turn (h : Reckoned config vs region m s) (hplacing : Placing config vs region s₀ m s)
    (hm : m < (regionVregs vs region).length) : Reckoned config vs region (m + 1) (s.settle config vs region m) := by
  unfold Coloring.settle
  cases hplace : (s.vreg (memberAt vs region m)).placeable config with
  | true =>
    rw [if_pos rfl]
    exact h.place hplacing hm
  | false =>
    rw [if_neg Bool.false_ne_true]
    exact h.evict hplacing hm hplace

end Turn

/-! ### The whole colouring -/

/-- The statistics between two regions. -/
structure ReckonedSoFar (config : TuLiveConfig) (vs : List TuVreg) (s : Coloring) : Prop where
  count_le : s.spilledCount ≤ s.numSpills
  cases : Unspilled s ∨ Miscounted s
  unspilled : (∀ v ∈ vs, v.placeable config = true) → Unspilled s

private theorem ReckonedSoFar.region {config : TuLiveConfig} {n : Nat} {vs : List TuVreg} {regions : List TuSramRegionId}
    {region : TuSramRegionId} {s s' : Coloring} (h : ReckonedSoFar config vs s) (hcolored : Colored config n vs regions s)
    (hapart : Apart n vs) (huntouched : Untouched vs) (hnew : region ∉ regions)
    (hs' : colorRegion config s region = some s') : ReckonedSoFar config vs s' := by
  obtain ⟨s'', hs'', -, hdone⟩ := hcolored.region_turns hapart huntouched hnew
    (J := fun m s => Reckoned config vs region m s) ⟨h.count_le, h.cases.imp_right Or.inl, h.unspilled⟩
    fun m s hm hplacing hreckoned => hreckoned.turn hplacing hm
  obtain rfl : s' = s'' := Option.some.inj (hs'.symm.trans hs'')
  refine ⟨hdone.count_le, ?_, hdone.unspilled⟩
  rcases hdone.cases with hclean | hwrong | ⟨p, hlow, hhigh, -⟩
  · exact Or.inl hclean
  · exact Or.inr hwrong
  · exact absurd hhigh (Nat.not_lt.2 hlow)

/-- **The spill statistics.**  For every program and configuration they are right exactly if every register can be placed:
it has no definition, spilling is off, or its size fits the region. -/
theorem spillLedger_iff {instrs : List TuInstruction} {vs : List TuVreg} (h : tuLiveAnalyze instrs = some vs)
    (config : TuLiveConfig) :
    ∃ s, tuLiveColor config vs = some s ∧ (SpillLedger s ↔ ∀ v ∈ vs, v.placeable config = true) := by
  have hapart := analyze_apart h
  have huntouched := (analyze_tabled h).untouched
  have hunspilled : Unspilled { vregs := vs } := ⟨rfl, rfl, fun v hv => (huntouched v hv).1⟩
  have hcount : Coloring.spilledCount { vregs := vs } ≤ 0 := by
    rw [← hunspilled.ledger.count]
  obtain ⟨s, hs, ⟨regions, hall, hcolored⟩, hreckoned⟩ := color_regions h config
    (K := ReckonedSoFar config vs) ⟨hcount, Or.inl hunspilled, fun _ => hunspilled⟩
    fun regions region s s' hnew hcolored hsofar hs' => hsofar.region hcolored hapart huntouched hnew hs'
  refine ⟨s, hs, fun hledger v hv => ?_, fun hall => (hreckoned.unspilled hall).ledger⟩
  have hclean : Unspilled s := hreckoned.cases.resolve_right fun hwrong => hwrong.not_ledger hledger
  obtain ⟨k, hk, rfl⟩ := List.mem_iff_getElem.1 hv
  have hsettled := hcolored.settled k hk (hall _)
  unfold TuVreg.Settled at hsettled
  rw [hclean.vreg k (by rw [hcolored.places.length]; exact hk)] at hsettled
  split at hsettled
  · rename_i hplace
    rw [hcolored.places.placeable, List.getD_eq_getElem _ _ hk] at hplace
    exact hplace
  · exact absurd hsettled.1 Bool.false_ne_true

/-- Two loads and their product. -/
theorem spillLedger_iff_loads_mma :
    let instrs : List TuInstruction :=
      [{ opcode := TuIsa.dmaLoad, dim1 := 32 }, { opcode := TuIsa.dmaLoad, flags := 1, dim1 := 32 },
        { opcode := TuIsa.mma, dim1 := 4, dim2 := 4 }]
    ∃ s, tuLiveColor tuLiveConfigDefault (analyzePrefix instrs 3) = some s ∧
      (SpillLedger s ↔ ∀ v ∈ analyzePrefix instrs 3, v.placeable tuLiveConfigDefault = true) := by
  intro instrs
  exact @spillLedger_iff instrs _ rfl tuLiveConfigDefault

/-- The output of an attention instruction does not fit, and is its own victim. -/
theorem not_spillLedger_attention :
    let instrs : List TuInstruction := [{ opcode := TuIsa.attention }]
    ∃ vs s, tuLiveAnalyze instrs = some vs ∧ tuLiveColor tuLiveConfigDefault vs = some s ∧
      s.numSpills = 2 ∧ s.spilledCount = 1 ∧ ¬ SpillLedger s := by
  intro instrs
  have hall : ((tuLiveAnalyze instrs).bind (tuLiveColor tuLiveConfigDefault)).any (fun s =>
      decide (s.numSpills = 2 ∧ s.spilledCount = 1)) = true := by decide +kernel
  obtain ⟨s, hs, hfacts⟩ := (Option.any_eq_true ..).1 hall
  obtain ⟨vs, hvs, hcolor⟩ := Option.bind_eq_some_iff.1 hs
  obtain ⟨hevents, hmarks⟩ := of_decide_eq_true hfacts
  refine ⟨vs, s, hvs, hcolor, hevents, hmarks, fun hledger => ?_⟩
  have hcount := hledger.count
  omega

end Tusim
