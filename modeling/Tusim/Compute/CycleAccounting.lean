import Tusim.Compute.Toplevel

/-!
# The cycles of the core

A multiply adds its cycles to those of the core once, on both of its paths (`tuMma_adds`).  A transfer adds its cycles to
those of the engine `g_tu_dma`, while the wrapper reads those of `g_tu.dma`, which no transfer changes (`transfer_adds`).
So the account of the core is complete exactly as long as no transfer costs anything (`accounted_iff`).
-/

namespace Tusim

open Word Digits Run

/-! ### What a multiply adds -/

section

variable {R Mem : Type} (x : MmaOperands R Mem)

/-- The inline tiling returns and adds its cycles. -/
theorem tuMmaInline_cycles (M N K : UInt16) {peRows peCols : UInt16} (hrows : peRows ≠ 0) (hcols : peCols ≠ 0)
    {fuel : Nat} (hfuel : 2 ^ 16 ≤ fuel) (s : InlineState Mem) :
    ∃ s', tuMmaInline x M N K peRows peCols fuel s = some s' ∧
      u64 s'.estimatedCycles =
        u64 (s.estimatedCycles + inlineCycles M.toNat N.toNat K.toNat peRows.toNat peCols.toNat) := by
  let body (t : MmaTile) := inlineTile x N.toNat K.toNat peCols.toNat t fuel
  let ts := mmaTiles M.toNat N.toNat K.toNat peRows.toNat peCols.toNat peCols.toNat
  have htile : ∀ t ∈ ts, ∀ s : InlineState Mem, body t s = some ((body t s).getD s) ∧
      ((body t s).getD s).estimatedCycles =
        u64 (s.estimatedCycles + (tuPePipelineDepth * peCols.toNat + t.kCount)) := by
    intro t ht s
    have hloops := tileLoops_eq x (intIndex K.toNat) (intIndex N.toNat) (intIndex N.toNat) (within_of_mem ht) M.toNat_lt
      N.toNat_lt K.toNat_lt hfuel s.tile
    have hbody : body t s = some _ := congrArg (Option.map _) hloops
    rw [hbody]
    exact ⟨rfl, congrArg u64 (Nat.add_assoc _ _ _)⟩
  -- the cycles of the tiles run so far
  have hsum : ∀ (l : List MmaTile) (s : InlineState Mem), (∀ t ∈ l, t ∈ ts) →
      u64 (l.foldl (fun s t => (body t s).getD s) s).estimatedCycles =
        u64 (s.estimatedCycles + (l.map fun t => tuPePipelineDepth * peCols.toNat + t.kCount).sum) := by
    intro l
    induction l with
    | nil => intro s _; rfl
    | cons t l ih =>
      intro s hl
      rw [List.foldl_cons, ih _ fun t ht => hl t (List.mem_cons_of_mem _ ht), (htile t (hl t List.mem_cons_self) s).2,
        u64_u64_add, List.map_cons, List.sum_cons, Nat.add_assoc]
  refine ⟨ts.foldl (fun s t => (body t s).getD s) s, ?_, hsum ts s fun t ht => ht⟩
  exact overTiles_eq inlineCount_eq M.toNat_lt N.toNat_lt K.toNat_lt (toNat16_pos hrows) (toNat16_pos hcols)
    (toNat16_pos hcols) hfuel (fun t ht s => (htile t ht s).1) s

end

/-! ### What a call adds -/

/-- A multiply adds the same cycles to the core and to the sum over the multiplies, and leaves the engine alone. -/
theorem tuMma_adds {R : Type} (fmt : MmaFormats R) {fuel : Nat} (hfuel : 2 ^ 16 ≤ fuel) (s : TuToplevel) (c : MmaCall) :
    ∃ s' cycles, tuMma fmt fuel s c = some s' ∧ s'.mmaCycles = s.mmaCycles + cycles ∧
      u64 s'.estimatedCycles = u64 (s.estimatedCycles + cycles) ∧
      s'.engineEstimatedCycles = s.engineEstimatedCycles ∧ s'.dmaEstimatedCycles = s.dmaEstimatedCycles := by
  unfold tuMma
  by_cases hinit : s.initialized
  · simp only [hinit, Bool.not_true, Bool.false_eq_true, if_false]
    cases hplugin : s.dataflow with
    | some plugin =>
      dsimp only
      obtain ⟨r, hr, -⟩ := tuDataflowExecuteMma_writes
        (fmt.operands (tuSramRawPtr s.sramW) (tuSramRawPtr s.sramA) c.wOffset c.aOffset c.oOffset) plugin c.M c.N c.K
        s.cfg.peRows_ne s.cfg.peCols_ne s.cfg.peCols_ne s.cfg.pePipelineDepth
        (if c.hasBias then fmt.expandBias (tuSramRawPtr s.sramO) c.M c.N c.oOffset else tuSramRawPtr s.sramO)
      rw [hr fuel hfuel]
      exact ⟨_, r.cycles, rfl, rfl, Nat.mod_mod _ _, rfl, rfl⟩
    | none =>
      dsimp only
      obtain ⟨r, hr, hcycles⟩ := tuMmaInline_cycles
        (fmt.operands (tuSramRawPtr s.sramW) (tuSramRawPtr s.sramA) c.wOffset c.aOffset c.oOffset) c.M c.N c.K
        s.cfg.peRows_ne s.cfg.peCols_ne hfuel
        { tile := { o := if c.hasBias then fmt.expandBias (tuSramRawPtr s.sramO) c.M c.N c.oOffset
                      else tuSramRawPtr s.sramO
                    macs := [] }
          totalMmaTiles := s.totalMmaTiles
          totalMmaFlops := s.totalMmaFlops
          estimatedCycles := s.estimatedCycles }
      rw [hr]
      exact ⟨_, _, rfl, rfl, hcycles, rfl, rfl⟩
  · simp only [hinit, Bool.not_false, if_true]
    exact ⟨s, 0, rfl, rfl, rfl, rfl, rfl⟩

namespace TuToplevel

variable (s : TuToplevel)

/-- The cycles that the engine charges for a call. -/
def charge : TopCall → Nat
  | .loadW _ tuOffset sizeBytes =>
    if exceeds s.sramW tuOffset sizeBytes then 0
    else s.cfg.dma.readLatencyCycles.toNat + syncTransferCycles s.cfg.dma .hostToTu tuOffset sizeBytes
  | .loadA _ tuOffset sizeBytes =>
    if exceeds s.sramA tuOffset sizeBytes then 0
    else s.cfg.dma.readLatencyCycles.toNat + syncTransferCycles s.cfg.dma .hostToTu tuOffset sizeBytes
  | .storeO _ tuOffset sizeBytes =>
    if exceeds s.sramO tuOffset sizeBytes then 0
    else s.cfg.dma.writeLatencyCycles.toNat + syncTransferCycles s.cfg.dma .tuToHost tuOffset sizeBytes
  | .mma _ => 0

/-- A call for which the engine charges nothing: it is refused, or moves nothing in a direction without latency. -/
def ChargesNothing : TopCall → Prop
  | .loadW _ tuOffset sizeBytes =>
    exceeds s.sramW tuOffset sizeBytes ∨ sizeBytes = 0 ∧ s.cfg.dma.readLatencyCycles = 0
  | .loadA _ tuOffset sizeBytes =>
    exceeds s.sramA tuOffset sizeBytes ∨ sizeBytes = 0 ∧ s.cfg.dma.readLatencyCycles = 0
  | .storeO _ tuOffset sizeBytes =>
    exceeds s.sramO tuOffset sizeBytes ∨ sizeBytes = 0 ∧ s.cfg.dma.writeLatencyCycles = 0
  | .mma _ => True

/-- The charge of a transfer of `bytes` bytes with latency `latency` that the engine takes. -/
theorem charge_transfer {direction : TuDmaDirection} {refused : Bool} (cfg : TuDmaConfig)
    (latency offset bytes : UInt32) :
    let cost := if refused then 0 else latency.toNat + syncTransferCycles cfg direction offset bytes
    cost < 2 ^ 64 ∧ (cost = 0 ↔ refused ∨ bytes = 0 ∧ latency = 0) := by
  obtain ⟨hzero, hlt⟩ := syncTransferCycles_bounds cfg direction offset bytes
  have hlatency := latency.toNat_lt
  have hlatency' : latency.toNat = 0 ↔ latency = 0 := by
    rw [← UInt32.toNat_inj]
    rfl
  cases refused
  · simp only [Bool.false_eq_true, if_false, false_or, Nat.add_eq_zero_iff, hzero, hlatency']
    exact ⟨by omega, and_comm⟩
  · simp

theorem charge_spec (call : TopCall) : s.charge call < 2 ^ 64 ∧ (s.charge call = 0 ↔ s.ChargesNothing call) := by
  cases call with
  | loadW hostPtr tuOffset sizeBytes => exact charge_transfer s.cfg.dma _ _ _
  | loadA hostPtr tuOffset sizeBytes => exact charge_transfer s.cfg.dma _ _ _
  | storeO hostPtr tuOffset sizeBytes => exact charge_transfer s.cfg.dma _ _ _
  | mma c => exact ⟨Nat.two_pow_pos 64, iff_of_true rfl trivial⟩

theorem u64_chargeTransfer (direction : TuDmaDirection) (latency offset bytes : UInt32) :
    u64 (s.chargeTransfer direction latency offset bytes).engineEstimatedCycles =
      u64 (s.engineEstimatedCycles + (latency.toNat + syncTransferCycles s.cfg.dma direction offset bytes)) := by
  unfold chargeTransfer
  dsimp only
  rw [u64_u64_add, ← Nat.add_assoc]
  exact Nat.mod_mod _ _

/-- What any call adds, as long as `g_tu.dma.estimated_cycles` is zero, which it stays: the cycles of multiplies reach the
core, those of transfers only the engine. -/
theorem step_adds {R : Type} (fmt : MmaFormats R) (hdma : s.dmaEstimatedCycles = 0) (call : TopCall) :
    ∃ cycles, (s.step fmt call).mmaCycles = s.mmaCycles + cycles ∧
      u64 (s.step fmt call).estimatedCycles = u64 (s.estimatedCycles + cycles) ∧
      u64 (s.step fmt call).engineEstimatedCycles = u64 (s.engineEstimatedCycles + s.charge call) ∧
      (s.step fmt call).dmaEstimatedCycles = 0 := by
  have hrest : u64 (u64 (s.estimatedCycles + s.dmaEstimatedCycles)) = u64 (s.estimatedCycles + 0) := by
    rw [hdma]
    exact Nat.mod_mod _ _
  cases call with
  | loadW hostPtr tuOffset sizeBytes =>
    unfold step charge tuDmaLoadW tuDmaLoad
    by_cases h : exceeds s.sramW tuOffset sizeBytes
    · simp only [if_pos h]
      exact ⟨0, rfl, hrest, rfl, rfl⟩
    · simp only [if_neg h]
      exact ⟨0, rfl, hrest, s.u64_chargeTransfer .hostToTu s.cfg.dma.readLatencyCycles tuOffset sizeBytes, rfl⟩
  | loadA hostPtr tuOffset sizeBytes =>
    unfold step charge tuDmaLoadA tuDmaLoad
    by_cases h : exceeds s.sramA tuOffset sizeBytes
    · simp only [if_pos h]
      exact ⟨0, rfl, hrest, rfl, rfl⟩
    · simp only [if_neg h]
      exact ⟨0, rfl, hrest, s.u64_chargeTransfer .hostToTu s.cfg.dma.readLatencyCycles tuOffset sizeBytes, rfl⟩
  | storeO hostPtr tuOffset sizeBytes =>
    unfold step charge tuDmaStoreO tuDmaStore
    by_cases h : exceeds s.sramO tuOffset sizeBytes
    · simp only [if_pos h]
      exact ⟨0, rfl, hrest, rfl, rfl⟩
    · simp only [if_neg h]
      exact ⟨0, rfl, hrest, s.u64_chargeTransfer .tuToHost s.cfg.dma.writeLatencyCycles tuOffset sizeBytes, rfl⟩
  | mma c =>
    obtain ⟨s', cycles, hs', hmma, hcycles, hengine, hdma'⟩ := tuMma_adds fmt (Nat.le_refl _) s c
    have hstep : s.step fmt (.mma c) = s' := congrArg (Option.getD · s) hs'
    rw [hstep]
    exact ⟨cycles, hmma, hcycles, congrArg u64 hengine, hdma'.trans hdma⟩

/-! ### The account -/

/-- The cycles of the core are those the engine charged and those of the multiplies, as far as 64 bits hold them. -/
def Accounted : Prop := u64 s.estimatedCycles = u64 (s.engineEstimatedCycles + s.mmaCycles)

instance : Decidable s.Accounted := inferInstanceAs (Decidable (_ = _))

end TuToplevel

/-- From initialisation on, with any configuration and any calls: the cycles of the core are complete after every call if
and only if the engine charges nothing for any of the transfers. -/
theorem accounted_iff {R : Type} (fmt : MmaFormats R) (cfg : TuToplevelConfig) (sramW sramA sramO : TuSramRegion)
    (host : Nat → UInt8) (dataflow : Option TuDataflowPlugin) (calls : List TopCall) :
    let s := TuToplevel.fresh cfg sramW sramA sramO host dataflow
    (∀ k, (exec (TuToplevel.step fmt) s (calls.take k)).Accounted) ↔
      Along TuToplevel.ChargesNothing (TuToplevel.step fmt) s calls := by
  apply forall_take_iff_along (I := fun s => s.Accounted ∧ s.dmaEstimatedCycles = 0)
  · exact fun s h => h.1
  · rintro s call ⟨haccount, hdma⟩ hfree
    obtain ⟨cycles, hmma, hcycles, hengine, hdma'⟩ := s.step_adds fmt hdma call
    have hcost := (s.charge_spec call).2.2 hfree
    refine ⟨?_, hdma'⟩
    unfold TuToplevel.Accounted at haccount ⊢
    rw [hcost] at hengine
    unfold u64 at *
    omega
  · rintro s call ⟨haccount, hdma⟩ hcharged
    obtain ⟨cycles, hmma, hcycles, hengine, -⟩ := s.step_adds fmt hdma call
    obtain ⟨hlt, hfree⟩ := s.charge_spec call
    have hcost : s.charge call ≠ 0 := fun h => hcharged (hfree.1 h)
    unfold TuToplevel.Accounted at haccount ⊢
    unfold u64 at *
    omega
  · exact ⟨rfl, rfl⟩

/-- A load of 16 bytes with a latency of 50 cycles costs the engine 51 and the core nothing. -/
theorem load_not_accounted :
    let banks : TuSramBank :=
      { bankCount := 1, bankWidth := 4, bwBanks := fun _ => { wordsAvailable := 0, lastRefillCycle := 0 }
        bwRefillWindow := 0, currentCycle := 0, wordsPerCycle := 1, stallPenalty := 0, bwModeling := false }
    let region : TuSramRegion := { banks := banks, data := fun _ => 0, totalSize := 1024, db := none }
    let dma : TuDmaConfig :=
      { asyncMode := false, numChannels := 3, maxDepth := 4, readLatencyCycles := 50, writeLatencyCycles := 50
        numChannels_pos := by decide, numChannels_le := by decide, maxDepth_pos := by decide }
    let cfg : TuToplevelConfig :=
      { peRows := 4, peCols := 4, pePipelineDepth := 2, dma := dma, peRows_ne := by decide, peCols_ne := by decide }
    let fmt : MmaFormats Int :=
      { operands := fun _ _ _ _ _ =>
          { zero := 0, add := (· + ·), mul := (· * ·), w := fun _ => 0, a := fun _ => 0, loadO := fun _ _ => 0
            storeO := fun o _ _ => o }
        expandBias := fun o _ _ _ => o }
    let s := TuToplevel.fresh cfg region region region (fun _ => 0) (some { id := .weightStationary })
    let s' := s.step fmt (.loadW 4096 0 16)
    s'.engineEstimatedCycles = 51 ∧ s'.estimatedCycles = 0 ∧ ¬ s'.Accounted := by
  decide

end Tusim
