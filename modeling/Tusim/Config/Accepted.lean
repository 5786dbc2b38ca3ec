import Tusim.Config.Runtime

/-!
# What an accepted configuration satisfies

* `EngineArgs` collects what the initialisation of the DMA engine asks of its arguments; it accepts those and the engine
  has the values given (`tuDmaInitConfig_accepts`);
* the arguments made from a validated document are of this kind (`engineArgs_of_validate`), since a document cannot give
  a clock of zero (`coreClock_pos`);
* the fields of the regions are in the ranges of the validation (`sramInRange`).
-/

namespace Tusim.Config

theorem andThen_eq_ok {x : Except String Unit} {next : Unit → Except String Unit} :
    (x >>= next) = .ok () ↔ x = .ok () ∧ next () = .ok () := by
  cases x <;> simp [bind, Except.bind]

/-- The arguments that the initialisation of the DMA engine accepts as they are. -/
structure EngineArgs (a : TuDmaInitArgs) : Prop where
  busMode : ¬notWithin 1 a.busMode
  arbPolicy : ¬notWithin 3 a.arbPolicy
  agingScope : ¬notWithin 1 a.agingScope
  agingMetric : ¬notWithin 1 a.agingMetric
  agingIncrement : a.agingIncrement.toNat ≤ 255
  agingMaxBoost : a.agingMaxBoost.toNat ≤ 255
  agingCycleQuantum : a.agingCycleQuantum.toNat ≤ 1048576
  drrQuantumBytes : burstBytesOk (orDefault a.drrQuantumBytes 256)
  drrCostMode : ¬notWithin 2 a.drrCostMode
  drrQuantumCycles : a.drrQuantumCycles.toNat ≤ 1048576
  bindingPolicy : ¬notWithin 4 a.bindingPolicy
  burstSegmentation : ¬notWithin 1 a.burstSegmentation
  baseLatencyScope : ¬notWithin 1 a.baseLatencyScope
  payloadScope : ¬notWithin 2 a.payloadScope
  issuePayloadMode : ¬notWithin 1 a.issuePayloadMode
  burstBoundaryMode : ¬notWithin 6 a.burstBoundaryMode
  busWidthBits : 32 ≤ a.busWidthBits.toNat ∧ a.busWidthBits.toNat ≤ 1024 ∧ isPow2 a.busWidthBits
  maxBurstBytes : burstBytesOk a.maxBurstBytes
  readMaxBurstBytes : burstBytesOk (orDefault a.readMaxBurstBytes a.maxBurstBytes)
  writeMaxBurstBytes : burstBytesOk (orDefault a.writeMaxBurstBytes a.maxBurstBytes)
  burstIssueCycles : a.burstIssueCycles.toNat ≤ 1024
  readBurstIssueCycles : a.readIssueConfigured → a.readBurstIssueCycles.toNat ≤ 1024
  writeBurstIssueCycles : a.writeIssueConfigured → a.writeBurstIssueCycles.toNat ≤ 1024
  numChannels : 1 ≤ a.numChannels.toNat ∧ a.numChannels.toNat ≤ 8
  maxQueueDepth : 1 ≤ a.maxQueueDepth.toNat

theorem decodeEnum_ok {α : Type} {values : List α} {last code : Int} (message : String)
    (hlast : last + 1 = values.length) (h : ¬notWithin last code) : ∃ v, decodeEnum values message code = .ok v := by
  unfold notWithin at h
  have hlt : code.toNat < values.length := by omega
  refine ⟨values[code.toNat], ?_⟩
  unfold decodeEnum
  rw [if_neg (by omega), List.getElem?_eq_getElem hlt]

theorem exists_of_decodeEnum {α β : Type} {values : List α} {message : String} {last code : Int}
    {next : α → Except String β} {P : β → Prop} (hlast : last + 1 = values.length) (h : ¬notWithin last code)
    (hnext : ∀ v, ∃ d, next v = .ok d ∧ P d) : ∃ d, (decodeEnum values message code >>= next) = .ok d ∧ P d := by
  obtain ⟨v, hv⟩ := decodeEnum_ok message hlast h
  rw [hv]
  exact hnext v

theorem orDefault_of_ne {x default : UInt32} (h : 1 ≤ x.toNat) : orDefault x default = x := by
  unfold orDefault
  refine if_neg ?_
  rintro rfl
  exact absurd h (by decide)

theorem orDefault_toNat_le {x default : UInt32} {n : Nat} (h : x ≠ 0 → x.toNat ≤ n) (hd : default.toNat ≤ n) :
    (orDefault x default).toNat ≤ n := by
  unfold orDefault
  split
  · exact hd
  · exact h ‹_›

theorem burstBytesOk_orDefault {x default : UInt32} (hx : x ≠ 0 → burstBytesOk x) (hd : burstBytesOk default) :
    burstBytesOk (orDefault x default) := by
  unfold orDefault
  split
  · exact hd
  · exact hx ‹_›

/-- The engine of an accepted initialisation has the channels, the depth, the bus and the bursts it was given. -/
theorem tuDmaInitConfig_accepts {a : TuDmaInitArgs} (h : EngineArgs a) :
    ∃ d, tuDmaInitConfig a = .ok d ∧ d.numChannels = a.numChannels.toNat ∧ d.maxDepth = a.maxQueueDepth ∧
      d.busWidthBytes = a.busWidthBits.toNat / 8 ∧
      d.readMaxBurstBytes = (orDefault a.readMaxBurstBytes a.maxBurstBytes).toNat ∧
      d.writeMaxBurstBytes = (orDefault a.writeMaxBurstBytes a.maxBurstBytes).toNat := by
  have hinc : (orDefault a.agingIncrement 1).toNat ≤ 255 := orDefault_toNat_le (fun _ => h.agingIncrement) (by decide)
  have hquantum : (orDefault a.agingCycleQuantum 1).toNat ≤ 1048576 :=
    orDefault_toNat_le (fun _ => h.agingCycleQuantum) (by decide)
  have hbytes : 16 ≤ (orDefault a.drrQuantumBytes 256).toNat ∧ (orDefault a.drrQuantumBytes 256).toNat ≤ 65536 ∧
      isPow2 (orDefault a.drrQuantumBytes 256) := h.drrQuantumBytes
  have hcycles : (orDefault a.drrQuantumCycles 64).toNat ≤ 1048576 :=
    orDefault_toNat_le (fun _ => h.drrQuantumCycles) (by decide)
  have hwidth : orDefault a.busWidthBits 256 = a.busWidthBits := orDefault_of_ne (by have := h.busWidthBits; omega)
  have hburst : orDefault a.maxBurstBytes 64 = a.maxBurstBytes := orDefault_of_ne (by have := h.maxBurstBytes.1; omega)
  have hchannels : orDefault a.numChannels 3 = a.numChannels := orDefault_of_ne h.numChannels.1
  have hdepth : orDefault a.maxQueueDepth 4 = a.maxQueueDepth := orDefault_of_ne h.maxQueueDepth
  have hread : (if a.readIssueConfigured then a.readBurstIssueCycles else a.burstIssueCycles).toNat ≤ 1024 := by
    split
    · exact h.readBurstIssueCycles ‹_›
    · exact h.burstIssueCycles
  have hwrite : (if a.writeIssueConfigured then a.writeBurstIssueCycles else a.burstIssueCycles).toNat ≤ 1024 := by
    split
    · exact h.writeBurstIssueCycles ‹_›
    · exact h.burstIssueCycles
  unfold tuDmaInitConfig
  refine exists_of_decodeEnum rfl h.busMode fun _ => ?_
  refine exists_of_decodeEnum rfl h.arbPolicy fun _ => ?_
  refine exists_of_decodeEnum rfl h.agingScope fun _ => ?_
  refine exists_of_decodeEnum rfl h.agingMetric fun _ => ?_
  dsimp only
  rw [dif_pos hinc, dif_pos h.agingMaxBoost, if_pos hquantum, dif_pos hbytes]
  refine exists_of_decodeEnum rfl h.drrCostMode fun _ => ?_
  rw [dif_pos hcycles]
  refine exists_of_decodeEnum rfl h.bindingPolicy fun _ => ?_
  refine exists_of_decodeEnum rfl h.burstSegmentation fun _ => ?_
  refine exists_of_decodeEnum rfl h.baseLatencyScope fun _ => ?_
  refine exists_of_decodeEnum rfl h.payloadScope fun _ => ?_
  refine exists_of_decodeEnum rfl h.issuePayloadMode fun _ => ?_
  refine exists_of_decodeEnum rfl h.burstBoundaryMode fun _ => ?_
  rw [dif_pos (by rw [hwidth]; exact h.busWidthBits),
    dif_pos ⟨by rw [hburst]; exact h.maxBurstBytes, by rw [hburst]; exact h.readMaxBurstBytes,
      by rw [hburst]; exact h.writeMaxBurstBytes, h.burstIssueCycles, hread, hwrite⟩,
    dif_pos (by rw [hchannels]; exact h.numChannels.2)]
  refine ⟨_, rfl, ?_⟩
  simp only [hchannels, hdepth, hwidth, hburst, and_self]

theorem not_notPow2Within {lo hi x : UInt32} :
    ¬notPow2Within lo hi x ↔ lo.toNat ≤ x.toNat ∧ x.toNat ≤ hi.toNat ∧ isPow2 x := by
  unfold notPow2Within
  rw [UInt32.lt_iff_toNat_lt, UInt32.lt_iff_toNat_lt]
  cases isPow2 x <;> simp

section

variable {F : Type} {fp : Doubles F}

theorem sections_of_validate {c : TuConfig F} (h : tuConfigValidate fp c = .ok ()) :
    validateSram c.sram = .ok () ∧ validateBursts c.dma = .ok () ∧ validateChannels c.dma = .ok () ∧
      validateAging fp c.dma c.dram.coreClockGhz = .ok () ∧ validateDram fp c.dram = .ok () := by
  unfold tuConfigValidate at h
  simp only [andThen_eq_ok] at h
  obtain ⟨-, hsram, hbursts, hchannels, haging, -, hdram, -⟩ := h
  exact ⟨hsram, hbursts, hchannels, haging, hdram⟩

/-- A document cannot give a clock of zero: the loader marks it as wrong. -/
theorem coreClock_pos {root : Json.TuJsonValue F} (h : validateDram fp (loadConfig fp root).dram = .ok ()) :
    fp.lt (fp.lit 0) (loadConfig fp root).dram.coreClockGhz := by
  have hone : fp.lt (fp.lit 0) (fp.lit 1) := by
    have := fp.lt_round 0 1 (by decide) (by decide)
    simpa [Doubles.lit] using this
  have hminus : fp.eq (fp.round true 1) (fp.lit 0) = false := by
    have := fp.eq_round true 1 0 (by decide) (by decide)
    simpa [Doubles.lit] using this
  unfold validateDram at h
  simp only [andThen_eq_ok, reject_eq_ok] at h
  obtain ⟨-, -, -, -, -, -, -, -, -, hclock⟩ := h
  by_cases heq : fp.eq (loadConfig fp root).dram.coreClockGhz (fp.lit 0) = false
  · by_contra hneg
    exact hclock ⟨heq, fun h => hneg h.1⟩
  · revert heq
    simp only [loadConfig, loadDram]
    cases parseOptDouble fp (tuJsonGet (tuJsonGet (some (tuSection root)) "memory") "dram") "core_clock_ghz" with
    | none => exact fun _ => hone
    | some x =>
      intro heq
      simp only [Option.map_some, Option.getD_some] at heq ⊢
      split at heq
      · rename_i hx
        rw [if_pos hx]
        simp only [Bool.and_eq_true] at hx
        exact hx.1
      · exact absurd hminus heq

/-- A quantum of time becomes at most `2^20` cycles, in either domain. -/
theorem agingCycleQuantum_le {c : TuConfig F} (hclock : fp.lt (fp.lit 0) c.dram.coreClockGhz)
    (h : validateAging fp c.dma c.dram.coreClockGhz = .ok ()) :
    (tuConfigToRuntime fp c).dma.agingCycleQuantum.toNat ≤ 1048576 := by
  unfold validateAging at h
  simp only [andThen_eq_ok, reject_eq_ok, not_or] at h
  obtain ⟨-, -, -, -, hcycles, -, hns, -⟩ := h
  simp only [tuConfigToRuntime, if_pos hclock]
  split
  · rename_i hdomain
    have hpos : fp.lt (fp.lit 0) c.dma.agingQuantumNs := by simpa using hns.1
    have hle : fp.lt (fp.lit 1048576) (fp.ceil (fp.mul c.dma.agingQuantumNs c.dram.coreClockGhz)) = false := by
      simpa [hdomain] using hns.2.2
    have hnonneg := fp.ceil_nonneg _ (fp.mul_nonneg _ _ hpos hclock)
    exact fp.toUInt32_le _ 1048576 (by decide) hnonneg (by simpa [Doubles.lit] using hle)
  · have := hcycles.2
    rw [UInt32.lt_iff_toNat_lt] at this
    exact Nat.le_of_not_lt this

/-- A validated configuration gives the engine arguments that it accepts. -/
theorem engineArgs_of_validate {c : TuConfig F} (hclock : fp.lt (fp.lit 0) c.dram.coreClockGhz)
    (h : tuConfigValidate fp c = .ok ()) : EngineArgs (tuConfigToRuntime fp c).dma := by
  obtain ⟨-, hbursts, hchannels, haging, -⟩ := sections_of_validate h
  have hquantum := agingCycleQuantum_le hclock haging
  unfold validateBursts at hbursts
  unfold validateChannels at hchannels
  unfold validateAging at haging
  simp only [andThen_eq_ok, reject_eq_ok, not_or, not_and, not_notPow2Within] at hbursts hchannels haging
  obtain ⟨hwidth, hmax, hdirections, hissue, hissues, hsegmentation, hbase, hpayload, hmode, hboundary⟩ := hbursts
  obtain ⟨hnum, hdepth, hbus, harb, hbytes, hcost, hcycles, -⟩ := hchannels
  obtain ⟨hscope, hmetric, hinc, hboost, -, -, -, hbinding⟩ := haging
  simp only [UInt32.lt_iff_toNat_lt, Nat.not_lt] at hissue hissues hnum hdepth hcycles hinc hboost
  exact
    { busMode := hbus
      arbPolicy := harb
      agingScope := hscope
      agingMetric := hmetric
      agingIncrement := hinc.2
      agingMaxBoost := hboost
      agingCycleQuantum := hquantum
      drrQuantumBytes := burstBytesOk_orDefault (fun _ => burstBytesOk_orDefault hbytes (by decide)) (by decide)
      drrCostMode := hcost
      drrQuantumCycles := orDefault_toNat_le hcycles (by decide)
      bindingPolicy := hbinding
      burstSegmentation := hsegmentation
      baseLatencyScope := hbase
      payloadScope := hpayload
      issuePayloadMode := hmode
      burstBoundaryMode := hboundary
      busWidthBits := hwidth
      maxBurstBytes := hmax
      readMaxBurstBytes := burstBytesOk_orDefault hdirections.1 hmax
      writeMaxBurstBytes := burstBytesOk_orDefault hdirections.2 hmax
      burstIssueCycles := hissue
      readBurstIssueCycles := hissues.1
      writeBurstIssueCycles := hissues.2
      numChannels := hnum
      maxQueueDepth := hdepth.1 }

/-- The fields that the regions are made from. -/
structure SramInRange (c : SramConfig) : Prop where
  numBanks : c.numBanks ≠ 0
  wordsPerCycle : 1 ≤ c.wordsPerCycle.toNat ∧ c.wordsPerCycle.toNat ≤ 255
  bwWindowCycles : 1 ≤ c.bwWindowCycles ∧ c.bwWindowCycles ≤ 1000000
  stallPenalty : c.stallPenalty ≠ 0
  wordMetering : ¬(c.wordMetering < 0 ∨ 1 < c.wordMetering)

theorem sramInRange {c : SramConfig} (h : validateSram c = .ok ()) : SramInRange c := by
  unfold validateSram at h
  simp only [andThen_eq_ok, reject_eq_ok, not_or] at h
  obtain ⟨-, -, hbanks, hwords, hwindow, hstall, hmetering⟩ := h
  simp only [UInt32.lt_iff_toNat_lt, UInt8.lt_iff_toNat_lt, Nat.not_lt] at hbanks hwords hwindow hstall
  refine ⟨?_, hwords, hwindow, ?_, hmetering⟩
  · rintro h0
    rw [h0] at hbanks
    exact absurd hbanks.1 (by decide)
  · intro h0
    rw [h0] at hstall
    exact absurd hstall (by decide)

end

end Tusim.Config
