import Tusim.Dma.Timing

/-!
# The cost of a synchronous transfer

A linear descriptor that moves at least one byte takes at least one cycle, in every mode of the engine, and far less than
the counters hold (`linear_cycles_pos`, `linear_cycles_lt`); one that moves nothing takes none.
-/

namespace Tusim

open Word

theorem ceilDivU64_pos {value divisor : Nat} (hv : 0 < value) (hd : 0 < divisor) : 0 < ceilDivU64 value divisor := by
  unfold ceilDivU64
  by_cases hmod : value % divisor = 0
  · have hdvd := Nat.le_of_dvd hv (Nat.dvd_of_mod_eq_zero hmod)
    have := Nat.div_pos hdvd hd
    omega
  · simp [hmod]

theorem ceilDivU64_le (value : Nat) {divisor : Nat} (hd : 0 < divisor) : ceilDivU64 value divisor ≤ value := by
  have hsplit := Nat.div_add_mod value divisor
  have hmul := Nat.le_mul_of_pos_left (value / divisor) hd
  unfold ceilDivU64
  by_cases hmod : value % divisor = 0
  · simp only [hmod, bne_self_eq_false, Bool.false_eq_true, if_false]
    omega
  · simp only [bne_iff_ne, ne_eq, hmod, not_false_eq_true, if_true]
    omega

variable (cfg : TuDmaConfig)

/-- Every burst command of a segment takes between one cycle and as many as it has bytes. -/
theorem addAddressBoundedSegment_bounds (b : BurstBounds) (sramAddress externalAddress bytes : Nat) (t : BurstTotals)
    (h : t.payloadCycles + bytes < 2 ^ 64) :
    let t' := addAddressBoundedSegment cfg b sramAddress externalAddress bytes t
    t.payloadCycles ≤ t'.payloadCycles ∧ (0 < bytes → t.payloadCycles < t'.payloadCycles) ∧
      t'.payloadCycles ≤ t.payloadCycles + bytes ∧ t'.burstCount ≤ t.burstCount + bytes := by
  induction bytes using Nat.strongRecOn generalizing sramAddress externalAddress t with
  | ind bytes ih =>
    unfold addAddressBoundedSegment
    by_cases hbytes : 0 < bytes
    · rw [dif_pos hbytes]
      dsimp only
      generalize hchunk : b.chunk sramAddress externalAddress bytes = chunk
      have hpos : 0 < chunk := hchunk ▸ b.chunk_pos sramAddress externalAddress hbytes
      have hle : chunk ≤ bytes := by
        rw [← hchunk]
        unfold BurstBounds.chunk
        dsimp only
        split <;> split <;> split <;> omega
      have hcost := ceilDivU64_pos hpos cfg.busWidthBytes_pos
      have hcost' := ceilDivU64_le chunk cfg.busWidthBytes_pos
      have hcycles : u64 (t.payloadCycles + ceilDivU64 chunk cfg.busWidthBytes) =
          t.payloadCycles + ceilDivU64 chunk cfg.busWidthBytes := u64_of_lt (by omega)
      obtain ⟨hlow, -, hhigh, hcount⟩ := ih (bytes - chunk) (by omega) (u64 (sramAddress + chunk))
        (u64 (externalAddress + chunk))
        { burstCount := u64 (t.burstCount + 1),
          payloadCycles := u64 (t.payloadCycles + ceilDivU64 chunk cfg.busWidthBytes) }
        (by dsimp only; omega)
      dsimp only at hlow hhigh hcount
      have hnext := u64_le (t.burstCount + 1)
      refine ⟨by omega, fun _ => by omega, by omega, by omega⟩
    · rw [dif_neg hbytes]
      exact ⟨le_refl _, fun h => absurd h hbytes, by omega, by omega⟩

theorem burstAligned_bounds {bytes burstBytes : Nat} (hbytes : 0 < bytes) (hlt : bytes < 2 ^ 32)
    (hburst : 0 < burstBytes) :
    0 < burstAlignedPayloadCycles cfg bytes burstBytes ∧ burstAlignedPayloadCycles cfg bytes burstBytes ≤ bytes := by
  have hsplit := Nat.div_add_mod bytes burstBytes
  have hfull := ceilDivU64_le burstBytes cfg.busWidthBytes_pos
  have hfull' := ceilDivU64_pos hburst cfg.busWidthBytes_pos
  have hmul := Nat.mul_le_mul_left (bytes / burstBytes) hfull
  rw [Nat.mul_comm (bytes / burstBytes) burstBytes] at hmul
  have hcycles : u64 (bytes / burstBytes * ceilDivU64 burstBytes cfg.busWidthBytes) =
      bytes / burstBytes * ceilDivU64 burstBytes cfg.busWidthBytes := u64_of_lt (by omega)
  unfold burstAlignedPayloadCycles
  dsimp only
  rw [hcycles]
  split
  · rename_i htail
    have htail' := ceilDivU64_pos htail cfg.busWidthBytes_pos
    have htail'' := ceilDivU64_le (bytes % burstBytes) cfg.busWidthBytes_pos
    rw [u64_of_lt (by omega)]
    omega
  · have hq : 0 < bytes / burstBytes := Nat.div_pos (by
      by_contra hsmall
      rw [Nat.mod_eq_of_lt (by omega)] at hsplit
      have := Nat.mod_eq_of_lt (show bytes < burstBytes by omega)
      omega) hburst
    exact ⟨Nat.mul_pos hq hfull', by omega⟩

section

variable {desc : TuDmaDescriptor} (htype : desc.type = .linear)
include htype

theorem linear_segmentCount (hpos : desc.totalBytes ≠ 0) : descriptorLogicalSegmentCount desc = 1 := by
  unfold descriptorLogicalSegmentCount
  rw [if_neg hpos, htype]

theorem linear_segmentBytes : descriptorLogicalSegmentBytes desc = desc.totalBytes.toNat := by
  unfold descriptorLogicalSegmentBytes
  rw [htype]

theorem linear_boundedTotals (hpos : desc.totalBytes ≠ 0) :
    let t := descriptorAddressBoundedTotals cfg desc
    0 < t.payloadCycles ∧ t.payloadCycles ≤ desc.totalBytes.toNat ∧ t.burstCount ≤ desc.totalBytes.toNat := by
  have hbytes : 0 < desc.totalBytes.toNat := toNat_pos hpos
  have hlt := desc.totalBytes.toNat_lt
  unfold descriptorAddressBoundedTotals descriptorSegments
  rw [linear_segmentBytes htype, if_neg (by simp [hpos]; omega), htype]
  obtain ⟨-, hlow, hhigh, hcount⟩ := addAddressBoundedSegment_bounds cfg (descriptorBurstBounds cfg desc)
    (descriptorSramBase desc) desc.externalAddress desc.totalBytes.toNat {} (by dsimp only; omega)
  dsimp only [List.foldl_cons, List.foldl_nil] at hlow hhigh hcount ⊢
  exact ⟨hlow hbytes, by omega, by omega⟩

/-- The payload of a linear descriptor. -/
theorem linear_payload (hpos : desc.totalBytes ≠ 0) :
    0 < descriptorPayloadCycles cfg desc ∧ descriptorPayloadCycles cfg desc ≤ desc.totalBytes.toNat := by
  have hbytes : 0 < desc.totalBytes.toNat := toNat_pos hpos
  have hlt := desc.totalBytes.toNat_lt
  have hceil := ceilDivU64_pos hbytes cfg.busWidthBytes_pos
  have hceil' := ceilDivU64_le desc.totalBytes.toNat cfg.busWidthBytes_pos
  unfold descriptorPayloadCycles
  rw [if_neg hpos]
  split
  · exact ⟨hceil, hceil'⟩
  · rw [linear_segmentCount htype hpos, linear_segmentBytes htype]
    dsimp only
    rw [if_neg (by omega)]
    split
    · rw [Nat.one_mul, u64_of_lt (by omega)]
      exact ⟨hceil, hceil'⟩
    · split
      · obtain ⟨hlow, hhigh, -⟩ := linear_boundedTotals cfg htype hpos
        exact ⟨hlow, hhigh⟩
      · obtain ⟨hlow, hhigh⟩ := burstAligned_bounds cfg hbytes hlt (descriptorBurstBytes_pos cfg desc)
        split
        · rw [Nat.one_mul, u64_of_lt (by omega)]
          exact ⟨hlow, hhigh⟩
        · exact ⟨hlow, hhigh⟩

theorem linear_burstCount : descriptorBurstCount cfg desc ≤ desc.totalBytes.toNat := by
  have hlt := desc.totalBytes.toNat_lt
  have hceil := ceilDivU64_le desc.totalBytes.toNat (descriptorBurstBytes_pos cfg desc)
  unfold descriptorBurstCount
  dsimp only
  by_cases hpos : desc.totalBytes = 0
  · rw [if_pos hpos]
    exact Nat.zero_le _
  · rw [if_neg hpos]
    split
    · exact (linear_boundedTotals cfg htype hpos).2.2
    · split
      · exact hceil
      · rw [linear_segmentCount htype hpos, linear_segmentBytes htype]
        split
        · exact Nat.zero_le _
        · rw [Nat.one_mul, u64_of_lt (by omega)]
          exact hceil

end

theorem combinePayloadIssueCycles_bounds {payload bursts issue : Nat} (hpos : 0 < payload) (hpayload : payload < 2 ^ 32)
    (hbursts : bursts < 2 ^ 32) (hissue : issue ≤ 1024) :
    0 < combinePayloadIssueCycles cfg payload bursts issue ∧
      combinePayloadIssueCycles cfg payload bursts issue < 2 ^ 44 := by
  have hmul : bursts * issue ≤ 2 ^ 32 * 1024 := Nat.mul_le_mul hbursts.le hissue
  have hwrap : u64 (bursts * issue) = bursts * issue := u64_of_lt (by omega)
  unfold combinePayloadIssueCycles
  dsimp only
  rw [hwrap]
  split
  · rename_i hoverlap
    have hone : issue ≤ bursts * issue := Nat.le_mul_of_pos_left issue hoverlap.2.1
    have hrest : u64 (bursts * issue + 2 ^ 64 - issue) = bursts * issue - issue := by
      unfold u64
      omega
    rw [hrest]
    split <;> rw [u64_of_lt (by omega)] <;> omega
  · rw [u64_of_lt (by omega)]
    omega

/-- The descriptor that stands for a synchronous transfer. -/
def timingDescriptor (direction : TuDmaDirection) (offset bytes : UInt32) : TuDmaDescriptor :=
  match direction with
  | .tuToHost =>
    { descId := 0, type := .linear, direction := direction, channel := 0, srcBase := offset, elemSize := 0, totalBytes := bytes }
  | _ =>
    { descId := 0, type := .linear, direction := direction, channel := 0, dstBase := offset, elemSize := 0, totalBytes := bytes }

/-- The cycles that a synchronous transfer adds to those of the engine after its latency. -/
def syncTransferCycles (direction : TuDmaDirection) (offset bytes : UInt32) : Nat :=
  let timing := timingDescriptor direction offset bytes
  combinePayloadIssueCycles cfg (descriptorPayloadCycles cfg timing) (descriptorBurstCount cfg timing)
    (descriptorBurstIssueCycles cfg timing)

theorem timingDescriptor_type (direction : TuDmaDirection) (offset bytes : UInt32) :
    (timingDescriptor direction offset bytes).type = .linear := by
  unfold timingDescriptor
  split <;> rfl

theorem timingDescriptor_totalBytes (direction : TuDmaDirection) (offset bytes : UInt32) :
    (timingDescriptor direction offset bytes).totalBytes = bytes := by
  unfold timingDescriptor
  split <;> rfl

/-- A transfer takes cycles if and only if it moves bytes. -/
theorem syncTransferCycles_bounds (direction : TuDmaDirection) (offset bytes : UInt32) :
    (syncTransferCycles cfg direction offset bytes = 0 ↔ bytes = 0) ∧
      syncTransferCycles cfg direction offset bytes < 2 ^ 44 := by
  have htotal := timingDescriptor_totalBytes direction offset bytes
  have hbursts := linear_burstCount cfg (timingDescriptor_type direction offset bytes)
  unfold syncTransferCycles
  dsimp only
  by_cases hbytes : bytes = 0
  · have hzero : (timingDescriptor direction offset bytes).totalBytes = 0 := htotal.trans hbytes
    have hpayload : descriptorPayloadCycles cfg (timingDescriptor direction offset bytes) = 0 := by
      unfold descriptorPayloadCycles
      rw [if_pos hzero]
    have hcount : descriptorBurstCount cfg (timingDescriptor direction offset bytes) = 0 := by
      rw [hzero] at hbursts
      exact Nat.le_zero.1 hbursts
    rw [hpayload, hcount]
    unfold combinePayloadIssueCycles u64
    simp [hbytes]
  · have hne : (timingDescriptor direction offset bytes).totalBytes ≠ 0 := by
      rw [htotal]
      exact hbytes
    have hpayload := linear_payload cfg (timingDescriptor_type direction offset bytes) hne
    have hissue : descriptorBurstIssueCycles cfg (timingDescriptor direction offset bytes) ≤ 1024 := by
      unfold descriptorBurstIssueCycles
      split
      · exact cfg.writeBurstIssueCycles_le
      · exact cfg.readBurstIssueCycles_le
    have hlt := (timingDescriptor direction offset bytes).totalBytes.toNat_lt
    obtain ⟨hlow, hhigh⟩ := combinePayloadIssueCycles_bounds cfg hpayload.1 (by omega)
      (show descriptorBurstCount cfg (timingDescriptor direction offset bytes) < 2 ^ 32 by omega) hissue
    exact ⟨iff_of_false (by omega) hbytes, hhigh⟩

end Tusim
