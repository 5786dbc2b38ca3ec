import Mathlib.Algebra.Order.BigOperators.Group.List
import Mathlib.Tactic.Ring
import Tusim.Dma.SyncTransfer
import Tusim.Lib.Blocks

/-!
# Cutting segments into burst commands

`BurstBounds.chunks` are the lengths of the burst commands of a segment.  The loop takes the longest command that fits,
so it cuts the segment into the fewest commands that keep to the burst size and the boundaries
(`BurstBounds.chunks_greedy`).  The commands of a descriptor are never fewer than those of its segments cut by size
alone, and never shorter on the bus than the packed payload, as long as the 64-bit counters hold their numbers
(`addressBounded_splitting`).
-/

namespace Tusim

open Word Cutting

theorem ceilDivU64_le_iff {value divisor n : Nat} (hd : 0 < divisor) : ceilDivU64 value divisor ≤ n ↔ value ≤ n * divisor := by
  have hsplit := Nat.div_add_mod value divisor
  have hmod := Nat.mod_lt value hd
  have hscale : ∀ k, k ≤ n → divisor * k ≤ n * divisor := fun k hk => by
    rw [Nat.mul_comm n]
    exact Nat.mul_le_mul_left divisor hk
  have hbeyond : ∀ k, n < k → n * divisor + divisor ≤ divisor * k := fun k hk => by
    rw [Nat.mul_comm n, ← Nat.mul_succ]
    exact Nat.mul_le_mul_left divisor hk
  unfold ceilDivU64
  by_cases hzero : value % divisor = 0
  · simp only [hzero, bne_self_eq_false, Bool.false_eq_true, if_false, Nat.add_zero]
    constructor
    · intro h
      have hle := hscale _ h
      omega
    · intro h
      by_contra hlt
      have hge := hbeyond _ (Nat.not_le.1 hlt)
      omega
  · simp only [bne_iff_ne, ne_eq, hzero, not_false_eq_true, if_true]
    constructor
    · intro h
      have hle := hscale _ h
      rw [Nat.mul_succ] at hle
      omega
    · intro h
      by_contra hlt
      have hge := hbeyond _ (Nat.not_le.1 hlt)
      rw [Nat.mul_succ] at hge
      omega

/-- Rounding up the parts is never less than rounding up the whole. -/
theorem ceilDivU64_sum_le {divisor : Nat} (hd : 0 < divisor) (l : List Nat) :
    ceilDivU64 l.sum divisor ≤ (l.map fun c => ceilDivU64 c divisor).sum := by
  rw [ceilDivU64_le_iff hd]
  induction l with
  | nil => simp
  | cons c l ih =>
    have hc := (ceilDivU64_le_iff hd).1 (Nat.le_refl (ceilDivU64 c divisor))
    rw [List.map_cons, List.sum_cons, List.sum_cons, Nat.add_mul]
    omega

namespace BurstBounds

variable (b : BurstBounds)

/-- A burst command for the bytes from offset `a` of a segment may have length `c`. -/
def Admits (sramAddress externalAddress a c : Nat) : Prop :=
  c ≤ b.burstBytes ∧ (b.boundSram = true → Inside b.sramBoundaryBytes (sramAddress + a) c) ∧
    (b.boundExternal = true → Inside b.externalBoundaryBytes (externalAddress + a) c)

theorem admits_inherited (sramAddress externalAddress : Nat) : Inherited (b.Admits sramAddress externalAddress) := by
  rintro a c a' c' ⟨hburst, hsram, hexternal⟩ ha hc hle
  exact ⟨by omega, fun h => (hsram h).mono (by omega) hc (by omega), fun h => (hexternal h).mono (by omega) hc (by omega)⟩

/-- The addresses of a segment do not wrap around, or a multiple of the boundary does. -/
structure Fits (sramAddress externalAddress bytes : Nat) : Prop where
  sram_lt : sramAddress < 2 ^ 64
  external_lt : externalAddress < 2 ^ 64
  sram : b.boundSram = true → sramAddress + bytes ≤ 2 ^ 64 ∨ b.sramBoundaryBytes ∣ 2 ^ 64
  external : b.boundExternal = true → externalAddress + bytes ≤ 2 ^ 64 ∨ b.externalBoundaryBytes ∣ 2 ^ 64

/-- The lengths of the burst commands of a segment. -/
def chunks (sramAddress externalAddress bytes : Nat) : List Nat :=
  if h : 0 < bytes then
    let chunk := b.chunk sramAddress externalAddress bytes
    have := b.chunk_pos sramAddress externalAddress h
    chunk :: chunks (u64 (sramAddress + chunk)) (u64 (externalAddress + chunk)) (bytes - chunk)
  else []
termination_by bytes

/-- The next command is as long as everything allows. -/
theorem le_chunk_iff {sramAddress externalAddress bytes d : Nat} : d ≤ b.chunk sramAddress externalAddress bytes ↔
    d ≤ bytes ∧ d ≤ b.burstBytes ∧
      (b.boundSram = true → d ≤ b.sramBoundaryBytes - sramAddress % b.sramBoundaryBytes) ∧
      (b.boundExternal = true → d ≤ b.externalBoundaryBytes - externalAddress % b.externalBoundaryBytes) := by
  unfold chunk
  dsimp only
  cases b.boundSram <;> cases b.boundExternal <;> simp only [if_true, Bool.false_eq_true, if_false, false_implies,
    true_implies, and_true, true_and] <;> split <;> omega

private theorem u64_mod {x n bound : Nat} (hx : x < bound) (h : bound ≤ 2 ^ 64 ∨ n ∣ 2 ^ 64) : u64 x % n = x % n := by
  unfold u64
  rcases h with h | h
  · rw [Nat.mod_eq_of_lt (Nat.lt_of_lt_of_le hx h)]
  · exact Nat.mod_mod_of_dvd x h

/-- The commands are taken greedily. -/
theorem chunks_greedy {sramAddress externalAddress total : Nat} (hfits : b.Fits sramAddress externalAddress total)
    {bytes a : Nat} (ha : a + bytes = total) :
    Greedy (b.Admits sramAddress externalAddress) a
      (b.chunks (u64 (sramAddress + a)) (u64 (externalAddress + a)) bytes) total := by
  induction bytes using Nat.strongRecOn generalizing a with
  | ind bytes ih =>
    unfold chunks
    by_cases hbytes : 0 < bytes
    · rw [dif_pos hbytes]
      dsimp only
      have hadmits : ∀ d, 0 < d → (d ≤ b.chunk (u64 (sramAddress + a)) (u64 (externalAddress + a)) bytes ↔
          d ≤ bytes ∧ b.Admits sramAddress externalAddress a d) := by
        intro d hd
        rw [le_chunk_iff]
        refine and_congr_right fun _ => and_congr_right fun _ => and_congr ?_ ?_
        · refine forall_congr' fun hbound => ?_
          rw [inside_iff b.sramBoundaryBytes_pos hd,
            u64_mod (show sramAddress + a < sramAddress + total by omega) (hfits.sram hbound)]
        · refine forall_congr' fun hbound => ?_
          rw [inside_iff b.externalBoundaryBytes_pos hd,
            u64_mod (show externalAddress + a < externalAddress + total by omega) (hfits.external hbound)]
      have hpos := b.chunk_pos (u64 (sramAddress + a)) (u64 (externalAddress + a)) hbytes
      generalize b.chunk (u64 (sramAddress + a)) (u64 (externalAddress + a)) bytes = chunk at hadmits hpos ⊢
      obtain ⟨hle, hok⟩ := (hadmits chunk hpos).1 (Nat.le_refl _)
      refine ⟨hpos, hok, fun d hlonger hend hc => ?_, ?_⟩
      · have hshort := (hadmits d (by omega)).2 ⟨by omega, hc⟩
        omega
      · rw [u64_u64_add, u64_u64_add, Nat.add_assoc, Nat.add_assoc]
        exact ih (bytes - chunk) (by omega) (by omega)
    · rw [dif_neg hbytes]
      show a = total
      omega

theorem chunks_sum (sramAddress externalAddress bytes : Nat) : (b.chunks sramAddress externalAddress bytes).sum = bytes := by
  induction bytes using Nat.strongRecOn generalizing sramAddress externalAddress with
  | ind bytes ih =>
    unfold chunks
    by_cases hbytes : 0 < bytes
    · rw [dif_pos hbytes]
      dsimp only
      have hpos := b.chunk_pos sramAddress externalAddress hbytes
      have hle := (b.le_chunk_iff (d := b.chunk sramAddress externalAddress bytes)).1 (Nat.le_refl _)
      rw [List.sum_cons, ih _ (by omega)]
      omega
    · rw [dif_neg hbytes, List.sum_nil]
      omega

theorem chunks_le (sramAddress externalAddress bytes : Nat) :
    ∀ c ∈ b.chunks sramAddress externalAddress bytes, c ≤ b.burstBytes := by
  induction bytes using Nat.strongRecOn generalizing sramAddress externalAddress with
  | ind bytes ih =>
    unfold chunks
    by_cases hbytes : 0 < bytes
    · rw [dif_pos hbytes]
      have hpos := b.chunk_pos sramAddress externalAddress hbytes
      refine List.forall_mem_cons.2 ⟨(b.le_chunk_iff.1 (Nat.le_refl _)).2.1, ih _ (by omega) _ _⟩
    · rw [dif_neg hbytes]
      exact fun c hc => absurd hc List.not_mem_nil

/-- A segment needs at least as many commands as its size demands. -/
theorem ceilDivU64_le_chunks (sramAddress externalAddress bytes : Nat) :
    ceilDivU64 bytes b.burstBytes ≤ (b.chunks sramAddress externalAddress bytes).length := by
  rw [ceilDivU64_le_iff b.burstBytes_pos]
  have hle := List.sum_le_card_nsmul _ _ (b.chunks_le sramAddress externalAddress bytes)
  rw [b.chunks_sum] at hle
  exact hle

end BurstBounds

section

variable (cfg : TuDmaConfig)

/-- The payload cycles of burst commands. -/
def chunkCycles (chunks : List Nat) : Nat := (chunks.map fun c => ceilDivU64 c cfg.busWidthBytes).sum

/-- The loop counts its commands and sums their payload cycles modulo `2 ^ 64`. -/
theorem addAddressBoundedSegment_eq (b : BurstBounds) (sramAddress externalAddress bytes n p : Nat) :
    addAddressBoundedSegment cfg b sramAddress externalAddress bytes { burstCount := u64 n, payloadCycles := u64 p } =
      { burstCount := u64 (n + (b.chunks sramAddress externalAddress bytes).length)
        payloadCycles := u64 (p + chunkCycles cfg (b.chunks sramAddress externalAddress bytes)) } := by
  induction bytes using Nat.strongRecOn generalizing sramAddress externalAddress n p with
  | ind bytes ih =>
    unfold addAddressBoundedSegment BurstBounds.chunks
    by_cases hbytes : 0 < bytes
    · rw [dif_pos hbytes, dif_pos hbytes]
      have hpos := b.chunk_pos sramAddress externalAddress hbytes
      dsimp only
      rw [u64_u64_add, u64_u64_add, ih _ (by omega)]
      unfold chunkCycles
      rw [List.length_cons, List.map_cons, List.sum_cons, Nat.add_assoc, Nat.add_assoc, Nat.add_comm 1]
    · rw [dif_neg hbytes, dif_neg hbytes]
      rfl

variable (desc : TuDmaDescriptor)

/-- The lengths of the burst commands of a descriptor. -/
def descriptorChunks : List Nat :=
  (descriptorSegments desc).flatMap fun s => (descriptorBurstBounds cfg desc).chunks s.1 s.2.1 s.2.2

private theorem foldl_segments (b : BurstBounds) (segments : List (Nat × Nat × Nat)) (n p : Nat) :
    segments.foldl (fun t s => addAddressBoundedSegment cfg b s.1 s.2.1 s.2.2 t)
        { burstCount := u64 n, payloadCycles := u64 p } =
      { burstCount := u64 (n + (segments.flatMap fun s => b.chunks s.1 s.2.1 s.2.2).length)
        payloadCycles := u64 (p + chunkCycles cfg (segments.flatMap fun s => b.chunks s.1 s.2.1 s.2.2)) } := by
  induction segments generalizing n p with
  | nil => rfl
  | cons s segments ih =>
    rw [List.foldl_cons, addAddressBoundedSegment_eq, ih]
    unfold chunkCycles
    rw [List.flatMap_cons, List.length_append, List.map_append, List.sum_append, Nat.add_assoc, Nat.add_assoc]

theorem descriptorAddressBoundedTotals_eq (htotal : desc.totalBytes ≠ 0)
    (hbytes : descriptorLogicalSegmentBytes desc ≠ 0) :
    descriptorAddressBoundedTotals cfg desc =
      { burstCount := u64 (descriptorChunks cfg desc).length
        payloadCycles := u64 (chunkCycles cfg (descriptorChunks cfg desc)) } := by
  unfold descriptorAddressBoundedTotals
  rw [if_neg (by simp [htotal, hbytes])]
  have hfold := foldl_segments cfg (descriptorBurstBounds cfg desc) (descriptorSegments desc) 0 0
  rw [Nat.zero_add, Nat.zero_add] at hfold
  exact hfold

/-! ### The segments of a descriptor -/

variable {desc}

/-- The segments of a descriptor that is no multicast. -/
theorem descriptorSegments_spec (hcast : desc.type ≠ .multicast) (htotal : desc.totalBytes ≠ 0) :
    (descriptorSegments desc).length = descriptorLogicalSegmentCount desc ∧
      ∀ s ∈ descriptorSegments desc, s.2.2 = descriptorLogicalSegmentBytes desc := by
  unfold descriptorSegments descriptorLogicalSegmentCount descriptorLogicalSegmentBytes
  rw [if_neg htotal]
  dsimp only
  cases htype : desc.type <;> dsimp only
  case multicast => exact absurd htype hcast
  case strided3d =>
    refine ⟨?_, fun s hs => ?_⟩
    · simp
    · obtain ⟨d, -, hs⟩ := List.mem_flatMap.1 hs
      obtain ⟨r, -, rfl⟩ := List.mem_map.1 hs
      rfl
  all_goals
    refine ⟨by simp, fun s hs => ?_⟩
    first
    | obtain ⟨r, -, rfl⟩ := List.mem_map.1 hs
      rfl
    | rw [List.mem_singleton.1 hs]

/-- What the constructors store as the size of a descriptor. -/
def TuDmaDescriptor.Sized (desc : TuDmaDescriptor) : Prop :=
  match desc.type with
  | .strided2d => desc.totalBytes = desc.elemSize * desc.dims 0 * desc.dims 1
  | .strided3d => desc.totalBytes = desc.elemSize * desc.dims 0 * desc.dims 1 * desc.dims 2
  | .scatter | .gather => desc.totalBytes = desc.indexCount * desc.indexElemSize
  | _ => True

private theorem toNat_mul_le (a b : UInt32) : (a * b).toNat ≤ a.toNat * b.toNat := by
  rw [UInt32.toNat_mul]
  exact Nat.mod_le _ _

/-- The stored size may have wrapped around. -/
theorem TuDmaDescriptor.Sized.le (h : desc.Sized) (htotal : desc.totalBytes ≠ 0) :
    desc.totalBytes.toNat ≤ descriptorLogicalSegmentCount desc * descriptorLogicalSegmentBytes desc := by
  unfold TuDmaDescriptor.Sized at h
  unfold descriptorLogicalSegmentCount descriptorLogicalSegmentBytes
  rw [if_neg htotal]
  cases htype : desc.type <;> rw [htype] at h <;> dsimp only at h ⊢
  case linear => omega
  case multicast => omega
  case other => omega
  case strided2d =>
    rw [h]
    calc (desc.elemSize * desc.dims 0 * desc.dims 1).toNat
        ≤ (desc.elemSize * desc.dims 0).toNat * (desc.dims 1).toNat := toNat_mul_le _ _
      _ ≤ desc.elemSize.toNat * (desc.dims 0).toNat * (desc.dims 1).toNat :=
          Nat.mul_le_mul_right _ (toNat_mul_le _ _)
      _ = (desc.dims 0).toNat * (desc.elemSize.toNat * (desc.dims 1).toNat) := by ring
  case strided3d =>
    rw [h]
    calc (desc.elemSize * desc.dims 0 * desc.dims 1 * desc.dims 2).toNat
        ≤ (desc.elemSize * desc.dims 0 * desc.dims 1).toNat * (desc.dims 2).toNat := toNat_mul_le _ _
      _ ≤ (desc.elemSize * desc.dims 0).toNat * (desc.dims 1).toNat * (desc.dims 2).toNat :=
          Nat.mul_le_mul_right _ (toNat_mul_le _ _)
      _ ≤ desc.elemSize.toNat * (desc.dims 0).toNat * (desc.dims 1).toNat * (desc.dims 2).toNat :=
          Nat.mul_le_mul_right _ (Nat.mul_le_mul_right _ (toNat_mul_le _ _))
      _ = (desc.dims 0).toNat * (desc.dims 1).toNat * (desc.elemSize.toNat * (desc.dims 2).toNat) := by ring
  all_goals
    rw [h]
    exact toNat_mul_le _ _

/-! ### Comparison with the segments cut by size and the packed payload -/

/-- The commands of a descriptor are at least as many as its segments cut by size alone have. -/
theorem le_descriptorChunks (hcast : desc.type ≠ .multicast) (htotal : desc.totalBytes ≠ 0) :
    descriptorLogicalSegmentCount desc * ceilDivU64 (descriptorLogicalSegmentBytes desc) (descriptorBurstBytes cfg desc) ≤
      (descriptorChunks cfg desc).length := by
  obtain ⟨hcount, hbytes⟩ := descriptorSegments_spec hcast htotal
  unfold descriptorChunks
  rw [← hcount, List.length_flatMap, ← List.length_map (f := fun s =>
    ((descriptorBurstBounds cfg desc).chunks s.1 s.2.1 s.2.2).length)]
  refine List.card_nsmul_le_sum _ _ fun n hn => ?_
  obtain ⟨s, hs, rfl⟩ := List.mem_map.1 hn
  rw [← hbytes s hs]
  exact (descriptorBurstBounds cfg desc).ceilDivU64_le_chunks s.1 s.2.1 s.2.2

theorem descriptorChunks_sum (hcast : desc.type ≠ .multicast) (htotal : desc.totalBytes ≠ 0) :
    (descriptorChunks cfg desc).sum = descriptorLogicalSegmentCount desc * descriptorLogicalSegmentBytes desc := by
  obtain ⟨hcount, hbytes⟩ := descriptorSegments_spec hcast htotal
  unfold descriptorChunks
  rw [← hcount]
  generalize descriptorSegments desc = segments at hbytes
  induction segments with
  | nil => simp
  | cons s segments ih =>
    rw [List.forall_mem_cons] at hbytes
    rw [List.flatMap_cons, List.sum_append, ih hbytes.2, BurstBounds.chunks_sum, hbytes.1, List.length_cons, Nat.succ_mul,
      Nat.add_comm]

/-- The payload cycles of bursts of one segment. -/
def burstAlignedSum (bytes burstBytes : Nat) : Nat :=
  bytes / burstBytes * ceilDivU64 burstBytes cfg.busWidthBytes + ceilDivU64 (bytes % burstBytes) cfg.busWidthBytes

variable (desc)

/-- The payload cycles of a descriptor, before they wrap around. -/
def payloadSum : Nat :=
  if cfg.payloadScope = .packedDescriptor then ceilDivU64 desc.totalBytes.toNat cfg.busWidthBytes
  else if cfg.payloadScope = .alignLogicalSegment then
    descriptorLogicalSegmentCount desc * ceilDivU64 (descriptorLogicalSegmentBytes desc) cfg.busWidthBytes
  else if cfg.burstBoundaryMode ≠ .sizeOnly then chunkCycles cfg (descriptorChunks cfg desc)
  else if cfg.burstSegmentation = .logical then
    descriptorLogicalSegmentCount desc *
      burstAlignedSum cfg (descriptorLogicalSegmentBytes desc) (descriptorBurstBytes cfg desc)
  else burstAlignedSum cfg desc.totalBytes.toNat (descriptorBurstBytes cfg desc)

theorem burstAlignedPayloadCycles_eq (bytes burstBytes : Nat) :
    burstAlignedPayloadCycles cfg bytes burstBytes = u64 (burstAlignedSum cfg bytes burstBytes) := by
  unfold burstAlignedPayloadCycles burstAlignedSum
  dsimp only
  by_cases htail : 0 < bytes % burstBytes
  · rw [if_pos htail, u64_u64_add]
  · rw [if_neg htail, show bytes % burstBytes = 0 by omega]
    congr 1
    unfold ceilDivU64
    simp

variable {desc}

private theorem u64_mul_u64 (a b : Nat) : u64 (a * u64 b) = u64 (a * b) := by
  unfold u64
  exact Nat.mul_mod_mod a b _

/-- The engine computes the payload cycles modulo `2 ^ 64`. -/
theorem descriptorPayloadCycles_eq (htotal : desc.totalBytes ≠ 0) (hsized : desc.Sized) :
    descriptorPayloadCycles cfg desc = u64 (payloadSum cfg desc) := by
  have hle := hsized.le htotal
  have hpos := toNat_pos htotal
  have hsegments : ¬ (descriptorLogicalSegmentCount desc = 0 ∨ descriptorLogicalSegmentBytes desc = 0) := by
    rintro (hzero | hzero) <;> simp [hzero] at hle <;> omega
  have hlt := desc.totalBytes.toNat_lt
  have hpacked := ceilDivU64_le desc.totalBytes.toNat cfg.busWidthBytes_pos
  unfold descriptorPayloadCycles payloadSum
  dsimp only
  rw [if_neg htotal, if_neg hsegments]
  split
  · rw [u64_of_lt (by omega)]
  · split
    · rfl
    · split
      · rw [descriptorAddressBoundedTotals_eq cfg desc htotal fun h => hsegments (Or.inr h)]
      · split
        · rw [burstAlignedPayloadCycles_eq, u64_mul_u64]
        · rw [burstAlignedPayloadCycles_eq]

/-- Rounding up each burst. -/
theorem ceilDivU64_le_burstAlignedSum (bytes burstBytes : Nat) :
    ceilDivU64 bytes cfg.busWidthBytes ≤ burstAlignedSum cfg bytes burstBytes := by
  rw [ceilDivU64_le_iff cfg.busWidthBytes_pos]
  unfold burstAlignedSum
  have hsplit := Nat.div_add_mod bytes burstBytes
  have hburst := (ceilDivU64_le_iff cfg.busWidthBytes_pos).1 (Nat.le_refl (ceilDivU64 burstBytes cfg.busWidthBytes))
  have htail := (ceilDivU64_le_iff cfg.busWidthBytes_pos).1
    (Nat.le_refl (ceilDivU64 (bytes % burstBytes) cfg.busWidthBytes))
  have hfull := Nat.mul_le_mul_left (bytes / burstBytes) hburst
  rw [Nat.add_mul, Nat.mul_assoc]
  rw [Nat.mul_comm (bytes / burstBytes) burstBytes] at hfull
  omega

/-- No way of counting needs fewer cycles than the packed payload. -/
theorem packed_le_payloadSum (hcast : desc.type ≠ .multicast) (htotal : desc.totalBytes ≠ 0) (hsized : desc.Sized) :
    ceilDivU64 desc.totalBytes.toNat cfg.busWidthBytes ≤ payloadSum cfg desc := by
  have hle := hsized.le htotal
  have hbus := cfg.busWidthBytes_pos
  have hround : ∀ n, ceilDivU64 (descriptorLogicalSegmentBytes desc) cfg.busWidthBytes ≤ n →
      ceilDivU64 desc.totalBytes.toNat cfg.busWidthBytes ≤ descriptorLogicalSegmentCount desc * n := by
    intro n hn
    rw [ceilDivU64_le_iff hbus] at hn ⊢
    rw [Nat.mul_assoc]
    exact Nat.le_trans hle (Nat.mul_le_mul_left _ hn)
  unfold payloadSum
  split
  · exact Nat.le_refl _
  · split
    · exact hround _ (Nat.le_refl _)
    · split
      · have hsum := ceilDivU64_sum_le hbus (descriptorChunks cfg desc)
        rw [descriptorChunks_sum cfg hcast htotal] at hsum
        refine Nat.le_trans ?_ hsum
        rw [ceilDivU64_le_iff hbus]
        exact Nat.le_trans hle ((ceilDivU64_le_iff hbus).1 (Nat.le_refl _))
      · split
        · exact hround _ (ceilDivU64_le_burstAlignedSum cfg _ _)
        · exact ceilDivU64_le_burstAlignedSum cfg _ _

/-- Bursts bounded by their size within each segment. -/
def TuDmaConfig.sizeOnly (cfg : TuDmaConfig) : TuDmaConfig :=
  { cfg with burstBoundaryMode := .sizeOnly, burstSegmentation := .logical }

/-- Payload packed over the whole descriptor. -/
def TuDmaConfig.packed (cfg : TuDmaConfig) : TuDmaConfig := { cfg with payloadScope := .packedDescriptor }

theorem descriptorBurstCount_eq (hmode : cfg.burstBoundaryMode ≠ .sizeOnly) (htotal : desc.totalBytes ≠ 0)
    (hsized : desc.Sized) : descriptorBurstCount cfg desc = u64 (descriptorChunks cfg desc).length := by
  have hle := hsized.le htotal
  have hpos := toNat_pos htotal
  have hbytes : descriptorLogicalSegmentBytes desc ≠ 0 := by
    intro hzero
    rw [hzero, Nat.mul_zero] at hle
    omega
  unfold descriptorBurstCount
  dsimp only
  rw [if_neg htotal, if_pos hmode, descriptorAddressBoundedTotals_eq cfg desc htotal hbytes]

theorem descriptorBurstCount_sizeOnly_le :
    descriptorBurstCount cfg.sizeOnly desc ≤
      descriptorLogicalSegmentCount desc * ceilDivU64 (descriptorLogicalSegmentBytes desc) (descriptorBurstBytes cfg desc) := by
  unfold descriptorBurstCount
  dsimp only
  split
  · exact Nat.zero_le _
  · rw [if_neg (fun h => h rfl), if_neg (fun h => h rfl)]
    split
    · exact Nat.zero_le _
    · exact u64_le _

end

/-- The commands cut every segment into the fewest admissible pieces, and where the counters hold them, a descriptor
has no fewer commands than its segments cut by size and no fewer payload cycles than packed. -/
theorem addressBounded_splitting (cfg : TuDmaConfig) :
    (∀ (b : BurstBounds) (sramAddress externalAddress bytes : Nat), b.Fits sramAddress externalAddress bytes →
      (∀ n p, addAddressBoundedSegment cfg b sramAddress externalAddress bytes
          { burstCount := u64 n, payloadCycles := u64 p } =
        { burstCount := u64 (n + (b.chunks sramAddress externalAddress bytes).length)
          payloadCycles := u64 (p + chunkCycles cfg (b.chunks sramAddress externalAddress bytes)) }) ∧
      Cuts (b.Admits sramAddress externalAddress) 0 (b.chunks sramAddress externalAddress bytes) bytes ∧
      ∀ ds, Cuts (b.Admits sramAddress externalAddress) 0 ds bytes →
        (b.chunks sramAddress externalAddress bytes).length ≤ ds.length) ∧
    ∀ desc : TuDmaDescriptor, desc.type ≠ .multicast → desc.Sized →
      (cfg.burstBoundaryMode ≠ .sizeOnly → (descriptorChunks cfg desc).length < 2 ^ 64 →
        descriptorBurstCount cfg.sizeOnly desc ≤ descriptorBurstCount cfg desc) ∧
      (payloadSum cfg desc < 2 ^ 64 → descriptorPayloadCycles cfg.packed desc ≤ descriptorPayloadCycles cfg desc) := by
  refine ⟨fun b sramAddress externalAddress bytes hfits => ?_, fun desc hcast hsized => ?_⟩
  · have hgreedy := b.chunks_greedy hfits (Nat.zero_add bytes)
    rw [Nat.add_zero, Nat.add_zero, u64_of_lt hfits.sram_lt, u64_of_lt hfits.external_lt] at hgreedy
    exact ⟨addAddressBoundedSegment_eq cfg b sramAddress externalAddress bytes, hgreedy.cuts,
      fun ds hds => hgreedy.length_le (b.admits_inherited sramAddress externalAddress) hds⟩
  · by_cases htotal : desc.totalBytes = 0
    · have hcount : ∀ cfg, descriptorBurstCount cfg desc = 0 := fun cfg => if_pos htotal
      have hpayload : ∀ cfg, descriptorPayloadCycles cfg desc = 0 := fun cfg => if_pos htotal
      rw [hcount, hcount, hpayload, hpayload]
      exact ⟨fun _ _ => Nat.le_refl 0, fun _ => Nat.le_refl 0⟩
    · refine ⟨fun hmode hlt => ?_, fun hlt => ?_⟩
      · rw [descriptorBurstCount_eq cfg hmode htotal hsized, u64_of_lt hlt]
        exact Nat.le_trans (descriptorBurstCount_sizeOnly_le cfg) (le_descriptorChunks cfg hcast htotal)
      · have hpacked : descriptorPayloadCycles cfg.packed desc = ceilDivU64 desc.totalBytes.toNat cfg.busWidthBytes := by
          unfold descriptorPayloadCycles
          rw [if_neg htotal]
          exact if_pos rfl
        rw [hpacked, descriptorPayloadCycles_eq cfg htotal hsized, u64_of_lt hlt]
        exact packed_le_payloadSum cfg hcast htotal hsized

/-- A hundred bytes at an address that is no multiple of the burst size. -/
theorem addressBounded_splitting_misaligned :
    let cfg : TuDmaConfig :=
      { asyncMode := true, numChannels := 1, maxDepth := 4, burstBoundaryMode := .sramAddress,
        payloadScope := .alignBurstCommand, numChannels_pos := by decide, numChannels_le := by decide,
        maxDepth_pos := by decide }
    let desc := tuDmaDescCreateLinear 0 0 .hostToTu (some 0) 32 (some 0) 1 100
    let b := descriptorBurstBounds cfg desc
    b.chunks 32 0 100 = [32, 64, 4] ∧ Cuts (b.Admits 32 0) 0 (b.chunks 32 0 100) 100 ∧
      descriptorBurstCount cfg.sizeOnly desc ≤ descriptorBurstCount cfg desc ∧
      descriptorPayloadCycles cfg.packed desc ≤ descriptorPayloadCycles cfg desc := by
  intro cfg desc b
  have hfits : b.Fits 32 0 100 := ⟨by decide, by decide, fun _ => Or.inl (by decide), fun _ => Or.inl (by decide)⟩
  obtain ⟨-, hcuts, -⟩ := (addressBounded_splitting cfg).1 b 32 0 100 hfits
  obtain ⟨hcount, hpayload⟩ := (addressBounded_splitting cfg).2 desc (by decide) trivial
  exact ⟨by decide +kernel, hcuts, hcount (by decide) (by decide +kernel), hpayload (by decide +kernel)⟩

private theorem length_flatMap_eq {α : Type} {f : α → List Nat} {l : List α} {n : Nat} (h : ∀ a ∈ l, (f a).length = n) :
    (l.flatMap f).length = l.length * n := by
  induction l with
  | nil => simp
  | cons a l ih =>
    rw [List.forall_mem_cons] at h
    rw [List.flatMap_cons, List.length_append, ih h.2, h.1, List.length_cons, Nat.succ_mul, Nat.add_comm]

/-- A segment whose external addresses wrap around at a boundary that is no power of two is not cut into the fewest
commands.  A descriptor with `2 ^ 64` commands or more counts fewer of them than its segments cut by size. -/
theorem addressBounded_wraps :
    let b : BurstBounds :=
      { burstBytes := 48, boundSram := false, sramBoundaryBytes := 4096, boundExternal := true,
        externalBoundaryBytes := 48, burstBytes_pos := by decide, sramBoundaryBytes_pos := by decide,
        externalBoundaryBytes_pos := by decide }
    let cfg : TuDmaConfig :=
      { asyncMode := true, numChannels := 1, maxDepth := 4, burstBoundaryMode := .sramAddress,
        numChannels_pos := by decide, numChannels_le := by decide, maxDepth_pos := by decide }
    let desc :=
      tuDmaDescCreateStrided3d 0 0 .hostToTu (some 0) 32 (some 0) 0 0 0 0 1 0xFFFFFFFF 0xFFFFFFFF 64
    (¬ ∀ ds, Cuts (b.Admits 0 (2 ^ 64 - 8)) 0 ds 64 → (b.chunks 0 (2 ^ 64 - 8) 64).length ≤ ds.length) ∧
      ¬ descriptorBurstCount cfg.sizeOnly desc ≤ descriptorBurstCount cfg desc := by
  intro b cfg desc
  constructor
  · intro hall
    have hchunks : b.chunks 0 (2 ^ 64 - 8) 64 = [40, 16, 8] := by decide +kernel
    have hle := hall [40, 24] ⟨by decide, ⟨by decide, fun h => absurd h (by decide), fun _ => by unfold Inside; decide⟩,
      by decide, ⟨by decide, fun h => absurd h (by decide), fun _ => by unfold Inside; decide⟩, rfl⟩
    rw [hchunks] at hle
    exact absurd hle (by decide)
  · intro hle
    have htotal : desc.totalBytes ≠ 0 := by decide
    have hcount : descriptorLogicalSegmentCount desc = 4294967295 * 4294967295 := by
      unfold descriptorLogicalSegmentCount
      rw [if_neg htotal]
      rfl
    obtain ⟨hlength, -⟩ := @descriptorSegments_spec desc (by decide) htotal
    have htwo : ∀ s ∈ descriptorSegments desc, ((descriptorBurstBounds cfg desc).chunks s.1 s.2.1 s.2.2).length = 2 := by
      intro s hs
      obtain ⟨d, -, hs⟩ := List.mem_flatMap.1 hs
      obtain ⟨r, -, rfl⟩ := List.mem_map.1 hs
      have hsram : u64 (descriptorSramBase desc + d * (descriptorSramStrides desc 1).toNat +
          r * (descriptorSramStrides desc 0).toNat) = 32 := by
        rw [show (descriptorSramStrides desc 1).toNat = 0 from rfl, show (descriptorSramStrides desc 0).toNat = 0 from rfl,
          Nat.mul_zero, Nat.mul_zero]
        rfl
      have hexternal : u64 (desc.externalAddress + d * (desc.srcStrides 1).toNat + r * (desc.srcStrides 0).toNat) = 0 := by
        rw [show (desc.srcStrides 1).toNat = 0 from rfl, show (desc.srcStrides 0).toNat = 0 from rfl, Nat.mul_zero,
          Nat.mul_zero]
        rfl
      show ((descriptorBurstBounds cfg desc).chunks (u64 (descriptorSramBase desc +
        d * (descriptorSramStrides desc 1).toNat + r * (descriptorSramStrides desc 0).toNat))
        (u64 (desc.externalAddress + d * (desc.srcStrides 1).toNat + r * (desc.srcStrides 0).toNat)) 64).length = 2
      rw [hsram, hexternal]
      decide +kernel
    have hchunks : (descriptorChunks cfg desc).length = 4294967295 * 4294967295 * 2 := by
      unfold descriptorChunks
      rw [length_flatMap_eq htwo, hlength, hcount]
    rw [descriptorBurstCount_eq cfg (by decide) htotal rfl, hchunks] at hle
    have hsize : descriptorBurstCount cfg.sizeOnly desc = 4294967295 * 4294967295 := by decide +kernel
    rw [hsize] at hle
    exact absurd hle (by decide +kernel)

end Tusim

/-!
### Overlapping burst commands with payload

Serialized, a transfer takes its base cycles, its payload and all its burst commands.  Overlapped, the commands after
the first are hidden behind the payload or the payload behind them, so only the longer of the two counts
(`descriptorTransferCycles_overlapped`).
-/

namespace Tusim

open Word

section

variable (cfg : TuDmaConfig) (desc : TuDmaDescriptor)

/-- The engine with another way of issuing commands. -/
def TuDmaConfig.withIssue (mode : TuDmaIssuePayloadMode) : TuDmaConfig := { cfg with issuePayloadMode := mode }

/-- The cycles of all burst commands. -/
def totalIssue : Nat := descriptorBurstCount cfg desc * descriptorBurstIssueCycles cfg desc

/-- The cycles of the first burst command, if there is one. -/
def firstIssue : Nat := if descriptorBurstCount cfg desc = 0 then 0 else descriptorBurstIssueCycles cfg desc

/-- The cycles of the other burst commands. -/
def remainingIssue : Nat := totalIssue cfg desc - firstIssue cfg desc

theorem firstIssue_le : firstIssue cfg desc ≤ totalIssue cfg desc := by
  unfold firstIssue totalIssue
  split
  · exact Nat.zero_le _
  · exact Nat.le_mul_of_pos_left _ (by omega)

/-! ### What does not depend on the mode -/

variable (mode : TuDmaIssuePayloadMode)

theorem descriptorAddressBoundedTotals_withIssue :
    descriptorAddressBoundedTotals (cfg.withIssue mode) desc = descriptorAddressBoundedTotals cfg desc := by
  by_cases hnone : desc.totalBytes = 0 ∨ descriptorLogicalSegmentBytes desc = 0
  · unfold descriptorAddressBoundedTotals
    rw [if_pos hnone, if_pos hnone]
  · rw [not_or] at hnone
    rw [descriptorAddressBoundedTotals_eq _ desc hnone.1 hnone.2, descriptorAddressBoundedTotals_eq _ desc hnone.1 hnone.2]
    rfl

theorem descriptorBurstCount_withIssue :
    descriptorBurstCount (cfg.withIssue mode) desc = descriptorBurstCount cfg desc := by
  unfold descriptorBurstCount
  rw [descriptorAddressBoundedTotals_withIssue]
  rfl

theorem descriptorPayloadCycles_withIssue :
    descriptorPayloadCycles (cfg.withIssue mode) desc = descriptorPayloadCycles cfg desc := by
  unfold descriptorPayloadCycles
  rw [descriptorAddressBoundedTotals_withIssue]
  rfl

/-! ### Both modes -/

variable {cfg desc}
variable (hwrap : descriptorBaseCycles cfg desc + descriptorPayloadCycles cfg desc + totalIssue cfg desc < 2 ^ 64)
include hwrap

theorem descriptorTransferCycles_serialized :
    descriptorTransferCycles (cfg.withIssue .serialized) desc =
      descriptorBaseCycles cfg desc + descriptorPayloadCycles cfg desc + totalIssue cfg desc := by
  have hcombine : combinePayloadIssueCycles (cfg.withIssue .serialized) (descriptorPayloadCycles cfg desc)
      (descriptorBurstCount cfg desc) (descriptorBurstIssueCycles cfg desc) =
        descriptorPayloadCycles cfg desc + totalIssue cfg desc := by
    unfold combinePayloadIssueCycles
    dsimp only
    rw [if_neg (fun h => TuDmaIssuePayloadMode.noConfusion h.1)]
    show u64 (descriptorPayloadCycles cfg desc + u64 (totalIssue cfg desc)) = _
    rw [u64_of_lt (x := totalIssue cfg desc) (by omega), u64_of_lt (by omega)]
  unfold descriptorTransferCycles
  rw [descriptorPayloadCycles_withIssue, descriptorBurstCount_withIssue]
  show u64 (descriptorBaseCycles cfg desc + combinePayloadIssueCycles (cfg.withIssue .serialized) _ _
    (descriptorBurstIssueCycles cfg desc)) = _
  rw [hcombine, u64_of_lt (by omega)]
  omega

theorem descriptorTransferCycles_overlapped :
    descriptorTransferCycles (cfg.withIssue .overlapped) desc =
      descriptorBaseCycles cfg desc + firstIssue cfg desc +
        max (descriptorPayloadCycles cfg desc) (remainingIssue cfg desc) := by
  have hfirst := firstIssue_le cfg desc
  have hcombine : combinePayloadIssueCycles (cfg.withIssue .overlapped) (descriptorPayloadCycles cfg desc)
      (descriptorBurstCount cfg desc) (descriptorBurstIssueCycles cfg desc) =
        firstIssue cfg desc + max (descriptorPayloadCycles cfg desc) (remainingIssue cfg desc) := by
    unfold combinePayloadIssueCycles
    dsimp only
    rw [show u64 (descriptorBurstCount cfg desc * descriptorBurstIssueCycles cfg desc) = totalIssue cfg desc from
      u64_of_lt (by unfold totalIssue at hwrap; omega)]
    unfold remainingIssue
    by_cases hissue : descriptorBurstCount cfg desc > 0 ∧ descriptorBurstIssueCycles cfg desc > 0
    · have hone : firstIssue cfg desc = descriptorBurstIssueCycles cfg desc := if_neg (by omega)
      have hrest : u64 (totalIssue cfg desc + 2 ^ 64 - descriptorBurstIssueCycles cfg desc) =
          totalIssue cfg desc - firstIssue cfg desc := by
        unfold u64
        omega
      rw [if_pos ⟨rfl, hissue⟩, hrest, ← hone]
      split <;> rw [u64_of_lt (by omega)] <;> omega
    · have hnone : firstIssue cfg desc = 0 ∧ totalIssue cfg desc = 0 := by
        unfold firstIssue totalIssue
        rw [not_and_or] at hissue
        rcases hissue with hzero | hzero
        · simp [show descriptorBurstCount cfg desc = 0 by omega]
        · simp [show descriptorBurstIssueCycles cfg desc = 0 by omega]
      rw [if_neg fun h => hissue h.2, u64_of_lt (by omega), hnone.1, hnone.2]
      omega
  unfold descriptorTransferCycles
  rw [descriptorPayloadCycles_withIssue, descriptorBurstCount_withIssue]
  show u64 (descriptorBaseCycles cfg desc + combinePayloadIssueCycles (cfg.withIssue .overlapped) _ _
    (descriptorBurstIssueCycles cfg desc)) = _
  unfold remainingIssue at hcombine ⊢
  rw [hcombine, u64_of_lt (by omega)]
  omega

/-- Overlapping never costs cycles, hides no more than it can, and hides nothing exactly if there is nothing to hide or
nothing to hide it behind. -/
theorem overlapped_bounds :
    descriptorTransferCycles (cfg.withIssue .overlapped) desc ≤ descriptorTransferCycles (cfg.withIssue .serialized) desc ∧
      descriptorBaseCycles cfg desc +
          max (descriptorPayloadCycles cfg desc + firstIssue cfg desc) (totalIssue cfg desc) ≤
        descriptorTransferCycles (cfg.withIssue .overlapped) desc ∧
      (descriptorTransferCycles (cfg.withIssue .overlapped) desc =
          descriptorTransferCycles (cfg.withIssue .serialized) desc ↔
        descriptorBurstCount cfg desc = 0 ∨ descriptorBurstIssueCycles cfg desc = 0 ∨
          descriptorPayloadCycles cfg desc = 0 ∨ remainingIssue cfg desc = 0) := by
  have hfirst := firstIssue_le cfg desc
  have hhidden : descriptorBurstCount cfg desc = 0 ∨ descriptorBurstIssueCycles cfg desc = 0 →
      remainingIssue cfg desc = 0 := by
    unfold remainingIssue totalIssue
    rintro (hzero | hzero) <;> simp [hzero]
  rw [descriptorTransferCycles_overlapped hwrap, descriptorTransferCycles_serialized hwrap]
  have hsplit : totalIssue cfg desc = firstIssue cfg desc + remainingIssue cfg desc := by
    unfold remainingIssue
    omega
  rw [hsplit]
  refine ⟨by omega, by omega, fun h => ?_, fun h => ?_⟩
  · omega
  · rcases h with h | h | h | h
    · have hrest := hhidden (Or.inl h)
      omega
    · have hrest := hhidden (Or.inr h)
      omega
    · omega
    · omega

end

/-- A hundred bytes in two bursts. -/
theorem overlapped_bounds_linear :
    let cfg : TuDmaConfig :=
      { asyncMode := true, numChannels := 1, maxDepth := 4, readBurstIssueCycles := 3, readLatencyCycles := 5,
        numChannels_pos := by decide, numChannels_le := by decide, maxDepth_pos := by decide }
    let desc := tuDmaDescCreateLinear 0 0 .hostToTu (some 0) 0 (some 0) 1 100
    descriptorTransferCycles (cfg.withIssue .overlapped) desc = 12 ∧
      descriptorTransferCycles (cfg.withIssue .overlapped) desc ≤ descriptorTransferCycles (cfg.withIssue .serialized) desc := by
  intro cfg desc
  exact ⟨by decide, (@overlapped_bounds cfg desc (by decide)).1⟩

end Tusim
