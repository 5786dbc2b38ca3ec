import Tusim.Dma.Execution
import Mathlib.Data.List.Pairwise

/-!
# Loading rows and storing them back

A strided descriptor and an indexed one move rows of equal length between a region and the host, each row from an
offset on one side to an offset on the other (`descriptorRows`).  If the rows are disjoint in the region, the region
holds them all after the load, so the store that mirrors it writes back what the host had there, also where rows
overlap on the host (`roundTrip_restores`).
-/

namespace Tusim

open Word

/-! ### The rows of a descriptor -/

section

variable (desc : TuDmaDescriptor)

def descriptorHostStrides : Fin 3 → UInt32 := if desc.direction = .tuToHost then desc.dstStrides else desc.srcStrides

/-- The offsets of the rows in the region and on the host; the row of an indexed descriptor is one element. -/
def descriptorRows : List (Nat × Nat) :=
  let sramStrides := descriptorSramStrides desc
  let hostStrides := descriptorHostStrides desc
  match desc.type with
  | .strided2d => (List.range (desc.dims 0).toNat).map fun r => (r * (sramStrides 0).toNat, r * (hostStrides 0).toNat)
  | .strided3d => (List.range (desc.dims 0).toNat).flatMap fun d => (List.range (desc.dims 1).toNat).map fun r =>
      (d * (sramStrides 1).toNat + r * (sramStrides 0).toNat, d * (hostStrides 1).toNat + r * (hostStrides 0).toNat)
  | .scatter | .gather => (List.range desc.indexCount.toNat).map fun i =>
      ((desc.indexList.elim 0 (· i)).toNat, i * desc.elemSize.toNat)
  | _ => []

/-- The offsets of the rows at the destination and at the source. -/
def descriptorMoves : List (Nat × Nat) :=
  if desc.direction = .tuToHost then (descriptorRows desc).map Prod.swap else descriptorRows desc

end

/-- No two rows of length `n` share a byte of the region. -/
def DisjointRows (n : Nat) (rows : List (Nat × Nat)) : Prop := rows.Pairwise fun p q => p.1 + n ≤ q.1 ∨ q.1 + n ≤ p.1

theorem DisjointRows.eq {n : Nat} {rows : List (Nat × Nat)} (h : DisjointRows n rows) {p q : Nat × Nat} (hp : p ∈ rows)
    (hq : q ∈ rows) {k l : Nat} (hk : k < n) (hl : l < n) (heq : p.1 + k = q.1 + l) : p = q ∧ k = l := by
  have hpq : p = q := by
    by_contra hne
    have : Std.Symm fun p q : Nat × Nat => p.1 + n ≤ q.1 ∨ q.1 + n ≤ p.1 := ⟨fun _ _ hpq => hpq.symm⟩
    have hapart := List.Pairwise.forall h hp hq hne
    omega
  subst hpq
  exact ⟨rfl, by omega⟩

/-- Disjoint rows inside a region are no longer than the region together. -/
theorem DisjointRows.length_mul_le {n size : Nat} {rows : List (Nat × Nat)} (h : DisjointRows n rows)
    (hin : ∀ p ∈ rows, p.1 + n ≤ size) : rows.length * n ≤ size := by
  have hnodup : (rows.flatMap fun p => List.range' p.1 n).Nodup := by
    rw [List.nodup_flatMap]
    refine ⟨fun p _ => List.nodup_range', h.imp fun {p q} hpq x hx hx' => ?_⟩
    rw [List.mem_range'_1] at hx hx'
    omega
  have hsub : (rows.flatMap fun p => List.range' p.1 n) ⊆ List.range size := fun x hx => by
    obtain ⟨p, hp, hx⟩ := List.mem_flatMap.1 hx
    have hend := hin p hp
    rw [List.mem_range'_1] at hx
    exact List.mem_range.2 (by omega)
  have hle := (hnodup.subperm hsub).length_le
  rw [List.length_range, List.length_flatMap] at hle
  simpa using hle

/-- The copies that load rows. -/
def loadRows (r base host n : Nat) (rows : List (Nat × Nat)) : List Memcpy :=
  rows.map fun p => ⟨.sram r (base + p.1), .host (host + p.2), n⟩

/-- The copies that store rows. -/
def storeRows (r base host n : Nat) (rows : List (Nat × Nat)) : List Memcpy :=
  rows.map fun p => ⟨.host (host + p.2), .sram r (base + p.1), n⟩

section

variable (r base : Nat) {n : Nat} {rows : List (Nat × Nat)}

/-- Loads of disjoint rows. -/
theorem loadRows_copyAll (hdisj : DisjointRows n rows) (host : Nat) (m : Memory) :
    (∀ p ∈ rows, ∀ k < n, (m.copyAll (loadRows r base host n rows)).read (.sram r (base + p.1 + k)) =
        m.read (.host (host + p.2 + k))) ∧
      ∀ a, (∀ p ∈ rows, ∀ k < n, a ≠ .sram r (base + p.1 + k)) →
        (m.copyAll (loadRows r base host n rows)).read a = m.read a := by
  have hagree : CopiesAgree m (loadRows r base host n rows) := by
    refine ⟨fun c hc c' hc' k _ l _ => ?_, fun c hc c' hc' k hk l hl heq => ?_⟩
    · obtain ⟨p, -, rfl⟩ := List.mem_map.1 hc
      obtain ⟨q, -, rfl⟩ := List.mem_map.1 hc'
      exact TuAddr.noConfusion
    · obtain ⟨p, hp, rfl⟩ := List.mem_map.1 hc
      obtain ⟨q, hq, rfl⟩ := List.mem_map.1 hc'
      have hoffset := (TuAddr.sram.inj heq).2
      obtain ⟨rfl, rfl⟩ := hdisj.eq hp hq hk hl (by omega)
      rfl
  obtain ⟨hcopied, hkept⟩ := hagree.copyAll
  refine ⟨fun p hp k hk => hcopied _ (List.mem_map_of_mem hp) k hk, fun a ha => hkept a fun c hc k hk => ?_⟩
  obtain ⟨p, hp, rfl⟩ := List.mem_map.1 hc
  exact ha p hp k hk

/-- Stores of rows that agree wherever they overlap on the host. -/
theorem storeRows_copyAll {m : Memory} (value : Nat → UInt8)
    (hvalue : ∀ p ∈ rows, ∀ k < n, m.read (.sram r (base + p.1 + k)) = value (p.2 + k)) (host : Nat) :
    (∀ p ∈ rows, ∀ k < n, (m.copyAll (storeRows r base host n rows)).read (.host (host + p.2 + k)) = value (p.2 + k)) ∧
      ∀ a, (∀ p ∈ rows, ∀ k < n, a ≠ .host (host + p.2 + k)) →
        (m.copyAll (storeRows r base host n rows)).read a = m.read a := by
  have hagree : CopiesAgree m (storeRows r base host n rows) := by
    refine ⟨fun c hc c' hc' k _ l _ => ?_, fun c hc c' hc' k hk l hl heq => ?_⟩
    · obtain ⟨p, -, rfl⟩ := List.mem_map.1 hc
      obtain ⟨q, -, rfl⟩ := List.mem_map.1 hc'
      exact TuAddr.noConfusion
    · obtain ⟨p, hp, rfl⟩ := List.mem_map.1 hc
      obtain ⟨q, hq, rfl⟩ := List.mem_map.1 hc'
      have hoffset := TuAddr.host.inj heq
      show m.read (.sram r (base + p.1 + k)) = m.read (.sram r (base + q.1 + l))
      rw [hvalue p hp k hk, hvalue q hq l hl]
      congr 1
      omega
  obtain ⟨hcopied, hkept⟩ := hagree.copyAll
  refine ⟨fun p hp k hk => ?_, fun a ha => hkept a fun c hc k hk => ?_⟩
  · rw [← hvalue p hp k hk]
    exact hcopied _ (List.mem_map_of_mem hp) k hk
  · obtain ⟨p, hp, rfl⟩ := List.mem_map.1 hc
    exact ha p hp k hk

end

/-! ### Descriptors that move rows -/

def descriptorSramRegion (desc : TuDmaDescriptor) : Option Nat :=
  if desc.direction = .tuToHost then desc.srcRegion else desc.dstRegion

/-- A strided descriptor, or an indexed one as it is constructed, between the host and region `r`. -/
structure MovesRows (desc : TuDmaDescriptor) (r : Nat) : Prop where
  direction : desc.direction = .hostToTu ∨ desc.direction = .tuToHost
  region : descriptorSramRegion desc = some r
  type : desc.type = .strided2d ∨ desc.type = .strided3d ∨
    desc.type = (if desc.direction = .tuToHost then .gather else .scatter) ∧ descriptorSramBase desc = 0

section

variable {desc : TuDmaDescriptor} {r : Nat} {sizes : Nat → UInt32}

private theorem sramBase_le (desc : TuDmaDescriptor) : descriptorSramBase desc ≤ uint64Max := by
  have hsrc := desc.srcBase.toNat_lt
  have hdst := desc.dstBase.toNat_lt
  unfold descriptorSramBase uint64Max
  split <;> omega

/-- The side of the region passes its check. -/
private theorem fits_strided2d (h : MovesRows desc r) (ht : desc.type = .strided2d)
    (hvalid : typeSpansFit sizes desc = true) :
    strided2dFits sizes (some r) (descriptorSramBase desc) (descriptorSramStrides desc 0).toNat (desc.dims 0).toNat
      (descriptorLogicalSegmentBytes desc) = true := by
  have hregion := h.region
  unfold typeSpansFit at hvalid
  rw [ht] at hvalid
  dsimp only at hvalid
  split at hvalid
  · cases hvalid
  rename_i rowBytes hrow
  obtain ⟨rfl, -⟩ := u64MulChecked_eq_some.1 hrow
  rw [Bool.and_eq_true] at hvalid
  unfold descriptorSramRegion at hregion
  unfold descriptorSramBase descriptorSramStrides descriptorLogicalSegmentBytes
  rw [ht]
  by_cases hdir : desc.direction = .tuToHost
  · rw [if_pos hdir] at hregion ⊢
    rw [if_pos hdir, ← hregion]
    exact hvalid.1
  · rw [if_neg hdir] at hregion ⊢
    rw [if_neg hdir, ← hregion]
    exact hvalid.2

private theorem fits_strided3d (h : MovesRows desc r) (ht : desc.type = .strided3d)
    (hvalid : typeSpansFit sizes desc = true) :
    strided3dFits sizes (some r) (descriptorSramBase desc) (descriptorSramStrides desc 0).toNat
      (descriptorSramStrides desc 1).toNat (desc.dims 0).toNat (desc.dims 1).toNat
      (descriptorLogicalSegmentBytes desc) = true := by
  have hregion := h.region
  unfold typeSpansFit at hvalid
  rw [ht] at hvalid
  dsimp only at hvalid
  split at hvalid
  · cases hvalid
  rename_i rowBytes hrow
  obtain ⟨rfl, -⟩ := u64MulChecked_eq_some.1 hrow
  rw [Bool.and_eq_true] at hvalid
  unfold descriptorSramRegion at hregion
  unfold descriptorSramBase descriptorSramStrides descriptorLogicalSegmentBytes
  rw [ht]
  by_cases hdir : desc.direction = .tuToHost
  · rw [if_pos hdir] at hregion ⊢
    rw [if_pos hdir, ← hregion]
    exact hvalid.1
  · rw [if_neg hdir] at hregion ⊢
    rw [if_neg hdir, ← hregion]
    exact hvalid.2

/-- An indexed descriptor that passes the check. -/
private theorem fits_indexed (h : MovesRows desc r) (ht : desc.type = .scatter ∨ desc.type = .gather)
    (hvalid : typeSpansFit sizes desc = true) :
    desc.indexElemSize = desc.elemSize ∧ ∀ i < desc.indexCount.toNat,
      (desc.indexList.elim 0 (· i)).toNat + desc.elemSize.toNat ≤ (sizes r).toNat := by
  have hside : (if desc.type = .scatter then desc.dstRegion else desc.srcRegion) = some r := by
    have hregion := h.region
    unfold descriptorSramRegion at hregion
    rcases h.type with hc | hc | ⟨hc, -⟩
    · rw [hc] at ht
      rcases ht with ht | ht <;> cases ht
    · rw [hc] at ht
      rcases ht with ht | ht <;> cases ht
    · by_cases hdir : desc.direction = .tuToHost
      · rw [if_pos hdir] at hc hregion
        rw [hc, if_neg TuDmaTransferType.noConfusion]
        exact hregion
      · rw [if_neg hdir] at hc hregion
        rw [hc, if_pos rfl]
        exact hregion
  unfold typeSpansFit at hvalid
  rcases ht with ht | ht <;> rw [ht] at hvalid hside <;> dsimp only at hvalid <;>
    simp only [Bool.and_eq_true, List.all_eq_true, List.mem_range, beq_iff_eq] at hvalid <;>
    exact ⟨hvalid.1.2, fun i hi => sramRangeFits_some.1 (hside ▸ hvalid.2 i hi)⟩

/-- Every row lies in the region. -/
theorem MovesRows.inside (h : MovesRows desc r) (hvalid : typeSpansFit sizes desc = true) :
    ∀ p ∈ descriptorRows desc, ∀ k < descriptorLogicalSegmentBytes desc,
      descriptorSramBase desc + (p.1 + k) < (sizes r).toNat := by
  intro p hp k hk
  unfold descriptorRows at hp
  rcases h.type with ht | ht | ⟨ht, hbase⟩
  · rw [ht] at hp
    obtain ⟨i, hi, rfl⟩ := List.mem_map.1 hp
    exact strided2dFits_bound (fits_strided2d h ht hvalid) (sramBase_le desc) (List.mem_range.1 hi) hk
  · rw [ht] at hp
    obtain ⟨i, hi, hp⟩ := List.mem_flatMap.1 hp
    obtain ⟨j, hj, rfl⟩ := List.mem_map.1 hp
    exact strided3dFits_bound (fits_strided3d h ht hvalid) (sramBase_le desc) (List.mem_range.1 hi) (List.mem_range.1 hj) hk
  · have ht' : desc.type = .scatter ∨ desc.type = .gather := by
      rw [ht]
      split
      · exact Or.inr rfl
      · exact Or.inl rfl
    obtain ⟨hsize, hfits⟩ := fits_indexed h ht' hvalid
    have hbytes : descriptorLogicalSegmentBytes desc = desc.elemSize.toNat := by
      unfold descriptorLogicalSegmentBytes
      rw [← hsize]
      rcases ht' with ht' | ht' <;> rw [ht']
    rw [hbytes] at hk
    rcases ht' with ht' | ht' <;>
    · rw [ht'] at hp
      obtain ⟨i, hi, rfl⟩ := List.mem_map.1 hp
      have hend := hfits i (List.mem_range.1 hi)
      dsimp only
      omega

/-- A row is short enough for the 32-bit product of the copy loops. -/
theorem MovesRows.bytes_lt (h : MovesRows desc r) (hvalid : typeSpansFit sizes desc = true)
    (hne : descriptorRows desc ≠ []) : descriptorLogicalSegmentBytes desc < 2 ^ 32 := by
  obtain ⟨p, hp⟩ := List.exists_mem_of_ne_nil _ hne
  have hsize := (sizes r).toNat_lt
  rcases Nat.eq_zero_or_pos (descriptorLogicalSegmentBytes desc) with hzero | hpos
  · omega
  · have hinside := h.inside hvalid p hp (descriptorLogicalSegmentBytes desc - 1) (by omega)
    omega

/-- The offsets of disjoint elements on the host do not wrap around. -/
theorem MovesRows.offset_lt (h : MovesRows desc r) (hvalid : typeSpansFit sizes desc = true)
    (ht : desc.type = .scatter ∨ desc.type = .gather)
    (hdisj : DisjointRows (descriptorLogicalSegmentBytes desc) (descriptorRows desc)) {i : Nat}
    (hi : i < desc.indexCount.toNat) :
    descriptorLogicalSegmentBytes desc = desc.elemSize.toNat ∧ i * desc.elemSize.toNat < 2 ^ 32 := by
  obtain ⟨hsize, hfits⟩ := fits_indexed h ht hvalid
  have hbytes : descriptorLogicalSegmentBytes desc = desc.elemSize.toNat := by
    unfold descriptorLogicalSegmentBytes
    rw [← hsize]
    rcases ht with ht | ht <;> rw [ht]
  have hrows : descriptorRows desc = (List.range desc.indexCount.toNat).map fun i =>
      ((desc.indexList.elim 0 (· i)).toNat, i * desc.elemSize.toNat) := by
    unfold descriptorRows
    rcases ht with ht | ht <;> rw [ht]
  have hin : ∀ p ∈ descriptorRows desc, p.1 + descriptorLogicalSegmentBytes desc ≤ (sizes r).toNat := fun p hp => by
    rw [hrows] at hp
    obtain ⟨j, hj, rfl⟩ := List.mem_map.1 hp
    rw [hbytes]
    exact hfits j (List.mem_range.1 hj)
  have hall := hdisj.length_mul_le hin
  rw [hrows, List.length_map, List.length_range, hbytes] at hall
  have hmul := Nat.mul_le_mul_right desc.elemSize.toNat (Nat.le_of_lt hi)
  have hlt := (sizes r).toNat_lt
  exact ⟨hbytes, by omega⟩

/-- The copy loops go through the rows. -/
theorem MovesRows.copies (h : MovesRows desc r) (hvalid : typeSpansFit sizes desc = true)
    (hdisj : DisjointRows (descriptorLogicalSegmentBytes desc) (descriptorRows desc)) {src dst : TuAddr}
    (hsrc : srcPtr desc = some src) (hdst : dstPtr desc = some dst) :
    descriptorCopies sizes desc = some ((descriptorMoves desc).map fun q =>
      ⟨dst.add q.1, src.add q.2, descriptorLogicalSegmentBytes desc⟩) := by
  have hbytes := h.bytes_lt hvalid
  have hmoves : descriptorMoves desc = [] ↔ descriptorRows desc = [] := by
    unfold descriptorMoves
    split
    · rw [List.map_eq_nil_iff]
    · rfl
  rcases h.type with ht | ht | ⟨ht, -⟩
  · have hlist : descriptorMoves desc = (List.range (desc.dims 0).toNat).map fun x =>
        (x * (desc.dstStrides 0).toNat, x * (desc.srcStrides 0).toNat) := by
      unfold descriptorMoves descriptorRows descriptorSramStrides descriptorHostStrides
      rw [ht]
      by_cases hdir : desc.direction = .tuToHost
      · rw [if_pos hdir, if_pos hdir, if_pos hdir, List.map_map]
        rfl
      · rw [if_neg hdir, if_neg hdir, if_neg hdir]
    unfold descriptorCopies executeStrided2d
    rw [ht, if_neg TuDmaTransferType.noConfusion, hsrc, hdst]
    dsimp only
    rw [hlist, List.map_map]
    congr 1
    refine List.map_congr_left fun x hx => ?_
    have hrow : u32 ((desc.dims 1).toNat * desc.elemSize.toNat) = descriptorLogicalSegmentBytes desc := by
      have hmem : (x * (desc.dstStrides 0).toNat, x * (desc.srcStrides 0).toNat) ∈ descriptorMoves desc := by
        rw [hlist]
        exact List.mem_map_of_mem hx
      have hlt := hbytes (mt hmoves.2 (List.ne_nil_of_mem hmem))
      unfold descriptorLogicalSegmentBytes at hlt ⊢
      rw [ht] at hlt ⊢
      rw [Nat.mul_comm]
      exact u32_of_lt hlt
    rw [hrow]
    rfl
  · have hlist : descriptorMoves desc = (List.range (desc.dims 0).toNat).flatMap fun x =>
        (List.range (desc.dims 1).toNat).map fun y =>
          (x * (desc.dstStrides 1).toNat + y * (desc.dstStrides 0).toNat,
            x * (desc.srcStrides 1).toNat + y * (desc.srcStrides 0).toNat) := by
      unfold descriptorMoves descriptorRows descriptorSramStrides descriptorHostStrides
      rw [ht]
      by_cases hdir : desc.direction = .tuToHost
      · rw [if_pos hdir, if_pos hdir, if_pos hdir, List.map_flatMap]
        refine List.flatMap_congr fun x _ => ?_
        rw [List.map_map]
        rfl
      · rw [if_neg hdir, if_neg hdir, if_neg hdir]
    unfold descriptorCopies executeStrided3d
    rw [ht, if_neg TuDmaTransferType.noConfusion, hsrc, hdst]
    dsimp only
    rw [hlist, List.map_flatMap]
    congr 1
    refine List.flatMap_congr fun x hx => ?_
    rw [List.map_map]
    refine List.map_congr_left fun y hy => ?_
    have hrow : u32 ((desc.dims 2).toNat * desc.elemSize.toNat) = descriptorLogicalSegmentBytes desc := by
      have hmem : (x * (desc.dstStrides 1).toNat + y * (desc.dstStrides 0).toNat,
          x * (desc.srcStrides 1).toNat + y * (desc.srcStrides 0).toNat) ∈ descriptorMoves desc := by
        rw [hlist]
        exact List.mem_flatMap.2 ⟨x, hx, List.mem_map_of_mem hy⟩
      have hlt := hbytes (mt hmoves.2 (List.ne_nil_of_mem hmem))
      unfold descriptorLogicalSegmentBytes at hlt ⊢
      rw [ht] at hlt ⊢
      rw [Nat.mul_comm]
      exact u32_of_lt hlt
    rw [hrow]
    rfl
  · unfold descriptorMoves descriptorRows
    by_cases hdir : desc.direction = .tuToHost
    · rw [if_pos hdir] at ht ⊢
      unfold descriptorCopies executeGather
      rw [ht, if_neg TuDmaTransferType.noConfusion, hsrc, hdst]
      dsimp only
      rw [List.map_map, List.map_map]
      congr 1
      refine List.map_congr_left fun i hi => ?_
      obtain ⟨hsize, hlt⟩ := h.offset_lt hvalid (Or.inr ht) hdisj (List.mem_range.1 hi)
      rw [u32_of_lt hlt, ← hsize]
      rfl
    · rw [if_neg hdir] at ht ⊢
      unfold descriptorCopies executeScatter
      rw [ht, if_neg TuDmaTransferType.noConfusion, hsrc, hdst]
      dsimp only
      rw [List.map_map]
      congr 1
      refine List.map_congr_left fun i hi => ?_
      obtain ⟨hsize, hlt⟩ := h.offset_lt hvalid (Or.inl ht) hdisj (List.mem_range.1 hi)
      rw [u32_of_lt hlt, ← hsize]
      rfl

end

/-! ### There and back -/

/-- The executor carries descriptor `d` out. -/
structure Admitted (e : TuDmaEngine) (d : Nat) : Prop where
  pending : (e.heap d).completed = false
  valid : descriptorSramSpansValid e.mem.sizes (e.heap d) = true
  external : externalBoundary e.cfg = true → (e.heap d).externalAddressValid = true

namespace Admitted

variable {e : TuDmaEngine} {d : Nat} {copies : List Memcpy}

theorem spansFit (h : Admitted e d) : typeSpansFit e.mem.sizes (e.heap d) = true := by
  have hvalid := h.valid
  unfold descriptorSramSpansValid at hvalid
  rw [Bool.and_eq_true] at hvalid
  exact hvalid.2

/-- The executor makes the copies and accounts for them. -/
theorem execute_eq (h : Admitted e d) (hcopies : descriptorCopies e.mem.sizes (e.heap d) = some copies) :
    tuDmaExecuteDesc e d = (accountTransfer { e with mem := e.mem.copyAll copies } d).emit (.executed d true) := by
  have hexternal : (externalBoundary e.cfg && !(e.heap d).externalAddressValid) = false := by
    cases hmode : externalBoundary e.cfg with
    | false => rfl
    | true =>
      rw [h.external hmode]
      rfl
  unfold tuDmaExecuteDesc
  dsimp only
  rw [h.pending, h.valid, hexternal, hcopies]
  rfl

theorem read (h : Admitted e d) (hcopies : descriptorCopies e.mem.sizes (e.heap d) = some copies) (a : TuAddr) :
    (tuDmaExecuteDesc e d).mem.read a = (e.mem.copyAll copies).read a := by
  rw [h.execute_eq hcopies]
  show (accountTransfer _ d).mem.read a = _
  rw [accountTransfer_mem, sramStallCycles_read]

theorem completed (h : Admitted e d) (hcopies : descriptorCopies e.mem.sizes (e.heap d) = some copies) :
    ((tuDmaExecuteDesc e d).heap d).completed = true := by
  rw [h.execute_eq hcopies]
  show ((accountTransfer _ d).heap d).completed = true
  unfold accountTransfer TuDmaEngine.setDesc
  dsimp only
  split
  · unfold TuDmaEngine.setChannel
    dsimp only
    rw [Function.update_self]
  · dsimp only
    rw [Function.update_self]

end Admitted

/-- The descriptor that moves the rows of another one back to the host. -/
structure Mirrors (load store : TuDmaDescriptor) : Prop where
  type : store.type = if load.type = .scatter then .gather else load.type
  direction : store.direction = .tuToHost
  region : store.srcRegion = load.dstRegion
  base : store.srcBase = load.dstBase
  sramStrides : store.srcStrides = load.dstStrides
  hostStrides : store.dstStrides = load.srcStrides
  dims : store.dims = load.dims
  elemSize : store.elemSize = load.elemSize
  indexList : store.indexList = load.indexList
  indexCount : store.indexCount = load.indexCount
  indexElemSize : store.indexElemSize = load.indexElemSize

/-- Both descriptors have the same rows. -/
theorem Mirrors.rows {load store : TuDmaDescriptor} {r : Nat} (h : Mirrors load store) (hload : MovesRows load r)
    (hdir : load.direction = .hostToTu) :
    MovesRows store r ∧ descriptorSramBase store = descriptorSramBase load ∧
      descriptorRows store = descriptorRows load ∧
      descriptorLogicalSegmentBytes store = descriptorLogicalSegmentBytes load := by
  have hregion := hload.region
  have htype := hload.type
  unfold descriptorSramRegion at hregion
  rw [hdir, if_neg TuDmaDirection.noConfusion] at hregion htype
  have hbase : descriptorSramBase store = descriptorSramBase load := by
    unfold descriptorSramBase
    rw [h.direction, hdir, h.base]
    rfl
  refine ⟨⟨Or.inr h.direction, ?_, ?_⟩, hbase, ?_, ?_⟩
  · unfold descriptorSramRegion
    rw [if_pos h.direction, h.region, hregion]
  · rw [hbase, h.type, if_pos h.direction]
    rcases htype with ht | ht | ⟨ht, hzero⟩
    · rw [ht]
      exact Or.inl rfl
    · rw [ht]
      exact Or.inr (Or.inl rfl)
    · rw [ht]
      exact Or.inr (Or.inr ⟨rfl, hzero⟩)
  · unfold descriptorRows descriptorSramStrides descriptorHostStrides
    rw [h.direction, hdir, h.sramStrides, h.hostStrides, h.dims, h.indexList, h.indexCount, h.elemSize, h.type]
    rcases htype with ht | ht | ⟨ht, -⟩ <;> rw [ht] <;> rfl
  · unfold descriptorLogicalSegmentBytes
    rw [h.dims, h.elemSize, h.indexElemSize, h.type]
    rcases htype with ht | ht | ⟨ht, -⟩ <;> rw [ht] <;> rfl

/-- The elements of a scatter make up the whole buffer on the host. -/
theorem MovesRows.buffer {desc : TuDmaDescriptor} {r : Nat} {sizes : Nat → UInt32} (h : MovesRows desc r)
    (hvalid : typeSpansFit sizes desc = true) (ht : desc.type = .scatter) {x : Nat}
    (hx : x < desc.indexCount.toNat * desc.elemSize.toNat) :
    ∃ p ∈ descriptorRows desc, ∃ k < descriptorLogicalSegmentBytes desc, x = p.2 + k := by
  obtain ⟨hsize, -⟩ := fits_indexed h (Or.inl ht) hvalid
  have hbytes : descriptorLogicalSegmentBytes desc = desc.elemSize.toNat := by
    unfold descriptorLogicalSegmentBytes
    rw [← hsize, ht]
  have hpos : 0 < desc.elemSize.toNat := Nat.pos_of_lt_mul_left hx
  have hi := (Nat.div_lt_iff_lt_mul hpos).2 hx
  unfold descriptorRows
  rw [ht, hbytes]
  refine ⟨_, List.mem_map_of_mem (List.mem_range.2 hi), x % desc.elemSize.toNat, Nat.mod_lt x hpos, ?_⟩
  exact (Nat.div_add_mod' x desc.elemSize.toNat).symm

/-- A load of rows that are disjoint in the region, and any later store that finds the region as the load left it. -/
theorem roundTrip_restores {e : TuDmaEngine} {d r host : Nat} (hadmitted : Admitted e d) (hload : MovesRows (e.heap d) r)
    (hdir : (e.heap d).direction = .hostToTu) (hhost : (e.heap d).srcHost = some host)
    (hdisj : DisjointRows (descriptorLogicalSegmentBytes (e.heap d)) (descriptorRows (e.heap d))) :
    let rows := descriptorRows (e.heap d)
    let n := descriptorLogicalSegmentBytes (e.heap d)
    let base := descriptorSramBase (e.heap d)
    let e₁ := tuDmaExecuteDesc e d
    ((e₁.heap d).completed = true ∧
        (∀ a, (∀ p ∈ rows, ∀ k < n, a ≠ .sram r (base + p.1 + k)) → e₁.mem.read a = e.mem.read a) ∧
        ∀ r', (e₁.mem.sram r').idleData = (e.mem.sram r').idleData) ∧
      ∀ (e₂ : TuDmaEngine) (d' host' : Nat), (∀ o, e₂.mem.read (.sram r o) = e₁.mem.read (.sram r o)) →
        Admitted e₂ d' → Mirrors (e.heap d) (e₂.heap d') → (e₂.heap d').dstHost = some host' →
        let e₃ := tuDmaExecuteDesc e₂ d'
        (e₃.heap d').completed = true ∧
          (∀ p ∈ rows, ∀ k < n, e₃.mem.read (.host (host' + p.2 + k)) = e.mem.read (.host (host + p.2 + k))) ∧
          ((e.heap d).type = .scatter → ∀ x < (e.heap d).indexCount.toNat * (e.heap d).elemSize.toNat,
            e₃.mem.read (.host (host' + x)) = e.mem.read (.host (host + x))) ∧
          (∀ a, (∀ p ∈ rows, ∀ k < n, a ≠ .host (host' + p.2 + k)) → e₃.mem.read a = e₂.mem.read a) ∧
          ∀ r', (e₃.mem.sram r').idleData = (e₂.mem.sram r').idleData := by
  intro rows n base e₁
  have hsrc : srcPtr (e.heap d) = some (.host host) := by
    unfold srcPtr
    rw [hdir, hhost]
    rfl
  have hdst : dstPtr (e.heap d) = some (.sram r base) := by
    have hregion := hload.region
    unfold descriptorSramRegion at hregion
    rw [hdir, if_neg TuDmaDirection.noConfusion] at hregion
    unfold dstPtr
    rw [hdir, hregion]
    show some (TuAddr.sram r (e.heap d).dstBase.toNat) = some (.sram r (descriptorSramBase (e.heap d)))
    unfold descriptorSramBase
    rw [hdir]
    rfl
  have hcopies : descriptorCopies e.mem.sizes (e.heap d) = some (loadRows r base host n rows) := by
    rw [hload.copies hadmitted.spansFit hdisj hsrc hdst]
    unfold descriptorMoves
    rw [hdir]
    rfl
  obtain ⟨hloaded, hframe⟩ := loadRows_copyAll r base hdisj host e.mem
  have hread := hadmitted.read hcopies
  refine ⟨⟨hadmitted.completed hcopies, fun a ha => (hread a).trans (hframe a ha), tuDmaExecuteDesc_idleData e d⟩,
    fun e₂ d' host' hsame hadmitted' hmirror hhost' => ?_⟩
  obtain ⟨hstore, hbase, hrows, hbytes⟩ := hmirror.rows hload hdir
  have hsrc' : srcPtr (e₂.heap d') = some (.sram r base) := by
    have hregion := hstore.region
    unfold descriptorSramRegion at hregion
    rw [if_pos hmirror.direction] at hregion
    unfold srcPtr
    rw [hmirror.direction, hregion]
    show some (TuAddr.sram r (e₂.heap d').srcBase.toNat) = some (.sram r (descriptorSramBase (e.heap d)))
    rw [← hbase]
    unfold descriptorSramBase
    rw [if_pos hmirror.direction]
  have hdst' : dstPtr (e₂.heap d') = some (.host host') := by
    unfold dstPtr
    rw [hmirror.direction, hhost']
    rfl
  have hcopies' : descriptorCopies e₂.mem.sizes (e₂.heap d') = some (storeRows r base host' n rows) := by
    rw [hstore.copies hadmitted'.spansFit (by rw [hrows, hbytes]; exact hdisj) hsrc' hdst']
    unfold descriptorMoves
    rw [if_pos hmirror.direction, hrows, hbytes, List.map_map]
    rfl
  have hvalue : ∀ p ∈ rows, ∀ k < n,
      e₂.mem.read (.sram r (base + p.1 + k)) = e.mem.read (.host (host + (p.2 + k))) := fun p hp k hk => by
    rw [hsame, hread, hloaded p hp k hk, Nat.add_assoc]
  obtain ⟨hstored, hframe'⟩ := storeRows_copyAll r base (fun x => e.mem.read (.host (host + x))) hvalue host'
  have hread' := hadmitted'.read hcopies'
  have hrestored : ∀ p ∈ rows, ∀ k < n, (tuDmaExecuteDesc e₂ d').mem.read (.host (host' + p.2 + k)) =
      e.mem.read (.host (host + p.2 + k)) := fun p hp k hk => by
    rw [hread', hstored p hp k hk, Nat.add_assoc]
  refine ⟨hadmitted'.completed hcopies', hrestored, fun ht x hx => ?_, fun a ha => (hread' a).trans (hframe' a ha),
    tuDmaExecuteDesc_idleData e₂ d'⟩
  obtain ⟨p, hp, k, hk, rfl⟩ := hload.buffer hadmitted.spansFit ht hx
  rw [← Nat.add_assoc, ← Nat.add_assoc]
  exact hrestored p hp k hk

private theorem no_issueCycles_le' : 0 ≤ 1024 := by decide

/-- Two rows of four bytes that overlap on the host. -/
theorem roundTrip_restores_overlapping :
    let load := tuDmaDescCreateStrided2d 0 0 .hostToTu (some 0) 2 (some 0) 6 3 1 2 4
    let store := tuDmaDescCreateStrided2d 1 0 .tuToHost (some 0) 2 (some 0) 6 3 1 2 4
    let cfg : TuDmaConfig :=
      { asyncMode := true, numChannels := 1, maxDepth := 4, numChannels_pos := by decide, numChannels_le := by decide,
        maxDepth_pos := by decide, readBurstIssueCycles_le := no_issueCycles_le',
        writeBurstIssueCycles_le := no_issueCycles_le', drrRoundIssueCycles_le := no_issueCycles_le',
        drrSelectIssueCycles_le := no_issueCycles_le' }
    let e := { TuDmaEngine.fresh cfg (Memory.zero 16) with heap := fun d => if d = 0 then load else store }
    descriptorRows load = [(0, 0), (6, 3)] ∧
      ∀ p ∈ descriptorRows load, ∀ k < 4,
        (tuDmaExecuteDesc (tuDmaExecuteDesc e 0) 1).mem.read (.host (0 + p.2 + k)) = e.mem.read (.host (0 + p.2 + k)) := by
  intro load store cfg e
  have hload : MovesRows (e.heap 0) 0 := ⟨Or.inl rfl, rfl, Or.inl rfl⟩
  have hdisj : DisjointRows (descriptorLogicalSegmentBytes (e.heap 0)) (descriptorRows (e.heap 0)) := by
    unfold DisjointRows
    decide
  have hadmitted : Admitted e 0 := ⟨rfl, by decide, fun h => absurd h (by decide)⟩
  have hadmitted' : Admitted (tuDmaExecuteDesc e 0) 1 := by
    refine ⟨?_, ?_, fun h => absurd h ?_⟩
    · rw [tuDmaExecuteDesc_heap_of_ne e (by decide)]
      rfl
    · rw [tuDmaExecuteDesc_heap_of_ne e (by decide), tuDmaExecuteDesc_sizes]
      decide
    · rw [tuDmaExecuteDesc_cfg]
      decide
  have hmirror : Mirrors (e.heap 0) ((tuDmaExecuteDesc e 0).heap 1) := by
    rw [tuDmaExecuteDesc_heap_of_ne e (by decide)]
    exact ⟨rfl, rfl, rfl, rfl, rfl, rfl, rfl, rfl, rfl, rfl, rfl⟩
  obtain ⟨-, hstore⟩ := roundTrip_restores hadmitted hload rfl rfl hdisj
  obtain ⟨-, hrestored, -⟩ := hstore (tuDmaExecuteDesc e 0) 1 0 (fun _ => rfl) hadmitted' hmirror (by
    rw [tuDmaExecuteDesc_heap_of_ne e (by decide)]
    rfl)
  exact ⟨by decide, hrestored⟩

end Tusim
