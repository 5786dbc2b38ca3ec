import Mathlib.Data.Matrix.Mul
import Mathlib.Tactic.Ring
import Tusim.Lib.Folds
import Tusim.Sparsity.Packing

/-!
# The sparse multiply and the product of matrices

The multiply on packed weights against the product of the unpacked weights with the activations, over any commutative
ring.  The multiply finds a weight by its mask and skips zero weights; unpacking puts a weight at the position in its mask
and zero everywhere else.  Group by group both give the same sum (`sum_groupTerms`), and so row by row
(`sum_rowTerms`).
-/

namespace Tusim

open Word Accumulation

namespace TuSparsityMma

/-- The weights that are stored, row by row and group by group. -/
def storedWeights {α : Type} (x : TuSparsityMma α) : List α :=
  (List.range x.M.toNat).flatMap fun m => (List.range x.kGroups).flatMap fun kGroup =>
    (List.range 2).map (x.weight m kGroup)

variable {R : Type} [CommRing R] (x : TuSparsityMma R)

/-- The weights that `decompress` writes, as a matrix stored row by row. -/
def decompressedWeights (dense : Nat → UInt8) : Matrix (Fin x.M.toNat) (Fin x.K.toNat) R :=
  Matrix.of fun m k => x.readElem x.wElemSize fun i =>
    tuSparsity2of4Decompress x.wPacked x.wElemSize (x.M.toNat * x.K.toNat) dense
      ((m.val * x.K.toNat + k.val) * x.wElemSize + i)

def activations : Matrix (Fin x.K.toNat) (Fin x.N.toNat) R := Matrix.of fun k n => x.activation k n

/-- Numbers are those of the ring, and reading one looks at its own bytes, all of which are zero for the number zero. -/
structure OverRing : Prop where
  isZero : ∀ w, x.isZero w = true ↔ w = 0
  mul : ∀ a b, x.mul a b = a * b
  add : ∀ a b, x.add a b = a + b
  zeroBytes : x.readElem x.wElemSize (fun _ => 0) = 0
  ownBytes : ∀ b b', (∀ i < x.wElemSize, b i = b' i) → x.readElem x.wElemSize b = x.readElem x.wElemSize b'

/-- The weights are packed in whole groups, with masks that select two weights and are recorded in `wMasks`. -/
structure Packed {α : Type} (x : TuSparsityMma α) : Prop where
  wholeGroups : x.K.toNat % 4 = 0
  wElemSize : 0 < x.wElemSize
  aElemSize : 0 < x.aElemSize
  masks : x.validatePackedMasks (x.M.toNat * x.kGroups) = true

variable {x}

theorem Packed.mask_spec {α : Type} {x : TuSparsityMma α} (hx : x.Packed) {m kGroup : Nat} (hm : m < x.M.toNat)
    (hg : kGroup < x.kGroups) :
    tuSparsity2of4MaskIsValid (x.mask m kGroup) = true ∧
      x.wPacked ((m * x.kGroups + kGroup) * x.pktGroupSize + 2 * x.wElemSize) &&& 0x0F = x.mask m kGroup := by
  have hall := hx.masks
  unfold validatePackedMasks at hall
  rw [List.all_eq_true] at hall
  have h := hall (m * x.kGroups + kGroup) (List.mem_range.2 (Digits.mul_add_lt hm hg))
  dsimp only at h
  rw [Bool.and_eq_true, beq_iff_eq] at h
  have hmask : x.wMasks (m * x.kGroups + kGroup) = x.mask m kGroup := rfl
  rw [hmask] at h
  exact h

theorem Packed.kGroups_mul {α : Type} {x : TuSparsityMma α} (hx : x.Packed) : x.kGroups * 4 = x.K.toNat := by
  have hwhole := hx.wholeGroups
  unfold kGroups
  omega

/-! ### Unpacking -/

/-- The unpacked weight of position `pos` of a group: the stored one that the mask selects for it, if there is one. -/
def unpackedWeight (x : TuSparsityMma R) (m kGroup pos : Nat) : R :=
  if tuSparsity2of4MaskNthBit (x.mask m kGroup) 0 = some pos then x.weight m kGroup 0
  else if tuSparsity2of4MaskNthBit (x.mask m kGroup) 1 = some pos then x.weight m kGroup 1
  else 0

theorem Packed.decompressed_bytes (hx : x.Packed) (hr : x.OverRing) (dense : Nat → UInt8) {m kGroup pos : Nat}
    (hm : m < x.M.toNat) (hg : kGroup < x.kGroups) (hpos : pos < 4) :
    x.readElem x.wElemSize (fun i => tuSparsity2of4Decompress x.wPacked x.wElemSize (x.M.toNat * x.K.toNat) dense
      ((m * x.K.toNat + (kGroup * 4 + pos)) * x.wElemSize + i)) = x.unpackedWeight m kGroup pos := by
  have hn : x.M.toNat * x.K.toNat = x.M.toNat * x.kGroups * 4 := by rw [← hx.kGroups_mul, Nat.mul_assoc]
  obtain ⟨hvalid, hmask⟩ := hx.mask_spec hm hg
  obtain ⟨hdense, -⟩ := decompress_spec x.wPacked dense hx.wElemSize (show x.M.toNat * x.K.toNat % 4 = 0 by omega)
  have hgroup : m * x.kGroups + kGroup < x.M.toNat * x.K.toNat / 4 := by
    rw [hn, Nat.mul_div_cancel _ (by decide)]
    exact Digits.mul_add_lt hm hg
  have hbyte : ∀ i < x.wElemSize, tuSparsity2of4Decompress x.wPacked x.wElemSize (x.M.toNat * x.K.toNat) dense
      ((m * x.K.toNat + (kGroup * 4 + pos)) * x.wElemSize + i) =
        if tuSparsity2of4MaskNthBit (x.mask m kGroup) 0 = some pos then
          x.wPacked (m * x.kGroups * x.pktGroupSize + kGroup * x.pktGroupSize + 0 * x.wElemSize + i)
        else if tuSparsity2of4MaskNthBit (x.mask m kGroup) 1 = some pos then
          x.wPacked (m * x.kGroups * x.pktGroupSize + kGroup * x.pktGroupSize + 1 * x.wElemSize + i)
        else 0 := by
    intro i hi
    have haddress : (m * x.K.toNat + (kGroup * 4 + pos)) * x.wElemSize + i =
        (m * x.kGroups + kGroup) * (4 * x.wElemSize) + (pos * x.wElemSize + i) := by
      rw [← hx.kGroups_mul]
      ring
    rw [haddress, hdense _ hgroup pos hpos i hi]
    have hmask' : x.wPacked ((m * x.kGroups + kGroup) * (2 * x.wElemSize + 1) + 2 * x.wElemSize) &&& 0x0F =
        x.mask m kGroup := hmask
    unfold decodedByte
    dsimp only
    rw [← maskIsValid_and, ← maskNthBit_and _ 0, ← maskNthBit_and _ 1, hmask', hvalid, if_neg (by decide)]
    unfold pktGroupSize
    simp only [Nat.zero_mul, Nat.add_zero, Nat.one_mul, Nat.add_mul]
  rw [hr.ownBytes _ _ hbyte]
  unfold unpackedWeight weight
  split
  · rfl
  · split
    · rfl
    · exact hr.zeroBytes

/-! ### Sums -/

/-- The stored weights of a group and the unpacked ones have the same product with a column. -/
theorem Packed.sum_groupTerms (hx : x.Packed) (hr : x.OverRing) {m kGroup : Nat} (n : Nat) (hm : m < x.M.toNat)
    (hg : kGroup < x.kGroups) :
    ((x.groupTerms (fun _ => true) m kGroup).map fun t => x.mul t.2 (x.activation t.1 n)).sum =
      ((List.range 4).map fun pos => x.unpackedWeight m kGroup pos * x.activation (kGroup * 4 + pos) n).sum := by
  obtain ⟨p, q, hpq, hq, h0, h1, -⟩ := mask_positions (hx.mask_spec hm hg).1
  have hK := hx.kGroups_mul
  have hterm : ∀ nz kOff, kOff < 4 → tuSparsity2of4MaskNthBit (x.mask m kGroup) nz = some kOff →
      ((x.weightTerm (fun _ => true) m kGroup nz).toList.map fun t => x.mul t.2 (x.activation t.1 n)).sum =
        x.weight m kGroup nz * x.activation (kGroup * 4 + kOff) n := by
    intro nz kOff hkOff hbit
    unfold weightTerm
    rw [hbit, Option.bind_some, if_neg (by simp; omega)]
    by_cases hzero : x.isZero (x.weight m kGroup nz) = true
    · rw [if_pos hzero, (hr.isZero _).1 hzero, zero_mul]
      rfl
    · rw [if_neg hzero, Option.toList_some, List.map_singleton, List.sum_singleton, hr.mul]
  have hselect : ∀ pos, x.unpackedWeight m kGroup pos * x.activation (kGroup * 4 + pos) n =
      (if pos = p then x.weight m kGroup 0 * x.activation (kGroup * 4 + p) n else 0) +
        if pos = q then x.weight m kGroup 1 * x.activation (kGroup * 4 + q) n else 0 := by
    intro pos
    unfold unpackedWeight
    rw [h0, h1]
    by_cases hp : pos = p
    · subst hp
      rw [if_pos rfl, if_pos rfl, if_neg hpq.ne, add_zero]
    · rw [if_neg fun h => hp (Option.some.inj h).symm, if_neg hp, zero_add]
      by_cases hq : pos = q
      · subst hq
        rw [if_pos rfl, if_pos rfl]
      · rw [if_neg fun h => hq (Option.some.inj h).symm, if_neg hq, zero_mul]
  unfold groupTerms
  rw [List.filterMap_eq_flatMap_toList, sum_map_flatMap]
  show (List.map _ [0, 1]).sum = _
  rw [List.map_cons, List.map_singleton, List.sum_cons, List.sum_singleton, hterm 0 p (by omega) h0, hterm 1 q hq h1]
  simp only [hselect]
  rw [List.sum_map_add, sum_map_range_ite, sum_map_range_ite, if_pos (by omega), if_pos hq]

theorem Packed.sum_rowTerms (hx : x.Packed) (hr : x.OverRing) (dense : Nat → UInt8) (m : Fin x.M.toNat)
    (n : Fin x.N.toNat) :
    ((x.rowTerms (fun _ => true) (List.range x.kGroups) m).map fun t => x.mul t.2 (x.activation t.1 n)).sum =
      (x.decompressedWeights dense * x.activations) m n := by
  have hgroups : ∀ kGroup ∈ List.range x.kGroups,
      ((x.groupTerms (fun _ => true) m kGroup).map fun t => x.mul t.2 (x.activation t.1 n)).sum =
        ((List.range 4).map fun pos => x.unpackedWeight m kGroup pos * x.activation (kGroup * 4 + pos) n).sum :=
    fun kGroup hg => hx.sum_groupTerms hr n m.isLt (List.mem_range.1 hg)
  have hweight : ∀ k : Fin x.K.toNat,
      x.decompressedWeights dense m k = x.unpackedWeight m (k.val / 4) (k.val % 4) := by
    intro k
    have hk := k.isLt
    have hgroup : k.val / 4 < x.kGroups := by
      have hK := hx.kGroups_mul
      omega
    have h := hx.decompressed_bytes hr dense m.isLt hgroup (Nat.mod_lt k.val (by decide))
    rw [Nat.mul_comm (k.val / 4), Nat.div_add_mod] at h
    exact h
  unfold rowTerms
  rw [sum_map_flatMap, List.map_congr_left hgroups, Matrix.mul_apply]
  calc _ = ((List.range (x.kGroups * 4)).map fun k =>
          x.unpackedWeight m (k / 4) (k % 4) * x.activation (k / 4 * 4 + k % 4) n).sum := by
        rw [Digits.map_range_mul x.kGroups 4 fun kGroup pos =>
          x.unpackedWeight m kGroup pos * x.activation (kGroup * 4 + pos) n, ← List.map_id (List.flatMap _ _),
          sum_map_flatMap]
        rfl
    _ = ∑ k : Fin x.K.toNat, x.unpackedWeight m (k.val / 4) (k.val % 4) * x.activation (k.val / 4 * 4 + k.val % 4) n := by
        rw [hx.kGroups_mul, sum_map_range]
    _ = _ := by
        apply Finset.sum_congr rfl
        intro k _
        rw [hweight k, Nat.mul_comm (k.val / 4), Nat.div_add_mod]
        rfl

/-! ### The multiply -/

theorem cell_eq {α : Type} {x : TuSparsityMma α} {m n : Nat} (h : m * x.oStride.toNat < 2 ^ 32) : x.cell m n = m * x.oStride.toNat + 4 * n := by
  unfold cell u32
  rw [Nat.mod_eq_of_lt h]

/-- The multiply makes all its products, also when it returns at once because there are none. -/
theorem Packed.mma_eq {α : Type} {x : TuSparsityMma α} (hx : x.Packed) (o : Nat → α) :
    tuSparsity2of4MmaFp16 x o =
      (x.blockProducts (List.range x.M.toNat) (List.range x.N.toNat)
        (x.rowTerms (fun _ => true) (List.range x.kGroups))).foldl x.accumulate
          { o := o, macCount := 0, added := [] } := by
  unfold tuSparsity2of4MmaFp16
  dsimp only
  rw [x.foldl_macRow]
  split
  · rfl
  · rename_i hrejected
    have hw := hx.wElemSize.ne'
    have ha := hx.aElemSize.ne'
    have hempty : x.M = 0 ∨ x.N = 0 ∨ x.K = 0 := by
      by_contra hdim
      simp only [not_or] at hdim
      exact hrejected (by simp [accepted, hdim, hx.masks, hx.wholeGroups, hw, ha])
    have hnone : x.blockProducts (List.range x.M.toNat) (List.range x.N.toNat)
        (x.rowTerms (fun _ => true) (List.range x.kGroups)) = [] := by
      rcases hempty with h | h | h
      · rw [h]
        rfl
      · unfold blockProducts termProducts
        rw [h]
        simp
      · have hgroups : x.kGroups = 0 := by
          unfold kGroups
          rw [h]
          rfl
        unfold blockProducts rowTerms
        rw [hgroups]
        simp
    rw [hnone]
    rfl

theorem foldl_accumulate_addTo {x : TuSparsityMma R} (hr : x.OverRing) (es : List (Nat × Nat × R)) (s : MmaState R) :
    (es.foldl x.accumulate s).o = (es.map fun e => (x.cell e.1 e.2.1, e.2.2)).foldl addTo s.o := by
  induction es generalizing s with
  | nil => rfl
  | cons e es ih =>
    rw [List.foldl_cons, ih, List.map_cons, List.foldl_cons]
    congr 1
    unfold accumulate addTo
    rw [hr.add]

/-- The products of a block, cell by cell. -/
theorem sum_blockProducts (rows columns : List Nat) (terms : Nat → List (Nat × R)) (a : Nat) :
    ((x.blockProducts rows columns terms).map fun e => if x.cell e.1 e.2.1 = a then e.2.2 else 0).sum =
      (rows.map fun m => (columns.map fun n =>
        if x.cell m n = a then ((terms m).map fun t => x.mul t.2 (x.activation t.1 n)).sum else 0).sum).sum := by
  unfold blockProducts
  rw [sum_map_flatMap]
  congr 1
  apply List.map_congr_left
  intro m _
  rw [sum_map_flatMap]
  have hcolumn : ∀ t, ((x.termProducts columns m t).map fun e => if x.cell e.1 e.2.1 = a then e.2.2 else 0).sum =
      (columns.map fun n => if x.cell m n = a then x.mul t.2 (x.activation t.1 n) else 0).sum := by
    intro t
    unfold termProducts
    rw [List.map_map]
    rfl
  simp only [hcolumn]
  rw [sum_map_comm]
  congr 1
  apply List.map_congr_left
  intro n _
  by_cases ha : x.cell m n = a
  · simp only [if_pos ha]
  · simp only [if_neg ha]
    simp

/-- Each stored weight that is not zero is one term. -/
theorem Packed.length_groupTerms (hx : x.Packed) (hr : x.OverRing) [DecidableEq R] {m kGroup : Nat}
    (hm : m < x.M.toNat) (hg : kGroup < x.kGroups) :
    (x.groupTerms (fun _ => true) m kGroup).length = ((List.range 2).map (x.weight m kGroup)).countP (· ≠ 0) := by
  obtain ⟨p, q, hpq, hq, h0, h1, -⟩ := mask_positions (hx.mask_spec hm hg).1
  have hK := hx.kGroups_mul
  have hterm : ∀ nz kOff, kOff < 4 → tuSparsity2of4MaskNthBit (x.mask m kGroup) nz = some kOff →
      (x.weightTerm (fun _ => true) m kGroup nz).toList.length = [x.weight m kGroup nz].countP (· ≠ 0) := by
    intro nz kOff hkOff hbit
    unfold weightTerm
    rw [hbit, Option.bind_some, if_neg (by simp; omega)]
    by_cases hzero : x.isZero (x.weight m kGroup nz) = true
    · rw [if_pos hzero, List.countP_eq_zero.2 (by simpa using (hr.isZero _).1 hzero)]
      rfl
    · rw [if_neg hzero, List.countP_cons_of_pos (by simpa using fun h => hzero ((hr.isZero _).2 h))]
      rfl
  unfold groupTerms
  rw [List.filterMap_eq_flatMap_toList]
  show (List.flatMap _ [0, 1]).length = List.countP _ [x.weight m kGroup 0, x.weight m kGroup 1]
  rw [List.flatMap_cons, List.length_append, List.flatMap_singleton, hterm 0 p (by omega) h0, hterm 1 q hq h1,
    ← List.countP_append]
  rfl

theorem Packed.length_blockProducts (hx : x.Packed) (hr : x.OverRing) [DecidableEq R] :
    (x.blockProducts (List.range x.M.toNat) (List.range x.N.toNat)
      (x.rowTerms (fun _ => true) (List.range x.kGroups))).length =
        x.N.toNat * x.storedWeights.countP (· ≠ 0) := by
  have hrow : ∀ m, m < x.M.toNat → (x.rowTerms (fun _ => true) (List.range x.kGroups) m).length =
      ((List.range x.kGroups).flatMap fun kGroup => (List.range 2).map (x.weight m kGroup)).countP (· ≠ 0) := by
    intro m hm
    unfold rowTerms
    rw [List.length_flatMap, List.countP_flatMap]
    congr 1
    apply List.map_congr_left
    intro kGroup hg
    exact hx.length_groupTerms hr hm (List.mem_range.1 hg)
  have hproducts : ∀ m ∈ List.range x.M.toNat,
      ((x.rowTerms (fun _ => true) (List.range x.kGroups) m).flatMap (x.termProducts (List.range x.N.toNat) m)).length =
        ((List.range x.kGroups).flatMap fun kGroup => (List.range 2).map (x.weight m kGroup)).countP (· ≠ 0) *
          x.N.toNat := by
    intro m hm
    rw [← hrow m (List.mem_range.1 hm), List.length_flatMap]
    simp [termProducts]
  unfold blockProducts storedWeights
  rw [List.length_flatMap, List.countP_flatMap, List.map_congr_left hproducts, List.sum_map_mul_right, Nat.mul_comm]
  rfl

theorem Packed.length_storedWeights {α : Type} {x : TuSparsityMma α} (hx : x.Packed) :
    2 * x.storedWeights.length = x.M.toNat * x.K.toNat := by
  have hlength : x.storedWeights.length = x.M.toNat * (x.kGroups * 2) := by
    unfold storedWeights
    simp
  rw [hlength, ← hx.kGroups_mul]
  ring

end TuSparsityMma

open TuSparsityMma in
/-- For all packed weights, all activations over a commutative ring and all strides whose row offsets fit: the sparse
multiply adds to the output the product of the unpacked weights with the activations, and makes one multiplication for
each column and each stored weight that is not zero, at most half of the dense number. -/
theorem tuSparsity2of4MmaFp16_eq_dense {R : Type} [CommRing R] [DecidableEq R] (x : TuSparsityMma R) (hx : x.Packed)
    (hr : x.OverRing) (hstride : ∀ m < x.M.toNat, m * x.oStride.toNat < 2 ^ 32) (o : Nat → R) (dense : Nat → UInt8) :
    (∀ a, (tuSparsity2of4MmaFp16 x o).o a = o a + ∑ m : Fin x.M.toNat, ∑ n : Fin x.N.toNat,
      if m.val * x.oStride.toNat + 4 * n.val = a then (x.decompressedWeights dense * x.activations) m n else 0) ∧
    (tuSparsity2of4MmaFp16 x o).macCount = x.N.toNat * x.storedWeights.countP (· ≠ 0) ∧
    2 * (tuSparsity2of4MmaFp16 x o).macCount ≤ x.M.toNat * x.N.toNat * x.K.toNat := by
  have hcount : (tuSparsity2of4MmaFp16 x o).macCount = x.N.toNat * x.storedWeights.countP (· ≠ 0) := by
    rw [hx.mma_eq, x.foldl_accumulate_macCount, hx.length_blockProducts hr, Nat.zero_add]
  refine ⟨?_, hcount, ?_⟩
  · intro a
    rw [hx.mma_eq, foldl_accumulate_addTo hr, foldl_addTo, List.map_map]
    congr 1
    calc _ = _ := x.sum_blockProducts _ _ _ a
      _ = ∑ m : Fin x.M.toNat, ∑ n : Fin x.N.toNat, if x.cell m n = a then
            ((x.rowTerms (fun _ => true) (List.range x.kGroups) m).map fun t => x.mul t.2 (x.activation t.1 n)).sum
          else 0 := by
        rw [sum_map_range]
        simp only [sum_map_range]
      _ = _ := by
        apply Finset.sum_congr rfl
        intro m _
        apply Finset.sum_congr rfl
        intro n _
        rw [cell_eq (hstride m m.isLt), hx.sum_rowTerms hr dense m n]
  · have hle := Nat.mul_le_mul_left x.N.toNat (List.countP_le_length (p := (· ≠ 0)) (l := x.storedWeights))
    have hlength := hx.length_storedWeights
    calc 2 * (tuSparsity2of4MmaFp16 x o).macCount ≤ 2 * (x.N.toNat * x.storedWeights.length) := by omega
      _ = x.M.toNat * x.N.toNat * x.K.toNat := by
        rw [Nat.mul_left_comm, hlength]
        ring

/-- One group of one-byte weights, the second one zero, and two columns. -/
def onePackedGroup : TuSparsityMma Int where
  readElem _ b := (b 0).toNat
  isZero w := w == 0
  mul a b := a * b
  add a b := a + b
  oStride := 8
  wPacked i := [3, 0, 0x0A].getD i 0
  wMasks _ := 0x0A
  aDense i := UInt8.ofNat i
  aStride := 2
  M := 1
  N := 2
  K := 4
  wElemSize := 1
  aElemSize := 1

theorem onePackedGroup_macCount : 2 * (tuSparsity2of4MmaFp16 onePackedGroup fun _ => 0).macCount ≤ 1 * 2 * 4 :=
  (tuSparsity2of4MmaFp16_eq_dense onePackedGroup
    { wholeGroups := by decide, wElemSize := by decide, aElemSize := by decide, masks := by decide }
    { isZero := fun w => beq_iff_eq, mul := fun _ _ => rfl, add := fun _ _ => rfl, zeroBytes := rfl
      ownBytes := fun b b' h => congrArg (fun v => (v.toNat : Int)) (h 0 (by decide)) }
    (by decide) (fun _ => 0) (fun _ => 0)).2.2

end Tusim
