import Tusim.Lib.Choosing
import Tusim.Sparsity.Packing

/-!
# 2:4 pruning

The two pruners of `structured_2of4.c`: in every group of four they keep two weights of largest magnitude and overwrite
the other two with zero.  Magnitudes only have a total preorder.  Both leave the same weights (`pruneFp32_spec`,
`pruneWithMasks_spec`), the recorded masks select what was kept (`keptMask_spec`), and the packed form of
`Tusim.Sparsity.Packing` carries all of it (`tuSparsity2of4_prune_pack`).
-/

namespace Tusim

open Blocks ExchangeSort

variable {α β : Type} [LT β] [DecidableLT β]

/-- `indices` after the sort: the positions of the group at `base` by ascending magnitude. -/
def sortedIndices (fabsf : α → β) (src : Nat → α) (base : Nat) : Equiv.Perm (Fin 4) :=
  exchangeSort fun i => fabsf (src (base + i))

/-- The weights of the group at `base` with the two smallest overwritten. -/
def pruneGroup (fabsf : α → β) (zero : α) (src dst : Nat → α) (base : Nat) : Nat → α :=
  let indices := sortedIndices fabsf src base
  let dst := memcpy dst base (fun i => src (base + i)) 4
  let dst := Function.update dst (base + indices 0) zero
  Function.update dst (base + indices 1) zero

/-- The number of weights overwritten, and the weights. -/
def tuSparsity2of4PruneFp32 (fabsf : α → β) (zero : α) (src dst : Nat → α) (n : Nat) : Nat × (Nat → α) :=
  if n == 0 || n % 4 != 0 then (0, dst)
  else
    let groups := n / 4
    (List.range groups).foldl
      (fun (zeros, dst) g => (zeros + 2, pruneGroup fabsf zero src dst (g * 4))) (0, dst)

/-- `(1u << indices[2]) | (1u << indices[3])` -/
def keptMask (indices : Equiv.Perm (Fin 4)) : UInt8 :=
  UInt8.ofNat (1 <<< (indices 2).val) ||| UInt8.ofNat (1 <<< (indices 3).val)

/-- The number of groups, the weights and the masks. -/
def tuSparsity2of4PruneWithMasksFp32 (fabsf : α → β) (zero : α) (src pruned : Nat → α) (masks : Nat → UInt8) (n : Nat) :
    Nat × (Nat → α) × (Nat → UInt8) :=
  if n == 0 || n % 4 != 0 then (0, pruned, masks)
  else
    let groups := n / 4
    let (pruned, masks) := (List.range groups).foldl (fun (pruned, masks) g =>
      (pruneGroup fabsf zero src pruned (g * 4),
        Function.update masks g (keptMask (sortedIndices fabsf src (g * 4))))) (pruned, masks)
    (groups, pruned, masks)

/-! ### One group -/

/-- The weight at `pos` is among the two kept. -/
def isKept (indices : Equiv.Perm (Fin 4)) (pos : Fin 4) : Prop := pos = indices 2 ∨ pos = indices 3

instance (indices : Equiv.Perm (Fin 4)) (pos : Fin 4) : Decidable (isKept indices pos) :=
  inferInstanceAs (Decidable (_ ∨ _))

/-- Every position is kept or overwritten. -/
theorem isKept_iff (indices : Equiv.Perm (Fin 4)) (pos : Fin 4) :
    isKept indices pos ↔ pos ≠ indices 0 ∧ pos ≠ indices 1 := by
  obtain ⟨k, rfl⟩ := indices.surjective pos
  unfold isKept
  simp only [ne_eq, EmbeddingLike.apply_eq_iff_eq]
  revert k
  decide

theorem pruneGroup_inside (fabsf : α → β) (zero : α) (src dst : Nat → α) (base : Nat) (pos : Fin 4) :
    pruneGroup fabsf zero src dst base (base + pos) =
      if isKept (sortedIndices fabsf src base) pos then src (base + pos) else zero := by
  have hval : ∀ k : Fin 4, base + pos.val = base + k.val ↔ pos = k := by
    intro k
    rw [Fin.ext_iff]
    omega
  unfold pruneGroup
  rw [Function.update_apply, Function.update_apply, memcpy_inside pos.isLt]
  simp only [hval, isKept_iff]
  split
  · rename_i h
    rw [if_neg (fun hkept => hkept.2 h)]
  · rename_i h1
    split
    · rename_i h
      rw [if_neg (fun hkept => hkept.1 h)]
    · rename_i h0
      rw [if_pos ⟨h0, h1⟩]

theorem pruneGroup_outside (fabsf : α → β) (zero : α) (src dst : Nat → α) {base i : Nat} (h : i < base ∨ base + 4 ≤ i) :
    pruneGroup fabsf zero src dst base i = dst i := by
  have hne : ∀ k : Fin 4, i ≠ base + k := by
    intro k
    omega
  unfold pruneGroup
  rw [Function.update_of_ne (hne _), Function.update_of_ne (hne _), memcpy_outside h]

/-- The mask of a group selects what is kept of it. -/
theorem keptMask_spec (indices : Equiv.Perm (Fin 4)) :
    tuSparsity2of4MaskIsValid (keptMask indices) = true ∧
      ∀ pos : Fin 4, (keptMask indices).toNat.testBit pos = true ↔ isKept indices pos := by
  have hall : ∀ i j : Fin 4, i ≠ j →
      tuSparsity2of4MaskIsValid (UInt8.ofNat (1 <<< i.val) ||| UInt8.ofNat (1 <<< j.val)) = true ∧
        ∀ pos : Fin 4, (UInt8.ofNat (1 <<< i.val) ||| UInt8.ofNat (1 <<< j.val)).toNat.testBit pos = true ↔
          pos = i ∨ pos = j := by decide
  exact hall _ _ (indices.injective.ne (by decide))

/-! ### All groups -/

/-- What both pruners leave in every cell. -/
theorem foldl_pruneGroup (fabsf : α → β) (zero : α) (src dst : Nat → α) (groups : Nat) :
    (∀ g < groups, ∀ pos : Fin 4,
      (List.range groups).foldl (fun dst g => pruneGroup fabsf zero src dst (g * 4)) dst (g * 4 + pos) =
        if isKept (sortedIndices fabsf src (g * 4)) pos then src (g * 4 + pos) else zero) ∧
      ∀ i, groups * 4 ≤ i →
        (List.range groups).foldl (fun dst g => pruneGroup fabsf zero src dst (g * 4)) dst i = dst i := by
  obtain ⟨hin, hout⟩ := foldl_blocks (w := 4) (k := groups)
    (v := fun g i => if h : i < 4 then
      (if isKept (sortedIndices fabsf src (g * 4)) ⟨i, h⟩ then src (g * 4 + i) else zero) else zero)
    (f := fun dst g => pruneGroup fabsf zero src dst (g * 4))
    (fun mem g _ i hi => by rw [dif_pos hi]; exact pruneGroup_inside fabsf zero src mem (g * 4) ⟨i, hi⟩)
    (fun mem g i h => pruneGroup_outside fabsf zero src mem h) dst
  refine ⟨fun g hg pos => ?_, hout⟩
  rw [hin g hg pos pos.isLt, dif_pos pos.isLt]

theorem pruneFp32_spec (fabsf : α → β) (zero : α) (src dst : Nat → α) {n : Nat} (hn : n % 4 = 0) :
    tuSparsity2of4PruneFp32 fabsf zero src dst n =
      (n / 2, (List.range (n / 4)).foldl (fun dst g => pruneGroup fabsf zero src dst (g * 4)) dst) := by
  have hloop : ∀ groups, (List.range groups).foldl
      (fun (s : Nat × (Nat → α)) g => (s.1 + 2, pruneGroup fabsf zero src s.2 (g * 4))) (0, dst) =
      (groups * 2, (List.range groups).foldl (fun dst g => pruneGroup fabsf zero src dst (g * 4)) dst) := by
    intro groups
    induction groups with
    | zero => rfl
    | succ groups ih =>
      rw [List.range_succ, List.foldl_append, List.foldl_append, ih, Nat.succ_mul]
      rfl
  unfold tuSparsity2of4PruneFp32
  by_cases hzero : n = 0
  · subst hzero
    rfl
  · rw [if_neg (by simp [hzero, hn]), hloop, show n / 4 * 2 = n / 2 by omega]

theorem pruneWithMasks_spec (fabsf : α → β) (zero : α) (src pruned : Nat → α) (masks : Nat → UInt8) {n : Nat}
    (hn : n % 4 = 0) :
    (tuSparsity2of4PruneWithMasksFp32 fabsf zero src pruned masks n).1 = n / 4 ∧
      (tuSparsity2of4PruneWithMasksFp32 fabsf zero src pruned masks n).2.1 =
        (List.range (n / 4)).foldl (fun dst g => pruneGroup fabsf zero src dst (g * 4)) pruned ∧
      ∀ g < n / 4, (tuSparsity2of4PruneWithMasksFp32 fabsf zero src pruned masks n).2.2 g =
        keptMask (sortedIndices fabsf src (g * 4)) := by
  have hloop : ∀ groups, (List.range groups).foldl
      (fun (s : (Nat → α) × (Nat → UInt8)) g => (pruneGroup fabsf zero src s.1 (g * 4),
        Function.update s.2 g (keptMask (sortedIndices fabsf src (g * 4))))) (pruned, masks) =
      ((List.range groups).foldl (fun dst g => pruneGroup fabsf zero src dst (g * 4)) pruned,
        fun g => if g < groups then keptMask (sortedIndices fabsf src (g * 4)) else masks g) := by
    intro groups
    induction groups with
    | zero => rfl
    | succ groups ih =>
      rw [List.range_succ, List.foldl_append, List.foldl_append, ih, List.foldl_cons, List.foldl_nil, List.foldl_cons,
        List.foldl_nil]
      congr 1
      funext g
      rw [Function.update_apply]
      by_cases hg : g = groups
      · rw [if_pos hg, if_pos (by omega), hg]
      · rw [if_neg hg]
        exact if_congr (by omega) rfl rfl
  unfold tuSparsity2of4PruneWithMasksFp32
  by_cases hzero : n = 0
  · subst hzero
    exact ⟨rfl, rfl, fun g hg => absurd hg (Nat.not_lt_zero g)⟩
  · rw [if_neg (by simp [hzero, hn])]
    dsimp only
    rw [hloop]
    exact ⟨rfl, rfl, fun g hg => if_pos hg⟩

end Tusim

namespace Tusim

variable {α β : Type} [Preorder β] [Std.Total (α := β) (· ≤ ·)] [DecidableLT β]

/-- What is kept of a group is at least as large as what is dropped. -/
theorem kept_ge_dropped (fabsf : α → β) (src : Nat → α) (base : Nat) (pos pos' : Fin 4)
    (h : isKept (sortedIndices fabsf src base) pos) (h' : ¬ isKept (sortedIndices fabsf src base) pos') :
    fabsf (src (base + pos')) ≤ fabsf (src (base + pos)) := by
  have hsorted := fun {a b : Fin 4} (hab : a < b) =>
    ExchangeSort.exchangeSort_sorted (fun i : Fin 4 => fabsf (src (base + i))) hab
  rw [isKept_iff] at h'
  have hdropped : pos' = sortedIndices fabsf src base 0 ∨ pos' = sortedIndices fabsf src base 1 := by tauto
  rcases h with rfl | rfl <;> rcases hdropped with rfl | rfl <;> exact hsorted (by decide)

/-- For every list of whole groups: both pruners keep the two weights of each group that the mask selects, none of them
smaller than a dropped one, and the packed form of the pruned weights unpacks to them.  Every stream of groups that have
masks with two positions and nothing in the upper half unpacks to weights that pack to it. -/
theorem tuSparsity2of4_prune_pack (fabsf : α → β) (zero : α) (bytes : α → Nat → UInt8) {elemSize n : Nat}
    (he : 0 < elemSize) (hn : n % 4 = 0) (hzero : ∀ b < elemSize, bytes zero b = 0)
    (src dst pruned : Nat → α) (masks packed dense : Nat → UInt8) :
    let plain := tuSparsity2of4PruneFp32 fabsf zero src dst n
    let masked := tuSparsity2of4PruneWithMasksFp32 fabsf zero src pruned masks n
    let weights := fun i => bytes (masked.2.1 (i / elemSize)) (i % elemSize)
    (∀ g < n / 4, tuSparsity2of4MaskIsValid (masked.2.2 g) = true ∧
      (∀ pos < 4,
        plain.2 (g * 4 + pos) = (if (masked.2.2 g).toNat.testBit pos then src (g * 4 + pos) else zero) ∧
        masked.2.1 (g * 4 + pos) = (if (masked.2.2 g).toNat.testBit pos then src (g * 4 + pos) else zero)) ∧
      ∀ pos < 4, ∀ pos' < 4, (masked.2.2 g).toNat.testBit pos = true → (masked.2.2 g).toNat.testBit pos' = false →
        fabsf (src (g * 4 + pos')) ≤ fabsf (src (g * 4 + pos))) ∧
    (∀ i < n * elemSize, tuSparsity2of4Decompress
      (tuSparsity2of4Compress weights masked.2.2 elemSize n packed).2 elemSize n dense i = weights i) ∧
    ∀ stream : Nat → UInt8,
      (∀ g < n / 4, stream (g * (2 * elemSize + 1) + 2 * elemSize) &&& 0xF0 = 0 ∧
        tuSparsity2of4MaskIsValid (stream (g * (2 * elemSize + 1) + 2 * elemSize)) = true) →
      let streamMasks := fun g => stream (g * (2 * elemSize + 1) + 2 * elemSize)
      let repacked := tuSparsity2of4Compress (tuSparsity2of4Decompress stream elemSize n dense) streamMasks elemSize n packed
      repacked.1 = n / 4 * (2 * elemSize + 1) ∧ ∀ i < repacked.1, repacked.2 i = stream i := by
  intro plain masked weights
  obtain ⟨-, hpruned, hmasks⟩ := pruneWithMasks_spec fabsf zero src pruned masks hn
  have hplain := pruneFp32_spec fabsf zero src dst hn
  have hvalid : ∀ g < n / 4, tuSparsity2of4MaskIsValid (masked.2.2 g) = true := by
    intro g hg
    rw [hmasks g hg]
    exact (keptMask_spec _).1
  have hbit : ∀ g < n / 4, ∀ pos : Fin 4,
      (masked.2.2 g).toNat.testBit pos = true ↔ isKept (sortedIndices fabsf src (g * 4)) pos := by
    intro g hg pos
    rw [hmasks g hg]
    exact (keptMask_spec _).2 pos
  have hweight : ∀ (out : Nat → α) g, g < n / 4 → ∀ pos : Fin 4,
      (List.range (n / 4)).foldl (fun dst g => pruneGroup fabsf zero src dst (g * 4)) out (g * 4 + pos) =
        if (masked.2.2 g).toNat.testBit pos then src (g * 4 + pos) else zero := by
    intro out g hg pos
    rw [(foldl_pruneGroup fabsf zero src out (n / 4)).1 g hg pos]
    exact if_congr (hbit g hg pos).symm rfl rfl
  refine ⟨fun g hg => ⟨hvalid g hg, ?_, ?_⟩, ?_, ?_⟩
  · intro pos hpos
    constructor
    · show (tuSparsity2of4PruneFp32 fabsf zero src dst n).2 _ = _
      rw [hplain]
      exact hweight dst g hg ⟨pos, hpos⟩
    · show (tuSparsity2of4PruneWithMasksFp32 fabsf zero src pruned masks n).2.1 _ = _
      rw [hpruned]
      exact hweight pruned g hg ⟨pos, hpos⟩
  · intro pos hpos pos' hpos' hkept hdropped
    apply kept_ge_dropped fabsf src (g * 4) ⟨pos, hpos⟩ ⟨pos', hpos'⟩
    · exact (hbit g hg ⟨pos, hpos⟩).1 hkept
    · rw [← hbit g hg ⟨pos', hpos'⟩]
      simpa using hdropped
  · intro i hi
    apply decompress_compress he hn hvalid ?_ hi
    intro g hg pos hpos hunset b hb
    have hbyte : g * (4 * elemSize) + (pos * elemSize + b) = elemSize * (g * 4 + pos) + b := by
      rw [Nat.mul_add, Nat.mul_comm pos, ← Nat.mul_assoc, Nat.mul_comm (g * 4), Nat.add_assoc]
    have hdiv : (g * (4 * elemSize) + (pos * elemSize + b)) / elemSize = g * 4 + pos := by
      rw [hbyte, Nat.mul_add_div he, Nat.div_eq_of_lt hb, Nat.add_zero]
    have hmod : (g * (4 * elemSize) + (pos * elemSize + b)) % elemSize = b := by
      rw [hbyte, Nat.mul_add_mod, Nat.mod_eq_of_lt hb]
    have hzeroed : masked.2.1 (g * 4 + pos) = zero := by
      show (tuSparsity2of4PruneWithMasksFp32 fabsf zero src pruned masks n).2.1 _ = _
      rw [hpruned, hweight pruned g hg ⟨pos, hpos⟩, if_neg (by simpa using hunset)]
    show bytes (masked.2.1 _) _ = 0
    rw [hdiv, hmod, hzeroed]
    exact hzero b hb
  · intro stream hstream streamMasks repacked
    obtain ⟨-, -, hsize⟩ := compress_spec (tuSparsity2of4Decompress stream elemSize n dense) packed he hn
      (show ∀ g < n / 4, tuSparsity2of4MaskIsValid (streamMasks g) = true from fun g hg => (hstream g hg).2)
    refine ⟨hsize, fun i hi => ?_⟩
    rw [hsize] at hi
    exact compress_decompress he hn (fun g hg => ⟨rfl, (hstream g hg).2, (hstream g hg).1⟩) hi

/-- Two groups with ties between their magnitudes, in one-byte weights. -/
theorem tuSparsity2of4_prune_pack_ties :
    let weights := [5, 5, -5, 5, 0, 0, 7, 0]
    let masked := tuSparsity2of4PruneWithMasksFp32 Int.natAbs 0 (fun i => weights.getD i 0) (fun _ => 1) (fun _ => 0) 8
    ∀ i < 8, tuSparsity2of4Decompress (tuSparsity2of4Compress (fun i => UInt8.ofInt (masked.2.1 (i / 1))) masked.2.2 1 8
      (fun _ => 0)).2 1 8 (fun _ => 0) i = UInt8.ofInt (masked.2.1 (i / 1)) :=
  (tuSparsity2of4_prune_pack Int.natAbs 0 (fun v _ => UInt8.ofInt v) Nat.one_pos (show 8 % 4 = 0 from rfl)
    (fun _ _ => rfl)
    (fun i => [5, 5, -5, 5, 0, 0, 7, 0].getD i 0) (fun _ => 1) (fun _ => 1) (fun _ => 0) (fun _ => 0) (fun _ => 0)).2.1

end Tusim
