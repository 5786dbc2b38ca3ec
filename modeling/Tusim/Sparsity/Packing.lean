import Tusim.Lib.Blocks
import Tusim.Sparsity.Structured2of4

/-!
# The packed form of a 2:4 sparse matrix

Packing and unpacking groups of four weights, two of them kept, in `structured_2of4.c`.  A buffer is a memory of bytes
behind a pointer that is present; sizes of buffers do not reach `2 ^ 64`.  `decompress_spec` says what every byte of the
unpacked weights is, and `compress_spec` every byte of the packed ones; the two undo each other on weights that are zero
outside their masks (`decompress_compress`) and on streams of well-formed groups (`compress_decompress`).
-/

namespace Tusim

open Blocks

/-- `encode_group` on the group at `src` of `pruned`, written at `dst`; the result is the number of bytes written. -/
def tuSparsity2of4EncodeGroup (pruned : Nat → UInt8) (src : Nat) (mask : UInt8) (elemSize : Nat)
    (packed : Nat → UInt8) (dst : Nat) : Nat × (Nat → UInt8) :=
  if elemSize == 0 || !tuSparsity2of4MaskIsValid mask then (0, packed)
  else
    match tuSparsity2of4MaskNthBit mask 0, tuSparsity2of4MaskNthBit mask 1 with
    | some pos0, some pos1 =>
      let packed := memcpy packed dst (fun i => pruned (src + pos0 * elemSize + i)) elemSize
      let packed := memcpy packed (dst + elemSize) (fun i => pruned (src + pos1 * elemSize + i)) elemSize
      let packed := memset packed (dst + 2 * elemSize) (mask &&& 0x0F) 1
      (2 * elemSize + 1, packed)
    | _, _ => (0, packed)

/-- `decode_group` on the group at `src` of `packed`, written at `dst`; the first part of the result is the mask it
reports, `none` if it returns at once. -/
def tuSparsity2of4DecodeGroup (packed : Nat → UInt8) (src : Nat) (elemSize : Nat) (dense : Nat → UInt8) (dst : Nat) :
    Option UInt8 × (Nat → UInt8) :=
  if elemSize == 0 then (none, dense)
  else
    let m := packed (src + 2 * elemSize) &&& 0x0F
    if !tuSparsity2of4MaskIsValid m then (some 0, memset dense dst 0 (4 * elemSize))
    else
      let dense := memset dense dst 0 (4 * elemSize)
      match tuSparsity2of4MaskNthBit m 0, tuSparsity2of4MaskNthBit m 1 with
      | some pos0, some pos1 =>
        let dense := memcpy dense (dst + pos0 * elemSize) (fun i => packed (src + i)) elemSize
        let dense := memcpy dense (dst + pos1 * elemSize) (fun i => packed (src + elemSize + i)) elemSize
        (some m, dense)
      | _, _ => (some m, dense)

/-- The result is the size of the packed weights. -/
def tuSparsity2of4Compress (pruned : Nat → UInt8) (masks : Nat → UInt8) (elemSize n : Nat) (packed : Nat → UInt8) :
    Nat × (Nat → UInt8) :=
  if elemSize == 0 || n == 0 || n % 4 != 0 then (0, packed)
  else
    let groups := n / 4
    let groupStride := 4 * elemSize
    let pktGroupSize := 2 * elemSize + 1
    if (List.range groups).all fun g => tuSparsity2of4MaskIsValid (masks g) then
      (groups * pktGroupSize, (List.range groups).foldl (fun packed g =>
        (tuSparsity2of4EncodeGroup pruned (g * groupStride) (masks g) elemSize packed (g * pktGroupSize)).2) packed)
    else (0, packed)

def tuSparsity2of4Decompress (packed : Nat → UInt8) (elemSize n : Nat) (dense : Nat → UInt8) : Nat → UInt8 :=
  if elemSize == 0 || n == 0 || n % 4 != 0 then dense
  else
    let groups := n / 4
    let groupStride := 4 * elemSize
    let pktGroupSize := 2 * elemSize + 1
    (List.range groups).foldl (fun dense g =>
      (tuSparsity2of4DecodeGroup packed (g * pktGroupSize) elemSize dense (g * groupStride)).2) dense

/-! ### Masks -/

/-- The two positions a valid mask selects, in order. -/
theorem mask_positions {mask : UInt8} (h : tuSparsity2of4MaskIsValid mask = true) :
    ∃ p q, p < q ∧ q < 4 ∧ tuSparsity2of4MaskNthBit mask 0 = some p ∧ tuSparsity2of4MaskNthBit mask 1 = some q ∧
      ∀ i < 4, mask.toNat.testBit i = true ↔ i = p ∨ i = q := by
  unfold tuSparsity2of4MaskIsValid tuSparsity2of4MaskPopcount at h
  rw [decide_eq_true_eq, List.countP_eq_length_filter, List.length_eq_two] at h
  obtain ⟨p, q, hpq⟩ := h
  have hsorted : ((List.range 4).filter fun i => mask.toNat.testBit i).Pairwise (· < ·) :=
    List.pairwise_lt_range.filter _
  have hmem : ∀ i, i ∈ (List.range 4).filter (fun i => mask.toNat.testBit i) ↔ i = p ∨ i = q := by
    intro i
    rw [hpq]
    simp
  have hbit : ∀ i, i ∈ (List.range 4).filter (fun i => mask.toNat.testBit i) ↔
      i < 4 ∧ mask.toNat.testBit i = true := by
    intro i
    rw [List.mem_filter, List.mem_range]
  rw [hpq] at hsorted
  refine ⟨p, q, ?_, ((hbit q).1 ((hmem q).2 (Or.inr rfl))).1, ?_, ?_, ?_⟩
  · simpa using hsorted
  · unfold tuSparsity2of4MaskNthBit
    rw [hpq]
    rfl
  · unfold tuSparsity2of4MaskNthBit
    rw [hpq]
    rfl
  · intro i hi
    rw [← hmem i, hbit i]
    exact ⟨fun h => ⟨hi, h⟩, fun h => h.2⟩

/-- Masks with the same lower half select the same positions. -/
theorem mask_and_testBit (mask : UInt8) {i : Nat} (hi : i < 4) :
    (mask &&& 0x0F).toNat.testBit i = mask.toNat.testBit i := by
  have hall : ∀ i < 4, (0x0F : UInt8).toNat.testBit i = true := by decide
  rw [UInt8.toNat_and, Nat.testBit_and, hall i hi, Bool.and_true]

theorem maskBits_and (mask : UInt8) :
    ((List.range 4).filter fun i => (mask &&& 0x0F).toNat.testBit i) =
      (List.range 4).filter fun i => mask.toNat.testBit i := by
  apply List.filter_congr
  intro i hi
  rw [mask_and_testBit mask (List.mem_range.1 hi)]

@[simp] theorem maskNthBit_and (mask : UInt8) (n : Nat) :
    tuSparsity2of4MaskNthBit (mask &&& 0x0F) n = tuSparsity2of4MaskNthBit mask n := by
  unfold tuSparsity2of4MaskNthBit
  rw [maskBits_and]

@[simp] theorem maskIsValid_and (mask : UInt8) :
    tuSparsity2of4MaskIsValid (mask &&& 0x0F) = tuSparsity2of4MaskIsValid mask := by
  unfold tuSparsity2of4MaskIsValid tuSparsity2of4MaskPopcount
  rw [List.countP_eq_length_filter, List.countP_eq_length_filter, maskBits_and]

/-- A mask with nothing in its upper half. -/
theorem mask_lower_half {mask : UInt8} (h : mask &&& 0xF0 = 0) : mask &&& 0x0F = mask := by
  have hsplit : (mask &&& 0x0F) ||| (mask &&& 0xF0) = mask := by
    apply UInt8.eq_of_toBitVec_eq
    rw [UInt8.toBitVec_or, UInt8.toBitVec_and, UInt8.toBitVec_and, ← BitVec.and_or_distrib_left]
    exact BitVec.and_allOnes
  rw [h, UInt8.or_zero] at hsplit
  exact hsplit

/-! ### Unpacking -/

/-- Byte `b` of the weight at position `pos` of the group that is packed at `src`. -/
def decodedByte (packed : Nat → UInt8) (src elemSize pos b : Nat) : UInt8 :=
  let m := packed (src + 2 * elemSize)
  if !tuSparsity2of4MaskIsValid m then 0
  else if tuSparsity2of4MaskNthBit m 0 = some pos then packed (src + b)
  else if tuSparsity2of4MaskNthBit m 1 = some pos then packed (src + elemSize + b)
  else 0

/-- Weights of one group lie one behind the other. -/
theorem weight_in_group {elemSize pos b : Nat} (hpos : pos < 4) (hb : b < elemSize) :
    pos * elemSize + b < 4 * elemSize := by
  have h := Nat.mul_le_mul_right elemSize hpos
  rw [Nat.succ_mul] at h
  omega

/-- A weight of a group is copied by the copy of its position alone. -/
theorem memcpy_weight {mem src : Nat → UInt8} {dst elemSize p pos b : Nat} (hb : b < elemSize) :
    memcpy mem (dst + p * elemSize) src elemSize (dst + (pos * elemSize + b)) =
      if pos = p then src b else mem (dst + (pos * elemSize + b)) := by
  split
  · rename_i h
    rw [h, ← Nat.add_assoc, memcpy_inside hb]
  · rename_i h
    apply memcpy_outside
    rcases Nat.lt_or_gt_of_ne h with hlt | hgt
    · have := Nat.mul_le_mul_right elemSize hlt
      rw [Nat.succ_mul] at this
      omega
    · have := Nat.mul_le_mul_right elemSize hgt
      rw [Nat.succ_mul] at this
      omega

theorem decodeGroup_inside {packed dense : Nat → UInt8} {src elemSize dst pos b : Nat} (hpos : pos < 4)
    (hb : b < elemSize) :
    (tuSparsity2of4DecodeGroup packed src elemSize dense dst).2 (dst + (pos * elemSize + b)) =
      decodedByte packed src elemSize pos b := by
  have he : elemSize ≠ 0 := by omega
  unfold tuSparsity2of4DecodeGroup decodedByte
  dsimp only
  rw [if_neg (by simpa using he), maskIsValid_and]
  split
  · exact memset_inside (weight_in_group hpos hb)
  · rename_i hvalid
    obtain ⟨p, q, hpq, -, h0, h1, -⟩ := mask_positions (by simpa using hvalid)
    rw [maskNthBit_and, maskNthBit_and, h0, h1]
    dsimp only
    rw [memcpy_weight hb, memcpy_weight hb, memset_inside (weight_in_group hpos hb)]
    by_cases hp : pos = p
    · have hq : pos ≠ q := by omega
      rw [if_neg hq, if_pos hp, if_pos (by rw [hp])]
    · have hp' : ¬ some p = some pos := fun h => hp (Option.some.inj h).symm
      rw [if_neg hp, if_neg hp']
      by_cases hq : pos = q
      · rw [if_pos hq, if_pos (by rw [hq])]
      · rw [if_neg hq, if_neg fun h => hq (Option.some.inj h).symm]

theorem decodeGroup_outside {packed dense : Nat → UInt8} {src elemSize dst i : Nat}
    (h : i < dst ∨ dst + 4 * elemSize ≤ i) :
    (tuSparsity2of4DecodeGroup packed src elemSize dense dst).2 i = dense i := by
  unfold tuSparsity2of4DecodeGroup
  dsimp only
  split
  · rfl
  · split
    · exact memset_outside h
    · rename_i hvalid
      obtain ⟨p, q, hpq, hq, h0, h1, -⟩ := mask_positions (by simpa using hvalid)
      rw [maskNthBit_and, maskNthBit_and, h0, h1]
      dsimp only
      have hple := Nat.mul_le_mul_right elemSize (show p + 1 ≤ 4 by omega)
      have hqle := Nat.mul_le_mul_right elemSize (show q + 1 ≤ 4 by omega)
      rw [Nat.succ_mul] at hple hqle
      rw [memcpy_outside (by omega), memcpy_outside (by omega), memset_outside h]

/-- What unpacking leaves in every byte. -/
theorem decompress_spec (packed dense : Nat → UInt8) {elemSize n : Nat} (he : 0 < elemSize) (hn : n % 4 = 0) :
    (∀ g < n / 4, ∀ pos < 4, ∀ b < elemSize,
      tuSparsity2of4Decompress packed elemSize n dense (g * (4 * elemSize) + (pos * elemSize + b)) =
        decodedByte packed (g * (2 * elemSize + 1)) elemSize pos b) ∧
      ∀ i, n * elemSize ≤ i → tuSparsity2of4Decompress packed elemSize n dense i = dense i := by
  by_cases hzero : n = 0
  · subst hzero
    have heq : tuSparsity2of4Decompress packed elemSize 0 dense = dense := by simp [tuSparsity2of4Decompress]
    rw [heq]
    exact ⟨fun g hg => absurd hg (Nat.not_lt_zero g), fun _ _ => rfl⟩
  · have heq : tuSparsity2of4Decompress packed elemSize n dense =
        (List.range (n / 4)).foldl (fun dense g => (tuSparsity2of4DecodeGroup packed (g * (2 * elemSize + 1)) elemSize
          dense (g * (4 * elemSize))).2) dense := by
      unfold tuSparsity2of4Decompress
      rw [if_neg (by simp [he.ne', hzero, hn])]
    have hdecode : ∀ mem, ∀ g < n / 4, ∀ i < 4 * elemSize,
        (tuSparsity2of4DecodeGroup packed (g * (2 * elemSize + 1)) elemSize mem (g * (4 * elemSize))).2
          (g * (4 * elemSize) + i) = decodedByte packed (g * (2 * elemSize + 1)) elemSize (i / elemSize) (i % elemSize) := by
      intro mem g _ i hi
      have hi' : i = i / elemSize * elemSize + i % elemSize := by rw [Nat.mul_comm, Nat.div_add_mod]
      conv_lhs => rw [hi']
      exact decodeGroup_inside ((Nat.div_lt_iff_lt_mul he).2 hi) (Nat.mod_lt i he)
    obtain ⟨hin, hout⟩ := foldl_blocks hdecode (fun mem g i h => decodeGroup_outside h) dense
    rw [heq]
    constructor
    · intro g hg pos hpos b hb
      rw [hin g hg _ (weight_in_group hpos hb)]
      have hdiv : (pos * elemSize + b) / elemSize = pos := by
        rw [Nat.mul_comm, Nat.mul_add_div he, Nat.div_eq_of_lt hb, Nat.add_zero]
      have hmod : (pos * elemSize + b) % elemSize = b := by
        rw [Nat.mul_comm, Nat.mul_add_mod, Nat.mod_eq_of_lt hb]
      rw [hdiv, hmod]
    · intro i hi
      apply hout
      have hsize : n / 4 * (4 * elemSize) = n * elemSize := by
        rw [← Nat.mul_assoc, Nat.div_mul_cancel (Nat.dvd_of_mod_eq_zero hn)]
      rwa [hsize]

/-! ### Packing -/

/-- The position of the `nz`-th weight that a valid mask selects. -/
def maskPosition (mask : UInt8) (nz : Nat) : Nat := (tuSparsity2of4MaskNthBit mask nz).getD 0

/-- Byte `i` of a packed group. -/
def encodedByte (pruned : Nat → UInt8) (src : Nat) (mask : UInt8) (elemSize i : Nat) : UInt8 :=
  if i < elemSize then pruned (src + maskPosition mask 0 * elemSize + i)
  else if i < 2 * elemSize then pruned (src + maskPosition mask 1 * elemSize + (i - elemSize))
  else mask &&& 0x0F

theorem encodeGroup_inside (pruned packed : Nat → UInt8) (src dst : Nat) {elemSize : Nat} {mask : UInt8} (he : 0 < elemSize)
    (hmask : tuSparsity2of4MaskIsValid mask = true) {i : Nat} (hi : i < 2 * elemSize + 1) :
    (tuSparsity2of4EncodeGroup pruned src mask elemSize packed dst).2 (dst + i) =
      encodedByte pruned src mask elemSize i := by
  obtain ⟨p, q, -, -, h0, h1, -⟩ := mask_positions hmask
  unfold tuSparsity2of4EncodeGroup encodedByte maskPosition
  rw [if_neg (by simp [he.ne', hmask]), h0, h1]
  dsimp only [Option.getD_some]
  split
  · rename_i hlt
    rw [memset_outside (by omega), memcpy_outside (by omega), memcpy_inside hlt]
  · rename_i hge
    split
    · rename_i hlt
      rw [memset_outside (by omega), show dst + i = dst + elemSize + (i - elemSize) by omega,
        memcpy_inside (by omega)]
    · rw [show dst + i = dst + 2 * elemSize + 0 by omega, memset_inside (by omega)]

theorem encodeGroup_outside {pruned packed : Nat → UInt8} {src elemSize dst : Nat} {mask : UInt8} {i : Nat}
    (h : i < dst ∨ dst + (2 * elemSize + 1) ≤ i) :
    (tuSparsity2of4EncodeGroup pruned src mask elemSize packed dst).2 i = packed i := by
  unfold tuSparsity2of4EncodeGroup
  split
  · rfl
  · rename_i hmask
    obtain ⟨p, q, -, -, h0, h1, -⟩ := mask_positions (show tuSparsity2of4MaskIsValid mask = true by simp_all)
    rw [h0, h1]
    dsimp only
    rw [memset_outside (by omega), memcpy_outside (by omega), memcpy_outside (by omega)]

/-- What packing with valid masks leaves in every byte. -/
theorem compress_spec (pruned packed : Nat → UInt8) {masks : Nat → UInt8} {elemSize n : Nat} (he : 0 < elemSize) (hn : n % 4 = 0)
    (hmasks : ∀ g < n / 4, tuSparsity2of4MaskIsValid (masks g) = true) :
    (∀ g < n / 4, ∀ i < 2 * elemSize + 1,
      (tuSparsity2of4Compress pruned masks elemSize n packed).2 (g * (2 * elemSize + 1) + i) =
        encodedByte pruned (g * (4 * elemSize)) (masks g) elemSize i) ∧
      (∀ i, n / 4 * (2 * elemSize + 1) ≤ i → (tuSparsity2of4Compress pruned masks elemSize n packed).2 i = packed i) ∧
      (tuSparsity2of4Compress pruned masks elemSize n packed).1 = n / 4 * (2 * elemSize + 1) := by
  by_cases hzero : n = 0
  · subst hzero
    have heq : tuSparsity2of4Compress pruned masks elemSize 0 packed = (0, packed) := by simp [tuSparsity2of4Compress]
    rw [heq]
    exact ⟨fun g hg => absurd hg (Nat.not_lt_zero g), fun _ _ => rfl, (Nat.zero_mul _).symm⟩
  · have hall : ((List.range (n / 4)).all fun g => tuSparsity2of4MaskIsValid (masks g)) = true := by
      rw [List.all_eq_true]
      exact fun g hg => hmasks g (List.mem_range.1 hg)
    unfold tuSparsity2of4Compress
    dsimp only
    rw [if_neg (by simp [he.ne', hzero, hn]), if_pos hall]
    obtain ⟨hin, hout⟩ := foldl_blocks
      (fun mem g hg i hi => encodeGroup_inside pruned mem (g * (4 * elemSize)) _ he (hmasks g hg) hi)
      (fun mem g i h => encodeGroup_outside h) packed
    exact ⟨hin, hout, rfl⟩

/-! ### Round trips -/

/-- Packing forgets only the weights outside the masks, so nothing is lost if these are zero. -/
theorem decompress_compress {pruned packed dense masks : Nat → UInt8} {elemSize n : Nat} (he : 0 < elemSize)
    (hn : n % 4 = 0) (hmasks : ∀ g < n / 4, tuSparsity2of4MaskIsValid (masks g) = true)
    (hzero : ∀ g < n / 4, ∀ pos < 4, (masks g).toNat.testBit pos = false →
      ∀ b < elemSize, pruned (g * (4 * elemSize) + (pos * elemSize + b)) = 0) {i : Nat} (hi : i < n * elemSize) :
    tuSparsity2of4Decompress (tuSparsity2of4Compress pruned masks elemSize n packed).2 elemSize n dense i = pruned i := by
  obtain ⟨hpacked, -, -⟩ := compress_spec pruned packed he hn hmasks
  obtain ⟨hdense, -⟩ := decompress_spec (tuSparsity2of4Compress pruned masks elemSize n packed).2 dense he hn
  obtain ⟨g, hg, pos, hpos, b, hb, rfl⟩ : ∃ g < n / 4, ∃ pos < 4, ∃ b < elemSize,
      i = g * (4 * elemSize) + (pos * elemSize + b) := by
    have hgroup : 0 < 4 * elemSize := by omega
    refine ⟨i / (4 * elemSize), ?_, i % (4 * elemSize) / elemSize, ?_, i % (4 * elemSize) % elemSize, Nat.mod_lt _ he, ?_⟩
    · rw [Nat.div_lt_iff_lt_mul hgroup, ← Nat.mul_assoc, Nat.div_mul_cancel (Nat.dvd_of_mod_eq_zero hn)]
      exact hi
    · exact (Nat.div_lt_iff_lt_mul he).2 (Nat.mod_lt i hgroup)
    · rw [Nat.mul_comm (i % (4 * elemSize) / elemSize), Nat.div_add_mod, Nat.mul_comm, Nat.div_add_mod]
  have hmask := hmasks g hg
  obtain ⟨p, q, hpq, -, h0, h1, hbits⟩ := mask_positions hmask
  have hstored : (tuSparsity2of4Compress pruned masks elemSize n packed).2 (g * (2 * elemSize + 1) + 2 * elemSize) =
      masks g &&& 0x0F := by
    rw [hpacked g hg _ (by omega)]
    unfold encodedByte
    rw [if_neg (by omega), if_neg (by omega)]
  rw [hdense g hg pos hpos b hb]
  unfold decodedByte
  dsimp only
  rw [hstored, maskIsValid_and, hmask, maskNthBit_and, maskNthBit_and, h0, h1, if_neg (by decide)]
  by_cases hp : p = pos
  · rw [if_pos (by rw [hp]), hpacked g hg b (by omega)]
    unfold encodedByte maskPosition
    rw [if_pos hb, h0, hp, ← Nat.add_assoc]
    rfl
  · rw [if_neg (fun h => hp (Option.some.inj h))]
    by_cases hq : q = pos
    · rw [if_pos (by rw [hq]), Nat.add_assoc, hpacked g hg _ (by omega)]
      unfold encodedByte maskPosition
      rw [if_neg (by omega), if_pos (by omega), h1, hq, Nat.add_sub_cancel_left, ← Nat.add_assoc]
      rfl
    · rw [if_neg (fun h => hq (Option.some.inj h))]
      have hunset : (masks g).toNat.testBit pos = false := by
        rw [← Bool.not_eq_true, hbits pos hpos]
        omega
      exact (hzero g hg pos hpos hunset b hb).symm

/-- Unpacking loses nothing of a stream of well-formed groups. -/
theorem compress_decompress {packed packed' dense masks : Nat → UInt8} {elemSize n : Nat} (he : 0 < elemSize)
    (hn : n % 4 = 0) (hmasks : ∀ g < n / 4, masks g = packed (g * (2 * elemSize + 1) + 2 * elemSize) ∧
      tuSparsity2of4MaskIsValid (masks g) = true ∧ masks g &&& 0xF0 = 0) {i : Nat}
    (hi : i < n / 4 * (2 * elemSize + 1)) :
    (tuSparsity2of4Compress (tuSparsity2of4Decompress packed elemSize n dense) masks elemSize n packed').2 i =
      packed i := by
  obtain ⟨hpacked, -, -⟩ := compress_spec (tuSparsity2of4Decompress packed elemSize n dense) packed' he hn fun g hg => (hmasks g hg).2.1
  obtain ⟨hdense, -⟩ := decompress_spec packed dense he hn
  have hw : 0 < 2 * elemSize + 1 := by omega
  have hg : i / (2 * elemSize + 1) < n / 4 := (Nat.div_lt_iff_lt_mul hw).2 hi
  have hj := Nat.mod_lt i hw
  have hi' : i = i / (2 * elemSize + 1) * (2 * elemSize + 1) + i % (2 * elemSize + 1) := by
    rw [Nat.mul_comm, Nat.div_add_mod]
  generalize i / (2 * elemSize + 1) = g at hg hi'
  generalize i % (2 * elemSize + 1) = j at hj hi'
  subst hi'
  obtain ⟨hmask, hvalid, hupper⟩ := hmasks g hg
  obtain ⟨p, q, hpq, hq4, h0, h1, -⟩ := mask_positions hvalid
  rw [hpacked g hg j hj]
  unfold encodedByte maskPosition
  rw [h0, h1, Option.getD_some, Option.getD_some]
  split
  · rename_i hlt
    rw [Nat.add_assoc, hdense g hg p (by omega) j hlt]
    unfold decodedByte
    dsimp only
    rw [← hmask, hvalid, h0, if_neg (by decide), if_pos rfl]
  · rename_i hge
    split
    · rename_i hlt
      rw [Nat.add_assoc, hdense g hg q hq4 _ (by omega)]
      unfold decodedByte
      dsimp only
      rw [← hmask, hvalid, h0, h1, if_neg (by decide), if_neg (fun h => hpq.ne (Option.some.inj h)), if_pos rfl]
      congr 1
      omega
    · rw [mask_lower_half hupper, hmask]
      congr 1
      omega

end Tusim
