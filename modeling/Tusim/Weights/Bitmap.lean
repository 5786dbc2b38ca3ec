import Tusim.Weights.WeightCompress

/-!
# The bitmap codec

* a bit of the bitmap is set where the element is not zero, and the bits after the last element are clear
  (`bitAt_bitmapOf`); the nonzero elements follow in their order (`tuCompressBitmap_eq`);
* the validator accepts the stream, and the decoder gives the elements back (`tuDecompressBitmap_bitmapStream`).
-/

namespace Tusim

open Bytes

def nonzeros (src : List UInt16) : List UInt16 := src.filter fun x => x ≠ 0

theorem countNonzeroBits_eq (src : List UInt16) : countNonzeroBits src = (nonzeros src).length := by
  have h : ∀ k, src.foldl (fun count x => if x ≠ 0 then count + 1 else count) k = k + (nonzeros src).length := by
    unfold nonzeros
    induction src with
    | nil => simp
    | cons x src ih =>
      intro k
      rw [List.foldl_cons, ih]
      by_cases hx : x = 0
      · simp [hx]
      · simp [hx]
        omega
  exact (h 0).trans (Nat.zero_add _)

theorem nonzeros_length_le (src : List UInt16) : (nonzeros src).length ≤ src.length := List.length_filter_le _ _

section

variable {src : List UInt16} {k : Nat}

theorem getD_zero (hk : k < src.length) : src.getD k 0 = src[k] := by
  rw [List.getD_eq_getElem?_getD, List.getElem?_eq_getElem hk, Option.getD_some]

theorem nonzeros_take_succ (hk : k < src.length) :
    nonzeros (src.take (k + 1)) = nonzeros (src.take k) ++ if src[k] = 0 then [] else [src[k]] := by
  unfold nonzeros
  rw [List.take_succ_eq_append_getElem hk, List.filter_append]
  by_cases hx : src[k] = 0 <;> simp [hx]

/-- The nonzero elements before, at and after a nonzero element. -/
theorem nonzeros_split (hk : k < src.length) (hx : src[k] ≠ 0) :
    nonzeros src = nonzeros (src.take k) ++ [src[k]] ++ nonzeros (src.drop (k + 1)) := by
  unfold nonzeros
  conv_lhs => rw [← List.take_append_drop k src, List.drop_eq_getElem_cons hk]
  rw [List.filter_append, List.filter_cons_of_pos (by simpa using hx), List.append_assoc]
  rfl

end

/-! ### Raw elements -/

theorem length_rawBytes (src : List UInt16) : (rawBytes src).length = 2 * src.length :=
  length_flatMap_width (fun _ => length_leBytes 2 _) src

theorem rawBytes_append (src src' : List UInt16) : rawBytes (src ++ src') = rawBytes src ++ rawBytes src' :=
  List.flatMap_append

/-- The elements in memory give them back. -/
theorem readRaw_rawBytes (src : List UInt16) : readRaw (rawBytes src) src.length = src := by
  unfold readRaw
  apply List.ext_getElem
  · simp
  · intro i hi hi'
    have hread : readLE 2 (rawBytes src) (2 * i) = src[i].toNat :=
      readLE_block src[i].toNat_lt _ _ (flatMap_split (fun x : UInt16 => leBytes 2 x.toNat) hi')
        (length_take_flatMap (fun _ => length_leBytes 2 _) (Nat.le_of_lt hi')).symm
    rw [List.getElem_map, List.getElem_range, hread, UInt16.ofNat_toNat]

/-! ### Encoding -/

/-- The bitmap that the encoder writes. -/
def bitmapOf (src : List UInt16) : List UInt8 :=
  ((List.range src.length).foldl (bitmapStep src) (List.replicate ((src.length + 7) / 8) 0, [])).1

/-- The bytes of the elements. -/
def bitmapStream (src : List UInt16) : List UInt8 :=
  leBytes 4 src.length ++ leBytes 4 (nonzeros src).length ++ bitmapOf src ++ rawBytes (nonzeros src)

/-- The loop of the encoder after `k` elements. -/
private theorem foldl_bitmapStep (src : List UInt16) {k : Nat} (hk : k ≤ src.length) :
    ∃ bits, (List.range k).foldl (bitmapStep src) (List.replicate ((src.length + 7) / 8) 0, []) =
        (bits, rawBytes (nonzeros (src.take k))) ∧
      bits.length = (src.length + 7) / 8 ∧ ∀ j, bitAt bits j = decide (j < k ∧ src.getD j 0 ≠ 0) := by
  induction k with
  | zero =>
    refine ⟨List.replicate ((src.length + 7) / 8) 0, rfl, List.length_replicate, ?_⟩
    intro j
    rw [bitAt_replicate]
    simp
  | succ k ih =>
    obtain ⟨bits, hfold, hlen, hbits⟩ := ih (Nat.le_of_succ_le hk)
    rw [List.range_succ, List.foldl_append, hfold, List.foldl_cons, List.foldl_nil]
    unfold bitmapStep
    rw [nonzeros_take_succ hk]
    by_cases hx : src.getD k 0 = 0
    · have hzero : src[k] = 0 := (getD_zero hk).symm.trans hx
      rw [if_pos hx, if_pos hzero, List.append_nil]
      refine ⟨bits, rfl, hlen, ?_⟩
      intro j
      rw [hbits j]
      by_cases hj : j = k
      · simp [hj, List.getElem?_eq_getElem hk, hzero]
      · have hlt : j < k ↔ j < k + 1 := by omega
        simp [hlt]
    · have hne : src[k] ≠ 0 := fun h => hx ((getD_zero hk).trans h)
      rw [if_neg hx, if_neg hne, rawBytes_append, getD_zero hk]
      refine ⟨setBit bits k, by simp [rawBytes], by rw [length_setBit, hlen], ?_⟩
      intro j
      rw [bitAt_setBit (by omega), hbits j]
      by_cases hj : j = k
      · simp [hj, List.getElem?_eq_getElem hk, hne]
      · have hlt : j < k ↔ j < k + 1 := by omega
        simp [hlt, hj]

theorem length_bitmapOf (src : List UInt16) : (bitmapOf src).length = (src.length + 7) / 8 := by
  obtain ⟨bits, hfold, hlen, -⟩ := foldl_bitmapStep src (Nat.le_refl _)
  unfold bitmapOf
  rw [hfold]
  exact hlen

theorem bitAt_bitmapOf (src : List UInt16) (j : Nat) : bitAt (bitmapOf src) j = decide (src.getD j 0 ≠ 0) := by
  obtain ⟨bits, hfold, -, hbits⟩ := foldl_bitmapStep src (Nat.le_refl _)
  unfold bitmapOf
  rw [hfold, hbits j]
  by_cases hj : j < src.length
  · simp [hj]
  · simp [hj, List.getD_eq_getElem?_getD]

theorem tuCompressBitmap_eq (src : List UInt16) (capacity : Nat) :
    tuCompressBitmap src capacity =
      if src.length ≤ 4294967288 ∧ bitmapBytes src ≤ uint32Max.toNat ∧ bitmapBytes src ≤ capacity then
        some (bitmapStream src)
      else none := by
  obtain ⟨bits, hfold, -, -⟩ := foldl_bitmapStep src (Nat.le_refl _)
  have hmax : uint32Max.toNat - 7 = 4294967288 := by decide
  have hbits : bitmapOf src = bits := by rw [bitmapOf, hfold]
  have hstream : bitmapStream src =
      leBytes 4 src.length ++ leBytes 4 (countNonzeroBits src) ++ bits ++ rawBytes (nonzeros src) := by
    rw [bitmapStream, hbits, countNonzeroBits_eq]
  rw [List.take_length] at hfold
  unfold tuCompressBitmap
  rw [hmax]
  dsimp only
  change (if _ then _ else if bitmapBytes src > _ ∨ capacity < bitmapBytes src then _ else _) = _
  rw [hfold, hstream]
  by_cases hn : src.length > 4294967288
  · rw [if_pos hn, if_neg]
    omega
  rw [if_neg hn]
  by_cases hsize : bitmapBytes src > uint32Max.toNat ∨ capacity < bitmapBytes src
  · rw [if_pos hsize, if_neg]
    omega
  · rw [if_neg hsize, if_pos]
    omega

theorem length_bitmapStream (src : List UInt16) : (bitmapStream src).length = bitmapBytes src := by
  unfold bitmapStream bitmapBytes tuBitmapHeaderBytes
  simp only [List.length_append, length_leBytes, length_bitmapOf, length_rawBytes, countNonzeroBits_eq]
  omega

/-! ### Encoded streams -/

section

variable {src : List UInt16}

theorem readLE_bitmapStream_zero (hn : src.length < 2 ^ 32) : readLE 4 (bitmapStream src) 0 = src.length :=
  readLE_block hn [] (leBytes 4 (nonzeros src).length ++ bitmapOf src ++ rawBytes (nonzeros src))
    (by simp [bitmapStream]) rfl

theorem readLE_bitmapStream_four (hn : src.length < 2 ^ 32) :
    readLE 4 (bitmapStream src) 4 = (nonzeros src).length :=
  readLE_block ((nonzeros_length_le src).trans_lt hn) (leBytes 4 src.length) (bitmapOf src ++ rawBytes (nonzeros src))
    (by simp [bitmapStream]) (by simp)

theorem bitmapBody_bitmapStream (src : List UInt16) :
    bitmapBody (bitmapStream src) = bitmapOf src ++ rawBytes (nonzeros src) := by
  unfold bitmapBody bitmapStream
  rw [List.append_assoc, List.drop_left' (by simp [tuBitmapHeaderBytes])]

/-- The bit of an element. -/
theorem bitAt_bitmapBody {i : Nat} (hi : i < src.length) :
    bitAt (bitmapBody (bitmapStream src)) i = decide (src[i] ≠ 0) := by
  rw [bitmapBody_bitmapStream, bitAt_append_left (by rw [length_bitmapOf]; omega), bitAt_bitmapOf, getD_zero hi]

/-- The validator counts the nonzero elements. -/
private theorem foldl_observed {k : Nat} (hk : k ≤ src.length) :
    (List.range k).foldl (fun observed i => observed + (bitAt (bitmapBody (bitmapStream src)) i).toNat) 0 =
      (nonzeros (src.take k)).length := by
  induction k with
  | zero => rfl
  | succ k ih =>
    rw [List.range_succ, List.foldl_append, ih (Nat.le_of_succ_le hk), nonzeros_take_succ hk]
    rw [List.foldl_cons, List.foldl_nil, bitAt_bitmapBody hk, List.length_append]
    by_cases hx : src[k] = 0 <;> simp [hx]

/-- The last byte of the bitmap has no bit after the last element. -/
private theorem padding_clear (hmod : src.length % 8 ≠ 0) :
    ((bitmapStream src).getD (tuBitmapHeaderBytes + (src.length + 7) / 8 - 1) 0) &&&
      ~~~(UInt8.ofNat (1 <<< (src.length % 8) - 1)) = 0 := by
  have hlen := length_bitmapOf src
  have hlast : (bitmapStream src).getD (tuBitmapHeaderBytes + (src.length + 7) / 8 - 1) 0 =
      (bitmapOf src).getD (src.length / 8) 0 := by
    have hindex : tuBitmapHeaderBytes + (src.length + 7) / 8 - 1 = src.length / 8 + tuBitmapHeaderBytes := by
      unfold tuBitmapHeaderBytes
      omega
    have hbody := congrArg (·[src.length / 8]?) (bitmapBody_bitmapStream src)
    simp only [bitmapBody, List.getElem?_drop, List.getElem?_append_left (show src.length / 8 < (bitmapOf src).length by
      omega)] at hbody
    rw [List.getD_eq_getElem?_getD, List.getD_eq_getElem?_getD, hindex, Nat.add_comm, hbody]
  rw [hlast, and_not_mask_eq_zero]
  intro j hj hj8
  -- bit `j` of the last byte stands for an index that is not below the number of elements
  have hbit := bitAt_bitmapOf src (8 * (src.length / 8) + j)
  have hbyte : (8 * (src.length / 8) + j) / 8 = src.length / 8 := by omega
  have hplace : (8 * (src.length / 8) + j) % 8 = j := by omega
  have hafter : src.getD (8 * (src.length / 8) + j) 0 = 0 := by
    rw [List.getD_eq_getElem?_getD, List.getElem?_eq_none (by omega)]
    rfl
  unfold bitAt at hbit
  rw [hbyte, hplace, hafter] at hbit
  simpa using hbit

theorem tuCompressBitmapValidate_bitmapStream (hn : src.length ≤ 4294967288) :
    tuCompressBitmapValidate (bitmapStream src) := by
  have hmax : uint32Max.toNat - 7 = 4294967288 := by decide
  have hcount := nonzeros_length_le src
  have hobserved := foldl_observed (Nat.le_refl src.length)
  rw [List.take_length] at hobserved
  unfold tuCompressBitmapValidate
  rw [readLE_bitmapStream_zero (by omega), readLE_bitmapStream_four (by omega), length_bitmapStream, hmax]
  dsimp only
  rw [hobserved, if_neg, if_neg (by omega), if_neg, if_neg]
  · simp
  · rintro ⟨hmod, hbits⟩
    exact hbits (padding_clear hmod)
  · rw [bitmapBytes, countNonzeroBits_eq]
    simp
  · unfold bitmapBytes
    omega

/-- The loop of the decoder after `k` elements. -/
private theorem foldl_unpackStep {k : Nat} (hk : k ≤ src.length) :
    (List.range k).foldl (unpackStep (bitmapStream src)) (tuBitmapHeaderBytes + (src.length + 7) / 8, []) =
      (tuBitmapHeaderBytes + (src.length + 7) / 8 + 2 * (nonzeros (src.take k)).length, src.take k) := by
  induction k with
  | zero => rfl
  | succ k ih =>
    rw [List.range_succ, List.foldl_append, ih (Nat.le_of_succ_le hk), List.foldl_cons, List.foldl_nil]
    unfold unpackStep
    dsimp only
    rw [bitAt_bitmapBody hk, nonzeros_take_succ hk, List.take_succ_eq_append_getElem hk]
    by_cases hx : src[k] = 0
    · simp [hx]
    -- the values read so far are those of the nonzero elements before this one
    · have hvalues : rawBytes (nonzeros src) =
          rawBytes (nonzeros (src.take k)) ++ leBytes 2 src[k].toNat ++ rawBytes (nonzeros (src.drop (k + 1))) := by
        conv_lhs => rw [nonzeros_split hk hx, rawBytes_append, rawBytes_append]
        simp [rawBytes]
      have hread : readLE 2 (bitmapStream src)
          (tuBitmapHeaderBytes + (src.length + 7) / 8 + 2 * (nonzeros (src.take k)).length) = src[k].toNat := by
        refine readLE_block src[k].toNat_lt
          (leBytes 4 src.length ++ leBytes 4 (nonzeros src).length ++ bitmapOf src ++ rawBytes (nonzeros (src.take k)))
          (rawBytes (nonzeros (src.drop (k + 1)))) ?_ ?_
        · unfold bitmapStream
          rw [hvalues]
          simp only [List.append_assoc]
        · simp only [List.length_append, length_leBytes, length_bitmapOf, length_rawBytes]
          rfl
      rw [if_pos (by simpa using hx), if_neg hx, hread, UInt16.ofNat_toNat, List.length_append, List.length_singleton]
      rfl

theorem tuDecompressBitmap_bitmapStream (hn : src.length ≤ 4294967288) {capacity : Nat}
    (hcap : src.length ≤ capacity) : tuDecompressBitmap (bitmapStream src) capacity = some src := by
  have hvalid := tuCompressBitmapValidate_bitmapStream hn
  unfold tuDecompressBitmap
  rw [readLE_bitmapStream_zero (by omega), hvalid]
  dsimp only
  rw [if_neg (by simp), if_neg (Nat.not_lt.2 hcap), foldl_unpackStep (Nat.le_refl _), List.take_length]

end

end Tusim
