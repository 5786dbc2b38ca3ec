import Tusim.Weights.Bitmap

/-!
# Canonical bitmap streams

The validator checks the length of a stream, the number of its set bits and the padding of its bitmap (`ValidBitmap`),
but not the stored values.  So an accepted stream is the encoding of what it decodes to exactly if none of the stored
values is zero (`tuCompressBitmap_decoded_iff`): a stored zero is left out when the elements are encoded again.
-/

namespace Tusim

open Bytes

/-- The offset of the first stored value. -/
def bitmapValueOff (src : List UInt8) : Nat := tuBitmapHeaderBytes + (readLE 4 src 0 + 7) / 8

def storedValue (src : List UInt8) (j : Nat) : UInt16 := UInt16.ofNat (readLE 2 src (bitmapValueOff src + 2 * j))

/-- None of the stored values is zero. -/
def StoredNonzero (src : List UInt8) : Prop := ∀ j < readLE 4 src 4, storedValue src j ≠ 0

/-- The number of set bits before an element. -/
def bitRank (src : List UInt8) (k : Nat) : Nat :=
  (List.range k).foldl (fun observed i => observed + (bitAt (bitmapBody src) i).toNat) 0

/-- The first elements that the decoder writes. -/
def decoded (src : List UInt8) (k : Nat) : List UInt16 :=
  (List.range k).map fun i => if bitAt (bitmapBody src) i then storedValue src (bitRank src i) else 0

section

variable {src : List UInt8}

theorem bitRank_succ (src : List UInt8) (k : Nat) :
    bitRank src (k + 1) = bitRank src k + (bitAt (bitmapBody src) k).toNat := by
  unfold bitRank
  rw [List.range_succ, List.foldl_append, List.foldl_cons, List.foldl_nil]

theorem bitRank_mono {j k : Nat} (h : j ≤ k) : bitRank src j ≤ bitRank src k := by
  induction h with
  | refl => exact Nat.le_refl _
  | step _ ih => exact ih.trans (by rw [bitRank_succ]; exact Nat.le_add_right _ _)

theorem decoded_succ (src : List UInt8) (k : Nat) :
    decoded src (k + 1) =
      decoded src k ++ [if bitAt (bitmapBody src) k then storedValue src (bitRank src k) else 0] := by
  unfold decoded
  rw [List.range_succ, List.map_append, List.map_singleton]

theorem length_decoded (src : List UInt8) (k : Nat) : (decoded src k).length = k := by
  simp [decoded]

/-! ### Accepted streams -/

/-- What the validator has checked. -/
structure ValidBitmap (src : List UInt8) : Prop where
  count_le : readLE 4 src 0 ≤ 4294967288
  length : bitmapValueOff src + 2 * readLE 4 src 4 = src.length
  rank : bitRank src (readLE 4 src 0) = readLE 4 src 4
  padding : ∀ j, readLE 4 src 0 ≤ j → j < 8 * ((readLE 4 src 0 + 7) / 8) → bitAt (bitmapBody src) j = false

/-- The bits behind the last element are those of the last byte of the bitmap. -/
private theorem padding_of_mask {n : Nat}
    (h : ¬ (n % 8 ≠ 0 ∧ (src.getD (tuBitmapHeaderBytes + (n + 7) / 8 - 1) 0) &&&
      ~~~(UInt8.ofNat (1 <<< (n % 8) - 1)) ≠ 0)) {j : Nat} (hj : n ≤ j) (hj' : j < 8 * ((n + 7) / 8)) :
    bitAt (bitmapBody src) j = false := by
  have hmod : n % 8 ≠ 0 := by omega
  have hmask := (and_not_mask_eq_zero _ _).1 (Decidable.not_not.1 fun hne => h ⟨hmod, hne⟩) (j % 8) (by omega) (by omega)
  have hbyte : (bitmapBody src).getD (j / 8) 0 = src.getD (tuBitmapHeaderBytes + (n + 7) / 8 - 1) 0 := by
    have hindex : tuBitmapHeaderBytes + j / 8 = tuBitmapHeaderBytes + (n + 7) / 8 - 1 := by omega
    unfold bitmapBody
    rw [List.getD_eq_getElem?_getD, List.getElem?_drop, hindex, List.getD_eq_getElem?_getD]
  unfold bitAt
  rw [hbyte]
  exact hmask

theorem validBitmap_of_validate (h : tuCompressBitmapValidate src = true) : ValidBitmap src := by
  have hmax : uint32Max.toNat - 7 = 4294967288 := by decide
  unfold tuCompressBitmapValidate at h
  dsimp only at h
  rw [hmax] at h
  split at h
  · exact absurd h Bool.false_ne_true
  split at h
  · exact absurd h Bool.false_ne_true
  rename_i hcount
  split at h
  · exact absurd h Bool.false_ne_true
  rename_i hlength
  split at h
  · exact absurd h Bool.false_ne_true
  rename_i hmask
  rw [not_or] at hcount
  have hlength := Decidable.not_not.1 hlength
  refine ⟨Nat.not_lt.1 hcount.1, ?_, of_decide_eq_true h, fun j hj hj' => padding_of_mask hmask hj hj'⟩
  unfold bitmapValueOff
  omega

/-- The loop of the decoder after `k` elements. -/
theorem foldl_unpackStep_decoded (src : List UInt8) (k : Nat) :
    (List.range k).foldl (unpackStep src) (bitmapValueOff src, []) =
      (bitmapValueOff src + 2 * bitRank src k, decoded src k) := by
  induction k with
  | zero => rfl
  | succ k ih =>
    rw [List.range_succ, List.foldl_append, ih, List.foldl_cons, List.foldl_nil, bitRank_succ, decoded_succ]
    unfold unpackStep storedValue
    dsimp only
    by_cases hbit : bitAt (bitmapBody src) k = true
    · rw [if_pos hbit, if_pos hbit, hbit, Bool.toNat_true, Nat.mul_succ, Nat.add_assoc]
    · rw [if_neg hbit, if_neg hbit, Bool.eq_false_iff.2 hbit, Bool.toNat_false, Nat.add_zero]

theorem tuDecompressBitmap_eq_some {capacity : Nat} {out : List UInt16}
    (h : tuDecompressBitmap src capacity = some out) : ValidBitmap src ∧ out = decoded src (readLE 4 src 0) := by
  unfold tuDecompressBitmap at h
  dsimp only at h
  split at h
  · exact absurd h nofun
  rename_i hvalid
  split at h
  · exact absurd h nofun
  have hout := Option.some.inj h
  rw [show tuBitmapHeaderBytes + (readLE 4 src 0 + 7) / 8 = bitmapValueOff src from rfl,
    foldl_unpackStep_decoded] at hout
  refine ⟨validBitmap_of_validate ?_, hout.symm⟩
  simpa using hvalid

/-! ### Encoding again -/

/-- The nonzero elements are the stored values. -/
theorem nonzeros_decoded {k : Nat} (h : ∀ j < bitRank src k, storedValue src j ≠ 0) :
    nonzeros (decoded src k) = (List.range (bitRank src k)).map (storedValue src) := by
  induction k with
  | zero => rfl
  | succ k ih =>
    have hrank := bitRank_succ src k
    have ih := ih fun j hj => h j (by omega)
    have hsnoc : ∀ x, nonzeros (decoded src k ++ [x]) = nonzeros (decoded src k) ++ nonzeros [x] := fun x =>
      List.filter_append ..
    rw [decoded_succ, hsnoc, ih, hrank]
    by_cases hbit : bitAt (bitmapBody src) k = true
    · rw [hbit, Bool.toNat_true] at hrank ⊢
      have hne := h (bitRank src k) (by omega)
      rw [if_pos rfl, List.range_succ, List.map_append, List.map_singleton]
      simp [nonzeros, hne]
    · rw [if_neg hbit, Bool.eq_false_iff.2 hbit, Bool.toNat_false, Nat.add_zero]
      simp [nonzeros]

/-- An element is nonzero where its bit is set. -/
theorem decoded_ne_zero_iff {n i : Nat} (hi : i < n) (h : ∀ j < bitRank src n, storedValue src j ≠ 0) :
    (decoded src n).getD i 0 ≠ 0 ↔ bitAt (bitmapBody src) i = true := by
  have hget : (decoded src n).getD i 0 =
      if bitAt (bitmapBody src) i then storedValue src (bitRank src i) else 0 := by
    unfold decoded
    rw [List.getD_eq_getElem?_getD, List.getElem?_map, List.getElem?_range hi]
    rfl
  rw [hget]
  by_cases hbit : bitAt (bitmapBody src) i = true
  · have hlt : bitRank src i < bitRank src n := by
      have hmono : bitRank src (i + 1) ≤ bitRank src n := bitRank_mono hi
      rw [bitRank_succ, hbit, Bool.toNat_true] at hmono
      omega
    rw [if_pos hbit]
    exact iff_of_true (h _ hlt) hbit
  · rw [if_neg hbit]
    simp [hbit]

/-- The bitmap is the one of the elements. -/
theorem bitmapOf_decoded (hvalid : ValidBitmap src) (h : StoredNonzero src) :
    bitmapOf (decoded src (readLE 4 src 0)) = (src.drop tuBitmapHeaderBytes).take ((readLE 4 src 0 + 7) / 8) := by
  have hlength := hvalid.length
  unfold bitmapValueOff at hlength
  have htake : ((src.drop tuBitmapHeaderBytes).take ((readLE 4 src 0 + 7) / 8)).length = (readLE 4 src 0 + 7) / 8 := by
    rw [List.length_take, List.length_drop]
    omega
  have hstored : ∀ j < bitRank src (readLE 4 src 0), storedValue src j ≠ 0 := by
    rw [hvalid.rank]
    exact h
  apply ext_bitAt
  · rw [htake, length_bitmapOf, length_decoded]
  · intro i hi
    rw [length_bitmapOf, length_decoded] at hi
    have hbody : bitAt ((src.drop tuBitmapHeaderBytes).take ((readLE 4 src 0 + 7) / 8)) i =
        bitAt (bitmapBody src) i := by
      have h := bitAt_append_left (s := (src.drop tuBitmapHeaderBytes).take ((readLE 4 src 0 + 7) / 8)) (i := i)
        (by rw [htake]; exact hi) ((src.drop tuBitmapHeaderBytes).drop ((readLE 4 src 0 + 7) / 8))
      rw [List.take_append_drop] at h
      exact h.symm
    rw [hbody, bitAt_bitmapOf]
    by_cases hin : i < readLE 4 src 0
    · rw [Bool.eq_iff_iff, decide_eq_true_iff]
      exact decoded_ne_zero_iff hin hstored
    · rw [hvalid.padding i (Nat.not_lt.1 hin) hi, decide_eq_false_iff_not, Decidable.not_not,
        List.getD_eq_getElem?_getD, List.getElem?_eq_none (by rw [length_decoded]; exact Nat.not_lt.1 hin)]
      rfl

/-- The values are those behind the bitmap. -/
theorem rawBytes_decoded (hvalid : ValidBitmap src) (h : StoredNonzero src) :
    rawBytes (nonzeros (decoded src (readLE 4 src 0))) = src.drop (bitmapValueOff src) := by
  have hlength := hvalid.length
  have hrest : (src.drop (bitmapValueOff src)).length = 2 * readLE 4 src 4 := by
    rw [List.length_drop]
    omega
  have hrecord : ∀ j ∈ List.range (readLE 4 src 4),
      leBytes 2 (storedValue src j).toNat = ((src.drop (bitmapValueOff src)).drop (2 * j)).take 2 := by
    intro j hj
    rw [List.mem_range] at hj
    have hvalue : (storedValue src j).toNat = readLE 2 src (bitmapValueOff src + 2 * j) :=
      UInt16.toNat_ofNat_of_lt' (readLE_lt 2 _ _)
    rw [hvalue, leBytes_readLE (by omega), List.drop_drop]
  have hrank : ∀ j < bitRank src (readLE 4 src 0), storedValue src j ≠ 0 := by
    rw [hvalid.rank]
    exact h
  rw [nonzeros_decoded hrank, hvalid.rank]
  unfold rawBytes
  rw [List.flatMap_map, List.flatMap_congr hrecord, flatMap_records, ← hrest, List.take_length]

/-- With no stored zero the elements encode to the stream they were decoded from. -/
theorem bitmapStream_decoded (hvalid : ValidBitmap src) (h : StoredNonzero src) :
    bitmapStream (decoded src (readLE 4 src 0)) = src := by
  have hlength := hvalid.length
  have hstored : (nonzeros (decoded src (readLE 4 src 0))).length = readLE 4 src 4 := by
    rw [nonzeros_decoded (by rw [hvalid.rank]; exact h), hvalid.rank, List.length_map, List.length_range]
  unfold bitmapValueOff tuBitmapHeaderBytes at hlength
  have hcount : leBytes 4 (readLE 4 src 0) = src.take 4 := leBytes_readLE (by omega)
  have hnonzero : leBytes 4 (readLE 4 src 4) = (src.drop 4).take 4 := leBytes_readLE (by omega)
  unfold bitmapStream
  rw [length_decoded, hstored, bitmapOf_decoded hvalid h, rawBytes_decoded hvalid h, hcount, hnonzero, ← List.take_add]
  unfold bitmapValueOff tuBitmapHeaderBytes
  rw [← List.take_add, List.take_append_drop]

/-- A stream that encodes elements stores no zero. -/
theorem storedNonzero_of_bitmapStream {out : List UInt16} (hn : out.length < 2 ^ 32) (h : bitmapStream out = src) :
    StoredNonzero src := by
  subst h
  intro j hj
  rw [readLE_bitmapStream_four hn] at hj
  have hread : readLE 2 (bitmapStream out) (bitmapValueOff (bitmapStream out) + 2 * j) = (nonzeros out)[j].toNat := by
    refine readLE_block (nonzeros out)[j].toNat_lt
      (leBytes 4 out.length ++ leBytes 4 (nonzeros out).length ++ bitmapOf out ++ rawBytes ((nonzeros out).take j))
      (rawBytes ((nonzeros out).drop (j + 1))) ?_ ?_
    · have hsplit : rawBytes (nonzeros out) = rawBytes ((nonzeros out).take j) ++ leBytes 2 (nonzeros out)[j].toNat ++
          rawBytes ((nonzeros out).drop (j + 1)) := flatMap_split _ hj
      unfold bitmapStream
      rw [hsplit]
      simp only [List.append_assoc]
    · unfold bitmapValueOff
      rw [readLE_bitmapStream_zero hn]
      simp only [List.length_append, length_leBytes, length_bitmapOf, length_rawBytes, List.length_take_of_le hj.le]
      rfl
  have hne : (nonzeros out)[j] ≠ 0 := by
    have hmem := List.of_mem_filter (List.getElem_mem hj)
    simpa using hmem
  unfold storedValue
  rw [hread, UInt16.ofNat_toNat]
  exact hne

/-- **Which accepted streams are canonical.**  What was decoded encodes to the same bytes exactly if no stored value is
zero.  The size of a stream is a 32-bit number. -/
theorem tuCompressBitmap_decoded_iff {capacity capacity' : Nat} {out : List UInt16}
    (hsize : src.length ≤ uint32Max.toNat) (h : tuDecompressBitmap src capacity = some out)
    (hcap : src.length ≤ capacity') : tuCompressBitmap out capacity' = some src ↔ StoredNonzero src := by
  obtain ⟨hvalid, rfl⟩ := tuDecompressBitmap_eq_some h
  have hcount := hvalid.count_le
  have hlength := length_decoded src (readLE 4 src 0)
  rw [tuCompressBitmap_eq]
  constructor
  · intro hsame
    split at hsame
    · exact storedNonzero_of_bitmapStream (by omega) (Option.some.inj hsame)
    · cases hsame
  · intro hstored
    have hstream := bitmapStream_decoded hvalid hstored
    have hbytes := length_bitmapStream (decoded src (readLE 4 src 0))
    rw [hstream] at hbytes
    rw [if_pos ⟨by omega, by omega, by omega⟩, hstream]

end

/-- The stream of one element `1`. -/
theorem tuCompressBitmap_decoded_one :
    tuCompressBitmap [1] 11 = some [1, 0, 0, 0, 1, 0, 0, 0, 1, 1, 0] ↔
      StoredNonzero [1, 0, 0, 0, 1, 0, 0, 0, 1, 1, 0] :=
  tuCompressBitmap_decoded_iff (by decide) (by decide : tuDecompressBitmap [1, 0, 0, 0, 1, 0, 0, 0, 1, 1, 0] 1 = some [1])
    (by decide)

/-- A set bit with a stored zero is accepted, and encoded again without it. -/
theorem not_canonical_stored_zero :
    tuDecompressBitmap [1, 0, 0, 0, 1, 0, 0, 0, 1, 0, 0] 1 = some [0] ∧
      tuCompressBitmap [0] 11 = some [1, 0, 0, 0, 0, 0, 0, 0, 0] ∧
      tuCompressBitmap [0] 11 ≠ some [1, 0, 0, 0, 1, 0, 0, 0, 1, 0, 0] := by
  decide

end Tusim
