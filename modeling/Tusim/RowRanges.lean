import Tusim.Elementwise.ScalarOrder
import Tusim.Lib.Folds
import Tusim.RowEngines

/-!
# Where the row engines write

The engines test 32-bit sums that can wrap, so an accepted descriptor may lie outside (`rowEngines_stay_iff`).  An
accepted descriptor that lies inside changes nothing but its output range, unless a word overruns the buffer of a row.
-/

namespace Tusim.Rows

open Blocks Word Sram Attention PartialFold

variable {r r' r'' : TuCoreRegion}

/-! ### What is kept -/

/-- Nothing outside `[lo, hi)` has changed. -/
structure Kept (lo hi : Nat) (r r' : TuCoreRegion) : Prop where
  totalSize : r'.totalSize = r.totalSize
  bankWidth : r'.banks.bankWidth = r.banks.bankWidth
  idle : r'.idleData = r.idleData
  outside : ∀ j, j < lo ∨ hi ≤ j → sramDataPtr r' j = sramDataPtr r j

theorem Kept.of_sameBytes {lo hi : Nat} (h : SameBytes r r') : Kept lo hi r r' where
  totalSize := h.totalSize
  bankWidth := h.bankWidth
  idle := h.idle
  outside j _ := by rw [h.active]

theorem Kept.refl (lo hi : Nat) (r : TuCoreRegion) : Kept lo hi r r := .of_sameBytes (.refl r)

theorem Kept.trans {lo hi : Nat} (h : Kept lo hi r r') (h' : Kept lo hi r' r'') : Kept lo hi r r'' where
  totalSize := h'.totalSize.trans h.totalSize
  bankWidth := h'.bankWidth.trans h.bankWidth
  idle := h'.idle.trans h.idle
  outside j hj := (h'.outside j hj).trans (h.outside j hj)

theorem Kept.of_wrote {lo hi addr bytes : Nat} {src : Nat → UInt8} (h : Wrote addr src bytes r r') (hlo : lo ≤ addr)
    (hhi : addr + bytes ≤ hi) : Kept lo hi r r' where
  totalSize := h.totalSize
  bankWidth := h.bankWidth
  idle := h.idle
  outside j hj := by
    rw [h.active]
    exact memcpy_outside (by omega)

/-! ### Rows -/

/-- A word at `addr` for number `i` of a row stays in the buffer of the row, or is not in the region at all. -/
def WordOk (r : TuCoreRegion) (addr i cols : Nat) : Prop :=
  4 * i + r.banks.bankWidth.toNat ≤ 4 * cols ∨ r.totalSize.toNat < addr + r.banks.bankWidth.toNat

theorem not_wordOk_iff {addr i cols : Nat} :
    (boundsCheck r addr r.banks.bankWidth.toNat = true ∧ 4 * cols < 4 * i + r.banks.bankWidth.toNat) ↔
      ¬ WordOk r addr i cols := by
  rw [boundsCheck_iff]
  unfold WordOk
  omega

theorem wordOk_congr (hsize : r'.totalSize = r.totalSize) (hwidth : r'.banks.bankWidth = r.banks.bankWidth)
    {addr i cols : Nat} : WordOk r' addr i cols ↔ WordOk r addr i cols := by
  unfold WordOk
  rw [hsize, hwidth]

theorem loadStep_isSome_iff {off cols i : Nat} {s : TuCoreRegion × (Nat → UInt8)} :
    (loadStep off cols s i).isSome = true ↔ WordOk s.1 (u32 (off + 4 * i)) i cols := by
  unfold loadStep
  dsimp only
  split
  · rename_i hover
    simpa using not_wordOk_iff.1 hover
  · rename_i hok
    simpa using fun hcon => hok (not_wordOk_iff.2 hcon)

theorem loadStep_same {off cols i : Nat} {s s' : TuCoreRegion × (Nat → UInt8)} (h : loadStep off cols s i = some s') :
    SameBytes s.1 s'.1 := by
  unfold loadStep at h
  dsimp only at h
  split at h
  · exact absurd h (by simp)
  · rw [← Option.some.inj h]
    by_cases hfit : u32 (off + 4 * i) + s.1.banks.bankWidth.toNat ≤ s.1.totalSize.toNat
    · exact (tuSramRead_inside hfit _).1
    · rw [tuSramRead_outside (by omega)]
      exact .refl _

theorem sramLoadFloats_same {off cols : Nat} {garbage row : Nat → UInt8}
    (h : sramLoadFloats r off cols garbage = some (r', row)) : SameBytes r r' :=
  foldlM_keeps (P := fun s : TuCoreRegion × (Nat → UInt8) => SameBytes r s.1)
    (fun _ _ _ _ hs hstep => hs.trans (loadStep_same hstep)) (.refl r) h

theorem sramLoadFloats_isSome_iff {off cols : Nat} {garbage : Nat → UInt8} :
    (sramLoadFloats r off cols garbage).isSome = true ↔ ∀ i < cols, WordOk r (u32 (off + 4 * i)) i cols := by
  have hiff := foldlM_isSome_iff (P := fun s : TuCoreRegion × (Nat → UInt8) => SameBytes r s.1)
    (l := List.range cols) (f := loadStep off cols) (s := (r, garbage))
    (fun _ _ _ _ hs hstep => hs.trans (loadStep_same hstep))
    (fun _ _ _ hs => loadStep_isSome_iff.trans (wordOk_congr hs.totalSize hs.bankWidth)) (.refl r)
  unfold sramLoadFloats
  simpa using hiff

theorem storeStep_isSome_iff {off cols i : Nat} {row : Nat → UInt8} :
    (storeStep off cols row r i).isSome = true ↔ WordOk r (u32 (off + 4 * i)) i cols := by
  unfold storeStep
  dsimp only
  split
  · rename_i hover
    simpa using not_wordOk_iff.1 hover
  · rename_i hok
    simpa using fun hcon => hok (not_wordOk_iff.2 hcon)

/-- A number is stored inside the range of its row. -/
theorem storeStep_kept {off cols i lo hi : Nat} {row : Nat → UInt8} (h : storeStep off cols row r i = some r')
    (hi' : i < cols) (hlo : lo ≤ off) (hhi : off + 4 * cols ≤ hi) (hword : hi < 2 ^ 32) : Kept lo hi r r' := by
  have hsome : (storeStep off cols row r i).isSome = true := by rw [h]; rfl
  have hok := storeStep_isSome_iff.1 hsome
  unfold storeStep at h
  dsimp only at h
  split at h
  · exact absurd h (by simp)
  · rw [← Option.some.inj h]
    rw [u32_of_lt (by omega)] at hok ⊢
    by_cases hfit : off + 4 * i + r.banks.bankWidth.toNat ≤ r.totalSize.toNat
    · refine .of_wrote (tuSramWrite_inside hfit _) (by omega) ?_
      rcases hok with hok | hok <;> omega
    · rw [tuSramWrite_outside (by omega)]
      exact .refl _ _ _

theorem sramStoreFloats_kept {off cols lo hi : Nat} {row : Nat → UInt8} (h : sramStoreFloats r off cols row = some r')
    (hlo : lo ≤ off) (hhi : off + 4 * cols ≤ hi) (hword : hi < 2 ^ 32) : Kept lo hi r r' :=
  foldlM_keeps (P := Kept lo hi r)
    (fun _ _ hi' _ hs hstep => hs.trans (storeStep_kept hstep (List.mem_range.1 hi') hlo hhi hword)) (.refl lo hi r) h

/-- The regions have the same size and the same words. -/
def SameShape (r r' : TuCoreRegion) : Prop := r'.totalSize = r.totalSize ∧ r'.banks.bankWidth = r.banks.bankWidth

theorem storeStep_shape {off cols i : Nat} {row : Nat → UInt8} (h : storeStep off cols row r i = some r') :
    SameShape r r' := by
  unfold storeStep at h
  dsimp only at h
  split at h
  · exact absurd h (by simp)
  · rw [← Option.some.inj h]
    exact ⟨(tuSramWrite_frame _ _ _).2, (tuSramWrite_frame _ _ _).1⟩

theorem SameShape.trans (h : SameShape r r') (h' : SameShape r' r'') : SameShape r r'' :=
  ⟨h'.1.trans h.1, h'.2.trans h.2⟩

theorem sramStoreFloats_isSome_iff {off cols : Nat} {row : Nat → UInt8} :
    (sramStoreFloats r off cols row).isSome = true ↔ ∀ i < cols, WordOk r (u32 (off + 4 * i)) i cols := by
  have hiff := foldlM_isSome_iff (P := SameShape r) (l := List.range cols) (f := storeStep off cols row) (s := r)
    (fun _ _ _ _ hs hstep => hs.trans (storeStep_shape hstep))
    (fun _ _ _ hs => storeStep_isSome_iff.trans (wordOk_congr hs.1 hs.2)) ⟨rfl, rfl⟩
  unfold sramStoreFloats
  simpa using hiff

theorem sramStoreFloats_shape {off cols : Nat} {row : Nat → UInt8} (h : sramStoreFloats r off cols row = some r') :
    SameShape r r' :=
  foldlM_keeps (P := SameShape r) (fun _ _ _ _ hs hstep => hs.trans (storeStep_shape hstep)) ⟨rfl, rfl⟩ h

section
variable {F : Type} {codec : FloatCodec F} {f : List F → List F} {garbage : Nat → UInt8} {inOffset outOffset cols : Nat}

theorem throughBuffer_cases (h : throughBuffer codec f garbage r inOffset outOffset cols = some r') :
    r' = r ∨ ∃ loaded row, SameBytes r loaded ∧ sramStoreFloats loaded outOffset cols row = some r' := by
  unfold throughBuffer at h
  split at h
  · exact .inl (Option.some.inj h).symm
  · obtain ⟨⟨loaded, row⟩, hload, hstore⟩ := Option.bind_eq_some_iff.1 h
    exact .inr ⟨loaded, _, sramLoadFloats_same hload, hstore⟩

theorem throughBuffer_shape (h : throughBuffer codec f garbage r inOffset outOffset cols = some r') : SameShape r r' := by
  rcases throughBuffer_cases h with rfl | ⟨loaded, row, hsame, hstore⟩
  · exact ⟨rfl, rfl⟩
  · exact SameShape.trans ⟨hsame.totalSize, hsame.bankWidth⟩ (sramStoreFloats_shape hstore)

/-- A row is written inside its range. -/
theorem throughBuffer_kept {lo hi : Nat} (h : throughBuffer codec f garbage r inOffset outOffset cols = some r')
    (hlo : lo ≤ outOffset) (hhi : outOffset + 4 * cols ≤ hi) (hword : hi < 2 ^ 32) : Kept lo hi r r' := by
  rcases throughBuffer_cases h with rfl | ⟨loaded, row, hsame, hstore⟩
  · exact .refl _ _ _
  · exact (Kept.of_sameBytes hsame).trans (sramStoreFloats_kept hstore hlo hhi hword)

/-- The words of a row stay in its buffer. -/
def RowOk (r : TuCoreRegion) (inOffset outOffset cols : Nat) : Prop :=
  ∀ i < cols, WordOk r (u32 (inOffset + 4 * i)) i cols ∧ WordOk r (u32 (outOffset + 4 * i)) i cols

theorem throughBuffer_isSome_iff :
    (throughBuffer codec f garbage r inOffset outOffset cols).isSome = true ↔ RowOk r inOffset outOffset cols := by
  unfold throughBuffer RowOk
  split
  · rename_i hzero
    subst hzero
    simp
  · have hload : (sramLoadFloats r inOffset cols garbage).isSome = true ↔
        ∀ i < cols, WordOk r (u32 (inOffset + 4 * i)) i cols := sramLoadFloats_isSome_iff
    cases hloaded : sramLoadFloats r inOffset cols garbage with
    | none =>
      rw [hloaded] at hload
      have hnot : ¬ ∀ i < cols, WordOk r (u32 (inOffset + 4 * i)) i cols := fun hall => absurd (hload.2 hall) (by simp)
      exact iff_of_false (by simp) fun hrow => hnot fun i hi => (hrow i hi).1
    | some loaded =>
      rw [hloaded] at hload
      have hsame := sramLoadFloats_same hloaded
      rw [Option.bind_some]
      refine sramStoreFloats_isSome_iff.trans ?_
      constructor
      · intro hstore i hi
        exact ⟨hload.1 rfl i hi, (wordOk_congr hsame.totalSize hsame.bankWidth).1 (hstore i hi)⟩
      · intro hrow i hi
        exact (wordOk_congr hsame.totalSize hsame.bankWidth).2 (hrow i hi).2

/-! ### All rows -/

variable {fs : Nat → List F → List F} {garbages : Nat → Nat → UInt8} {rows axis count : Nat}

/-- The rows of an engine, each at its place. -/
def rowStep (codec : FloatCodec F) (fs : Nat → List F → List F) (garbages : Nat → Nat → UInt8)
    (inOffset outOffset axis : Nat) (r : TuCoreRegion) (row : Nat) : Option TuCoreRegion :=
  throughBuffer codec (fs row) (garbages row) r (u32 (inOffset + 4 * (row * axis))) (u32 (outOffset + 4 * (row * axis)))
    axis

/-- No word of any row overruns the buffer of the row. -/
def NoOverrun (r : TuCoreRegion) (inOffset outOffset axis rows : Nat) : Prop :=
  ∀ row < rows, ∀ i < axis,
    WordOk r (inOffset + 4 * (row * axis + i)) i axis ∧ WordOk r (outOffset + 4 * (row * axis + i)) i axis

/-- The place of a number, if the range does not wrap. -/
theorem place_eq {off row i : Nat} (hrows : rows * axis ≤ count) (hword : off + 4 * count < 2 ^ 32) (hrow : row < rows)
    (hi : i < axis) : u32 (u32 (off + 4 * (row * axis)) + 4 * i) = off + 4 * (row * axis + i) := by
  have hle : (row + 1) * axis ≤ rows * axis := Nat.mul_le_mul_right _ hrow
  rw [Nat.succ_mul] at hle
  rw [u32_of_lt (x := off + _) (by omega), u32_of_lt (by omega)]
  omega

theorem rows_kept (hrows : rows * axis ≤ count) (hword : outOffset + 4 * count < 2 ^ 32)
    (h : (List.range rows).foldlM (rowStep codec fs garbages inOffset outOffset axis) r = some r') :
    Kept outOffset (outOffset + 4 * count) r r' := by
  refine foldlM_keeps (P := Kept outOffset (outOffset + 4 * count) r) (fun s row hrow s' hs hstep => hs.trans ?_)
    (.refl _ _ r) h
  rw [List.mem_range] at hrow
  have hle : (row + 1) * axis ≤ rows * axis := Nat.mul_le_mul_right _ hrow
  rw [Nat.succ_mul] at hle
  unfold rowStep at hstep
  rw [u32_of_lt (x := outOffset + _) (by omega)] at hstep
  exact throughBuffer_kept hstep (by omega) (by omega) hword

theorem rows_isSome_iff (hrows : rows * axis ≤ count) (hin : inOffset + 4 * count < 2 ^ 32)
    (hout : outOffset + 4 * count < 2 ^ 32) :
    ((List.range rows).foldlM (rowStep codec fs garbages inOffset outOffset axis) r).isSome = true ↔
      NoOverrun r inOffset outOffset axis rows := by
  have hiff := foldlM_isSome_iff (P := SameShape r) (l := List.range rows)
    (f := rowStep codec fs garbages inOffset outOffset axis) (s := r)
    (fun _ _ _ _ hs hstep => hs.trans (throughBuffer_shape hstep))
    (fun s row _ hs => throughBuffer_isSome_iff.trans
      (forall₂_congr fun i _ => and_congr (wordOk_congr hs.1 hs.2) (wordOk_congr hs.1 hs.2))) ⟨rfl, rfl⟩
  rw [hiff]
  unfold NoOverrun
  constructor
  · intro hall row hrow i hi
    have hword := hall row (List.mem_range.2 hrow) i hi
    rwa [place_eq hrows hin hrow hi, place_eq hrows hout hrow hi] at hword
  · intro hall row hrow i hi
    rw [List.mem_range] at hrow
    rw [place_eq hrows hin hrow hi, place_eq hrows hout hrow hi]
    exact hall row hrow i hi

end

/-! ### The laws of the engines -/

/-- The descriptor is refused, or both ranges lie inside the region and only the output range changes. -/
def StaysInside (r : TuCoreRegion) (outcome : RowOutcome) (inOffset outOffset count : Nat) : Prop :=
  outcome = .refused ∨ ∃ r', outcome = .done r' ∧ inOffset + 4 * count ≤ r.totalSize.toNat ∧
    outOffset + 4 * count ≤ r.totalSize.toNat ∧ Kept outOffset (outOffset + 4 * count) r r'

theorem numRows_mul_le {axisDim elemCount : UInt32} (hzero : elemCount ≠ 0) :
    axisDim ≤ elemCount → numRows axisDim elemCount * (axisLength axisDim elemCount).toNat ≤ elemCount.toNat := by
  intro hle
  have hne : elemCount.toNat ≠ 0 := fun h => hzero (UInt32.toNat.inj h)
  have haxis : 0 < (axisLength axisDim elemCount).toNat ∧ (axisLength axisDim elemCount).toNat ≤ elemCount.toNat := by
    unfold axisLength
    split
    · omega
    · rename_i haxis
      exact ⟨Nat.pos_of_ne_zero fun h => haxis (UInt32.toNat.inj h), UInt32.le_iff_toNat_le.1 hle⟩
  have hrows : (elemCount / axisLength axisDim elemCount).toNat =
      elemCount.toNat / (axisLength axisDim elemCount).toNat := UInt32.toNat_div _ _
  unfold numRows
  dsimp only
  split
  · omega
  · rw [hrows]
    exact Nat.div_mul_le_self _ _

section
variable {F : Type} {codec : FloatCodec F} {garbages : Nat → Nat → UInt8}

/-- The rows of an accepted descriptor, after reads that left the bytes as they were. -/
theorem rows_stay_iff {fs : Nat → List F → List F} {inOffset outOffset axis rows count : Nat} {loaded : TuCoreRegion}
    (hsame : SameBytes r loaded) (hrows : rows * axis ≤ count) :
    StaysInside r
        (.ofOption ((List.range rows).foldlM (rowStep codec fs garbages inOffset outOffset axis) loaded)) inOffset
        outOffset count ↔
      inOffset + 4 * count ≤ r.totalSize.toNat ∧ outOffset + 4 * count ≤ r.totalSize.toNat ∧
        NoOverrun r inOffset outOffset axis rows := by
  have htotal := r.totalSize.toNat_lt
  have hcongr : NoOverrun loaded inOffset outOffset axis rows ↔ NoOverrun r inOffset outOffset axis rows :=
    forall₂_congr fun _ _ => forall₂_congr fun _ _ =>
      and_congr (wordOk_congr hsame.totalSize hsame.bankWidth) (wordOk_congr hsame.totalSize hsame.bankWidth)
  constructor
  · rintro (hrefused | ⟨r', hdone, hin, hout, -⟩)
    · generalize (List.range rows).foldlM (m := Option) _ loaded = result at hrefused
      cases result <;> exact absurd hrefused (by simp [RowOutcome.ofOption])
    · refine ⟨hin, hout, ?_⟩
      have hsome : ((List.range rows).foldlM (rowStep codec fs garbages inOffset outOffset axis) loaded).isSome = true ↔
          NoOverrun loaded inOffset outOffset axis rows := rows_isSome_iff hrows (by omega) (by omega)
      rw [← hcongr, ← hsome]
      generalize (List.range rows).foldlM (m := Option) _ loaded = result at hdone
      cases result with
      | none => exact absurd hdone (by simp [RowOutcome.ofOption])
      | some r'' => rfl
  · rintro ⟨hin, hout, hover⟩
    have hsome : ((List.range rows).foldlM (rowStep codec fs garbages inOffset outOffset axis) loaded).isSome = true ↔
        NoOverrun loaded inOffset outOffset axis rows := rows_isSome_iff hrows (by omega) (by omega)
    rw [← hcongr, ← hsome] at hover
    obtain ⟨r', hrun⟩ := Option.isSome_iff_exists.1 hover
    have hkept := rows_kept hrows (by omega) hrun
    exact .inr ⟨r', by rw [hrun]; rfl, hin, hout, (Kept.of_sameBytes hsame).trans hkept⟩

/-- The words of a scale or bias stay in its buffer. -/
def ParamOk (r : TuCoreRegion) (param : ParamSram) (offset : UInt32) (axis : Nat) : Prop :=
  match param with
  | .none => True
  | .data => ∀ i < axis, WordOk r (u32 (offset.toNat + 4 * i)) i axis
  | .other p => ∀ i < axis, WordOk p (u32 (offset.toNat + 4 * i)) i axis

theorem loadParam_isSome_iff {garbage : Nat → UInt8} {param : ParamSram} {offset : UInt32} {axis : Nat} :
    (loadParam codec garbage r param offset axis).isSome = true ↔ ParamOk r param offset axis := by
  unfold loadParam ParamOk
  cases param with
  | none => simp
  | data =>
    dsimp only
    rw [Option.isSome_map]
    exact sramLoadFloats_isSome_iff
  | other p =>
    dsimp only
    rw [Option.isSome_map]
    exact sramLoadFloats_isSome_iff

theorem paramOk_congr {loaded : TuCoreRegion} (h : SameBytes r loaded) {param : ParamSram} {offset : UInt32} {axis : Nat} :
    ParamOk loaded param offset axis ↔ ParamOk r param offset axis := by
  unfold ParamOk
  cases param with
  | none => exact Iff.rfl
  | data => exact forall₂_congr fun _ _ => wordOk_congr h.totalSize h.bankWidth
  | other p => exact Iff.rfl

theorem loadParam_same {garbage : Nat → UInt8} {param : ParamSram} {offset : UInt32} {axis : Nat}
    {loaded : TuCoreRegion} {values : Option (Nat → F)}
    (h : loadParam codec garbage r param offset axis = some (loaded, values)) : SameBytes r loaded := by
  unfold loadParam at h
  cases param with
  | none =>
    obtain ⟨rfl, -⟩ := Prod.mk.inj (Option.some.inj h)
    exact .refl _
  | data =>
    obtain ⟨⟨r', row⟩, hload, hpair⟩ := Option.map_eq_some_iff.1 h
    obtain ⟨rfl, -⟩ := Prod.mk.inj hpair
    exact sramLoadFloats_same hload
  | other p =>
    obtain ⟨⟨r', row⟩, -, hpair⟩ := Option.map_eq_some_iff.1 h
    obtain ⟨rfl, -⟩ := Prod.mk.inj hpair
    exact .refl _

end

/-- The offset that an engine writes to. -/
def outputOffset (inPlace : Bool) (dataOffset outOffset : UInt32) : Nat :=
  if inPlace then dataOffset.toNat else outOffset.toNat

section
variable {F : Type} (fp : FloatOps F) (codec : FloatCodec F) (garbages : Nat → Nat → UInt8)

theorem softmax_stays_iff (r : TuCoreRegion) (desc : Rows.TuSoftmaxDesc F) :
    let out := outputOffset desc.inPlace desc.dataOffset desc.outOffset
    StaysInside r (Rows.tuSoftmaxExecute fp codec garbages r desc) desc.dataOffset.toNat out desc.elemCount.toNat ↔
      Rows.tuSoftmaxValidateDesc r desc = false ∨
        desc.dataOffset.toNat + 4 * desc.elemCount.toNat ≤ r.totalSize.toNat ∧
          out + 4 * desc.elemCount.toNat ≤ r.totalSize.toNat ∧
          NoOverrun r desc.dataOffset.toNat out (axisLength desc.axisDim desc.elemCount).toNat
            (numRows desc.axisDim desc.elemCount) := by
  intro out
  unfold Rows.tuSoftmaxExecute
  cases hvalid : Rows.tuSoftmaxValidateDesc r desc with
  | false => exact iff_of_true (.inl rfl) (.inl rfl)
  | true =>
    unfold Rows.tuSoftmaxValidateDesc at hvalid
    simp only [Bool.and_eq_true, bne_iff_ne, Bool.not_eq_true', decide_eq_false_iff_not] at hvalid
    obtain ⟨⟨⟨⟨⟨hzero, -⟩, -⟩, haxis⟩, -⟩, -⟩ := hvalid
    have hrows := numRows_mul_le hzero (UInt32.not_lt.1 haxis)
    simp only [Bool.not_true, Bool.false_eq_true, if_false, reduceCtorEq, false_or]
    exact rows_stay_iff (.refl r) hrows

theorem norm_stays_iff (r : TuCoreRegion) (desc : TuNormDesc F) :
    let out := outputOffset desc.inPlace desc.dataOffset desc.outOffset
    let axis := (axisLength desc.normAxisDim desc.elemCount).toNat
    StaysInside r (tuNormExecute fp codec garbages r desc) desc.dataOffset.toNat out desc.elemCount.toNat ↔
      tuNormValidateDesc r desc = false ∨
        (desc.dataOffset.toNat + 4 * desc.elemCount.toNat ≤ r.totalSize.toNat ∧
          out + 4 * desc.elemCount.toNat ≤ r.totalSize.toNat ∧
          NoOverrun r desc.dataOffset.toNat out axis (numRows desc.normAxisDim desc.elemCount)) ∧
        ParamOk r desc.gammaSram desc.gammaOffset axis ∧
        ParamOk r (if desc.mode = some .layerNorm then desc.betaSram else .none) desc.betaOffset axis := by
  intro out axis
  unfold tuNormExecute
  cases hvalid : tuNormValidateDesc r desc with
  | false => exact iff_of_true (.inl rfl) (.inl rfl)
  | true =>
    unfold tuNormValidateDesc at hvalid
    simp only [Bool.and_eq_true, bne_iff_ne, Bool.not_eq_true', decide_eq_false_iff_not] at hvalid
    obtain ⟨⟨⟨hzero, -⟩, haxis⟩, -⟩ := hvalid
    have hrows := numRows_mul_le hzero (UInt32.not_lt.1 haxis)
    have hcols : ∀ row : Nat, ¬ (row = numRows desc.normAxisDim desc.elemCount - 1 ∧
        u32 ((axisLength desc.normAxisDim desc.elemCount).toNat * numRows desc.normAxisDim desc.elemCount) >
          desc.elemCount.toNat) := by
      rintro row ⟨-, hgt⟩
      rw [Nat.mul_comm] at hgt
      have hle := u32_le (numRows desc.normAxisDim desc.elemCount * (axisLength desc.normAxisDim desc.elemCount).toNat)
      omega
    have hno : ¬ StaysInside r .overrun desc.dataOffset.toNat out desc.elemCount.toNat := by
      rintro (h | ⟨_, h, -⟩) <;> exact absurd h (by simp)
    simp only [Bool.not_true, Bool.false_eq_true, if_false, reduceCtorEq, false_or]
    have hgammaOk : (loadParam codec (garbages (numRows desc.normAxisDim desc.elemCount)) r desc.gammaSram
        desc.gammaOffset axis).isSome = true ↔ ParamOk r desc.gammaSram desc.gammaOffset axis := loadParam_isSome_iff
    cases hgamma : loadParam codec (garbages (numRows desc.normAxisDim desc.elemCount)) r desc.gammaSram
        desc.gammaOffset axis with
    | none =>
      rw [hgamma] at hgammaOk
      exact iff_of_false hno fun h => absurd (hgammaOk.2 h.2.1) (by simp)
    | some loaded =>
      obtain ⟨r₁, gamma⟩ := loaded
      rw [hgamma] at hgammaOk
      have hsame := loadParam_same hgamma
      rw [Option.bind_some]
      dsimp only
      generalize (if desc.mode = some .layerNorm then desc.betaSram else .none) = beta
      have hbetaOk : (loadParam codec (garbages (numRows desc.normAxisDim desc.elemCount + 1)) r₁ beta desc.betaOffset
          axis).isSome = true ↔ ParamOk r beta desc.betaOffset axis := loadParam_isSome_iff.trans (paramOk_congr hsame)
      cases hbeta : loadParam codec (garbages (numRows desc.normAxisDim desc.elemCount + 1)) r₁ beta desc.betaOffset
          axis with
      | none =>
        rw [hbeta] at hbetaOk
        exact iff_of_false hno fun h => absurd (hbetaOk.2 h.2.2) (by simp)
      | some loaded =>
        obtain ⟨r₂, betaValues⟩ := loaded
        rw [hbeta] at hbetaOk
        rw [Option.bind_some]
        dsimp only
        simp only [hcols, if_false, hgammaOk.1 rfl, hbetaOk.1 rfl, and_true]
        exact rows_stay_iff (hsame.trans (loadParam_same hbeta)) hrows

end

/-! ### The elementwise pipeline -/

section
variable {α : Type} (fp : EwFloat α)

/-- The chain is refused, or both ranges lie inside the region and only the output range changes. -/
def EwStaysInside (sram : TuSramRegion) (desc : TuEwDesc α) : Prop :=
  let sram' := (tuEwExecute fp sram desc).1
  let out := outputOffset desc.inPlace desc.sramOffset desc.outOffset
  (tuEwValidateDesc sram desc = false ∧ sram' = sram) ∨
    (desc.sramOffset.toNat + 4 * desc.elemCount.toNat ≤ sram.totalSize.toNat ∧
      out + 4 * desc.elemCount.toNat ≤ sram.totalSize.toNat ∧
      sram'.totalSize = sram.totalSize ∧ sram'.idleData = sram.idleData ∧
      ∀ j, j < out ∨ out + 4 * desc.elemCount.toNat ≤ j → tuSramRawPtr sram' j = tuSramRawPtr sram j)

/-- The accounting changes meters only. -/
theorem ewMeterWord_same (inOffset outOffset : Nat) (s : TuSramRegion × Nat) (i : Nat) :
    (ewMeterWord inOffset outOffset s i).1.data = s.1.data ∧ (ewMeterWord inOffset outOffset s i).1.db = s.1.db ∧
      (ewMeterWord inOffset outOffset s i).1.totalSize = s.1.totalSize := by
  unfold ewMeterWord
  dsimp only
  split <;> split <;> exact ⟨rfl, rfl, rfl⟩

theorem ewMeter_same (inOffset outOffset : Nat) (l : List Nat) (s : TuSramRegion × Nat) :
    (l.foldl (ewMeterWord inOffset outOffset) s).1.data = s.1.data ∧
      (l.foldl (ewMeterWord inOffset outOffset) s).1.db = s.1.db ∧
      (l.foldl (ewMeterWord inOffset outOffset) s).1.totalSize = s.1.totalSize := by
  induction l generalizing s with
  | nil => exact ⟨rfl, rfl, rfl⟩
  | cons i l ih =>
    obtain ⟨hdata, hdb, hsize⟩ := ewMeterWord_same inOffset outOffset s i
    obtain ⟨hdata', hdb', hsize'⟩ := ih (ewMeterWord inOffset outOffset s i)
    exact ⟨hdata'.trans hdata, hdb'.trans hdb, hsize'.trans hsize⟩

theorem tuEwExecute_accepted {sram : TuSramRegion} {desc : TuEwDesc α} (hvalid : tuEwValidateDesc sram desc = true) :
    let written := sram.setRaw ((List.range desc.elemCount.toNat).foldl
      (ewElement fp (ewChain fp desc.ops) desc.sramOffset.toNat
        (outputOffset desc.inPlace desc.sramOffset desc.outOffset)) (tuSramRawPtr sram))
    let sram' := (tuEwExecute fp sram desc).1
    sram'.data = written.data ∧ sram'.db = written.db ∧ sram'.totalSize = written.totalSize := by
  intro written sram'
  unfold sram' tuEwExecute written outputOffset
  rw [hvalid]
  simp only [Bool.not_true, Bool.false_eq_true, if_false]
  generalize (if desc.inPlace = true then desc.sramOffset.toNat else desc.outOffset.toNat) = out
  generalize sram.setRaw _ = written
  have hadvance : (tuSramAdvanceCycle written desc.elemCount.toNat).data = written.data ∧
      (tuSramAdvanceCycle written desc.elemCount.toNat).db = written.db := by
    unfold tuSramAdvanceCycle tuSramRefillBw
    split <;> exact ⟨rfl, rfl⟩
  split
  · obtain ⟨hdata, hdb, hsize⟩ := ewMeter_same desc.sramOffset.toNat out _
      (tuSramAdvanceCycle written desc.elemCount.toNat, 0)
    exact ⟨hdata.trans hadvance.1, hdb.trans hadvance.2, hsize.trans (tuSramAdvanceCycle_totalSize _ _)⟩
  · exact ⟨rfl, rfl, rfl⟩

theorem buffers_congr {sram sram' : TuSramRegion} (hdata : sram'.data = sram.data) (hdb : sram'.db = sram.db) :
    tuSramRawPtr sram' = tuSramRawPtr sram ∧ sram'.idleData = sram.idleData := by
  unfold tuSramRawPtr TuSramRegion.idleData
  rw [hdata, hdb]
  exact ⟨rfl, rfl⟩

theorem ewElement_outside {f : α → α} {inOffset outOffset n j : Nat} {data : Nat → UInt8}
    (hj : j < outOffset ∨ outOffset + 4 * n ≤ j) :
    (List.range n).foldl (ewElement fp f inOffset outOffset) data j = data j := by
  induction n with
  | zero => rfl
  | succ n ih =>
    rw [List.range_succ, List.foldl_append, List.foldl_cons, List.foldl_nil]
    unfold ewElement at ih ⊢
    rw [memcpy_outside (by omega)]
    exact ih (by omega)

theorem ew_stays_iff (sram : TuSramRegion) (desc : TuEwDesc α) :
    EwStaysInside fp sram desc ↔
      tuEwValidateDesc sram desc = false ∨
        desc.sramOffset.toNat + 4 * desc.elemCount.toNat ≤ sram.totalSize.toNat ∧
          outputOffset desc.inPlace desc.sramOffset desc.outOffset + 4 * desc.elemCount.toNat ≤ sram.totalSize.toNat := by
  unfold EwStaysInside
  dsimp only
  cases hvalid : tuEwValidateDesc sram desc with
  | false =>
    refine iff_of_true (.inl ⟨rfl, ?_⟩) (.inl rfl)
    unfold tuEwExecute
    rw [hvalid]
    rfl
  | true =>
    simp only [Bool.true_eq_false, false_and, false_or]
    constructor
    · rintro ⟨hin, hout, -⟩
      exact ⟨hin, hout⟩
    · rintro ⟨hin, hout⟩
      obtain ⟨hdata, hdb, hsize⟩ := tuEwExecute_accepted fp hvalid
      obtain ⟨hraw, hidle⟩ := buffers_congr hdata hdb
      refine ⟨hin, hout, hsize.trans (TuSramRegion.setRaw_totalSize _ _), hidle.trans (TuSramRegion.idleData_setRaw _ _),
        fun j hj => ?_⟩
      rw [hraw, tuSramRawPtr_setRaw]
      exact ewElement_outside fp hj

end

/-- The three engines stay inside their ranges exactly if they refuse the descriptor, or the ranges do not wrap past the
end of the region and no word overruns the buffer of a row. -/
theorem rowEngines_stay_iff {F α : Type} (fp : FloatOps F) (codec : FloatCodec F) (ew : EwFloat α)
    (garbages : Nat → Nat → UInt8) (r : TuCoreRegion) :
    (∀ desc : TuEwDesc α, EwStaysInside ew r.toTuSramRegion desc ↔
      tuEwValidateDesc r.toTuSramRegion desc = false ∨
        desc.sramOffset.toNat + 4 * desc.elemCount.toNat ≤ r.totalSize.toNat ∧
          outputOffset desc.inPlace desc.sramOffset desc.outOffset + 4 * desc.elemCount.toNat ≤ r.totalSize.toNat) ∧
    (∀ desc : Rows.TuSoftmaxDesc F,
      let out := outputOffset desc.inPlace desc.dataOffset desc.outOffset
      StaysInside r (Rows.tuSoftmaxExecute fp codec garbages r desc) desc.dataOffset.toNat out desc.elemCount.toNat ↔
        Rows.tuSoftmaxValidateDesc r desc = false ∨
          desc.dataOffset.toNat + 4 * desc.elemCount.toNat ≤ r.totalSize.toNat ∧
            out + 4 * desc.elemCount.toNat ≤ r.totalSize.toNat ∧
            NoOverrun r desc.dataOffset.toNat out (axisLength desc.axisDim desc.elemCount).toNat
              (numRows desc.axisDim desc.elemCount)) ∧
    (∀ desc : TuNormDesc F,
      let out := outputOffset desc.inPlace desc.dataOffset desc.outOffset
      let axis := (axisLength desc.normAxisDim desc.elemCount).toNat
      StaysInside r (tuNormExecute fp codec garbages r desc) desc.dataOffset.toNat out desc.elemCount.toNat ↔
        tuNormValidateDesc r desc = false ∨
          (desc.dataOffset.toNat + 4 * desc.elemCount.toNat ≤ r.totalSize.toNat ∧
            out + 4 * desc.elemCount.toNat ≤ r.totalSize.toNat ∧
            NoOverrun r desc.dataOffset.toNat out axis (numRows desc.normAxisDim desc.elemCount)) ∧
          ParamOk r desc.gammaSram desc.gammaOffset axis ∧
          ParamOk r (if desc.mode = some .layerNorm then desc.betaSram else .none) desc.betaOffset axis) :=
  ⟨fun desc => ew_stays_iff ew r.toTuSramRegion desc, fun desc => softmax_stays_iff fp codec garbages r desc,
    fun desc => norm_stays_iff fp codec garbages r desc⟩

/-- Two numbers four bytes below `2^32` are accepted in a region of eight bytes: offset and size add up to four. -/
theorem not_ewStaysInside :
    ¬ EwStaysInside byteIntegers ((Memory.zero 8).sram 0)
      { ops := [⟨TuEw.nop, 0, false⟩], sramOffset := 0xFFFFFFFC, elemCount := 2, inPlace := true } := by
  rintro (⟨hrefused, -⟩ | ⟨hin, -⟩)
  · exact absurd hrefused (by decide)
  · exact absurd hin (by decide)

end Tusim.Rows
