import Tusim.RowRanges

/-!
# Fused chains

`tu_ew_apply_fused` passes every element once through the whole chain; `tu_ew_apply_unary` and `tu_ew_apply_binary_scalar`
pass all elements through one operation.  If a number that is written is read back (`EwFloat.Keeps`), a chain leaves the
bytes that one pass for each of its operations leaves (`tuEwApplyFused_passes`).
-/

namespace Tusim

open Word Blocks Rows

variable {α : Type} (fp : EwFloat α)

/-- The descriptor of a single operation; its scalar is zero unless it is given. -/
def tuEwApplyUnary (sram : TuSramRegion) (offset elemCount : UInt32) (op : UInt8) : TuSramRegion × Nat :=
  tuEwExecute fp sram
    { ops := [{ opcode := op, scalar := fp.zero, hasScalar := false }], sramOffset := offset, elemCount := elemCount, inPlace := true }

def tuEwApplyBinaryScalar (sram : TuSramRegion) (offset elemCount : UInt32) (op : UInt8) (scalar : α) : TuSramRegion × Nat :=
  tuEwExecute fp sram
    { ops := [{ opcode := op, scalar := scalar, hasScalar := true }], sramOffset := offset, elemCount := elemCount, inPlace := true }

/-- One pass over the elements for one operation of a chain. -/
def ewPass (offset elemCount : UInt32) (sram : TuSramRegion) (op : TuEwOp α) : TuSramRegion :=
  if op.hasScalar then (tuEwApplyBinaryScalar fp sram offset elemCount op.opcode op.scalar).1
  else (tuEwApplyUnary fp sram offset elemCount op.opcode).1

/-- A number in memory is read back. -/
def EwFloat.Keeps : Prop := ∀ (mem : Nat → UInt8) (x : α), (∀ k < 4, mem k = fp.bytes x k) → fp.read mem = x

/-! ### The elements of a buffer -/

/-- The bytes after `f` on each of `n` elements from `offset` on. -/
def ewMapped (f : α → α) (offset n : Nat) (data : Nat → UInt8) (j : Nat) : UInt8 :=
  if offset ≤ j ∧ j < offset + 4 * n then
    fp.bytes (f (fp.read fun k => data (offset + 4 * ((j - offset) / 4) + k))) ((j - offset) % 4)
  else data j

theorem ewMapped_outside (f : α → α) {offset n j : Nat} (data : Nat → UInt8) (hj : j < offset ∨ offset + 4 * n ≤ j) :
    ewMapped fp f offset n data j = data j := if_neg (by omega)

theorem ewMapped_element (f : α → α) {offset n i k : Nat} (data : Nat → UInt8) (hi : i < n) (hk : k < 4) :
    ewMapped fp f offset n data (offset + 4 * i + k) = fp.bytes (f (fp.read fun l => data (offset + 4 * i + l))) k := by
  have hdiv : (offset + 4 * i + k - offset) / 4 = i := by omega
  have hmod : (offset + 4 * i + k - offset) % 4 = k := by omega
  unfold ewMapped
  rw [if_pos (by omega), hdiv, hmod]

/-- The loop over the elements, in place. -/
theorem foldl_ewElement (f : α → α) (offset n : Nat) (data : Nat → UInt8) :
    (List.range n).foldl (ewElement fp f offset offset) data = ewMapped fp f offset n data := by
  induction n with
  | zero =>
    funext j
    exact (ewMapped_outside fp f data (by omega)).symm
  | succ n ih =>
    rw [List.range_succ, List.foldl_append, ih, List.foldl_cons, List.foldl_nil]
    funext j
    -- the element that is read has not been written yet
    have hread : (fun k => ewMapped fp f offset n data (offset + 4 * n + k)) = fun k => data (offset + 4 * n + k) := by
      funext k
      exact ewMapped_outside fp f data (by omega)
    unfold ewElement
    rw [hread]
    by_cases hj : offset + 4 * n ≤ j ∧ j < offset + 4 * n + 4
    · obtain ⟨k, rfl⟩ : ∃ k, j = offset + 4 * n + k := ⟨j - (offset + 4 * n), by omega⟩
      rw [memcpy_inside (by omega), ewMapped_element fp f data (Nat.lt_succ_self n) (by omega)]
    · rw [memcpy_outside (by omega)]
      by_cases hin : offset ≤ j ∧ j < offset + 4 * n
      · obtain ⟨i, k, hk, rfl⟩ : ∃ i k, k < 4 ∧ j = offset + 4 * i + k :=
          ⟨(j - offset) / 4, (j - offset) % 4, Nat.mod_lt _ (by decide), by omega⟩
        rw [ewMapped_element fp f data (by omega) hk, ewMapped_element fp f data (by omega) hk]
      · rw [ewMapped_outside fp f data (by omega), ewMapped_outside fp f data (by omega)]

variable {fp}

/-- Two passes over the elements are one. -/
theorem ewMapped_comp (hfp : fp.Keeps) (f g : α → α) (offset n : Nat) (data : Nat → UInt8) :
    ewMapped fp g offset n (ewMapped fp f offset n data) = ewMapped fp (fun x => g (f x)) offset n data := by
  funext j
  by_cases hin : offset ≤ j ∧ j < offset + 4 * n
  · obtain ⟨i, k, hk, rfl⟩ : ∃ i k, k < 4 ∧ j = offset + 4 * i + k :=
      ⟨(j - offset) / 4, (j - offset) % 4, Nat.mod_lt _ (by decide), by omega⟩
    have hi : i < n := by omega
    rw [ewMapped_element fp g _ hi hk, ewMapped_element fp _ data hi hk,
      hfp _ (f (fp.read fun l => data (offset + 4 * i + l))) fun l hl => ewMapped_element fp f data hi hl]
  · rw [ewMapped_outside fp g _ (by omega), ewMapped_outside fp f data (by omega), ewMapped_outside fp _ data (by omega)]

/-! ### Passes -/

variable (fp) in
/-- What a chain leaves of a region; both buffers and the size tell whether it is accepted. -/
theorem tuEwExecute_inPlace (sram : TuSramRegion) (ops : List (TuEwOp α)) (offset elemCount : UInt32) :
    let desc : TuEwDesc α := { ops := ops, sramOffset := offset, elemCount := elemCount, inPlace := true }
    let sram' := (tuEwExecute fp sram desc).1
    sram'.totalSize = sram.totalSize ∧ sram'.idleData = sram.idleData ∧
      tuSramRawPtr sram' =
        if tuEwValidateDesc sram desc then ewMapped fp (ewChain fp ops) offset.toNat elemCount.toNat (tuSramRawPtr sram)
        else tuSramRawPtr sram := by
  intro desc sram'
  by_cases hvalid : tuEwValidateDesc sram desc = true
  · obtain ⟨hdata, hdb, hsize⟩ := tuEwExecute_accepted fp hvalid
    obtain ⟨hraw, hidle⟩ := buffers_congr hdata hdb
    rw [if_pos hvalid]
    refine ⟨hsize.trans (TuSramRegion.setRaw_totalSize _ _), hidle.trans ?_, hraw.trans ?_⟩
    · exact TuSramRegion.idleData_setRaw _ _
    · rw [tuSramRawPtr_setRaw]
      exact foldl_ewElement fp _ _ _ _
  · have hrefused : sram' = sram := by
      unfold sram' tuEwExecute
      rw [Bool.eq_false_iff.2 hvalid]
      rfl
    rw [if_neg hvalid, hrefused]
    exact ⟨rfl, rfl, rfl⟩

/-- A chain is accepted like each of its operations. -/
theorem validate_inPlace {sram : TuSramRegion} {ops : List (TuEwOp α)} {offset elemCount : UInt32} (hne : ops ≠ [])
    (hlength : ops.length ≤ TuEw.maxOps) (hcodes : ∀ op ∈ ops, op.opcode < TuEw.count) :
    tuEwValidateDesc sram ({ ops := ops, sramOffset := offset, elemCount := elemCount, inPlace := true } : TuEwDesc α) =
      (elemCount != 0 && decide (u32 (offset.toNat + u32 (elemCount.toNat * 4)) ≤ sram.totalSize.toNat)) := by
  have hall : (ops.all fun op => op.opcode < TuEw.count) = true := by simpa using hcodes
  have hpos : (ops.length != 0) = true := by simpa using hne
  unfold tuEwValidateDesc
  simp [hall, hpos, hlength]

variable (fp) in
theorem ewPass_spec (sram : TuSramRegion) {op : TuEwOp α} (hcode : op.opcode < TuEw.count) (offset elemCount : UInt32) :
    (ewPass fp offset elemCount sram op).totalSize = sram.totalSize ∧
      (ewPass fp offset elemCount sram op).idleData = sram.idleData ∧
      tuSramRawPtr (ewPass fp offset elemCount sram op) =
        if elemCount != 0 && decide (u32 (offset.toNat + u32 (elemCount.toNat * 4)) ≤ sram.totalSize.toNat) then
          ewMapped fp (op.apply fp) offset.toNat elemCount.toNat (tuSramRawPtr sram)
        else tuSramRawPtr sram := by
  -- the scalar of a unary operation is not read
  obtain ⟨op', hopcode, happly, hpass⟩ : ∃ op' : TuEwOp α, op'.opcode = op.opcode ∧ op'.apply fp = op.apply fp ∧
      ewPass fp offset elemCount sram op =
        (tuEwExecute fp sram { ops := [op'], sramOffset := offset, elemCount := elemCount, inPlace := true }).1 := by
    obtain ⟨opcode, scalar, hasScalar⟩ := op
    cases hasScalar with
    | true => exact ⟨⟨opcode, scalar, true⟩, rfl, rfl, rfl⟩
    | false => exact ⟨⟨opcode, fp.zero, false⟩, rfl, rfl, rfl⟩
  have hexecute := tuEwExecute_inPlace fp sram [op'] offset elemCount
  dsimp only at hexecute
  rw [validate_inPlace (by simp) (by simp [TuEw.maxOps]) (by simpa [hopcode] using hcode),
    show ewChain fp [op'] = op.apply fp from happly, ← hpass] at hexecute
  exact hexecute

/-- The bytes of a region after a fused chain are those after one pass for each of its operations. -/
theorem tuEwApplyFused_passes (hfp : fp.Keeps) {ops : List (TuEwOp α)} (hne : ops ≠ []) (hlength : ops.length ≤ TuEw.maxOps)
    (hcodes : ∀ op ∈ ops, op.opcode < TuEw.count) (sram : TuSramRegion) (offset elemCount : UInt32) :
    let fused := (tuEwApplyFused fp sram offset elemCount ops).1
    let passes := ops.foldl (ewPass fp offset elemCount) sram
    tuSramRawPtr fused = tuSramRawPtr passes ∧ fused.idleData = passes.idleData ∧ fused.totalSize = passes.totalSize := by
  intro fused passes
  have hfused : fused = (tuEwExecute fp sram
      { ops := ops, sramOffset := offset, elemCount := elemCount, inPlace := true }).1 :=
    congrArg Prod.fst (if_neg (Nat.not_lt.2 hlength))
  obtain ⟨hsize, hidle, hraw⟩ := tuEwExecute_inPlace fp sram ops offset elemCount
  rw [validate_inPlace hne hlength hcodes, ← hfused] at hraw
  rw [← hfused] at hsize hidle
  -- the passes done so far, from the first on
  have hrun : ∀ (rest : List (TuEwOp α)) (f : α → α) (s : TuSramRegion), (∀ op ∈ rest, op.opcode < TuEw.count) →
      s.totalSize = sram.totalSize → s.idleData = sram.idleData →
      (tuSramRawPtr s = if elemCount != 0 && decide (u32 (offset.toNat + u32 (elemCount.toNat * 4)) ≤ sram.totalSize.toNat)
        then ewMapped fp f offset.toNat elemCount.toNat (tuSramRawPtr sram) else tuSramRawPtr sram) →
      let s' := rest.foldl (ewPass fp offset elemCount) s
      s'.totalSize = sram.totalSize ∧ s'.idleData = sram.idleData ∧
        tuSramRawPtr s' =
          if elemCount != 0 && decide (u32 (offset.toNat + u32 (elemCount.toNat * 4)) ≤ sram.totalSize.toNat) then
            ewMapped fp (fun x => ewChain fp rest (f x)) offset.toNat elemCount.toNat (tuSramRawPtr sram)
          else tuSramRawPtr sram := by
    intro rest
    induction rest with
    | nil => exact fun f s _ hsize hidle hraw => ⟨hsize, hidle, hraw⟩
    | cons op rest ih =>
      intro f s hcodes hsize hidle hraw
      obtain ⟨hsize', hidle', hraw'⟩ := ewPass_spec fp s (hcodes op (by simp)) offset elemCount
      refine ih (fun x => op.apply fp (f x)) _ (fun op' h => hcodes op' (by simp [h])) (hsize'.trans hsize)
        (hidle'.trans hidle) (hraw'.trans ?_)
      rw [hsize, hraw]
      split
      · exact ewMapped_comp hfp f _ _ _ _
      · rfl
  obtain ⟨op, rest, rfl⟩ := List.exists_cons_of_ne_nil hne
  obtain ⟨hsize', hidle', hraw'⟩ := ewPass_spec fp sram (hcodes op (by simp)) offset elemCount
  obtain ⟨hsizeAll, hidleAll, hrawAll⟩ :=
    hrun rest (op.apply fp) _ (fun op' h => hcodes op' (by simp [h])) hsize' hidle' hraw'
  exact ⟨hraw.trans hrawAll.symm, hidle.trans hidleAll.symm, hsize.trans hsizeAll.symm⟩

/-- Bytes in place of floats. -/
def wrappingBytes : EwFloat UInt8 where
  zero := 0
  one := 1
  half := 0
  geluA := 1
  geluB := 0
  negInfinity := 255
  neg x := -x
  add x y := x + y
  sub x y := x - y
  mul x y := x * y
  div x y := x / y
  lt x y := x < y
  ne x y := x != y
  ge x y := y ≤ x
  tanhf x := x
  expf x := x
  sqrtf x := x
  logf x := x
  read b := b 0
  bytes v i := if i = 0 then v else 0

theorem tuEwApplyFused_passes_addNeg :
    let ops : List (TuEwOp UInt8) := [⟨TuEw.add, 3, true⟩, ⟨TuEw.neg, 0, false⟩, ⟨TuEw.mul, 2, true⟩]
    let sram : TuSramRegion := { (Memory.zero 64).sram 0 with data := fun i => UInt8.ofNat i }
    tuSramRawPtr (tuEwApplyFused wrappingBytes sram 8 4 ops).1 = tuSramRawPtr (ops.foldl (ewPass wrappingBytes 8 4) sram) :=
  (tuEwApplyFused_passes (fun mem x h => h 0 (by decide)) (by decide) (by decide) (by decide) _ 8 4).1

end Tusim
