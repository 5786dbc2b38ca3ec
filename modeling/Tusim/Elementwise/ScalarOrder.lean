import Mathlib.Data.List.Perm.Subperm
import Tusim.Elementwise.Queued

/-!
# Chains that survive the queue

Which placements of scalar operands mean the same after packing and unpacking, over all operations, scalars and regions
(`submittedMeansCalled_iff`).  Chains with scalars on the leading operations do; for any other placement, adding ones at
the operations with a scalar counts how many of them were dealt their scalar.
-/

namespace Tusim

open Word Blocks

variable {α : Type} (fp : EwFloat α)

/-- The operations have scalars exactly where `flags` says so. -/
def HasFlags (ops : Nat → TuEwOp α) (flags : List Bool) : Prop :=
  (List.range flags.length).map (fun i => (ops i).hasScalar) = flags

/-- Chains with scalars at these places, for every choice of the operations, the scalars, the region, the offset and the
count: a chain of at most eight operations and four scalars that is submitted and executed leaves the regions as the direct
call on it does, and any other chain leaves them alone. -/
def SubmittedMeansCalled (flags : List Bool) : Prop :=
  ∀ ops : Nat → TuEwOp α, HasFlags ops flags → ∀ (sramRegion : UInt8) (offset elemCount : UInt32) (g : EwRegions)
    (q q' : TuCommandQueue (TuCmdEwDesc α)) (cmdId : Nat),
    tuCmdqSubmitElementwise fp q sramRegion offset elemCount ops (UInt8.ofNat flags.length) = some (q', cmdId) →
    executeEwCommand fp (q'.commands q.head) g =
      if flags.length ≤ 8 ∧ flags.count true ≤ 4 then
        applyFusedTo fp sramRegion offset elemCount ((List.range flags.length).map ops) g
      else g

/-- No operation without a scalar is before one with a scalar. -/
def ScalarsFirst (flags : List Bool) : Prop := ∀ i j : Nat, i < j → flags[j]? = some true → flags[i]? = some true

theorem HasFlags.getElem {ops : Nat → TuEwOp α} {flags : List Bool} (h : HasFlags ops flags) {i : Nat}
    (hi : i < flags.length) : flags[i]? = some (ops i).hasScalar := by
  conv_lhs => rw [← h]
  rw [List.getElem?_map, List.getElem?_range hi]
  rfl

theorem HasFlags.length_withScalar {ops : Nat → TuEwOp α} {flags : List Bool} (h : HasFlags ops flags) :
    (withScalar ops flags.length).length = flags.count true := by
  conv_rhs => rw [← h]
  unfold withScalar
  rw [List.count, List.countP_map, ← List.countP_eq_length_filter]
  apply List.countP_congr
  intro i _
  simp

variable {fp}

/-! ### Scalars on the leading operations -/

theorem ewChain_congr {l : List Nat} {f f' : Nat → TuEwOp α} (h : ∀ i ∈ l, ∀ x, (f i).apply fp x = (f' i).apply fp x) :
    ewChain fp (l.map f) = ewChain fp (l.map f') := by
  funext x
  unfold ewChain
  rw [List.foldl_map, List.foldl_map]
  exact List.foldl_ext _ _ _ fun x i hi => h i hi x

theorem ScalarsFirst.hasScalar_iff {flags : List Bool} (h : ScalarsFirst flags) {ops : Nat → TuEwOp α}
    (hops : HasFlags ops flags) {i : Nat} (hi : i < flags.length) :
    (ops i).hasScalar = true ↔ i < (withScalar ops flags.length).length := by
  have hflag : ∀ j < flags.length, flags[j]? = some true ↔ (ops j).hasScalar = true := by
    intro j hj
    rw [hops.getElem hj, Option.some.injEq]
  constructor
  · intro hsi
    -- the operations up to `i` all have a scalar
    have hsub : List.range (i + 1) ⊆ withScalar ops flags.length := by
      intro j hj
      rw [List.mem_range] at hj
      unfold withScalar
      rw [List.mem_filter, List.mem_range]
      refine ⟨by omega, ?_⟩
      rcases Nat.lt_succ_iff_lt_or_eq.1 hj with hlt | rfl
      · exact (hflag j (by omega)).1 (h j i hlt ((hflag i hi).2 hsi))
      · exact hsi
    have hle := List.nodup_range.length_le_of_subset hsub
    rwa [List.length_range] at hle
  · intro hlt
    by_contra hsi
    -- the operations from `i` on have none
    have hsub : withScalar ops flags.length ⊆ List.range i := by
      intro j hj
      unfold withScalar at hj
      rw [List.mem_filter, List.mem_range] at hj
      rw [List.mem_range]
      by_contra hij
      rcases Nat.eq_or_lt_of_le (Nat.not_lt.1 hij) with rfl | hlt'
      · exact hsi hj.2
      · exact hsi ((hflag i hi).1 (h i j hlt' ((hflag j hj.1).2 hj.2)))
    have hnodup : (withScalar ops flags.length).Nodup := List.nodup_range.filter _
    have hle := hnodup.length_le_of_subset hsub
    rw [List.length_range] at hle
    exact absurd hlt (Nat.not_lt.2 hle)

private theorem filter_lt_range {k n : Nat} (h : k ≤ n) : (List.range n).filter (· < k) = List.range k := by
  obtain ⟨m, rfl⟩ := Nat.exists_eq_add_of_le h
  have hlow : (List.range k).filter (· < k) = List.range k := by
    rw [List.filter_eq_self]
    intro i hi
    simpa using hi
  have hhigh : ((List.range m).map (k + ·)).filter (· < k) = [] := by
    rw [List.filter_eq_nil_iff]
    intro i hi
    obtain ⟨j, -, rfl⟩ := List.mem_map.1 hi
    simp
  rw [List.range_add, List.filter_append, hlow, hhigh, List.append_nil]

theorem ScalarsFirst.withScalar_eq {flags : List Bool} (h : ScalarsFirst flags) {ops : Nat → TuEwOp α}
    (hops : HasFlags ops flags) :
    withScalar ops flags.length = List.range (withScalar ops flags.length).length := by
  have hle : (withScalar ops flags.length).length ≤ flags.length := by
    have := List.length_filter_le (fun i => (ops i).hasScalar) (List.range flags.length)
    rwa [List.length_range] at this
  have hfilter : withScalar ops flags.length =
      (List.range flags.length).filter (· < (withScalar ops flags.length).length) := by
    conv_lhs => unfold withScalar
    apply List.filter_congr
    intro i hi
    rw [Bool.eq_iff_iff, decide_eq_true_eq]
    exact h.hasScalar_iff hops (List.mem_range.1 hi)
  conv_lhs => rw [hfilter]
  exact filter_lt_range hle

theorem ScalarsFirst.submittedMeansCalled {flags : List Bool} (h : ScalarsFirst flags) (hcount : flags.count true ≤ 4)
    (hlength : flags.length < 256) : SubmittedMeansCalled fp flags := by
  intro ops hops sramRegion offset elemCount g q q' cmdId hsubmit
  rw [executeEwCommand_submitted fp hlength hsubmit]
  by_cases hmax : flags.length ≤ 8
  · rw [if_pos hmax, if_pos ⟨hmax, hcount⟩]
    have hscalars := hops.length_withScalar
    unfold applyFusedTo
    congr 2
    apply tuEwApplyFused_congr
    · rw [List.map_map, List.map_map]
      apply List.map_congr_left
      intro i _
      dsimp only [Function.comp_apply]
      split <;> rfl
    · apply ewChain_congr
      intro i hi x
      rw [List.mem_range] at hi
      have hiff := h.hasScalar_iff hops hi
      by_cases hsi : (ops i).hasScalar = true
      · have hlt := hiff.1 hsi
        have hdense : denseScalar fp ops flags.length i = (ops i).scalar := by
          unfold denseScalar
          rw [h.withScalar_eq hops, List.getElem?_range hlt]
          rfl
        rw [if_pos (by omega), hdense]
        unfold TuEwOp.apply
        rw [if_pos rfl, if_pos hsi]
      · rw [if_neg (by rw [hiff] at hsi; omega)]
        unfold TuEwOp.apply
        rw [if_neg Bool.false_ne_true, if_neg hsi]
  · rw [if_neg hmax, if_neg (fun hle => hmax hle.1)]

/-! ### Counting with a chain -/

/-- Ones added to zero. -/
def counted (fp : EwFloat α) : Nat → α
  | 0 => fp.zero
  | k + 1 => fp.add (counted fp k) fp.one

/-- The numbers from zero to four are different and survive in memory. -/
structure CountsToFour (fp : EwFloat α) : Prop where
  read_bytes : ∀ k ≤ 4, ∀ mem : Nat → UInt8, (∀ i < 4, mem i = fp.bytes (counted fp k) i) → fp.read mem = counted fp k
  injective : ∀ j ≤ 4, ∀ k ≤ 4, counted fp j = counted fp k → j = k

theorem ewChain_counted {f : Nat → TuEwOp α} {p : Nat → Bool}
    (h : ∀ i x, (f i).apply fp x = if p i then fp.add x fp.one else x) (n : Nat) :
    ewChain fp ((List.range n).map f) fp.zero = counted fp ((List.range n).filter p).length := by
  induction n with
  | zero => rfl
  | succ n ih =>
    unfold ewChain at ih ⊢
    rw [List.range_succ, List.map_append, List.foldl_append, ih, List.map_singleton, List.foldl_cons, List.foldl_nil, h,
      List.filter_append]
    by_cases hp : p n = true
    · rw [if_pos hp, List.filter_cons_of_pos hp, List.length_append]
      rfl
    · rw [if_neg hp, List.filter_cons_of_neg hp, List.filter_nil, List.append_nil]

/-- A region of four bytes that holds a zero. -/
def zeroRegion (fp : EwFloat α) : TuSramRegion := { (Memory.zero 4).sram 0 with data := fp.bytes fp.zero }

def zeroRegions (fp : EwFloat α) : EwRegions := ⟨zeroRegion fp, zeroRegion fp, zeroRegion fp⟩

/-- What a chain of valid operations leaves in the region. -/
theorem read_tuEwApplyFused (hfp : CountsToFour fp) {ops : List (TuEwOp α)} (hne : ops ≠ []) (hmax : ops.length ≤ 8)
    (hcodes : ∀ op ∈ ops, op.opcode < TuEw.count) {k : Nat} (hk : k ≤ 4) (hchain : ewChain fp ops fp.zero = counted fp k) :
    fp.read (tuSramRawPtr (tuEwApplyFused fp (zeroRegion fp) 0 1 ops).1) = counted fp k := by
  have hvalid : tuEwValidateDesc (zeroRegion fp)
      { ops := ops, sramOffset := 0, elemCount := 1, inPlace := true } = true := by
    unfold tuEwValidateDesc
    have hlength : ops.length ≠ 0 := by simpa using hne
    have hall : (ops.all fun op => op.opcode < TuEw.count) = true := by simpa using hcodes
    have hsize : (zeroRegion fp).totalSize = 4 := rfl
    simp [hlength, hall, hmax, TuEw.maxOps, hsize, u32]
  have hzero : fp.read (fun i => fp.bytes fp.zero (0 + 4 * 0 + i)) = fp.zero := by
    apply hfp.read_bytes 0 (by decide)
    intro i _
    show fp.bytes fp.zero (0 + i) = _
    rw [Nat.zero_add]
    rfl
  have hraw : tuSramRawPtr (zeroRegion fp) = fp.bytes fp.zero := rfl
  unfold tuEwApplyFused tuEwExecute
  rw [if_neg (show ¬ ops.length > TuEw.maxOps from Nat.not_lt.2 hmax), hvalid, if_neg (by decide)]
  dsimp only
  rw [if_neg (by rw [show ((zeroRegion fp).setRaw _).banks.bwModeling = false from rfl]; decide), tuSramRawPtr_setRaw, hraw]
  apply hfp.read_bytes k hk
  intro i hi
  show ewElement fp (ewChain fp ops) 0 0 (fp.bytes fp.zero) 0 i = _
  unfold ewElement
  rw [hzero, hchain]
  have h : memcpy (fp.bytes fp.zero) 0 (fp.bytes (counted fp k)) 4 (0 + i) = fp.bytes (counted fp k) i := memcpy_inside hi
  rwa [Nat.zero_add] at h

/-- Operations that add one where `codes` says so and pass their number on elsewhere. -/
def countingOps (fp : EwFloat α) (codes : Nat → Bool) (flags : List Bool) (i : Nat) : TuEwOp α :=
  { opcode := if codes i then TuEw.add else TuEw.nop, scalar := fp.one, hasScalar := flags.getD i false }

theorem countingOps_flags (codes : Nat → Bool) (flags : List Bool) : HasFlags (countingOps fp codes flags) flags := by
  apply List.ext_getElem
  · simp
  · intro i hi _
    have hlt : i < flags.length := by simpa using hi
    simp [countingOps, hlt]

theorem apply_counting (codes : Bool) (scalar : α) (hasScalar : Bool) (hscalar : hasScalar = true → scalar = fp.one) (x : α) :
    ({ opcode := if codes then TuEw.add else TuEw.nop, scalar := scalar, hasScalar := hasScalar } : TuEwOp α).apply fp x =
      if codes && hasScalar then fp.add x fp.one else x := by
  unfold TuEwOp.apply
  cases hasScalar with
  | true =>
    rw [hscalar rfl]
    cases codes <;> rfl
  | false => cases codes <;> rfl

/-- A chain that survives counts the same before and after. -/
theorem SubmittedMeansCalled.counts (hfp : CountsToFour fp) {flags : List Bool} (h : SubmittedMeansCalled fp flags)
    (codes : Nat → Bool) (hne : flags ≠ []) (hmax : flags.length ≤ 8) :
    ((List.range flags.length).filter fun i => codes i && decide (i < min (flags.count true) 4)).length =
      if flags.count true ≤ 4 then
        ((List.range flags.length).filter fun i => codes i && flags.getD i false).length
      else 0 := by
  have hflags : HasFlags (countingOps fp codes flags) flags := countingOps_flags codes flags
  have hscalars := hflags.length_withScalar
  have hlength : flags.length < 256 := by omega
  have hpos := List.length_pos_of_ne_nil hne
  -- the command goes to a new queue, and works on the output region
  obtain ⟨q', cmdId, hsubmit⟩ : ∃ q' cmdId, tuCmdqSubmitElementwise fp (tuCmdqCreate _ 4 true) 0 0 1
      (countingOps fp codes flags) (UInt8.ofNat flags.length) = some (q', cmdId) := ⟨_, _, rfl⟩
  have heq := h (countingOps fp codes flags) hflags 0 0 1 (zeroRegions fp) _ q' cmdId hsubmit
  rw [executeEwCommand_submitted fp hlength hsubmit, if_pos hmax, hscalars] at heq
  have hvalid : ∀ {f : Nat → TuEwOp α}, (∀ i, (f i).opcode = if codes i then TuEw.add else TuEw.nop) →
      ∀ op ∈ (List.range flags.length).map f, op.opcode < TuEw.count := by
    intro f hf op hop
    obtain ⟨i, -, rfl⟩ := List.mem_map.1 hop
    rw [hf]
    split <;> decide
  have hdense : ∀ i < flags.count true, denseScalar fp (countingOps fp codes flags) flags.length i = fp.one := by
    intro i hi
    unfold denseScalar
    rw [List.getElem?_eq_getElem (by rwa [hscalars])]
    rfl
  have hleft : ∀ i x, (if i < min (flags.count true) 4 then
      ({ opcode := (countingOps fp codes flags i).opcode
         scalar := denseScalar fp (countingOps fp codes flags) flags.length i, hasScalar := true } : TuEwOp α)
      else { opcode := (countingOps fp codes flags i).opcode, scalar := fp.zero, hasScalar := false }).apply fp x =
        if codes i && decide (i < min (flags.count true) 4) then fp.add x fp.one else x := by
    intro i x
    by_cases hi : i < min (flags.count true) 4
    · rw [if_pos hi, decide_eq_true hi]
      exact apply_counting (codes i) _ true (fun _ => hdense i (by omega)) x
    · rw [if_neg hi, decide_eq_false hi]
      exact apply_counting (codes i) _ false (fun hf => absurd hf (by decide)) x
  have hright : ∀ i x, (countingOps fp codes flags i).apply fp x =
      if codes i && flags.getD i false then fp.add x fp.one else x :=
    fun i x => apply_counting (codes i) _ _ (fun _ => rfl) x
  have hleft_le : ((List.range flags.length).filter fun i => codes i && decide (i < min (flags.count true) 4)).length ≤ 4 := by
    have hsub : (List.range flags.length).filter (fun i => codes i && decide (i < min (flags.count true) 4)) ⊆
        List.range 4 := by
      intro i hi
      simp only [List.mem_filter, Bool.and_eq_true, decide_eq_true_eq] at hi
      exact List.mem_range.2 (by omega)
    have hnodup : ((List.range flags.length).filter fun i => codes i && decide (i < min (flags.count true) 4)).Nodup :=
      List.nodup_range.filter _
    simpa using hnodup.length_le_of_subset hsub
  have hread := read_tuEwApplyFused hfp (by simpa using hne) (by simpa using hmax)
    (hvalid fun i => by split <;> rfl) hleft_le (ewChain_counted hleft flags.length)
  have houtput := congrArg (fun g => fp.read (tuSramRawPtr g.sramO)) heq
  have hselect : ∀ l, (applyFusedTo fp 0 0 1 l (zeroRegions fp)).sramO = (tuEwApplyFused fp (zeroRegion fp) 0 1 l).1 :=
    fun _ => rfl
  by_cases hfour : flags.count true ≤ 4
  · have hright_le : ((List.range flags.length).filter fun i => codes i && flags.getD i false).length ≤ 4 := by
      refine le_trans ?_ hfour
      rw [← hscalars]
      unfold withScalar
      apply List.Sublist.length_le
      apply List.monotone_filter_right
      intro i hi
      rw [Bool.and_eq_true] at hi
      exact hi.2
    have hread' := read_tuEwApplyFused hfp (by simpa using hne) (by simpa using hmax)
      (hvalid fun i => rfl) hright_le (ewChain_counted hright flags.length)
    rw [if_pos ⟨hmax, hfour⟩] at houtput
    rw [if_pos hfour]
    exact hfp.injective _ hleft_le _ hright_le (hread.symm.trans (houtput.trans hread'))
  · rw [if_neg fun hle => hfour hle.2] at houtput
    rw [if_neg hfour]
    have hzero : fp.read (tuSramRawPtr (zeroRegion fp)) = counted fp 0 := hfp.read_bytes 0 (by decide) _ fun _ _ => rfl
    exact hfp.injective _ hleft_le _ (by decide) (hread.symm.trans (houtput.trans hzero))

theorem SubmittedMeansCalled.count_le (hfp : CountsToFour fp) {flags : List Bool} (h : SubmittedMeansCalled fp flags)
    (hne : flags ≠ []) (hmax : flags.length ≤ 8) : flags.count true ≤ 4 := by
  by_contra hfour
  have hcounts := h.counts hfp (fun _ => true) hne hmax
  have hle : flags.count true ≤ flags.length := List.count_le_length
  rw [if_neg hfour, Nat.min_eq_right (by omega), List.length_eq_zero_iff, List.filter_eq_nil_iff] at hcounts
  exact hcounts 0 (List.mem_range.2 (by omega)) (by decide)

theorem SubmittedMeansCalled.scalarsFirst (hfp : CountsToFour fp) {flags : List Bool} (h : SubmittedMeansCalled fp flags)
    (hne : flags ≠ []) (hmax : flags.length ≤ 8) : ScalarsFirst flags := by
  have hfour := h.count_le hfp hne hmax
  have hcounts := h.counts hfp (fun i => flags.getD i false) hne hmax
  rw [if_pos hfour, Nat.min_eq_left hfour] at hcounts
  simp only [Bool.and_self] at hcounts
  have hflag : ∀ i, flags[i]? = some true ↔ i ∈ (List.range flags.length).filter fun i => flags.getD i false := by
    intro i
    rw [List.mem_filter, List.mem_range, List.getD_eq_getElem?_getD]
    by_cases hi : i < flags.length
    · simp [hi]
    · simp [hi]
  have hlength : ((List.range flags.length).filter fun i => flags.getD i false).length = flags.count true := by
    have hflags : HasFlags (countingOps fp (fun _ => true) flags) flags := countingOps_flags _ flags
    exact hflags.length_withScalar
  -- dealing out the scalars reaches every operation that has one, so these are the leading ones
  have hsame : (List.range flags.length).filter (fun i => flags.getD i false && decide (i < flags.count true)) =
      (List.range flags.length).filter fun i => flags.getD i false :=
    (List.monotone_filter_right _ fun i hi => by rw [Bool.and_eq_true] at hi; exact hi.1).eq_of_length hcounts
  have hsub : (List.range flags.length).filter (fun i => flags.getD i false) ⊆ List.range (flags.count true) := by
    intro i hi
    rw [← hsame, List.mem_filter, Bool.and_eq_true, decide_eq_true_eq] at hi
    exact List.mem_range.2 hi.2.2
  have hnodup : ((List.range flags.length).filter fun i => flags.getD i false).Nodup := List.nodup_range.filter _
  have hperm := (List.subperm_of_subset hnodup hsub).perm_of_length_le (by rw [List.length_range, hlength])
  intro i j hij hj
  have hjk := List.mem_range.1 (hsub ((hflag j).1 hj))
  exact (hflag i).2 (hperm.mem_iff.2 (List.mem_range.2 (by omega)))

/-- For every placement of scalars, given as one flag for each operation: every chain with it means the same submitted as
called, or is refused, exactly if it has more than eight operations or has its at most four scalars on the leading
operations. -/
theorem submittedMeansCalled_iff (hfp : CountsToFour fp) (flags : List Bool) (hlength : flags.length < 256) :
    SubmittedMeansCalled fp flags ↔ 8 < flags.length ∨ (flags.count true ≤ 4 ∧ ScalarsFirst flags) := by
  constructor
  · intro h
    by_cases hmax : flags.length ≤ 8
    · by_cases hne : flags = []
      · subst hne
        exact Or.inr ⟨Nat.zero_le 4, fun i j _ hj => by simp at hj⟩
      · exact Or.inr ⟨h.count_le hfp hne hmax, h.scalarsFirst hfp hne hmax⟩
    · exact Or.inl (Nat.not_le.1 hmax)
  · rintro (hmax | ⟨hcount, hfirst⟩)
    · intro ops hops sramRegion offset elemCount g q q' cmdId hsubmit
      rw [executeEwCommand_submitted fp hlength hsubmit, if_neg (Nat.not_le.2 hmax),
        if_neg fun hle => absurd hle.1 (Nat.not_le.2 hmax)]
    · exact hfirst.submittedMeansCalled hcount hlength

/-- Integers of one byte in place of floats. -/
def byteIntegers : EwFloat Int where
  zero := 0
  one := 1
  half := 0
  geluA := 1
  geluB := 0
  negInfinity := -1000
  neg x := -x
  add x y := x + y
  sub x y := x - y
  mul x y := x * y
  div x y := x / y
  lt x y := x < y
  ne x y := x != y
  ge x y := y ≤ x
  tanhf x := x
  expf x := x
  sqrtf x := x
  logf x := x
  read b := (b 0).toNat
  bytes v i := if i = 0 then UInt8.ofInt v else 0

theorem byteIntegers_countsToFour : CountsToFour byteIntegers where
  read_bytes := by
    have hall : ∀ k ≤ 4, (((byteIntegers.bytes (counted byteIntegers k) 0).toNat : Nat) : Int) = counted byteIntegers k := by
      decide
    intro k hk mem hmem
    rw [← hall k hk, ← hmem 0 (by decide)]
    rfl
  injective := by decide

/-- An addition before the only operation without a scalar survives. -/
theorem submittedMeansCalled_addRelu : SubmittedMeansCalled byteIntegers [true, false] :=
  (submittedMeansCalled_iff byteIntegers_countsToFour [true, false] (by decide)).2
    (Or.inr ⟨by decide, fun i j hij hj => by
      obtain ⟨hj, -⟩ := List.getElem?_eq_some_iff.1 hj
      have hj : j < 2 := hj
      have hi : i = 0 := by omega
      rw [hi]
      rfl⟩)

/-- A ReLU before an addition of five: called it makes five of zero, submitted it does nothing. -/
theorem reluAdd_not_submittedMeansCalled : ¬ SubmittedMeansCalled byteIntegers [false, true] := by
  intro h
  let ops : Nat → TuEwOp Int := fun i =>
    if i = 0 then { opcode := TuEw.relu, scalar := 0, hasScalar := false }
    else { opcode := TuEw.add, scalar := 5, hasScalar := true }
  have heq := h ops rfl 0 0 1 (zeroRegions byteIntegers) (tuCmdqCreate _ 4 true) _ 1 rfl
  have hbyte := congrArg (fun g => g.sramO.data 0) heq
  revert hbyte
  decide +kernel

end Tusim
