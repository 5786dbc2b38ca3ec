import Mathlib.Data.Set.Lattice
import Tusim.Attention.Steps
import Mathlib.Order.CompletePartialOrder

/-!
# Where a tile is staged

The offsets of the areas are laid out for the nominal tile, and the loops fill them for the tile at hand, which is smaller
at the ends of the sequences.  Addresses have 32 bits, and a word of the banks is one `float`.  An area holds the bytes that
its loops touch; it lies in the span from its offset on (`area_subset`), and the admission leaves room for all spans
(`AttentionPlan.Fits`).  So the areas never meet, with and without a mask and row state.

The admission does not look at the multiplies.  Their dispatcher keeps 16 bits of each dimension of a tensor, and a
dimension of `2 ^ 16` or more changes there without a message.
-/

namespace Tusim.Attention

open Word WrapLoop

/-! ### Areas -/

/-- A table of `rows` times `cols` numbers of `width` bytes. -/
structure Table where
  off : Nat
  width : Nat
  rows : Nat
  cols : Nat

namespace Table

variable (t : Table)

/-- The bytes that the loops over a table touch, by row and column or by one index. -/
def area : Set Nat :=
  {b | (∃ r < t.rows, ∃ c < t.cols, u32 (t.off + (r * t.cols + c) * t.width) ≤ b ∧
      b < u32 (t.off + (r * t.cols + c) * t.width) + t.width) ∨
    ∃ i < u32 (t.rows * t.cols), u32 (t.off + i * t.width) ≤ b ∧ b < u32 (t.off + i * t.width) + t.width}

/-- The end of the bytes from the offset on. -/
def finish : Nat := t.off + t.width * (t.rows * t.cols)

variable {t}

theorem area_subset (h : t.finish < 2 ^ 32) : t.area ⊆ {b | t.off ≤ b ∧ b < t.finish} := by
  have hindex {i b : Nat} (hi : i < t.rows * t.cols) (hlow : u32 (t.off + i * t.width) ≤ b)
      (hhigh : b < u32 (t.off + i * t.width) + t.width) : t.off ≤ b ∧ b < t.finish := by
    have hend : t.width * i + t.width ≤ t.width * (t.rows * t.cols) := Blocks.mul_block hi
    unfold finish at h ⊢
    rw [Nat.mul_comm i, u32_of_lt (by omega)] at hlow hhigh
    omega
  rintro b (⟨r, hr, c, hc, hlow, hhigh⟩ | ⟨i, hi, hlow, hhigh⟩)
  · have hrow : r * t.cols + t.cols ≤ t.rows * t.cols := by
      rw [← Nat.succ_mul]
      exact Nat.mul_le_mul_right t.cols hr
    exact hindex (by omega) hlow hhigh
  · exact hindex (hi.trans_le (Nat.mod_le _ _)) hlow hhigh

/-- Tables one behind the other in a region do not meet. -/
theorem areas_apart {ts : List Table} {size : Nat} (hsize : size < 2 ^ 32) (hinside : ∀ t ∈ ts, t.finish ≤ size)
    (hbehind : ts.Pairwise fun t u => t.finish ≤ u.off) :
    (ts.map area).Pairwise Disjoint ∧ ∀ A ∈ ts.map area, ∀ b ∈ A, b < size := by
  have hspan {t : Table} (ht : t ∈ ts) := area_subset ((hinside t ht).trans_lt hsize)
  constructor
  · refine List.pairwise_map.2 (hbehind.imp_of_mem fun {t u} ht hu hle => Set.disjoint_left.2 fun b hb hb' => ?_)
    have hfirst := (hspan ht hb).2
    have hsecond := (hspan hu hb').1
    omega
  · intro A hA b hb
    obtain ⟨t, ht, rfl⟩ := List.mem_map.1 hA
    exact (hspan ht hb).2.trans_le (hinside t ht)

end Table

variable {F : Type} (cfg : AttentionConfig) (desc : TuAttentionDesc F) (plan : AttentionPlan F) (qCount kvCount : Nat)

/-- What a tile has in the output scratchpad: scores, accumulators, the mask, and running maxima and sums. -/
def outputTables : List Table :=
  [{ off := 0, width := 4, rows := qCount, cols := kvCount },
    { off := plan.oOff, width := 4, rows := qCount, cols := desc.headDim.toNat }] ++
  (if desc.maskType = .none then [] else [{ off := plan.maskOff, width := 4, rows := qCount, cols := kvCount }]) ++
  if plan.streaming then
    [{ off := plan.maxOff, width := 4, rows := qCount, cols := 1 },
      { off := plan.sumOff, width := 4, rows := qCount, cols := 1 }]
  else []

/-- What it has in the weight scratchpad: the keys, later the values, and the transposed keys. -/
def weightTables : List Table :=
  [{ off := 0, width := 2, rows := kvCount, cols := desc.headDim.toNat },
    { off := plan.ktOff, width := 2, rows := desc.headDim.toNat, cols := kvCount }]

def queryTable : Table := { off := 0, width := 2, rows := qCount, cols := desc.headDim.toNat }

/-- The dimensions that the dispatcher takes from the tensors are those of the multiply. -/
def Narrows (M N K : Nat) : Prop :=
  (tileTensor M K 2).rows.toUInt16.toNat = M ∧ (tileTensor K N 2).cols.toUInt16.toNat = N ∧
    (tileTensor M K 2).cols.toUInt16.toNat = K

theorem narrows_iff {M N K : Nat} : Narrows M N K ↔ M < 2 ^ 16 ∧ N < 2 ^ 16 ∧ K < 2 ^ 16 := by
  have hdim (x : Nat) : (UInt32.ofNat x).toUInt16.toNat = x ↔ x < 2 ^ 16 := by
    rw [UInt32.toNat_toUInt16, UInt32.toNat_ofNat']
    omega
  unfold Narrows tileTensor
  dsimp only
  rw [hdim, hdim, hdim]

/-- The areas of the tables are pairwise disjoint and inside a region. -/
def Laid (size : Nat) (ts : List Table) : Prop :=
  (ts.map Table.area).Pairwise Disjoint ∧ ∀ A ∈ ts.map Table.area, ∀ b ∈ A, b < size

/-- The staging of one tile. -/
structure Staged : Prop where
  output : Laid cfg.sramOSize.toNat (outputTables desc plan qCount kvCount)
  weights : Laid cfg.sramWSize.toNat (weightTables desc plan kvCount)
  queries : Laid cfg.sramASize.toNat [queryTable desc qCount]
  scores : Narrows qCount kvCount desc.headDim.toNat
  values : Narrows qCount desc.headDim.toNat kvCount

variable {cfg desc plan qCount kvCount}

section

variable (hfits : plan.Fits cfg desc.headDim.toNat desc.seqLenKv.toNat) (hq : qCount ≤ plan.tileM)
  (hkv : kvCount ≤ plan.tileN)
include hfits hq

theorem queries_laid : Laid cfg.sramASize.toNat [queryTable desc qCount] := by
  have hrows : qCount * desc.headDim.toNat ≤ plan.tileM * desc.headDim.toNat := Nat.mul_le_mul_right _ hq
  have hfit := hfits.sramA
  refine Table.areas_apart cfg.sramASize.toNat_lt (fun t ht => ?_) (List.pairwise_singleton _ _)
  obtain rfl := List.mem_singleton.1 ht
  unfold Table.finish queryTable
  dsimp only
  omega

omit hq in
include hkv in
theorem weights_laid : Laid cfg.sramWSize.toNat (weightTables desc plan kvCount) := by
  have hkeys : kvCount * desc.headDim.toNat ≤ plan.tileN * desc.headDim.toNat := Nat.mul_le_mul_right _ hkv
  have hfit := hfits.sramW
  have hktOff : plan.ktOff = 2 * (plan.tileN * desc.headDim.toNat) := hfits.kBytes
  have hswap : desc.headDim.toNat * kvCount = kvCount * desc.headDim.toNat := Nat.mul_comm _ _
  refine Table.areas_apart cfg.sramWSize.toNat_lt ?_ ?_
  · unfold weightTables Table.finish
    simp only [List.mem_cons, List.not_mem_nil, or_false, forall_eq_or_imp, forall_eq]
    omega
  · unfold weightTables Table.finish
    simp only [List.pairwise_cons, List.mem_cons, List.not_mem_nil, or_false, forall_eq, List.Pairwise.nil,
      IsEmpty.forall_iff, implies_true, and_true]
    omega

include hkv in
theorem output_laid : Laid cfg.sramOSize.toNat (outputTables desc plan qCount kvCount) := by
  have hscores : qCount * kvCount ≤ plan.tileM * plan.tileN := Nat.mul_le_mul hq hkv
  have hrows : qCount * desc.headDim.toNat ≤ plan.tileM * desc.headDim.toNat := Nat.mul_le_mul_right _ hq
  have hfit := hfits.sramO
  have hoOff := hfits.oOff_eq
  have hmaskOff := hfits.maskOff_eq
  have hmaxOff := hfits.maxOff_eq
  refine Table.areas_apart cfg.sramOSize.toNat_lt ?_ ?_
  all_goals
    unfold outputTables Table.finish
    rcases Bool.eq_false_or_eq_true plan.streaming with hs | hs
    · have hsumOff := hfits.sumOff_eq hs
      rw [hs, if_pos rfl] at hfit
      rw [hs, if_pos rfl]
      by_cases hmask : desc.maskType = .none
      all_goals
        simp only [hmask, if_true, if_false, List.append_nil, List.cons_append, List.nil_append, List.pairwise_cons,
          List.mem_cons, List.not_mem_nil, or_false, forall_eq_or_imp, forall_eq, List.Pairwise.nil, IsEmpty.forall_iff,
          implies_true, and_true, Nat.mul_one]
        omega
    · rw [hs, if_neg Bool.false_ne_true] at hfit
      rw [hs, if_neg Bool.false_ne_true, List.append_nil]
      by_cases hmask : desc.maskType = .none
      all_goals
        simp only [hmask, if_true, if_false, List.append_nil, List.cons_append, List.nil_append, List.pairwise_cons,
          List.mem_cons, List.not_mem_nil, or_false, forall_eq_or_imp, forall_eq, List.Pairwise.nil, IsEmpty.forall_iff,
          implies_true, and_true]
        omega

end

/-! ### All tiles -/

variable (cfg desc plan) in
/-- The staging of every tile that the loops reach. -/
def TilesStaged : Prop :=
  ∀ qi kvi, Visits desc.seqLenQ.toNat plan.tileM (2 ^ 32) qi → Visits desc.seqLenKv.toNat plan.tileN (2 ^ 32) kvi →
    Staged cfg desc plan (WrapLoop.tileCount desc.seqLenQ.toNat plan.tileM (2 ^ 32) qi)
      (WrapLoop.tileCount desc.seqLenKv.toNat plan.tileN (2 ^ 32) kvi)

/-- The tile of the descriptor, or a default. -/
theorem attentionPlan_tiles {fp : FloatOps F} (h : attentionPlan fp cfg desc = some plan) :
    (plan.tileM = desc.tileM.toNat ∨ desc.tileM.toNat = 0 ∧ plan.tileM ≤ 16) ∧
      (plan.tileN = desc.tileN.toNat ∨ desc.tileN.toNat = 0 ∧ plan.tileN ≤ 16) := by
  unfold attentionPlan at h
  obtain ⟨footprint, -, rfl⟩ := Option.map_eq_some_iff.1 h
  have hdefault (tile len pe : Nat) (hpe : pe ≤ 16) :
      (if tile = 0 then if pe > len then len else pe else tile) = tile ∨
        tile = 0 ∧ (if tile = 0 then if pe > len then len else pe else tile) ≤ 16 := by
    by_cases htile : tile = 0
    · rw [if_pos htile]
      refine Or.inr ⟨htile, ?_⟩
      split <;> omega
    · rw [if_neg htile]
      exact Or.inl rfl
  exact ⟨hdefault _ _ _ (by decide), hdefault _ _ _ (by decide)⟩

theorem validated_lengths [DecidableEq F] {fp : FloatOps F} (h : tuAttentionValidateDesc fp desc = true) :
    0 < desc.seqLenQ.toNat ∧ 0 < desc.seqLenKv.toNat := by
  unfold tuAttentionValidateDesc at h
  simp only [Bool.and_eq_true, Bool.not_eq_true', Bool.or_eq_false_iff, beq_eq_false_iff_ne] at h
  exact ⟨toNat_pos h.1.1.1.1.1.1, toNat_pos h.1.1.1.1.1.2⟩

/-- **Staging.**  In an admitted computation the areas of every tile are pairwise disjoint and inside their scratchpads,
and the dimensions survive the dispatcher exactly if the dimension of a head and the sides of the first tile have 16
bits. -/
theorem tilesStaged_iff [DecidableEq F] {fp : FloatOps F} (hvalid : tuAttentionValidateDesc fp desc = true)
    (hplan : attentionPlan fp cfg desc = some plan) :
    TilesStaged cfg desc plan ↔ desc.headDim.toNat < 2 ^ 16 ∧ min desc.tileM.toNat desc.seqLenQ.toNat < 2 ^ 16 ∧
      min desc.tileN.toNat desc.seqLenKv.toNat < 2 ^ 16 := by
  have hfits := attentionPlan_fits hplan
  obtain ⟨htileM, htileN⟩ := attentionPlan_tiles hplan
  obtain ⟨hM, hN⟩ := validated_lengths hvalid
  have hM' := desc.seqLenQ.toNat_lt
  have hN' := desc.seqLenKv.toNat_lt
  have hltM : plan.tileM < 2 ^ 32 := by
    have := desc.tileM.toNat_lt
    omega
  have hltN : plan.tileN < 2 ^ 32 := by
    have := desc.tileN.toNat_lt
    omega
  constructor
  · intro h
    have hfirst := (h 0 0 (.start hM) (.start hN)).scores
    rw [WrapLoop.tileCount_zero hltM, WrapLoop.tileCount_zero hltN] at hfirst
    obtain ⟨hrows, hcols, hdim⟩ := narrows_iff.1 hfirst
    omega
  · rintro ⟨hdim, hrows, hcols⟩ qi kvi hqi hkvi
    have hq := hqi.tileCount_le hltM hM'
    have hkv := hkvi.tileCount_le hltN hN'
    have hqm := hq.trans (Nat.min_le_left _ _)
    have hkvn := hkv.trans (Nat.min_le_left _ _)
    exact ⟨output_laid hfits hqm hkvn, weights_laid hfits hkvn, queries_laid hfits hqm,
      narrows_iff.2 ⟨by omega, by omega, hdim⟩, narrows_iff.2 ⟨by omega, hdim, by omega⟩⟩

/-! ### Five queries and three keys -/

/-- Scratchpads of one mebibyte. -/
def mebibyteConfig : AttentionConfig where
  sramWSize := 0x100000
  sramASize := 0x100000
  sramOSize := 0x100000
  peRows := 16
  peCols := 16
  peRows_ne := by decide
  peCols_ne := by decide

/-- Five queries and three keys in tiles of two by two. -/
noncomputable def raggedDesc (headDim : UInt32) : TuAttentionDesc EReal where
  q _ := 0
  k _ := 0
  v _ := 0
  batchSize := 1
  numHeads := 1
  seqLenQ := 5
  seqLenKv := 3
  headDim := headDim
  softmaxScale := 1
  maskType := .causal
  mask := none
  maskFill := -1
  tileM := 2
  tileN := 2

theorem raggedDesc_valid {headDim : UInt32} (h : headDim ≠ 0) :
    tuAttentionValidateDesc (exactReals 0) (raggedDesc headDim) = true := by
  have hfinite : (1 : EReal) ≠ ⊥ ∧ (1 : EReal) ≠ ⊤ := ⟨EReal.coe_ne_bot 1, EReal.coe_ne_top 1⟩
  unfold tuAttentionValidateDesc raggedDesc exactReals FloatOps.zero
  simp [h, hfinite]

theorem raggedDesc_plan (headDim : UInt32) {footprint : AttentionFootprint}
    (h : attentionFootprint mebibyteConfig 2 2 headDim.toNat 3 = some footprint) :
    ∃ plan, attentionPlan (exactReals 0) mebibyteConfig (raggedDesc headDim) = some plan :=
  ⟨_, Option.map_eq_some_iff.2 ⟨footprint, h, rfl⟩⟩

/-- Heads of dimension eight. -/
theorem tilesStaged_iff_ragged : ∃ plan, attentionPlan (exactReals 0) mebibyteConfig (raggedDesc 8) = some plan ∧
    (TilesStaged mebibyteConfig (raggedDesc 8) plan ↔
      (8 : UInt32).toNat < 2 ^ 16 ∧ min (2 : UInt32).toNat (5 : UInt32).toNat < 2 ^ 16 ∧
        min (2 : UInt32).toNat (3 : UInt32).toNat < 2 ^ 16) := by
  obtain ⟨plan, hplan⟩ := raggedDesc_plan 8 rfl
  exact ⟨plan, hplan, tilesStaged_iff (raggedDesc_valid (by decide)) hplan⟩

/-- Heads of dimension `2 ^ 16` are admitted, and the dispatcher sees a dimension of zero. -/
theorem not_tilesStaged_wide : tuAttentionValidateDesc (exactReals 0) (raggedDesc 65536) = true ∧
    ∃ plan, attentionPlan (exactReals 0) mebibyteConfig (raggedDesc 65536) = some plan ∧
      (tileTensor 2 65536 2).cols.toUInt16 = 0 ∧ ¬ TilesStaged mebibyteConfig (raggedDesc 65536) plan := by
  obtain ⟨plan, hplan⟩ := raggedDesc_plan 65536 rfl
  refine ⟨raggedDesc_valid (by decide), plan, hplan, by decide, fun h => ?_⟩
  have hfirst := (h 0 0 (.start (by decide)) (.start (by decide))).scores
  have hdim : (65536 : UInt32).toNat < 2 ^ 16 := (narrows_iff.1 hfirst).2.2
  exact absurd hdim (by decide)

end Tusim.Attention
