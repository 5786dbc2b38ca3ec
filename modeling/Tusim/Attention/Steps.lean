import Tusim.Attention.Tiles

/-!
# The steps of a tile

An admitted tile fits its scratchpads (`attentionPlan_fits`).  Step by step, in exact arithmetic: a tile of queries and a
tile of keys leave their masked scores (`scoreTile_exact`), and a tile of weights and a tile of values add their product
to the accumulators (`valueTile_exact`).  The areas that a step does not use keep their bytes.
-/

namespace Tusim.Attention

open NumberMemory StreamedSoftmax Word

/-! ### Admitted tiles -/

/-- What `attention_footprint` admits for heads of dimension `d` and `n` keys. -/
structure AttentionPlan.Fits {F : Type} (plan : AttentionPlan F) (cfg : AttentionConfig) (d n : Nat) : Prop where
  tileM_pos : 0 < plan.tileM
  tileN_pos : 0 < plan.tileN
  d_pos : 0 < d
  n_pos : 0 < n
  kBytes : plan.footprint.kBytes = 2 * (plan.tileN * d)
  sBytes : plan.footprint.sBytes = 4 * (plan.tileM * plan.tileN)
  oBytes : plan.footprint.oBytes = 4 * (plan.tileM * d)
  sramA : 2 * (plan.tileM * d) ≤ cfg.sramASize.toNat
  sramW : 4 * (plan.tileN * d) ≤ cfg.sramWSize.toNat
  sramO : 8 * (plan.tileM * plan.tileN) + 4 * (plan.tileM * d) + (if plan.streaming then 8 * plan.tileM else 0) ≤
    cfg.sramOSize.toNat
  streaming : plan.streaming = true ↔ plan.tileN < n

section

variable {F : Type} {cfg : AttentionConfig} {desc : TuAttentionDesc F} {plan : AttentionPlan F}

theorem attentionFootprint_some {tm tn dim n : Nat} {footprint : AttentionFootprint}
    (h : attentionFootprint cfg tm tn dim n = some footprint) :
    (0 < tm ∧ 0 < tn ∧ 0 < dim ∧ 0 < n) ∧ 2 * (tm * dim) ≤ cfg.sramASize.toNat ∧ 4 * (tn * dim) ≤ cfg.sramWSize.toNat ∧
      8 * (tm * tn) + 4 * (tm * dim) + (if tn < n then 8 * tm else 0) ≤ cfg.sramOSize.toNat ∧
      footprint = { qBytes := tm * dim * 2, kBytes := tn * dim * 2, sBytes := tm * tn * 4, oBytes := tm * dim * 4 } := by
  unfold attentionFootprint at h
  split at h
  · cases h
  rename_i hpos
  dsimp only at h
  split at h
  · cases h
  rename_i hfit
  simp only [not_or] at hpos hfit
  have hstate : (if tn < n then tm * 2 * 4 else 0) = if tn < n then 8 * tm else 0 := by
    split <;> omega
  rw [hstate] at h
  generalize (if tn < n then 8 * tm else 0) = state at h ⊢
  split at h
  · cases h
  rename_i htotal
  cases h
  exact ⟨by omega, by omega, by omega, by omega, rfl⟩

theorem attentionPlan_fits {fp : FloatOps F} (h : attentionPlan fp cfg desc = some plan) :
    plan.Fits cfg desc.headDim.toNat desc.seqLenKv.toNat := by
  unfold attentionPlan at h
  dsimp only at h
  generalize (if desc.tileM.toNat = 0 then if tuPeRows > desc.seqLenQ.toNat then desc.seqLenQ.toNat else tuPeRows
    else desc.tileM.toNat) = tileM at h
  generalize (if desc.tileN.toNat = 0 then if tuPeCols > desc.seqLenKv.toNat then desc.seqLenKv.toNat else tuPeCols
    else desc.tileN.toNat) = tileN at h
  obtain ⟨footprint, hfootprint, rfl⟩ := Option.map_eq_some_iff.1 h
  obtain ⟨⟨htm, htn, hd, hn⟩, ha, hw, ho, rfl⟩ := attentionFootprint_some hfootprint
  refine ⟨htm, htn, hd, hn, by dsimp only; omega, by dsimp only; omega, by dsimp only; omega, ha, hw, ?_, by simp⟩
  simpa using ho

namespace AttentionPlan.Fits

variable {d n : Nat} (hfits : plan.Fits cfg d n)
include hfits

theorem oOff_eq : plan.oOff = 4 * (plan.tileM * plan.tileN) := hfits.sBytes

theorem maskOff_eq : plan.maskOff = plan.oOff + 4 * (plan.tileM * d) := by
  have hsize := cfg.sramOSize.toNat_lt
  have hfit := hfits.sramO
  unfold maskOff
  rw [hfits.oBytes, hfits.oOff_eq, u32_of_lt (by omega)]

theorem maxOff_eq : plan.maxOff = plan.maskOff + 4 * (plan.tileM * plan.tileN) := by
  have hsize := cfg.sramOSize.toNat_lt
  have hfit := hfits.sramO
  unfold maxOff
  rw [hfits.maskOff_eq, hfits.sBytes, hfits.oOff_eq, u32_of_lt (by omega)]

theorem sumOff_eq (hs : plan.streaming = true) : plan.sumOff = plan.maxOff + 4 * plan.tileM := by
  have hsize := cfg.sramOSize.toNat_lt
  have hfit := hfits.sramO
  rw [hs, if_pos rfl] at hfit
  unfold sumOff
  rw [hs, if_pos rfl, hfits.maxOff_eq, hfits.maskOff_eq, hfits.oOff_eq, u32_of_lt (by omega)]
  omega

/-- The areas of a streamed tile do not meet, also at the ragged ends of the sequences. -/
theorem areas_apart (hs : plan.streaming = true) {rows cols : Nat} (hrows : rows ≤ plan.tileM) (hcols : cols ≤ plan.tileN) :
    plan.areas.Apart cfg.sramOSize.toNat rows cols d := by
  have hfit := hfits.sramO
  rw [hs, if_pos rfl] at hfit
  have hscores : rows * cols ≤ plan.tileM * plan.tileN := Nat.mul_le_mul hrows hcols
  have hout : rows * d ≤ plan.tileM * d := Nat.mul_le_mul_right d hrows
  have hoOff := hfits.oOff_eq
  have hmaskOff := hfits.maskOff_eq
  have hmaxOff := hfits.maxOff_eq
  have hsumOff := hfits.sumOff_eq hs
  unfold areas
  constructor <;> dsimp only <;> omega

theorem tileN_le : plan.tileN ≤ plan.tileN * d := Nat.le_mul_of_pos_right _ hfits.d_pos

theorem tileM_le : plan.tileM ≤ plan.tileM * d := Nat.le_mul_of_pos_right _ hfits.d_pos

end AttentionPlan.Fits

end

/-! ### Operands -/

/-- The tensors of a descriptor are real, and its dimensions have 16 bits and its tensors 32. -/
structure Setting (desc : TuAttentionDesc EReal) (Q K V : Nat → ℝ) (heads M N d : Nat) : Prop where
  q : desc.q = fun i => (Q i : EReal)
  k : desc.k = fun i => (K i : EReal)
  v : desc.v = fun i => (V i : EReal)
  seqLenQ : desc.seqLenQ.toNat = M
  seqLenKv : desc.seqLenKv.toNat = N
  headDim : desc.headDim.toNat = d
  headCount : desc.batchSize.toNat * desc.numHeads.toNat = heads
  heads_lt : heads < 2 ^ 32
  M_lt : M < 2 ^ 16
  N_lt : N < 2 ^ 16
  d_lt : d < 2 ^ 16
  q_lt : heads * (M * d) < 2 ^ 32
  kv_lt : heads * (N * d) < 2 ^ 32

/-- What the mask adds to the score of key `j` for query `i`. -/
noncomputable def maskTerm (desc : TuAttentionDesc EReal) (fill : EReal) (M N h i j : Nat) : EReal :=
  match desc.maskType with
  | .none => 0
  | .causal => if j > i then fill else 0
  | .custom => desc.mask.elim 0 fun mask => mask ((h * M + i) * N + j)

/-- The scaled and masked score of key `j` for query `i`. -/
noncomputable def score (desc : TuAttentionDesc EReal) (fill : EReal) (Q K : Nat → ℝ) (scale : ℝ) (M N d h i j : Nat) :
    EReal :=
  (((∑ t ∈ Finset.range d, Q ((h * M + i) * d + t) * K ((h * N + j) * d + t)) * scale : ℝ) : EReal) +
    maskTerm desc fill M N h i j

section

variable {cfg : AttentionConfig} {desc : TuAttentionDesc EReal} {plan : AttentionPlan EReal} {Q K V : Nat → ℝ}
  {heads M N d : Nat} {g : EReal}

/-- The offset of row `i` of head `h` in a tensor of `n` rows. -/
theorem hostOffset {n h i : Nat} (htotal : heads * (n * d) < 2 ^ 32) (hh : h < heads) (hi : i < n) :
    u32 (h * u32 (n * d)) + u32 (i * d) = (h * n + i) * d := by
  have hhead : (h + 1) * (n * d) ≤ heads * (n * d) := Nat.mul_le_mul_right _ hh
  rw [Nat.succ_mul] at hhead
  have hrow : i * d ≤ n * d := Nat.mul_le_mul_right d hi.le
  have hassoc : h * n * d = h * (n * d) := Nat.mul_assoc h n d
  rw [u32_of_lt (x := n * d) (by omega), u32_of_lt (by omega), u32_of_lt (by omega), Nat.add_mul]
  omega

/-- A tile of rows of a tensor in a scratchpad. -/
theorem tuDmaLoad_table {n h i count size : Nat} (hsize : size < 2 ^ 32) (htotal : heads * (n * d) < 2 ^ 32) (hh : h < heads)
    (hi : i < n) (hfit : 2 * (count * d) ≤ size) {host : Nat → EReal} {T : Nat → ℝ} (hhost : host = fun e => (T e : EReal))
    (mem : Nat → NumByte EReal) :
    HoldsTable 2 g (tuDmaLoad size mem 0 host (u32 (h * u32 (n * d)) + u32 (i * d)) (u32 (count * d * 2))) 0 count d
        (fun r t => (T ((h * n + (i + r)) * d + t) : EReal)) ∧
      ∀ b, 2 * (count * d) ≤ b → tuDmaLoad size mem 0 host (u32 (h * u32 (n * d)) + u32 (i * d)) (u32 (count * d * 2)) b = mem b := by
  rw [hostOffset htotal hh hi, u32_of_lt (show count * d * 2 < 2 ^ 32 by omega), Nat.mul_comm (count * d) 2,
    tuDmaLoad_inside _ (by omega) hsize]
  constructor
  · apply (HoldsTable.of_fill (by omega) _ _ _ _ _).congr
    intro r _ t _
    have helem : (h * n + i) * d + (r * d + t) = (h * n + (i + r)) * d + t := by
      rw [← Nat.add_assoc (h * n), Nat.add_mul (h * n + i) r, Nat.add_assoc]
    rw [hhost, helem]
  · intro b hb
    exact fill_outside (by omega)

theorem maskValue_eq (hset : Setting desc Q K V heads M N d) (hmask : desc.maskType ≠ .none)
    (hcustom : desc.maskType = .custom → desc.mask.isSome) {h i j : Nat} (hh : h < heads) (hi : i < M) (hj : j < N) :
    maskValue (exactReals g) desc plan h i j = maskTerm desc plan.maskFill M N h i j := by
  have hM := hset.M_lt
  have hN := hset.N_lt
  have hheads := hset.heads_lt
  have hrow : h * M + i < heads * M := Digits.mul_add_lt hh hi
  have hcell : (h * M + i) * N + j < heads * M * N := Digits.mul_add_lt hrow hj
  have hrows : heads * M ≤ 2 ^ 32 * 2 ^ 16 := Nat.mul_le_mul hheads.le hM.le
  have hcells : heads * M * N ≤ 2 ^ 32 * 2 ^ 16 * 2 ^ 16 := Nat.mul_le_mul hrows hN.le
  have hmul : (h * M + i) * N ≤ (h * M + i) * N + j := Nat.le_add_right _ _
  unfold maskValue maskTerm
  cases htype : desc.maskType with
  | none => exact absurd htype hmask
  | causal => rw [if_pos rfl, exactReals_zero]
  | custom =>
    obtain ⟨mask, hm⟩ := Option.isSome_iff_exists.1 (hcustom htype)
    rw [if_neg (by decide), hm, hset.seqLenQ, hset.seqLenKv, u64_of_lt (x := h * M) (by omega),
      u64_of_lt (x := h * M + i) (by omega), u64_of_lt (by omega)]
    rfl

/-- Steps 1 to 3: the score area holds the masked scores of the tile. -/
theorem scoreTile_exact (hset : Setting desc Q K V heads M N d) (hfits : plan.Fits cfg d N)
    (hcustom : desc.maskType = .custom → desc.mask.isSome) {scale : ℝ} (hscale : plan.scale = (scale : EReal))
    {h qi qCount : Nat} (kvi kvCount : Nat) (hh : h < heads) (hq : qi + qCount ≤ M) (hqm : qCount ≤ plan.tileM)
    (hkv : kvi + kvCount ≤ N) (hkvn : kvCount ≤ plan.tileN) (hq0 : 0 < qCount) (hkv0 : 0 < kvCount)
    {s : AttentionState EReal}
    (hQ : HoldsTable 2 g s.sramA 0 qCount d fun r t => (Q ((h * M + (qi + r)) * d + t) : EReal)) :
    ∃ s', (∀ fuel, 2 ^ 16 ≤ fuel → scoreTile (exactReals g) cfg desc plan fuel h qi qCount kvi kvCount s = some s') ∧
      s'.sramA = s.sramA ∧ s'.output = s.output ∧
      HoldsTable 4 g s'.sramO 0 qCount kvCount
        (fun r j => score desc plan.maskFill Q K scale M N d h (qi + r) (kvi + j)) ∧
      ∀ b, plan.oOff ≤ b → b < plan.maskOff ∨ plan.maxOff ≤ b → s'.sramO b = s.sramO b := by
  have hsizeO := cfg.sramOSize.toNat_lt
  have hsizeW := cfg.sramWSize.toNat_lt
  have hM := hset.M_lt
  have hN := hset.N_lt
  have hd := hset.d_lt
  have hfitO := hfits.sramO
  have hfitW := hfits.sramW
  have hoOff := hfits.oOff_eq
  have hmaskOff := hfits.maskOff_eq
  have hmaxOff := hfits.maxOff_eq
  have hscores : qCount * kvCount ≤ plan.tileM * plan.tileN := Nat.mul_le_mul hqm hkvn
  have hkeys : kvCount * d ≤ plan.tileN * d := Nat.mul_le_mul_right d hkvn
  have hktOff : plan.ktOff = 2 * (plan.tileN * d) := hfits.kBytes
  have hpos : 0 < qCount * kvCount := Nat.mul_pos hq0 hkv0
  have hcount : u32 (qCount * kvCount) = qCount * kvCount := u32_of_lt (by omega)
  -- the keys and their transpose
  obtain ⟨hK, -⟩ := tuDmaLoad_table (g := g) hsizeW hset.kv_lt hh (show kvi < N by omega)
    (show 2 * (kvCount * d) ≤ cfg.sramWSize.toNat by omega) hset.k s.sramW
  generalize hsramW : tuDmaLoad cfg.sramWSize.toNat s.sramW 0 desc.k (u32 (h * u32 (N * d)) + u32 (kvi * d))
    (u32 (kvCount * d * 2)) = sramW at hK
  obtain ⟨hKT, -⟩ := transposeFp16InSram_table hsizeW sramW (exactReals g) plan.ktOff hK (by omega) (by omega)
  -- the product
  have hzero : sramFill cfg.sramOSize.toNat s.sramO 0 (qCount * kvCount) (exactReals g).zero =
      fill 4 s.sramO 0 (fun _ => (exactReals g).zero) (qCount * kvCount) := sramFill_eq hsizeO _ (by omega) _
  have hO : HoldsTable 4 g (fill 4 s.sramO 0 (fun _ => (exactReals g).zero) (qCount * kvCount)) 0 qCount kvCount
      fun _ _ => ((0 : ℝ) : EReal) := by
    apply (HoldsTable.of_fill (by omega) _ _ _ _ _).congr
    intro r _ j _
    rw [exactReals_zero, EReal.coe_zero]
  obtain ⟨mem, plugin, hrun, hproduct, hframe⟩ := tileMma_exact cfg s.plugin (by omega) (by omega) (by omega) hQ hKT hO
  -- the scaled product
  have hscaled : tuEwMulScalar (exactReals g) cfg.sramOSize.toNat mem 0 (qCount * kvCount) plan.scale =
      fill 4 mem 0 (fun i => load 4 g mem (0 + 4 * i) * (scale : EReal)) (qCount * kvCount) := by
    rw [tuEwMulScalar_inside _ _ hpos (by omega) hsizeO, hscale]
    rfl
  generalize hmem₁ : fill 4 mem 0 (fun i => load 4 g mem (0 + 4 * i) * (scale : EReal)) (qCount * kvCount) = mem₁ at hscaled
  have hT₁ : HoldsTable 4 g mem₁ 0 qCount kvCount fun r j =>
      (((∑ t ∈ Finset.range d, Q ((h * M + (qi + r)) * d + t) * K ((h * N + (kvi + j)) * d + t)) * scale : ℝ) : EReal) := by
    rw [← hmem₁]
    apply (HoldsTable.of_fill (by omega) _ _ _ _ _).congr
    intro r hr j hj
    rw [hproduct r hr j hj]
    dsimp only
    rw [zero_add, EReal.coe_mul]
  have hframe₁ : ∀ b, plan.oOff ≤ b → mem₁ b = s.sramO b := by
    intro b hb
    rw [← hmem₁, fill_outside (by omega), hframe b (by omega), fill_outside (by omega)]
  have hunfold : ∀ fuel, 2 ^ 16 ≤ fuel →
      scoreTile (exactReals g) cfg desc plan fuel h qi qCount kvi kvCount s = some { s with
        sramW := transposeFp16InSram (exactReals g) cfg.sramWSize.toNat sramW 0 plan.ktOff kvCount d
        sramO :=
          if desc.maskType = .none then mem₁
          else
            let mem := (List.range qCount).foldl (fun mem row => (List.range kvCount).foldl (fun mem j =>
              tuSramWrite cfg.sramOSize.toNat mem (u32 (plan.maskOff + (row * kvCount + j) * 4))
                (maskValue (exactReals g) desc plan h (qi + row) (kvi + j))) mem) mem₁
            tuEwAddTensors (exactReals g) mem 0 plan.maskOff (qCount * kvCount)
        plugin := plugin } := by
    intro fuel hfuel
    unfold scoreTile
    dsimp only
    rw [hset.seqLenKv, hset.headDim, hsramW, hcount, hzero, hrun fuel hfuel, Option.map_some]
    dsimp only
    rw [hscaled]
  refine ⟨_, hunfold, rfl, rfl, ?_⟩
  dsimp only
  by_cases hnone : desc.maskType = .none
  · rw [if_pos hnone]
    refine ⟨hT₁.congr ?_, fun b hb _ => hframe₁ b hb⟩
    intro r _ j _
    unfold score maskTerm
    rw [hnone, add_zero]
  · rw [if_neg hnone]
    obtain ⟨hmaskT, hmaskFrame⟩ := maskLoop_table hsizeO mem₁ (exactReals g) plan.maskOff qCount kvCount
      (by omega) fun row j => maskValue (exactReals g) desc plan h (qi + row) (kvi + j)
    generalize (List.range qCount).foldl (fun mem row => (List.range kvCount).foldl (fun mem j =>
      tuSramWrite cfg.sramOSize.toNat mem (u32 (plan.maskOff + (row * kvCount + j) * 4))
        (maskValue (exactReals g) desc plan h (qi + row) (kvi + j))) mem) mem₁ = mem₂ at hmaskT hmaskFrame
    have hT₂ : HoldsTable 4 g mem₂ 0 qCount kvCount _ := hT₁.of_eq (by omega) fun b _ hb => hmaskFrame b (by omega)
    rw [tuEwAddTensors_eq _ _ (by omega)]
    constructor
    · apply (HoldsTable.of_fill (by omega) _ _ _ _ _).congr
      intro r hr j hj
      rw [exactReals_garbage, hT₂ r hr j hj, show load 4 g mem₂ (plan.maskOff + 4 * (r * kvCount + j)) = _ from
        hmaskT r hr j hj]
      dsimp only
      rw [maskValue_eq hset hnone hcustom hh (by omega) (by omega)]
      rfl
    · intro b hb hb'
      rw [fill_outside (by omega), hmaskFrame b (by omega)]
      exact hframe₁ b hb

/-- Steps 5 to 7: weights times values are added to the accumulators; the score area is used up. -/
theorem valueTile_exact (hset : Setting desc Q K V heads M N d) (hfits : plan.Fits cfg d N) {h qCount : Nat}
    (kvi kvCount : Nat) (hh : h < heads) (hqM : qCount ≤ M) (hqm : qCount ≤ plan.tileM) (hkv : kvi + kvCount ≤ N)
    (hkvn : kvCount ≤ plan.tileN) (hkv0 : 0 < kvCount) {s : AttentionState EReal} {p o : Nat → Nat → ℝ}
    (hP : HoldsTable 4 g s.sramO 0 qCount kvCount fun r j => (p r j : EReal))
    (hO : HoldsTable 4 g s.sramO plan.oOff qCount d fun r a => (o r a : EReal)) :
    ∃ s', (∀ fuel, 2 ^ 16 ≤ fuel → valueTile (exactReals g) cfg desc plan fuel h qCount kvi kvCount s = some s') ∧
      s'.sramA = s.sramA ∧ s'.output = s.output ∧
      HoldsTable 4 g s'.sramO plan.oOff qCount d (fun r a =>
        ((o r a + ∑ j ∈ Finset.range kvCount, p r j * V ((h * N + (kvi + j)) * d + a) : ℝ) : EReal)) ∧
      ∀ b, plan.maskOff ≤ b → s'.sramO b = s.sramO b := by
  have hsizeO := cfg.sramOSize.toNat_lt
  have hsizeW := cfg.sramWSize.toNat_lt
  have hM := hset.M_lt
  have hN := hset.N_lt
  have hd := hset.d_lt
  have hfitO := hfits.sramO
  have hfitW := hfits.sramW
  have hoOff := hfits.oOff_eq
  have hmaskOff := hfits.maskOff_eq
  have hscores : qCount * kvCount ≤ plan.tileM * plan.tileN := Nat.mul_le_mul hqm hkvn
  have hkeys : kvCount * d ≤ plan.tileN * d := Nat.mul_le_mul_right d hkvn
  have hrows : qCount * d ≤ plan.tileM * d := Nat.mul_le_mul_right d hqm
  have hcount : u32 (qCount * kvCount) = qCount * kvCount := u32_of_lt (by omega)
  obtain ⟨hV, -⟩ := tuDmaLoad_table (g := g) hsizeW hset.kv_lt hh (show kvi < N by omega)
    (show 2 * (kvCount * d) ≤ cfg.sramWSize.toNat by omega) hset.v s.sramW
  generalize hsramW : tuDmaLoad cfg.sramWSize.toNat s.sramW 0 desc.v (u32 (h * u32 (N * d)) + u32 (kvi * d))
    (u32 (kvCount * d * 2)) = sramW at hV
  have hpack := fp32ToFp16InSram_eq hsizeO s.sramO (exactReals g) 0 (qCount * kvCount) (by omega)
  generalize hmem : fill 2 s.sramO 0 (fun i => load 4 (exactReals g).garbage s.sramO (0 + 4 * i)) (qCount * kvCount) = mem
    at hpack
  have hpacked : HoldsTable 2 g mem 0 qCount kvCount fun r j => (p r j : EReal) := by
    rw [← hmem]
    apply (HoldsTable.of_fill (by omega) _ _ _ _ _).congr
    intro r hr j hj
    exact hP r hr j hj
  have hO' : HoldsTable 4 g mem plan.oOff qCount d fun r a => (o r a : EReal) := by
    rw [← hmem]
    exact hO.of_fill_ne (by omega) (by omega)
  obtain ⟨mem', plugin, hrun, hproduct, hframe⟩ := tileMma_exact cfg s.plugin (by omega) (by omega) (by omega) hpacked hV hO'
  refine ⟨{ s with sramW := sramW, sramO := mem', plugin := plugin }, ?_, rfl, rfl, hproduct, ?_⟩
  · intro fuel hfuel
    unfold valueTile
    dsimp only
    rw [hset.seqLenKv, hset.headDim, hsramW, hcount, hpack, hrun fuel hfuel]
    rfl
  · intro b hb
    dsimp only
    rw [hframe b (by omega), ← hmem, fill_outside (by omega)]

end

end Tusim.Attention
