import Tusim.Attention.KeyLoop
import Tusim.Attention.Staging

/-!
# The loops over the queries and the heads

A query tile fills its rows of the output with the weighted means of the values (`queryTile_exact`).  The rows of all heads
lie one after the other, so the loops fill the output from the front (`tuAttentionExecute_exact`).
-/

namespace Tusim.Attention

open NumberMemory StreamedSoftmax Word

section

variable {cfg : AttentionConfig} {desc : TuAttentionDesc EReal} {plan : AttentionPlan EReal} {Q K V : Nat → ℝ}
  {heads M N d : Nat} {g : EReal}

/-- Accumulators that are real numbers pass the check and are written to their rows of the output. -/
theorem writeBack_exact (hset : Setting desc Q K V heads M N d) (hfits : plan.Fits cfg d N) {h qi qCount : Nat}
    (hh : h < heads) (hqi : qi < M) (hqm : qCount ≤ plan.tileM) {s : AttentionState EReal} {o : Nat → Nat → ℝ}
    (hO : HoldsTable 4 g s.sramO plan.oOff qCount d fun r a => (o r a : EReal)) :
    ∃ output, writeBack (exactReals g) cfg desc plan h qi qCount s = .ok { s with output := output } ∧
      HoldsTable 2 g output (2 * ((h * M + qi) * d)) qCount d (fun r a => (o r a : EReal)) ∧
      ∀ b, b < 2 * ((h * M + qi) * d) ∨ 2 * ((h * M + qi) * d) + 2 * (qCount * d) ≤ b → output b = s.output b := by
  have hsizeO := cfg.sramOSize.toNat_lt
  have hfitO := hfits.sramO
  have hoOff := hfits.oOff_eq
  have hd := hfits.d_pos
  have hrows : qCount * d ≤ plan.tileM * d := Nat.mul_le_mul_right d hqm
  let temp i := tuSramRead (exactReals g) cfg.sramOSize.toNat s.sramO (u32 (plan.oOff + i * 4)) (exactReals g).garbage
  have htemp : ∀ r < qCount, ∀ a < d, temp (r * d + a) = o r a := by
    intro r hr a ha
    have hlt : r * d + a < qCount * d := Digits.mul_add_lt hr ha
    show tuSramRead _ _ _ _ _ = _
    rw [u32_inside hsizeO _ 4 (by omega), tuSramRead_inside _ _ (by omega), Nat.mul_comm _ 4]
    exact hO r hr a ha
  have hfinite : (List.range (qCount * d)).all (fun i => (exactReals g).isfinite (temp i)) = true := by
    rw [List.all_eq_true]
    intro i hi
    rw [List.mem_range] at hi
    have hcell := htemp (i / d) (Nat.div_lt_of_lt_mul (by rwa [Nat.mul_comm])) (i % d) (Nat.mod_lt i hd)
    rw [Nat.div_add_mod'] at hcell
    rw [hcell]
    show decide ((o (i / d) (i % d) : EReal) ≠ ⊥ ∧ (o (i / d) (i % d) : EReal) ≠ ⊤) = true
    rw [decide_eq_true_eq]
    exact ⟨EReal.coe_ne_bot _, EReal.coe_ne_top _⟩
  have hstored : ∀ (bytes b dst : Nat), b < dst ∨ dst + bytes ≤ b →
      tuDmaStore cfg.sramOSize.toNat s.sramO plan.oOff s.output dst bytes b = s.output b := by
    intro bytes b dst hb
    unfold tuDmaStore
    split
    · rfl
    · exact Blocks.memcpy_outside hb
  unfold writeBack
  dsimp only
  rw [hset.seqLenQ, hset.headDim, hostOffset hset.q_lt hh hqi, u32_of_lt (show qCount * d < 2 ^ 32 by omega),
    if_pos hfinite, Nat.mul_comm (qCount * d) 2, memcpy_encode (by omega), u32_of_lt (by omega)]
  refine ⟨_, rfl, ?_, ?_⟩
  · exact (HoldsTable.of_fill (by omega) _ _ _ _ _).congr htemp
  · intro b hb
    rw [fill_outside hb, hstored _ _ _ hb]

/-- The extent of a tile of queries. -/
theorem qCount_eq (hfits : plan.Fits cfg d N) (hM : M < 2 ^ 16) {qi : Nat} (hqi : qi < M) :
    (if u32 (qi + plan.tileM) ≤ M then plan.tileM else M - qi) = min plan.tileM (M - qi) := by
  have hsizeA := cfg.sramASize.toNat_lt
  have hfit := hfits.sramA
  have hle := hfits.tileM_le
  rw [u32_of_lt (by omega)]
  split <;> omega

variable (hset : Setting desc Q K V heads M N d) (hfits : plan.Fits cfg d N)
  (hcustom : desc.maskType = .custom → desc.mask.isSome) {scale : ℝ} (hscale : plan.scale = (scale : EReal)) {fuel : Nat}
  (hfuel : 2 ^ 16 ≤ fuel)
include hset hfits hcustom hscale hfuel

/-- A query tile fills its rows of the output. -/
theorem queryTile_exact {h qi : Nat} (hh : h < heads) (hqi : qi < M) {kept : Nat → Nat → Prop}
    (hsep : ∀ i < M, Separated cutoff (scores desc plan Q K scale M N d h i) N (kept i))
    (hsome : ∀ i < M, ∃ j < N, kept i j) (s : AttentionState EReal) :
    ∃ s', queryTile (exactReals g) cfg desc plan fuel h qi s = some (.ok s') ∧
      HoldsTable 2 g s'.output (2 * ((h * M + qi) * d)) (min plan.tileM (M - qi)) d (fun r a =>
        (weightedMean (scores desc plan Q K scale M N d h (qi + r)) (values V N d h a) N : EReal)) ∧
      ∀ b, b < 2 * ((h * M + qi) * d) ∨ 2 * ((h * M + qi) * d) + 2 * (min plan.tileM (M - qi) * d) ≤ b →
        s'.output b = s.output b := by
  have hsizeO := cfg.sramOSize.toNat_lt
  have hsizeA := cfg.sramASize.toNat_lt
  have hfitO := hfits.sramO
  have hfitA := hfits.sramA
  have hoOff := hfits.oOff_eq
  have htm := hfits.tileM_pos
  obtain ⟨m, hm⟩ : ∃ m, m = min plan.tileM (M - qi) := ⟨_, rfl⟩
  have hrows : m * d ≤ plan.tileM * d := Nat.mul_le_mul_right d (by omega)
  obtain ⟨hQ, -⟩ := tuDmaLoad_table (g := g) hsizeA hset.q_lt hh hqi (show 2 * (m * d) ≤ cfg.sramASize.toNat by omega)
    hset.q s.sramA
  generalize hsramA : tuDmaLoad cfg.sramASize.toNat s.sramA 0 desc.q (u32 (h * u32 (M * d)) + u32 (qi * d))
    (u32 (m * d * 2)) = sramA at hQ
  have hfill : sramFill cfg.sramOSize.toNat s.sramO plan.oOff (m * d) (exactReals g).zero =
      fill 4 s.sramO plan.oOff (fun _ => (exactReals g).zero) (m * d) := sramFill_eq hsizeO s.sramO (by omega) _
  have hzero : HoldsTable 4 g (fill 4 s.sramO plan.oOff (fun _ => (exactReals g).zero) (m * d)) plan.oOff m d
      fun _ _ => ((0 : ℝ) : EReal) := by
    apply (HoldsTable.of_fill (by omega) _ _ _ _ _).congr
    intro r _ a _
    rw [exactReals_zero, EReal.coe_zero]
  generalize fill 4 s.sramO plan.oOff (fun _ => (exactReals g).zero) (m * d) = mem at hfill hzero
  obtain ⟨sramO, hsramO⟩ : ∃ sramO, sramO = if plan.streaming then
      (List.range m).foldl (fun mem r =>
        tuSramWrite cfg.sramOSize.toNat
          (tuSramWrite cfg.sramOSize.toNat mem (u32 (plan.maxOff + r * 4)) (exactReals g).negInfinity)
          (u32 (plan.sumOff + r * 4)) (exactReals g).zero) mem
    else mem := ⟨_, rfl⟩
  have hinit : plan.streaming = true → Streamed plan g (fun r => scores desc plan Q K scale M N d h (qi + r))
      (fun a => values V N d h a) m d 0 sramO := by
    intro hs
    rw [hsramO, if_pos hs]
    exact initRows_exact hfits hs (by omega) hzero
  have hO : HoldsTable 4 g sramO plan.oOff m d fun _ _ => ((0 : ℝ) : EReal) := by
    cases hs : plan.streaming with
    | true =>
      apply (hinit hs).out.congr
      intro r _ a _
      unfold part
      rw [Finset.range_zero, Finset.sum_empty]
    | false =>
      rw [hsramO, hs, if_neg Bool.false_ne_true]
      exact hzero
  have hquery : qi + m ≤ M := by omega
  obtain ⟨s₁, hloop, hout, hmean⟩ := keyLoop_exact hset hfits hcustom hscale hfuel hh hquery (show m ≤ plan.tileM by omega)
    (by omega) (fun r => kept (qi + r)) (fun r hr => hsep _ (by omega)) (fun r hr => hsome _ (by omega))
    (s := { s with sramA := sramA, sramO := sramO }) hQ hO hinit
  obtain ⟨s₂, hs₂⟩ : ∃ s₂, s₂ = { s₁ with
      sramO := if plan.streaming then divideRows (exactReals g) cfg desc plan m s₁.sramO else s₁.sramO } := ⟨_, rfl⟩
  have hmean₂ : HoldsTable 4 g s₂.sramO plan.oOff m d fun r a =>
      (weightedMean (scores desc plan Q K scale M N d h (qi + r)) (values V N d h a) N : EReal) := by
    rw [hs₂]
    exact hmean
  have hout₂ : s₂.output = s.output := by
    rw [hs₂]
    exact hout
  obtain ⟨output, hwrite, htable, hkept⟩ := writeBack_exact hset hfits hh hqi (show m ≤ plan.tileM by omega) hmean₂
  rw [← hm]
  refine ⟨{ s₂ with output := output }, ?_, htable, fun b hb => (hkept b hb).trans (congrFun hout₂ b)⟩
  unfold queryTile
  dsimp only
  rw [hset.seqLenQ, hset.seqLenKv, hset.headDim, qCount_eq hfits hset.M_lt hqi, ← hm, hsramA,
    u32_of_lt (show m * d < 2 ^ 32 by omega), hfill, ← hsramO, hloop, Option.map_some]
  rw [← hwrite, hs₂]

/-- The query tiles of a head fill its rows of the output. -/
theorem queryLoop_exact {h : Nat} (hh : h < heads) {kept : Nat → Nat → Prop}
    (hsep : ∀ i < M, Separated cutoff (scores desc plan Q K scale M N d h i) N (kept i))
    (hsome : ∀ i < M, ∃ j < N, kept i j) {table : Nat → Nat → EReal}
    (htable : ∀ i < M, ∀ a, table (h * M + i) a =
      (weightedMean (scores desc plan Q K scale M N d h i) (values V N d h a) N : EReal)) {s : AttentionState EReal}
    (hs : HoldsTable 2 g s.output 0 (h * M) d table) :
    ∃ s', WrapLoop.loop M plan.tileM (2 ^ 32)
        (fun qi => unlessReturned (queryTile (exactReals g) cfg desc plan fuel h qi)) fuel 0 (.ok s) = some (.ok s') ∧
      HoldsTable 2 g s'.output 0 ((h + 1) * M) d table ∧
      ∀ b, 2 * (heads * (M * d)) ≤ b → s'.output b = s.output b := by
  have hM := hset.M_lt
  have hsizeA := cfg.sramASize.toNat_lt
  have hfitA := hfits.sramA
  have hle := hfits.tileM_le
  have hhead : (h + 1) * (M * d) ≤ heads * (M * d) := Nat.mul_le_mul_right _ hh
  obtain ⟨s', hloop, hrows, hframe⟩ := loop_unlessReturned hfits.tileM_pos (show M + plan.tileM ≤ 2 ^ 32 by omega)
    (show M < fuel by omega) (queryTile (exactReals g) cfg desc plan fuel h) (s := s)
    (P := fun qi t => HoldsTable 2 g t.output 0 (h * M + qi) d table ∧
      ∀ b, 2 * (heads * (M * d)) ≤ b → t.output b = s.output b) (by
        rintro qi t hqi ⟨hrows, hframe⟩
        obtain ⟨t', hrun, htile, hkept⟩ := queryTile_exact hset hfits hcustom hscale hfuel hh hqi hsep hsome t
        obtain ⟨m, hm⟩ : ∃ m, m = min plan.tileM (M - qi) := ⟨_, rfl⟩
        rw [← hm] at htile hkept
        have hend : (h * M + qi) * d + m * d ≤ (h + 1) * (M * d) := by
          rw [← Nat.add_mul, ← Nat.mul_assoc]
          exact Nat.mul_le_mul_right d (by rw [Nat.succ_mul]; omega)
        refine ⟨t', hrun, ?_, fun b hb => (hkept b (.inr (by omega))).trans (hframe b hb)⟩
        have hnext : h * M + min (qi + plan.tileM) M = h * M + qi + m := by omega
        rw [hnext]
        refine hrows.append (by decide) (fun b hb => hkept b (.inl (by omega))) ?_
        rw [Nat.zero_add]
        apply htile.congr
        intro r hr a _
        rw [Nat.add_assoc, htable (qi + r) (by omega)])
    ⟨hs, fun _ _ => rfl⟩
  refine ⟨s', hloop, ?_, hframe⟩
  rw [Nat.succ_mul]
  exact hrows

end

/-! ### The whole call -/

section

variable {cfg : AttentionConfig} {desc : TuAttentionDesc EReal} {Q K V : Nat → ℝ} {heads M N d : Nat} {g : EReal}

/-- The scale of the scores; one over the root of the dimension unless the descriptor gives one. -/
noncomputable def exactScale (desc : TuAttentionDesc EReal) : ℝ :=
  if desc.softmaxScale ≤ 0 then 1 / Real.sqrt desc.headDim.toNat else desc.softmaxScale.toReal

/-- What masks a key under a causal mask. -/
noncomputable def exactFill (desc : TuAttentionDesc EReal) : EReal :=
  if desc.maskFill = 0 then ((-1000000000 : ℝ) : EReal) else desc.maskFill

/-- Softmax attention: the mean of the values of a column, weighted with the exponentials of the scores of the keys that
count. -/
noncomputable def attention (desc : TuAttentionDesc EReal) (Q K V : Nat → ℝ) (M N d : Nat) (kept : Nat → Prop)
    [DecidablePred kept] (h i a : Nat) : ℝ :=
  let x j := (score desc (exactFill desc) Q K (exactScale desc) M N d h i j).toReal
  (∑ j ∈ Finset.range N with kept j, Real.exp (x j) * V ((h * N + j) * d + a)) / ∑ j ∈ Finset.range N with kept j, Real.exp (x j)

theorem attentionPlan_exact {plan : AttentionPlan EReal} (hvalid : tuAttentionValidateDesc (exactReals g) desc = true)
    (hplan : attentionPlan (exactReals g) cfg desc = some plan) :
    plan.scale = (exactScale desc : EReal) ∧ plan.maskFill = exactFill desc ∧
      (desc.maskType = .custom → desc.mask.isSome) := by
  unfold tuAttentionValidateDesc at hvalid
  simp only [Bool.and_eq_true, Bool.not_eq_true', Bool.or_eq_false_iff, Bool.and_eq_false_iff] at hvalid
  obtain ⟨⟨⟨-, hfinite, -⟩, hmask⟩, -⟩ := hvalid
  have hfinite : desc.softmaxScale ≠ ⊥ ∧ desc.softmaxScale ≠ ⊤ := by simpa [exactReals] using hfinite
  unfold attentionPlan at hplan
  obtain ⟨footprint, -, rfl⟩ := Option.map_eq_some_iff.1 hplan
  refine ⟨?_, ?_, fun htype => ?_⟩
  · have hle : (exactReals g).le desc.softmaxScale (exactReals g).zero = decide (desc.softmaxScale ≤ 0) := by
      rw [exactReals_zero]
      simp [FloatOps.le, exactReals, le_iff_lt_or_eq]
    have hroot : (exactReals g).div (exactReals g).one ((exactReals g).sqrtf ((exactReals g).ofNat desc.headDim.toNat)) =
        ((1 / Real.sqrt desc.headDim.toNat : ℝ) : EReal) := by
      rw [exactReals_one]
      have hnat : ((desc.headDim.toNat : EReal)).toReal = desc.headDim.toNat := EReal.toReal_coe _
      simp [exactReals, FloatOps.ofNat, hnat, EReal.coe_inv]
    dsimp only
    rw [hle, hroot]
    unfold exactScale
    by_cases hpos : desc.softmaxScale ≤ 0
    · simp [hpos]
    · simp [hpos, EReal.coe_toReal hfinite.2 hfinite.1]
  · dsimp only
    rw [exactReals_zero]
    simp [exactFill, exactReals]
  · rcases hmask with hmask | hmask
    · simp [htype] at hmask
    · simpa using hmask

/-- In exact arithmetic an admitted call writes softmax attention for every head and every query, whatever its tiles are. -/
theorem tuAttentionExecute_exact (hset : Setting desc Q K V heads M N d)
    (hvalid : tuAttentionValidateDesc (exactReals g) desc = true) (hadmitted : (attentionPlan (exactReals g) cfg desc).isSome)
    (kept : Nat → Nat → Nat → Prop) [∀ h i, DecidablePred (kept h i)]
    (hsep : ∀ h < heads, ∀ i < M,
      Separated cutoff (score desc (exactFill desc) Q K (exactScale desc) M N d h i) N (kept h i))
    (hsome : ∀ h < heads, ∀ i < M, ∃ j < N, kept h i j) {fuel : Nat} (hfuel : 2 ^ 16 ≤ fuel) (s : AttentionState EReal) :
    ∃ s', tuAttentionExecute (exactReals g) cfg desc fuel s = some (0, s') ∧
      (∀ h < heads, ∀ i < M, ∀ a < d, load 2 g s'.output (2 * ((h * M + i) * d + a)) =
        (attention desc Q K V M N d (kept h i) h i a : EReal)) ∧
      ∀ b, 2 * (heads * (M * d)) ≤ b → s'.output b = s.output b := by
  obtain ⟨plan, hplan⟩ := Option.isSome_iff_exists.1 hadmitted
  obtain ⟨hscale, hfill, hcustom⟩ := attentionPlan_exact hvalid hplan
  have hfits : plan.Fits cfg d N := by
    have hfits := attentionPlan_fits hplan
    rwa [hset.headDim, hset.seqLenKv] at hfits
  have hscores : ∀ h i, scores desc plan Q K (exactScale desc) M N d h i =
      score desc (exactFill desc) Q K (exactScale desc) M N d h i := by
    intro h i
    unfold scores
    rw [hfill]
  obtain ⟨table, htable⟩ : ∃ table : Nat → Nat → EReal, ∀ h i a, i < M → table (h * M + i) a =
      (weightedMean (scores desc plan Q K (exactScale desc) M N d h i) (values V N d h a) N : EReal) := by
    refine ⟨fun r a => (weightedMean (scores desc plan Q K (exactScale desc) M N d (r / M) (r % M))
      (values V N d (r / M) a) N : EReal), fun h i a hi => ?_⟩
    dsimp only
    rw [Nat.add_comm, Nat.add_mul_div_right _ _ (by omega), Nat.div_eq_of_lt hi, Nat.zero_add, Nat.add_mul_mod_self_right,
      Nat.mod_eq_of_lt hi]
  obtain ⟨r, hrun, s', rfl, hrows, hframe⟩ := @WrapLoop.foldlM_range_rec _ heads
    (fun s h => unlessReturned (fun s => WrapLoop.loop M plan.tileM (2 ^ 32)
      (fun qi => unlessReturned (queryTile (exactReals g) cfg desc plan fuel h qi)) fuel 0 (.ok s)) s)
    (fun h r => ∃ t, r = .ok t ∧ HoldsTable 2 g t.output 0 (h * M) d table ∧
      ∀ b, 2 * (heads * (M * d)) ≤ b → t.output b = s.output b)
    (by
      rintro h _ hh ⟨t, rfl, hrows, hframe⟩
      obtain ⟨t', hloop, hrows', hframe'⟩ := queryLoop_exact hset hfits hcustom hscale hfuel hh
        (fun i hi => (hscores h i).symm ▸ hsep h hh i hi) (hsome h hh) (fun i hi a => htable h i a hi) hrows
      exact ⟨.ok t', hloop, t', rfl, hrows', fun b hb => (hframe' b hb).trans (hframe b hb)⟩)
    (.ok s) ⟨s, rfl, fun r hr => absurd hr (by omega), fun _ _ => rfl⟩
  refine ⟨s', ?_, ?_, hframe⟩
  · unfold tuAttentionExecute
    rw [hvalid, hplan, hset.headCount, u32_of_lt hset.heads_lt, hset.seqLenQ]
    dsimp only
    rw [Bool.not_true, if_neg Bool.false_ne_true, hrun]
    rfl
  · intro h hh i hi a ha
    have hrow : h * M + i < heads * M := Digits.mul_add_lt hh hi
    have hcell := hrows (h * M + i) hrow a ha
    rw [Nat.zero_add, htable h i a hi, hscores] at hcell
    rw [hcell]
    unfold weightedMean attention
    rw [((hsep h hh i hi).part_div cutoff_nonneg (hsome h hh i hi) (values V N d h a)).2]
    rfl

end

/-- Ragged tiles under a causal mask: a mean of ones is one. -/
theorem tuAttentionExecute_exact_ragged :
    let s : AttentionState EReal :=
      { sramW := fun _ => ⟨2, 0, 0⟩, sramA := fun _ => ⟨2, 0, 0⟩, sramO := fun _ => ⟨4, 0, 0⟩, plugin := { id := .outputStationary }
        output := fun _ => ⟨2, 0, 0⟩ }
    ∃ s', tuAttentionExecute (exactReals 0) mebibyteConfig { raggedDesc 8 with v := fun _ => 1 } (2 ^ 16) s = some (0, s') ∧
      ∀ i < 5, ∀ a < 8, load 2 0 s'.output (2 * (i * 8 + a)) = 1 := by
  intro s
  obtain ⟨desc, hdesc⟩ : ∃ desc, desc = { raggedDesc 8 with v := fun _ => 1 } := ⟨_, rfl⟩
  have hset : Setting desc (fun _ => 0) (fun _ => 0) (fun _ => 1) 1 5 3 8 := by
    subst hdesc
    constructor <;> first | rfl | decide
  have hfill : exactFill desc = ((-1 : ℝ) : EReal) := by
    subst hdesc
    simp [exactFill, raggedDesc]
  have hscore : ∀ i j, score desc (exactFill desc) (fun _ => 0) (fun _ => 0) (exactScale desc) 5 3 8 0 i j =
      ((if j > i then -1 else 0 : ℝ) : EReal) := by
    intro i j
    rw [hfill]
    subst hdesc
    by_cases hj : j > i <;> simp [score, maskTerm, raggedDesc, hj]
  have hsep : ∀ h < 1, ∀ i < 5,
      Separated cutoff (score desc (exactFill desc) (fun _ => 0) (fun _ => 0) (exactScale desc) 5 3 8 h i) 3 fun _ => True := by
    intro h hh i _
    obtain rfl : h = 0 := by omega
    refine ⟨fun j _ _ => ?_, fun j _ k _ _ _ => ?_, fun _ _ _ _ _ hk => absurd trivial hk,
      fun _ _ hnone j hj => absurd trivial (hnone j hj)⟩
    · rw [hscore]
      exact ⟨EReal.coe_ne_bot _, EReal.coe_ne_top _⟩
    · rw [hscore, hscore, ← EReal.coe_add, EReal.coe_le_coe_iff]
      unfold cutoff
      split_ifs <;> norm_num
  have hplan : (attentionPlan (exactReals 0) mebibyteConfig desc).isSome := by
    obtain ⟨plan, hplan⟩ := raggedDesc_plan 8 rfl
    rw [hdesc]
    exact Option.isSome_iff_exists.2 ⟨_, hplan⟩
  rw [← hdesc]
  obtain ⟨s', hrun, hout, -⟩ := tuAttentionExecute_exact hset (hdesc ▸ raggedDesc_valid (by decide)) hplan
    (fun _ _ _ => True) hsep (fun _ _ _ _ => ⟨0, by decide, trivial⟩) (Nat.le_refl (2 ^ 16)) s
  refine ⟨s', hrun, fun i hi a ha => ?_⟩
  have hcell := hout 0 Nat.one_pos i hi a ha
  rw [Nat.zero_mul, Nat.zero_add] at hcell
  rw [hcell]
  unfold attention
  simp only [Finset.filter_true, mul_one]
  rw [div_self (ne_of_gt (Finset.sum_pos (fun j _ => Real.exp_pos _) ⟨0, by decide⟩)), EReal.coe_one]

end Tusim.Attention
