import Tusim.Attention.Steps

/-!
# The loop over the keys

The invariant of the loop over the key tiles of a query tile.  A streamed query tile keeps, for every row, the largest
score, the sum of the weights and the weighted sums of the values over the keys seen so far (`kvTile_streaming`); a query
tile of whole rows is done after its only key tile (`kvTile_whole`).  Either way the accumulators end with the weighted
means of the values (`keyLoop_exact`).
-/

namespace Tusim.Attention

open NumberMemory StreamedSoftmax Word

/-- The weighted mean of the values under the scores `x`. -/
noncomputable def weightedMean (x : Nat → EReal) (v : Nat → ℝ) (n : Nat) : ℝ :=
  part cutoff x v n / part cutoff x (fun _ => 1) n

/-- Nothing weighs anything as long as there is no largest score. -/
theorem part_of_high_eq_bot {x : Nat → EReal} {c : Nat} (h : high x c = ⊥) (f : Nat → ℝ) : part cutoff x f c = 0 := by
  unfold part weight
  apply Finset.sum_eq_zero
  intro j _
  rw [if_pos (Or.inl h), zero_mul]

section

variable {cfg : AttentionConfig} {desc : TuAttentionDesc EReal} {plan : AttentionPlan EReal} {Q K V : Nat → ℝ}
  {heads M N d : Nat} {g : EReal}

/-- The scores of query `i`. -/
noncomputable def scores (desc : TuAttentionDesc EReal) (plan : AttentionPlan EReal) (Q K : Nat → ℝ) (scale : ℝ)
    (M N d h i : Nat) : Nat → EReal :=
  score desc plan.maskFill Q K scale M N d h i

/-- The values of column `a`. -/
def values (V : Nat → ℝ) (N d h a : Nat) (j : Nat) : ℝ := V ((h * N + j) * d + a)

/-- The state after the keys below `c`, when the tile is streamed. -/
structure Streamed (plan : AttentionPlan EReal) (g : EReal) (x : Nat → Nat → EReal) (v : Nat → Nat → ℝ) (qCount d c : Nat)
    (mem : Nat → NumByte EReal) : Prop where
  max : HoldsTable 4 g mem plan.maxOff qCount 1 fun r _ => high (x r) c
  sum : HoldsTable 4 g mem plan.sumOff qCount 1 fun r _ => (part cutoff (x r) (fun _ => 1) c : EReal)
  out : HoldsTable 4 g mem plan.oOff qCount d fun r a => (part cutoff (x r) (v a) c : EReal)

/-- The extent of a tile of keys. -/
theorem kvCount_eq (hfits : plan.Fits cfg d N) (hN : N < 2 ^ 16) {kvi : Nat} (hkvi : kvi < N) :
    (if u32 (kvi + plan.tileN) ≤ N then plan.tileN else N - kvi) = min plan.tileN (N - kvi) := by
  have hsizeW := cfg.sramWSize.toNat_lt
  have hfit := hfits.sramW
  have hle := hfits.tileN_le
  rw [u32_of_lt (by omega)]
  split <;> omega

/-- A key tile of a streamed query tile. -/
theorem kvTile_streaming (hset : Setting desc Q K V heads M N d) (hfits : plan.Fits cfg d N)
    (hcustom : desc.maskType = .custom → desc.mask.isSome) {scale : ℝ} (hscale : plan.scale = (scale : EReal))
    (hs : plan.streaming = true) {h qi qCount kvi : Nat} (hh : h < heads) (hq : qi + qCount ≤ M) (hqm : qCount ≤ plan.tileM)
    (hq0 : 0 < qCount) (hkvi : kvi < N) {kept : Nat → Nat → Prop}
    (hsep : ∀ r < qCount, Separated cutoff (scores desc plan Q K scale M N d h (qi + r)) N (kept r))
    (htop : ∀ r < qCount, ∀ j < N, scores desc plan Q K scale M N d h (qi + r) j ≠ ⊤) {s : AttentionState EReal}
    (hQ : HoldsTable 2 g s.sramA 0 qCount d fun r t => (Q ((h * M + (qi + r)) * d + t) : EReal))
    (hmem : Streamed plan g (fun r => scores desc plan Q K scale M N d h (qi + r)) (fun a => values V N d h a) qCount d kvi
      s.sramO) :
    ∃ s', (∀ fuel, 2 ^ 16 ≤ fuel → kvTile (exactReals g) cfg desc plan fuel h qi qCount kvi s = some (.ok s')) ∧
      s'.sramA = s.sramA ∧ s'.output = s.output ∧
      Streamed plan g (fun r => scores desc plan Q K scale M N d h (qi + r)) (fun a => values V N d h a) qCount d
        (min (kvi + plan.tileN) N) s'.sramO := by
  have hsizeO := cfg.sramOSize.toNat_lt
  have hN := hset.N_lt
  have hoOff := hfits.oOff_eq
  have hmaskOff := hfits.maskOff_eq
  have hmaxOff := hfits.maxOff_eq
  have hsumOff := hfits.sumOff_eq hs
  have htn := hfits.tileN_pos
  have hrows : qCount * d ≤ plan.tileM * d := Nat.mul_le_mul_right d hqm
  let x r := scores desc plan Q K scale M N d h (qi + r)
  let v a := values V N d h a
  obtain ⟨m, hm⟩ : ∃ m, m = min plan.tileN (N - kvi) := ⟨_, rfl⟩
  have hnext : min (kvi + plan.tileN) N = kvi + m := by omega
  obtain ⟨s₁, hrun₁, hA₁, hout₁, hscore, hframe₁⟩ := scoreTile_exact hset hfits hcustom hscale kvi m hh hq hqm
    (by omega) (by omega) hq0 (by omega) hQ
  -- the scores become weights, and what was there before is rescaled
  have hmax₁ : HoldsTable 4 g s₁.sramO plan.maxOff qCount 1 _ :=
    hmem.max.of_eq (by omega) fun b hb _ => hframe₁ b (by omega) (by omega)
  have hsum₁ : HoldsTable 4 g s₁.sramO plan.sumOff qCount 1 _ :=
    hmem.sum.of_eq (by omega) fun b hb _ => hframe₁ b (by omega) (by omega)
  have hout₁' : HoldsTable 4 g s₁.sramO plan.oOff qCount d _ :=
    hmem.out.of_eq (by omega) fun b hb hb' => hframe₁ b hb (by omega)
  obtain ⟨mem, hnormal, hweights, hmax, hsum, hout⟩ := normalizeAttentionTile_streaming hsizeO
    (hfits.areas_apart hs hqm (show m ≤ plan.tileN by omega)) hscore (fun r hr j hj => htop r hr (kvi + j) (by omega))
    hmax₁ (fun r hr => high_ne_top fun j hj => htop r hr j (by omega)) hsum₁
    (fun r _ hne hbot => hne (part_of_high_eq_bot hbot _)) hout₁'
  obtain ⟨s₃, hrun₃, hA₃, hout₃, hO, hframe₃⟩ := valueTile_exact hset hfits kvi m hh (by omega) hqm (by omega)
    (by omega) (by omega) (s := { s₁ with sramO := mem }) hweights hout
  have hhigh : ∀ r, Max.max (high (x r) kvi) (high (fun j => x r (kvi + j)) m) = high (x r) (kvi + m) :=
    fun r => (high_add (x r) kvi m).symm
  have hpart : ∀ r < qCount, ∀ f, part cutoff (x r) f (kvi + m) =
      (if part cutoff (x r) (fun _ => 1) kvi = 0 then 0
        else Real.exp (high (x r) kvi - high (x r) (kvi + m)).toReal) * part cutoff (x r) f kvi +
        ∑ j ∈ Finset.range m, weight cutoff (high (x r) (kvi + m)) (x r (kvi + j)) * f (kvi + j) :=
    fun r hr f => (hsep r hr).part_add cutoff_nonneg (by omega) f
  refine ⟨s₃, ?_, hA₃.trans hA₁, hout₃.trans hout₁, ?_⟩
  · intro fuel hfuel
    unfold kvTile
    dsimp only
    rw [hset.seqLenKv, kvCount_eq hfits hN hkvi, ← hm, hrun₁ fuel hfuel, Option.bind_some]
    unfold softmaxTile
    rw [hs, Bool.true_or, if_pos rfl, hset.headDim, hnormal]
    dsimp only
    rw [if_pos rfl, hrun₃ fuel hfuel, Option.map_some]
  · rw [hnext]
    constructor
    · have hkept : ∀ b, plan.maxOff ≤ b → b < plan.maxOff + 4 * (qCount * 1) → s₃.sramO b = mem b :=
        fun b hb _ => hframe₃ b (by omega)
      exact (hmax.of_eq (by omega) hkept).congr fun r _ _ _ => hhigh r
    · have hkept : ∀ b, plan.sumOff ≤ b → b < plan.sumOff + 4 * (qCount * 1) → s₃.sramO b = mem b :=
        fun b hb _ => hframe₃ b (by omega)
      apply (hsum.of_eq (by omega) hkept).congr
      intro r hr _ _
      have hstep := hpart r hr fun _ => 1
      simp only [mul_one, ← hhigh r] at hstep
      exact congrArg Real.toEReal hstep.symm
    · apply hO.congr
      intro r hr a _
      have hstep := hpart r hr (v a)
      rw [← hhigh r, mul_comm] at hstep
      exact congrArg Real.toEReal hstep.symm

/-- Weights that are divided by their sum first. -/
theorem sum_div_mul (x : Nat → EReal) (v : Nat → ℝ) (n : Nat) :
    ∑ j ∈ Finset.range n, weight cutoff (high x n) (x j) / (∑ i ∈ Finset.range n, weight cutoff (high x n) (x i)) * v j =
      weightedMean x v n := by
  unfold weightedMean part
  simp only [mul_one]
  rw [Finset.sum_div]
  exact Finset.sum_congr rfl fun j _ => div_mul_eq_mul_div _ _ _

/-- The only key tile of a query tile of whole rows. -/
theorem kvTile_whole (hset : Setting desc Q K V heads M N d) (hfits : plan.Fits cfg d N)
    (hcustom : desc.maskType = .custom → desc.mask.isSome) {scale : ℝ} (hscale : plan.scale = (scale : EReal))
    (hs : plan.streaming = false) {h qi qCount : Nat} (hh : h < heads) (hq : qi + qCount ≤ M) (hqm : qCount ≤ plan.tileM)
    (hq0 : 0 < qCount) (htop : ∀ r < qCount, ∀ j < N, scores desc plan Q K scale M N d h (qi + r) j ≠ ⊤)
    (hbot : ∀ r < qCount, high (scores desc plan Q K scale M N d h (qi + r)) N ≠ ⊥) {s : AttentionState EReal}
    (hQ : HoldsTable 2 g s.sramA 0 qCount d fun r t => (Q ((h * M + (qi + r)) * d + t) : EReal))
    (hO : HoldsTable 4 g s.sramO plan.oOff qCount d fun _ _ => ((0 : ℝ) : EReal)) :
    ∃ s', (∀ fuel, 2 ^ 16 ≤ fuel → kvTile (exactReals g) cfg desc plan fuel h qi qCount 0 s = some (.ok s')) ∧
      s'.sramA = s.sramA ∧ s'.output = s.output ∧
      HoldsTable 4 g s'.sramO plan.oOff qCount d fun r a =>
        (weightedMean (scores desc plan Q K scale M N d h (qi + r)) (values V N d h a) N : EReal) := by
  have hsizeO := cfg.sramOSize.toNat_lt
  have hN := hset.N_lt
  have hn := hfits.n_pos
  have hfitO := hfits.sramO
  have hoOff := hfits.oOff_eq
  have hmaskOff := hfits.maskOff_eq
  have hwhole : N ≤ plan.tileN := Nat.le_of_not_lt fun hlt => Bool.false_ne_true (hs.symm.trans (hfits.streaming.2 hlt))
  have hscores : qCount * N ≤ plan.tileM * plan.tileN := Nat.mul_le_mul hqm hwhole
  have hkvCount : (if u32 (0 + plan.tileN) ≤ N then plan.tileN else N - 0) = N := by
    rw [kvCount_eq hfits hN hn]
    omega
  let x r := scores desc plan Q K scale M N d h (qi + r)
  obtain ⟨s₁, hrun₁, hA₁, hout₁, hscore, hframe₁⟩ := scoreTile_exact hset hfits hcustom hscale 0 N hh hq hqm
    (by omega) hwhole hq0 hn hQ
  have hscore₁ : HoldsTable 4 g s₁.sramO 0 qCount N x := by
    apply hscore.congr
    intro r _ j _
    rw [Nat.zero_add]
    rfl
  -- both engines divide the weights of a row by their sum
  obtain ⟨mem, hnormal, hweights, hframe₂⟩ : ∃ mem,
      softmaxTile (exactReals g) cfg desc plan qCount N s₁.sramO = (mem, true) ∧
        HoldsTable 4 g mem 0 qCount N (fun r j => (weight cutoff (high (x r) N) (x r j) /
          ∑ i ∈ Finset.range N, weight cutoff (high (x r) N) (x r i) : ℝ)) ∧
        ∀ b, b < 0 ∨ 0 + 4 * (qCount * N) ≤ b → mem b = s₁.sramO b := by
    unfold softmaxTile
    rw [hs, Bool.false_or]
    by_cases htype : desc.maskType = .custom
    · rw [if_pos (decide_eq_true htype)]
      have hroom : plan.areas.scoreOff + 4 * (qCount * N) ≤ cfg.sramOSize.toNat := by
        show 0 + _ ≤ _
        omega
      exact normalizeAttentionTile_whole hsizeO hroom hscore₁ htop
    · obtain ⟨mem, hrun, hrest⟩ := tuSoftmaxExecute_whole hsizeO (show 0 + 4 * (qCount * N) ≤ _ by omega) hq0 hn hscore₁
        htop hbot
      refine ⟨mem, ?_, hrest⟩
      rw [if_neg (by simpa using htype), u32_of_lt (by omega)]
      dsimp only
      rw [hrun, Option.getD_some]
  have hO₁ : HoldsTable 4 g s₁.sramO plan.oOff qCount d _ :=
    hO.of_eq (by omega) fun b hb hb' => hframe₁ b hb (by
      have hrows : qCount * d ≤ plan.tileM * d := Nat.mul_le_mul_right d hqm
      omega)
  have hO₂ : HoldsTable 4 g mem plan.oOff qCount d _ := hO₁.of_eq (by omega) fun b hb _ => hframe₂ b (by omega)
  obtain ⟨s₃, hrun₃, hA₃, hout₃, hO₃, -⟩ := valueTile_exact hset hfits 0 N hh (by omega) hqm (by omega) hwhole hn
    (s := { s₁ with sramO := mem }) hweights hO₂
  refine ⟨s₃, ?_, hA₃.trans hA₁, hout₃.trans hout₁, ?_⟩
  · intro fuel hfuel
    unfold kvTile
    dsimp only
    rw [hset.seqLenKv, hkvCount, hrun₁ fuel hfuel, Option.bind_some, hnormal]
    dsimp only
    rw [if_pos rfl, hrun₃ fuel hfuel, Option.map_some]
  · apply hO₃.congr
    intro r _ a _
    rw [zero_add]
    apply congrArg Real.toEReal
    have hmean := sum_div_mul (x r) (values V N d h a) N
    simp only [Nat.zero_add]
    exact hmean

/-- The loops before the first key tile. -/
theorem initRows_exact (hfits : plan.Fits cfg d N) (hs : plan.streaming = true) {qCount : Nat} (hqm : qCount ≤ plan.tileM)
    {x : Nat → Nat → EReal} {v : Nat → Nat → ℝ} {mem : Nat → NumByte EReal}
    (hO : HoldsTable 4 g mem plan.oOff qCount d fun _ _ => ((0 : ℝ) : EReal)) :
    Streamed plan g x v qCount d 0 ((List.range qCount).foldl (fun mem r =>
      tuSramWrite cfg.sramOSize.toNat
        (tuSramWrite cfg.sramOSize.toNat mem (u32 (plan.maxOff + r * 4)) (exactReals g).negInfinity)
        (u32 (plan.sumOff + r * 4)) (exactReals g).zero) mem) := by
  have hsizeO := cfg.sramOSize.toNat_lt
  obtain ⟨-, hout, hmax, hsum⟩ := hfits.areas_apart hs hqm (le_refl plan.tileN)
  unfold AttentionPlan.areas at hout hmax hsum
  dsimp only at hout hmax hsum
  let step (mem : Nat → NumByte EReal) (r : Nat) := tuSramWrite cfg.sramOSize.toNat
    (tuSramWrite cfg.sramOSize.toNat mem (u32 (plan.maxOff + r * 4)) (exactReals g).negInfinity)
      (u32 (plan.sumOff + r * 4)) (exactReals g).zero
  have hinit := @foldl_range_rec qCount _ step
    (fun k mem' => (∀ r < k, load 4 g mem' (plan.maxOff + 4 * r) = ⊥ ∧ load 4 g mem' (plan.sumOff + 4 * r) = 0) ∧
      ∀ b < plan.maxOff, mem' b = mem b) mem ⟨fun r hr => absurd hr (Nat.not_lt_zero r), fun _ _ => rfl⟩ ?_
  · obtain ⟨hrows, hframe⟩ := hinit
    constructor
    · intro r hr j hj
      obtain rfl : j = 0 := by omega
      rw [Nat.mul_one, Nat.add_zero, (hrows r hr).1]
      rfl
    · intro r hr j hj
      obtain rfl : j = 0 := by omega
      rw [Nat.mul_one, Nat.add_zero, (hrows r hr).2]
      rfl
    · apply (hO.of_eq (by omega) fun b _ hb => hframe b (by omega)).congr
      intro r _ a _
      unfold part
      rw [Finset.range_zero, Finset.sum_empty]
  · rintro k hk mem' ⟨hrows, hframe⟩
    dsimp only [step]
    rw [u32_inside hsizeO _ 4 (by omega), u32_inside hsizeO _ 4 (by omega), tuSramWrite_inside _ (by omega),
      tuSramWrite_inside _ (by omega), Nat.mul_comm k 4]
    refine ⟨?_, ?_⟩
    · intro r hr
      rcases Nat.lt_succ_iff_lt_or_eq.1 hr with hlt | rfl
      · rw [load_store_ne (by omega) (by omega), load_store_ne (by omega) (by omega), load_store_ne (by omega) (by omega),
          load_store_ne (by omega) (by omega)]
        exact hrows r hlt
      · rw [load_store_ne (by omega) (by omega), load_store (by omega), load_store (by omega), exactReals_zero]
        exact ⟨rfl, rfl⟩
    · intro b hb
      rw [store_outside (by omega), store_outside (by omega)]
      exact hframe b hb

/-- The division after the last key tile. -/
theorem divideRows_exact (hset : Setting desc Q K V heads M N d) (hfits : plan.Fits cfg d N) (hs : plan.streaming = true)
    {qCount : Nat} (hqm : qCount ≤ plan.tileM) {x : Nat → Nat → EReal} {v : Nat → Nat → ℝ} {mem : Nat → NumByte EReal}
    (hmem : Streamed plan g x v qCount d N mem) :
    HoldsTable 4 g (divideRows (exactReals g) cfg desc plan qCount mem) plan.oOff qCount d
      fun r a => (weightedMean (x r) (v a) N : EReal) := by
  have hsizeO := cfg.sramOSize.toNat_lt
  obtain ⟨-, hout, hmax, hsum⟩ := hfits.areas_apart hs hqm (le_refl plan.tileN)
  unfold AttentionPlan.areas at hout hmax hsum
  dsimp only at hout hmax hsum
  unfold divideRows
  dsimp only
  rw [hset.headDim]
  refine (foldl_rows (by omega) hmem.out ?_).1
  intro r hr mem' hmem' hload
  have hrow : (r + 1) * d ≤ qCount * d := Nat.mul_le_mul_right d hr
  rw [Nat.succ_mul] at hrow
  have hread : load 4 g mem' (plan.sumOff + 4 * r) = (part cutoff (x r) (fun _ => 1) N : EReal) := by
    have hsame : ∀ b, plan.sumOff ≤ b → b < plan.sumOff + 4 * (qCount * 1) → mem' b = mem b :=
      fun b hb _ => hmem' b (by omega)
    have hcell := hmem.sum.of_eq (by omega) hsame r hr 0 (by omega)
    rwa [Nat.mul_one, Nat.add_zero] at hcell
  have hoff : plan.oOff + r * d * 4 = plan.oOff + 4 * (r * d) := by omega
  rw [u32_inside hsizeO _ 4 (by omega), tuSramRead_inside _ _ (by omega), Nat.mul_comm r 4, hoff,
    sramUpdate_eq hsizeO _ _ (by omega), exactReals_garbage, hread, exactReals_zero]
  apply fill_congr
  intro a ha
  rw [Nat.add_assoc, ← Nat.mul_add, hload a ha]
  unfold weightedMean
  generalize part cutoff (x r) (fun _ => 1) N = total
  show (if decide ((total : EReal) = 0) = true then (0 : EReal) else _ / (total : EReal)) = _
  simp only [decide_eq_true_eq, EReal.coe_eq_zero]
  by_cases hzero : total = 0
  · rw [if_pos hzero, hzero, div_zero, EReal.coe_zero]
  · rw [if_neg hzero, EReal.coe_div]

/-- A loop whose turns do not return keeps an invariant of its turns. -/
theorem loop_unlessReturned {S : Type} {bound step fuel : Nat} (hstep : 0 < step) (hw : bound + step ≤ 2 ^ 32)
    (hfuel : bound < fuel) (body : Nat → S → Option (Except S S)) {P : Nat → S → Prop}
    (hbody : ∀ i s, i < bound → P i s → ∃ s', body i s = some (.ok s') ∧ P (min (i + step) bound) s') {s : S} (h : P 0 s) :
    ∃ s', WrapLoop.loop bound step (2 ^ 32) (fun i => unlessReturned (body i)) fuel 0 (.ok s) = some (.ok s') ∧
      P bound s' := by
  have hrun : ∃ r, WrapLoop.loop bound step (2 ^ 32) (fun i => unlessReturned (body i)) fuel 0 (.ok s) = some r ∧
      ∃ s, r = .ok s ∧ P bound s := by
    apply WrapLoop.loop_rec (P := fun i (r : Except S S) => ∃ s, r = .ok s ∧ P i s) hstep hw hfuel
    · rintro i r hi ⟨s, rfl, hs⟩
      obtain ⟨s', hs', hnext⟩ := hbody i s hi hs
      exact ⟨.ok s', hs', s', rfl, hnext⟩
    · exact ⟨s, rfl, h⟩
  obtain ⟨r, hr, s', rfl, hs'⟩ := hrun
  exact ⟨s', hr, hs'⟩

/-- The loop over the key tiles and the division leave the weighted means of the values. -/
theorem keyLoop_exact (hset : Setting desc Q K V heads M N d) (hfits : plan.Fits cfg d N)
    (hcustom : desc.maskType = .custom → desc.mask.isSome) {scale : ℝ} (hscale : plan.scale = (scale : EReal)) {fuel : Nat}
    (hfuel : 2 ^ 16 ≤ fuel) {h qi qCount : Nat} (hh : h < heads) (hq : qi + qCount ≤ M) (hqm : qCount ≤ plan.tileM)
    (hq0 : 0 < qCount) (kept : Nat → Nat → Prop)
    (hsep : ∀ r < qCount, Separated cutoff (scores desc plan Q K scale M N d h (qi + r)) N (kept r))
    (hsome : ∀ r < qCount, ∃ j < N, kept r j) {s : AttentionState EReal}
    (hQ : HoldsTable 2 g s.sramA 0 qCount d fun r t => (Q ((h * M + (qi + r)) * d + t) : EReal))
    (hO : HoldsTable 4 g s.sramO plan.oOff qCount d fun _ _ => ((0 : ℝ) : EReal))
    (hinit : plan.streaming = true → Streamed plan g (fun r => scores desc plan Q K scale M N d h (qi + r))
      (fun a => values V N d h a) qCount d 0 s.sramO) :
    ∃ s', WrapLoop.loop N plan.tileN (2 ^ 32)
        (fun kvi => unlessReturned (kvTile (exactReals g) cfg desc plan fuel h qi qCount kvi)) fuel 0 (.ok s) =
          some (.ok s') ∧ s'.output = s.output ∧
      HoldsTable 4 g (if plan.streaming then divideRows (exactReals g) cfg desc plan qCount s'.sramO else s'.sramO)
        plan.oOff qCount d fun r a =>
          (weightedMean (scores desc plan Q K scale M N d h (qi + r)) (values V N d h a) N : EReal) := by
  have hsizeW := cfg.sramWSize.toNat_lt
  have hfitW := hfits.sramW
  have hN := hset.N_lt
  have hle := hfits.tileN_le
  have htop : ∀ r < qCount, ∀ j < N, scores desc plan Q K scale M N d h (qi + r) j ≠ ⊤ :=
    fun r hr j hj => (hsep r hr).ne_top (hsome r hr) hj
  have hwrap : N + plan.tileN ≤ 2 ^ 32 := by omega
  have hturns : N < fuel := by omega
  cases hs : plan.streaming with
  | true =>
    obtain ⟨s', hloop, hout, -, hmem⟩ := loop_unlessReturned hfits.tileN_pos hwrap hturns
      (kvTile (exactReals g) cfg desc plan fuel h qi qCount) (s := s)
      (P := fun c t => t.output = s.output ∧ t.sramA = s.sramA ∧ Streamed plan g
        (fun r => scores desc plan Q K scale M N d h (qi + r)) (fun a => values V N d h a) qCount d c t.sramO) (by
          rintro c t hc ⟨hout, hA, hmem⟩
          obtain ⟨t', hrun, hA', hout', hmem'⟩ := kvTile_streaming hset hfits hcustom hscale hs hh hq hqm hq0 hc hsep htop
            (hA ▸ hQ) hmem
          exact ⟨t', hrun fuel hfuel, hout'.trans hout, hA'.trans hA, hmem'⟩) ⟨rfl, rfl, hinit hs⟩
    refine ⟨s', hloop, hout, ?_⟩
    rw [if_pos rfl]
    exact divideRows_exact hset hfits hs hqm hmem
  | false =>
    have hwhole : N ≤ plan.tileN := Nat.le_of_not_lt fun hlt => Bool.false_ne_true (hs.symm.trans (hfits.streaming.2 hlt))
    obtain ⟨t, hrun, -, hout, hmean⟩ := kvTile_whole hset hfits hcustom hscale hs hh hq hqm hq0 htop
      (fun r hr => (hsep r hr).high_ne_bot cutoff_nonneg (hsome r hr)) hQ hO
    obtain ⟨s', hloop, hs'⟩ := loop_unlessReturned hfits.tileN_pos hwrap hturns
      (kvTile (exactReals g) cfg desc plan fuel h qi qCount) (s := s)
      (P := fun c s' => c = 0 ∧ s' = s ∨ c = N ∧ s' = t) (by
        rintro c s' hc (⟨rfl, rfl⟩ | ⟨rfl, -⟩)
        · exact ⟨t, hrun fuel hfuel, .inr ⟨by omega, rfl⟩⟩
        · omega) (.inl ⟨rfl, rfl⟩)
    obtain rfl : s' = t := by
      rcases hs' with ⟨hzero, -⟩ | ⟨-, hlast⟩
      · exact absurd hzero hfits.n_pos.ne'
      · exact hlast
    refine ⟨s', hloop, hout, ?_⟩
    rw [if_neg Bool.false_ne_true]
    exact hmean

end

end Tusim.Attention
