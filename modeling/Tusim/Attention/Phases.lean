import Tusim.Attention.Engine
import Tusim.Compute.Multiply

/-!
# The loops of the attention engine

What the loops of a tile leave in a scratchpad of less than `2 ^ 32` bytes, in any arithmetic: a loop over an area fills
it, and a transposition leaves the transposed table.  Packing numbers forward in their own area overtakes none that is
still to be read.
-/

namespace Tusim.Attention

open NumberMemory Word

section

variable {F : Type} {size : Nat} (hsize : size < 2 ^ 32) (mem : Nat → NumByte F)
include hsize

/-- An address inside a region does not wrap. -/
theorem u32_inside (addr bytes : Nat) (h : addr + bytes ≤ size) : u32 addr = addr := u32_of_lt (by omega)

theorem sramFill_eq {off n : Nat} (h : off + 4 * n ≤ size) (v : F) :
    sramFill size mem off n v = fill 4 mem off (fun _ => v) n := by
  apply foldl_eq_fill'
  intro i hi
  rw [u32_inside hsize _ 4 (by omega), tuSramWrite_inside _ (by omega), Nat.mul_comm]

variable [DecidableEq F] (fp : FloatOps F)

theorem sramUpdate_eq {off n : Nat} (h : off + 4 * n ≤ size) (f : F → F) :
    sramUpdate fp size mem off n f = fill 4 mem off (fun j => f (load 4 fp.garbage mem (off + 4 * j))) n := by
  apply foldl_eq_fill'
  intro i hi
  rw [u32_inside hsize _ 4 (by omega), tuSramWrite_inside _ (by omega), tuSramRead_inside _ _ (by omega),
    Nat.mul_comm, load_fill_ne (by omega) (by omega)]

/-- Numbers are packed into the front half of their area. -/
theorem fp32ToFp16InSram_eq (off n : Nat) (h : off + 4 * n ≤ size) :
    fp32ToFp16InSram fp size mem off n = fill 2 mem off (fun i => load 4 fp.garbage mem (off + 4 * i)) n := by
  apply foldl_eq_fill'
  intro i hi
  rw [u32_inside hsize _ 4 (by omega), u32_inside hsize _ 2 (by omega),
    tuSramWriteBulk_inside _ (by omega), tuSramRead_inside _ _ (by omega), Nat.mul_comm i 4, Nat.mul_comm i 2,
    load_fill_ne (by omega) (by omega)]

/-- Scores become weights, which are added up. -/
theorem weighRow_eq {off n : Nat} (h : off + 4 * n ≤ size) (hi : F) :
    weighRow fp size mem off n hi =
      (fill 4 mem off (fun j => weightOf fp hi (load 4 fp.garbage mem (off + 4 * j))) n,
        (List.range n).foldl (fun s j => fp.add s (weightOf fp hi (load 4 fp.garbage mem (off + 4 * j)))) fp.zero) := by
  let v j := weightOf fp hi (load 4 fp.garbage mem (off + 4 * j))
  unfold weighRow
  apply foldl_eq_fill (v := v) (c := fun k => (List.range k).foldl (fun s j => fp.add s (v j)) fp.zero)
  intro i hi'
  dsimp only
  rw [u32_inside hsize _ 4 (by omega), tuSramWrite_inside _ (by omega), tuSramRead_inside _ _ (by omega),
    Nat.mul_comm i 4, load_fill_ne (by omega) (by omega), List.range_succ, List.foldl_append]
  rfl

/-- A table and, beside it, its transpose. -/
theorem transposeFp16InSram_table {srcOff rows cols : Nat} {f : Nat → Nat → F} (dstOff : Nat)
    (hf : HoldsTable 2 fp.garbage mem srcOff rows cols f) (hapart : srcOff + 2 * (rows * cols) ≤ dstOff)
    (h : dstOff + 2 * (rows * cols) ≤ size) :
    HoldsTable 2 fp.garbage (transposeFp16InSram fp size mem srcOff dstOff rows cols) dstOff cols rows
        (fun c r => f r c) ∧
      ∀ b, b < dstOff ∨ dstOff + 2 * (rows * cols) ≤ b →
        transposeFp16InSram fp size mem srcOff dstOff rows cols b = mem b := by
  have hindex : ∀ r < rows, ∀ c < cols, c * rows + r < rows * cols := by
    intro r hr c hc
    rw [Nat.mul_comm rows]
    exact Digits.mul_add_lt hc hr
  have hcells := foldl_table (w := 2) (n := rows * cols) (a := dstOff) (by omega) fp.garbage mem
    (fun mem r c => tuSramWriteBulk size mem (u32 (dstOff + (c * rows + r) * 2))
      (tuSramReadBulk fp size mem (u32 (srcOff + (r * cols + c) * 2)) fp.garbage 2) 2)
    (fun r c => c * rows + r) f hindex
  obtain ⟨hload, hout⟩ := hcells (by
      intro r hr c hc r' hr' c' hc' heq
      have hdiv := congrArg (· / rows) heq
      have hmod := congrArg (· % rows) heq
      have hrows : 0 < rows := by omega
      simp only [Nat.mul_comm _ rows, Nat.mul_add_div hrows, Nat.mul_add_mod, Nat.div_eq_of_lt hr, Nat.div_eq_of_lt hr',
        Nat.mod_eq_of_lt hr, Nat.mod_eq_of_lt hr', Nat.add_zero] at hdiv hmod
      exact ⟨hmod, hdiv⟩) (by
      intro mem' hmem' r hr c hc
      have hdst := hindex r hr c hc
      have hsrc : r * cols + c < rows * cols := Digits.mul_add_lt hr hc
      rw [u32_inside hsize _ 2 (by omega), u32_inside hsize _ 2 (by omega),
        tuSramWriteBulk_inside _ (by omega), tuSramReadBulk_inside _ _ (by omega), Nat.mul_comm _ 2, Nat.mul_comm _ 2,
        ← hf r hr c hc]
      congr 1
      apply load_congr (by omega)
      intro i hi
      exact hmem' _ (by omega))
  exact ⟨fun c hc r hr => hload r hr c hc, hout⟩

/-- The loops that write a mask. -/
theorem maskLoop_table (off rows cols : Nat) (h : off + 4 * (rows * cols) ≤ size) (val : Nat → Nat → F) :
    let mem' := (List.range rows).foldl (fun mem r => (List.range cols).foldl (fun mem j =>
      tuSramWrite size mem (u32 (off + (r * cols + j) * 4)) (val r j)) mem) mem
    HoldsTable 4 fp.garbage mem' off rows cols val ∧ ∀ b, b < off ∨ off + 4 * (rows * cols) ≤ b → mem' b = mem b := by
  apply foldl_rows (f := fun r j => load 4 fp.garbage mem (off + 4 * (r * cols + j))) (by omega) fun _ _ _ _ => rfl
  intro r hr mem' _ _
  apply foldl_eq_fill'
  intro j hj
  have hlt : r * cols + j < rows * cols := Digits.mul_add_lt hr hj
  rw [u32_inside hsize _ 4 (by omega), tuSramWrite_inside _ (by omega)]
  congr 1
  omega

end

end Tusim.Attention

/-!
### Multiplies in the scratchpads

In exact arithmetic a multiply on numbers in SRAM adds the product of its operands to the accumulators and changes no
other byte (`tileMma_exact`).  The operands are tables of real numbers.
-/

namespace Tusim.Attention

open NumberMemory Accumulation Word

variable {g : EReal}

@[simp] theorem exactReals_zero : (exactReals g).zero = 0 := by
  simp [FloatOps.zero, exactReals]

@[simp] theorem exactReals_one : (exactReals g).one = 1 := by
  simp [FloatOps.one, exactReals]

section

variable {wMem aMem : Nat → NumByte EReal} {wOff aOff oOff : Nat}

/-- Amounts added to accumulators that hold real numbers. -/
theorem foldl_accumulate (wMem aMem : Nat → NumByte EReal) (wOff aOff : Nat) {n : Nat} {us : List (Int × ℝ)}
    (hus : ∀ u ∈ us, 0 ≤ u.1 ∧ u.1 < n) (mem : Nat → NumByte EReal) (o : Int → ℝ)
    (ho : ∀ i : Nat, i < n → load 4 g mem (oOff + 4 * i) = (o i : EReal)) :
    let x := tileOperands (exactReals g) wMem aMem wOff aOff oOff
    let mem' := (us.map fun u => (u.1, (u.2 : EReal))).foldl x.accumulate mem
    (∀ i : Nat, i < n → load 4 g mem' (oOff + 4 * i) = ((us.foldl addTo o (i : Int) : ℝ) : EReal)) ∧
      ∀ b, b < oOff ∨ oOff + 4 * n ≤ b → mem' b = mem b := by
  induction us generalizing mem o with
  | nil => exact ⟨ho, fun _ _ => rfl⟩
  | cons u us ih =>
    obtain ⟨i, v⟩ := u
    obtain ⟨hi, hin⟩ := hus _ List.mem_cons_self
    dsimp only at hi hin
    obtain ⟨k, rfl⟩ := Int.eq_ofNat_of_zero_le hi
    have hk : k < n := by exact_mod_cast hin
    let x := tileOperands (exactReals g) wMem aMem wOff aOff oOff
    have hstep : x.accumulate mem ((k : Int), (v : EReal)) = store 4 mem (oOff + 4 * k) ((o k + v : ℝ) : EReal) := by
      show store 4 mem (oOff + 4 * (k : Int).toNat) (load 4 g mem (oOff + 4 * (k : Int).toNat) + (v : EReal)) = _
      rw [Int.toNat_natCast, ho k hk, EReal.coe_add]
    obtain ⟨hload, hout⟩ := ih (fun u hu => hus u (List.mem_cons_of_mem _ hu)) (x.accumulate mem ((k : Int), (v : EReal)))
      (addTo o ((k : Int), v)) (by
        intro j hj
        rw [hstep]
        unfold addTo
        dsimp only
        by_cases hjk : j = k
        · subst hjk
          rw [load_store (by omega), Function.update_self]
        · rw [load_store_ne (by omega) (by omega), ho j hj, Function.update_of_ne (by exact_mod_cast hjk)])
    refine ⟨hload, ?_⟩
    intro b hb
    refine (hout b hb).trans ?_
    rw [hstep]
    exact store_outside (by omega)

/-- The partial sums of real operands. -/
theorem sums_exactReals (oOff : Nat) {w a : Nat → Nat → ℝ} {M N K : Nat} (hw : HoldsTable 2 g wMem wOff M K fun m k => w m k)
    (ha : HoldsTable 2 g aMem aOff K N fun k n => a k n) {t : MmaTile} (ht : t.Within M N K) :
    t.sums (tileOperands (exactReals g) wMem aMem wOff aOff oOff) (rowMajor K) (rowMajor N) (rowMajor N) =
      (t.updates (fun i => w (i.toNat / K) (i.toNat % K)) (fun i => a (i.toNat / N) (i.toNat % N)) (rowMajor K) (rowMajor N)
        (rowMajor N)).map fun u => (u.1, (u.2 : EReal)) := by
  obtain ⟨htm, htn, htk⟩ := ht
  have hsum : ∀ (f : Nat → ℝ) (ks : List Nat) (v : ℝ),
      ks.foldl (fun (psum : EReal) k => psum + (f k : EReal)) (v : EReal) = ((v + (ks.map f).sum : ℝ) : EReal) := by
    intro f ks
    induction ks with
    | nil => simp
    | cons k ks ih =>
      intro v
      rw [List.foldl_cons, ← EReal.coe_add, ih, List.map_cons, List.sum_cons, add_assoc]
  have hcell : ∀ cols r j : Nat, j < cols → (rowMajor cols r j).toNat / cols = r ∧ (rowMajor cols r j).toNat % cols = j := by
    intro cols r j hj
    unfold rowMajor
    rw [Int.toNat_natCast, Nat.mul_comm, Nat.mul_add_div (by omega), Nat.div_eq_of_lt hj, Nat.mul_add_mod,
      Nat.mod_eq_of_lt hj, Nat.add_zero]
    exact ⟨rfl, rfl⟩
  unfold MmaTile.sums MmaTile.updates MmaTile.psum
  rw [List.map_flatMap]
  apply List.flatMap_congr
  intro m hm
  rw [List.map_map]
  apply List.map_congr_left
  intro n hn
  rw [List.mem_range] at hm hn
  dsimp only [Function.comp_apply]
  congr 1
  have hproduct : ∀ k ∈ List.range t.kCount, ∀ psum : EReal,
      (tileOperands (exactReals g) wMem aMem wOff aOff oOff).add psum
        ((tileOperands (exactReals g) wMem aMem wOff aOff oOff).mul
          ((tileOperands (exactReals g) wMem aMem wOff aOff oOff).w (rowMajor K (t.mStart + m) (t.kStart + k)))
          ((tileOperands (exactReals g) wMem aMem wOff aOff oOff).a (rowMajor N (t.kStart + k) (t.nStart + n)))) =
        psum + ((w (t.mStart + m) (t.kStart + k) * a (t.kStart + k) (t.nStart + n) : ℝ) : EReal) := by
    intro k hk psum
    rw [List.mem_range] at hk
    show psum + load 2 g wMem (wOff + 2 * (rowMajor K (t.mStart + m) (t.kStart + k)).toNat) *
      load 2 g aMem (aOff + 2 * (rowMajor N (t.kStart + k) (t.nStart + n)).toNat) = _
    unfold rowMajor
    rw [Int.toNat_natCast, Int.toNat_natCast, hw _ (by omega) _ (by omega), ha _ (by omega) _ (by omega), EReal.coe_mul]
  rw [List.foldl_ext _ _ _ fun psum k hk => hproduct k hk psum]
  show List.foldl _ (exactReals g).zero _ = _
  rw [exactReals_zero, ← EReal.coe_zero, hsum, zero_add]
  congr 2
  apply List.map_congr_left
  intro k hk
  rw [List.mem_range] at hk
  obtain ⟨hw1, hw2⟩ := hcell K (t.mStart + m) (t.kStart + k) (by omega)
  obtain ⟨ha1, ha2⟩ := hcell N (t.kStart + k) (t.nStart + n) (by omega)
  rw [hw1, hw2, ha1, ha2]

end

/-- A tensor of dimensions below `2 ^ 16`. -/
theorem tileTensor_eq {rows cols : Nat} (hrows : rows < 2 ^ 16) (hcols : cols < 2 ^ 16) (elemSize : Nat) :
    tileTensor rows cols elemSize = denseTensor (UInt16.ofNat rows) (UInt16.ofNat cols) elemSize := by
  have hnarrow : ∀ n : Nat, n < 2 ^ 16 → (UInt16.ofNat n).toNat = n := fun n hn => UInt16.toNat_ofNat_of_lt' hn
  have hwide : ∀ n : Nat, n < 2 ^ 16 → UInt32.ofNat n = (UInt16.ofNat n).toUInt32 := by
    intro n hn
    rw [← UInt32.toNat_inj, UInt16.toNat_toUInt32, hnarrow n hn, UInt32.toNat_ofNat_of_lt' (Nat.lt_trans hn (by decide))]
  unfold tileTensor denseTensor
  rw [hwide rows hrows, hwide cols hcols, hnarrow cols hcols]

/-- A multiply of tables of real numbers, on accumulators that hold real numbers. -/
theorem tileMma_exact (cfg : AttentionConfig) (plugin : TuDataflowPlugin) {wMem aMem mem : Nat → NumByte EReal}
    {wOff aOff oOff M N K : Nat} (hM : M < 2 ^ 16) (hN : N < 2 ^ 16) (hK : K < 2 ^ 16) {w a o : Nat → Nat → ℝ}
    (hw : HoldsTable 2 g wMem wOff M K fun m k => w m k) (ha : HoldsTable 2 g aMem aOff K N fun k n => a k n)
    (ho : HoldsTable 4 g mem oOff M N fun m n => o m n) :
    ∃ mem' plugin',
      (∀ fuel, 2 ^ 16 ≤ fuel →
        tileMma cfg fuel plugin (tileOperands (exactReals g) wMem aMem wOff aOff oOff) M N K mem = some (mem', plugin')) ∧
      HoldsTable 4 g mem' oOff M N (fun m n => ((o m n + ∑ k ∈ Finset.range K, w m k * a k n : ℝ) : EReal)) ∧
      ∀ b, b < oOff ∨ oOff + 4 * (M * N) ≤ b → mem' b = mem b := by
  let x := tileOperands (exactReals g) wMem aMem wOff aOff oOff
  have hnarrow : ∀ n : Nat, n < 2 ^ 16 → (UInt16.ofNat n).toNat = n := fun n hn => UInt16.toNat_ofNat_of_lt' hn
  obtain ⟨r, hr, hro⟩ := tuDataflowExecuteMma_writes x plugin (UInt16.ofNat M) (UInt16.ofNat N) (UInt16.ofNat K)
    cfg.peRows_ne cfg.peCols_ne cfg.peCols_ne (UInt16.ofNat tuPePipelineDepth) mem
  refine ⟨r.o, { r.plugin with totalTiles := 0, totalFlops := 0 }, ?_, ?_⟩
  · intro fuel hfuel
    unfold tileMma
    rw [tileTensor_eq hM hK, tileTensor_eq hK hN, tileTensor_eq hM hN, hr fuel hfuel]
    rfl
  rw [hnarrow M hM, hnarrow N hN, hnarrow K hK] at hro
  let ts := mmaTiles M N K cfg.peRows.toNat cfg.peCols.toNat cfg.peCols.toNat
  let w' : Int → ℝ := fun i => w (i.toNat / K) (i.toNat % K)
  let a' : Int → ℝ := fun i => a (i.toNat / N) (i.toNat % N)
  let o' : Int → ℝ := fun i => o (i.toNat / N) (i.toNat % N)
  let us := ts.flatMap (MmaTile.updates w' a' (rowMajor K) (rowMajor N) (rowMajor N))
  have hsums : ts.flatMap (MmaTile.sums x (rowMajor K) (rowMajor N) (rowMajor N)) =
      us.map fun u => (u.1, (u.2 : EReal)) := by
    rw [List.map_flatMap]
    apply List.flatMap_congr
    intro t ht
    exact sums_exactReals oOff hw ha (within_of_mem ht)
  have hus : ∀ u ∈ us, 0 ≤ u.1 ∧ u.1 < (M * N : Nat) := by
    intro u hu
    obtain ⟨t, ht, hu⟩ := List.mem_flatMap.1 hu
    obtain ⟨htm, htn, -⟩ := within_of_mem ht
    unfold MmaTile.updates at hu
    obtain ⟨m, hm, hu⟩ := List.mem_flatMap.1 hu
    obtain ⟨n, hn, rfl⟩ := List.mem_map.1 hu
    rw [List.mem_range] at hm hn
    have hlt : (t.mStart + m) * N + (t.nStart + n) < M * N := Digits.mul_add_lt (by omega) (by omega)
    unfold rowMajor
    dsimp only
    omega
  have hload : ∀ i : Nat, i < M * N → load 4 g mem (oOff + 4 * i) = (o' i : EReal) := by
    intro i hi
    have hN' : 0 < N := Nat.pos_of_ne_zero fun h => by simp [h] at hi
    have hrow : i / N < M := Nat.div_lt_of_lt_mul (by rwa [Nat.mul_comm])
    have hcell := ho (i / N) hrow (i % N) (Nat.mod_lt i hN')
    rw [Nat.mul_comm (i / N) N, Nat.div_add_mod] at hcell
    exact hcell
  obtain ⟨hafter, hout⟩ := foldl_accumulate wMem aMem wOff aOff hus _ _ hload
  rw [← hsums, ← hro] at hafter hout
  refine ⟨?_, hout⟩
  intro m hm n hn
  rw [hafter _ (Digits.mul_add_lt hm hn)]
  congr 1
  obtain ⟨hproduct, -⟩ := product_added (us.foldl addTo o')
    (foldl_updates w' a' o' (toNat16_pos cfg.peRows_ne) (toNat16_pos cfg.peCols_ne) (toNat16_pos cfg.peCols_ne))
  have hcell := congrFun (congrFun hproduct ⟨m, hm⟩) ⟨n, hn⟩
  unfold operandMatrix at hcell
  rw [Matrix.add_apply, Matrix.mul_apply] at hcell
  simp only [Matrix.of_apply] at hcell
  refine hcell.trans ?_
  rw [Finset.sum_range]
  congr 1
  · show o (_ / N) (_ % N) = _
    unfold rowMajor
    rw [Int.toNat_natCast, Digits.rest_of_digit hn, Digits.digit_of_digit hn]
  · apply Finset.sum_congr rfl
    intro k _
    show w (_ / K) (_ % K) * a (_ / N) (_ % N) = _
    unfold rowMajor
    rw [Int.toNat_natCast, Int.toNat_natCast, Digits.rest_of_digit k.isLt, Digits.digit_of_digit k.isLt,
      Digits.rest_of_digit hn, Digits.digit_of_digit hn]

end Tusim.Attention
