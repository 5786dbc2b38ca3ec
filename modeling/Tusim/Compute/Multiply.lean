import Mathlib.LinearAlgebra.Matrix.Notation
import Tusim.Compute.ExactProduct

/-!
# The multiply adds the product of the operands

For all dimensions, all tiles and all three plugins: the dispatcher ends, adds the product of the operands to the output,
makes every product once and counts its operations and tiles (`tuDataflowExecuteMma_product`).  The inline tiling of
`tu_mma` does the same on operands that lie in SRAM, whose byte addresses have 32 bits.
-/

namespace Tusim

open Word Digits WrapLoop Accumulation

/-! ### One turn of the dispatcher -/

namespace TuDataflowPlugin

variable (plugin : TuDataflowPlugin)

/-- The plugin after a tile. -/
def afterTile (t : MmaTile) : TuDataflowPlugin :=
  match plugin.id with
  | .rowStationary =>
    let wTotalReads := t.mCount * t.kCount
    let wTotalUses := t.mCount * t.nCount * t.kCount
    if t.nCount > 1 then
      { plugin with
        wReuseHits := u64 (plugin.wReuseHits + (wTotalUses - wTotalReads))
        wReuseMisses := u64 (plugin.wReuseMisses + wTotalReads) }
    else { plugin with wReuseMisses := u64 (plugin.wReuseMisses + wTotalReads) }
  | _ => plugin

/-- The cycles a tile returns. -/
def tileCycles (t : MmaTile) : Nat :=
  match plugin.id with
  | .outputStationary => t.kCount + (t.kCount + 3) / 4
  | _ => t.kCount

/-- Each plugin runs the same loops and reports after them. -/
theorem executeTile_eq {R Mem : Type} (x : MmaOperands R Mem) (op : TuMmaOp) (t : MmaTile) (fuel : Nat) (s : TileState Mem) :
    plugin.executeTile x op t fuel s =
      (kernelLoops x op t fuel s).map fun s => (s, plugin.afterTile t, plugin.tileCycles t) := by
  obtain ⟨id, _, _, _, _, _⟩ := plugin
  cases id <;> rfl

/-- A tile leaves the counters of the dispatcher. -/
theorem afterTile_frame (t : MmaTile) :
    (plugin.afterTile t).totalFlops = plugin.totalFlops ∧ (plugin.afterTile t).totalTiles = plugin.totalTiles ∧
      (plugin.afterTile t).totalCycles = plugin.totalCycles ∧ (plugin.afterTile t).id = plugin.id := by
  unfold afterTile
  split
  · dsimp only
    split <;> exact ⟨rfl, rfl, rfl, rfl⟩
  · exact ⟨rfl, rfl, rfl, rfl⟩

theorem init_frame :
    plugin.init.totalFlops = plugin.totalFlops ∧ plugin.init.totalTiles = plugin.totalTiles ∧
      plugin.init.totalCycles = plugin.totalCycles ∧ plugin.init.id = plugin.id := by
  unfold init
  split <;> exact ⟨rfl, rfl, rfl, rfl⟩

end TuDataflowPlugin

/-- The state after a tile that leaves the accumulators `tile`. -/
def DispatchState.next {Mem : Type} (s : DispatchState Mem) (pipelineDepth : Nat) (t : MmaTile) (tile : TileState Mem) :
    DispatchState Mem where
  tile := tile
  plugin := s.plugin.afterTile t
  totalCycles := u64 (s.totalCycles + s.plugin.getFillCycles t.nCount pipelineDepth + s.plugin.tileCycles t +
    (s.plugin.afterTile t).getDrainCycles t.mCount pipelineDepth)
  totalFlops := u64 (s.totalFlops + t.mCount * t.nCount * t.kCount * 2)
  tileCount := u64 (s.tileCount + 1)

theorem dispatchTile_eq {R Mem : Type} (x : MmaOperands R Mem) (op : TuMmaOp) (pipelineDepth : Nat) (t : MmaTile)
    (fuel : Nat) (s : DispatchState Mem) :
    dispatchTile x op pipelineDepth t fuel s = (kernelLoops x op t fuel s.tile).map (s.next pipelineDepth t) := by
  unfold dispatchTile
  rw [s.plugin.executeTile_eq, Option.map_map]
  rfl

theorem MmaTile.length_macs (t : MmaTile) : t.macs.length = t.mCount * t.nCount * t.kCount := by
  unfold macs
  simp [Nat.mul_assoc]

/-- Wrapping an operand first does not change a wrapped sum. -/
theorem u64_add_u64 (a b : Nat) : u64 (a + u64 b) = u64 (a + b) := by
  rw [Nat.add_comm, u64_u64_add, Nat.add_comm]

/-! ### All turns -/

section

variable {R : Type} [Semiring R] (w a : Int → R) (N K : Nat)

/-- The accumulators and the products after a tile. -/
def TileState.after (t : MmaTile) (s : TileState (Int → R)) : TileState (Int → R) where
  o := (t.updates w a (rowMajor K) (rowMajor N) (rowMajor N)).foldl addTo s.o
  macs := s.macs ++ t.macs

theorem foldl_after (ts : List MmaTile) (s : TileState (Int → R)) :
    ts.foldl (fun s t => s.after w a N K t) s =
      { o := (ts.flatMap (MmaTile.updates w a (rowMajor K) (rowMajor N) (rowMajor N))).foldl addTo s.o
        macs := s.macs ++ ts.flatMap MmaTile.macs } := by
  induction ts generalizing s with
  | nil => simp
  | cons t ts ih =>
    rw [List.foldl_cons, ih, List.flatMap_cons, List.foldl_append, List.flatMap_cons, ← List.append_assoc]
    rfl

/-- What a run over tiles leaves of the state of the dispatcher. -/
theorem foldl_next (pipelineDepth : Nat) (ts : List MmaTile) (s : DispatchState (Int → R)) :
    let s' := ts.foldl (fun s t => s.next pipelineDepth t (s.tile.after w a N K t)) s
    s'.tile = ts.foldl (fun s t => s.after w a N K t) s.tile ∧
      s'.plugin.totalFlops = s.plugin.totalFlops ∧ s'.plugin.totalTiles = s.plugin.totalTiles ∧
      u64 s'.totalFlops = u64 (s.totalFlops + 2 * (ts.flatMap MmaTile.macs).length) ∧
      u64 s'.tileCount = u64 (s.tileCount + ts.length) := by
  induction ts generalizing s with
  | nil => exact ⟨rfl, rfl, rfl, rfl, rfl⟩
  | cons t ts ih =>
    obtain ⟨htile, hflops, htiles, hflops', htiles'⟩ := ih (s.next pipelineDepth t (s.tile.after w a N K t))
    obtain ⟨hf, ht, -, -⟩ := s.plugin.afterTile_frame t
    refine ⟨htile, hflops.trans hf, htiles.trans ht, hflops'.trans ?_, htiles'.trans ?_⟩
    · show u64 (u64 (s.totalFlops + t.mCount * t.nCount * t.kCount * 2) + _) = _
      rw [u64_u64_add, List.flatMap_cons, List.length_append, t.length_macs]
      congr 1
      omega
    · show u64 (u64 (s.tileCount + 1) + _) = _
      rw [u64_u64_add, List.length_cons]
      congr 1
      omega

end

/-! ### The whole multiply -/

/-- The descriptor of a dense matrix stored row by row. -/
def denseTensor (rows cols : UInt16) (elemSize : Nat) : TuDataflowTensor where
  rows := rows.toUInt32
  cols := cols.toUInt32
  stride := UInt32.ofNat (cols.toNat * elemSize)
  elemSize := UInt32.ofNat elemSize

/-- The matrix behind an operand. -/
def operandMatrix {R : Type} (v : Int → R) (rows cols : Nat) : Matrix (Fin rows) (Fin cols) R :=
  Matrix.of fun i j => v (rowMajor cols i j)

theorem denseTensor_stride (rows cols : UInt16) {elemSize : Nat} (he : 0 < elemSize) (he' : elemSize ≤ 4) :
    (denseTensor rows cols elemSize).stride.toNat / elemSize = cols.toNat := by
  have hcols := cols.toNat_lt
  have hlt : cols.toNat * elemSize < 2 ^ 32 := by
    have := Nat.mul_le_mul_left cols.toNat he'
    omega
  unfold denseTensor
  dsimp only
  rw [UInt32.toNat_ofNat_of_lt' hlt, Nat.mul_div_cancel _ he]

theorem denseTensor_rows (rows cols : UInt16) (elemSize : Nat) : (denseTensor rows cols elemSize).rows.toUInt16 = rows := by
  unfold denseTensor
  simp

theorem denseTensor_cols (rows cols : UInt16) (elemSize : Nat) : (denseTensor rows cols elemSize).cols.toUInt16 = cols := by
  unfold denseTensor
  simp

/-- A turn of the dispatcher on dense operands, in any arithmetic and on any memory. -/
theorem dispatchTile_writes {R Mem : Type} (x : MmaOperands R Mem) {M N K : UInt16} (pipelineDepth : Nat) {t : MmaTile}
    (ht : t.Within M.toNat N.toNat K.toNat) {fuel : Nat} (hfuel : 2 ^ 16 ≤ fuel) (s : DispatchState Mem) :
    dispatchTile x { W := denseTensor M K 2, A := denseTensor K N 2, O := denseTensor M N 4 } pipelineDepth t fuel s =
      some (s.next pipelineDepth t
        { o := (t.sums x (rowMajor K.toNat) (rowMajor N.toNat) (rowMajor N.toNat)).foldl x.accumulate s.tile.o
          macs := s.tile.macs ++ t.macs }) := by
  have hM := M.toNat_lt
  have hN := N.toNat_lt
  have hK := K.toNat_lt
  rw [dispatchTile_eq]
  unfold kernelLoops
  dsimp only
  rw [denseTensor_stride M K (by omega) (by omega), denseTensor_stride K N (by omega) (by omega),
    denseTensor_stride M N (by omega) (by omega), tileLoops_eq x _ _ _ ht hM hN hK hfuel, Option.map_some]
  rw [t.sums_congr x ht (fun m hm k hk => strideIndex_eq hM hK hm hk) (fun k hk n hn => strideIndex_eq hK hN hk hn)
    (fun m hm n hn => strideIndex_eq hM hN hm hn)]

/-- The dispatcher ends and adds the partial sums of all tiles. -/
theorem tuDataflowExecuteMma_writes {R Mem : Type} (x : MmaOperands R Mem) (plugin : TuDataflowPlugin) (M N K : UInt16)
    {tileM tileN tileK : UInt16} (htM : tileM ≠ 0) (htN : tileN ≠ 0) (htK : tileK ≠ 0) (pipelineDepth : UInt16) (o : Mem) :
    ∃ result : MmaResult Mem,
      (∀ fuel, 2 ^ 16 ≤ fuel →
        tuDataflowExecuteMma x plugin (denseTensor M K 2) (denseTensor K N 2) (denseTensor M N 4) tileM tileN tileK
          pipelineDepth fuel o = some result) ∧
      result.o = ((mmaTiles M.toNat N.toNat K.toNat tileM.toNat tileN.toNat tileK.toNat).flatMap
        (MmaTile.sums x (rowMajor K.toNat) (rowMajor N.toNat) (rowMajor N.toNat))).foldl x.accumulate o := by
  let next (s : DispatchState Mem) (t : MmaTile) := s.next pipelineDepth.toNat t
    { o := (t.sums x (rowMajor K.toNat) (rowMajor N.toNat) (rowMajor N.toNat)).foldl x.accumulate s.tile.o
      macs := s.tile.macs ++ t.macs }
  let ts := mmaTiles M.toNat N.toNat K.toNat tileM.toNat tileN.toNat tileK.toNat
  let s : DispatchState Mem := { tile := { o := o, macs := [] }, plugin := plugin.init }
  let s' := ts.foldl next s
  have hrun : ∀ (l : List MmaTile) (s : DispatchState Mem), (l.foldl next s).tile.o =
      (l.flatMap (MmaTile.sums x (rowMajor K.toNat) (rowMajor N.toNat) (rowMajor N.toNat))).foldl x.accumulate s.tile.o := by
    intro l
    induction l with
    | nil => intro s; rfl
    | cons t l ih =>
      intro s
      rw [List.foldl_cons, ih, List.flatMap_cons, List.foldl_append]
      rfl
  refine ⟨{ o := s'.tile.o, macs := s'.tile.macs, plugin := { s'.plugin with
              totalFlops := u64 (s'.plugin.totalFlops + s'.totalFlops)
              totalTiles := u64 (s'.plugin.totalTiles + s'.tileCount)
              totalCycles := u64 (s'.plugin.totalCycles + s'.totalCycles) }, cycles := s'.totalCycles }, ?_, hrun ts s⟩
  intro fuel hfuel
  have hover := overTiles_eq dispatchCount_eq M.toNat_lt N.toNat_lt K.toNat_lt (toNat16_pos htM) (toNat16_pos htN)
    (toNat16_pos htK) hfuel (fun t ht s => dispatchTile_writes x pipelineDepth.toNat (within_of_mem ht) hfuel s) s
  unfold tuDataflowExecuteMma
  dsimp only
  rw [denseTensor_rows, denseTensor_cols, denseTensor_cols, hover]
  rfl

/-- A turn of the dispatcher on dense operands. -/
theorem dispatchTile_dense {R : Type} [Semiring R] (w a : Int → R) {M N K : UInt16} (pipelineDepth : Nat) {t : MmaTile}
    (ht : t.Within M.toNat N.toNat K.toNat) {fuel : Nat} (hfuel : 2 ^ 16 ≤ fuel) (s : DispatchState (Int → R)) :
    dispatchTile (exactOperands w a) { W := denseTensor M K 2, A := denseTensor K N 2, O := denseTensor M N 4 }
      pipelineDepth t fuel s = some (s.next pipelineDepth t (s.tile.after w a N.toNat K.toNat t)) := by
  rw [dispatchTile_writes _ pipelineDepth ht hfuel, t.sums_exact]
  rfl

/-- A turn of the inline tiling on operands whose indices fit type `int`. -/
theorem inlineTile_dense {R : Type} [Semiring R] (w a : Int → R) {M N K : UInt16} (peCols : Nat) {t : MmaTile}
    (ht : t.Within M.toNat N.toNat K.toNat) (hsizeW : M.toNat * K.toNat < 2 ^ 31) (hsizeA : K.toNat * N.toNat < 2 ^ 31)
    (hsizeO : M.toNat * N.toNat < 2 ^ 31) {fuel : Nat} (hfuel : 2 ^ 16 ≤ fuel) (s : InlineState (Int → R)) :
    inlineTile (exactOperands w a) N.toNat K.toNat peCols t fuel s = some
      { tile := s.tile.after w a N.toNat K.toNat t
        totalMmaTiles := u64 (s.totalMmaTiles + 1)
        totalMmaFlops := u64 (s.totalMmaFlops + t.mCount * t.nCount * t.kCount * 2)
        estimatedCycles := u64 (s.estimatedCycles + tuPePipelineDepth * peCols + t.kCount) } := by
  unfold inlineTile
  rw [tileLoops_exact w a _ _ _ ht M.toNat_lt N.toNat_lt K.toNat_lt hfuel, Option.map_some]
  rw [t.updates_congr w a ht (fun m hm k hk => intIndex_eq hsizeW hm hk) (fun k hk n hn => intIndex_eq hsizeA hk hn)
    (fun m hm n hn => intIndex_eq hsizeO hm hn)]
  rfl

/-- The output after the run: the product is added to it, and nothing else is written. -/
theorem product_added {R : Type} [Semiring R] {w a o : Int → R} {M N K : Nat} (o' : Int → R)
    (h : ∀ i, o' i = o i + ∑ m : Fin M, ∑ n : Fin N,
      if rowMajor N m n = i then ∑ k : Fin K, w (rowMajor K m k) * a (rowMajor N k n) else 0) :
    operandMatrix o' M N = operandMatrix o M N + operandMatrix w M K * operandMatrix a K N ∧
      ∀ i, i < 0 ∨ ((M * N : Nat) : Int) ≤ i → o' i = o i := by
  have hinjective : ∀ (m m' : Fin M) (n n' : Fin N), rowMajor N m n = rowMajor N m' n' → m = m' ∧ n = n' := by
    intro m m' n n' heq
    have heq : n.val + N * m.val = n'.val + N * m'.val := by
      unfold rowMajor at heq
      rw [Nat.mul_comm N, Nat.mul_comm N, Nat.add_comm, Nat.add_comm n'.val]
      exact_mod_cast heq
    have hN : 0 < N := Nat.zero_lt_of_lt n.isLt
    have hdiv := congrArg (· / N) heq
    have hmod := congrArg (· % N) heq
    simp only [Nat.add_mul_div_left _ _ hN, Nat.add_mul_mod_self_left, Nat.div_eq_of_lt n.isLt, Nat.div_eq_of_lt n'.isLt,
      Nat.mod_eq_of_lt n.isLt, Nat.mod_eq_of_lt n'.isLt, Nat.zero_add] at hdiv hmod
    exact ⟨Fin.ext hdiv, Fin.ext hmod⟩
  constructor
  · ext m n
    unfold operandMatrix
    rw [Matrix.add_apply, Matrix.mul_apply, Matrix.of_apply, Matrix.of_apply, h]
    congr 1
    rw [Finset.sum_eq_single m, Finset.sum_eq_single n, if_pos rfl]
    · rfl
    · intro n' _ hne
      rw [if_neg fun heq => hne (hinjective m m n' n heq).2]
    · intro hmem
      exact absurd (Finset.mem_univ n) hmem
    · intro m' _ hne
      apply Finset.sum_eq_zero
      intro n' _
      rw [if_neg fun heq => hne (hinjective m' m n' n heq).1]
    · intro hmem
      exact absurd (Finset.mem_univ m) hmem
  · intro i hi
    rw [h, Finset.sum_eq_zero, add_zero]
    intro m _
    apply Finset.sum_eq_zero
    intro n _
    rw [if_neg]
    have hlt := Digits.mul_add_lt m.isLt n.isLt
    unfold rowMajor
    omega

/-- A state of the inline tiling that has run the tiles `ts` from the counters of `s`. -/
theorem foldl_inline {R : Type} [Semiring R] (w a : Int → R) (N K peCols : Nat) (ts : List MmaTile)
    (s : InlineState (Int → R)) :
    let s' := ts.foldl (fun s t =>
      ({ tile := s.tile.after w a N K t
         totalMmaTiles := u64 (s.totalMmaTiles + 1)
         totalMmaFlops := u64 (s.totalMmaFlops + t.mCount * t.nCount * t.kCount * 2)
         estimatedCycles := u64 (s.estimatedCycles + tuPePipelineDepth * peCols + t.kCount) } : InlineState (Int → R))) s
    s'.tile = ts.foldl (fun s t => s.after w a N K t) s.tile ∧
      u64 s'.totalMmaFlops = u64 (s.totalMmaFlops + 2 * (ts.flatMap MmaTile.macs).length) ∧
      u64 s'.totalMmaTiles = u64 (s.totalMmaTiles + ts.length) := by
  induction ts generalizing s with
  | nil => exact ⟨rfl, rfl, rfl⟩
  | cons t ts ih =>
    obtain ⟨htile, hflops, htiles⟩ := ih
      { tile := s.tile.after w a N K t
        totalMmaTiles := u64 (s.totalMmaTiles + 1)
        totalMmaFlops := u64 (s.totalMmaFlops + t.mCount * t.nCount * t.kCount * 2)
        estimatedCycles := u64 (s.estimatedCycles + tuPePipelineDepth * peCols + t.kCount) }
    refine ⟨htile, hflops.trans ?_, htiles.trans ?_⟩
    · rw [u64_u64_add, List.flatMap_cons, List.length_append, t.length_macs]
      congr 1
      omega
    · rw [u64_u64_add, List.length_cons]
      congr 1
      omega

/-- For all 16-bit dimensions, all tiles and all plugins, on dense operands: the dispatcher ends, adds the product of the
operands to the output and writes nothing else, makes every product once, and counts the operations and the tiles.  The
inline tiling, on operands in SRAM, leaves the same output and counts the same. -/
theorem tuDataflowExecuteMma_product {R : Type} [Semiring R] (w a o : Int → R) (M N K : UInt16)
    {tileM tileN tileK : UInt16} (htM : tileM ≠ 0) (htN : tileN ≠ 0) (htK : tileK ≠ 0) (pipelineDepth : UInt16)
    (plugin : TuDataflowPlugin) :
    ∃ result : MmaResult (Int → R),
      (∀ fuel, 2 ^ 16 ≤ fuel →
        tuDataflowExecuteMma (exactOperands w a) plugin (denseTensor M K 2) (denseTensor K N 2) (denseTensor M N 4)
          tileM tileN tileK pipelineDepth fuel o = some result) ∧
      operandMatrix result.o M.toNat N.toNat = operandMatrix o M.toNat N.toNat +
        operandMatrix w M.toNat K.toNat * operandMatrix a K.toNat N.toNat ∧
      (∀ i, i < 0 ∨ ((M.toNat * N.toNat : Nat) : Int) ≤ i → result.o i = o i) ∧
      (∀ m n k, result.macs.count (m, n, k) = if m < M.toNat ∧ n < N.toNat ∧ k < K.toNat then 1 else 0) ∧
      result.plugin.totalFlops = u64 (plugin.totalFlops + 2 * (M.toNat * N.toNat * K.toNat)) ∧
      result.plugin.totalTiles = u64 (plugin.totalTiles +
        numTiles M.toNat tileM.toNat * numTiles N.toNat tileN.toNat * numTiles K.toNat tileK.toNat) ∧
      (tileN = tileK → 2 * (M.toNat * K.toNat) < 2 ^ 32 → 2 * (K.toNat * N.toNat) < 2 ^ 32 →
        4 * (M.toNat * N.toNat) < 2 ^ 32 → ∀ tiles flops cycles : Nat, ∃ s : InlineState (Int → R),
          (∀ fuel, 2 ^ 16 ≤ fuel → tuMmaInline (exactOperands w a) M N K tileM tileK fuel
            { tile := { o := o, macs := [] }, totalMmaTiles := tiles, totalMmaFlops := flops, estimatedCycles := cycles } =
              some s) ∧
          s.tile.o = result.o ∧ u64 s.totalMmaFlops = u64 (flops + 2 * (M.toNat * N.toNat * K.toNat)) ∧
          u64 s.totalMmaTiles = u64 (tiles +
            numTiles M.toNat tileM.toNat * numTiles N.toNat tileN.toNat * numTiles K.toNat tileK.toNat)) := by
  have hM := M.toNat_lt
  have hN := N.toNat_lt
  have hK := K.toNat_lt
  have htM' := toNat16_pos htM
  have htN' := toNat16_pos htN
  have htK' := toNat16_pos htK
  let ts := mmaTiles M.toNat N.toNat K.toNat tileM.toNat tileN.toNat tileK.toNat
  have hts : ts.length = _ := length_mmaTiles M.toNat N.toNat K.toNat tileM.toNat tileN.toNat tileK.toNat
  have hmacs : (ts.flatMap MmaTile.macs).length = _ := length_tileMacs htM' htN' htK'
  have hrun := foldl_after w a N.toNat K.toNat ts { o := o, macs := [] }
  rw [List.nil_append] at hrun
  let out := (ts.flatMap (MmaTile.updates w a (rowMajor K.toNat) (rowMajor N.toNat) (rowMajor N.toNat))).foldl addTo o
  obtain ⟨hproduct, hframe⟩ := product_added out (foldl_updates w a o htM' htN' htK')
  -- the dispatcher
  let s : DispatchState (Int → R) := { tile := { o := o, macs := [] }, plugin := plugin.init }
  let s' := ts.foldl (fun s t => s.next pipelineDepth.toNat t (s.tile.after w a N.toNat K.toNat t)) s
  obtain ⟨htile, hflops, htiles, hflops', htiles'⟩ := foldl_next w a N.toNat K.toNat pipelineDepth.toNat ts s
  obtain ⟨hinit, hinit', -, -⟩ := plugin.init_frame
  have htile : s'.tile = { o := out, macs := ts.flatMap MmaTile.macs } := htile.trans hrun
  refine ⟨{ o := s'.tile.o, macs := s'.tile.macs, plugin := { s'.plugin with
              totalFlops := u64 (s'.plugin.totalFlops + s'.totalFlops)
              totalTiles := u64 (s'.plugin.totalTiles + s'.tileCount)
              totalCycles := u64 (s'.plugin.totalCycles + s'.totalCycles) }, cycles := s'.totalCycles }, ?_, ?_, ?_, ?_, ?_, ?_, ?_⟩
  · intro fuel hfuel
    have hover := overTiles_eq dispatchCount_eq hM hN hK htM' htN' htK' hfuel
      (fun t ht s => dispatchTile_dense w a pipelineDepth.toNat (within_of_mem ht) hfuel s) s
    unfold tuDataflowExecuteMma
    dsimp only
    rw [denseTensor_rows, denseTensor_cols, denseTensor_cols, hover]
    rfl
  · rw [htile]
    exact hproduct
  · rw [htile]
    exact hframe
  · rw [htile]
    exact count_tileMacs htM' htN' htK'
  · show u64 (s'.plugin.totalFlops + s'.totalFlops) = _
    rw [hflops, hinit, ← u64_add_u64, hflops', u64_add_u64, hmacs, Nat.zero_add]
  · show u64 (s'.plugin.totalTiles + s'.tileCount) = _
    rw [htiles, hinit', ← u64_add_u64, htiles', u64_add_u64, hts, Nat.zero_add]
  · -- the inline tiling has one extent for columns and for the inner index
    rintro rfl hsizeW hsizeA hsizeO tiles flops cycles
    let s : InlineState (Int → R) := { tile := { o := o, macs := [] }, totalMmaTiles := tiles, totalMmaFlops := flops, estimatedCycles := cycles }
    obtain ⟨htileI, hflopsI, htilesI⟩ := foldl_inline w a N.toNat K.toNat tileN.toNat ts s
    refine ⟨_, fun fuel hfuel => overTiles_eq inlineCount_eq hM hN hK htM' htN' htN' hfuel
      (fun t ht s => inlineTile_dense w a tileN.toNat (within_of_mem ht) (by omega) (by omega) (by omega) hfuel s) s, ?_, ?_, ?_⟩
    · rw [htile]
      exact congrArg TileState.o (htileI.trans hrun)
    · rw [hflopsI, hmacs]
    · rw [htilesI, hts]

/-- A 3 by 2 matrix times a 2 by 3 matrix in tiles of 2 by 2 by 2: four tiles, three of them ragged. -/
theorem raggedTiles_product :
    ∃ result : MmaResult (Int → Int),
      (∀ fuel, 2 ^ 16 ≤ fuel →
        tuDataflowExecuteMma (exactOperands (fun i => i + 1) fun i => i - 2) { id := .rowStationary } (denseTensor 3 2 2)
          (denseTensor 2 3 2) (denseTensor 3 3 4) 2 2 2 4 fuel (fun _ => 10) = some result) ∧
      operandMatrix result.o 3 3 = !![10, 13, 16; 8, 15, 22; 6, 17, 28] ∧ result.o 9 = 10 ∧
      result.macs.count (2, 2, 1) = 1 ∧ result.plugin.totalFlops = 36 ∧ result.plugin.totalTiles = 4 ∧
      ∃ s : InlineState (Int → Int),
        (∀ fuel, 2 ^ 16 ≤ fuel → tuMmaInline (exactOperands (fun i => i + 1) fun i => i - 2) 3 3 2 2 2 fuel
          { tile := { o := fun _ => 10, macs := [] }, totalMmaTiles := 5, totalMmaFlops := 7, estimatedCycles := 0 } =
            some s) ∧
        s.tile.o = result.o ∧ u64 s.totalMmaFlops = 43 ∧ u64 s.totalMmaTiles = 9 := by
  obtain ⟨result, hrun, hproduct, hframe, hmacs, hflops, htiles, hinline⟩ :=
    tuDataflowExecuteMma_product (fun i => i + 1) (fun i => i - 2) (fun _ => (10 : Int)) 3 3 2
      (show (2 : UInt16) ≠ 0 by decide) (show (2 : UInt16) ≠ 0 by decide) (show (2 : UInt16) ≠ 0 by decide) 4
      { id := .rowStationary }
  refine ⟨result, hrun, hproduct.trans ?_, hframe 9 (by decide), hmacs 2 2 1, hflops.trans (by decide),
    htiles.trans (by decide), ?_⟩
  · decide
  · exact hinline rfl (by decide) (by decide) (by decide) 5 7 0

end Tusim
