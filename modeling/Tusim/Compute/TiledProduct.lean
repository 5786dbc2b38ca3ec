import Mathlib.Data.Matrix.Mul
import Tusim.Compute.Dataflow
import Tusim.Lib.Folds

/-!
# The tiled multiply is the product of matrices

The loops over tiles end and make every product once: the tiles cut the three dimensions into spans (`overTiles_eq`), and a
sum over the products of all tiles is the sum over all rows, columns and inner indices (`sum_tileMacs`).  In exact
arithmetic a tile adds its partial sums to the accumulators (`tileLoops_exact`), so together they add the product.
-/

namespace Tusim

open Word Digits WrapLoop Accumulation

/-! ### Tiles -/

/-- The tiles of a multiply in the order in which they are visited. -/
def mmaTiles (M N K tileM tileN tileK : Nat) : List MmaTile :=
  (tileSpans M tileM).flatMap fun m => (tileSpans N tileN).flatMap fun n => (tileSpans K tileK).map fun k =>
    { mStart := m.1, mCount := m.2, nStart := n.1, nCount := n.2, kStart := k.1, kCount := k.2 }

theorem tileCountOf_eq (bound : Nat) {tile : Nat} (ht : 0 < tile) : tileCountOf bound tile = numTiles bound tile := by
  unfold tileCountOf numTiles
  rcases Nat.eq_zero_or_pos (bound % tile) with h | h
  · obtain ⟨q, rfl⟩ := Nat.dvd_of_mod_eq_zero h
    rw [if_neg (by simp), Nat.add_sub_assoc ht, Nat.mul_add_div ht, Nat.div_eq_of_lt (by omega),
      Nat.mul_div_cancel_left q ht]
  · rw [if_pos (by omega)]
    have hdiv := Nat.div_add_mod bound tile
    have hmod := Nat.mod_lt bound ht
    have hsplit : bound + tile - 1 = tile * (bound / tile + 1) + (bound % tile - 1) := by
      rw [Nat.mul_add, Nat.mul_one]
      omega
    have hrest : (bound % tile - 1) / tile = 0 := Nat.div_eq_of_lt (by omega)
    rw [hsplit, Nat.mul_add_div ht, hrest, Nat.add_zero]

theorem numTiles_le (bound : Nat) {tile : Nat} (ht : 0 < tile) : numTiles bound tile ≤ bound := by
  by_contra h
  have hlt := mul_lt_of_lt_numTiles (Nat.not_le.1 h)
  have hle := Nat.mul_le_mul_left bound ht
  omega

theorem dispatchCount_eq {bound tile i : Nat} (hi : i < numTiles bound tile) :
    dispatchCount bound tile i = min tile (bound - i * tile) := by
  have hlt := mul_lt_of_lt_numTiles hi
  unfold dispatchCount
  rw [Nat.succ_mul]
  split <;> omega

/-- Both ways to bound a tile give the same extent. -/
theorem inlineCount_eq {bound tile i : Nat} (hi : i < numTiles bound tile) :
    inlineCount bound tile i = min tile (bound - i * tile) := by
  have hlt := mul_lt_of_lt_numTiles hi
  unfold inlineCount
  rw [Nat.succ_mul]
  split <;> omega

/-- The loops over tiles end, if every tile does. -/
theorem overTiles_eq {S : Type} {count : Nat → Nat → Nat → Nat}
    (hcount : ∀ {bound tile i}, i < numTiles bound tile → count bound tile i = min tile (bound - i * tile))
    {M N K tileM tileN tileK : Nat} (hM : M < 2 ^ 16) (hN : N < 2 ^ 16) (hK : K < 2 ^ 16)
    (htM : 0 < tileM) (htN : 0 < tileN) (htK : 0 < tileK) {body : MmaTile → S → Option S} {f : S → MmaTile → S}
    {fuel : Nat} (hfuel : 2 ^ 16 ≤ fuel) (hbody : ∀ t ∈ mmaTiles M N K tileM tileN tileK, ∀ s, body t s = some (f s t))
    (s : S) :
    overTiles count M N K tileM tileN tileK body fuel s = some ((mmaTiles M N K tileM tileN tileK).foldl f s) := by
  have hloop : ∀ {bound tile : Nat} (_ : bound < 2 ^ 16) (_ : 0 < tile) {body : Nat → S → Option S}
      {g : S → Nat × Nat → S} (_ : ∀ p ∈ tileSpans bound tile, ∀ i < numTiles bound tile, p = (i * tile, count bound tile i) →
        ∀ s, body i s = some (g s p)) (s : S),
      forU16 (tileCountOf bound tile) body fuel s = some ((tileSpans bound tile).foldl g s) := by
    intro bound tile hbound ht body g hg s
    have hle := numTiles_le bound ht
    unfold forU16
    rw [tileCountOf_eq bound ht, loop_count (f := fun s i => g s (i * tile, count bound tile i)) (by omega) (by omega)]
    · unfold tileSpans
      rw [List.foldl_map]
      congr 1
      apply List.foldl_ext
      intro s i hi
      rw [hcount (List.mem_range.1 hi)]
    · intro i hi s
      refine hg _ ?_ i hi rfl s
      unfold tileSpans
      rw [hcount hi]
      exact List.mem_map_of_mem (List.mem_range.2 hi)
  have htile : ∀ m ∈ tileSpans M tileM, ∀ n ∈ tileSpans N tileN, ∀ k ∈ tileSpans K tileK,
      ({ mStart := m.1, mCount := m.2, nStart := n.1, nCount := n.2, kStart := k.1, kCount := k.2 } : MmaTile) ∈
        mmaTiles M N K tileM tileN tileK := by
    intro m hm n hn k hk
    exact List.mem_flatMap.2 ⟨m, hm, List.mem_flatMap.2 ⟨n, hn, List.mem_map_of_mem hk⟩⟩
  unfold overTiles mmaTiles
  rw [List.foldl_flatMap]
  apply hloop hM htM
  rintro m hm mi hmi rfl s
  rw [List.foldl_flatMap]
  apply hloop hN htN
  rintro n hn ni hni rfl s
  rw [List.foldl_map]
  apply hloop hK htK
  rintro k hk ki hki rfl s
  exact hbody _ (htile _ hm _ hn _ hk) s

/-! ### Products -/

/-- Row, column and inner index of the products of a tile. -/
def MmaTile.macs (t : MmaTile) : List (Nat × Nat × Nat) :=
  (List.range t.mCount).flatMap fun m => (List.range t.nCount).flatMap fun n =>
    (List.range t.kCount).map fun k => (t.mStart + m, t.nStart + n, t.kStart + k)

section

variable {S : Type} [AddCommMonoid S]

theorem sum_tileSpans {bound tile : Nat} (ht : 0 < tile) (f : Nat → S) :
    ((tileSpans bound tile).map fun p => ((List.range p.2).map fun i => f (p.1 + i)).sum).sum =
      ((List.range bound).map f).sum := by
  rw [← tiles_flatten bound ht, ← List.flatMap_id, sum_map_flatMap]
  unfold tiles
  rw [List.map_map]
  congr 1
  apply List.map_congr_left
  intro p _
  dsimp only [Function.comp_apply, id_eq]
  rw [List.map_map]
  rfl

/-- A sum over the products of all tiles is the sum over all products. -/
theorem sum_tileMacs {M N K tileM tileN tileK : Nat} (htM : 0 < tileM) (htN : 0 < tileN) (htK : 0 < tileK)
    (f : Nat → Nat → Nat → S) :
    (((mmaTiles M N K tileM tileN tileK).flatMap MmaTile.macs).map fun p => f p.1 p.2.1 p.2.2).sum =
      ((List.range M).map fun m => ((List.range N).map fun n => ((List.range K).map fun k => f m n k).sum).sum).sum := by
  have hmacs : ∀ t : MmaTile, (t.macs.map fun p => f p.1 p.2.1 p.2.2).sum =
      ((List.range t.mCount).map fun m => ((List.range t.nCount).map fun n => ((List.range t.kCount).map fun k =>
        f (t.mStart + m) (t.nStart + n) (t.kStart + k)).sum).sum).sum := by
    intro t
    unfold MmaTile.macs
    rw [sum_map_flatMap]
    congr 1
    apply List.map_congr_left
    intro m _
    rw [sum_map_flatMap]
    congr 1
    apply List.map_congr_left
    intro n _
    rw [List.map_map]
    rfl
  have hcolumn : ∀ m, ((tileSpans N tileN).map fun q => ((tileSpans K tileK).map fun r =>
      ((List.range q.2).map fun n => ((List.range r.2).map fun k => f m (q.1 + n) (r.1 + k)).sum).sum).sum).sum =
        ((List.range N).map fun n => ((List.range K).map fun k => f m n k).sum).sum := by
    intro m
    rw [← sum_tileSpans htN fun n => ((List.range K).map fun k => f m n k).sum]
    congr 1
    apply List.map_congr_left
    intro q _
    rw [sum_map_comm]
    congr 1
    apply List.map_congr_left
    intro n _
    exact sum_tileSpans htK fun k => f m (q.1 + n) k
  unfold mmaTiles
  rw [sum_map_flatMap, sum_map_flatMap, ← sum_tileSpans htM]
  congr 1
  apply List.map_congr_left
  intro p _
  rw [sum_map_flatMap]
  simp only [List.map_map, Function.comp_def, hmacs]
  calc ((tileSpans N tileN).map fun q => ((tileSpans K tileK).map fun r => ((List.range p.2).map fun m =>
          ((List.range q.2).map fun n => ((List.range r.2).map fun k =>
            f (p.1 + m) (q.1 + n) (r.1 + k)).sum).sum).sum).sum).sum
      = ((tileSpans N tileN).map fun q => ((List.range p.2).map fun m => ((tileSpans K tileK).map fun r =>
          ((List.range q.2).map fun n => ((List.range r.2).map fun k =>
            f (p.1 + m) (q.1 + n) (r.1 + k)).sum).sum).sum).sum).sum := by
        congr 1
        apply List.map_congr_left
        intro q _
        exact sum_map_comm ..
    _ = _ := by
        rw [sum_map_comm]
        congr 1
        apply List.map_congr_left
        intro m _
        exact hcolumn (p.1 + m)

end

theorem length_tileMacs {M N K tileM tileN tileK : Nat} (htM : 0 < tileM) (htN : 0 < tileN) (htK : 0 < tileK) :
    ((mmaTiles M N K tileM tileN tileK).flatMap MmaTile.macs).length = M * N * K := by
  have h := sum_tileMacs (M := M) (N := N) (K := K) htM htN htK fun _ _ _ => 1
  simpa [Nat.mul_assoc] using h

/-- Every product is made once. -/
theorem count_tileMacs {M N K tileM tileN tileK : Nat} (htM : 0 < tileM) (htN : 0 < tileN) (htK : 0 < tileK)
    (m n k : Nat) :
    ((mmaTiles M N K tileM tileN tileK).flatMap MmaTile.macs).count (m, n, k) =
      if m < M ∧ n < N ∧ k < K then 1 else 0 := by
  have hcount : ∀ l : List (Nat × Nat × Nat),
      l.count (m, n, k) = (l.map fun p => if p.1 = m then (if p.2.1 = n then if p.2.2 = k then 1 else 0 else 0) else 0).sum := by
    intro l
    induction l with
    | nil => rfl
    | cons p l ih =>
      obtain ⟨a, b, c⟩ := p
      rw [List.count_cons, ih, List.map_cons, List.sum_cons, Nat.add_comm]
      congr 1
      by_cases ha : a = m <;> by_cases hb : b = n <;> by_cases hc : c = k <;> simp [ha, hb, hc]
  have hinner : ∀ a b, ((List.range K).map fun c => if a = m then (if b = n then if c = k then 1 else 0 else 0) else 0).sum =
      if b = n then (if a = m then if k < K then 1 else 0 else 0) else 0 := by
    intro a b
    by_cases ha : a = m
    · by_cases hb : b = n
      · simp only [if_pos ha, if_pos hb]
        exact sum_map_range_ite K k 1
      · simp [hb]
    · simp [ha]
  have houter : ∀ a, (if n < N then (if a = m then if k < K then 1 else 0 else 0) else 0) =
      if a = m then (if n < N then if k < K then 1 else 0 else 0) else 0 := by
    intro a
    by_cases ha : a = m <;> simp [ha]
  rw [hcount, sum_tileMacs htM htN htK fun a b c => if a = m then (if b = n then if c = k then 1 else 0 else 0) else 0]
  simp only [hinner, sum_map_range_ite, houter]
  by_cases hm : m < M <;> by_cases hn : n < N <;> by_cases hk : k < K <;> simp [hm, hn, hk]

theorem length_mmaTiles (M N K tileM tileN tileK : Nat) :
    (mmaTiles M N K tileM tileN tileK).length = numTiles M tileM * numTiles N tileN * numTiles K tileK := by
  unfold mmaTiles tileSpans
  simp [List.length_flatMap, Function.comp_def, Nat.mul_assoc]

end Tusim
