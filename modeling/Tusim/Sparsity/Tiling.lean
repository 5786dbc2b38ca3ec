import Mathlib.Algebra.BigOperators.Ring.List
import Mathlib.Algebra.Order.Ring.Nat
import Mathlib.Data.List.TakeWhile
import Tusim.Sparsity.Structured2of4

/-!
# The tiled sparse multiply

While every tile counter leaves its dimension before it wraps, the tiled multiply visits the tiles and agrees with the
untiled one.  The counters are 16 bits wide, though: a counter that wraps starts again inside its dimension, and the loop
ends never or after adding products twice.  `tiledAgrees_iff` says when this does not happen.
-/

/-!
### The products of the tiles

The tiles of the three dimensions cut the products of the multiply into blocks.  A tile takes exactly the weights of a
row whose `k` is in it (`tileTerms_eq`), so every element gets its products in the same order as without tiles
(`filter_tiledProducts`), and as far as rows do not overlap that is all the output depends on (`foldl_accumulate_congr`).
-/

namespace Tusim

open Word WrapLoop

namespace TuSparsityMma

variable {α : Type} (x : TuSparsityMma α)

/-! ### The weights of a row -/

theorem maskNthBit_lt {mask : UInt8} {nz kOff : Nat} (h : tuSparsity2of4MaskNthBit mask nz = some kOff) : kOff < 4 := by
  unfold tuSparsity2of4MaskNthBit at h
  exact List.mem_range.1 (List.mem_of_mem_filter (List.mem_of_getElem? h))

/-- The set bits of a mask are found from the lowest one up. -/
theorem maskNthBit_mono {mask : UInt8} {a b nz nz' : Nat} (hlt : nz < nz')
    (ha : tuSparsity2of4MaskNthBit mask nz = some a) (hb : tuSparsity2of4MaskNthBit mask nz' = some b) : a < b := by
  unfold tuSparsity2of4MaskNthBit at ha hb
  obtain ⟨hi, rfl⟩ := List.getElem?_eq_some_iff.1 ha
  obtain ⟨hj, rfl⟩ := List.getElem?_eq_some_iff.1 hb
  have hsorted : ((List.range 4).filter fun i => mask.toNat.testBit i).Pairwise (· < ·) :=
    List.pairwise_lt_range.filter _
  exact List.pairwise_iff_getElem.1 hsorted nz nz' hi hj hlt

/-- Every `k`. -/
def anyK : Nat → Bool := fun _ => true

theorem weightTerm_eq_some {inTile : Nat → Bool} {m kGroup nz : Nat} {t : Nat × α}
    (h : x.weightTerm inTile m kGroup nz = some t) :
    ∃ kOff, tuSparsity2of4MaskNthBit (x.mask m kGroup) nz = some kOff ∧ t.1 = kGroup * 4 + kOff ∧
      inTile t.1 = true ∧ t.1 < x.K.toNat := by
  unfold weightTerm at h
  obtain ⟨kOff, hkOff, h⟩ := Option.bind_eq_some_iff.1 h
  refine ⟨kOff, hkOff, ?_⟩
  split at h
  · cases h
  · rename_i hk
    split at h
    · cases h
    · cases h
      simp only [Bool.or_eq_true, Bool.not_eq_true', decide_eq_true_eq, not_or, Bool.not_eq_false] at hk
      exact ⟨rfl, hk.1, by omega⟩

/-- The tile decides which weights are taken, and nothing else. -/
theorem weightTerm_tile (inTile : Nat → Bool) (m kGroup nz : Nat) :
    x.weightTerm inTile m kGroup nz = (x.weightTerm anyK m kGroup nz).filter fun t => inTile t.1 := by
  unfold weightTerm anyK
  cases tuSparsity2of4MaskNthBit (x.mask m kGroup) nz with
  | none => rfl
  | some kOff =>
    dsimp only [Option.bind_some]
    by_cases hk : kGroup * 4 + kOff ≥ x.K.toNat
    · simp [hk]
    · by_cases hz : x.isZero (x.weight m kGroup nz) = true
      · simp [hz]
      · by_cases ht : inTile (kGroup * 4 + kOff) = true
        · simp [hk, hz, ht, Option.filter]
        · simp [hk, hz, ht, Option.filter]

theorem groupTerms_tile (inTile : Nat → Bool) (m kGroup : Nat) :
    x.groupTerms inTile m kGroup = (x.groupTerms anyK m kGroup).filter fun t => inTile t.1 := by
  unfold groupTerms
  rw [List.filter_filterMap]
  apply List.filterMap_congr
  intro nz _
  exact x.weightTerm_tile inTile m kGroup nz

theorem mem_groupTerms {inTile : Nat → Bool} {m kGroup : Nat} {t : Nat × α}
    (h : t ∈ x.groupTerms inTile m kGroup) :
    kGroup * 4 ≤ t.1 ∧ t.1 < kGroup * 4 + 4 ∧ inTile t.1 = true ∧ t.1 < x.K.toNat := by
  obtain ⟨nz, _, hterm⟩ := List.mem_filterMap.1 h
  obtain ⟨kOff, hkOff, hk, hin, hlt⟩ := x.weightTerm_eq_some hterm
  have hoff := maskNthBit_lt hkOff
  exact ⟨by omega, by omega, hin, hlt⟩

/-- The weights of row `m` that are not skipped. -/
def allTerms (m : Nat) : List (Nat × α) := x.rowTerms anyK (List.range x.kGroups) m

theorem allTerms_sorted (m : Nat) : (x.allTerms m).Pairwise fun t u => t.1 < u.1 := by
  unfold allTerms rowTerms
  rw [List.pairwise_flatMap]
  constructor
  · intro kGroup _
    unfold groupTerms
    rw [List.pairwise_filterMap]
    apply List.pairwise_lt_range.imp
    intro nz nz' hlt t ht u hu
    obtain ⟨a, ha, hta, -⟩ := x.weightTerm_eq_some ht
    obtain ⟨b, hb, hub, -⟩ := x.weightTerm_eq_some hu
    have hab := maskNthBit_mono hlt ha hb
    omega
  · apply List.pairwise_lt_range.imp
    intro kGroup kGroup' hlt t ht u hu
    have hta := x.mem_groupTerms ht
    have hub := x.mem_groupTerms hu
    omega

theorem allTerms_lt (m : Nat) : ∀ t ∈ x.allTerms m, t.1 < x.K.toNat := by
  intro t ht
  obtain ⟨kGroup, _, ht⟩ := List.mem_flatMap.1 ht
  exact (x.mem_groupTerms ht).2.2.2

/-- The weights of row `m` that the tile at `kTile` takes. -/
def tileTerms (tileK kTile m : Nat) : List (Nat × α) :=
  let kCount := mmaTileCount x.K.toNat tileK kTile
  let kStartGroup := kTile / 4
  let kEndGroup := (kTile + kCount + 3) / 4
  let groups := (List.range' kStartGroup (kEndGroup - kStartGroup)).takeWhile (· < x.kGroups)
  x.rowTerms (fun k => kTile ≤ k && k < kTile + kCount) groups m

theorem mmaTileCount_eq {bound step start : Nat} (h : start < bound) :
    mmaTileCount bound step start = min step (bound - start) := by
  unfold mmaTileCount
  split <;> omega

private theorem range_append {a b n : Nat} (hab : a ≤ b) (hbn : b ≤ n) :
    List.range n = List.range a ++ (List.range' a (b - a) ++ List.range' b (n - b)) := by
  obtain ⟨c, rfl⟩ := Nat.exists_eq_add_of_le hab
  obtain ⟨d, rfl⟩ := Nat.exists_eq_add_of_le hbn
  rw [Nat.add_sub_cancel_left, Nat.add_sub_cancel_left, List.range'_append_1, List.range_eq_range',
    List.range_eq_range', Nat.add_assoc]
  simpa using (List.range'_append_1 (s := 0) (m := a) (n := c + d)).symm

/-- The groups of a tile hold all of its weights. -/
theorem tileTerms_eq {tileK kTile : Nat} (hk : kTile < x.K.toNat) (m : Nat) :
    x.tileTerms tileK kTile m =
      (x.allTerms m).filter fun t => kTile ≤ t.1 ∧ t.1 < kTile + min tileK (x.K.toNat - kTile) := by
  unfold tileTerms allTerms rowTerms
  rw [mmaTileCount_eq hk]
  dsimp only
  generalize hkCount : min tileK (x.K.toNat - kTile) = kCount
  have hle : kTile + kCount ≤ x.K.toNat := by omega
  have hend : (kTile + kCount + 3) / 4 ≤ x.kGroups := by
    unfold kGroups
    omega
  have hgroups : (List.range' (kTile / 4) ((kTile + kCount + 3) / 4 - kTile / 4)).takeWhile (· < x.kGroups) =
      List.range' (kTile / 4) ((kTile + kCount + 3) / 4 - kTile / 4) := by
    apply List.takeWhile_eq_self_iff.2
    intro kGroup hkGroup
    rw [List.mem_range'_1] at hkGroup
    simp only [decide_eq_true_eq]
    omega
  have hsplit := range_append (Nat.div_le_div_right (show kTile ≤ kTile + kCount + 3 by omega)) hend
  -- the groups outside hold no weight of the tile
  have houtside : ∀ kGroup, (kGroup < kTile / 4 ∨ (kTile + kCount + 3) / 4 ≤ kGroup) →
      x.groupTerms (fun k => kTile ≤ k && k < kTile + kCount) m kGroup = [] := by
    intro kGroup hout
    rw [List.eq_nil_iff_forall_not_mem]
    intro t ht
    have hmem := x.mem_groupTerms ht
    simp only [Bool.and_eq_true, decide_eq_true_eq] at hmem
    omega
  have hall : (List.range x.kGroups).flatMap (x.groupTerms (fun k => kTile ≤ k && k < kTile + kCount) m) =
      ((List.range x.kGroups).flatMap (x.groupTerms anyK m)).filter
        fun t => kTile ≤ t.1 ∧ t.1 < kTile + kCount := by
    rw [List.filter_flatMap]
    apply List.flatMap_congr
    intro kGroup _
    rw [x.groupTerms_tile]
    apply List.filter_congr
    intro t _
    simp
  rw [hgroups, ← hall, hsplit, List.flatMap_append, List.flatMap_append]
  have hbefore : (List.range (kTile / 4)).flatMap
      (x.groupTerms (fun k => kTile ≤ k && k < kTile + kCount) m) = [] :=
    List.flatMap_eq_nil_iff.2 fun kGroup hkGroup => houtside kGroup (Or.inl (List.mem_range.1 hkGroup))
  have hafter : (List.range' ((kTile + kCount + 3) / 4) (x.kGroups - (kTile + kCount + 3) / 4)).flatMap
      (x.groupTerms (fun k => kTile ≤ k && k < kTile + kCount) m) = [] :=
    List.flatMap_eq_nil_iff.2 fun kGroup hkGroup => houtside kGroup (Or.inr (List.mem_range'_1.1 hkGroup).1)
  rw [hbefore, hafter, List.nil_append, List.append_nil]

/-! ### The order of the products -/

/-- The products of the tiles at the given counters. -/
def tiledProducts (tileM tileN tileK : Nat) (ms ns ks : List Nat) : List (Nat × Nat × α) :=
  ms.flatMap fun mTile => ns.flatMap fun nTile => ks.flatMap fun kTile =>
    x.blockProducts (List.range' mTile (mmaTileCount x.M.toNat tileM mTile))
      (List.range' nTile (mmaTileCount x.N.toNat tileN nTile)) (x.tileTerms tileK kTile)

/-- The products of the multiply without tiles. -/
def allProducts : List (Nat × Nat × α) :=
  x.blockProducts (List.range x.M.toNat) (List.range x.N.toNat) x.allTerms

theorem flatMap_tileTerms {tileK : Nat} (hK : 0 < tileK) (m : Nat) :
    (starts x.K.toNat tileK).flatMap (fun kTile => x.tileTerms tileK kTile m) = x.allTerms m := by
  rw [List.flatMap_congr fun kTile hkTile => x.tileTerms_eq (mem_starts_lt hkTile) m]
  exact starts_filter hK (x.allTerms_sorted m) (x.allTerms_lt m)

theorem flatMap_tile {bound step : Nat} (hstep : 0 < step) :
    (starts bound step).flatMap (fun i => List.range' i (mmaTileCount bound step i)) = List.range bound := by
  rw [← starts_cover hstep]
  apply List.flatMap_congr
  intro i hi
  rw [mmaTileCount_eq (mem_starts_lt hi)]

/-- Every element gets the same products in the same order. -/
theorem filter_tiledProducts {tileM tileN tileK : Nat} (hM : 0 < tileM) (hN : 0 < tileN) (hK : 0 < tileK) (m n : Nat) :
    (x.tiledProducts tileM tileN tileK (starts x.M.toNat tileM) (starts x.N.toNat tileN)
      (starts x.K.toNat tileK)).filter (isAt m n) = x.allProducts.filter (isAt m n) := by
  have hrows : (starts x.M.toNat tileM).flatMap (fun i => List.range' i (mmaTileCount x.M.toNat tileM i)) =
      List.range x.M.toNat := flatMap_tile hM
  have hcolumns : (starts x.N.toNat tileN).flatMap (fun i => List.range' i (mmaTileCount x.N.toNat tileN i)) =
      List.range x.N.toNat := flatMap_tile hN
  have htile : ∀ mTile nTile, ((starts x.K.toNat tileK).flatMap fun kTile =>
      x.blockProducts (List.range' mTile (mmaTileCount x.M.toNat tileM mTile))
        (List.range' nTile (mmaTileCount x.N.toNat tileN nTile)) (x.tileTerms tileK kTile)).filter (isAt m n) =
      if n ∈ List.range' nTile (mmaTileCount x.N.toNat tileN nTile) then
        (if m ∈ List.range' mTile (mmaTileCount x.M.toNat tileM mTile) then
          (x.allTerms m).map (x.product m n) else []) else [] := by
    intro mTile nTile
    rw [List.filter_flatMap,
      List.flatMap_congr fun kTile _ => x.filter_blockProducts List.nodup_range' List.nodup_range' _ m n]
    by_cases hm : m ∈ List.range' mTile (mmaTileCount x.M.toNat tileM mTile)
    · by_cases hn : n ∈ List.range' nTile (mmaTileCount x.N.toNat tileN nTile)
      · simp only [hm, hn, if_true]
        rw [← List.map_flatMap, x.flatMap_tileTerms hK]
      · simp [hn]
    · simp [hm]
  have hrow : ∀ mTile, ((starts x.N.toNat tileN).flatMap fun nTile => (starts x.K.toNat tileK).flatMap fun kTile =>
      x.blockProducts (List.range' mTile (mmaTileCount x.M.toNat tileM mTile))
        (List.range' nTile (mmaTileCount x.N.toNat tileN nTile)) (x.tileTerms tileK kTile)).filter (isAt m n) =
      if m ∈ List.range' mTile (mmaTileCount x.M.toNat tileM mTile) then
        (if n ∈ List.range x.N.toNat then (x.allTerms m).map (x.product m n) else []) else [] := by
    intro mTile
    rw [List.filter_flatMap, List.flatMap_congr fun nTile _ => htile mTile nTile, flatMap_ite_mem, hcolumns]
    · by_cases hm : m ∈ List.range' mTile (mmaTileCount x.M.toNat tileM mTile)
      · simp [hm]
      · simp [hm]
    · rw [hcolumns]
      exact List.nodup_range
  unfold tiledProducts allProducts
  rw [List.filter_flatMap, List.flatMap_congr fun mTile _ => hrow mTile, flatMap_ite_mem, hrows,
    x.filter_blockProducts List.nodup_range List.nodup_range]
  rw [hrows]
  exact List.nodup_range

theorem tiledProducts_perm {tileM tileN tileK : Nat} (hM : 0 < tileM) (hN : 0 < tileN) (hK : 0 < tileK) :
    (x.tiledProducts tileM tileN tileK (starts x.M.toNat tileM) (starts x.N.toNat tileN)
      (starts x.K.toNat tileK)).Perm x.allProducts := by
  classical
  rw [List.perm_iff_count]
  rintro ⟨m, n, v⟩
  have hcount : ∀ l : List (Nat × Nat × α), l.count (m, n, v) = (l.filter (isAt m n)).count (m, n, v) := by
    intro l
    rw [List.count_filter]
    simp [isAt]
  rw [hcount, x.filter_tiledProducts hM hN hK, ← hcount]

/-! ### The loops -/

theorem mmaTile_eq (tileM tileN tileK mTile nTile kTile : Nat) (s : MmaState α) :
    mmaTile x tileM tileN tileK mTile nTile kTile s =
      (x.blockProducts (List.range' mTile (mmaTileCount x.M.toNat tileM mTile))
        (List.range' nTile (mmaTileCount x.N.toNat tileN nTile)) (x.tileTerms tileK kTile)).foldl x.accumulate s :=
  x.foldl_macRow _ _ _ _ s

theorem visited_ne_nil {bound step w n : Nat} (hbound : 0 < bound) {l : List Nat}
    (hl : visited bound step w n 0 = some l) : l ≠ [] := by
  cases n with
  | zero => cases hl
  | succ n =>
    unfold visited at hl
    rw [if_pos hbound] at hl
    obtain ⟨rest, _, rfl⟩ := Option.map_eq_some_iff.1 hl
    exact List.cons_ne_nil 0 rest

/-- A loop whose body is another loop with the same counters every time. -/
theorem loop_map_eq {S β : Type} {bound step w n : Nat} (hbound : 0 < bound) (inner : Option β)
    (f : β → Nat → S → S) (s : S) :
    loop bound step w (fun i s => inner.map fun b => f b i s) n 0 s =
      (visited bound step w n 0).bind fun l => inner.map fun b => l.foldl (fun s i => f b i s) s := by
  rw [loop_eq_visited]
  cases hl : visited bound step w n 0 with
  | none => rfl
  | some l =>
    rw [Option.bind_some, Option.bind_some]
    cases inner with
    | none =>
      cases l with
      | nil => exact absurd rfl (visited_ne_nil hbound hl)
      | cons i l => rfl
    | some b => exact List.foldlM_pure

theorem dims_pos (hx : x.accepted = true) : 0 < x.M.toNat ∧ 0 < x.N.toNat := by
  unfold accepted at hx
  simp only [Bool.and_eq_true, Bool.not_eq_true', Bool.or_eq_false_iff, beq_eq_false_iff_ne] at hx
  obtain ⟨⟨⟨⟨⟨⟨hM, hN⟩, _⟩, _⟩, _⟩, _⟩, _⟩ := hx
  exact ⟨toNat16_pos hM, toNat16_pos hN⟩

/-- The tiled multiply adds the products of the tiles that its counters visit. -/
theorem tuSparsity2of4MmaTiled_eq {tileM tileN tileK : UInt16} (hx : x.accepted = true) (hM : tileM ≠ 0)
    (hN : tileN ≠ 0) (hK : tileK ≠ 0) (fuel : Nat) (o : Nat → α) :
    tuSparsity2of4MmaTiled x tileM tileN tileK fuel o =
      (visited x.M.toNat tileM.toNat (2 ^ 16) fuel 0).bind fun ms =>
        (visited x.N.toNat tileN.toNat (2 ^ 16) fuel 0).bind fun ns =>
          (visited x.K.toNat tileK.toNat (2 ^ 16) fuel 0).map fun ks =>
            (x.tiledProducts tileM.toNat tileN.toNat tileK.toNat ms ns ks).foldl x.accumulate
              { o := o, macCount := 0, added := [] } := by
  have hdims := x.dims_pos hx
  unfold tuSparsity2of4MmaTiled
  dsimp only
  rw [if_pos (by simp [hx, hM, hN, hK])]
  have hkLoop : ∀ mTile nTile s, loop x.K.toNat tileK.toNat (2 ^ 16)
      (fun kTile s => some (mmaTile x tileM.toNat tileN.toNat tileK.toNat mTile nTile kTile s)) fuel 0 s =
      (visited x.K.toNat tileK.toNat (2 ^ 16) fuel 0).map fun ks =>
        ks.foldl (fun s kTile => mmaTile x tileM.toNat tileN.toNat tileK.toNat mTile nTile kTile s) s := by
    intro mTile nTile s
    rw [loop_eq_visited]
    cases visited x.K.toNat tileK.toNat (2 ^ 16) fuel 0 with
    | none => rfl
    | some ks => exact List.foldlM_pure
  have hpair : ∀ mTile s, loop x.N.toNat tileN.toNat (2 ^ 16) (fun nTile s => loop x.K.toNat tileK.toNat (2 ^ 16)
      (fun kTile s => some (mmaTile x tileM.toNat tileN.toNat tileK.toNat mTile nTile kTile s)) fuel 0 s) fuel 0 s =
      (Option.map₂ Prod.mk (visited x.N.toNat tileN.toNat (2 ^ 16) fuel 0)
        (visited x.K.toNat tileK.toNat (2 ^ 16) fuel 0)).map fun b => b.1.foldl (fun s nTile => b.2.foldl
          (fun s kTile => mmaTile x tileM.toNat tileN.toNat tileK.toNat mTile nTile kTile s) s) s := by
    intro mTile s
    simp only [hkLoop]
    rw [loop_map_eq hdims.2 _ fun (ks : List Nat) nTile s => ks.foldl
      (fun s kTile => mmaTile x tileM.toNat tileN.toNat tileK.toNat mTile nTile kTile s) s]
    cases visited x.N.toNat tileN.toNat (2 ^ 16) fuel 0 <;>
      cases visited x.K.toNat tileK.toNat (2 ^ 16) fuel 0 <;> rfl
  simp only [hpair]
  rw [loop_map_eq hdims.1 _ fun (b : List Nat × List Nat) mTile s => b.1.foldl (fun s nTile => b.2.foldl
    (fun s kTile => mmaTile x tileM.toNat tileN.toNat tileK.toNat mTile nTile kTile s) s) s]
  congr 1
  funext ms
  cases visited x.N.toNat tileN.toNat (2 ^ 16) fuel 0 with
  | none => rfl
  | some ns =>
    cases visited x.K.toNat tileK.toNat (2 ^ 16) fuel 0 with
    | none => rfl
    | some ks =>
      unfold tiledProducts
      simp only [List.foldl_flatMap, ← mmaTile_eq]
      rfl

/-- Different elements of the output are different cells. -/
def RowsApart : Prop :=
  ∀ m < x.M.toNat, ∀ n < x.N.toNat, ∀ m' < x.M.toNat, ∀ n' < x.N.toNat,
    x.cell m n = x.cell m' n' → m = m' ∧ n = n'

theorem mem_allProducts {e : Nat × Nat × α} (he : e ∈ x.allProducts) : e.1 < x.M.toNat ∧ e.2.1 < x.N.toNat := by
  obtain ⟨m, hm, he⟩ := List.mem_flatMap.1 he
  obtain ⟨t, _, he⟩ := List.mem_flatMap.1 he
  obtain ⟨n, hn, rfl⟩ := List.mem_map.1 he
  exact ⟨List.mem_range.1 hm, List.mem_range.1 hn⟩

/-- Products that reach every element in the same order leave the same output. -/
theorem foldl_accumulate_congr (hapart : x.RowsApart) {es es' : List (Nat × Nat × α)}
    (hes : ∀ e ∈ es, e.1 < x.M.toNat ∧ e.2.1 < x.N.toNat) (hperm : es'.Perm es)
    (hat : ∀ m n, es'.filter (isAt m n) = es.filter (isAt m n)) (s : MmaState α) :
    (es'.foldl x.accumulate s).o = (es.foldl x.accumulate s).o := by
  have hcell : ∀ l : List (Nat × Nat × α), (∀ e ∈ l, e.1 < x.M.toNat ∧ e.2.1 < x.N.toNat) →
      ∀ m < x.M.toNat, ∀ n < x.N.toNat,
        (l.filter fun e => x.cell e.1 e.2.1 = x.cell m n) = l.filter (isAt m n) := by
    intro l hl m hm n hn
    apply List.filter_congr
    intro e he
    obtain ⟨hem, hen⟩ := hl e he
    unfold isAt
    rw [decide_eq_decide]
    constructor
    · exact hapart e.1 hem e.2.1 hen m hm n hn
    · rintro ⟨h1, h2⟩
      rw [h1, h2]
  have hes' : ∀ e ∈ es', e.1 < x.M.toNat ∧ e.2.1 < x.N.toNat := fun e he => hes e (hperm.mem_iff.1 he)
  funext a
  rw [foldl_accumulate_o, foldl_accumulate_o]
  by_cases ha : ∃ m < x.M.toNat, ∃ n < x.N.toNat, x.cell m n = a
  · obtain ⟨m, hm, n, hn, rfl⟩ := ha
    rw [hcell es hes m hm n hn, hcell es' hes' m hm n hn, hat]
  · have hnone : ∀ l : List (Nat × Nat × α), (∀ e ∈ l, e.1 < x.M.toNat ∧ e.2.1 < x.N.toNat) →
        (l.filter fun e => x.cell e.1 e.2.1 = a) = [] := by
      intro l hl
      rw [List.filter_eq_nil_iff]
      intro e he heq
      exact ha ⟨e.1, (hl e he).1, e.2.1, (hl e he).2, of_decide_eq_true heq⟩
    rw [hnone es hes, hnone es' hes']

end TuSparsityMma

end Tusim

namespace Tusim

open Word WrapLoop Digits

/-- The tiled multiply ends, with the count of the untiled one, the same products added to every element in the same
order, and the same output as far as its rows do not overlap. -/
def TiledAgrees (M N K tileM tileN tileK : UInt16) : Prop :=
  ∀ (α : Type) (x : TuSparsityMma α) (o : Nat → α), x.M = M → x.N = N → x.K = K →
    ∃ fuel s, tuSparsity2of4MmaTiled x tileM tileN tileK fuel o = some s ∧
      s.macCount = (tuSparsity2of4MmaFp16 x o).macCount ∧
      (∀ m n, s.addedTo m n = (tuSparsity2of4MmaFp16 x o).addedTo m n) ∧
      (x.RowsApart → s.o = (tuSparsity2of4MmaFp16 x o).o)

/-- The tile counter of a dimension leaves it before it wraps. -/
def CounterFits (bound step : UInt16) : Prop := WrapLoop.Fits bound.toNat step.toNat (2 ^ 16)

instance (bound step : UInt16) : Decidable (CounterFits bound step) := inferInstanceAs (Decidable (WrapLoop.Fits _ _ _))

variable {α : Type}

theorem tuSparsity2of4MmaFp16_eq {x : TuSparsityMma α} (hx : x.accepted = true) (o : Nat → α) :
    tuSparsity2of4MmaFp16 x o = x.allProducts.foldl x.accumulate { o := o, macCount := 0, added := [] } := by
  unfold tuSparsity2of4MmaFp16
  dsimp only
  rw [if_pos hx, x.foldl_macRow]
  rfl

/-- A call that is rejected leaves the output alone, in tiles or not. -/
theorem agrees_of_not_accepted {x : TuSparsityMma α} (hx : x.accepted = false) (tileM tileN tileK : UInt16)
    (o : Nat → α) :
    ∃ fuel s, tuSparsity2of4MmaTiled x tileM tileN tileK fuel o = some s ∧
      s.macCount = (tuSparsity2of4MmaFp16 x o).macCount ∧
      (∀ m n, s.addedTo m n = (tuSparsity2of4MmaFp16 x o).addedTo m n) ∧
      (x.RowsApart → s.o = (tuSparsity2of4MmaFp16 x o).o) := by
  refine ⟨0, { o := o, macCount := 0, added := [] }, ?_, ?_⟩
  · unfold tuSparsity2of4MmaTiled
    dsimp only
    rw [hx]
    rfl
  · unfold tuSparsity2of4MmaFp16
    dsimp only
    rw [hx]
    exact ⟨rfl, fun _ _ => rfl, fun _ => rfl⟩

theorem tiledAgrees_of_fits {M N K tileM tileN tileK : UInt16} (htileM : tileM ≠ 0) (htileN : tileN ≠ 0)
    (htileK : tileK ≠ 0) (hM : CounterFits M tileM) (hN : CounterFits N tileN) (hK : CounterFits K tileK) :
    TiledAgrees M N K tileM tileN tileK := by
  rintro α x o rfl rfl rfl
  by_cases hx : x.accepted = true
  · have hvM := visited_of_fits x.M.toNat_lt (toNat16_pos htileM) hM
    have hvN := visited_of_fits x.N.toNat_lt (toNat16_pos htileN) hN
    have hvK := visited_of_fits x.K.toNat_lt (toNat16_pos htileK) hK
    generalize 1 + numTiles x.M.toNat tileM.toNat = fuelM at hvM
    generalize 1 + numTiles x.N.toNat tileN.toNat = fuelN at hvN
    generalize 1 + numTiles x.K.toNat tileK.toNat = fuelK at hvK
    have hperm := x.tiledProducts_perm (toNat16_pos htileM) (toNat16_pos htileN) (toNat16_pos htileK)
    have hat := x.filter_tiledProducts (toNat16_pos htileM) (toNat16_pos htileN) (toNat16_pos htileK)
    refine ⟨fuelM + fuelN + fuelK, (x.tiledProducts tileM.toNat tileN.toNat tileK.toNat (starts x.M.toNat tileM.toNat)
      (starts x.N.toNat tileN.toNat) (starts x.K.toNat tileK.toNat)).foldl x.accumulate
        { o := o, macCount := 0, added := [] }, ?_, ?_, ?_, ?_⟩
    · have hM' := visited_mono hvM (fuelN + fuelK)
      have hN' := visited_mono hvN (fuelM + fuelK)
      have hK' := visited_mono hvK (fuelM + fuelN)
      rw [← Nat.add_assoc] at hM'
      rw [Nat.add_left_comm, ← Nat.add_assoc] at hN'
      rw [Nat.add_comm] at hK'
      rw [x.tuSparsity2of4MmaTiled_eq hx htileM htileN htileK, hM', hN', hK']
      rfl
    · rw [tuSparsity2of4MmaFp16_eq hx, x.foldl_accumulate_macCount, x.foldl_accumulate_macCount, hperm.length_eq]
    · intro m n
      unfold MmaState.addedTo
      rw [tuSparsity2of4MmaFp16_eq hx, x.foldl_accumulate_added, x.foldl_accumulate_added, List.nil_append,
        List.nil_append, hat]
    · intro hapart
      rw [tuSparsity2of4MmaFp16_eq hx]
      exact x.foldl_accumulate_congr hapart (fun e he => x.mem_allProducts he) hperm hat _
  · exact agrees_of_not_accepted (by simpa using hx) ..

/-! ### Counters that wrap -/

/-- A multiply of ones whose weights all have the given mask. -/
def probe (M N K : UInt16) (mask : UInt8) : TuSparsityMma Nat where
  readElem _ _ := 1
  isZero _ := false
  mul a b := a * b
  add a b := a + b
  oStride := 0
  wPacked _ := mask
  wMasks _ := mask
  aDense _ := 0
  aStride := 0
  M := M
  N := N
  K := K
  wElemSize := 1
  aElemSize := 1

theorem probe_accepted {M N K : UInt16} {mask : UInt8} (hM : M ≠ 0) (hN : N ≠ 0) (hK : K ≠ 0) (hK4 : K.toNat % 4 = 0)
    (hmask : tuSparsity2of4MaskIsValid mask = true ∧ mask &&& 0x0F = mask) : (probe M N K mask).accepted = true := by
  unfold TuSparsityMma.accepted TuSparsityMma.validatePackedMasks
  simp [probe, hM, hN, hK, hK4, hmask]

/-- The number of products of the tiles is a product over the three dimensions. -/
theorem length_tiledProducts (M N K : UInt16) (mask : UInt8) (tileM tileN tileK : Nat) (ms ns ks : List Nat) :
    ((probe M N K mask).tiledProducts tileM tileN tileK ms ns ks).length =
      (ms.map (mmaTileCount M.toNat tileM)).sum * ((ns.map (mmaTileCount N.toNat tileN)).sum *
        (ks.map fun kTile => ((probe M N K mask).tileTerms tileK kTile 0).length).sum) := by
  have hterms : ∀ kTile m, (probe M N K mask).tileTerms tileK kTile m = (probe M N K mask).tileTerms tileK kTile 0 :=
    fun _ _ => rfl
  have hblock : ∀ (mTile nTile kTile : Nat), ((probe M N K mask).blockProducts
      (List.range' mTile (mmaTileCount M.toNat tileM mTile)) (List.range' nTile (mmaTileCount N.toNat tileN nTile))
      ((probe M N K mask).tileTerms tileK kTile)).length =
      mmaTileCount M.toNat tileM mTile * (mmaTileCount N.toNat tileN nTile *
        ((probe M N K mask).tileTerms tileK kTile 0).length) := by
    intro mTile nTile kTile
    unfold TuSparsityMma.blockProducts TuSparsityMma.termProducts
    simp only [List.length_flatMap, hterms, List.length_map, List.length_range', List.map_const', List.sum_replicate,
      nsmul_eq_mul, Nat.cast_id]
    rw [Nat.mul_comm (mmaTileCount N.toNat tileN nTile)]
  unfold TuSparsityMma.tiledProducts
  simp only [List.length_flatMap]
  show (ms.map fun mTile => (ns.map fun nTile => (ks.map fun kTile => ((probe M N K mask).blockProducts
    (List.range' mTile (mmaTileCount M.toNat tileM mTile)) (List.range' nTile (mmaTileCount N.toNat tileN nTile))
    ((probe M N K mask).tileTerms tileK kTile)).length).sum).sum).sum = _
  simp only [hblock, List.sum_map_mul_left, List.sum_map_mul_right]

/-- The tile at a counter inside the dimension is not empty. -/
theorem mmaTileCount_pos {bound step start : Nat} (hstart : start < bound) (hstep : 0 < step) :
    0 < mmaTileCount bound step start := by
  rw [TuSparsityMma.mmaTileCount_eq hstart]
  omega

/-- The mask of the lowest position and of position `j`. -/
def lowMask (j : Nat) : UInt8 := UInt8.ofNat (1 + 2 ^ j)

theorem lowMask_spec {j : Nat} (hj : j = 1 ∨ j = 2 ∨ j = 3) :
    (tuSparsity2of4MaskIsValid (lowMask j) = true ∧ lowMask j &&& 0x0F = lowMask j) ∧
      tuSparsity2of4MaskNthBit (lowMask j) 0 = some 0 ∧ tuSparsity2of4MaskNthBit (lowMask j) 1 = some j := by
  rcases hj with rfl | rfl | rfl <;> decide

/-- A tile whose first `k` is selected by the mask has products. -/
theorem length_tileTerms_pos {M N K : UInt16} {j tileK kTile : Nat} (hj : j = 1 ∨ j = 2 ∨ j = 3)
    (hk : kTile < K.toNat) (htile : 0 < tileK) (hsel : kTile % 4 = 0 ∨ kTile % 4 = j) :
    0 < ((probe M N K (lowMask j)).tileTerms tileK kTile 0).length := by
  obtain ⟨-, hbit0, hbit1⟩ := lowMask_spec hj
  have hbit : ∃ nz < 2, tuSparsity2of4MaskNthBit (lowMask j) nz = some (kTile % 4) := by
    rcases hsel with h | h
    · exact ⟨0, by decide, by rw [h, hbit0]⟩
    · exact ⟨1, by decide, by rw [h, hbit1]⟩
  obtain ⟨nz, hnz, hbit⟩ := hbit
  have hterm : (probe M N K (lowMask j)).weightTerm TuSparsityMma.anyK 0 (kTile / 4) nz = some (kTile, 1) := by
    show (tuSparsity2of4MaskNthBit (lowMask j) nz).bind _ = _
    rw [hbit, Option.bind_some, Nat.div_add_mod' kTile 4]
    simp [TuSparsityMma.anyK, probe, hk, TuSparsityMma.weight]
  have hall : (kTile, 1) ∈ (probe M N K (lowMask j)).allTerms 0 := by
    refine List.mem_flatMap.2 ⟨kTile / 4, ?_, List.mem_filterMap.2 ⟨nz, List.mem_range.2 hnz, hterm⟩⟩
    rw [List.mem_range]
    show kTile / 4 < (K.toNat + 3) / 4
    omega
  apply List.length_pos_of_mem (a := (kTile, 1))
  rw [TuSparsityMma.tileTerms_eq _ hk, List.mem_filter]
  refine ⟨hall, ?_⟩
  show decide (kTile ≤ kTile ∧ kTile < kTile + min tileK (K.toNat - kTile)) = true
  rw [decide_eq_true_eq]
  omega

/-- What the counters visit beyond the tiles makes a sum larger. -/
theorem sum_visited_le {bound step : UInt16} {fuel : Nat} {l : List Nat} (hstep : step ≠ 0)
    (hl : visited bound.toNat step.toNat (2 ^ 16) fuel 0 = some l) (f : Nat → Nat) :
    ((starts bound.toNat step.toNat).map f).sum ≤ (l.map f).sum ∧
      (¬ CounterFits bound step →
        0 < f (numTiles bound.toNat step.toNat * step.toNat % 2 ^ 16) →
        ((starts bound.toNat step.toNat).map f).sum < (l.map f).sum) := by
  by_cases hfits : CounterFits bound step
  · have hstepPos : 0 < step.toNat := toNat16_pos hstep
    have hall := visited_mono (visited_of_fits bound.toNat_lt hstepPos hfits) fuel
    rw [Nat.add_comm, visited_mono hl] at hall
    cases hall
    exact ⟨Nat.le_refl _, fun h => absurd hfits h⟩
  · obtain ⟨-, rest, rfl⟩ := visited_of_not_fits bound.toNat_lt step.toNat_lt hfits hl
    rw [List.map_append, List.sum_append, List.map_cons, List.sum_cons]
    exact ⟨by omega, fun _ hpos => by omega⟩

theorem sum_starts_pos {bound step : Nat} (hbound : 0 < bound) (hstep : 0 < step) {f : Nat → Nat} (hf : 0 < f 0) :
    0 < ((starts bound step).map f).sum := by
  have hcover := le_numTiles_mul bound hstep
  have htiles : 0 < numTiles bound step := by
    rcases Nat.eq_zero_or_pos (numTiles bound step) with h | h
    · rw [h] at hcover
      omega
    · exact h
  obtain ⟨n, hn⟩ := Nat.exists_eq_succ_of_ne_zero htiles.ne'
  rw [starts_eq, hn, List.range_succ_eq_map, List.map_cons, List.map_cons, List.sum_cons, Nat.zero_mul]
  omega

/-- A counter that wraps adds products twice, if the loop ends at all. -/
theorem TiledAgrees.fits {M N K tileM tileN tileK : UInt16} (h : TiledAgrees M N K tileM tileN tileK) (hM : M ≠ 0)
    (hN : N ≠ 0) (hK : K ≠ 0) (hK4 : K.toNat % 4 = 0) (htileM : tileM ≠ 0) (htileN : tileN ≠ 0) (htileK : tileK ≠ 0) :
    CounterFits M tileM ∧ CounterFits N tileN ∧ CounterFits K tileK := by
  -- the mask selects the place where the counter of `K` starts again
  obtain ⟨j, hj, hsel⟩ : ∃ j, (j = 1 ∨ j = 2 ∨ j = 3) ∧
      (numTiles K.toNat tileK.toNat * tileK.toNat % 2 ^ 16 % 4 = 0 ∨
        numTiles K.toNat tileK.toNat * tileK.toNat % 2 ^ 16 % 4 = j) := by
    generalize numTiles K.toNat tileK.toNat * tileK.toNat % 2 ^ 16 = i
    by_cases hi : i % 4 = 0
    · exact ⟨1, Or.inl rfl, Or.inl hi⟩
    · exact ⟨i % 4, by omega, Or.inr rfl⟩
  have hx := probe_accepted hM hN hK hK4 (lowMask_spec hj).1
  obtain ⟨fuel, s, hs, hcount, -⟩ := h Nat (probe M N K (lowMask j)) (fun _ => 0) rfl rfl rfl
  rw [TuSparsityMma.tuSparsity2of4MmaTiled_eq _ hx htileM htileN htileK] at hs
  obtain ⟨ms, hms, hs⟩ := Option.bind_eq_some_iff.1 hs
  obtain ⟨ns, hns, hs⟩ := Option.bind_eq_some_iff.1 hs
  obtain ⟨ks, hks, rfl⟩ := Option.map_eq_some_iff.1 hs
  have hperm := (probe M N K (lowMask j)).tiledProducts_perm (toNat16_pos htileM) (toNat16_pos htileN) (toNat16_pos htileK)
  rw [tuSparsity2of4MmaFp16_eq hx, TuSparsityMma.foldl_accumulate_macCount,
    TuSparsityMma.foldl_accumulate_macCount, ← hperm.length_eq] at hcount
  have hrows := sum_visited_le htileM hms (mmaTileCount M.toNat tileM.toNat)
  have hcolumns := sum_visited_le htileN hns (mmaTileCount N.toNat tileN.toNat)
  have hterms := sum_visited_le htileK hks
    fun kTile => ((probe M N K (lowMask j)).tileTerms tileK.toNat kTile 0).length
  have hrowsPos := sum_starts_pos (toNat16_pos hM) (toNat16_pos htileM) (mmaTileCount_pos (toNat16_pos hM) (toNat16_pos htileM))
  have hcolumnsPos := sum_starts_pos (toNat16_pos hN) (toNat16_pos htileN) (mmaTileCount_pos (toNat16_pos hN) (toNat16_pos htileN))
  have htermsPos := sum_starts_pos (f := fun kTile => ((probe M N K (lowMask j)).tileTerms tileK.toNat kTile 0).length)
    (toNat16_pos hK) (toNat16_pos htileK) (length_tileTerms_pos (M := M) (N := N) hj (toNat16_pos hK) (toNat16_pos htileK) (Or.inl rfl))
  have hrowsPos' := Nat.lt_of_lt_of_le hrowsPos hrows.1
  have hcolumnsPos' := Nat.lt_of_lt_of_le hcolumnsPos hcolumns.1
  have htermsPos' := Nat.lt_of_lt_of_le htermsPos hterms.1
  have hlengths := (length_tiledProducts M N K (lowMask j) tileM.toNat tileN.toNat tileK.toNat ms ns ks).symm.trans
    ((Nat.add_left_cancel hcount).trans (length_tiledProducts M N K (lowMask j) tileM.toNat tileN.toNat tileK.toNat _ _ _))
  have hwrapped : ∀ {bound step : UInt16} {l : List Nat}, ¬ CounterFits bound step →
      visited bound.toNat step.toNat (2 ^ 16) fuel 0 = some l →
      numTiles bound.toNat step.toNat * step.toNat % 2 ^ 16 < bound.toNat :=
    fun hfits hl => (visited_of_not_fits (UInt16.toNat_lt _) (UInt16.toNat_lt _) hfits hl).1
  refine ⟨?_, ?_, ?_⟩
  · by_contra hfits
    have hmore := hrows.2 hfits (mmaTileCount_pos (hwrapped hfits hms) (toNat16_pos htileM))
    have hle := Nat.mul_le_mul hcolumns.1 hterms.1
    have hlt := Nat.mul_lt_mul_of_lt_of_le hmore hle (Nat.mul_pos hcolumnsPos' htermsPos')
    exact absurd hlengths hlt.ne'
  · by_contra hfits
    have hmore := hcolumns.2 hfits (mmaTileCount_pos (hwrapped hfits hns) (toNat16_pos htileN))
    have hlt := Nat.mul_lt_mul_of_lt_of_le hmore hterms.1 htermsPos'
    have hlt' := Nat.mul_lt_mul_of_le_of_lt hrows.1 hlt hrowsPos'
    exact absurd hlengths hlt'.ne'
  · by_contra hfits
    have hmore := hterms.2 hfits (length_tileTerms_pos hj (hwrapped hfits hks) (toNat16_pos htileK) hsel)
    have hlt := Nat.mul_lt_mul_of_le_of_lt hcolumns.1 hmore hcolumnsPos'
    have hlt' := Nat.mul_lt_mul_of_le_of_lt hrows.1 hlt hrowsPos'
    exact absurd hlengths hlt'.ne'

/-- For all dimensions with `K` a multiple of four and all tiles: the tiled multiply agrees with the untiled one exactly if
there is nothing to do, or each counter leaves its dimension before it wraps. -/
theorem tiledAgrees_iff (M N K tileM tileN tileK : UInt16) (hK4 : K.toNat % 4 = 0) (htileM : tileM ≠ 0)
    (htileN : tileN ≠ 0) (htileK : tileK ≠ 0) :
    TiledAgrees M N K tileM tileN tileK ↔
      M = 0 ∨ N = 0 ∨ K = 0 ∨ (CounterFits M tileM ∧ CounterFits N tileN ∧ CounterFits K tileK) := by
  constructor
  · intro h
    by_contra hnot
    simp only [not_or] at hnot
    exact hnot.2.2.2 (h.fits hnot.1 hnot.2.1 hnot.2.2.1 hK4 htileM htileN htileK)
  · intro h
    have hempty : (M = 0 ∨ N = 0 ∨ K = 0) → TiledAgrees M N K tileM tileN tileK := by
      rintro hzero α x o rfl rfl rfl
      have hx : x.accepted = false := by
        unfold TuSparsityMma.accepted
        rcases hzero with h | h | h <;> simp [h]
      exact agrees_of_not_accepted hx ..
    rcases h with h | h | h | ⟨hM, hN, hK⟩
    · exact hempty (Or.inl h)
    · exact hempty (Or.inr (Or.inl h))
    · exact hempty (Or.inr (Or.inr h))
    · exact tiledAgrees_of_fits htileM htileN htileK hM hN hK

/-- Ragged tiles of a small multiply. -/
theorem tiledAgrees_ragged : TiledAgrees 5 7 8 2 3 3 :=
  (tiledAgrees_iff 5 7 8 2 3 3 (by decide) (by decide) (by decide) (by decide)).2
    (Or.inr (Or.inr (Or.inr (by decide))))

/-- With 65535 rows in tiles of two the row counter never leaves the matrix. -/
theorem not_tiledAgrees_wrap : ¬ TiledAgrees 65535 4 4 2 4 4 := by
  intro h
  have hfits := h.fits (by decide) (by decide) (by decide) (by decide) (by decide) (by decide) (by decide)
  exact absurd hfits.1 (by decide)

end Tusim
