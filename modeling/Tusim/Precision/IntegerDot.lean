import Mathlib.Algebra.Order.BigOperators.Group.Finset
import Mathlib.Data.Int.Interval
import Tusim.Lib.Folds

/-!
# INT8 products in INT32 accumulators

`tu_int8_dot_product` and `tu_int8_mma_tile` multiply 8-bit integers and add up in 32 bits; leaving the 32 bits is
undefined behaviour, here `none`.  A product is at most `2 ^ 14`, so that `131071` of them always fit and `131072` need
not (`inInt32_sum`, `tuInt8DotProduct_overflow`).  The sums of a tile have at most `65535` products and fit; what may
not fit is the output they are added to (`tuInt8MmaTile_eq`).
-/

namespace Tusim.Precision

open Finset

def InInt32 (x : Int) : Prop := -2 ^ 31 ≤ x ∧ x < 2 ^ 31

instance (x : Int) : Decidable (InInt32 x) := inferInstanceAs (Decidable (_ ∧ _))

/-- The addition of two `int32_t`. -/
def addInt32 (x y : Int) : Option Int := if InInt32 (x + y) then some (x + y) else none

def tuInt8DotProduct (a b : Nat → Int8) (n : Nat) : Option Int :=
  (List.range n).foldlM (fun sum i => addInt32 sum ((a i).toInt * (b i).toInt)) 0

/-- The index `row * width + column` of the source, computed as an `int`. -/
def elementIndex (row width column : Nat) : Option Nat :=
  if row * width + column < 2 ^ 31 then some (row * width + column) else none

/-- The cells of `O` are `int32_t`. -/
def tuInt8MmaTile (W A : Nat → Int8) (O : Nat → Int) (M N K : UInt16) : Option (Nat → Int) :=
  (List.range M.toNat).foldlM (fun O m =>
    (List.range N.toNat).foldlM (fun O n => do
      let sum ← (List.range K.toNat).foldlM (fun sum k => do
        let w ← elementIndex m K.toNat k
        let a ← elementIndex k N.toNat n
        addInt32 sum ((W w).toInt * (A a).toInt)) 0
      let o ← elementIndex m N.toNat n
      let value ← addInt32 (O o) sum
      some (Function.update O o value)) O) O

/-! ### Products of bytes -/

theorem natAbs_mul_le (x y : Int8) : (x.toInt * y.toInt).natAbs ≤ 2 ^ 14 := by
  have hbyte : ∀ z : Int8, z.toInt.natAbs ≤ 2 ^ 7 := by
    intro z
    have hlow := z.le_toInt
    have hhigh := z.toInt_lt
    omega
  calc (x.toInt * y.toInt).natAbs = x.toInt.natAbs * y.toInt.natAbs := Int.natAbs_mul ..
    _ ≤ 2 ^ 7 * 2 ^ 7 := Nat.mul_le_mul (hbyte x) (hbyte y)
    _ = 2 ^ 14 := rfl

theorem natAbs_sum_le (a b : Nat → Int8) (n : Nat) :
    (∑ i ∈ range n, (a i).toInt * (b i).toInt).natAbs ≤ n * 2 ^ 14 := by
  induction n with
  | zero => simp
  | succ n ih =>
    have hlast := natAbs_mul_le (a n) (b n)
    rw [sum_range_succ]
    omega

/-- `2 ^ 17 - 1` products fit into 32 bits. -/
theorem inInt32_sum (a b : Nat → Int8) {n : Nat} (hn : n ≤ 131071) :
    InInt32 (∑ i ∈ range n, (a i).toInt * (b i).toInt) := by
  have hle := natAbs_sum_le a b n
  unfold InInt32
  omega

/-! ### Dot products -/

theorem tuInt8DotProduct_eq (a b : Nat → Int8) (n : Nat) :
    tuInt8DotProduct a b n =
      if ∀ k < n, InInt32 (∑ i ∈ range (k + 1), (a i).toInt * (b i).toInt) then
        some (∑ i ∈ range n, (a i).toInt * (b i).toInt)
      else none := by
  have hloop := LoopSum.foldlM_within InInt32 (fun i => (a i).toInt * (b i).toInt) n 0
  simp only [zero_add] at hloop
  exact hloop

/-- `2 ^ 17` products of `-128` with itself are `2 ^ 31`. -/
theorem tuInt8DotProduct_overflow {n : Nat} (hn : 131072 ≤ n) :
    tuInt8DotProduct (fun _ => -128) (fun _ => -128) n = none := by
  rw [tuInt8DotProduct_eq, if_neg]
  intro hall
  have hlast := (hall 131071 (by omega)).2
  rw [sum_const, card_range, nsmul_eq_mul] at hlast
  exact absurd hlast (by decide)

/-! ### Tiles -/

section

variable (W A : Nat → Int8) (O : Nat → Int) {M N K : UInt16}

/-- The product of row `m` and column `n`. -/
def tileProduct (N K : UInt16) (m n : Nat) : Int :=
  ∑ k ∈ range K.toNat, (W (m * K.toNat + k)).toInt * (A (k * N.toNat + n)).toInt

theorem elementIndex_eq {rows width row column : Nat} (h : rows * width ≤ 2 ^ 31) (hrow : row < rows)
    (hcolumn : column < width) : elementIndex row width column = some (row * width + column) := by
  have hle : (row + 1) * width ≤ rows * width := Nat.mul_le_mul_right width hrow
  rw [Nat.succ_mul] at hle
  exact if_pos (by omega)

/-- The sum of a cell fits, since there are less than `2 ^ 16` products. -/
theorem tileSum_eq (hW : M.toNat * K.toNat ≤ 2 ^ 31) (hA : K.toNat * N.toNat ≤ 2 ^ 31) {m n : Nat} (hm : m < M.toNat)
    (hn : n < N.toNat) :
    (List.range K.toNat).foldlM (fun sum k => do
        let w ← elementIndex m K.toNat k
        let a ← elementIndex k N.toNat n
        addInt32 sum ((W w).toInt * (A a).toInt)) 0 = some (tileProduct W A N K m n) := by
  have hbody : ∀ sum, ∀ k ∈ List.range K.toNat, (do
        let w ← elementIndex m K.toNat k
        let a ← elementIndex k N.toNat n
        addInt32 sum ((W w).toInt * (A a).toInt)) =
      addInt32 sum ((W (m * K.toNat + k)).toInt * (A (k * N.toNat + n)).toInt) := by
    intro sum k hk
    rw [List.mem_range] at hk
    rw [elementIndex_eq hW hm hk, elementIndex_eq hA hk hn]
    rfl
  have hbound := K.toNat_lt
  rw [PartialFold.foldlM_congr hbody]
  show tuInt8DotProduct (fun k => W (m * K.toNat + k)) (fun k => A (k * N.toNat + n)) K.toNat = _
  rw [tuInt8DotProduct_eq, if_pos fun k hk => inInt32_sum _ _ (by omega)]
  rfl

/-- The cells of a tile and the products that are added to them. -/
def tileUpdates (M N K : UInt16) : List (Nat × Int) :=
  (List.range M.toNat).flatMap fun m =>
    (List.range N.toNat).map fun n => (m * N.toNat + n, tileProduct W A N K m n)

theorem tileUpdates_cells : (tileUpdates W A M N K).map Prod.fst = List.range (M.toNat * N.toNat) := by
  unfold tileUpdates
  rw [List.map_flatMap]
  simp only [List.map_map, Function.comp_def]
  induction M.toNat with
  | zero => simp
  | succ r ih => rw [List.range_succ, List.flatMap_append, ih, List.flatMap_singleton, Nat.succ_mul, List.range_add]

theorem tileUpdates_nodup : ((tileUpdates W A M N K).map Prod.fst).Nodup := by
  rw [tileUpdates_cells]
  exact List.nodup_range

theorem mem_tileUpdates {u : Nat × Int} :
    u ∈ tileUpdates W A M N K ↔
      ∃ m < M.toNat, ∃ n < N.toNat, u = (m * N.toNat + n, tileProduct W A N K m n) := by
  unfold tileUpdates
  simp only [List.mem_flatMap, List.mem_map, List.mem_range]
  constructor
  · rintro ⟨m, hm, n, hn, rfl⟩
    exact ⟨m, hm, n, hn, rfl⟩
  · rintro ⟨m, hm, n, hn, rfl⟩
    exact ⟨m, hm, n, hn, rfl⟩

/-- Where the indices are `int`s, the tile adds its products to the cells. -/
theorem tuInt8MmaTile_eq (hW : M.toNat * K.toNat ≤ 2 ^ 31) (hA : K.toNat * N.toNat ≤ 2 ^ 31)
    (hO : M.toNat * N.toNat ≤ 2 ^ 31) :
    tuInt8MmaTile W A O M N K =
      if ∀ u ∈ tileUpdates W A M N K, InInt32 (O u.1 + u.2) then
        some ((tileUpdates W A M N K).foldl Accumulation.addTo O)
      else none := by
  rw [← Accumulation.foldlM_addWithin (tileUpdates_nodup W A)]
  unfold tuInt8MmaTile tileUpdates
  rw [PartialFold.foldlM_flatMap]
  refine PartialFold.foldlM_congr (fun O m hm => ?_) O
  rw [List.foldlM_map]
  refine PartialFold.foldlM_congr (fun O n hn => ?_) O
  rw [List.mem_range] at hm hn
  rw [tileSum_eq W A hW hA hm hn, elementIndex_eq hO hm hn]
  show (addInt32 (O (m * N.toNat + n)) (tileProduct W A N K m n)).bind _ = _
  unfold addInt32 Accumulation.addWithin
  dsimp only
  by_cases hok : InInt32 (O (m * N.toNat + n) + tileProduct W A N K m n)
  · rw [if_pos hok, if_pos hok]
    rfl
  · rw [if_neg hok, if_neg hok]
    rfl

/-- What the tile leaves: every cell with its product added, and nothing else changed. -/
structure TileExact (M N K : UInt16) (O' : Nat → Int) : Prop where
  cell : ∀ m < M.toNat, ∀ n < N.toNat, O' (m * N.toNat + n) = O (m * N.toNat + n) + tileProduct W A N K m n
  other : ∀ i, M.toNat * N.toNat ≤ i → O' i = O i

theorem tileExact_foldl : TileExact W A O M N K ((tileUpdates W A M N K).foldl Accumulation.addTo O) where
  cell m hm n hn := Accumulation.foldl_addTo_of_mem (tileUpdates_nodup W A)
    ((mem_tileUpdates W A).2 ⟨m, hm, n, hn, rfl⟩) O
  other i hi := by
    refine Accumulation.foldl_addTo_of_notMem ?_ O
    rw [tileUpdates_cells, List.mem_range]
    exact Nat.not_lt.2 hi

/-- A tile is exact if and only if every output fits. -/
theorem tuInt8MmaTile_exact_iff (hW : M.toNat * K.toNat ≤ 2 ^ 31) (hA : K.toNat * N.toNat ≤ 2 ^ 31)
    (hO : M.toNat * N.toNat ≤ 2 ^ 31) :
    (∃ O', tuInt8MmaTile W A O M N K = some O' ∧ TileExact W A O M N K O') ↔
      ∀ m < M.toNat, ∀ n < N.toNat, InInt32 (O (m * N.toNat + n) + tileProduct W A N K m n) := by
  rw [tuInt8MmaTile_eq W A O hW hA hO]
  constructor
  · rintro ⟨O', hO', -⟩ m hm n hn
    split at hO'
    · rename_i hall
      exact hall _ ((mem_tileUpdates W A).2 ⟨m, hm, n, hn, rfl⟩)
    · cases hO'
  · intro hall
    rw [if_pos]
    · exact ⟨_, rfl, tileExact_foldl W A O⟩
    · intro u hu
      obtain ⟨m, hm, n, hn, rfl⟩ := (mem_tileUpdates W A).1 hu
      exact hall m hm n hn

end

/-- **INT8 products in INT32.**  A dot product is the integer one exactly if no running sum leaves 32 bits, which none of
up to `131071` products does and some of every larger number do; a tile whose indices are `int`s adds the integer products
exactly if every output fits. -/
theorem int8_products :
    (∀ a b n, tuInt8DotProduct a b n = some (∑ i ∈ range n, (a i).toInt * (b i).toInt) ↔
      ∀ k < n, InInt32 (∑ i ∈ range (k + 1), (a i).toInt * (b i).toInt)) ∧
    (∀ n, n ≤ 131071 ↔ ∀ a b, tuInt8DotProduct a b n = some (∑ i ∈ range n, (a i).toInt * (b i).toInt)) ∧
    ∀ W A O (M N K : UInt16), M.toNat * K.toNat ≤ 2 ^ 31 → K.toNat * N.toNat ≤ 2 ^ 31 → M.toNat * N.toNat ≤ 2 ^ 31 →
      ((∃ O', tuInt8MmaTile W A O M N K = some O' ∧ TileExact W A O M N K O') ↔
        ∀ m < M.toNat, ∀ n < N.toNat, InInt32 (O (m * N.toNat + n) + tileProduct W A N K m n)) := by
  have hdot : ∀ a b n, tuInt8DotProduct a b n = some (∑ i ∈ range n, (a i).toInt * (b i).toInt) ↔
      ∀ k < n, InInt32 (∑ i ∈ range (k + 1), (a i).toInt * (b i).toInt) := by
    intro a b n
    rw [tuInt8DotProduct_eq]
    simp
  refine ⟨hdot, fun n => ⟨fun hn a b => ?_, fun hall => ?_⟩,
    fun W A O _ _ _ hW hA hO => tuInt8MmaTile_exact_iff W A O hW hA hO⟩
  · exact (hdot a b n).2 fun k hk => inInt32_sum a b (by omega)
  · by_contra hlarge
    have hnone := hall (fun _ => -128) fun _ => -128
    rw [tuInt8DotProduct_overflow (by omega)] at hnone
    cases hnone

/-- The dot product of `131072` pairs `-128` is `2 ^ 31`, which is no `int32_t`. -/
theorem int8_dot_overflow :
    ∑ i ∈ range 131072, ((fun _ => -128 : Nat → Int8) i).toInt * ((fun _ => -128 : Nat → Int8) i).toInt = 2 ^ 31 ∧
      ¬ InInt32 (2 ^ 31) ∧ tuInt8DotProduct (fun _ => -128) (fun _ => -128) 131072 = none := by
  refine ⟨?_, by decide, tuInt8DotProduct_overflow (Nat.le_refl _)⟩
  rw [sum_const, card_range, nsmul_eq_mul]
  decide

end Tusim.Precision
