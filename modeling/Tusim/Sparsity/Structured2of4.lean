import Mathlib.Data.List.Nodup
import Mathlib.Logic.Function.Basic
import Tusim.Lib.Word
import Tusim.Lib.WrapLoop

/-!
# The 2:4 sparse matrix multiply

The sparse multiply of `structured_2of4.c` and its tiled form, over the number format and the arithmetic of the caller.
Operands are bytes behind a pointer, a packed group being two weights and a mask byte; the output is a memory of numbers
addressed by byte offset, and the pointers are present.  The counts of multiply-accumulates do not reach `2 ^ 64`.

`added` is not in the source: it records the products added to the elements of the output, in order.
-/

namespace Tusim

open Word

/-- A call of the multiply: how numbers are read from memory, tested and computed with, and the arguments. -/
structure TuSparsityMma (α : Type) where
  /-- `read_elem` of an element size, from the bytes at a pointer -/
  readElem : Nat → (Nat → UInt8) → α
  /-- `w_val == 0.0f` -/
  isZero : α → Bool
  mul : α → α → α
  add : α → α → α
  oStride : UInt32
  wPacked : Nat → UInt8
  wMasks : Nat → UInt8
  aDense : Nat → UInt8
  aStride : UInt32
  M : UInt16
  N : UInt16
  K : UInt16
  wElemSize : Nat
  aElemSize : Nat

structure MmaState (α : Type) where
  o : Nat → α
  macCount : Nat
  added : List (Nat × Nat × α)

/-! ### Masks -/

def tuSparsity2of4MaskPopcount (mask : UInt8) : Nat := (List.range 4).countP fun i => mask.toNat.testBit i

def tuSparsity2of4MaskIsValid (mask : UInt8) : Bool := tuSparsity2of4MaskPopcount mask = 2

/-- The position of the `n`-th set bit, `none` for `-1`. -/
def tuSparsity2of4MaskNthBit (mask : UInt8) (n : Nat) : Option Nat :=
  ((List.range 4).filter fun i => mask.toNat.testBit i)[n]?

namespace TuSparsityMma

variable {α : Type} (x : TuSparsityMma α)

def kGroups : Nat := (x.K.toNat + 3) / 4

/-- `pkt_group_size` -/
def pktGroupSize : Nat := 2 * x.wElemSize + 1

def validatePackedMasks (groups : Nat) : Bool :=
  (List.range groups).all fun g =>
    let embedded := x.wPacked (g * x.pktGroupSize + 2 * x.wElemSize) &&& 0x0F
    tuSparsity2of4MaskIsValid (x.wMasks g) && embedded == x.wMasks g

/-- The checks that make the multiply return `0` at once. -/
def accepted : Bool :=
  !(x.M == 0 || x.N == 0 || x.K == 0 || x.K.toNat % 4 != 0 || x.wElemSize == 0 || x.aElemSize == 0) &&
    x.validatePackedMasks (x.M.toNat * x.kGroups)

def mask (m kGroup : Nat) : UInt8 := x.wMasks (m * x.kGroups + kGroup)

/-- `w_val` -/
def weight (m kGroup nz : Nat) : α :=
  x.readElem x.wElemSize fun i =>
    x.wPacked (m * x.kGroups * x.pktGroupSize + kGroup * x.pktGroupSize + nz * x.wElemSize + i)

/-- `a_val` -/
def activation (k n : Nat) : α :=
  x.readElem x.aElemSize fun i => x.aDense (k * x.aStride.toNat + n * x.aElemSize + i)

/-- The byte offset of `O_row[n]` in row `m`. -/
def cell (m n : Nat) : Nat := u32 (m * x.oStride.toNat) + 4 * n

/-- `O_row[n] += w_val * a_val; mac_count++;` -/
def mac (m k : Nat) (w : α) (s : MmaState α) (n : Nat) : MmaState α :=
  let product := x.mul w (x.activation k n)
  { o := Function.update s.o (x.cell m n) (x.add (s.o (x.cell m n)) product)
    macCount := s.macCount + 1
    added := s.added ++ [(m, n, product)] }

/-- The loop over the columns `columns` for the `nz`-th weight of a group, if its `k` is in the tile. -/
def macWeight (inTile : Nat → Bool) (columns : List Nat) (m kGroup : Nat) (s : MmaState α) (nz : Nat) : MmaState α :=
  match tuSparsity2of4MaskNthBit (x.mask m kGroup) nz with
  | none => s
  | some kOff =>
    let k := kGroup * 4 + kOff
    if !inTile k || k ≥ x.K.toNat then s
    else
      let w := x.weight m kGroup nz
      if x.isZero w then s else columns.foldl (x.mac m k w) s

def macGroup (inTile : Nat → Bool) (columns : List Nat) (m : Nat) (s : MmaState α) (kGroup : Nat) : MmaState α :=
  (List.range 2).foldl (x.macWeight inTile columns m kGroup) s

def macRow (inTile : Nat → Bool) (columns groups : List Nat) (s : MmaState α) (m : Nat) : MmaState α :=
  groups.foldl (x.macGroup inTile columns m) s

end TuSparsityMma

variable {α : Type}

def tuSparsity2of4MmaFp16 (x : TuSparsityMma α) (o : Nat → α) : MmaState α :=
  let s : MmaState α := { o := o, macCount := 0, added := [] }
  if x.accepted then
    (List.range x.M.toNat).foldl (x.macRow (fun _ => true) (List.range x.N.toNat) (List.range x.kGroups)) s
  else s

/-- `m_count`, `n_count` and `k_count` of the tile at `start`. -/
def mmaTileCount (bound step start : Nat) : Nat := if start + step ≤ bound then step else bound - start

/-- The tile at the given counters. -/
def mmaTile (x : TuSparsityMma α) (tileM tileN tileK mTile nTile kTile : Nat) (s : MmaState α) : MmaState α :=
  let mCount := mmaTileCount x.M.toNat tileM mTile
  let nCount := mmaTileCount x.N.toNat tileN nTile
  let kCount := mmaTileCount x.K.toNat tileK kTile
  let kStartGroup := kTile / 4
  let kEndGroup := (kTile + kCount + 3) / 4
  let groups := (List.range' kStartGroup (kEndGroup - kStartGroup)).takeWhile (· < x.kGroups)
  let inTile k := kTile ≤ k && k < kTile + kCount
  (List.range' mTile mCount).foldl (x.macRow inTile (List.range' nTile nCount) groups) s

/-- The tiled multiply, with at most `fuel` tests of each loop; the tile counters are 16 bits wide. -/
def tuSparsity2of4MmaTiled (x : TuSparsityMma α) (tileM tileN tileK : UInt16) (fuel : Nat) (o : Nat → α) :
    Option (MmaState α) :=
  let s : MmaState α := { o := o, macCount := 0, added := [] }
  if x.accepted && tileM != 0 && tileN != 0 && tileK != 0 then
    let mBody mTile := fun s =>
      let nBody nTile := fun s =>
        let kBody kTile := fun s => some (mmaTile x tileM.toNat tileN.toNat tileK.toNat mTile nTile kTile s)
        WrapLoop.loop x.K.toNat tileK.toNat (2 ^ 16) kBody fuel 0 s
      WrapLoop.loop x.N.toNat tileN.toNat (2 ^ 16) nBody fuel 0 s
    WrapLoop.loop x.M.toNat tileM.toNat (2 ^ 16) mBody fuel 0 s
  else some s

end Tusim

/-!
### The products of the sparse multiply

The multiply is a list of products, each added to one element of the output (`foldl_macRow`).  What becomes of an element
depends on the products added to it, in their order, and on no others (`foldl_accumulate_o`).
-/

namespace Tusim

open Word

/-- The entry adds a product to the element in row `m` and column `n`. -/
def isAt {α : Type} (m n : Nat) (e : Nat × Nat × α) : Bool := e.1 = m ∧ e.2.1 = n

/-- The products added to an element, in order. -/
def MmaState.addedTo {α : Type} (s : MmaState α) (m n : Nat) : List α := (s.added.filter (isAt m n)).map (·.2.2)

namespace TuSparsityMma

variable {α : Type} (x : TuSparsityMma α)

/-- Add a product to its element. -/
def accumulate (s : MmaState α) (e : Nat × Nat × α) : MmaState α where
  o := Function.update s.o (x.cell e.1 e.2.1) (x.add (s.o (x.cell e.1 e.2.1)) e.2.2)
  macCount := s.macCount + 1
  added := s.added ++ [e]

/-- The `k` and the value of the `nz`-th weight of a group, unless it is skipped. -/
def weightTerm (inTile : Nat → Bool) (m kGroup nz : Nat) : Option (Nat × α) :=
  (tuSparsity2of4MaskNthBit (x.mask m kGroup) nz).bind fun kOff =>
    if !inTile (kGroup * 4 + kOff) || kGroup * 4 + kOff ≥ x.K.toNat then none
    else if x.isZero (x.weight m kGroup nz) then none else some (kGroup * 4 + kOff, x.weight m kGroup nz)

def groupTerms (inTile : Nat → Bool) (m kGroup : Nat) : List (Nat × α) :=
  (List.range 2).filterMap (x.weightTerm inTile m kGroup)

/-- The weights of row `m` that a loop over `groups` does not skip. -/
def rowTerms (inTile : Nat → Bool) (groups : List Nat) (m : Nat) : List (Nat × α) :=
  groups.flatMap (x.groupTerms inTile m)

def product (m n : Nat) (t : Nat × α) : Nat × Nat × α := (m, n, x.mul t.2 (x.activation t.1 n))

/-- The products of a weight with the columns. -/
def termProducts (columns : List Nat) (m : Nat) (t : Nat × α) : List (Nat × Nat × α) :=
  columns.map fun n => x.product m n t

def blockProducts (rows columns : List Nat) (terms : Nat → List (Nat × α)) : List (Nat × Nat × α) :=
  rows.flatMap fun m => (terms m).flatMap (x.termProducts columns m)

/-! ### The loops -/

theorem macWeight_eq (inTile : Nat → Bool) (columns : List Nat) (m kGroup : Nat) (s : MmaState α) (nz : Nat) :
    x.macWeight inTile columns m kGroup s nz =
      ((x.weightTerm inTile m kGroup nz).toList.flatMap (x.termProducts columns m)).foldl x.accumulate s := by
  unfold macWeight weightTerm
  cases tuSparsity2of4MaskNthBit (x.mask m kGroup) nz with
  | none => rfl
  | some kOff =>
    dsimp only [Option.bind_some]
    split
    · rfl
    · split
      · rfl
      · rw [Option.toList_some, List.flatMap_singleton]
        unfold termProducts
        rw [List.foldl_map]
        rfl

theorem foldl_macRow (inTile : Nat → Bool) (rows columns groups : List Nat) (s : MmaState α) :
    rows.foldl (x.macRow inTile columns groups) s =
      (x.blockProducts rows columns (x.rowTerms inTile groups)).foldl x.accumulate s := by
  have hgroup : ∀ m kGroup s, x.macGroup inTile columns m s kGroup =
      ((x.groupTerms inTile m kGroup).flatMap (x.termProducts columns m)).foldl x.accumulate s := by
    intro m kGroup s
    unfold macGroup groupTerms
    rw [List.filterMap_eq_flatMap_toList, List.flatMap_assoc, List.foldl_flatMap]
    congr 1
    funext s nz
    exact x.macWeight_eq inTile columns m kGroup s nz
  have hrow : ∀ m s, x.macRow inTile columns groups s m =
      ((x.rowTerms inTile groups m).flatMap (x.termProducts columns m)).foldl x.accumulate s := by
    intro m s
    unfold macRow rowTerms
    rw [List.flatMap_assoc, List.foldl_flatMap]
    congr 1
    funext s kGroup
    exact hgroup m kGroup s
  unfold blockProducts
  rw [List.foldl_flatMap]
  congr 1
  funext s m
  exact hrow m s

/-! ### Adding products -/

theorem foldl_accumulate_macCount (es : List (Nat × Nat × α)) (s : MmaState α) :
    (es.foldl x.accumulate s).macCount = s.macCount + es.length := by
  induction es generalizing s with
  | nil => rfl
  | cons e es ih =>
    rw [List.foldl_cons, ih, List.length_cons, Nat.add_comm es.length 1, ← Nat.add_assoc]
    rfl

theorem foldl_accumulate_added (es : List (Nat × Nat × α)) (s : MmaState α) :
    (es.foldl x.accumulate s).added = s.added ++ es := by
  induction es generalizing s with
  | nil => exact (List.append_nil _).symm
  | cons e es ih =>
    rw [List.foldl_cons, ih]
    show (s.added ++ [e]) ++ es = s.added ++ e :: es
    rw [List.append_assoc, List.singleton_append]

/-- A cell gets the products that are added to it, in order. -/
theorem foldl_accumulate_o (es : List (Nat × Nat × α)) (s : MmaState α) (a : Nat) :
    (es.foldl x.accumulate s).o a =
      ((es.filter fun e => x.cell e.1 e.2.1 = a).map (·.2.2)).foldl x.add (s.o a) := by
  induction es generalizing s with
  | nil => rfl
  | cons e es ih =>
    rw [List.foldl_cons, ih]
    by_cases ha : x.cell e.1 e.2.1 = a
    · have hcell : (x.accumulate s e).o a = x.add (s.o a) e.2.2 := by
        unfold accumulate
        rw [ha]
        exact Function.update_self ..
      rw [hcell, List.filter_cons_of_pos (by simpa using ha)]
      rfl
    · have hcell : (x.accumulate s e).o a = s.o a := Function.update_of_ne (Ne.symm ha) ..
      rw [hcell, List.filter_cons_of_neg (by simpa using ha)]

/-! ### The products of an element -/

/-- Of lists without common members, at most one holds `y`. -/
theorem flatMap_ite_mem {β γ : Type} [DecidableEq γ] {l : List β} {f : β → List γ} (hl : (l.flatMap f).Nodup) (y : γ)
    {δ : Type} (g : List δ) :
    (l.flatMap fun b => if y ∈ f b then g else []) = if y ∈ l.flatMap f then g else [] := by
  induction l with
  | nil => rfl
  | cons b l ih =>
    rw [List.flatMap_cons, List.nodup_append] at hl
    obtain ⟨-, hrest, hdisjoint⟩ := hl
    rw [List.flatMap_cons, List.flatMap_cons, ih hrest]
    by_cases hy : y ∈ f b
    · have hy' : y ∉ l.flatMap f := fun hy' => hdisjoint y hy y hy' rfl
      rw [if_pos hy, if_neg hy', if_pos (List.mem_append_left _ hy), List.append_nil]
    · rw [if_neg hy, List.nil_append]
      simp [hy]

theorem filter_blockProducts {rows columns : List Nat} (hrows : rows.Nodup) (hcolumns : columns.Nodup)
    (terms : Nat → List (Nat × α)) (m n : Nat) :
    (x.blockProducts rows columns terms).filter (isAt m n) =
      if m ∈ rows then (if n ∈ columns then (terms m).map (x.product m n) else []) else [] := by
  have hterm : ∀ m' t, (x.termProducts columns m' t).filter (isAt m n) =
      if m' = m ∧ n ∈ columns then [x.product m n t] else [] := by
    intro m' t
    by_cases hm : m' = m
    · subst hm
      unfold termProducts
      rw [List.filter_map]
      have hat : (isAt m' n ∘ fun n => x.product m' n t) = fun n' => decide (n' = n) := by
        funext n'
        simp [isAt, product]
      rw [hat]
      by_cases hn : n ∈ columns
      · rw [List.filter_eq, if_pos ⟨rfl, hn⟩, List.count_eq_one_of_mem hcolumns hn]
        rfl
      · rw [List.filter_eq, if_neg (fun h => hn h.2), List.count_eq_zero_of_not_mem hn]
        rfl
    · rw [if_neg (fun h => hm h.1), List.filter_eq_nil_iff]
      intro e he
      obtain ⟨n', _, rfl⟩ := List.mem_map.1 he
      simp [isAt, product, hm]
  have hrow : ∀ m', ((terms m').flatMap (x.termProducts columns m')).filter (isAt m n) =
      if m ∈ [m'] then (if n ∈ columns then (terms m).map (x.product m n) else []) else [] := by
    intro m'
    rw [List.filter_flatMap]
    by_cases hm : m' = m
    · subst hm
      rw [if_pos (List.mem_singleton_self m')]
      by_cases hn : n ∈ columns
      · rw [if_pos hn, ← List.flatMap_pure_eq_map]
        apply List.flatMap_congr
        intro t _
        rw [hterm, if_pos ⟨rfl, hn⟩]
        rfl
      · rw [if_neg hn, List.flatMap_eq_nil_iff]
        intro t _
        rw [hterm, if_neg (fun h => hn h.2)]
    · rw [if_neg (fun h => hm (List.mem_singleton.1 h).symm), List.flatMap_eq_nil_iff]
      intro t _
      rw [hterm, if_neg (fun h => hm h.1)]
  unfold blockProducts
  rw [List.filter_flatMap, List.flatMap_congr fun m' _ => hrow m', flatMap_ite_mem (by simpa using hrows)]
  simp

end TuSparsityMma

end Tusim
