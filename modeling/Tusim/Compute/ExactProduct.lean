import Tusim.Compute.TiledProduct

/-!
# The dispatcher in exact arithmetic

With exact arithmetic a tile adds partial sums to the accumulators and records its products (`tileLoops_exact`).  The
dispatcher and the inline tiling of `tu_mma` run the same tiles and differ in how they compute indices, which makes no
difference as long as these fit their types (`strideIndex_eq`, `intIndex_eq`).
-/

namespace Tusim

open Word Digits WrapLoop Accumulation

variable {R : Type} [Semiring R]

/-- Exact arithmetic, with accumulators of exact numbers. -/
def exactOperands (w a : Int → R) : MmaOperands R (Int → R) where
  zero := 0
  add v v' := v + v'
  mul v v' := v * v'
  w := w
  a := a
  loadO o i := o i
  storeO o i v := Function.update o i v

/-- What a tile adds, and to which accumulators. -/
def MmaTile.updates (w a : Int → R) (wIndex aIndex oIndex : Nat → Nat → Int) (t : MmaTile) : List (Int × R) :=
  (List.range t.mCount).flatMap fun m => (List.range t.nCount).map fun n =>
    (oIndex (t.mStart + m) (t.nStart + n), ((List.range t.kCount).map fun k =>
      w (wIndex (t.mStart + m) (t.kStart + k)) * a (aIndex (t.kStart + k) (t.nStart + n))).sum)

/-- A tile that lies within bounds of 16 bits. -/
structure MmaTile.Within (t : MmaTile) (M N K : Nat) : Prop where
  m : t.mStart + t.mCount ≤ M
  n : t.nStart + t.nCount ≤ N
  k : t.kStart + t.kCount ≤ K

theorem within_of_mem {M N K tileM tileN tileK : Nat} {t : MmaTile} (ht : t ∈ mmaTiles M N K tileM tileN tileK) :
    t.Within M N K := by
  have hspan : ∀ {bound tile : Nat} {p : Nat × Nat}, p ∈ tileSpans bound tile → p.1 + p.2 ≤ bound := by
    intro bound tile p hp
    unfold tileSpans at hp
    obtain ⟨i, hi, rfl⟩ := List.mem_map.1 hp
    have hlt := mul_lt_of_lt_numTiles (List.mem_range.1 hi)
    dsimp only
    omega
  unfold mmaTiles at ht
  obtain ⟨p, hp, ht⟩ := List.mem_flatMap.1 ht
  obtain ⟨q, hq, ht⟩ := List.mem_flatMap.1 ht
  obtain ⟨r, hr, rfl⟩ := List.mem_map.1 ht
  exact ⟨hspan hp, hspan hq, hspan hr⟩

/-! ### One tile -/

section

variable {R Mem : Type} (x : MmaOperands R Mem)

/-- The partial sum of an element of a tile. -/
def MmaTile.psum (wIndex aIndex : Nat → Nat → Int) (t : MmaTile) (m n : Nat) : R :=
  (List.range t.kCount).foldl (fun psum k => x.add psum
    (x.mul (x.w (wIndex (t.mStart + m) (t.kStart + k))) (x.a (aIndex (t.kStart + k) (t.nStart + n))))) x.zero

/-- The partial sums of a tile, and to which accumulators they are added. -/
def MmaTile.sums (wIndex aIndex oIndex : Nat → Nat → Int) (t : MmaTile) : List (Int × R) :=
  (List.range t.mCount).flatMap fun m => (List.range t.nCount).map fun n =>
    (oIndex (t.mStart + m) (t.nStart + n), t.psum x wIndex aIndex m n)

/-- Add a partial sum to its accumulator. -/
def MmaOperands.accumulate (mem : Mem) (u : Int × R) : Mem := x.storeO mem u.1 (x.add (x.loadO mem u.1) u.2)

/-- The loops over a tile add its partial sums, in any arithmetic and on any memory. -/
theorem tileLoops_eq (wIndex aIndex oIndex : Nat → Nat → Int) {t : MmaTile} {M N K : Nat} (ht : t.Within M N K)
    (hM : M < 2 ^ 16) (hN : N < 2 ^ 16) (hK : K < 2 ^ 16) {fuel : Nat} (hfuel : 2 ^ 16 ≤ fuel) (s : TileState Mem) :
    tileLoops x wIndex aIndex oIndex t fuel s =
      some { o := (t.sums x wIndex aIndex oIndex).foldl x.accumulate s.o, macs := s.macs ++ t.macs } := by
  obtain ⟨htm, htn, htk⟩ := ht
  let mac m n k := (t.mStart + m, t.nStart + n, t.kStart + k)
  let product m n k :=
    x.mul (x.w (wIndex (t.mStart + m) (t.kStart + k))) (x.a (aIndex (t.kStart + k) (t.nStart + n)))
  have hpsum : ∀ (m n : Nat) (ks : List Nat) (v : R) (es : List (Nat × Nat × Nat)),
      ks.foldl (fun p k => (x.add p.1 (product m n k), p.2 ++ [mac m n k])) (v, es) =
        (ks.foldl (fun psum k => x.add psum (product m n k)) v, es ++ ks.map (mac m n)) := by
    intro m n ks
    induction ks with
    | nil => simp
    | cons k ks ih =>
      intro v es
      rw [List.foldl_cons, ih, List.foldl_cons, List.map_cons, List.append_assoc, List.singleton_append]
  have hrow : ∀ (m : Nat) (ns : List Nat) (s : TileState Mem),
      ns.foldl (fun s n =>
        { o := x.accumulate s.o (oIndex (t.mStart + m) (t.nStart + n), t.psum x wIndex aIndex m n)
          macs := s.macs ++ (List.range t.kCount).map (mac m n) }) s =
        { o := (ns.map fun n =>
            (oIndex (t.mStart + m) (t.nStart + n), t.psum x wIndex aIndex m n)).foldl x.accumulate s.o
          macs := s.macs ++ ns.flatMap fun n => (List.range t.kCount).map (mac m n) } := by
    intro m ns
    induction ns with
    | nil => intro s; simp
    | cons n ns ih =>
      intro s
      rw [List.foldl_cons, ih, List.map_cons, List.foldl_cons, List.flatMap_cons, List.append_assoc]
  have htile : ∀ (ms : List Nat) (s : TileState Mem),
      ms.foldl (fun s m =>
        { o := ((List.range t.nCount).map fun n =>
            (oIndex (t.mStart + m) (t.nStart + n), t.psum x wIndex aIndex m n)).foldl x.accumulate s.o
          macs := s.macs ++ (List.range t.nCount).flatMap fun n => (List.range t.kCount).map (mac m n) }) s =
        { o := (ms.flatMap fun m => (List.range t.nCount).map fun n =>
            (oIndex (t.mStart + m) (t.nStart + n), t.psum x wIndex aIndex m n)).foldl x.accumulate s.o
          macs := s.macs ++ ms.flatMap fun m => (List.range t.nCount).flatMap fun n =>
            (List.range t.kCount).map (mac m n) } := by
    intro ms
    induction ms with
    | nil => intro s; simp
    | cons m ms ih =>
      intro s
      rw [List.foldl_cons, ih, List.flatMap_cons, List.foldl_append, List.flatMap_cons, List.append_assoc]
  unfold tileLoops MmaTile.sums MmaTile.macs
  dsimp only
  rw [← htile]
  apply loop_count (by omega) (by omega)
  intro m _ s
  rw [← hrow]
  apply loop_count (by omega) (by omega)
  intro n _ s
  have hinner : forU16 t.kCount (fun k (p : R × List (Nat × Nat × Nat)) =>
      some (x.add p.1 (product m n k), p.2 ++ [mac m n k])) fuel (x.zero, s.macs) =
        some (t.psum x wIndex aIndex m n, s.macs ++ (List.range t.kCount).map (mac m n)) := by
    unfold MmaTile.psum
    rw [← hpsum]
    exact loop_count (by omega) (by omega) (fun _ _ _ => rfl) _
  exact congrArg (Option.map fun (psum : R × List (Nat × Nat × Nat)) => ({
    o := x.accumulate s.o (oIndex (t.mStart + m) (t.nStart + n), psum.1), macs := psum.2 } : TileState Mem)) hinner

end

/-- In exact arithmetic the partial sums are those of the products. -/
theorem MmaTile.sums_exact (w a : Int → R) (wIndex aIndex oIndex : Nat → Nat → Int) (t : MmaTile) :
    t.sums (exactOperands w a) wIndex aIndex oIndex = t.updates w a wIndex aIndex oIndex := by
  have hsum : ∀ (f : Nat → R) (ks : List Nat) (v : R), ks.foldl (fun psum k => psum + f k) v = v + (ks.map f).sum := by
    intro f ks
    induction ks with
    | nil => simp
    | cons k ks ih =>
      intro v
      rw [List.foldl_cons, ih, List.map_cons, List.sum_cons, add_assoc]
  unfold sums updates
  apply List.flatMap_congr
  intro m _
  apply List.map_congr_left
  intro n _
  congr 1
  exact (hsum _ _ 0).trans (zero_add _)

theorem tileLoops_exact (w a : Int → R) (wIndex aIndex oIndex : Nat → Nat → Int) {t : MmaTile} {M N K : Nat}
    (ht : t.Within M N K) (hM : M < 2 ^ 16) (hN : N < 2 ^ 16) (hK : K < 2 ^ 16) {fuel : Nat} (hfuel : 2 ^ 16 ≤ fuel)
    (s : TileState (Int → R)) :
    tileLoops (exactOperands w a) wIndex aIndex oIndex t fuel s =
      some { o := (t.updates w a wIndex aIndex oIndex).foldl addTo s.o, macs := s.macs ++ t.macs } := by
  rw [tileLoops_eq _ _ _ _ ht hM hN hK hfuel, t.sums_exact]
  rfl

/-- The index of an element of a matrix stored row by row. -/
def rowMajor (cols row col : Nat) : Int := ((row * cols + col : Nat) : Int)

theorem strideIndex_eq {rows cols row col : Nat} (hrows : rows < 2 ^ 16) (hcols : cols < 2 ^ 16) (hrow : row < rows)
    (hcol : col < cols) : strideIndex cols row col = rowMajor cols row col := by
  have hlt : row * cols + col < 2 ^ 32 := by
    have h := Digits.mul_add_lt hrow hcol
    have hmul : rows * cols ≤ 2 ^ 16 * 2 ^ 16 := Nat.mul_le_mul hrows.le hcols.le
    omega
  unfold strideIndex rowMajor u32
  rw [Nat.mod_eq_of_lt hlt]

/-- Indices of type `int` reach every element of a matrix of less than `2 ^ 31` elements. -/
theorem intIndex_eq {rows cols row col : Nat} (hsize : rows * cols < 2 ^ 31) (hrow : row < rows) (hcol : col < cols) :
    intIndex cols row col = rowMajor cols row col := by
  have hlt := Digits.mul_add_lt hrow hcol
  have hi32 : ∀ v : Nat, v < 2 ^ 31 → i32 (v : Int) = v := by
    intro v hv
    unfold i32
    rw [Int.bmod_eq_of_le] <;> omega
  unfold intIndex rowMajor
  rw [← Nat.cast_mul, hi32 _ (by omega), ← Nat.cast_add, hi32 _ (by omega)]

/-- Only the indices of a tile matter. -/
theorem MmaTile.sums_congr {R Mem : Type} (x : MmaOperands R Mem) {M N K : Nat} {wIndex aIndex oIndex : Nat → Nat → Int}
    {t : MmaTile} (ht : t.Within M N K) (hw : ∀ m < M, ∀ k < K, wIndex m k = rowMajor K m k)
    (ha : ∀ k < K, ∀ n < N, aIndex k n = rowMajor N k n) (ho : ∀ m < M, ∀ n < N, oIndex m n = rowMajor N m n) :
    t.sums x wIndex aIndex oIndex = t.sums x (rowMajor K) (rowMajor N) (rowMajor N) := by
  obtain ⟨htm, htn, htk⟩ := ht
  unfold MmaTile.sums MmaTile.psum
  apply List.flatMap_congr
  intro m hm
  apply List.map_congr_left
  intro n hn
  rw [List.mem_range] at hm hn
  have hm' : t.mStart + m < M := by omega
  have hn' : t.nStart + n < N := by omega
  rw [ho _ hm' _ hn']
  congr 1
  apply List.foldl_ext
  intro psum k hk
  rw [List.mem_range] at hk
  have hk' : t.kStart + k < K := by omega
  rw [hw _ hm' _ hk', ha _ hk' _ hn']

theorem MmaTile.updates_congr (w a : Int → R) {M N K : Nat} {wIndex aIndex oIndex : Nat → Nat → Int} {t : MmaTile}
    (ht : t.Within M N K) (hw : ∀ m < M, ∀ k < K, wIndex m k = rowMajor K m k)
    (ha : ∀ k < K, ∀ n < N, aIndex k n = rowMajor N k n) (ho : ∀ m < M, ∀ n < N, oIndex m n = rowMajor N m n) :
    t.updates w a wIndex aIndex oIndex = t.updates w a (rowMajor K) (rowMajor N) (rowMajor N) := by
  rw [← sums_exact, ← sums_exact]
  exact t.sums_congr _ ht hw ha ho

/-! ### All tiles -/

/-- What all tiles add to an accumulator. -/
theorem foldl_updates (w a o : Int → R) {M N K tileM tileN tileK : Nat} (htM : 0 < tileM) (htN : 0 < tileN)
    (htK : 0 < tileK) (i : Int) :
    ((mmaTiles M N K tileM tileN tileK).flatMap
      (MmaTile.updates w a (rowMajor K) (rowMajor N) (rowMajor N))).foldl addTo o i =
        o i + ∑ m : Fin M, ∑ n : Fin N, if rowMajor N m n = i then ∑ k : Fin K, w (rowMajor K m k) * a (rowMajor N k n) else 0 := by
  have hupdates : ∀ t : MmaTile, ((t.updates w a (rowMajor K) (rowMajor N) (rowMajor N)).map fun u =>
      if u.1 = i then u.2 else 0).sum =
        (t.macs.map fun p => if rowMajor N p.1 p.2.1 = i then w (rowMajor K p.1 p.2.2) * a (rowMajor N p.2.2 p.2.1) else 0).sum := by
    intro t
    unfold MmaTile.updates MmaTile.macs
    rw [sum_map_flatMap, sum_map_flatMap]
    congr 1
    apply List.map_congr_left
    intro m _
    rw [sum_map_flatMap, List.map_map]
    congr 1
    apply List.map_congr_left
    intro n _
    rw [List.map_map]
    dsimp only [Function.comp_def]
    split
    · rfl
    · simp
  rw [foldl_addTo, sum_map_flatMap]
  simp only [hupdates]
  rw [← sum_map_flatMap, sum_tileMacs htM htN htK fun m n k =>
    if rowMajor N m n = i then w (rowMajor K m k) * a (rowMajor N k n) else 0, sum_map_range]
  congr 1
  apply Finset.sum_congr rfl
  intro m _
  rw [sum_map_range]
  apply Finset.sum_congr rfl
  intro n _
  rw [sum_map_range]
  split
  · rfl
  · simp

end Tusim
