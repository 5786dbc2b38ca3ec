import Mathlib.Algebra.Ring.Int.Defs
import Mathlib.Data.Finset.Basic
import Mathlib.Data.Finset.Range
import Mathlib.Data.Int.Init
import Mathlib.Data.List.Nodup
import Mathlib.Logic.Function.Basic
import Tusim.Lib.Word

/-!
# Windows on a padded line

A window on a line of `size` cells with `pad` cells of padding before them: position `base` of the padded line is cell
`base - pad`, if there is one.  `coord` computes it with 32-bit integers; as long as nothing reaches `2 ^ 31` that is the
difference of integers (`coord_eq`), and `inside` tells whether it is a cell (`inside_iff`).  A window covers the cells at
`kernel` positions one after the other (`mem_cells`), no cell twice (`nodup_cells`).
-/

namespace Windows

open Word

/-- The conversion of a number to a signed 32-bit integer. -/
def toI32 (x : Nat) : Int := Int.bmod x (2 ^ 32)

/-- `(int32_t)base - (int32_t)pad`; a difference that does not fit is undefined. -/
def coord (base pad : Nat) : Int := toI32 (u32 base) - toI32 pad

/-- `i >= 0 && i < (int32_t)size` -/
def inside (i : Int) (size : Nat) : Bool := 0 ≤ i && i < toI32 size

theorem toI32_of_lt {x : Nat} (h : x < 2 ^ 31) : toI32 x = x := by
  unfold toI32
  rw [Int.bmod_eq_of_le (by omega) (by omega)]

theorem toI32_le (x : Nat) : toI32 x ≤ x := by
  unfold toI32
  rcases Nat.lt_or_ge x (2 ^ 31) with h | h
  · rw [Int.bmod_eq_of_le (by omega) (by omega)]
  · have := Int.bmod_lt (x := x) (m := 2 ^ 32) (by decide)
    omega

theorem coord_eq {base pad : Nat} (hbase : base < 2 ^ 31) (hpad : pad < 2 ^ 31) : coord base pad = (base : Int) - pad := by
  unfold coord
  rw [u32_of_lt (by omega), toI32_of_lt hbase, toI32_of_lt hpad]

/-- A coordinate inside the line is the number of a cell. -/
theorem lt_of_inside {i : Int} {size : Nat} (h : inside i size = true) : i.toNat < size := by
  unfold inside at h
  rw [Bool.and_eq_true, decide_eq_true_eq, decide_eq_true_eq] at h
  have := toI32_le size
  omega

theorem inside_iff {i : Int} {size : Nat} (hsize : size < 2 ^ 31) : inside i size = true ↔ 0 ≤ i ∧ i < size := by
  unfold inside
  rw [Bool.and_eq_true, decide_eq_true_eq, decide_eq_true_eq, toI32_of_lt hsize]

/-! ### Windows -/

/-- The cell at a position, if it is not in the padding. -/
def position (base pad size : Nat) : Option Nat :=
  let i := coord base pad
  if inside i size then some i.toNat else none

/-- The cells under the window of `kernel` positions from `base` on, as a loop over the window finds them. -/
def cells (kernel base pad size : Nat) : List Nat := (List.range kernel).filterMap fun k => position (base + k) pad size

/-- The cells under a window in unbounded integers. -/
def exactCells (kernel base pad size : Nat) : Finset Nat :=
  (Finset.range size).filter fun y => base ≤ y + pad ∧ y + pad < base + kernel

variable {kernel base pad size y : Nat}

theorem position_eq_some : position base pad size = some y ↔ inside (coord base pad) size = true ∧ coord base pad = y := by
  unfold position
  dsimp only
  split
  · rename_i h
    have hpos : 0 ≤ coord base pad := by
      unfold inside at h
      rw [Bool.and_eq_true, decide_eq_true_eq] at h
      exact h.1
    rw [Option.some_inj]
    exact ⟨fun hy => ⟨h, by omega⟩, fun hy => by omega⟩
  · rename_i h
    exact ⟨fun hy => absurd hy nofun, fun hy => absurd hy.1 h⟩

theorem mem_cells : y ∈ cells kernel base pad size ↔ ∃ k < kernel, position (base + k) pad size = some y := by
  unfold cells
  simp only [List.mem_filterMap, List.mem_range]

theorem lt_of_mem_cells (h : y ∈ cells kernel base pad size) : y < size := by
  obtain ⟨k, -, hk⟩ := mem_cells.1 h
  obtain ⟨hin, hy⟩ := position_eq_some.1 hk
  have := lt_of_inside hin
  omega

theorem toI32_eq (x : Nat) : toI32 x = if x % 2 ^ 32 < 2 ^ 31 then (x % 2 ^ 32 : Int) else (x % 2 ^ 32 : Int) - 2 ^ 32 := by
  unfold toI32
  rw [Int.bmod_def]
  split <;> split <;> omega

/-- Two positions less than `2 ^ 32` apart have different coordinates. -/
theorem coord_inj {k k' : Nat} (hk : k < 2 ^ 32) (hk' : k' < 2 ^ 32) (h : coord (base + k) pad = coord (base + k') pad) :
    k = k' := by
  unfold coord u32 at h
  rw [toI32_eq, toI32_eq ((base + k') % 2 ^ 32)] at h
  split at h <;> split at h <;> omega

theorem nodup_cells (hkernel : kernel ≤ 2 ^ 32) : (cells kernel base pad size).Nodup := by
  have hpairs : (List.range kernel).Pairwise fun k k' => k < 2 ^ 32 ∧ k' < 2 ^ 32 ∧ k ≠ k' := by
    refine List.Pairwise.imp_of_mem (fun hk hk' hne => ?_) (List.nodup_range (n := kernel))
    exact ⟨(List.mem_range.1 hk).trans_le hkernel, (List.mem_range.1 hk').trans_le hkernel, hne⟩
  refine List.Pairwise.filterMap _ ?_ hpairs
  rintro k k' ⟨hk, hk', hne⟩ y hy y' hy' rfl
  have hcoord := (position_eq_some.1 hy).2.trans (position_eq_some.1 hy').2.symm
  exact hne (coord_inj hk hk' hcoord)

/-- The condition on a cell that a loop in 32-bit coordinates puts: none is found in a line of `2 ^ 31` cells or more, and
none at a distance of `2 ^ 31` or more from the start of the padding. -/
structure Reached (kernel base pad size y : Nat) : Prop where
  size_lt : size < 2 ^ 31
  fits : y + pad < 2 ^ 31 ∨ 2 ^ 31 ≤ pad
  le : base ≤ u32 (y + pad)
  lt : u32 (y + pad) < base + kernel

/-- The cells that a loop finds on a padded line of less than `2 ^ 32` positions. -/
theorem mem_cells_iff (hend : base + kernel ≤ 2 ^ 32) (hpad : pad < 2 ^ 32) (hsize : size < 2 ^ 32) :
    y ∈ cells kernel base pad size ↔ y < size ∧ Reached kernel base pad size y := by
  have hcoord {b : Nat} (hb : b < 2 ^ 32) : coord b pad =
      (if b < 2 ^ 31 then (b : Int) else b - 2 ^ 32) - if pad < 2 ^ 31 then (pad : Int) else pad - 2 ^ 32 := by
    unfold coord
    rw [u32_of_lt hb, toI32_eq, toI32_eq, Int.emod_eq_of_lt (by omega) (by omega), Int.emod_eq_of_lt (by omega) (by omega)]
    split <;> split <;> split <;> split <;> omega
  have hline : toI32 size = if size < 2 ^ 31 then (size : Int) else size - 2 ^ 32 := by
    rw [toI32_eq, Int.emod_eq_of_lt (by omega) (by omega)]
    split <;> split <;> omega
  have hwrap : u32 (y + pad) = (y + pad) % 2 ^ 32 := rfl
  rw [mem_cells]
  constructor
  · rintro ⟨k, hk, hy⟩
    obtain ⟨hin, hy⟩ := position_eq_some.1 hy
    have hlt := lt_of_inside hin
    unfold inside at hin
    rw [Bool.and_eq_true, decide_eq_true_eq, decide_eq_true_eq, hline] at hin
    rw [hcoord (by omega)] at hin hy hlt
    have hsmall : size < 2 ^ 31 := by
      by_contra hbig
      rw [if_neg hbig] at hin
      omega
    split at hy <;> split at hy <;> exact ⟨by omega, hsmall, by omega, by omega, by omega⟩
  · rintro ⟨hy, hsmall, hfits, hle, hlt⟩
    refine ⟨u32 (y + pad) - base, by omega, position_eq_some.2 ?_⟩
    rw [Nat.add_sub_cancel' hle]
    have hvalue : coord (u32 (y + pad)) pad = y := by
      rw [hcoord (by omega)]
      split <;> split <;> omega
    rw [hvalue, inside_iff hsmall]
    omega

/-- The number of windows that fit on a padded line comes out right in 32 bits if and only if the line is short enough. -/
theorem windowCount_iff {total stride : Nat} (hstride : 0 < stride) (hstride' : stride ≤ 2 ^ 32) (hkernel : 0 < kernel)
    (hfit : kernel ≤ u32 (size + u32 total)) :
    kernel ≤ size + total ∧
        u32 ((u32 (size + u32 total) - kernel) / stride + 1) = (size + total - kernel) / stride + 1 ↔
      size + total < 2 ^ 32 := by
  have hwrap : u32 (size + u32 total) = (size + total) % 2 ^ 32 := Nat.add_mod_mod _ _ _
  rw [hwrap] at hfit ⊢
  constructor
  · rintro ⟨-, hcount⟩
    by_contra hlong
    -- what wraps around is missing at least one window
    have hless : ((size + total) % 2 ^ 32 - kernel) / stride + 1 ≤ (size + total - kernel) / stride := by
      rw [← Nat.add_div_right _ hstride]
      exact Nat.div_le_div_right (by omega)
    have := u32_le (((size + total) % 2 ^ 32 - kernel) / stride + 1)
    omega
  · intro hshort
    rw [Nat.mod_eq_of_lt hshort] at hfit ⊢
    have := Nat.div_le_self (size + total - kernel) stride
    exact ⟨hfit, u32_of_lt (by omega)⟩

end Windows

/-!
### Painting a memory

A memory whose cells in `A` were painted after the picture `F`, each perhaps several times, and whose other cells were
not touched.  Loops that paint cell by cell paint the cells of all their turns (`Paints.foldl`), in whatever order they
come, and two ways to paint the same cells after the same picture leave the same memory (`Paints.unique`).
-/

namespace Painting

variable {ι β : Type} {F : ι → β} {A B : ι → Prop} {mem mem' mem'' : ι → β}

/-- `mem'` is `mem` with the cells in `A` as in `F`. -/
structure Paints (F : ι → β) (A : ι → Prop) (mem mem' : ι → β) : Prop where
  painted : ∀ a, A a → mem' a = F a
  untouched : ∀ a, ¬ A a → mem' a = mem a

namespace Paints

theorem unique (h : Paints F A mem mem') (h' : Paints F A mem mem'') : mem' = mem'' := by
  funext a
  by_cases ha : A a
  · rw [h.painted a ha, h'.painted a ha]
  · rw [h.untouched a ha, h'.untouched a ha]

theorem congr (h : Paints F A mem mem') (hAB : ∀ a, A a ↔ B a) : Paints F B mem mem' :=
  ⟨fun a ha => h.painted a ((hAB a).2 ha), fun a ha => h.untouched a (mt (hAB a).1 ha)⟩

/-- What is painted over does not matter. -/
theorem of_untouched (h : Paints F A mem' mem'') (hmem : ∀ a, ¬ A a → mem' a = mem a) : Paints F A mem mem'' :=
  ⟨h.painted, fun a ha => (h.untouched a ha).trans (hmem a ha)⟩

theorem trans (h : Paints F A mem mem') (h' : Paints F B mem' mem'') : Paints F (fun a => A a ∨ B a) mem mem'' := by
  constructor
  · intro a ha
    by_cases hb : B a
    · exact h'.painted a hb
    · rw [h'.untouched a hb]
      exact h.painted a (ha.resolve_right hb)
  · intro a ha
    rw [h'.untouched a fun hb => ha (.inr hb)]
    exact h.untouched a fun ha' => ha (.inl ha')

/-- One cell. -/
theorem update [DecidableEq ι] (mem : ι → β) {a : ι} {v : β} (h : v = F a) :
    Paints F (· = a) mem (Function.update mem a v) := by
  constructor
  · rintro b rfl
    rw [Function.update_self, h]
  · intro b hb
    exact Function.update_of_ne hb v mem

/-- A loop over a state that shows a memory; its turns keep an invariant and paint wherever it holds. -/
theorem foldl_of_invariant {S : Type} {f : S → Nat → S} (view : S → ι → β) {I : S → Prop} {A : Nat → ι → Prop} {n : Nat}
    (h : ∀ i < n, ∀ s, I s → Paints F (A i) (view s) (view (f s i)) ∧ I (f s i)) {s : S} (hs : I s) :
    Paints F (fun a => ∃ i < n, A i a) (view s) (view ((List.range n).foldl f s)) ∧ I ((List.range n).foldl f s) := by
  induction n with
  | zero => exact ⟨⟨fun a ⟨i, hi, _⟩ => absurd hi (Nat.not_lt_zero i), fun a _ => rfl⟩, hs⟩
  | succ n ih =>
    obtain ⟨hpaints, hinv⟩ := ih fun i hi => h i (Nat.lt_succ_of_lt hi)
    obtain ⟨hlast, hinv'⟩ := h n (Nat.lt_succ_self n) _ hinv
    rw [List.range_succ, List.foldl_append]
    refine ⟨(hpaints.trans hlast).congr fun a => ?_, hinv'⟩
    constructor
    · rintro (⟨i, hi, ha⟩ | ha)
      · exact ⟨i, Nat.lt_succ_of_lt hi, ha⟩
      · exact ⟨n, Nat.lt_succ_self n, ha⟩
    · rintro ⟨i, hi, ha⟩
      rcases Nat.lt_succ_iff_lt_or_eq.1 hi with hlt | rfl
      · exact .inl ⟨i, hlt, ha⟩
      · exact .inr ha

/-- The same for turns that paint in every state. -/
theorem foldl {S : Type} {f : S → Nat → S} (view : S → ι → β) {A : Nat → ι → Prop} {n : Nat}
    (h : ∀ i < n, ∀ s, Paints F (A i) (view s) (view (f s i))) (s : S) :
    Paints F (fun a => ∃ i < n, A i a) (view s) (view ((List.range n).foldl f s)) :=
  (foldl_of_invariant view (I := fun _ => True) (fun i hi s _ => ⟨h i hi s, trivial⟩) trivial).1

end Paints

end Painting
