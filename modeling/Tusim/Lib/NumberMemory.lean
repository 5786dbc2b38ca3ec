import Mathlib.Data.List.ProdSigma
import Mathlib.Data.List.Nodup
import Tusim.Lib.Blocks
import Tusim.Lib.Digits

/-!
# Numbers in byte memory

A memory of bytes that encode numbers of an arbitrary type.  A byte knows the number it belongs to, the width of that
number and its place in it, so that a number which was overwritten in part cannot be read back.  A loop whose turn `i`
stores number `i` of a block leaves the whole block (`foldl_eq_fill`), also while it reads numbers further on in it.
-/

namespace NumberMemory

open Blocks

/-- Byte `pos` of the `width` bytes that encode `value`. -/
structure NumByte (F : Type*) where
  width : Nat
  value : F
  pos : Nat
  deriving DecidableEq

variable {F : Type*}

/-- The bytes of numbers that lie one after the other. -/
def encode (w : Nat) (v : Nat → F) : Nat → NumByte F := fun b => ⟨w, v (b / w), b % w⟩

def store (w : Nat) (mem : Nat → NumByte F) (a : Nat) (v : F) : Nat → NumByte F :=
  memcpy mem a (fun i => ⟨w, v, i⟩) w

/-- The numbers `v 0`, ..., `v (n - 1)` from address `a` on. -/
def fill (w : Nat) (mem : Nat → NumByte F) (a : Nat) (v : Nat → F) : Nat → (Nat → NumByte F)
  | 0 => mem
  | n + 1 => store w (fill w mem a v n) (a + w * n) (v n)

variable {w w' : Nat} {mem mem' : Nat → NumByte F} {a b n : Nat}

theorem store_outside {v : F} (h : b < a ∨ a + w ≤ b) : store w mem a v b = mem b := memcpy_outside h

theorem fill_outside {v : Nat → F} (h : b < a ∨ a + w * n ≤ b) : fill w mem a v n b = mem b := by
  induction n with
  | zero => rfl
  | succ n ih =>
    rw [Nat.mul_succ] at h
    have hle := Nat.le_add_right a (w * n)
    unfold fill
    rw [store_outside (by omega)]
    exact ih (by omega)

theorem fill_congr {v v' : Nat → F} (h : ∀ i < n, v i = v' i) : fill w mem a v n = fill w mem a v' n := by
  induction n with
  | zero => rfl
  | succ n ih =>
    unfold fill
    rw [ih fun i hi => h i (Nat.lt_succ_of_lt hi), h n (Nat.lt_succ_self n)]

/-- Copying encoded numbers stores them one after the other. -/
theorem memcpy_encode (hw : 0 < w) (v : Nat → F) : memcpy mem a (encode w v) (w * n) = fill w mem a v n := by
  funext b
  induction n with
  | zero => exact memcpy_outside (by omega)
  | succ n ih =>
    unfold fill store
    by_cases hb : a + w * n ≤ b ∧ b < a + w * n + w
    · obtain ⟨i, rfl⟩ := Nat.exists_eq_add_of_le hb.1
      have hi : i < w := by omega
      rw [memcpy_inside hi, Nat.add_assoc, memcpy_inside (by rw [Nat.mul_succ]; omega)]
      unfold encode
      rw [Nat.mul_add_div hw, Nat.div_eq_of_lt hi, Nat.mul_add_mod, Nat.mod_eq_of_lt hi, Nat.add_zero]
    · have hrest : memcpy (fill w mem a v n) (a + w * n) (fun i => ⟨w, v n, i⟩) w b = fill w mem a v n b :=
        memcpy_outside (by omega)
      rw [hrest, ← ih]
      unfold memcpy
      rw [Nat.mul_succ]
      by_cases hb' : a ≤ b ∧ b < a + w * n
      · rw [if_pos hb', if_pos (by omega)]
      · rw [if_neg hb', if_neg (by omega)]

/-- Filling an area again leaves what the last filling stored. -/
theorem fill_fill (hw : 0 < w) (v v' : Nat → F) : fill w (fill w mem a v n) a v' n = fill w mem a v' n := by
  rw [← memcpy_encode hw, ← memcpy_encode hw, ← memcpy_encode hw]
  funext b
  unfold memcpy
  split <;> rfl

/-- A loop whose turn `i` stores number `i`, with what the loop accumulates. -/
theorem foldl_eq_fill {A : Type*} {step : (Nat → NumByte F) × A → Nat → (Nat → NumByte F) × A} {v : Nat → F}
    {c : Nat → A}
    (h : ∀ i < n, step (fill w mem a v i, c i) i = (store w (fill w mem a v i) (a + w * i) (v i), c (i + 1))) :
    (List.range n).foldl step (mem, c 0) = (fill w mem a v n, c n) := by
  induction n with
  | zero => rfl
  | succ n ih =>
    rw [List.range_succ, List.foldl_append, ih fun i hi => h i (Nat.lt_succ_of_lt hi), List.foldl_cons, List.foldl_nil,
      h n (Nat.lt_succ_self n)]
    rfl

/-- A loop whose turn `i` stores number `i` and that accumulates nothing. -/
theorem foldl_eq_fill' {step : (Nat → NumByte F) → Nat → (Nat → NumByte F)} {v : Nat → F}
    (h : ∀ i < n, step (fill w mem a v i) i = store w (fill w mem a v i) (a + w * i) (v i)) :
    (List.range n).foldl step mem = fill w mem a v n := by
  induction n with
  | zero => rfl
  | succ n ih =>
    rw [List.range_succ, List.foldl_append, ih fun i hi => h i (Nat.lt_succ_of_lt hi), List.foldl_cons, List.foldl_nil,
      h n (Nat.lt_succ_self n)]
    rfl

variable [DecidableEq F] {g : F}

/-- The number at address `a`, or `g` if the bytes there are not those of one number. -/
def load (w : Nat) (g : F) (mem : Nat → NumByte F) (a : Nat) : F :=
  if ∀ i < w, mem (a + i) = ⟨w, (mem a).value, i⟩ then (mem a).value else g

theorem load_congr (hw : 0 < w) (h : ∀ i < w, mem (a + i) = mem' (a + i)) : load w g mem a = load w g mem' a := by
  have hfirst : mem a = mem' a := h 0 hw
  unfold load
  rw [hfirst]
  congr 1
  apply propext
  constructor
  · intro hmem i hi
    rw [← h i hi]
    exact hmem i hi
  · intro hmem i hi
    rw [h i hi]
    exact hmem i hi

theorem load_of_bytes (hw : 0 < w) {v : F} (h : ∀ i < w, mem (a + i) = ⟨w, v, i⟩) : load w g mem a = v := by
  have hvalue : (mem a).value = v := congrArg NumByte.value (h 0 hw)
  unfold load
  rw [hvalue, if_pos h]

/-- A number of another width is not read. -/
theorem load_of_width_ne (hw : 0 < w) (h : (mem a).width ≠ w) : load w g mem a = g := by
  unfold load
  rw [if_neg]
  intro hbytes
  exact h (congrArg NumByte.width (hbytes 0 hw))

theorem load_store (hw : 0 < w) (v : F) : load w g (store w mem a v) a = v :=
  load_of_bytes hw fun _ hi => memcpy_inside hi

/-- A number is not changed by what is stored beside it. -/
theorem load_store_ne (hw : 0 < w) {v : F} (h : b + w ≤ a ∨ a + w' ≤ b) :
    load w g (store w' mem a v) b = load w g mem b := by
  apply load_congr hw
  intro i hi
  exact store_outside (by omega)

theorem load_fill (hw : 0 < w) {v : Nat → F} {i : Nat} (hi : i < n) : load w g (fill w mem a v n) (a + w * i) = v i := by
  induction n with
  | zero => exact absurd hi (Nat.not_lt_zero i)
  | succ n ih =>
    unfold fill
    rcases Nat.lt_succ_iff_lt_or_eq.1 hi with hlt | rfl
    · have hstep : w * i + w ≤ w * n := Nat.mul_le_mul_left w hlt
      rw [load_store_ne hw (by omega)]
      exact ih hlt
    · exact load_store hw _

theorem load_fill_ne (hw : 0 < w) {v : Nat → F} (h : b + w ≤ a ∨ a + w' * n ≤ b) :
    load w g (fill w' mem a v n) b = load w g mem b := by
  apply load_congr hw
  intro i hi
  exact fill_outside (by omega)

/-! ### Tables -/

/-- A table of numbers, row by row. -/
def HoldsTable (w : Nat) (g : F) (mem : Nat → NumByte F) (a rows cols : Nat) (f : Nat → Nat → F) : Prop :=
  ∀ r < rows, ∀ j < cols, load w g mem (a + w * (r * cols + j)) = f r j

namespace HoldsTable

variable {rows cols : Nat} {f : Nat → Nat → F}

theorem of_fill (hw : 0 < w) (mem : Nat → NumByte F) (a : Nat) (v : Nat → F) (rows cols : Nat) :
    HoldsTable w g (fill w mem a v (rows * cols)) a rows cols fun r j => v (r * cols + j) :=
  fun _ hr _ hj => load_fill hw (Digits.mul_add_lt hr hj)

/-- Only the bytes of a table matter. -/
theorem of_eq (hw : 0 < w) (h : HoldsTable w g mem a rows cols f)
    (hmem : ∀ b, a ≤ b → b < a + w * (rows * cols) → mem' b = mem b) : HoldsTable w g mem' a rows cols f := by
  intro r hr j hj
  have hlt : r * cols + j < rows * cols := Digits.mul_add_lt hr hj
  have hstep : w * (r * cols + j) + w ≤ w * (rows * cols) := Nat.mul_le_mul_left w hlt
  rw [← h r hr j hj]
  apply load_congr hw
  intro i hi
  exact hmem _ (by omega) (by omega)

theorem congr (h : HoldsTable w g mem a rows cols f) {f' : Nat → Nat → F}
    (hf : ∀ r < rows, ∀ j < cols, f r j = f' r j) : HoldsTable w g mem a rows cols f' :=
  fun r hr j hj => (h r hr j hj).trans (hf r hr j hj)

/-- A table is not changed by numbers stored beside it. -/
theorem of_fill_ne (hw : 0 < w) (h : HoldsTable w g mem a rows cols f) {v : Nat → F}
    (hb : b + w' * n ≤ a ∨ a + w * (rows * cols) ≤ b) : HoldsTable w g (fill w' mem b v n) a rows cols f := by
  apply h.of_eq hw
  intro i hi hi'
  exact fill_outside (by omega)

/-- Further rows after those of a table. -/
theorem append (hw : 0 < w) {k m : Nat} (h : HoldsTable w g mem a k cols f) (hkept : ∀ b < a + w * (k * cols), mem' b = mem b)
    (hrest : HoldsTable w g mem' (a + w * (k * cols)) m cols fun r j => f (k + r) j) :
    HoldsTable w g mem' a (k + m) cols f := by
  intro r hr j hj
  rcases Nat.lt_or_ge r k with hlt | hge
  · exact h.of_eq hw (fun b _ hb => hkept b hb) r hlt j hj
  · obtain ⟨i, rfl⟩ := Nat.exists_eq_add_of_le hge
    have hcell := hrest i (by omega) j hj
    rw [Nat.add_assoc a, ← Nat.mul_add, ← Nat.add_assoc (k * cols), ← Nat.add_mul] at hcell
    exact hcell

/-- A table of which one more row is written. -/
theorem fill_row (hw : 0 < w) (f' : Nat → Nat → F) {k : Nat} (hk : k < rows)
    (h : HoldsTable w g mem a rows cols fun r j => if r < k then f' r j else f r j) :
    HoldsTable w g (fill w mem (a + w * (k * cols)) (f' k) cols) a rows cols
      fun r j => if r < k + 1 then f' r j else f r j := by
  intro r hr j hj
  rcases Nat.lt_trichotomy r k with hlt | rfl | hgt
  · have hrow : (r + 1) * cols ≤ k * cols := Nat.mul_le_mul_right cols hlt
    rw [Nat.succ_mul] at hrow
    have hend : w * (r * cols + j) + w ≤ w * (k * cols) := Nat.mul_le_mul_left w (by omega : r * cols + j + 1 ≤ k * cols)
    rw [load_fill_ne hw (by omega), h r hr j hj]
    dsimp only
    rw [if_pos hlt, if_pos (by omega)]
  · rw [Nat.mul_add, ← Nat.add_assoc, load_fill hw hj]
    exact (if_pos (Nat.lt_succ_self r)).symm
  · have hrow : (k + 1) * cols ≤ r * cols := Nat.mul_le_mul_right cols hgt
    rw [Nat.succ_mul] at hrow
    have hstart : w * (k * cols + cols) ≤ w * (r * cols + j) := Nat.mul_le_mul_left w (by omega)
    rw [Nat.mul_add] at hstart
    rw [load_fill_ne hw (by omega), h r hr j hj]
    dsimp only
    rw [if_neg (by omega), if_neg (by omega)]

end HoldsTable

/-- The induction on the turns of a loop. -/
theorem foldl_range_rec {S : Type*} {step : S → Nat → S} {P : Nat → S → Prop} {s : S} (h : P 0 s)
    (hstep : ∀ i < n, ∀ s, P i s → P (i + 1) (step s i)) : P n ((List.range n).foldl step s) := by
  induction n with
  | zero => exact h
  | succ n ih =>
    rw [List.range_succ, List.foldl_append]
    exact hstep n (Nat.lt_succ_self n) _ (ih fun i hi => hstep i (Nat.lt_succ_of_lt hi))

/-- A loop whose turn `r` replaces row `r` of a table leaves the whole new table and changes nothing else. -/
theorem foldl_rows (hw : 0 < w) {rows cols : Nat} {step : (Nat → NumByte F) → Nat → (Nat → NumByte F)}
    {f f' : Nat → Nat → F} (h : HoldsTable w g mem a rows cols f)
    (hstep : ∀ r < rows, ∀ mem', (∀ b, b < a ∨ a + w * (rows * cols) ≤ b → mem' b = mem b) →
      (∀ j < cols, load w g mem' (a + w * (r * cols + j)) = f r j) →
        step mem' r = fill w mem' (a + w * (r * cols)) (f' r) cols) :
    HoldsTable w g ((List.range rows).foldl step mem) a rows cols f' ∧
      ∀ b, b < a ∨ a + w * (rows * cols) ≤ b → (List.range rows).foldl step mem b = mem b := by
  have hrun : HoldsTable w g ((List.range rows).foldl step mem) a rows cols
      (fun r j => if r < rows then f' r j else f r j) ∧
        ∀ b, b < a ∨ a + w * (rows * cols) ≤ b → (List.range rows).foldl step mem b = mem b := by
    apply foldl_range_rec (P := fun k mem' => HoldsTable w g mem' a rows cols (fun r j => if r < k then f' r j else f r j) ∧
      ∀ b, b < a ∨ a + w * (rows * cols) ≤ b → mem' b = mem b)
    · exact ⟨h.congr fun r _ j _ => (if_neg (Nat.not_lt_zero r)).symm, fun _ _ => rfl⟩
    · rintro k hk mem' ⟨htable, hout⟩
      have hrow : (k + 1) * cols ≤ rows * cols := Nat.mul_le_mul_right cols hk
      have hend : w * (k * cols + cols) ≤ w * (rows * cols) := Nat.mul_le_mul_left w (by rwa [← Nat.succ_mul])
      rw [Nat.mul_add] at hend
      rw [hstep k hk mem' hout fun j hj => (htable k hk j hj).trans (if_neg (Nat.lt_irrefl k))]
      refine ⟨htable.fill_row hw f' hk, ?_⟩
      intro b hb
      rw [fill_outside (by omega)]
      exact hout b hb
  exact ⟨hrun.1.congr fun r hr j _ => if_pos hr, hrun.2⟩

/-- A loop whose turn `r` reads row `r` of a table and writes row `r` of another one, no row being overwritten before it is
read. -/
theorem foldl_rows_to (hw : 0 < w) {rows cols : Nat} {step : (Nat → NumByte F) → Nat → (Nat → NumByte F)}
    {f f' : Nat → Nat → F} (h : HoldsTable w g mem a rows cols f)
    (hapart : b ≤ a ∨ a + w * (rows * cols) ≤ b ∨ rows ≤ 1)
    (hstep : ∀ r < rows, ∀ mem', (∀ j < cols, load w g mem' (a + w * (r * cols + j)) = f r j) →
      step mem' r = fill w mem' (b + w * (r * cols)) (f' r) cols) :
    HoldsTable w g ((List.range rows).foldl step mem) b rows cols f' := by
  have hrun : HoldsTable w g ((List.range rows).foldl step mem) b rows cols f' ∧
      ∀ r, rows ≤ r → r < rows → ∀ j < cols, load w g ((List.range rows).foldl step mem) (a + w * (r * cols + j)) = f r j := by
    apply foldl_range_rec (P := fun k mem' => HoldsTable w g mem' b k cols f' ∧
      ∀ r, k ≤ r → r < rows → ∀ j < cols, load w g mem' (a + w * (r * cols + j)) = f r j)
    · exact ⟨fun r hr => absurd hr (Nat.not_lt_zero r), fun r _ => h r⟩
    · rintro k hk mem' ⟨hdone, hleft⟩
      rw [hstep k hk mem' (hleft k (le_refl k) hk)]
      constructor
      · intro r hr j hj
        rcases Nat.lt_succ_iff_lt_or_eq.1 hr with hlt | rfl
        · -- a row written before
          have hrow : w * (r * cols + cols) ≤ w * (k * cols) := by
            apply Nat.mul_le_mul_left
            rw [← Nat.succ_mul]
            exact Nat.mul_le_mul_right cols hlt
          have hnumber : w * (r * cols + j + 1) ≤ w * (r * cols + cols) := Nat.mul_le_mul_left w (by omega)
          rw [Nat.mul_succ] at hnumber
          rw [load_fill_ne hw (by omega)]
          exact hdone r hlt j hj
        · rw [Nat.mul_add, ← Nat.add_assoc, load_fill hw hj]
      · intro r hr hr' j hj
        have hrow : w * (k * cols + cols) ≤ w * (r * cols) := by
          apply Nat.mul_le_mul_left
          rw [← Nat.succ_mul]
          exact Nat.mul_le_mul_right cols hr
        have hlast : w * (r * cols + cols) ≤ w * (rows * cols) := by
          apply Nat.mul_le_mul_left
          rw [← Nat.succ_mul]
          exact Nat.mul_le_mul_right cols hr'
        have hnumber : w * (r * cols + j + 1) ≤ w * (r * cols + cols) := Nat.mul_le_mul_left w (by omega)
        rw [Nat.mul_succ] at hnumber
        rw [Nat.mul_add w (k * cols)] at hrow
        rw [Nat.mul_add w (r * cols) j] at hnumber ⊢
        rw [load_fill_ne hw (by omega), ← Nat.mul_add]
        exact hleft r (by omega) hr' j hj
  exact hrun.1

/-- A loop whose turns store to places apart, in any order, leaves what every turn stored and nothing else changed. -/
theorem foldl_scatter {ι : Type*} (hw : 0 < w) (g : F) (mem : Nat → NumByte F) {step : (Nat → NumByte F) → ι → (Nat → NumByte F)} {addr : ι → Nat}
    {val : ι → F} {a b : Nat} {l : List ι} (harea : ∀ i ∈ l, a ≤ addr i ∧ addr i + w ≤ b)
    (hapart : l.Pairwise fun i j => addr i + w ≤ addr j ∨ addr j + w ≤ addr i)
    (hstep : ∀ mem', (∀ c, c < a ∨ b ≤ c → mem' c = mem c) → ∀ i ∈ l, step mem' i = store w mem' (addr i) (val i)) :
    (∀ i ∈ l, load w g (l.foldl step mem) (addr i) = val i) ∧
      ∀ c, c < a ∨ b ≤ c → l.foldl step mem c = mem c := by
  have hrun : ∀ (l' : List ι) (mem' : Nat → NumByte F), l' ⊆ l →
      (l'.Pairwise fun i j => addr i + w ≤ addr j ∨ addr j + w ≤ addr i) → (∀ c, c < a ∨ b ≤ c → mem' c = mem c) →
      (∀ i ∈ l', load w g (l'.foldl step mem') (addr i) = val i) ∧
        (∀ c, c < a ∨ b ≤ c → l'.foldl step mem' c = mem c) ∧
        ∀ c, (∀ i ∈ l', c < addr i ∨ addr i + w ≤ c) → l'.foldl step mem' c = mem' c := by
    intro l'
    induction l' with
    | nil => exact fun mem' _ _ hmem => ⟨fun i hi => absurd hi List.not_mem_nil, hmem, fun _ _ => rfl⟩
    | cons i l' ih =>
      intro mem' hsub hpair hmem
      rw [List.pairwise_cons] at hpair
      have hi := hsub List.mem_cons_self
      obtain ⟨hlow, hhigh⟩ := harea i hi
      have hstored := hstep mem' hmem i hi
      obtain ⟨hload, hout, hrest⟩ := ih (step mem' i) (fun j hj => hsub (List.mem_cons_of_mem i hj)) hpair.2 (by
        intro c hc
        rw [hstored, store_outside (by omega)]
        exact hmem c hc)
      rw [List.foldl_cons]
      refine ⟨?_, hout, ?_⟩
      · intro j hj
        rcases List.mem_cons.1 hj with rfl | hj
        · have hkept : load w g (l'.foldl step (step mem' j)) (addr j) = load w g (step mem' j) (addr j) := by
            apply load_congr hw
            intro k hk
            apply hrest
            intro j' hj'
            have := hpair.1 j' hj'
            omega
          rw [hkept, hstored]
          exact load_store hw _
        · exact hload j hj
      · intro c hc
        rw [hrest c fun j hj => hc j (List.mem_cons_of_mem i hj), hstored]
        exact store_outside (hc i List.mem_cons_self)
  obtain ⟨hload, hout, -⟩ := hrun l mem (List.Subset.refl l) hapart fun _ _ => rfl
  exact ⟨hload, hout⟩

/-- Two nested loops whose turns store to places of their own in a block of `n` numbers. -/
theorem foldl_table (hw : 0 < w) {rows cols : Nat} (g : F) (mem : Nat → NumByte F)
    (step : (Nat → NumByte F) → Nat → Nat → (Nat → NumByte F)) (idx : Nat → Nat → Nat) (val : Nat → Nat → F) (hidx : ∀ r < rows, ∀ j < cols, idx r j < n)
    (hinj : ∀ r < rows, ∀ j < cols, ∀ r' < rows, ∀ j' < cols, idx r j = idx r' j' → r = r' ∧ j = j')
    (hstep : ∀ mem', (∀ c, c < a ∨ a + w * n ≤ c → mem' c = mem c) → ∀ r < rows, ∀ j < cols,
      step mem' r j = store w mem' (a + w * idx r j) (val r j)) :
    let mem' := (List.range rows).foldl (fun mem r => (List.range cols).foldl (fun mem j => step mem r j) mem) mem
    (∀ r < rows, ∀ j < cols, load w g mem' (a + w * idx r j) = val r j) ∧
      ∀ c, c < a ∨ a + w * n ≤ c → mem' c = mem c := by
  have hflat : (List.range rows).foldl (fun mem r => (List.range cols).foldl (fun mem j => step mem r j) mem) mem =
      (List.range rows ×ˢ List.range cols).foldl (fun mem p => step mem p.1 p.2) mem := by
    show _ = ((List.range rows).flatMap fun r => (List.range cols).map (Prod.mk r)).foldl _ mem
    rw [List.foldl_flatMap]
    congr 1
    funext mem r
    rw [List.foldl_map]
  have hmem : ∀ p ∈ List.range rows ×ˢ List.range cols, p.1 < rows ∧ p.2 < cols := by
    rintro ⟨r, j⟩ hp
    exact ⟨List.mem_range.1 (List.mem_product.1 hp).1, List.mem_range.1 (List.mem_product.1 hp).2⟩
  have harea : ∀ p ∈ List.range rows ×ˢ List.range cols, a ≤ a + w * idx p.1 p.2 ∧ a + w * idx p.1 p.2 + w ≤ a + w * n := by
    intro p hp
    have hle : w * idx p.1 p.2 + w ≤ w * n := Nat.mul_le_mul_left w (hidx _ (hmem p hp).1 _ (hmem p hp).2)
    omega
  have hapart : (List.range rows ×ˢ List.range cols).Pairwise fun p p' =>
      a + w * idx p.1 p.2 + w ≤ a + w * idx p'.1 p'.2 ∨ a + w * idx p'.1 p'.2 + w ≤ a + w * idx p.1 p.2 := by
    apply (List.nodup_range.product List.nodup_range).imp_of_mem
    intro p p' hp hp' hne
    have hdiff : idx p.1 p.2 ≠ idx p'.1 p'.2 := by
      intro heq
      obtain ⟨h1, h2⟩ := hinj _ (hmem p hp).1 _ (hmem p hp).2 _ (hmem p' hp').1 _ (hmem p' hp').2 heq
      exact hne (Prod.ext h1 h2)
    rcases Nat.lt_or_gt_of_ne hdiff with hlt | hlt
    · have hle : w * idx p.1 p.2 + w ≤ w * idx p'.1 p'.2 := Nat.mul_le_mul_left w hlt
      omega
    · have hle : w * idx p'.1 p'.2 + w ≤ w * idx p.1 p.2 := Nat.mul_le_mul_left w hlt
      omega
  obtain ⟨hload, hout⟩ := foldl_scatter hw g mem harea hapart fun mem' hmem' p hp =>
    hstep mem' hmem' _ (hmem p hp).1 _ (hmem p hp).2
  dsimp only
  rw [hflat]
  exact ⟨fun r hr j hj => hload (r, j) (List.mem_product.2 ⟨List.mem_range.2 hr, List.mem_range.2 hj⟩), hout⟩

end NumberMemory
