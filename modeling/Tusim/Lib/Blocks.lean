import Mathlib.Algebra.BigOperators.Group.List.Basic
import Mathlib.Algebra.Order.Group.Nat
import Mathlib.Algebra.Order.Ring.Nat
import Mathlib.Data.List.Basic
import Mathlib.Order.Interval.Finset.Nat

/-!
# Memory written in blocks

A memory as a function of the offset, and the copies and fills of C on it.  A loop whose turn `g` writes only the cells
of block `g` leaves in every cell what the turn of its block wrote (`foldl_blocks`), and a loop of copies to one block after
the other is one copy (`foldl_memcpy`).  A loop that converts blocks in place converts what they held at the start, provided that
no turn overwrites what a later one reads (`foldl_convertAt`).
-/

namespace Blocks

variable {β : Type*}

/-- `memcpy(mem + dst, src, n)` -/
def memcpy (mem : Nat → β) (dst : Nat) (src : Nat → β) (n : Nat) : Nat → β :=
  fun i => if dst ≤ i ∧ i < dst + n then src (i - dst) else mem i

/-- `memset(mem + dst, v, n)` -/
def memset (mem : Nat → β) (dst : Nat) (v : β) (n : Nat) : Nat → β := memcpy mem dst (fun _ => v) n

theorem memcpy_inside {mem src : Nat → β} {dst n i : Nat} (h : i < n) : memcpy mem dst src n (dst + i) = src i := by
  unfold memcpy
  rw [if_pos (by omega), Nat.add_sub_cancel_left]

theorem memcpy_outside {mem src : Nat → β} {dst n i : Nat} (h : i < dst ∨ dst + n ≤ i) :
    memcpy mem dst src n i = mem i := by
  unfold memcpy
  rw [if_neg (by omega)]

theorem memset_inside {mem : Nat → β} {v : β} {dst n i : Nat} (h : i < n) : memset mem dst v n (dst + i) = v :=
  memcpy_inside h

theorem memset_outside {mem : Nat → β} {v : β} {dst n i : Nat} (h : i < dst ∨ dst + n ≤ i) :
    memset mem dst v n i = mem i :=
  memcpy_outside h

theorem foldl_blocks {f : (Nat → β) → Nat → Nat → β} {w : Nat} {v : Nat → Nat → β}
    {k : Nat} (hin : ∀ mem, ∀ g < k, ∀ i < w, f mem g (g * w + i) = v g i)
    (hout : ∀ mem g i, i < g * w ∨ g * w + w ≤ i → f mem g i = mem i) (mem : Nat → β) :
    (∀ g < k, ∀ i < w, (List.range k).foldl f mem (g * w + i) = v g i) ∧
      ∀ i, k * w ≤ i → (List.range k).foldl f mem i = mem i := by
  induction k with
  | zero => exact ⟨fun g hg => absurd hg (Nat.not_lt_zero g), fun _ _ => rfl⟩
  | succ k ih =>
    have ih := ih fun mem g hg => hin mem g (Nat.lt_succ_of_lt hg)
    rw [List.range_succ, List.foldl_append, List.foldl_cons, List.foldl_nil]
    have hk : (k + 1) * w = k * w + w := Nat.succ_mul k w
    constructor
    · intro g hg i hi
      rcases Nat.lt_succ_iff_lt_or_eq.1 hg with hlt | rfl
      · have hblock : (g + 1) * w ≤ k * w := Nat.mul_le_mul_right w hlt
        rw [Nat.succ_mul] at hblock
        rw [hout _ _ _ (Or.inl (by omega))]
        exact ih.1 g hlt i hi
      · exact hin _ _ hg i hi
    · intro i hi
      rw [hk] at hi
      rw [hout _ _ _ (Or.inr hi)]
      exact ih.2 i (by omega)

/-- What blocks of `w` cells hold, one after the other. -/
def blocks (w : Nat) (v : Nat → Nat → β) : Nat → β := fun b => v (b / w) (b % w)

theorem blocks_apply {w i x : Nat} {v : Nat → Nat → β} (h : x < w) : blocks w v (i * w + x) = v i x := by
  unfold blocks
  rw [Nat.mul_comm, Nat.mul_add_div (Nat.zero_lt_of_lt h), Nat.div_eq_of_lt h, Nat.add_zero, Nat.mul_add_mod,
    Nat.mod_eq_of_lt h]

/-- A loop whose turns write one block after the other writes one large block. -/
theorem foldl_memcpy {f : (Nat → β) → Nat → Nat → β} {a w k : Nat} {v : Nat → Nat → β}
    (h : ∀ i < k, ∀ mem, f mem i = memcpy mem (a + i * w) (v i) w) (mem : Nat → β) :
    (List.range k).foldl f mem = memcpy mem a (blocks w v) (k * w) := by
  induction k with
  | zero =>
    funext b
    exact (memcpy_outside (by omega)).symm
  | succ k ih =>
    rw [List.range_succ, List.foldl_append, ih fun i hi => h i (Nat.lt_succ_of_lt hi), List.foldl_cons, List.foldl_nil,
      h k (Nat.lt_succ_self k)]
    have hk : (k + 1) * w = k * w + w := Nat.succ_mul k w
    funext b
    by_cases hlast : a + k * w ≤ b ∧ b < a + k * w + w
    · obtain ⟨i, rfl⟩ := Nat.exists_eq_add_of_le hlast.1
      have hi : i < w := by omega
      rw [memcpy_inside hi, Nat.add_assoc, memcpy_inside (by omega), blocks_apply hi]
    · rw [memcpy_outside (by omega)]
      unfold memcpy
      by_cases hb : a ≤ b ∧ b < a + k * w
      · rw [if_pos hb, if_pos (by omega)]
      · rw [if_neg hb, if_neg (by omega)]

/-! ### Blocks converted in place -/

/-- Block `i` of `a` cells is read and its conversion stored as block `i` of `b` cells of the same memory. -/
def convertAt (s a b : Nat) (conv : Nat → (Nat → β) → Nat → β) (mem : Nat → β) (i : Nat) : Nat → β :=
  memcpy mem (s + b * i) (conv i fun y => mem (s + a * i + y)) b

/-- A conversion of `a` cells to `b` cells looks at no other cell. -/
def Converts (a b : Nat) (conv : Nat → (Nat → β) → Nat → β) : Prop :=
  ∀ i src src', (∀ y < a, src y = src' y) → ∀ x < b, conv i src x = conv i src' x

/-- After turn `j` the source of block `i` is still intact. -/
def Intact (a b j i : Nat) : Prop := j ≠ i ∧ (b * j + b ≤ a * i ∨ a * i + a ≤ b * j)

theorem mul_block {b i j : Nat} (h : i < j) : b * i + b ≤ b * j := by
  rw [← Nat.mul_succ]
  exact Nat.mul_le_mul_left b h

/-- In an order in which no turn overwrites what a later one reads, every block is converted from what it held at the
start. -/
theorem foldl_convertAt {s a b : Nat} {conv : Nat → (Nat → β) → Nat → β} (hconv : Converts a b conv) {order : List Nat}
    (horder : order.Pairwise (Intact a b)) (mem : Nat → β) :
    (∀ i ∈ order, ∀ x < b,
        order.foldl (convertAt s a b conv) mem (s + b * i + x) = conv i (fun y => mem (s + a * i + y)) x) ∧
      ∀ c, (∀ i ∈ order, c < s + b * i ∨ s + b * i + b ≤ c) → order.foldl (convertAt s a b conv) mem c = mem c := by
  induction order generalizing mem with
  | nil => exact ⟨fun i hi => absurd hi List.not_mem_nil, fun _ _ => rfl⟩
  | cons j order ih =>
    obtain ⟨hfirst, hrest⟩ := List.pairwise_cons.1 horder
    obtain ⟨hin, hout⟩ := ih hrest (convertAt s a b conv mem j)
    rw [List.foldl_cons]
    constructor
    · intro i hi x hx
      rcases List.mem_cons.1 hi with rfl | hlater
      · -- the later turns write other blocks
        rw [hout _ fun k hk => ?_]
        · exact memcpy_inside hx
        · rcases Nat.lt_or_gt_of_ne (hfirst k hk).1 with hlt | hlt
          · have hblock := mul_block (b := b) hlt
            omega
          · have hblock := mul_block (b := b) hlt
            omega
      · rw [hin i hlater x hx]
        refine hconv i _ _ (fun y hy => ?_) x hx
        have hintact := (hfirst i hlater).2
        exact memcpy_outside (by omega)
    · intro c hc
      rw [hout c fun i hi => hc i (List.mem_cons_of_mem j hi)]
      exact memcpy_outside (hc j List.mem_cons_self)

/-- Shrinking blocks are converted forwards. -/
theorem intact_forward {a b : Nat} (h : b ≤ a) {j i : Nat} (hji : j < i) : Intact a b j i :=
  ⟨Nat.ne_of_lt hji, .inl ((mul_block hji).trans (Nat.mul_le_mul_right i h))⟩

/-- Growing blocks are converted backwards. -/
theorem intact_backward {a b : Nat} (h : a ≤ b) {j i : Nat} (hij : i < j) : Intact a b j i :=
  ⟨Nat.ne_of_gt hij, .inr ((mul_block hij).trans (Nat.mul_le_mul_right j h))⟩

end Blocks

/-!
### Cutting an interval into admissible pieces

An interval of the naturals is cut into pieces one after the other, and `ok a c` says that the piece of length `c` at
`a` is admissible.  If admissibility passes on to shorter pieces inside, then always taking the longest admissible
piece needs the fewest (`Greedy.length_le`): its cuts never fall behind those of another cutting.
-/

namespace Cutting

variable {ok : Nat → Nat → Prop}

/-- The lengths cut the interval from `a` to `b` into admissible pieces. -/
def Cuts (ok : Nat → Nat → Prop) : Nat → List Nat → Nat → Prop
  | a, [], b => a = b
  | a, c :: cs, b => 0 < c ∧ ok a c ∧ Cuts ok (a + c) cs b

/-- No admissible piece of the interval is longer than the one taken. -/
def Greedy (ok : Nat → Nat → Prop) : Nat → List Nat → Nat → Prop
  | a, [], b => a = b
  | a, c :: cs, b => 0 < c ∧ ok a c ∧ (∀ d, c < d → a + d ≤ b → ¬ ok a d) ∧ Greedy ok (a + c) cs b

/-- What is inside an admissible piece is admissible. -/
def Inherited (ok : Nat → Nat → Prop) : Prop :=
  ∀ a c a' c', ok a c → a ≤ a' → 0 < c' → a' + c' ≤ a + c → ok a' c'

theorem Cuts.sum_eq {a b : Nat} {cs : List Nat} (h : Cuts ok a cs b) : a + cs.sum = b := by
  induction cs generalizing a with
  | nil => exact h
  | cons c cs ih =>
    rw [List.sum_cons, ← Nat.add_assoc]
    exact ih h.2.2

theorem Greedy.cuts {a b : Nat} {cs : List Nat} (h : Greedy ok a cs b) : Cuts ok a cs b := by
  induction cs generalizing a with
  | nil => exact h
  | cons c cs ih => exact ⟨h.1, h.2.1, ih h.2.2.2⟩

/-- A greedy cutting that starts no earlier needs no more pieces. -/
theorem Greedy.length_le_of_le (hok : Inherited ok) {a a' b : Nat} {cs ds : List Nat} (h : Greedy ok a cs b)
    (h' : Cuts ok a' ds b) (ha : a' ≤ a) : cs.length ≤ ds.length := by
  induction ds generalizing a a' cs with
  | nil =>
    cases cs with
    | nil => exact Nat.le_refl _
    | cons c cs =>
      have hsum := h.cuts.sum_eq
      have hend : a' = b := h'
      rw [List.sum_cons] at hsum
      have hpos := h.1
      omega
  | cons d ds ih =>
    cases cs with
    | nil => exact Nat.zero_le _
    | cons c cs =>
      obtain ⟨hd, hokd, hrest⟩ := h'
      obtain ⟨hc, -, hlongest, hgreedy⟩ := h
      refine Nat.succ_le_succ (ih hgreedy hrest ?_)
      by_contra hbehind
      -- the piece of the other cutting contains a longer one
      have hend := hrest.sum_eq
      exact hlongest (a' + d - a) (by omega) (by omega) (hok a' d a _ hokd ha (by omega) (by omega))

/-- A greedy cutting has the fewest pieces. -/
theorem Greedy.length_le (hok : Inherited ok) {a b : Nat} {cs ds : List Nat} (h : Greedy ok a cs b)
    (h' : Cuts ok a ds b) : cs.length ≤ ds.length :=
  h.length_le_of_le hok h' (Nat.le_refl a)

/-! ### Boundaries -/

/-- The piece of length `c` at `a` lies between two consecutive multiples of `n`. -/
def Inside (n a c : Nat) : Prop := a / n = (a + c - 1) / n

theorem Inside.mono {n a c a' c' : Nat} (h : Inside n a c) (ha : a ≤ a') (hc : 0 < c') (hle : a' + c' ≤ a + c) :
    Inside n a' c' := by
  have hlow := Nat.div_le_div_right (c := n) ha
  have hmid := Nat.div_le_div_right (c := n) (show a' ≤ a' + c' - 1 by omega)
  have hhigh := Nat.div_le_div_right (c := n) (show a' + c' - 1 ≤ a + c - 1 by omega)
  unfold Inside at h ⊢
  omega

/-- The room up to the next multiple. -/
theorem inside_iff {n a c : Nat} (hn : 0 < n) (hc : 0 < c) : Inside n a c ↔ c ≤ n - a % n := by
  have hsplit := Nat.div_add_mod a n
  have hmod := Nat.mod_lt a hn
  unfold Inside
  rw [eq_comm, Nat.div_eq_iff hn]
  have hmul : a / n * n = n * (a / n) := Nat.mul_comm _ _
  omega

/-! ### The blocks an interval meets -/

/-- The blocks of `n` bytes that `[a, a + c)` meets. -/
def met (n a c : Nat) : Finset Nat := (Finset.Ico a (a + c)).image (· / n)

theorem met_eq_Icc {n a c : Nat} (hn : 0 < n) (hc : 0 < c) : met n a c = Finset.Icc (a / n) ((a + c - 1) / n) := by
  ext k
  unfold met
  rw [Finset.mem_image, Finset.mem_Icc]
  constructor
  · rintro ⟨x, hx, rfl⟩
    rw [Finset.mem_Ico] at hx
    exact ⟨Nat.div_le_div_right hx.1, Nat.div_le_div_right (by omega)⟩
  · rintro ⟨hfirst, hlast⟩
    have hlow : k * n ≤ a + c - 1 := (Nat.le_div_iff_mul_le hn).1 hlast
    have hhigh : a < (k + 1) * n := (Nat.div_lt_iff_lt_mul hn).1 (Nat.lt_succ_of_le hfirst)
    rw [Nat.succ_mul] at hhigh
    -- the first byte of the interval that is not below the block
    refine ⟨max a (k * n), by rw [Finset.mem_Ico]; omega, ?_⟩
    rw [Nat.div_eq_iff hn]
    omega

/-- The number of blocks met is decided by where the interval starts in its first block. -/
theorem card_met {n a c : Nat} (hn : 0 < n) (hc : 0 < c) : (met n a c).card = (a % n + c - 1) / n + 1 := by
  have hsplit : (a + c - 1) / n = a / n + (a % n + c - 1) / n := by
    have ha : a + c - 1 = a % n + c - 1 + n * (a / n) := by
      have h := Nat.mod_add_div a n
      generalize n * (a / n) = x at h ⊢
      omega
    rw [ha, Nat.add_mul_div_left _ _ hn, Nat.add_comm]
  rw [met_eq_Icc hn hc, Nat.card_Icc, hsplit, Nat.add_assoc, Nat.add_sub_cancel_left]

end Cutting
