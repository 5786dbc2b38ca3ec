import Mathlib.Algebra.BigOperators.Group.Finset.Piecewise
import Mathlib.Algebra.Order.Field.Basic
import Tusim.Pooling.Execution

/-!
# Exact pooling

What a pooling should leave is stated in unbounded integers (`Pooled`): the dimensions of the output, the elements that a
padded window covers and the number an average divides by.  The code takes the origin of its windows from `ph` and `pw`
also where the padding is asymmetric, computes sizes in 32 bits and copies at most four bytes of an element.  The values
of a window agree for all inputs exactly if its loops use the elements that the window covers and the right count
(`windowSound_iff`).
-/

namespace Tusim.Pool

open Digits NumberMemory Painting Windows Word

namespace TuPoolDesc

variable (d : TuPoolDesc)

/-! ### What is wanted -/

/-- The padding in force. -/
def padTop : Nat := if d.asymPadding then d.phTop else d.ph

def padBottom : Nat := if d.asymPadding then d.phBottom else d.ph

def padLeft : Nat := if d.asymPadding then d.pwLeft else d.pw

def padRight : Nat := if d.asymPadding then d.pwRight else d.pw

/-- The rows of the padded input. -/
def height : Nat := d.ih + (d.padTop + d.padBottom)

def width : Nat := d.iw + (d.padLeft + d.padRight)

def exactOh : Nat := (d.height - d.kh) / d.sh + 1

def exactOw : Nat := (d.width - d.kw) / d.sw + 1

/-- The dimensions of the output are those of the padded input. -/
structure DimsExact : Prop where
  kh_le : d.kh ≤ d.height
  kw_le : d.kw ≤ d.width
  oh : d.oh = d.exactOh
  ow : d.ow = d.exactOw

/-- Both ranges lie in their regions. -/
structure RangesInside (sizes : Nat → UInt32) (src dst : Nat) : Prop where
  input : d.srcOffset + d.inputSize ≤ (sizes src).toNat
  output : d.dstOffset + d.outputSize ≤ (sizes dst).toNat

/-- The input elements that a padded window covers. -/
def exactWindow (oy ox : Nat) : Finset (Nat × Nat) :=
  exactCells d.kh (oy * d.sh) d.padTop d.ih ×ˢ exactCells d.kw (ox * d.sw) d.padLeft d.iw

/-- The number of elements of an average: with the padding, or those covered. -/
def exactCount (s : Finset (Nat × Nat)) : Nat := if d.countIncludePad then d.kh * d.kw else s.card

variable {F : Type} [Field F] [LinearOrder F] (negInf garbage : F)

/-- The maximum or the average over a padded window. -/
def exactValue (poolType : TuPoolType) (oy ox : Nat) (x : Nat × Nat → F) : F :=
  match poolType with
  | .max => windowMax negInf (d.exactWindow oy ox) x
  | .avg => windowAvg (d.exactCount (d.exactWindow oy ox)) (d.exactWindow oy ox) x

/-- The buffers `raw'` hold the pooling of what was in `raw`, and are otherwise what they were. -/
structure Pooled (sizes : Nat → UInt32) (poolType : TuPoolType) (src dst : Nat) (raw raw' : Nat → Nat → NumByte F) :
    Prop where
  dims : d.DimsExact
  inside : d.RangesInside sizes src dst
  values : ∀ b < d.batch, ∀ c < d.channels, ∀ oy < d.oh, ∀ ox < d.ow,
    load d.elemSize garbage (raw' dst) (d.dstAddr b c oy ox) =
      d.exactValue negInf poolType oy ox fun p => load d.elemSize garbage (raw src) (d.srcAddr b c p.1 p.2)
  untouched : d.Untouched dst raw raw'

end TuPoolDesc

/-! ### What the code does instead -/

namespace TuPoolDesc

variable (d : TuPoolDesc)

/-- The average divides by zero and leaves zero. -/
def CountVanishes (poolType : TuPoolType) : Prop := poolType = .avg ∧ d.countIncludePad = true ∧ u32 (d.kh * d.kw) = 0

instance (poolType : TuPoolType) : Decidable (d.CountVanishes poolType) :=
  inferInstanceAs (Decidable (_ ∧ _ ∧ _))

/-- The elements that the loops make use of. -/
def usedWindow (poolType : TuPoolType) (oy ox : Nat) : Finset (Nat × Nat) :=
  if d.CountVanishes poolType then ∅ else d.window oy ox

/-- The loops over a window use the elements it covers, and the count is right where that matters. -/
structure WindowSound (poolType : TuPoolType) (oy ox : Nat) : Prop where
  covered : d.usedWindow poolType oy ox = d.exactWindow oy ox
  count : poolType = .avg → (d.exactWindow oy ox).Nonempty →
    d.windowCount (d.window oy ox) = d.exactCount (d.exactWindow oy ox)

variable {d} {F : Type} [Field F] [LinearOrder F] [IsStrictOrderedRing F] {negInf : F}

/-! ### Windows -/

/-- Two windows have the same maxima only if they are the same. -/
theorem windowMax_inj {s t : Finset (Nat × Nat)} (h : ∀ x, windowMax negInf s x = windowMax negInf t x) : s = t := by
  -- an element of only one of them gets a value above all others
  have hsub : ∀ s t : Finset (Nat × Nat), (∀ x, windowMax negInf s x = windowMax negInf t x) → s ⊆ t := by
    intro s t h z hz
    by_contra hzt
    let top : F := max 0 negInf + 1
    have htop : negInf < top := (le_max_right 0 negInf).trans_lt (lt_add_one _)
    have hpos : (0 : F) < top := (le_max_left 0 negInf).trans_lt (lt_add_one _)
    have hx := h fun p => if p = z then top else 0
    have hs : s.Nonempty := ⟨z, hz⟩
    have hleft : top ≤ windowMax negInf s fun p => if p = z then top else 0 := by
      unfold windowMax
      rw [dif_pos hs]
      exact (if_pos rfl).symm.le.trans (Finset.le_sup' (fun p => if p = z then top else 0) hz)
    have hright : windowMax negInf t (fun p => if p = z then top else 0) < top := by
      unfold windowMax
      split
      · rename_i ht
        refine (Finset.sup'_lt_iff ht).2 fun p hp => ?_
        have hne : p ≠ z := by
          rintro rfl
          exact hzt hp
        rw [if_neg hne]
        exact hpos
      · exact htop
    exact absurd hx (hleft.trans_lt' hright).ne'
  exact (hsub s t h).antisymm (hsub t s fun x => (h x).symm)

omit [LinearOrder F] [IsStrictOrderedRing F] in
theorem windowAvg_single (count : Nat) (s : Finset (Nat × Nat)) (z : Nat × Nat) :
    windowAvg count s (fun p => if p = z then (1 : F) else 0) = if z ∈ s then 1 / (count : F) else 0 := by
  unfold windowAvg
  rw [Finset.sum_ite_eq']
  split
  · rfl
  · exact zero_div _

/-- Two windows that count their elements have the same averages only if they are the same and have the same count. -/
theorem windowAvg_inj {s t : Finset (Nat × Nat)} {m n : Nat} (hm : s.Nonempty → m ≠ 0) (hn : t.Nonempty → n ≠ 0)
    (h : ∀ x : Nat × Nat → F, windowAvg m s x = windowAvg n t x) : s = t ∧ (t.Nonempty → m = n) := by
  have hinv {k : Nat} (hk : k ≠ 0) : 1 / (k : F) ≠ 0 := one_div_ne_zero (Nat.cast_ne_zero.2 hk)
  have hsingle (z : Nat × Nat) : (if z ∈ s then 1 / (m : F) else 0) = if z ∈ t then 1 / (n : F) else 0 := by
    rw [← windowAvg_single, ← windowAvg_single]
    exact h _
  have hst : s = t := by
    ext z
    have hz := hsingle z
    constructor
    · intro hs
      by_contra ht
      rw [if_pos hs, if_neg ht] at hz
      exact hinv (hm ⟨z, hs⟩) hz
    · intro ht
      by_contra hs
      rw [if_pos ht, if_neg hs] at hz
      exact hinv (hn ⟨z, ht⟩) hz.symm
  refine ⟨hst, ?_⟩
  rintro ⟨z, hz⟩
  have hcount := hsingle z
  rw [if_pos (hst ▸ hz), if_pos hz] at hcount
  rw [one_div, one_div, inv_inj] at hcount
  exact Nat.cast_injective hcount

theorem exactCount_ne_zero (hkh : 0 < d.kh) (hkw : 0 < d.kw) {s : Finset (Nat × Nat)} (hs : s.Nonempty) :
    d.exactCount s ≠ 0 := by
  unfold exactCount
  split
  · exact (Nat.mul_pos hkh hkw).ne'
  · exact (Finset.card_pos.2 hs).ne'

/-- The values of a window are right for all inputs if and only if it is sound. -/
theorem windowSound_iff (hkh : 0 < d.kh) (hkw : 0 < d.kw) {poolType : TuPoolType} {oy ox : Nat} :
    (∀ x, d.windowValue negInf poolType oy ox x = d.exactValue negInf poolType oy ox x) ↔
      d.WindowSound poolType oy ox := by
  cases poolType with
  | max =>
    have hused : d.usedWindow .max oy ox = d.window oy ox := if_neg fun h => absurd h.1 nofun
    constructor
    · exact fun h => ⟨hused.trans (windowMax_inj h), nofun⟩
    · intro h x
      have hcovered := hused.symm.trans h.covered
      unfold windowValue exactValue
      dsimp only
      rw [hcovered]
  | avg =>
    have hused (x : Nat × Nat → F) : windowAvg (d.windowCount (d.window oy ox)) (d.window oy ox) x =
        windowAvg (d.windowCount (d.window oy ox)) (d.usedWindow .avg oy ox) x := by
      unfold usedWindow windowAvg
      by_cases hzero : d.CountVanishes .avg
      · have hcount : d.windowCount (d.window oy ox) = 0 := (if_pos hzero.2.1).trans hzero.2.2
        rw [if_pos hzero, hcount, Nat.cast_zero, div_zero, div_zero]
      · rw [if_neg hzero]
    constructor
    · intro h
      have hne : (d.usedWindow .avg oy ox).Nonempty → d.windowCount (d.window oy ox) ≠ 0 := by
        rintro ⟨z, hz⟩ hzero
        unfold usedWindow at hz
        split at hz
        · exact absurd hz (Finset.notMem_empty z)
        · rename_i hnot
          unfold windowCount at hzero
          split at hzero
          · rename_i hpad
            exact hnot ⟨rfl, hpad, hzero⟩
          · rw [Finset.card_eq_zero.1 hzero] at hz
            exact absurd hz (Finset.notMem_empty z)
      obtain ⟨hsame, hcount⟩ := windowAvg_inj hne (exactCount_ne_zero hkh hkw) fun x => (hused x).symm.trans (h x)
      exact ⟨hsame, fun _ => hcount⟩
    · intro h x
      have hcovered := h.covered
      unfold windowValue exactValue
      dsimp only
      rw [hused, hcovered]
      rcases (d.exactWindow oy ox).eq_empty_or_nonempty with hempty | hne
      · unfold windowAvg
        rw [hempty, Finset.sum_empty, zero_div, zero_div]
      · rw [h.count rfl hne]

end TuPoolDesc

end Tusim.Pool
