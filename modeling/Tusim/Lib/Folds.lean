import Mathlib.Algebra.BigOperators.Fin
import Mathlib.Algebra.BigOperators.Group.List.Basic
import Mathlib.Algebra.BigOperators.Intervals
import Mathlib.Data.List.Basic
import Mathlib.Logic.Function.Basic

/-!
# Folds

What loops that go through a list leave: sums (`LoopSum`), results of steps that can fail (`PartialFold`) and memories of
numbers that amounts are added to (`Accumulation`).
-/

/-!
### Sums computed by loops

A loop that adds an amount in every turn adds the sum of the amounts (`foldl_eq_add_sum`), also when the turns are loops
themselves.  A sum over a number in mixed radix is a sum over its digits (`sum_range_mul`).
-/

namespace LoopSum

open Finset

variable {M : Type*} [AddCommMonoid M]

theorem foldl_eq_add_sum {n : Nat} {f : M → Nat → M} {t : Nat → M} (h : ∀ i < n, ∀ sum, f sum i = sum + t i) (sum : M) :
    (List.range n).foldl f sum = sum + ∑ i ∈ range n, t i := by
  induction n with
  | zero => exact (add_zero sum).symm
  | succ n ih =>
    rw [List.range_succ, List.foldl_append, ih fun i hi => h i (Nat.lt_succ_of_lt hi), List.foldl_cons, List.foldl_nil,
      h n (Nat.lt_succ_self n), sum_range_succ, add_assoc]

/-- A loop that adds an amount in every turn and fails where the sum leaves a range. -/
theorem foldlM_within (ok : M → Prop) [DecidablePred ok] (t : Nat → M) (n : Nat) (sum : M) :
    (List.range n).foldlM (fun sum i => if ok (sum + t i) then some (sum + t i) else none) sum =
      if ∀ k < n, ok (sum + ∑ i ∈ range (k + 1), t i) then some (sum + ∑ i ∈ range n, t i) else none := by
  induction n with
  | zero => simp
  | succ n ih =>
    rw [List.range_succ, List.foldlM_append, ih]
    by_cases hall : ∀ k < n, ok (sum + ∑ i ∈ range (k + 1), t i)
    · have hsplit : (∀ k < n + 1, ok (sum + ∑ i ∈ range (k + 1), t i)) ↔ ok (sum + ∑ i ∈ range n, t i + t n) := by
        rw [add_assoc, ← sum_range_succ]
        exact ⟨fun h => h n (Nat.lt_succ_self n), fun h k hk =>
          (Nat.lt_succ_iff_lt_or_eq.1 hk).elim (hall k) fun hkn => hkn ▸ h⟩
      rw [if_pos hall, sum_range_succ, ← add_assoc]
      simp only [hsplit]
      by_cases hok : ok (sum + ∑ i ∈ range n, t i + t n) <;> simp [hok]
    · have hnot : ¬ ∀ k < n + 1, ok (sum + ∑ i ∈ range (k + 1), t i) := fun h =>
        hall fun k hk => h k (Nat.lt_succ_of_lt hk)
      rw [if_neg hall, if_neg hnot]
      rfl

theorem sum_range_mul (m n : Nat) (f : Nat → M) :
    ∑ i ∈ range (m * n), f i = ∑ q ∈ range m, ∑ r ∈ range n, f (q * n + r) := by
  induction m with
  | zero => simp
  | succ m ih => rw [Nat.succ_mul, sum_range_add, ih, sum_range_succ]

end LoopSum

/-!
### Folds of partial steps

A loop whose steps can fail goes through exactly if every step does, as soon as an invariant tells whether a step
succeeds (`foldlM_isSome_iff`), and what every step keeps the loop keeps (`foldlM_keeps`).
-/

namespace PartialFold

variable {S A : Type} {f : S → A → Option S} {P : S → Prop}

theorem foldlM_congr {g : S → A → Option S} {l : List A} (h : ∀ s, ∀ a ∈ l, f s a = g s a) (s : S) :
    l.foldlM f s = l.foldlM g s := by
  induction l generalizing s with
  | nil => rfl
  | cons a l ih =>
    rw [List.foldlM_cons, List.foldlM_cons, h s a List.mem_cons_self]
    exact congrArg _ (funext fun s' => ih (fun s b hb => h s b (List.mem_cons_of_mem a hb)) s')

/-- Nested loops are a loop over all their turns. -/
theorem foldlM_flatMap {B : Type} (l : List B) (g : B → List A) (s : S) :
    (l.flatMap g).foldlM f s = l.foldlM (fun s b => (g b).foldlM f s) s := by
  induction l generalizing s with
  | nil => rfl
  | cons b l ih =>
    rw [List.flatMap_cons, List.foldlM_append, List.foldlM_cons]
    cases (g b).foldlM f s with
    | none => rfl
    | some s' => exact ih s'

/-- What every step keeps the loop keeps. -/
theorem foldlM_keeps {l : List A} (hstep : ∀ s, ∀ a ∈ l, ∀ s', P s → f s a = some s' → P s') {s s' : S} (hs : P s)
    (h : l.foldlM f s = some s') : P s' := by
  induction l generalizing s with
  | nil =>
    rw [List.foldlM_nil] at h
    exact Option.some.inj h ▸ hs
  | cons a l ih =>
    rw [List.foldlM_cons] at h
    obtain ⟨next, hnext, hrest⟩ := Option.bind_eq_some_iff.1 h
    exact ih (fun s b hb => hstep s b (List.mem_cons_of_mem a hb)) (hstep s a List.mem_cons_self next hs hnext) hrest

/-- Where an invariant tells which steps succeed, the loop succeeds exactly if all of them do. -/
theorem foldlM_isSome_iff {ok : A → Prop} {l : List A} (hkeep : ∀ s, ∀ a ∈ l, ∀ s', P s → f s a = some s' → P s')
    (hok : ∀ s, ∀ a ∈ l, P s → ((f s a).isSome = true ↔ ok a)) {s : S} (hs : P s) :
    (l.foldlM f s).isSome = true ↔ ∀ a ∈ l, ok a := by
  induction l generalizing s with
  | nil =>
    rw [List.foldlM_nil]
    simp
  | cons a l ih =>
    have hfirst := hok s a List.mem_cons_self hs
    rw [List.foldlM_cons, List.forall_mem_cons, ← hfirst]
    cases hnext : f s a with
    | none => simp
    | some next =>
      have hrest := ih (fun s b hb => hkeep s b (List.mem_cons_of_mem a hb))
        (fun s b hb => hok s b (List.mem_cons_of_mem a hb)) (hkeep s a List.mem_cons_self next hs hnext)
      simpa using hrest

end PartialFold

/-!
### Adding to a memory

A memory of numbers to whose cells amounts are added one after the other: a cell ends with the sum of what was added to
it (`foldl_addTo`).  The amounts come from nested loops, and the sums over their turns are taken apart, filtered and
exchanged loop by loop.
-/

namespace Accumulation

variable {ι κ R : Type*} [AddCommMonoid R]

/-! ### Sums over loops -/

theorem sum_map_flatMap (l : List ι) (g : ι → List κ) (f : κ → R) :
    ((l.flatMap g).map f).sum = (l.map fun x => ((g x).map f).sum).sum := by
  induction l with
  | nil => rfl
  | cons x l ih => rw [List.flatMap_cons, List.map_append, List.sum_append, ih, List.map_cons, List.sum_cons]

/-- Two nested loops can be exchanged. -/
theorem sum_map_comm (l : List ι) (k : List κ) (f : ι → κ → R) :
    (l.map fun x => (k.map fun y => f x y).sum).sum = (k.map fun y => (l.map fun x => f x y).sum).sum := by
  induction l with
  | nil => simp
  | cons x l ih =>
    rw [List.map_cons, List.sum_cons, ih, ← List.sum_map_add]
    rfl

theorem sum_map_range (n : Nat) (f : Nat → R) : ((List.range n).map f).sum = ∑ i : Fin n, f i := by
  induction n with
  | zero => rfl
  | succ n ih => simp [List.range_succ, ih, Fin.sum_univ_castSucc]

/-- Of the turns of a loop, one adds something. -/
theorem sum_map_range_ite (n i : Nat) (v : R) :
    ((List.range n).map fun j => if j = i then v else 0).sum = if i < n then v else 0 := by
  induction n with
  | zero => rfl
  | succ n ih =>
    rw [List.range_succ, List.map_append, List.sum_append, ih, List.map_singleton, List.sum_singleton]
    rcases Nat.lt_trichotomy i n with h | h | h
    · rw [if_pos h, if_neg (by omega), if_pos (by omega), add_zero]
    · rw [if_neg (by omega), if_pos h.symm, if_pos (by omega), zero_add]
    · rw [if_neg (by omega), if_neg (by omega), if_neg (by omega), add_zero]

/-! ### The memory -/

variable [DecidableEq ι]

/-- Add an amount to a cell. -/
def addTo (mem : ι → R) (u : ι × R) : ι → R := Function.update mem u.1 (mem u.1 + u.2)

theorem foldl_addTo (us : List (ι × R)) (mem : ι → R) (a : ι) :
    us.foldl addTo mem a = mem a + (us.map fun u => if u.1 = a then u.2 else 0).sum := by
  induction us generalizing mem with
  | nil => simp
  | cons u us ih =>
    rw [List.foldl_cons, ih, List.map_cons, List.sum_cons, ← add_assoc]
    congr 1
    unfold addTo
    by_cases hu : u.1 = a
    · rw [if_pos hu, ← hu, Function.update_self]
    · rw [if_neg hu, Function.update_of_ne (Ne.symm hu), add_zero]

/-- A cell that nothing is added to. -/
theorem foldl_addTo_of_notMem {us : List (ι × R)} {a : ι} (h : a ∉ us.map Prod.fst) (mem : ι → R) :
    us.foldl addTo mem a = mem a := by
  induction us generalizing mem with
  | nil => rfl
  | cons u us ih =>
    rw [List.map_cons, List.mem_cons, not_or] at h
    rw [List.foldl_cons, ih h.2]
    exact Function.update_of_ne h.1 _ _

/-- A cell that something is added to once. -/
theorem foldl_addTo_of_mem {us : List (ι × R)} (hnodup : (us.map Prod.fst).Nodup) {u : ι × R} (hu : u ∈ us)
    (mem : ι → R) : us.foldl addTo mem u.1 = mem u.1 + u.2 := by
  induction us generalizing mem with
  | nil => cases hu
  | cons v us ih =>
    rw [List.map_cons, List.nodup_cons] at hnodup
    rw [List.foldl_cons]
    rcases List.mem_cons.1 hu with rfl | hmem
    · rw [foldl_addTo_of_notMem hnodup.1]
      exact Function.update_self ..
    · have hne : u.1 ≠ v.1 := fun h => hnodup.1 (h ▸ List.mem_map_of_mem hmem)
      rw [ih hnodup.2 hmem]
      unfold addTo
      rw [Function.update_of_ne hne]

/-- Add an amount to a cell, unless the sum leaves a range. -/
def addWithin (ok : R → Prop) [DecidablePred ok] (mem : ι → R) (u : ι × R) : Option (ι → R) :=
  if ok (mem u.1 + u.2) then some (addTo mem u) else none

/-- Adding to different cells goes through if every sum does. -/
theorem foldlM_addWithin {ok : R → Prop} [DecidablePred ok] {us : List (ι × R)} (hnodup : (us.map Prod.fst).Nodup)
    (mem : ι → R) :
    us.foldlM (addWithin ok) mem =
      if ∀ u ∈ us, ok (mem u.1 + u.2) then some (us.foldl addTo mem) else none := by
  induction us generalizing mem with
  | nil => simp
  | cons v us ih =>
    rw [List.map_cons, List.nodup_cons] at hnodup
    have hsame : ∀ u ∈ us, addTo mem v u.1 = mem u.1 := by
      intro u hu
      have hne : u.1 ≠ v.1 := fun h => hnodup.1 (h ▸ List.mem_map_of_mem hu)
      exact Function.update_of_ne hne _ _
    have hrest : (∀ u ∈ us, ok (addTo mem v u.1 + u.2)) ↔ ∀ u ∈ us, ok (mem u.1 + u.2) :=
      forall₂_congr fun u hu => by rw [hsame u hu]
    rw [List.foldlM_cons]
    unfold addWithin at ih ⊢
    simp only [List.forall_mem_cons, List.foldl_cons]
    by_cases hok : ok (mem v.1 + v.2)
    · rw [if_pos hok]
      show us.foldlM _ (addTo mem v) = _
      rw [ih hnodup.2]
      simp only [hrest, hok, true_and]
    · rw [if_neg hok, if_neg fun h => hok h.1]
      rfl

end Accumulation
