import Mathlib.Algebra.Order.BigOperators.Group.List
import Mathlib.Algebra.Order.Ring.Nat
import Mathlib.Data.List.Forall2

/-!
# Run lengths

A list as runs of a value and a count.  `runsFrom` takes the elements greedily: an element that is near the value of
the open run makes it longer, any other element opens the next run.  The runs expand to as many elements, each near to
the one in its place (`expand_runsFrom`).
-/

namespace RunLength

structure Run (α : Type*) where
  value : α
  count : Nat
deriving DecidableEq, Repr

variable {α : Type*}

/-- The elements of the runs. -/
def expand (runs : List (Run α)) : List α := runs.flatMap fun run => List.replicate run.count run.value

/-- No run is empty, and together they have `n` elements. -/
def Fills (n : Nat) (runs : List (Run α)) : Prop := (∀ run ∈ runs, 0 < run.count) ∧ (runs.map Run.count).sum = n

instance (n : Nat) (runs : List (Run α)) : Decidable (Fills n runs) := instDecidableAnd

/-- The runs from an open one of the value `v` and the count `c`. -/
def runsFrom (near : α → α → Bool) (v : α) (c : Nat) : List α → List (Run α)
  | [] => [⟨v, c⟩]
  | x :: xs => if near x v then runsFrom near v (c + 1) xs else ⟨v, c⟩ :: runsFrom near x 1 xs

@[simp] theorem expand_nil : expand ([] : List (Run α)) = [] := rfl

@[simp] theorem expand_cons (run : Run α) (runs : List (Run α)) :
    expand (run :: runs) = List.replicate run.count run.value ++ expand runs := rfl

theorem length_expand (runs : List (Run α)) : (expand runs).length = (runs.map Run.count).sum := by
  induction runs with
  | nil => rfl
  | cons run runs ih => simp [ih]

theorem Fills.count_le {n : Nat} {runs : List (Run α)} (h : Fills n runs) {run : Run α} (hrun : run ∈ runs) :
    run.count ≤ n := by
  rw [← h.2]
  exact List.le_sum_of_mem (List.mem_map_of_mem hrun)

theorem Fills.length_le {n : Nat} {runs : List (Run α)} (h : Fills n runs) : runs.length ≤ n := by
  obtain ⟨hpos, rfl⟩ := h
  induction runs with
  | nil => exact Nat.le_refl 0
  | cons run runs ih =>
    have hrun := hpos run List.mem_cons_self
    have hrest := ih fun r hr => hpos r (List.mem_cons_of_mem _ hr)
    rw [List.map_cons, List.sum_cons, List.length_cons]
    omega

theorem Fills.eq_zero_iff {n : Nat} {runs : List (Run α)} (h : Fills n runs) : runs.length = 0 ↔ n = 0 := by
  constructor
  · intro hnil
    rw [← h.2, List.length_eq_zero_iff.1 hnil]
    rfl
  · intro hn
    have hlen := h.length_le
    omega

variable (near : α → α → Bool)

/-- The number of runs does not depend on the count of the open one. -/
theorem runsFrom_length_count (v : α) (c d : Nat) (xs : List α) :
    (runsFrom near v c xs).length = (runsFrom near v d xs).length := by
  induction xs generalizing v c d with
  | nil => rfl
  | cons x xs ih =>
    unfold runsFrom
    split
    · exact ih v (c + 1) (d + 1)
    · rfl

theorem fills_runsFrom (v : α) {c : Nat} (hc : 0 < c) (xs : List α) :
    Fills (c + xs.length) (runsFrom near v c xs) := by
  induction xs generalizing v c with
  | nil => exact ⟨by simpa [runsFrom] using hc, by simp [runsFrom]⟩
  | cons x xs ih =>
    unfold runsFrom
    rw [List.length_cons]
    split
    · have h := ih v (Nat.succ_pos c)
      rwa [show c.succ + xs.length = c + (xs.length + 1) by omega] at h
    · obtain ⟨hpos, hsum⟩ := ih x Nat.one_pos
      refine ⟨?_, ?_⟩
      · intro run hrun
        rcases List.mem_cons.1 hrun with rfl | hrun
        · exact hc
        · exact hpos run hrun
      · rw [List.map_cons, List.sum_cons, hsum]
        simp only
        omega

variable {near}

/-- The elements of the open run are copies of its value. -/
theorem expand_runsFrom_open (hrefl : ∀ a, near a a) (v : α) (c : Nat) (xs : List α) :
    ∃ tail, expand (runsFrom near v c xs) = List.replicate c v ++ tail ∧
      List.Forall₂ (fun x y => near x y) xs tail := by
  induction xs generalizing v c with
  | nil => exact ⟨[], by simp [runsFrom], List.Forall₂.nil⟩
  | cons x xs ih =>
    unfold runsFrom
    split
    · rename_i hx
      obtain ⟨tail, htail, hnear⟩ := ih v (c + 1)
      refine ⟨v :: tail, ?_, List.Forall₂.cons hx hnear⟩
      rw [htail, List.replicate_succ', List.append_assoc, List.singleton_append]
    · obtain ⟨tail, htail, hnear⟩ := ih x 1
      refine ⟨x :: tail, ?_, List.Forall₂.cons (hrefl x) hnear⟩
      rw [expand_cons, htail]
      rfl

/-- An element comes back as the value of its run. -/
theorem expand_runsFrom (hrefl : ∀ a, near a a) (v : α) (xs : List α) :
    List.Forall₂ (fun x y => near x y) (v :: xs) (expand (runsFrom near v 1 xs)) := by
  obtain ⟨tail, htail, hnear⟩ := expand_runsFrom_open hrefl v 1 xs
  rw [htail]
  exact List.Forall₂.cons (hrefl v) hnear

end RunLength
