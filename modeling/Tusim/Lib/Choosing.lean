import Mathlib.Data.Fin.SuccPred
import Mathlib.Data.List.FinRange
import Mathlib.Logic.Equiv.Basic

/-!
# Choosing by comparison

Two loops that compare keys: a sort by exchanges and a scan for the best element.
-/

/-!
### Exchange sort of an index array

The sort that, for each position `i` and each later position `j`, exchanges the entries at `i` and `j` if their keys are
out of order.  The array is a permutation of the positions, so it stays one by its type.  The keys only have a total
preorder: entries with equal keys stay in the order in which the exchanges leave them.  Key fact: `exchangeSort_sorted`.
-/

namespace ExchangeSort

variable {β : Type*} [LT β] [DecidableLT β] {n : Nat}

/-- `if (key[σ[i]] > key[σ[j]])` exchange the entries at `i` and `j`. -/
def exchange (key : Fin n → β) (i : Fin n) (σ : Equiv.Perm (Fin n)) (j : Fin n) : Equiv.Perm (Fin n) :=
  if key (σ j) < key (σ i) then (Equiv.swap i j).trans σ else σ

/-- The inner loop, over the positions after `i`. -/
def pass (key : Fin n → β) (σ : Equiv.Perm (Fin n)) (i : Fin n) : Equiv.Perm (Fin n) :=
  ((List.finRange n).filter (i < ·)).foldl (exchange key i) σ

def exchangeSort (key : Fin n → β) : Equiv.Perm (Fin n) := (List.finRange n).foldl (pass key) (Equiv.refl _)

end ExchangeSort

namespace ExchangeSort

variable {β : Type*} [Preorder β] [DecidableLT β] {n : Nat} {key : Fin n → β}

/-- The entries at the positions in `done` are in their final places. -/
def Placed (key : Fin n → β) (done : Fin n → Prop) (σ : Equiv.Perm (Fin n)) : Prop :=
  ∀ a b, done a → a < b → key (σ a) ≤ key (σ b)

section

variable [Std.Total (α := β) (· ≤ ·)]

theorem exchange_le (i j : Fin n) (σ : Equiv.Perm (Fin n)) :
    key (exchange key i σ j i) ≤ key (exchange key i σ j j) := by
  unfold exchange
  split
  · rename_i h
    simpa using h.le
  · rename_i h
    rcases Std.Total.total (r := (· ≤ ·)) (key (σ i)) (key (σ j)) with hle | hle
    · exact hle
    · by_contra hnot
      exact h (lt_of_le_not_ge hle hnot)

end

/-- An exchange does not make the entry at `i` larger. -/
theorem exchange_self_le (i j : Fin n) (σ : Equiv.Perm (Fin n)) : key (exchange key i σ j i) ≤ key (σ i) := by
  unfold exchange
  split
  · rename_i h
    simpa using h.le
  · exact le_refl _

theorem exchange_of_ne {i j k : Fin n} (hi : k ≠ i) (hj : k ≠ j) (σ : Equiv.Perm (Fin n)) :
    exchange key i σ j k = σ k := by
  unfold exchange
  split
  · rw [Equiv.trans_apply, Equiv.swap_apply_of_ne_of_ne hi hj]
  · rfl

/-- Exchanging later entries does not disturb the entries already placed. -/
theorem Placed.exchange {done : Fin n → Prop} {σ : Equiv.Perm (Fin n)} {i j : Fin n} (h : Placed key done σ)
    (hi : ∀ a, done a → a < i) (hij : i < j) : Placed key done (exchange key i σ j) := by
  intro a b ha hab
  have hai := hi a ha
  rw [exchange_of_ne hai.ne (hai.trans hij).ne]
  by_cases hbi : b = i
  · subst hbi
    unfold ExchangeSort.exchange
    split
    · rw [Equiv.trans_apply, Equiv.swap_apply_left]
      exact h a j ha (hai.trans hij)
    · exact h a b ha hab
  · by_cases hbj : b = j
    · subst hbj
      unfold ExchangeSort.exchange
      split
      · rw [Equiv.trans_apply, Equiv.swap_apply_right]
        exact h a i ha hai
      · exact h a b ha hab
    · rw [exchange_of_ne hbi hbj]
      exact h a b ha hab

variable [Std.Total (α := β) (· ≤ ·)]

/-- A pass puts an entry with the least key of the rest at its position. -/
theorem pass_spec (i : Fin n) (js : List (Fin n)) (hjs : ∀ j ∈ js, i < j) {done : Fin n → Prop}
    (hdone : ∀ a, done a → a < i) (σ : Equiv.Perm (Fin n)) (h : Placed key done σ) :
    Placed key done (js.foldl (exchange key i) σ) ∧
      key (js.foldl (exchange key i) σ i) ≤ key (σ i) ∧
      (∀ j, i < j → j ∉ js → js.foldl (exchange key i) σ j = σ j) ∧
      (js.Nodup → ∀ j ∈ js, key (js.foldl (exchange key i) σ i) ≤ key (js.foldl (exchange key i) σ j)) := by
  induction js generalizing σ with
  | nil => exact ⟨h, le_refl _, fun _ _ _ => rfl, fun _ j hj => absurd hj List.not_mem_nil⟩
  | cons j js ih =>
    have hij := hjs j List.mem_cons_self
    have hplaced := h.exchange hdone hij
    obtain ⟨hrest, hle, hkeep, hleast⟩ := ih (fun k hk => hjs k (List.mem_cons_of_mem _ hk)) _ hplaced
    rw [List.foldl_cons]
    refine ⟨hrest, hle.trans (exchange_self_le i j σ), ?_, ?_⟩
    · intro k hik hk
      rw [List.mem_cons, not_or] at hk
      rw [hkeep k hik hk.2, exchange_of_ne hik.ne' hk.1]
    · intro hnodup k hk
      rw [List.nodup_cons] at hnodup
      rcases List.mem_cons.1 hk with rfl | hk
      · rw [hkeep k hij hnodup.1]
        exact hle.trans (exchange_le i k σ)
      · exact hleast hnodup.2 k hk

theorem pass_placed {σ : Equiv.Perm (Fin n)} {i : Fin n} (h : Placed key (· < i) σ) :
    Placed key (· ≤ i) (pass key σ i) := by
  have hlater : ∀ j, j ∈ (List.finRange n).filter (i < ·) ↔ i < j := by simp
  obtain ⟨hrest, -, -, hleast⟩ := pass_spec i ((List.finRange n).filter (i < ·)) (fun j hj => (hlater j).1 hj)
    (fun _ ha => ha) σ h
  intro a b ha hab
  rcases ha.lt_or_eq with hlt | rfl
  · exact hrest a b hlt hab
  · exact hleast ((List.nodup_finRange n).filter _) b ((hlater b).2 hab)

/-- The sort leaves the keys in ascending order. -/
theorem exchangeSort_sorted (key : Fin n → β) {a b : Fin n} (hab : a < b) :
    key (exchangeSort key a) ≤ key (exchangeSort key b) := by
  have hprefix : ∀ k ≤ n, Placed key (fun a => a.val < k) (((List.finRange n).take k).foldl (pass key) (Equiv.refl _)) := by
    intro k
    induction k with
    | zero => exact fun _ a b ha => absurd ha (Nat.not_lt_zero _)
    | succ k ih =>
      intro hk
      have hplaced : Placed key (· < (⟨k, hk⟩ : Fin n)) (((List.finRange n).take k).foldl (pass key) (Equiv.refl _)) := ih (by omega)
      rw [List.take_succ_eq_append_getElem (by rwa [List.length_finRange]), List.foldl_append, List.getElem_finRange]
      intro a b ha hab
      exact pass_placed hplaced a b (Nat.lt_succ_iff.1 ha) hab
  have hall := hprefix n (le_refl n)
  rw [List.take_of_length_le (by simp)] at hall
  exact hall a b a.isLt hab

end ExchangeSort

/-!
### The first best element

A scan that replaces its choice by every strictly better element ends with an element of the greatest value
(`le_scan`), and among those with the one that came first (`scan_first`).
-/

namespace FirstBest

variable {α : Type} (score : α → Nat)

/-- The choice after another element. -/
def better (best x : α) : α := if score x > score best then x else best

def scan (best : α) (xs : List α) : α := xs.foldl (better score) best

theorem le_better (best x : α) : score best ≤ score (better score best x) ∧ score x ≤ score (better score best x) := by
  unfold better
  split <;> omega

/-- Neither the start nor an element of the list is better. -/
theorem le_scan (best : α) (xs : List α) :
    score best ≤ score (scan score best xs) ∧ ∀ x ∈ xs, score x ≤ score (scan score best xs) := by
  induction xs generalizing best with
  | nil => exact ⟨Nat.le_refl _, nofun⟩
  | cons y xs ih =>
    obtain ⟨hstart, hrest⟩ := ih (better score best y)
    obtain ⟨hbest, hy⟩ := le_better score best y
    refine ⟨Nat.le_trans hbest hstart, fun x hx => ?_⟩
    rcases List.mem_cons.1 hx with rfl | hx
    · exact Nat.le_trans hy hstart
    · exact hrest x hx

variable {score}

theorem better_of_lt {best x : α} (h : score best < score x) : better score best x = x := if_pos h

theorem better_of_le {best x : α} (h : score x ≤ score best) : better score best x = best := if_neg (Nat.not_lt.2 h)

theorem scan_cons (best x : α) (xs : List α) : scan score best (x :: xs) = scan score (better score best x) xs := rfl

theorem scan_eq_or_mem (score : α → Nat) (best : α) (xs : List α) : scan score best xs = best ∨ scan score best xs ∈ xs := by
  induction xs generalizing best with
  | nil => exact .inl rfl
  | cons x xs ih =>
    rw [scan_cons]
    rcases ih (better score best x) with h | h
    · rw [h]
      unfold better
      split
      · exact .inr List.mem_cons_self
      · exact .inl rfl
    · exact .inr (List.mem_cons_of_mem x h)

/-- A choice that nothing is better than stays. -/
theorem scan_eq_self {best : α} {xs : List α} (h : ∀ x ∈ xs, score x ≤ score best) : scan score best xs = best := by
  induction xs with
  | nil => rfl
  | cons x xs ih =>
    rw [scan_cons, better_of_le (h x List.mem_cons_self)]
    exact ih fun y hy => h y (List.mem_cons_of_mem x hy)

/-- In a list ordered by `r`, the choice comes before every other element of its value. -/
theorem scan_first {r : α → α → Prop} (best : α) {xs : List α} (hr : xs.Pairwise r) {x : α} (hx : x ∈ xs)
    (hlt : score best < score x) (heq : score x = score (scan score best xs)) :
    scan score best xs = x ∨ r (scan score best xs) x := by
  induction xs generalizing best with
  | nil => exact absurd hx List.not_mem_nil
  | cons y xs ih =>
    rw [List.pairwise_cons] at hr
    rw [scan_cons] at heq ⊢
    have hle := (le_scan score (better score best y) xs).2
    by_cases hy : score y = score x
    · -- `y` is chosen here and stays
      have hbetter : better score best y = y := better_of_lt (by omega)
      have hself : scan score y xs = y := scan_eq_self fun z hz => by
        have := hle z hz
        omega
      rw [hbetter, hself]
      rcases List.mem_cons.1 hx with rfl | hx
      · exact .inl rfl
      · exact .inr (hr.1 x hx)
    · rcases List.mem_cons.1 hx with rfl | hx
      · exact absurd rfl hy
      · refine ih _ hr.2 hx ?_ heq
        have hmax := (le_scan score (better score best y) xs).1
        have hbest := (le_better score best y).2
        have hchoice : score (better score best y) = score y ∨ score (better score best y) = score best := by
          unfold better
          split
          · exact .inl rfl
          · exact .inr rfl
        omega

end FirstBest
