import Mathlib.Data.List.Nodup
import Mathlib.Data.List.Perm.Subperm
import Mathlib.Data.List.GetD
import Mathlib.Data.Nat.Find

/-!
# Emitting the elements of a dependence relation

A scheduler emits elements one by one and emits an element only when all it needs has been emitted.  `Closed needs
order` says that an emitted list obeys the relation `needs`; `Closed.snoc` is one emission.  `pending` counts what
an element still waits for, and `exists_next` says that a list that is not complete can always be continued.
-/

namespace Emission

variable {α : Type}

/-- `a` stands before `b`. -/
def Precedes (order : List α) (a b : α) : Prop := [a, b].Sublist order

theorem Precedes.append {order : List α} {a b : α} (h : Precedes order a b) (rest : List α) :
    Precedes (order ++ rest) a b :=
  h.trans (List.sublist_append_left order rest)

theorem precedes_snoc {order : List α} {a : α} (h : a ∈ order) (b : α) : Precedes (order ++ [b]) a b :=
  (List.singleton_sublist.2 h).append (List.Sublist.refl [b])

theorem Precedes.mem_left {order : List α} {a b : α} (h : Precedes order a b) : a ∈ order :=
  h.subset (List.mem_cons_self ..)

/-- In a list without repetitions nothing both precedes and follows another element. -/
theorem Precedes.asymm {order : List α} {a b : α} (hn : order.Nodup) (h : Precedes order a b) : ¬ Precedes order b a := by
  intro h'
  induction order with
  | nil => cases h
  | cons c order ih =>
    rw [List.nodup_cons] at hn
    unfold Precedes at h h' ih
    rw [List.cons_sublist_cons'] at h h'
    rcases h with h | ⟨rfl, h⟩
    · rcases h' with h' | ⟨rfl, h'⟩
      · exact ih hn.2 h h'
      · exact hn.1 (h.subset (by simp))
    · rcases h' with h' | ⟨rfl, h'⟩
      · exact hn.1 (h'.subset (by simp))
      · exact hn.1 (h.subset (by simp))

theorem Precedes.trans {order : List α} {a b c : α} (hn : order.Nodup) (h : Precedes order a b)
    (h' : Precedes order b c) : Precedes order a c := by
  induction order with
  | nil => cases h
  | cons d order ih =>
    rw [List.nodup_cons] at hn
    unfold Precedes at h h' ih ⊢
    rw [List.cons_sublist_cons'] at h h' ⊢
    rcases h with h | ⟨rfl, h⟩
    · rcases h' with h' | ⟨rfl, h'⟩
      · exact Or.inl (ih hn.2 h h')
      · exact absurd (h.subset (by simp)) hn.1
    · rcases h' with h' | ⟨rfl, h'⟩
      · exact Or.inr ⟨rfl, List.singleton_sublist.2 (h'.subset (by simp))⟩
      · exact absurd (h.subset (by simp)) hn.1

theorem precedes_of_mem {past : List α} {a : α} (h : a ∈ past) (b : α) (rest : List α) :
    Precedes (past ++ b :: rest) a b :=
  (List.singleton_sublist.2 h).append (List.singleton_sublist.2 (List.mem_cons_self ..))

/-- What precedes an element of a list without repetitions is before it. -/
theorem Precedes.mem_past {past rest : List α} {a b : α} (hn : (past ++ b :: rest).Nodup)
    (h : Precedes (past ++ b :: rest) a b) : a ∈ past := by
  by_contra hout
  rcases List.mem_append.1 h.mem_left with hmem | hmem
  · exact hout hmem
  · rcases List.mem_cons.1 hmem with rfl | hmem
    · exact h.asymm hn h
    · refine h.asymm hn ((List.Sublist.cons_cons b (List.singleton_sublist.2 hmem)).trans ?_)
      exact List.sublist_append_right past (b :: rest)

/-- Every element of the list comes after all it needs. -/
def Closed (needs : α → α → Prop) (order : List α) : Prop := ∀ b ∈ order, ∀ a, needs a b → Precedes order a b

theorem closed_nil (needs : α → α → Prop) : Closed needs [] := fun _ h => absurd h List.not_mem_nil

theorem Closed.snoc {needs : α → α → Prop} {order : List α} (h : Closed needs order) {b : α}
    (hb : ∀ a, needs a b → a ∈ order) : Closed needs (order ++ [b]) := by
  intro c hc a ha
  rcases List.mem_append.1 hc with hc | hc
  · exact (h c hc a ha).append [b]
  · rw [List.mem_singleton] at hc
    subst hc
    exact precedes_snoc (hb a ha) c

section Pending

variable [DecidableEq α]

/-- How many elements of `xs` are not in the list yet. -/
def pending (order xs : List α) : Nat := (xs.filter (· ∉ order)).length

theorem pending_eq_zero {order xs : List α} : pending order xs = 0 ↔ ∀ a ∈ xs, a ∈ order := by
  unfold pending
  rw [List.length_eq_zero_iff, List.filter_eq_nil_iff]
  simp

theorem pending_nil (xs : List α) : pending [] xs = xs.length := by
  unfold pending
  rw [List.filter_eq_self.2 (by simp)]

private theorem filter_snoc (order xs : List α) (b : α) :
    xs.filter (· ∉ order ++ [b]) = (xs.filter (· ∉ order)).filter (· ≠ b) := by
  rw [List.filter_filter]
  apply List.filter_congr
  intro a _
  by_cases ha : a ∈ order <;> by_cases hb : a = b <;> simp [ha, hb]

theorem pending_snoc_of_mem {order xs : List α} {b : α} (hn : xs.Nodup) (hb : b ∉ order) (hm : b ∈ xs) :
    pending (order ++ [b]) xs = pending order xs - 1 := by
  unfold pending
  rw [filter_snoc, ← List.length_erase_of_mem (List.mem_filter.2 ⟨hm, by simp [hb]⟩), (hn.filter _).erase_eq_filter]
  congr 2
  funext a
  by_cases h : a = b <;> simp [h]

theorem pending_snoc_of_not_mem {order xs : List α} {b : α} (hm : b ∉ xs) :
    pending (order ++ [b]) xs = pending order xs := by
  unfold pending
  rw [filter_snoc, List.filter_eq_self.2]
  intro a ha
  have hne : a ≠ b := fun h => hm (h ▸ (List.mem_filter.1 ha).1)
  simp [hne]

theorem pending_pos {order xs : List α} {b : α} (hb : b ∉ order) (hm : b ∈ xs) : 0 < pending order xs := by
  rcases Nat.eq_zero_or_pos (pending order xs) with h | h
  · exact absurd (pending_eq_zero.1 h b hm) hb
  · exact h

end Pending

/-- If everything needed is smaller, the least element outside the list needs nothing outside it. -/
theorem exists_next {needs : Nat → Nat → Prop} (hlt : ∀ a b, needs a b → a < b) {order : List Nat} {n : Nat}
    (h : ∃ k, k < n ∧ k ∉ order) : ∃ k, k < n ∧ k ∉ order ∧ ∀ a, needs a k → a ∈ order := by
  have hspec := Nat.find_spec h
  refine ⟨Nat.find h, hspec.1, hspec.2, fun a ha => ?_⟩
  by_contra hmem
  have hle := Nat.find_min' h ⟨Nat.lt_trans (hlt a _ ha) hspec.1, hmem⟩
  exact absurd (hlt a _ ha) (Nat.not_lt.2 hle)

/-- A list of fewer than `n` elements misses one below `n`. -/
theorem exists_not_mem {order : List Nat} {n : Nat} (h : order.length < n) : ∃ k, k < n ∧ k ∉ order := by
  by_contra hall
  push Not at hall
  have hsub : List.range n ⊆ order := fun k hk => hall k (List.mem_range.1 hk)
  have hle := (List.nodup_range.subperm hsub).length_le
  rw [List.length_range] at hle
  omega

/-- A list of `n` elements below `n` without repetitions is a permutation of them. -/
theorem perm_range {order : List Nat} {n : Nat} (hn : order.Nodup) (hlt : ∀ k ∈ order, k < n) (h : order.length = n) :
    order.Perm (List.range n) := by
  have hsub : order ⊆ List.range n := fun k hk => List.mem_range.2 (hlt k hk)
  exact (hn.subperm hsub).perm_of_length_le (by rw [List.length_range, h])

/-- Remove the entry at `i` and move the last entry to its place. -/
def swapRemove (xs : List α) (i : Nat) : List α :=
  match xs.getLast? with
  | some x => (xs.set i x).dropLast
  | none => xs

theorem swapRemove_perm {xs : List α} {i : Nat} (hi : i < xs.length) (d : α) :
    (xs.getD i d :: swapRemove xs i).Perm xs := by
  rw [List.getD_eq_getElem _ _ hi]
  rcases List.eq_nil_or_concat xs with rfl | ⟨ys, y, rfl⟩
  · cases hi
  · simp only [List.concat_eq_append] at hi ⊢
    have hremove : swapRemove (ys ++ [y]) i = ((ys ++ [y]).set i y).dropLast := by
      unfold swapRemove
      rw [List.getLast?_concat]
    rw [hremove]
    by_cases hlast : i < ys.length
    · have hset : ((ys ++ [y]).set i y).dropLast = ys.set i y := by
        rw [List.set_append_left _ _ hlast, List.dropLast_concat]
      rw [hset, List.getElem_append_left hlast]
      calc (ys[i] :: ys.set i y).Perm (ys[i] :: y :: ys.eraseIdx i) :=
            (List.set_perm_cons_eraseIdx hlast y).cons _
        _ |>.Perm (y :: ys[i] :: ys.eraseIdx i) := List.Perm.swap _ _ _
        _ |>.Perm (y :: ys) := (List.getElem_cons_eraseIdx_perm hlast).cons _
        _ |>.Perm (ys ++ [y]) := (List.perm_append_singleton y ys).symm
    · have hi : i = ys.length := by
        rw [List.length_append, List.length_singleton] at hi
        omega
      subst hi
      have hset : ((ys ++ [y]).set ys.length y).dropLast = ys := by
        rw [List.set_append_right _ _ (Nat.le_refl _), Nat.sub_self]
        exact List.dropLast_concat
      have hget : (ys ++ [y])[ys.length] = y := List.getElem_concat_length rfl _
      rw [hset, hget]
      exact (List.perm_append_singleton y ys).symm

end Emission
