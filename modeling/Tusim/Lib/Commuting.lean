import Tusim.Lib.Emission
import Mathlib.Data.Set.Basic

/-!
# Steps that commute

Two steps commute if they may be taken in either order.  A list of steps may be rearranged as long as the steps that do
not commute keep their order (`foldl_eq_of_order`).  Steps on a memory commute if neither writes what the other reads or
writes: `Within act reads writes` says that a step stays within these places, and `Within.comm` is that argument.
-/

namespace Commuting

open Emission

section

variable {α σ : Type} {f : σ → α → σ}

/-- The steps `a` and `b` may be taken in either order. -/
def Swaps (f : σ → α → σ) (a b : α) : Prop := ∀ s, f (f s a) b = f (f s b) a

/-- A step goes before steps it commutes with. -/
theorem foldl_front {p : List α} {a : α} (h : ∀ x ∈ p, Swaps f a x) (s : σ) : f (p.foldl f s) a = p.foldl f (f s a) := by
  induction p generalizing s with
  | nil => rfl
  | cons x p ih =>
    have hx := h x (by simp)
    rw [List.foldl_cons, List.foldl_cons, ih (fun y hy => h y (by simp [hy])), hx]

theorem precedes_remove {p q : List α} {a b c : α} (h : Precedes (p ++ a :: q) b c) (hb : b ≠ a) (hc : c ≠ a) :
    Precedes (p ++ q) b c := by
  unfold Precedes at h ⊢
  rw [List.sublist_append_iff] at h ⊢
  obtain ⟨l₁, l₂, hl, h₁, h₂⟩ := h
  refine ⟨l₁, l₂, hl, h₁, ?_⟩
  rcases List.sublist_cons_iff.1 h₂ with h₂ | ⟨l, rfl, -⟩
  · exact h₂
  · have hmem : a ∈ [b, c] := by simp [hl]
    rcases List.mem_pair.1 hmem with rfl | rfl
    · exact absurd rfl hb
    · exact absurd rfl hc

/-- Of two elements of a list one stands before the other. -/
theorem precedes_or {l : List α} {a b : α} (ha : a ∈ l) (hb : b ∈ l) (hne : a ≠ b) : Precedes l a b ∨ Precedes l b a := by
  obtain ⟨p, q, rfl⟩ := List.append_of_mem ha
  rcases List.mem_append.1 hb with hb | hb
  · exact Or.inr (precedes_of_mem hb a q)
  · rcases List.mem_cons.1 hb with rfl | hb
    · exact absurd rfl hne
    · refine Or.inl (List.Sublist.trans ?_ (List.sublist_append_right p (a :: q)))
      exact (List.singleton_sublist.2 hb).cons_cons a

/-- Steps may be rearranged if those that do not commute keep their order. -/
theorem foldl_eq_of_order {l l' : List α} (hn : l.Nodup) (hperm : l'.Perm l)
    (h : ∀ a b, Precedes l a b → ¬ Swaps f a b → Precedes l' a b) (s : σ) : l'.foldl f s = l.foldl f s := by
  induction l generalizing l' s with
  | nil => rw [hperm.eq_nil]
  | cons a l ih =>
    obtain ⟨p, q, rfl⟩ := List.append_of_mem (hperm.mem_iff.2 List.mem_cons_self)
    have hn' := hperm.nodup_iff.2 hn
    have hrest : (p ++ q).Perm l := (List.perm_middle.symm.trans hperm).cons_inv
    rw [List.nodup_cons] at hn
    -- what was moved before `a` follows it in the list, so it commutes with `a`
    have hfront : ∀ x ∈ p, Swaps f a x := by
      intro x hx
      by_contra hswap
      have hxl : x ∈ l := hrest.mem_iff.1 (by simp [hx])
      have hafter := h a x ((List.singleton_sublist.2 hxl).cons_cons a) hswap
      exact hafter.asymm hn' (precedes_of_mem hx a q)
    rw [List.foldl_append, List.foldl_cons, foldl_front hfront, ← List.foldl_append, List.foldl_cons]
    refine ih hn.2 hrest ?_ (f s a)
    intro b c hbc hswap
    have hb : b ≠ a := ne_of_mem_of_not_mem hbc.mem_left hn.1
    have hc : c ≠ a := ne_of_mem_of_not_mem (hbc.subset (by simp)) hn.1
    exact precedes_remove (h b c (List.Sublist.trans hbc (List.sublist_cons_self a l)) hswap) hb hc

end

/-! ### Steps on a memory -/

section

variable {κ β : Type} {act act' : (κ → β) → κ → β} {reads writes reads' writes' : Set κ}

/-- The step changes places of `writes` only, and what it leaves there depends on the places of `reads` and `writes`
only. -/
structure Within (act : (κ → β) → κ → β) (reads writes : Set κ) : Prop where
  frame : ∀ m x, x ∉ writes → act m x = m x
  depends : ∀ m m', (∀ x, x ∈ reads ∨ x ∈ writes → m x = m' x) → ∀ x ∈ writes, act m x = act m' x

/-- Some place is written by one of two steps and read or written by the other. -/
def Conflict (reads writes reads' writes' : Set κ) : Prop :=
  ∃ x, (x ∈ writes ∧ x ∈ reads') ∨ (x ∈ reads ∧ x ∈ writes') ∨ (x ∈ writes ∧ x ∈ writes')

/-- A step that writes nothing another step uses does not change what that step leaves. -/
theorem Within.act_eq (h : Within act reads writes) (h' : Within act' reads' writes')
    (hconflict : ¬ Conflict reads writes reads' writes') (m : κ → β) {x : κ} (hx : x ∈ writes') :
    act' (act m) x = act' m x := by
  refine h'.depends _ _ (fun y hy => h.frame m y fun hyw => hconflict ⟨y, ?_⟩) x hx
  rcases hy with hy | hy
  · exact Or.inl ⟨hyw, hy⟩
  · exact Or.inr (Or.inr ⟨hyw, hy⟩)

theorem Conflict.symm (h : Conflict reads writes reads' writes') : Conflict reads' writes' reads writes := by
  obtain ⟨x, h | h | h⟩ := h
  · exact ⟨x, Or.inr (Or.inl h.symm)⟩
  · exact ⟨x, Or.inl h.symm⟩
  · exact ⟨x, Or.inr (Or.inr h.symm)⟩

/-- Steps without a conflict commute. -/
theorem Within.comm (h : Within act reads writes) (h' : Within act' reads' writes')
    (hconflict : ¬ Conflict reads writes reads' writes') (m : κ → β) : act' (act m) = act (act' m) := by
  funext x
  by_cases hx : x ∈ writes
  · have hx' : x ∉ writes' := fun hx' => hconflict ⟨x, Or.inr (Or.inr ⟨hx, hx'⟩)⟩
    rw [h'.frame _ x hx', h'.act_eq h (fun hc => hconflict hc.symm) m hx]
  · rw [h.frame _ x hx]
    by_cases hx' : x ∈ writes'
    · exact h.act_eq h' hconflict m hx'
    · rw [h'.frame _ x hx', h.frame m x hx, h'.frame m x hx']

/-- A step followed by another one stays within the places of both. -/
theorem Within.comp (h : Within act reads writes) (h' : Within act' reads' writes') :
    Within (fun m => act' (act m)) (reads ∪ reads') (writes ∪ writes') where
  frame m x hx := by
    rw [Set.mem_union, not_or] at hx
    rw [h'.frame _ x hx.2, h.frame m x hx.1]
  depends m m' hm x hx := by
    have hsame : ∀ y, (y ∈ reads ∪ reads' ∨ y ∈ writes ∪ writes') → act m y = act m' y := by
      intro y hy
      by_cases hyw : y ∈ writes
      · refine h.depends m m' (fun z hz => hm z ?_) y hyw
        rcases hz with hz | hz
        · exact Or.inl (Or.inl hz)
        · exact Or.inr (Or.inl hz)
      · rw [h.frame m y hyw, h.frame m' y hyw]
        exact hm y hy
    by_cases hx' : x ∈ writes'
    · refine h'.depends _ _ (fun z hz => hsame z ?_) x hx'
      rcases hz with hz | hz
      · exact Or.inl (Or.inr hz)
      · exact Or.inr (Or.inr hz)
    · show act' (act m) x = act' (act m') x
      rw [h'.frame _ x hx', h'.frame _ x hx']
      exact hsame x (Or.inr hx)

theorem Within.id : Within (fun m : κ → β => m) ∅ ∅ where
  frame _ _ _ := rfl
  depends _ _ _ _ hx := absurd hx (Set.notMem_empty _)

theorem Within.mono (h : Within act reads writes) (hreads : reads ⊆ reads') (hwrites : writes ⊆ writes') :
    Within act reads' writes' where
  frame m x hx := h.frame m x fun hw => hx (hwrites hw)
  depends m m' hm x hx := by
    by_cases hw : x ∈ writes
    · exact h.depends m m' (fun y hy => hm y (hy.imp (fun hy => hreads hy) (fun hy => hwrites hy))) x hw
    · rw [h.frame m x hw, h.frame m' x hw]
      exact hm x (Or.inr hx)

end

end Commuting
