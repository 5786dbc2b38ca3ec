import Mathlib.Data.List.Nodup
import Mathlib.Data.List.Perm.Subperm
import Mathlib.Order.Basic
import Mathlib.Logic.Function.Basic

/-!
# Singly linked list segments

A linked structure is a function `next : ι → Option ι`.  `IsSeg next p l` says that following `next` from `p` visits
exactly the nodes of `l` and then stops.  `walk next n p` is the traversal loop, cut off after `n` nodes.

* the list of a segment is determined by its first node (`IsSeg.unique`) and is what `walk` returns when the bound is
  large enough (`IsSeg.walk_eq`);
* writing a node outside the segment does not change it (`IsSeg.update_of_notMem`), and writing a segment after the
  last node appends it (`IsSeg.link`);
* when every pointer leads to a larger node below a bound, every node starts a segment, and the bound is enough for
  `walk` (`Ascending.exists_isSeg`, `Ascending.walk_isSeg`).
-/

namespace Segment

variable {ι : Type}

/-- Following `next` from `p` visits the nodes of `l` in order and stops. -/
def IsSeg (next : ι → Option ι) : Option ι → List ι → Prop
  | p, [] => p = none
  | p, a :: l => p = some a ∧ IsSeg next (next a) l

/-- The nodes visited from `p`, at most `n` of them. -/
def walk (next : ι → Option ι) : Nat → Option ι → List ι
  | 0, _ => []
  | _ + 1, none => []
  | n + 1, some a => a :: walk next n (next a)

@[simp] theorem walk_none (next : ι → Option ι) (n : Nat) : walk next n none = [] := by
  cases n <;> rfl

@[simp] theorem isSeg_nil {next : ι → Option ι} {p : Option ι} : IsSeg next p [] ↔ p = none := Iff.rfl

@[simp] theorem isSeg_cons {next : ι → Option ι} {p : Option ι} {a : ι} {l : List ι} :
    IsSeg next p (a :: l) ↔ p = some a ∧ IsSeg next (next a) l := Iff.rfl

theorem isSeg_none {next : ι → Option ι} {l : List ι} : IsSeg next none l ↔ l = [] := by
  cases l <;> simp

theorem IsSeg.exists_cons {next : ι → Option ι} {a : ι} {l : List ι} (h : IsSeg next (some a) l) :
    ∃ m, l = a :: m ∧ IsSeg next (next a) m := by
  cases l with
  | nil => cases h
  | cons b m =>
    obtain ⟨hb, hm⟩ := h
    cases hb
    exact ⟨m, rfl, hm⟩

theorem IsSeg.unique {next : ι → Option ι} {p : Option ι} {l m : List ι} (h : IsSeg next p l)
    (h' : IsSeg next p m) : l = m := by
  induction l generalizing p m with
  | nil =>
    cases h
    exact (isSeg_none.1 h').symm
  | cons a l ih =>
    obtain ⟨rfl, hl⟩ := h
    obtain ⟨m, rfl, hm⟩ := h'.exists_cons
    rw [ih hl hm]

theorem IsSeg.walk_eq {next : ι → Option ι} {p : Option ι} {l : List ι} (h : IsSeg next p l) {n : Nat}
    (hn : l.length ≤ n) : walk next n p = l := by
  induction l generalizing p n with
  | nil => cases h; simp
  | cons a l ih =>
    obtain ⟨rfl, hl⟩ := h
    obtain ⟨k, rfl⟩ : ∃ k, n = k + 1 := ⟨n - 1, by simp at hn; omega⟩
    simp only [walk, ih hl (by simpa using hn)]

/-- A segment depends only on the pointers of its nodes. -/
theorem IsSeg.congr {next next' : ι → Option ι} {p : Option ι} {l : List ι} (h : IsSeg next p l)
    (hn : ∀ a ∈ l, next' a = next a) : IsSeg next' p l := by
  induction l generalizing p with
  | nil => exact h
  | cons a l ih =>
    obtain ⟨rfl, hl⟩ := h
    refine ⟨rfl, ?_⟩
    rw [hn a (by simp)]
    exact ih hl fun b hb => hn b (by simp [hb])

theorem IsSeg.update_of_notMem [DecidableEq ι] {next : ι → Option ι} {p : Option ι} {l : List ι}
    (h : IsSeg next p l) {t : ι} (ht : t ∉ l) (q : Option ι) : IsSeg (Function.update next t q) p l :=
  h.congr fun a ha => Function.update_of_ne (by rintro rfl; exact ht ha) _ _

/-- Writing the start of a segment `m` into the last node of a segment appends `m` to it. -/
theorem IsSeg.link [DecidableEq ι] {next : ι → Option ι} {p q : Option ι} {l m : List ι} {t : ι}
    (h : IsSeg next p (l ++ [t])) (hm : IsSeg next q m) (hl : (l ++ [t]).Nodup) (ht : t ∉ m) :
    IsSeg (Function.update next t q) p (l ++ [t] ++ m) := by
  induction l generalizing p with
  | nil =>
    obtain ⟨rfl, -⟩ := h
    exact ⟨rfl, by rw [Function.update_self]; exact hm.update_of_notMem ht q⟩
  | cons a l ih =>
    obtain ⟨rfl, hs⟩ := h
    have hat : a ≠ t := by
      rintro rfl
      simp at hl
    refine ⟨rfl, ?_⟩
    rw [Function.update_of_ne hat]
    exact ih hs (by simpa using (List.nodup_cons.1 hl).2)

/-- Every pointer leads to a larger node below `bound`. -/
def Ascending (next : Nat → Option Nat) (bound : Nat) : Prop :=
  ∀ a b, next a = some b → a < b ∧ b < bound

theorem Ascending.exists_isSeg {next : Nat → Option Nat} {bound : Nat} (h : Ascending next bound) {p : Option Nat}
    (hp : ∀ a, p = some a → a < bound) :
    ∃ l, IsSeg next p l ∧ l.Pairwise (· < ·) ∧ ∀ a ∈ l, a < bound := by
  -- the distance to the bound drops along every pointer
  have key : ∀ k a, a < bound → bound - a ≤ k →
      ∃ l, IsSeg next (some a) l ∧ l.Pairwise (· < ·) ∧ ∀ b ∈ l, a ≤ b ∧ b < bound := by
    intro k
    induction k with
    | zero => intro a ha hk; omega
    | succ k ih =>
      intro a ha hk
      cases hn : next a with
      | none => exact ⟨[a], ⟨rfl, hn⟩, by simp, by simpa using ha⟩
      | some b =>
        obtain ⟨hab, hb⟩ := h a b hn
        obtain ⟨l, hl, hs, hlt⟩ := ih b hb (by omega)
        refine ⟨a :: l, ⟨rfl, by rwa [hn]⟩, ?_, ?_⟩
        · rw [List.pairwise_cons]
          exact ⟨fun c hc => by have := (hlt c hc).1; omega, hs⟩
        · intro c hc
          rcases List.mem_cons.1 hc with rfl | hc
          · exact ⟨Nat.le_refl c, ha⟩
          · have := hlt c hc
            omega
  cases p with
  | none => exact ⟨[], rfl, List.Pairwise.nil, by simp⟩
  | some a =>
    obtain ⟨l, hl, hs, hlt⟩ := key (bound - a) a (hp a rfl) (Nat.le_refl _)
    exact ⟨l, hl, hs, fun b hb => (hlt b hb).2⟩

/-- A strictly increasing list of numbers below `bound` has at most `bound` entries. -/
theorem length_le_of_pairwise_lt {l : List Nat} {bound : Nat} (hs : l.Pairwise (· < ·))
    (hb : ∀ a ∈ l, a < bound) : l.length ≤ bound := by
  have hn : l.Nodup := hs.imp Nat.ne_of_lt
  have := (List.subperm_of_subset hn fun a ha => List.mem_range.2 (hb a ha)).length_le
  simpa using this

theorem Ascending.walk_isSeg {next : Nat → Option Nat} {bound : Nat} (h : Ascending next bound) {p : Option Nat}
    (hp : ∀ a, p = some a → a < bound) : IsSeg next p (walk next bound p) := by
  obtain ⟨l, hl, hs, hlt⟩ := h.exists_isSeg hp
  rwa [hl.walk_eq (length_le_of_pairwise_lt hs hlt)]

end Segment
