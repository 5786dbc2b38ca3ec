import Mathlib.Data.List.Basic
import Mathlib.Order.Basic
import Mathlib.Algebra.Order.Group.Nat

/-!
# Routes and distances

A route is a list of links, each from where the last one ended; a distance is the length of a shortest route.  A number
for every place that a link lowers by at most one bounds the length of a route from below (`Route.le_length`), so a route
as long as such a number says is shortest (`isDistance_of_potential`), and a shortest route goes over no link twice
(`Route.nodup_of_shortest`).
-/

namespace Routes

variable {V : Type} {R : V → V → Prop}

/-- The links lead from `a` to `b`. -/
inductive Route (R : V → V → Prop) : V → List (V × V) → V → Prop
  | nil (a : V) : Route R a [] a
  | cons {a b c : V} {l : List (V × V)} (h : R a b) (hl : Route R b l c) : Route R a ((a, b) :: l) c

theorem Route.append {a b c : V} {l l' : List (V × V)} (h : Route R a l b) (h' : Route R b l' c) :
    Route R a (l ++ l') c := by
  induction h with
  | nil => exact h'
  | cons hR _ ih => exact .cons hR (ih h')

/-- The length of a shortest route from `a` to `b`. -/
def IsDistance (R : V → V → Prop) (a b : V) (k : Nat) : Prop :=
  (∃ l, Route R a l b ∧ l.length = k) ∧ ∀ l, Route R a l b → k ≤ l.length

theorem Route.le_length {f : V → Nat} (hf : ∀ a b, R a b → f a ≤ f b + 1) {a b : V} {l : List (V × V)}
    (h : Route R a l b) : f a ≤ f b + l.length := by
  induction h with
  | nil => exact Nat.le_refl _
  | cons hR _ ih =>
    have hstep := hf _ _ hR
    rw [List.length_cons]
    omega

theorem isDistance_of_potential {f : V → Nat} (hf : ∀ a b, R a b → f a ≤ f b + 1) {a b : V} (hb : f b = 0)
    {l : List (V × V)} (h : Route R a l b) (hl : l.length = f a) : IsDistance R a b (f a) := by
  refine ⟨⟨l, h, hl⟩, ?_⟩
  intro l' h'
  have hle := h'.le_length hf
  omega

/-- From a place on a route the rest of it leads to the end. -/
theorem Route.exists_rest {a b x y : V} {l : List (V × V)} (h : Route R a l b) (hmem : (x, y) ∈ l) :
    ∃ l', Route R x l' b ∧ l'.length ≤ l.length := by
  induction h with
  | nil => exact absurd hmem List.not_mem_nil
  | cons hR hl ih =>
    rcases List.mem_cons.1 hmem with heq | hmem
    · obtain ⟨rfl, rfl⟩ := Prod.mk.inj heq
      exact ⟨_, .cons hR hl, Nat.le_refl _⟩
    · obtain ⟨l', hl', hle⟩ := ih hmem
      exact ⟨l', hl', Nat.le_succ_of_le hle⟩

theorem Route.rel {a b x y : V} {l : List (V × V)} (h : Route R a l b) (hmem : (x, y) ∈ l) : R x y := by
  induction h with
  | nil => exact absurd hmem List.not_mem_nil
  | cons hR _ ih =>
    rcases List.mem_cons.1 hmem with heq | hmem
    · obtain ⟨rfl, rfl⟩ := Prod.mk.inj heq
      exact hR
    · exact ih hmem

/-- A shortest route goes over no link twice. -/
theorem Route.nodup_of_shortest {a b : V} {l : List (V × V)} (h : Route R a l b)
    (hmin : ∀ l', Route R a l' b → l.length ≤ l'.length) : l.Nodup := by
  induction h with
  | nil => exact List.nodup_nil
  | cons hR hl ih =>
    refine List.nodup_cons.2 ⟨fun hmem => ?_, ih fun l' hl' => ?_⟩
    · obtain ⟨l', hl', hle⟩ := hl.exists_rest hmem
      have hlonger := hmin l' hl'
      rw [List.length_cons] at hlonger
      omega
    · exact Nat.le_of_succ_le_succ (hmin _ (.cons hR hl'))

/-- Without links every place is alone. -/
theorem Route.eq_of_forall_not (hR : ∀ a b, ¬ R a b) {a b : V} {l : List (V × V)} (h : Route R a l b) : a = b := by
  cases h with
  | nil => rfl
  | cons h _ => exact absurd h (hR _ _)

end Routes
