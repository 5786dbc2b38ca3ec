import Mathlib.Data.List.Basic

/-!
# Runs of a state machine

A machine is a function `step : S → O → S`; a run feeds it a list of operations.  `Along guard step s ops` says that
every operation of the run is allowed by `guard` in the state it is applied to.  `Along.invariant` is the induction on
runs: what the initial state has and every allowed step keeps holds at the end of every allowed run.  Machines whose steps
also give an output are compared by a simulation (`outputs_eq_of_simulation`, `outputs_eq_iff_of_simulation`).
-/

namespace Run

variable {S O : Type}

/-- The state reached from `s` by the operations `ops`. -/
def exec (step : S → O → S) (s : S) (ops : List O) : S := ops.foldl step s

/-- Every operation of the run satisfies `guard` where it is applied. -/
def Along (guard : S → O → Prop) (step : S → O → S) : S → List O → Prop
  | _, [] => True
  | s, o :: ops => guard s o ∧ Along guard step (step s o) ops

instance Along.decidable {guard : S → O → Prop} {step : S → O → S} [∀ s o, Decidable (guard s o)] :
    (s : S) → (ops : List O) → Decidable (Along guard step s ops)
  | _, [] => inferInstanceAs (Decidable True)
  | s, o :: ops =>
    have : Decidable (Along guard step (step s o) ops) := Along.decidable (step s o) ops
    inferInstanceAs (Decidable (guard s o ∧ Along guard step (step s o) ops))

@[simp] theorem exec_nil (step : S → O → S) (s : S) : exec step s [] = s := rfl

@[simp] theorem exec_cons (step : S → O → S) (s : S) (o : O) (ops : List O) :
    exec step s (o :: ops) = exec step (step s o) ops := rfl

theorem exec_append (step : S → O → S) (s : S) (ops ops' : List O) :
    exec step s (ops ++ ops') = exec step (exec step s ops) ops' := List.foldl_append

theorem along_append {guard : S → O → Prop} {step : S → O → S} {s : S} {ops ops' : List O} :
    Along guard step s (ops ++ ops') ↔ Along guard step s ops ∧ Along guard step (exec step s ops) ops' := by
  induction ops generalizing s with
  | nil => exact ⟨fun h => ⟨trivial, h⟩, fun h => h.2⟩
  | cons o ops ih =>
    rw [List.cons_append, exec_cons]
    constructor
    · rintro ⟨ho, h⟩
      exact ⟨⟨ho, (ih.1 h).1⟩, (ih.1 h).2⟩
    · rintro ⟨⟨ho, h⟩, h'⟩
      exact ⟨ho, ih.2 ⟨h, h'⟩⟩

/-- A guard that the operations satisfy in every state. -/
theorem Along.of_forall {guard : S → O → Prop} {step : S → O → S} {ops : List O} (h : ∀ o ∈ ops, ∀ s, guard s o)
    (s : S) : Along guard step s ops := by
  induction ops generalizing s with
  | nil => trivial
  | cons o ops ih => exact ⟨h o List.mem_cons_self s, ih (fun o' ho' => h o' (List.mem_cons_of_mem o ho')) _⟩

/-- Guards that agree in every state agree along runs. -/
theorem along_congr {guard guard' : S → O → Prop} (step : S → O → S) (h : ∀ s o, guard s o ↔ guard' s o) (s : S)
    (ops : List O) : Along guard step s ops ↔ Along guard' step s ops := by
  induction ops generalizing s with
  | nil => exact Iff.rfl
  | cons o ops ih => exact and_congr (h s o) (ih (step s o))

/-- Two guards hold along a run together. -/
theorem Along.and {guard guard' : S → O → Prop} {step : S → O → S} {s : S} {ops : List O}
    (h : Along guard step s ops) (h' : Along guard' step s ops) :
    Along (fun s o => guard s o ∧ guard' s o) step s ops := by
  induction ops generalizing s with
  | nil => trivial
  | cons o ops ih => exact ⟨⟨h.1, h'.1⟩, ih h.2 h'.2⟩

theorem Along.invariant {guard : S → O → Prop} {step : S → O → S} {P : S → Prop}
    (hstep : ∀ s o, P s → guard s o → P (step s o)) {s : S} {ops : List O} (h : Along guard step s ops)
    (hs : P s) : P (exec step s ops) := by
  induction ops generalizing s with
  | nil => exact hs
  | cons o ops ih => exact ih h.2 (hstep s o hs h.1)

/-- What an invariant gives for every operation holds along every run. -/
theorem Along.of_invariant {guard : S → O → Prop} {step : S → O → S} {I : S → Prop} (hstep : ∀ s o, I s → I (step s o))
    (hguard : ∀ s o, I s → guard s o) {s : S} (hs : I s) (ops : List O) : Along guard step s ops := by
  induction ops generalizing s with
  | nil => trivial
  | cons o ops ih => exact ⟨hguard s o hs, ih (hstep s o hs)⟩

/-- Guards that agree wherever the invariant of the allowed steps holds agree along every allowed run. -/
theorem Along.iff_of_invariant {guard P Q : S → O → Prop} {step : S → O → S} {I : S → Prop}
    (hstep : ∀ s o, I s → guard s o → I (step s o)) (hiff : ∀ s o, I s → guard s o → (P s o ↔ Q s o)) {s : S} (hs : I s)
    {ops : List O} (h : Along guard step s ops) : Along P step s ops ↔ Along Q step s ops := by
  induction ops generalizing s with
  | nil => exact Iff.rfl
  | cons o ops ih => exact and_congr (hiff s o hs h.1) (ih (hstep s o hs h.1) h.2)

/-- The induction on runs when every step is allowed. -/
theorem invariant {step : S → O → S} {P : S → Prop} (hstep : ∀ s o, P s → P (step s o)) {s : S}
    (hs : P s) (ops : List O) : P (exec step s ops) := by
  induction ops generalizing s with
  | nil => exact hs
  | cons o ops ih => exact ih (hstep s o hs)

/-- The guard is exact for a property of the states: allowed steps keep it and every other step breaks it. -/
theorem forall_take_iff_along {guard : S → O → Prop} {step : S → O → S} {I P : S → Prop} (hI : ∀ s, I s → P s)
    (hgood : ∀ s o, I s → guard s o → I (step s o)) (hbad : ∀ s o, I s → ¬ guard s o → ¬ P (step s o)) {s : S}
    (hs : I s) (ops : List O) : (∀ k, P (exec step s (ops.take k))) ↔ Along guard step s ops := by
  induction ops generalizing s with
  | nil =>
    constructor
    · exact fun _ => trivial
    · intro _ k
      rw [List.take_nil]
      exact hI s hs
  | cons o ops ih =>
    constructor
    · intro h
      have ho : guard s o := Classical.byContradiction fun hno => hbad s o hs hno (h 1)
      exact ⟨ho, (ih (hgood s o hs ho)).1 fun k => h (k + 1)⟩
    · rintro ⟨ho, hrest⟩ k
      cases k with
      | zero => exact hI s hs
      | succ k => exact (ih (hgood s o hs ho)).2 hrest k

/-! ### Outputs -/

variable {T Out : Type}

/-- The outputs of a run. -/
def outputs (step : S → O → S × Out) : S → List O → List Out
  | _, [] => []
  | s, o :: ops => (step s o).2 :: outputs step (step s o).1 ops

/-- A machine that simulates another gives the same outputs. -/
theorem outputs_eq_of_simulation {step : S → O → S × Out} {step' : T → O → T × Out} {R : S → T → Prop}
    (h : ∀ s t o, R s t → (step s o).2 = (step' t o).2 ∧ R (step s o).1 (step' t o).1) {s : S} {t : T} (hst : R s t)
    (ops : List O) : outputs step s ops = outputs step' t ops := by
  induction ops generalizing s t with
  | nil => rfl
  | cons o ops ih =>
    obtain ⟨hout, hnext⟩ := h s t o hst
    unfold outputs
    rw [hout, ih hnext]

/-- Two machines stay in a simulation under the operations in `Q`, and every other operation tells them apart: their
outputs agree exactly on the runs of operations in `Q`. -/
theorem outputs_eq_iff_of_simulation {step : S → O → S × Out} {step' : T → O → T × Out} {R : S → T → Prop}
    {Q : O → Prop} (hgood : ∀ s t o, R s t → Q o → (step s o).2 = (step' t o).2 ∧ R (step s o).1 (step' t o).1)
    (hbad : ∀ s t o, R s t → ¬ Q o → (step s o).2 ≠ (step' t o).2) {s : S} {t : T} (hst : R s t) (ops : List O) :
    outputs step s ops = outputs step' t ops ↔ ∀ o ∈ ops, Q o := by
  induction ops generalizing s t with
  | nil => exact ⟨fun _ o ho => absurd ho List.not_mem_nil, fun _ => rfl⟩
  | cons o ops ih =>
    unfold outputs
    rw [List.cons.injEq, List.forall_mem_cons]
    constructor
    · rintro ⟨hout, hrest⟩
      have ho : Q o := Classical.byContradiction fun hno => hbad s t o hst hno hout
      exact ⟨ho, (ih (hgood s t o hst ho).2).1 hrest⟩
    · rintro ⟨ho, hrest⟩
      obtain ⟨hout, hnext⟩ := hgood s t o hst ho
      exact ⟨hout, (ih hnext).2 hrest⟩

/-- The outputs of a run of translated operations. -/
theorem outputs_map {P : Type} (step : S → O → S × Out) (f : P → O) (s : S) (ops : List P) :
    outputs step s (ops.map f) = outputs (fun s o => step s (f o)) s ops := by
  induction ops generalizing s with
  | nil => rfl
  | cons o ops ih =>
    rw [List.map_cons]
    unfold outputs
    rw [ih]

end Run

/-!
### Histories

A history is the list of the events of a run, the latest at the end.  `Everywhere P h` says that every event of `h` is
in the relation `P` to the events before it; one more event asks for `P` at that event only (`everywhere_snoc`).
`Last p h e` says that `e` is the latest event of `h` with the property `p`; one more event replaces it when it has
that property (`last_snoc`).
-/

namespace History

variable {α : Type}

/-- `P past e` holds for every event `e` and the history `past` before it. -/
def Everywhere (P : List α → α → Prop) (h : List α) : Prop :=
  ∀ past e rest, h = past ++ e :: rest → P past e

theorem everywhere_nil (P : List α → α → Prop) : Everywhere P [] := by
  intro past e rest h
  exact absurd h.symm (List.append_ne_nil_of_right_ne_nil past (List.cons_ne_nil e rest))

theorem everywhere_snoc {P : List α → α → Prop} {h : List α} {e : α} :
    Everywhere P (h ++ [e]) ↔ Everywhere P h ∧ P h e := by
  constructor
  · intro hall
    refine ⟨fun past e' rest hsplit => ?_, hall h e [] rfl⟩
    exact hall past e' (rest ++ [e]) (by rw [hsplit, List.append_assoc, List.cons_append])
  · rintro ⟨hall, he⟩ past e' rest hsplit
    rcases List.eq_nil_or_concat rest with rfl | ⟨rest', e'', rfl⟩
    · obtain ⟨hpast, hlast⟩ := List.append_inj' hsplit rfl
      rw [List.cons.injEq] at hlast
      rw [← hpast, ← hlast.1]
      exact he
    · rw [List.concat_eq_append, ← List.cons_append, ← List.append_assoc] at hsplit
      exact hall past e' rest' (List.append_inj' hsplit rfl).1

/-- The latest event with the property `p`. -/
def Last (p : α → Prop) (h : List α) (e : α) : Prop :=
  ∃ early late, h = early ++ e :: late ∧ p e ∧ ∀ e' ∈ late, ¬ p e'

theorem not_last_nil (p : α → Prop) (e : α) : ¬ Last p [] e := by
  rintro ⟨early, late, h, _⟩
  exact List.append_ne_nil_of_right_ne_nil early (List.cons_ne_nil e late) h.symm

theorem last_snoc {p : α → Prop} {h : List α} {a e : α} : Last p (h ++ [a]) e ↔ p a ∧ e = a ∨ ¬ p a ∧ Last p h e := by
  constructor
  · rintro ⟨early, late, hsplit, he, hlate⟩
    rcases List.eq_nil_or_concat late with rfl | ⟨late', a', rfl⟩
    · obtain ⟨_, hlast⟩ := List.append_inj' hsplit rfl
      rw [List.cons.injEq] at hlast
      exact Or.inl ⟨hlast.1 ▸ he, hlast.1.symm⟩
    · rw [List.concat_eq_append, ← List.cons_append, ← List.append_assoc] at hsplit
      obtain ⟨hpast, hlast⟩ := List.append_inj' hsplit rfl
      rw [List.cons.injEq] at hlast
      refine Or.inr ⟨?_, early, late', hpast, he, fun e' he' => ?_⟩
      · rw [hlast.1]
        exact hlate a' (by simp)
      · exact hlate e' (by simp [he'])
  · rintro (⟨ha, rfl⟩ | ⟨ha, early, late, rfl, he, hlate⟩)
    · exact ⟨h, [], rfl, ha, fun e' he' => absurd he' List.not_mem_nil⟩
    · refine ⟨early, late ++ [a], by rw [List.append_assoc, List.cons_append], he, fun e' he' => ?_⟩
      rcases List.mem_append.1 he' with hmem | hmem
      · exact hlate e' hmem
      · rw [List.mem_singleton.1 hmem]
        exact ha

/-- An event with the property makes itself the latest one. -/
theorem last_snoc_of_pos {p : α → Prop} {h : List α} {a e : α} (ha : p a) : Last p (h ++ [a]) e ↔ e = a := by
  rw [last_snoc]
  exact ⟨fun hl => hl.elim And.right fun hr => absurd ha hr.1, fun he => Or.inl ⟨ha, he⟩⟩

theorem last_snoc_of_neg {p : α → Prop} {h : List α} {a e : α} (ha : ¬ p a) : Last p (h ++ [a]) e ↔ Last p h e := by
  rw [last_snoc]
  exact ⟨fun hl => hl.elim (fun hr => absurd hr.1 ha) And.right, fun he => Or.inr ⟨ha, he⟩⟩

end History
