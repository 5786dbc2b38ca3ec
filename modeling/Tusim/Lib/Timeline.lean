import Mathlib.Data.List.Basic
import Mathlib.Data.List.Sort
import Mathlib.Logic.Function.Basic
import Mathlib.Tactic.Ring

/-!
# Timelines

A timeline is a list of events: keys are set to values, and marks say which time it is from there on.  `valueAt t` are
the values when the time leaves `t`, that is those set before the first mark later than `t`; `final` are the values in
the end.  Events behind a mark later than `t` do not matter at `t` (`valueAt_append_of_lt`); marks up to `t` are passed
over (`valueAt_append_of_le`).
-/

namespace Timeline

inductive Event (K V : Type)
  | set (key : K) (value : V)
  | time (t : Nat)

variable {K V : Type}

def Event.mark : Event K V → Option Nat
  | .set _ _ => none
  | .time t => some t

/-- The marks. -/
def times (l : List (Event K V)) : List Nat := l.filterMap Event.mark

theorem times_append (l l' : List (Event K V)) : times (l ++ l') = times l ++ times l' := List.filterMap_append

@[simp] theorem times_set (k : K) (v : V) (l : List (Event K V)) : times (.set k v :: l) = times l := rfl

@[simp] theorem times_time (s : Nat) (l : List (Event K V)) : times (.time s :: l) = s :: times l := rfl

variable [DecidableEq K]

def Event.apply (f : K → V) : Event K V → K → V
  | .set k v => Function.update f k v
  | .time _ => f

/-- The values in the end. -/
def final (f : K → V) (l : List (Event K V)) : K → V := l.foldl Event.apply f

/-- The values when the time leaves `t`. -/
def valueAt (t : Nat) : (K → V) → List (Event K V) → K → V
  | f, [] => f
  | f, .set k v :: l => valueAt t (Function.update f k v) l
  | f, .time s :: l => if s ≤ t then valueAt t f l else f

variable {l : List (Event K V)} {t : Nat}

@[simp] theorem final_nil (f : K → V) : final f [] = f := rfl

theorem final_append (f : K → V) (l l' : List (Event K V)) : final f (l ++ l') = final (final f l) l' := List.foldl_append

/-- Marks up to `t` are passed over. -/
theorem valueAt_append_of_le (h : ∀ s ∈ times l, s ≤ t) (f : K → V) (l' : List (Event K V)) :
    valueAt t f (l ++ l') = valueAt t (final f l) l' := by
  induction l generalizing f with
  | nil => rfl
  | cons e l ih =>
    cases e with
    | set k v => exact ih h _
    | time s =>
      rw [times_time] at h
      show (if s ≤ t then valueAt t f (l ++ l') else f) = _
      rw [if_pos (h s List.mem_cons_self)]
      exact ih (fun s hs => h s (List.mem_cons_of_mem _ hs)) f

theorem valueAt_of_le (h : ∀ s ∈ times l, s ≤ t) (f : K → V) : valueAt t f l = final f l := by
  have happend := valueAt_append_of_le h f []
  rwa [List.append_nil] at happend

/-- Events behind a mark later than `t` do not matter at `t`. -/
theorem valueAt_append_of_lt (h : ∃ s ∈ times l, t < s) (f : K → V) (l' : List (Event K V)) :
    valueAt t f (l ++ l') = valueAt t f l := by
  induction l generalizing f with
  | nil =>
    obtain ⟨s, hs, -⟩ := h
    exact absurd hs List.not_mem_nil
  | cons e l ih =>
    cases e with
    | set k v => exact ih h _
    | time s =>
      show (if s ≤ t then valueAt t f (l ++ l') else f) = if s ≤ t then valueAt t f l else f
      by_cases hs : s ≤ t
      · rw [if_pos hs, if_pos hs]
        apply ih
        obtain ⟨s', hs', hlt⟩ := h
        rw [times_time] at hs'
        rcases List.mem_cons.1 hs' with rfl | hmem
        · omega
        · exact ⟨s', hmem, hlt⟩
      · rw [if_neg hs, if_neg hs]

/-- A key that no event sets keeps its value. -/
theorem final_of_not_set {k : K} (h : ∀ v, .set k v ∉ l) (f : K → V) : final f l k = f k := by
  induction l generalizing f with
  | nil => rfl
  | cons e l ih =>
    show final (e.apply f) l k = f k
    rw [ih fun v hv => h v (List.mem_cons_of_mem e hv)]
    cases e with
    | set k' v =>
      have hne : k ≠ k' := by
        rintro rfl
        exact h v List.mem_cons_self
      exact Function.update_of_ne hne v f
    | time s => rfl

end Timeline

/-!
### Periodic timers

A timer is due at an instant and remembers when it fired.  Firing moves the due instant on by a period, however late
the firing was, so the `k`-th firing belongs to the instant `first + k * period`.  `catchUp` fires a timer as long as a
rule gives a time for the instant that is due.

If the rule never fires early nor more than `slack` late (`Rule`), the timer stays `Punctual`; consecutive firings are
then at most `period + slack` apart (`Punctual.apart`).  A timer without slack that has caught up has fired at exactly
the instants up to now (`Punctual.fired_eq`).
-/

namespace Periodic

structure Timer where
  due : Nat
  fired : List Nat

namespace Timer

/-- One firing, at `time`. -/
def fire (period : Nat) (t : Timer) (time : Nat) : Timer where
  due := t.due + period
  fired := t.fired ++ [time]

/-- Fire while `rule` gives a time for the instant that is due, at most `n` times. -/
def catchUp (period : Nat) (rule : Nat → Option Nat) : Nat → Timer → Timer
  | 0, t => t
  | n + 1, t =>
    match rule t.due with
    | none => t
    | some time => catchUp period rule n (t.fire period time)

end Timer

/-- The rule fires a due instant at most `slack` late and not after `now`. -/
def Rule (slack now : Nat) (rule : Nat → Option Nat) : Prop :=
  ∀ due time, rule due = some time → due ≤ time ∧ time ≤ due + slack ∧ time ≤ now

/-- The instants of a schedule up to `now`. -/
def instants (first period now : Nat) : List Nat :=
  (List.range (now + 1)).filter fun t => first ≤ t && (t - first) % period == 0

theorem mem_instants {first period now t : Nat} :
    t ∈ instants first period now ↔ (∃ k, t = first + k * period) ∧ t ≤ now := by
  unfold instants
  rw [List.mem_filter, List.mem_range, Bool.and_eq_true, decide_eq_true_eq, beq_iff_eq]
  constructor
  · rintro ⟨hlt, hle, hmod⟩
    obtain ⟨k, hk⟩ := Nat.dvd_of_mod_eq_zero hmod
    rw [Nat.mul_comm] at hk
    exact ⟨⟨k, by omega⟩, by omega⟩
  · rintro ⟨⟨k, rfl⟩, hle⟩
    refine ⟨by omega, by omega, ?_⟩
    rw [Nat.add_sub_cancel_left, Nat.mul_mod_left]

theorem instants_pairwise (first period now : Nat) : (instants first period now).Pairwise (· < ·) :=
  List.Pairwise.filter _ List.pairwise_lt_range

/-- Every firing so far is at most `slack` after its instant. -/
structure Punctual (first period slack : Nat) (t : Timer) : Prop where
  due_eq : t.due = first + t.fired.length * period
  fired_mem : ∀ k time, t.fired[k]? = some time → first + k * period ≤ time ∧ time ≤ first + k * period + slack

namespace Punctual

variable {first period slack : Nat} {t : Timer}

theorem start (first period slack : Nat) : Punctual first period slack { due := first, fired := [] } where
  due_eq := by simp
  fired_mem := by simp

theorem fire (h : Punctual first period slack t) {time : Nat} (hle : t.due ≤ time) (hge : time ≤ t.due + slack) :
    Punctual first period slack (t.fire period time) where
  due_eq := by
    simp only [Timer.fire, h.due_eq, List.length_append, List.length_singleton]
    ring
  fired_mem := by
    intro k time' hk
    simp only [Timer.fire, List.getElem?_append] at hk
    split at hk
    · exact h.fired_mem k time' hk
    · rename_i hlen
      -- the only entry beyond the old list is the new firing
      rcases Nat.lt_or_ge t.fired.length k with hlt | hge'
      · rw [List.getElem?_eq_none (by simp; omega)] at hk
        exact absurd hk (by simp)
      · have hk' : k = t.fired.length := by omega
        rw [hk', Nat.sub_self] at hk
        simp only [List.getElem?_cons_zero, Option.some.injEq] at hk
        rw [hk', ← hk, ← h.due_eq]
        exact ⟨hle, hge⟩

theorem catchUp {now : Nat} {rule : Nat → Option Nat} (hrule : Rule slack now rule) (h : Punctual first period slack t)
    (n : Nat) : Punctual first period slack (t.catchUp period rule n) := by
  induction n generalizing t with
  | zero => exact h
  | succ n ih =>
    unfold Timer.catchUp
    split
    · exact h
    · rename_i time hdue
      obtain ⟨hle, hge, _⟩ := hrule _ _ hdue
      exact ih (h.fire hle hge)

/-- Consecutive firings. -/
theorem apart (h : Punctual first period slack t) {k time time' : Nat} (hk : t.fired[k]? = some time)
    (hk' : t.fired[k + 1]? = some time') : time + period ≤ time' + slack ∧ time' ≤ time + (period + slack) := by
  have h₁ := h.fired_mem k time hk
  have h₂ := h.fired_mem (k + 1) time' hk'
  rw [Nat.succ_mul] at h₂
  omega

/-- Without slack the firings are the instants themselves. -/
theorem mem_fired (h : Punctual first period 0 t) {time : Nat} :
    time ∈ t.fired ↔ ∃ k < t.fired.length, time = first + k * period := by
  rw [List.mem_iff_getElem?]
  constructor
  · rintro ⟨k, hk⟩
    have hlt : k < t.fired.length := (List.getElem?_eq_some_iff.1 hk).1
    have := h.fired_mem k time hk
    exact ⟨k, hlt, by omega⟩
  · rintro ⟨k, hlt, rfl⟩
    refine ⟨k, ?_⟩
    have hk := List.getElem?_eq_getElem hlt
    have := h.fired_mem k _ hk
    rw [hk]
    congr 1
    omega

theorem fired_pairwise (h : Punctual first period 0 t) (hperiod : 0 < period) : t.fired.Pairwise (· < ·) := by
  rw [List.pairwise_iff_getElem]
  intro i j hi hj hij
  have h₁ := h.fired_mem i _ (List.getElem?_eq_getElem hi)
  have h₂ := h.fired_mem j _ (List.getElem?_eq_getElem hj)
  have := Nat.mul_lt_mul_of_pos_right hij hperiod
  omega

/-- A timer without slack that has caught up with `now` has fired at the instants up to `now`. -/
theorem fired_eq (h : Punctual first period 0 t) (hperiod : 0 < period) {now : Nat} (hdue : now < t.due)
    (hnow : ∀ time ∈ t.fired, time ≤ now) : t.fired = instants first period now := by
  have hmem : ∀ time, time ∈ t.fired ↔ time ∈ instants first period now := by
    intro time
    rw [mem_instants]
    constructor
    · intro ht
      obtain ⟨k, _, hk⟩ := h.mem_fired.1 ht
      exact ⟨⟨k, hk⟩, hnow time ht⟩
    · rintro ⟨⟨k, rfl⟩, hle⟩
      refine h.mem_fired.2 ⟨k, ?_, rfl⟩
      rw [h.due_eq] at hdue
      by_contra hk
      have := Nat.mul_le_mul_right period (Nat.le_of_not_lt hk)
      omega
  have hpw := h.fired_pairwise hperiod
  have hpw' := instants_pairwise first period now
  have hperm : t.fired.Perm (instants first period now) :=
    (List.perm_ext_iff_of_nodup (hpw.imp Nat.ne_of_lt) (hpw'.imp Nat.ne_of_lt)).2 hmem
  exact hperm.eq_of_pairwise (fun a b _ _ hab hba => absurd hab (Nat.lt_asymm hba)) hpw hpw'

end Punctual

namespace Timer

variable {period : Nat} {rule : Nat → Option Nat} {t : Timer}

/-- Nothing fires while the due instant gives no time. -/
theorem catchUp_of_none (h : rule t.due = none) (n : Nat) : t.catchUp period rule n = t := by
  cases n with
  | zero => rfl
  | succ n => simp only [catchUp, h]

/-- With a round to spare for every instant up to `now` the rule gives no more times. -/
theorem rule_catchUp {now : Nat} (hperiod : 0 < period) (hrule : ∀ due, now < due → rule due = none) {n : Nat}
    (hn : now < t.due + n) : rule (t.catchUp period rule n).due = none := by
  induction n generalizing t with
  | zero => exact hrule _ hn
  | succ n ih =>
    unfold catchUp
    split
    · assumption
    · apply ih
      simp only [fire]
      omega

theorem fired_le_catchUp {now : Nat} {slack : Nat} (hrule : Rule slack now rule) (h : ∀ time ∈ t.fired, time ≤ now)
    (n : Nat) : ∀ time ∈ (t.catchUp period rule n).fired, time ≤ now := by
  induction n generalizing t with
  | zero => exact h
  | succ n ih =>
    unfold catchUp
    split
    · exact h
    · rename_i at' hdue
      apply ih
      intro time htime
      rcases List.mem_append.1 htime with hmem | hmem
      · exact h time hmem
      · rw [List.mem_singleton.1 hmem]
        exact (hrule _ _ hdue).2.2

end Timer

end Periodic
