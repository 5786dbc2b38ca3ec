import Tusim.Lib.Digits

/-!
# Tile loops with a counter that wraps

The loop `for (i = 0; i < bound; i += step)` over a counter that counts modulo `w`.  Which counters it visits does not
depend on its body (`loop_eq_visited`).  While the counter does not wrap, these are the starts of the tiles of the bound
(`visited_of_fits`); otherwise the loop visits them and then starts again inside the bound (`visited_of_not_fits`).  No
turn takes more rows than the first (`Visits.tileCount_le`).
-/

namespace WrapLoop

open Digits

variable {S : Type} (bound step w : Nat)

/-- The loop with at most `n` tests of its condition, or `none` if these do not suffice. -/
def loop (body : Nat → S → Option S) : Nat → Nat → S → Option S
  | 0, _, _ => none
  | n + 1, i, s => if i < bound then (body i s).bind (loop body n ((i + step) % w)) else some s

/-- The counters visited from `i` on. -/
def visited : Nat → Nat → Option (List Nat)
  | 0, _ => none
  | n + 1, i => if i < bound then (visited n ((i + step) % w)).map (i :: ·) else some []

/-- The counter leaves the bound before it wraps. -/
def Fits : Prop := numTiles bound step * step < w

instance : Decidable (Fits bound step w) := inferInstanceAs (Decidable (_ < _))

/-- The starts of the tiles. -/
def starts : List Nat := (tileSpans bound step).map Prod.fst

variable {bound step w}

theorem starts_eq : starts bound step = (List.range (numTiles bound step)).map (· * step) := by
  unfold starts tileSpans
  rw [List.map_map]
  rfl

theorem loop_eq_visited (body : Nat → S → Option S) (n i : Nat) (s : S) :
    loop bound step w body n i s = (visited bound step w n i).bind fun l => l.foldlM (fun s i => body i s) s := by
  induction n generalizing i s with
  | zero => rfl
  | succ n ih =>
    unfold loop visited
    split
    · have hrest : (fun s => loop bound step w body n ((i + step) % w) s) =
          fun s => (visited bound step w n ((i + step) % w)).bind fun l => l.foldlM (fun s i => body i s) s :=
        funext (ih _)
      rw [show loop bound step w body n ((i + step) % w) = _ from hrest]
      cases visited bound step w n ((i + step) % w) with
      | none => cases body i s <;> rfl
      | some l => cases h : body i s <;> simp [h]
    · rfl

/-- More tests do no harm. -/
theorem visited_mono {n i : Nat} {l : List Nat} (h : visited bound step w n i = some l) (k : Nat) :
    visited bound step w (n + k) i = some l := by
  induction n generalizing i l with
  | zero => cases h
  | succ n ih =>
    rw [Nat.add_right_comm]
    unfold visited at h ⊢
    split at h
    · rename_i hi
      obtain ⟨rest, hrest, rfl⟩ := Option.map_eq_some_iff.1 h
      rw [if_pos hi, ih hrest, Option.map_some]
    · rename_i hi
      rw [if_neg hi]
      exact h

theorem mul_lt_of_lt_numTiles {k : Nat} (hk : k < numTiles bound step) : k * step < bound := by
  have hdiv := Nat.div_mul_le_self bound step
  unfold numTiles at hk
  split at hk
  · rename_i hmod
    have hle : k * step ≤ bound / step * step := Nat.mul_le_mul_right step (Nat.lt_succ_iff.1 hk)
    have hsplit := Nat.div_add_mod bound step
    rw [Nat.mul_comm] at hsplit
    omega
  · have hle : (k + 1) * step ≤ bound / step * step := Nat.mul_le_mul_right step hk
    have hstep : 0 < step := by
      rcases Nat.eq_zero_or_pos step with rfl | hpos
      · simp at hk
      · exact hpos
    rw [Nat.succ_mul] at hle
    omega

/-- The loop visits the rest of the tiles, and goes on where the counter is then. -/
theorem visited_tiles (hbound : bound < w) {j k : Nat} (hjk : j + k = numTiles bound step) (n : Nat) :
    visited bound step w (n + k) (j * step % w) =
      (visited bound step w n (numTiles bound step * step % w)).map
        fun l => (List.range' j k).map (· * step) ++ l := by
  induction k generalizing j with
  | zero =>
    rw [Nat.add_zero] at hjk
    subst hjk
    simp
  | succ k ih =>
    have hlt : j * step < bound := mul_lt_of_lt_numTiles (by omega)
    rw [Nat.mod_eq_of_lt (hlt.trans hbound), ← Nat.add_assoc]
    conv_lhs => unfold visited
    rw [if_pos hlt, ← Nat.succ_mul, ih (j := j + 1) (by omega), Option.map_map]
    rfl

theorem visited_of_fits (hbound : bound < w) (hstep : 0 < step) (hfits : Fits bound step w) :
    visited bound step w (1 + numTiles bound step) 0 = some (starts bound step) := by
  have htiles := visited_tiles hbound (Nat.zero_add (numTiles bound step)) 1
  have hend : ¬ numTiles bound step * step % w < bound := by
    rw [Nat.mod_eq_of_lt hfits]
    exact Nat.not_lt.2 (le_numTiles_mul bound hstep)
  rw [Nat.zero_mul, Nat.zero_mod] at htiles
  rw [htiles, starts_eq, List.range_eq_range']
  simp [visited, hend]

/-- A loop that counts to `n` in steps of one ends, if all its turns do. -/
theorem loop_count {n fuel : Nat} (hn : n < w) (hfuel : n < fuel) {body : Nat → S → Option S} {f : S → Nat → S}
    (hbody : ∀ i < n, ∀ s, body i s = some (f s i)) (s : S) :
    loop n 1 w body fuel 0 s = some ((List.range n).foldl f s) := by
  have hrest : ∀ k fuel i s, i + k = n → k < fuel → loop n 1 w body fuel i s = some ((List.range' i k).foldl f s) := by
    intro k
    induction k with
    | zero =>
      intro fuel i s hi hfuel
      obtain ⟨fuel, rfl⟩ := Nat.exists_eq_add_of_lt hfuel
      unfold loop
      rw [if_neg (by omega)]
      rfl
    | succ k ih =>
      intro fuel i s hi hfuel
      obtain ⟨fuel, rfl⟩ := Nat.exists_eq_add_of_lt hfuel
      unfold loop
      rw [if_pos (by omega), hbody i (by omega), Option.bind_some, Nat.mod_eq_of_lt (by omega),
        ih _ (i + 1) (f s i) (by omega) (by omega)]
      rfl
  rw [hrest n fuel 0 s (Nat.zero_add n) hfuel, List.range_eq_range']

/-- The induction on the turns of a loop whose counter does not wrap: each turn takes the invariant to the next counter. -/
theorem loop_rec (hstep : 0 < step) (hw : bound + step ≤ w) {fuel : Nat} (hfuel : bound < fuel) {body : Nat → S → Option S}
    {P : Nat → S → Prop}
    (hbody : ∀ i s, i < bound → P i s → ∃ s', body i s = some s' ∧ P (min (i + step) bound) s') {s : S} (h : P 0 s) :
    ∃ s', loop bound step w body fuel 0 s = some s' ∧ P bound s' := by
  have hrest : ∀ n i s, bound ≤ i + n * step → P (min i bound) s →
      ∃ s', loop bound step w body (n + 1) i s = some s' ∧ P bound s' := by
    intro n
    induction n with
    | zero =>
      intro i s hi hs
      rw [Nat.zero_mul, Nat.add_zero] at hi
      rw [Nat.min_eq_right hi] at hs
      refine ⟨s, ?_, hs⟩
      unfold loop
      rw [if_neg (by omega)]
    | succ n ih =>
      intro i s hi hs
      rw [Nat.succ_mul] at hi
      unfold loop
      by_cases hlt : i < bound
      · rw [Nat.min_eq_left hlt.le] at hs
        obtain ⟨s', hs', hnext⟩ := hbody i s hlt hs
        rw [if_pos hlt, hs', Option.bind_some, Nat.mod_eq_of_lt (by omega)]
        exact ih (i + step) s' (by omega) hnext
      · rw [Nat.min_eq_right (by omega)] at hs
        rw [if_neg hlt]
        exact ⟨s, rfl, hs⟩
  obtain ⟨n, rfl⟩ : ∃ n, fuel = n + 1 := ⟨fuel - 1, by omega⟩
  have hmul : n * 1 ≤ n * step := Nat.mul_le_mul_left n hstep
  apply hrest n 0 s (by omega)
  rw [Nat.min_eq_left (Nat.zero_le _)]
  exact h

/-- The same for a loop that counts up to `n`. -/
theorem foldlM_range_rec {n : Nat} {body : S → Nat → Option S} {P : Nat → S → Prop}
    (hbody : ∀ i s, i < n → P i s → ∃ s', body s i = some s' ∧ P (i + 1) s') {s : S} (h : P 0 s) :
    ∃ s', (List.range n).foldlM body s = some s' ∧ P n s' := by
  induction n with
  | zero => exact ⟨s, rfl, h⟩
  | succ n ih =>
    obtain ⟨s', hs', hn⟩ := ih fun i s hi => hbody i s (Nat.lt_succ_of_lt hi)
    obtain ⟨s'', hs'', hlast⟩ := hbody n s' (Nat.lt_succ_self n) hn
    refine ⟨s'', ?_, hlast⟩
    rw [List.range_succ, List.foldlM_append, hs']
    simpa using hs''

/-- A counter that wraps is inside the bound again. -/
theorem visited_of_not_fits (hbound : bound < w) (hstep : step < w) (hfits : ¬ Fits bound step w) {n : Nat}
    {l : List Nat} (hl : visited bound step w n 0 = some l) :
    numTiles bound step * step % w < bound ∧
      ∃ rest, l = starts bound step ++ numTiles bound step * step % w :: rest := by
  have hwraps : w ≤ numTiles bound step * step := Nat.le_of_not_lt hfits
  have hpos : 0 < numTiles bound step := by
    rcases Nat.eq_zero_or_pos (numTiles bound step) with h | h
    · rw [h] at hwraps
      omega
    · exact h
  have hlast : (numTiles bound step - 1) * step < bound := mul_lt_of_lt_numTiles (by omega)
  have hover : numTiles bound step * step < bound + step := by
    rw [Nat.sub_mul, Nat.one_mul] at hlast
    omega
  have hagain : numTiles bound step * step % w < bound := by
    rw [Nat.mod_eq_sub_mod hwraps, Nat.mod_eq_of_lt (by omega)]
    omega
  have htiles := visited_tiles hbound (Nat.zero_add (numTiles bound step)) n
  rw [Nat.zero_mul, Nat.zero_mod, visited_mono hl, ← List.range_eq_range', ← starts_eq] at htiles
  cases hrest : visited bound step w n (numTiles bound step * step % w) with
  | none =>
    rw [hrest] at htiles
    cases htiles
  | some l' =>
    rw [hrest, Option.map_some, Option.some.injEq] at htiles
    cases n with
    | zero => cases hrest
    | succ n =>
      unfold visited at hrest
      rw [if_pos hagain] at hrest
      obtain ⟨rest, _, rfl⟩ := Option.map_eq_some_iff.1 hrest
      exact ⟨hagain, rest, htiles⟩

/-! ### What the tiles cover -/

theorem mem_starts_lt {i : Nat} (hi : i ∈ starts bound step) : i < bound := by
  rw [starts_eq] at hi
  obtain ⟨k, hk, rfl⟩ := List.mem_map.1 hi
  exact mul_lt_of_lt_numTiles (List.mem_range.1 hk)

/-- The tiles are the bound, in order. -/
theorem starts_cover (hstep : 0 < step) :
    (starts bound step).flatMap (fun i => List.range' i (min step (bound - i))) = List.range bound := by
  rw [← tiles_flatten bound hstep]
  unfold starts tiles tileSpans
  rw [List.flatMap_def, List.map_map, List.map_map, List.map_map]
  congr 1
  apply List.map_congr_left
  intro k _
  exact List.range'_eq_map_range

variable {β : Type} {key : β → Nat} {L : List β}

/-- In a list with increasing keys the ones below `a` come first. -/
theorem filter_lt_append (hL : L.Pairwise fun t u => key t < key u) {a b : Nat} (hab : a ≤ b) :
    L.filter (fun t => key t < a) ++ L.filter (fun t => a ≤ key t ∧ key t < b) = L.filter fun t => key t < b := by
  induction L with
  | nil => rfl
  | cons t L ih =>
    rw [List.pairwise_cons] at hL
    by_cases ha : key t < a
    · have hrest := ih hL.2
      have hb : key t < b := by omega
      have hna : ¬ a ≤ key t := by omega
      simpa [ha, hb, hna] using hrest
    · have hlow : (t :: L).filter (fun t => key t < a) = [] := by
        rw [List.filter_eq_nil_iff]
        intro u hu
        rcases List.mem_cons.1 hu with rfl | hu
        · simpa using ha
        · have hlt := hL.1 u hu
          simp only [decide_eq_true_eq]
          omega
      rw [hlow, List.nil_append]
      apply List.filter_congr
      intro u hu
      have hle : a ≤ key u := by
        rcases List.mem_cons.1 hu with rfl | hu
        · omega
        · have hlt := hL.1 u hu
          omega
      simp [hle]

/-- A list with increasing keys below the bound is its parts in the tiles. -/
theorem starts_filter (hstep : 0 < step) (hL : L.Pairwise fun t u => key t < key u) (hkey : ∀ t ∈ L, key t < bound) :
    ((starts bound step).flatMap fun i => L.filter fun t => i ≤ key t ∧ key t < i + min step (bound - i)) = L := by
  have hpart : ∀ n ≤ numTiles bound step, ((List.range n).map (· * step)).flatMap (fun i =>
      L.filter fun t => i ≤ key t ∧ key t < i + min step (bound - i)) = L.filter fun t => key t < n * step := by
    intro n hn
    induction n with
    | zero => simp
    | succ n ih =>
      have hlt : n * step < bound := mul_lt_of_lt_numTiles hn
      rw [List.range_succ, List.map_append, List.flatMap_append, ih (by omega), Nat.succ_mul,
        ← filter_lt_append hL (Nat.le_add_right (n * step) step)]
      congr 1
      rw [List.map_singleton, List.flatMap_singleton]
      apply List.filter_congr
      intro t ht
      have hk := hkey t ht
      rw [decide_eq_decide]
      omega
  rw [starts_eq, hpart _ (Nat.le_refl _), List.filter_eq_self]
  intro t ht
  have hcover := le_numTiles_mul bound hstep
  have hk := hkey t ht
  simp only [decide_eq_true_eq]
  omega

/-! ### The counters of a loop that need not end -/

variable (bound step w) in
/-- The loop has a turn with this counter. -/
inductive Visits : Nat → Prop
  | start (h : 0 < bound) : Visits 0
  | next {i : Nat} (hi : Visits i) (h : (i + step) % w < bound) : Visits ((i + step) % w)

theorem Visits.lt {i : Nat} (h : Visits bound step w i) : i < bound := by
  cases h with
  | start h => exact h
  | next _ h => exact h

/-- A step across the whole bound leaves one turn. -/
theorem Visits.eq_zero {i : Nat} (h : Visits bound step w i) (hstep : bound ≤ step) (hw : step < w) : i = 0 := by
  induction h with
  | start => rfl
  | next _ hlt ih =>
    subst ih
    rw [Nat.zero_add, Nat.mod_eq_of_lt hw] at hlt
    omega

/-- The rows of the turn at a counter. -/
def tileCount (bound step w i : Nat) : Nat := if (i + step) % w ≤ bound then step else bound - i

theorem tileCount_zero (hw : step < w) : tileCount bound step w 0 = min step bound := by
  unfold tileCount
  rw [Nat.zero_add, Nat.mod_eq_of_lt hw]
  split <;> omega

/-- No turn has more rows than the first, also where the counter wraps. -/
theorem Visits.tileCount_le {i : Nat} (h : Visits bound step w i) (hstep : step < w) (hbound : bound < w) :
    tileCount bound step w i ≤ min step bound := by
  have hlt := h.lt
  rcases Nat.lt_or_ge step bound with hsmall | hlarge
  · unfold tileCount
    split
    · omega
    · rename_i hnot
      rcases Nat.lt_or_ge (i + step) w with hfits | hwraps
      · rw [Nat.mod_eq_of_lt hfits] at hnot
        omega
      · rw [Nat.mod_eq_sub_mod hwraps, Nat.mod_eq_of_lt (by omega)] at hnot
        omega
  · rw [h.eq_zero hlarge hstep, tileCount_zero hstep]

end WrapLoop
