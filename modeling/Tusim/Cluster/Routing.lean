import Mathlib.Data.Nat.ModEq
import Tusim.Cluster.Topology

/-!
# Routes of messages

A mesh is filled row by row, so its last row may end early.  Two cores are apart by their rows and columns
(`mesh_distance`), but a dimension-ordered router turns at one corner, and there is a core at that corner exactly if
`Routable` says so.
-/

/-!
### Walks over a cluster

The loops of the routers go from core to core until they are done.  A ranking that every step lowers by one says how
many links a loop charges (`walk_of_ranking`); a loop that cannot end returns with an error (`walk_error`).
-/

namespace Tusim.Cluster

open Word Routes

variable (c : TuCluster)

/-- The neighbours of a core, as a relation. -/
def Adj (a b : Nat) : Prop := ∃ l, tuClusterNeighbors c a = some l ∧ b ∈ l

/-- The services after a message of this service has passed the links. -/
def chargeAll (service : Nat) (route : List (Nat × Nat)) (links : Nat → Nat) : Nat → Nat :=
  route.foldl (fun links link => addLinkService c links link.1 link.2 service) links

variable {c} {done : Nat → Bool} {next : Nat → Option Nat} {Inv : Nat → Prop} {rank : Nat → Nat}

/-- A loop whose steps go to neighbours and lower a rank by one charges as many links as the rank says. -/
theorem walk_of_ranking (hdone : ∀ a, Inv a → (done a = true ↔ rank a = 0))
    (hnext : ∀ a, Inv a → rank a ≠ 0 → ∃ b, next a = some b ∧ Adj c a b ∧ Inv b ∧ rank b + 1 = rank a)
    {a : Nat} (ha : Inv a) :
    ∃ b route, Route (Adj c) a route b ∧ route.length = rank a ∧ Inv b ∧ rank b = 0 ∧
      ∀ fuel, rank a < fuel → ∀ service links,
        walk c service done next fuel a links = some (.ok (b, chargeAll c service route links)) := by
  induction hk : rank a generalizing a with
  | zero =>
    refine ⟨a, [], .nil a, rfl, ha, hk, ?_⟩
    intro fuel hfuel service links
    obtain ⟨n, rfl⟩ := Nat.exists_eq_add_of_lt hfuel
    rw [Nat.zero_add, walk, if_pos ((hdone a ha).2 hk)]
    rfl
  | succ k ih =>
    obtain ⟨b, hb, hadj, hinv, hrank⟩ := hnext a ha (by omega)
    obtain ⟨last, route, hroute, hlen, hlast, hzero, hwalk⟩ := ih hinv (by omega)
    refine ⟨last, (a, b) :: route, .cons hadj hroute, by rw [List.length_cons, hlen], hlast, hzero, ?_⟩
    intro fuel hfuel service links
    obtain ⟨n, rfl⟩ := Nat.exists_eq_add_of_lt hfuel
    have hgo : ¬ done a = true := by
      rw [hdone a ha]
      omega
    rw [walk, if_neg hgo, hb]
    exact hwalk (k + 1 + n) (by omega) service _

/-- A loop that is never done, and whose steps lower a rank, ends in an error. -/
theorem walk_error (hnever : ∀ a, Inv a → ¬ done a = true)
    (hnext : ∀ a b, Inv a → next a = some b → Inv b ∧ rank b < rank a) {a : Nat} (ha : Inv a) {fuel : Nat}
    (hfuel : rank a < fuel) (service : Nat) (links : Nat → Nat) :
    ∃ links', walk c service done next fuel a links = some (.error links') := by
  induction fuel generalizing a links with
  | zero => exact absurd hfuel (Nat.not_lt_zero _)
  | succ n ih =>
    rw [walk, if_neg (hnever a ha)]
    cases hb : next a with
    | none => exact ⟨links, rfl⟩
    | some b =>
      obtain ⟨hinv, hrank⟩ := hnext a b ha hb
      exact ih hinv (by omega) _

theorem chargeAll_append (service : Nat) (route route' : List (Nat × Nat)) (links : Nat → Nat) :
    chargeAll c service (route ++ route') links = chargeAll c service route' (chargeAll c service route links) :=
  List.foldl_append

/-- The place of a link in the table of services. -/
def linkPlace (c : TuCluster) (link : Nat × Nat) : Nat := link.1 * c.numCores + link.2

/-- A route that goes over no link twice charges each of its links once. -/
theorem chargeAll_apply {service : Nat} {route : List (Nat × Nat)} (hnodup : (route.map (linkPlace c)).Nodup)
    {links : Nat → Nat} (hsmall : ∀ k ∈ route.map (linkPlace c), links k + service < 2 ^ 64) (k : Nat) :
    chargeAll c service route links k = links k + service * if k ∈ route.map (linkPlace c) then 1 else 0 := by
  induction route generalizing links with
  | nil => simp [chargeAll]
  | cons link route ih =>
    rw [List.map_cons, List.nodup_cons] at hnodup
    have hhead := hsmall _ List.mem_cons_self
    have hother : ∀ k ≠ linkPlace c link, addLinkService c links link.1 link.2 service k = links k := fun k hk =>
      Function.update_of_ne hk _ _
    have hself : addLinkService c links link.1 link.2 service (linkPlace c link) = links (linkPlace c link) + service :=
      (Function.update_self _ _ _).trans (u64_of_lt hhead)
    have hrest : chargeAll c service route (addLinkService c links link.1 link.2 service) k =
        addLinkService c links link.1 link.2 service k +
          service * if k ∈ route.map (linkPlace c) then 1 else 0 := by
      refine ih hnodup.2 fun k hk => ?_
      rw [hother k fun heq => hnodup.1 (heq ▸ hk)]
      exact hsmall k (List.mem_cons_of_mem _ hk)
    show chargeAll c service route (addLinkService c links link.1 link.2 service) k = _
    rw [hrest, List.map_cons]
    by_cases hk : k = linkPlace c link
    · subst hk
      rw [hself, if_neg hnodup.1, if_pos List.mem_cons_self]
      omega
    · have hmem : k ∈ linkPlace c link :: route.map (linkPlace c) ↔ k ∈ route.map (linkPlace c) := by
        rw [List.mem_cons]
        exact or_iff_right hk
      rw [hother k hk, if_congr hmem rfl rfl]

/-- A neighbour is a core of the cluster. -/
theorem Adj.lt {a b : Nat} (h : Adj c a b) : a < c.numCores ∧ b < c.numCores := by
  obtain ⟨l, hl, hb⟩ := h
  unfold tuClusterNeighbors at hl
  split at hl
  · rw [← Option.some.inj hl] at hb
    exact absurd hb List.not_mem_nil
  rename_i ha
  have ha : a < c.numCores := Nat.lt_of_not_le ha
  refine ⟨ha, ?_⟩
  split at hl
  · rw [← Option.some.inj hl] at hb
    exact absurd hb List.not_mem_nil
  · rw [← Option.some.inj hl] at hb
    have hpos : 0 < c.numCores := Nat.zero_lt_of_lt ha
    rcases List.mem_cons.1 (List.mem_of_mem_filter hb) with rfl | hb
    · exact Nat.mod_lt _ hpos
    · rw [List.mem_singleton.1 hb]
      exact Nat.mod_lt _ hpos
  · split at hl
    · cases hl
    rw [← Option.some.inj hl] at hb
    simp only [List.mem_append] at hb
    rcases hb with ((hb | hb) | hb) | hb
    all_goals
      split at hb
      · rw [List.mem_singleton.1 hb]
        omega
      · exact absurd hb List.not_mem_nil

end Tusim.Cluster

namespace Tusim.Cluster

open Word Routes

variable {c : TuCluster}

/-- The shape of a mesh that was created without wrapping its number of columns. -/
structure MeshShape (c : TuCluster) : Prop where
  topology : c.topology = .mesh
  cols_pos : 0 < c.meshCols
  cols_le : c.meshCols ≤ 256
  cores_le : c.numCores ≤ 256
  fits : c.numCores ≤ c.meshRows * c.meshCols

namespace MeshShape

variable (h : MeshShape c)

include h

theorem row_lt {a : Nat} (ha : a < c.numCores) : a / c.meshCols < c.meshRows :=
  Nat.div_lt_of_lt_mul (by rw [Nat.mul_comm]; exact Nat.lt_of_lt_of_le ha h.fits)

/-- One column to the east, in the same row. -/
theorem succ_div_mod {a : Nat} (ha : a % c.meshCols + 1 < c.meshCols) :
    (a + 1) / c.meshCols = a / c.meshCols ∧ (a + 1) % c.meshCols = a % c.meshCols + 1 := by
  have hdecomp := Nat.div_add_mod a c.meshCols
  have hsum : a + 1 = (a % c.meshCols + 1) + c.meshCols * (a / c.meshCols) := by omega
  rw [hsum, Nat.add_mul_div_left _ _ h.cols_pos, Nat.add_mul_mod_self_left, Nat.div_eq_of_lt ha, Nat.mod_eq_of_lt ha]
  exact ⟨Nat.zero_add _, rfl⟩

theorem pred_div_mod {a : Nat} (ha : 0 < a % c.meshCols) :
    (a - 1) / c.meshCols = a / c.meshCols ∧ (a - 1) % c.meshCols = a % c.meshCols - 1 := by
  have hdecomp := Nat.div_add_mod a c.meshCols
  have hlt := Nat.mod_lt a h.cols_pos
  have hsum : a - 1 = (a % c.meshCols - 1) + c.meshCols * (a / c.meshCols) := by omega
  have hlt' : a % c.meshCols - 1 < c.meshCols := by omega
  rw [hsum, Nat.add_mul_div_left _ _ h.cols_pos, Nat.add_mul_mod_self_left, Nat.div_eq_of_lt hlt',
    Nat.mod_eq_of_lt hlt']
  exact ⟨Nat.zero_add _, rfl⟩

/-- The links of a mesh. -/
theorem adj_iff {a b : Nat} :
    Adj c a b ↔ a < c.numCores ∧ b < c.numCores ∧
      (b + c.meshCols = a ∨ b = a + c.meshCols ∨ (b + 1 = a ∧ 0 < a % c.meshCols) ∨
        (b = a + 1 ∧ a % c.meshCols + 1 < c.meshCols)) := by
  have hpos := h.cols_pos
  unfold Adj tuClusterNeighbors
  by_cases ha : a ≥ c.numCores
  · rw [if_pos ha]
    constructor
    · rintro ⟨l, hl, hb⟩
      rw [← Option.some.inj hl] at hb
      exact absurd hb List.not_mem_nil
    · rintro ⟨hlt, -⟩
      omega
  rw [if_neg ha, h.topology]
  dsimp only
  rw [if_neg (by omega)]
  simp only [Option.some.injEq, exists_eq_left', List.mem_append]
  have hnorth : 0 < a / c.meshCols ↔ c.meshCols ≤ a := Nat.div_pos_iff.trans (and_iff_right hpos)
  have hsouth : a + c.meshCols < c.numCores → a / c.meshCols + 1 < c.meshRows := by
    intro hlt
    have hrow := h.row_lt hlt
    rwa [Nat.add_div_right _ hpos] at hrow
  have heast : a % c.meshCols + 1 < c.meshCols → (a + 1) / c.meshCols = a / c.meshCols :=
    fun hcol => (h.succ_div_mod hcol).1
  have hwest : 0 < a % c.meshCols → 0 < a := fun hcol => Nat.lt_of_lt_of_le hcol (Nat.mod_le _ _)
  constructor
  · rintro (((hb | hb) | hb) | hb)
    · split at hb
      · have hb := List.mem_singleton.1 hb
        omega
      · exact absurd hb List.not_mem_nil
    · split at hb
      · have hb := List.mem_singleton.1 hb
        omega
      · exact absurd hb List.not_mem_nil
    · split at hb
      · have hb := List.mem_singleton.1 hb
        omega
      · exact absurd hb List.not_mem_nil
    · split at hb
      · have hb := List.mem_singleton.1 hb
        omega
      · exact absurd hb List.not_mem_nil
  · rintro ⟨hlt, hblt, hb | rfl | ⟨hb, hcol⟩ | ⟨rfl, hcol⟩⟩
    · left; left; left
      rw [if_pos (by omega)]
      exact List.mem_singleton.2 (by omega)
    · left; left; right
      rw [if_pos ⟨hsouth hblt, hblt⟩]
      exact List.mem_singleton_self _
    · left; right
      rw [if_pos hcol]
      exact List.mem_singleton.2 (by omega)
    · right
      rw [if_pos ⟨hcol, hblt, heast hcol⟩]
      exact List.mem_singleton_self _

/-! ### Along a row -/

theorem nextInRow_east {a dstCol : Nat} (ha : a < c.numCores) (hdst : dstCol < c.meshCols)
    (hcol : a % c.meshCols < dstCol) :
    nextInRow c dstCol a = if a + 1 ≥ c.numCores then none else some (a + 1) := by
  have hcores := h.cores_le
  have hrow := (h.succ_div_mod (a := a) (by omega)).1
  have hword : u32 (a + 1) = a + 1 := u32_of_lt (by omega)
  unfold nextInRow
  rw [if_pos hcol, hword]
  dsimp only
  rw [hrow]
  simp

theorem nextInRow_west {a dstCol : Nat} (ha : a < c.numCores) (hcol : dstCol < a % c.meshCols) :
    nextInRow c dstCol a = some (a - 1) := by
  have hcores := h.cores_le
  have hle := Nat.mod_le a c.meshCols
  have hrow := (h.pred_div_mod (a := a) (by omega)).1
  have hnot : ¬ a % c.meshCols < dstCol := by omega
  have hword : u32 (a + 2 ^ 32 - 1) = a - 1 := by
    unfold u32
    omega
  unfold nextInRow
  rw [if_neg hnot, hword]
  dsimp only
  rw [hrow, if_neg (by omega)]

/-- A row whose core at the end is there is walked through. -/
theorem walk_row {a dstCol : Nat} (ha : a < c.numCores) (hdst : dstCol < c.meshCols)
    (hend : a / c.meshCols * c.meshCols + dstCol < c.numCores) :
    ∃ route, Route (Adj c) a route (a / c.meshCols * c.meshCols + dstCol) ∧
      route.length = tuAbsDiff (a % c.meshCols) dstCol ∧
      ∀ fuel, c.numCores < fuel → ∀ service links,
        walk c service (· % c.meshCols = dstCol) (nextInRow c dstCol) fuel a links =
          some (.ok (a / c.meshCols * c.meshCols + dstCol, chargeAll c service route links)) := by
  have hdone : ∀ b, b < c.numCores ∧ b / c.meshCols = a / c.meshCols →
      (decide (b % c.meshCols = dstCol) = true ↔ tuAbsDiff (b % c.meshCols) dstCol = 0) := by
    intro b hb
    rw [decide_eq_true_iff, tuAbsDiff_eq]
    omega
  have hnext : ∀ b, b < c.numCores ∧ b / c.meshCols = a / c.meshCols → tuAbsDiff (b % c.meshCols) dstCol ≠ 0 →
      ∃ b', nextInRow c dstCol b = some b' ∧ Adj c b b' ∧
        (b' < c.numCores ∧ b' / c.meshCols = a / c.meshCols) ∧
        tuAbsDiff (b' % c.meshCols) dstCol + 1 = tuAbsDiff (b % c.meshCols) dstCol := by
    rintro b ⟨hb, hrow⟩ hne
    have hdecomp := Nat.div_add_mod' b c.meshCols
    rw [hrow] at hdecomp
    rcases Nat.lt_trichotomy (b % c.meshCols) dstCol with hlt | heq | hgt
    · obtain ⟨hdiv, hmod⟩ := h.succ_div_mod (a := b) (by omega)
      refine ⟨b + 1, ?_, ?_, ⟨by omega, by rw [hdiv, hrow]⟩, ?_⟩
      · rw [h.nextInRow_east hb hdst hlt, if_neg (by omega)]
      · exact h.adj_iff.2 ⟨hb, by omega, .inr (.inr (.inr ⟨rfl, by omega⟩))⟩
      · rw [hmod, tuAbsDiff_eq, tuAbsDiff_eq]
        omega
    · rw [heq, tuAbsDiff_eq] at hne
      omega
    · obtain ⟨hdiv, hmod⟩ := h.pred_div_mod (a := b) (by omega)
      have hle := Nat.mod_le b c.meshCols
      refine ⟨b - 1, h.nextInRow_west hb hgt, ?_, ⟨by omega, by rw [hdiv, hrow]⟩, ?_⟩
      · exact h.adj_iff.2 ⟨hb, by omega, .inr (.inr (.inl ⟨by omega, by omega⟩))⟩
      · rw [hmod, tuAbsDiff_eq, tuAbsDiff_eq]
        omega
  obtain ⟨last, route, hroute, hlen, ⟨hlast, hrow⟩, hzero, hwalk⟩ := walk_of_ranking hdone hnext ⟨ha, rfl⟩
  have hcol : last % c.meshCols = dstCol := by simpa using (hdone last ⟨hlast, hrow⟩).2 hzero
  have hlast : last = a / c.meshCols * c.meshCols + dstCol := by
    have hdecomp := Nat.div_add_mod' last c.meshCols
    rw [hrow, hcol] at hdecomp
    exact hdecomp.symm
  subst hlast
  refine ⟨route, hroute, hlen, ?_⟩
  intro fuel hfuel
  have hle := Nat.mod_le a c.meshCols
  have hrank : tuAbsDiff (a % c.meshCols) dstCol ≤ c.numCores := by
    rw [tuAbsDiff_eq]
    omega
  exact hwalk fuel (by omega)

/-- A row that ends before the column is left with an error. -/
theorem walk_row_error {a dstCol : Nat} (ha : a < c.numCores) (hdst : dstCol < c.meshCols)
    (hend : c.numCores ≤ a / c.meshCols * c.meshCols + dstCol) {fuel : Nat} (hfuel : c.numCores < fuel)
    (service : Nat) (links : Nat → Nat) :
    ∃ links', walk c service (· % c.meshCols = dstCol) (nextInRow c dstCol) fuel a links = some (.error links') := by
  -- the core stays in its row, and so to the west of the column
  have hbefore : ∀ b, b < c.numCores ∧ b / c.meshCols = a / c.meshCols → b % c.meshCols < dstCol := by
    rintro b ⟨hb, hrow⟩
    have hdecomp := Nat.div_add_mod' b c.meshCols
    rw [hrow] at hdecomp
    omega
  refine @walk_error c _ _ (fun b => b < c.numCores ∧ b / c.meshCols = a / c.meshCols) (fun b => c.numCores - b)
    ?_ ?_ a ⟨ha, rfl⟩ fuel (by omega) service links
  · intro b hb
    have hlt := hbefore b hb
    rw [decide_eq_true_iff]
    omega
  · intro b b' hb hnext
    have hlt := hbefore b hb
    rw [h.nextInRow_east hb.1 hdst hlt] at hnext
    split at hnext
    · exact absurd hnext (by simp)
    · have heq := Option.some.inj hnext
      subst heq
      refine ⟨⟨by omega, ?_⟩, by omega⟩
      rw [(h.succ_div_mod (by omega)).1, hb.2]

/-! ### Along a column -/

theorem nextInColumn_south {a dstRow : Nat} (ha : a < c.numCores) (hrow : a / c.meshCols < dstRow) :
    nextInColumn c dstRow a = if a + c.meshCols ≥ c.numCores then none else some (a + c.meshCols) := by
  have hcores := h.cores_le
  have hcols := h.cols_le
  have hword : u32 (a + c.meshCols) = a + c.meshCols := u32_of_lt (by omega)
  unfold nextInColumn
  rw [if_pos hrow, hword]

theorem nextInColumn_north {a dstRow : Nat} (ha : a < c.numCores) (hrow : dstRow < a / c.meshCols) :
    c.meshCols ≤ a ∧ nextInColumn c dstRow a = some (a - c.meshCols) := by
  have hcores := h.cores_le
  have hle : c.meshCols ≤ a := (Nat.div_pos_iff.1 (by omega : 0 < a / c.meshCols)).2
  have hnot : ¬ a / c.meshCols < dstRow := by omega
  have hword : u32 (a + 2 ^ 32 - c.meshCols) = a - c.meshCols := by
    unfold u32
    omega
  refine ⟨hle, ?_⟩
  unfold nextInColumn
  rw [if_neg hnot, hword]
  dsimp only
  rw [if_neg (by omega)]

/-- A column whose core at the end is there is walked through. -/
theorem walk_column {a : Nat} (dstRow : Nat) (ha : a < c.numCores)
    (hend : dstRow * c.meshCols + a % c.meshCols < c.numCores) :
    ∃ route, Route (Adj c) a route (dstRow * c.meshCols + a % c.meshCols) ∧
      route.length = tuAbsDiff (a / c.meshCols) dstRow ∧
      ∀ fuel, c.numCores < fuel → ∀ service links,
        walk c service (· / c.meshCols = dstRow) (nextInColumn c dstRow) fuel a links =
          some (.ok (dstRow * c.meshCols + a % c.meshCols, chargeAll c service route links)) := by
  have hdone : ∀ b, b < c.numCores ∧ b % c.meshCols = a % c.meshCols →
      (decide (b / c.meshCols = dstRow) = true ↔ tuAbsDiff (b / c.meshCols) dstRow = 0) := by
    intro b hb
    rw [decide_eq_true_iff, tuAbsDiff_eq]
    omega
  have hnext : ∀ b, b < c.numCores ∧ b % c.meshCols = a % c.meshCols → tuAbsDiff (b / c.meshCols) dstRow ≠ 0 →
      ∃ b', nextInColumn c dstRow b = some b' ∧ Adj c b b' ∧
        (b' < c.numCores ∧ b' % c.meshCols = a % c.meshCols) ∧
        tuAbsDiff (b' / c.meshCols) dstRow + 1 = tuAbsDiff (b / c.meshCols) dstRow := by
    rintro b ⟨hb, hcol⟩ hne
    have hdecomp := Nat.div_add_mod' b c.meshCols
    rw [hcol] at hdecomp
    rcases Nat.lt_trichotomy (b / c.meshCols) dstRow with hlt | heq | hgt
    · have hdiv := Nat.add_div_right b h.cols_pos
      have hle : (b / c.meshCols + 1) * c.meshCols ≤ dstRow * c.meshCols := Nat.mul_le_mul_right _ hlt
      rw [Nat.succ_mul] at hle
      have hthere : b + c.meshCols < c.numCores := by omega
      refine ⟨b + c.meshCols, ?_, ?_, ⟨hthere, by rw [Nat.add_mod_right, hcol]⟩, ?_⟩
      · rw [h.nextInColumn_south hb hlt, if_neg (by omega)]
      · exact h.adj_iff.2 ⟨hb, hthere, .inr (.inl rfl)⟩
      · rw [hdiv, tuAbsDiff_eq, tuAbsDiff_eq]
        omega
    · rw [heq, tuAbsDiff_eq] at hne
      omega
    · obtain ⟨hle, hstep⟩ := h.nextInColumn_north hb hgt
      have hdiv := Nat.div_eq_sub_div h.cols_pos hle
      refine ⟨b - c.meshCols, hstep, ?_, ⟨by omega, by rw [← Nat.mod_eq_sub_mod hle, hcol]⟩, ?_⟩
      · exact h.adj_iff.2 ⟨hb, by omega, .inl (by omega)⟩
      · rw [tuAbsDiff_eq, tuAbsDiff_eq]
        omega
  obtain ⟨last, route, hroute, hlen, ⟨hlast, hcol⟩, hzero, hwalk⟩ := walk_of_ranking hdone hnext ⟨ha, rfl⟩
  have hrow : last / c.meshCols = dstRow := by simpa using (hdone last ⟨hlast, hcol⟩).2 hzero
  have hlast : last = dstRow * c.meshCols + a % c.meshCols := by
    have hdecomp := Nat.div_add_mod' last c.meshCols
    rw [hrow, hcol] at hdecomp
    exact hdecomp.symm
  subst hlast
  refine ⟨route, hroute, hlen, ?_⟩
  intro fuel hfuel
  have hsrc := Nat.div_le_self a c.meshCols
  have hdst : dstRow * 1 ≤ dstRow * c.meshCols := Nat.mul_le_mul_left _ h.cols_pos
  have hsub := Nat.sub_le dstRow (a / c.meshCols)
  have hrank : tuAbsDiff (a / c.meshCols) dstRow ≤ c.numCores := by
    rw [tuAbsDiff_eq]
    omega
  exact hwalk fuel (by omega)

/-- A column that ends before the row is left with an error. -/
theorem walk_column_error {a dstRow : Nat} (ha : a < c.numCores)
    (hend : c.numCores ≤ dstRow * c.meshCols + a % c.meshCols) {fuel : Nat} (hfuel : c.numCores < fuel)
    (service : Nat) (links : Nat → Nat) :
    ∃ links', walk c service (· / c.meshCols = dstRow) (nextInColumn c dstRow) fuel a links = some (.error links') := by
  -- the core stays in its column, and so to the north of the row
  have hbefore : ∀ b, b < c.numCores ∧ b % c.meshCols = a % c.meshCols → b / c.meshCols < dstRow := by
    rintro b ⟨hb, hcol⟩
    have hdecomp := Nat.div_add_mod' b c.meshCols
    rw [hcol] at hdecomp
    exact lt_of_not_ge fun hge => by
      have hle : dstRow * c.meshCols ≤ b / c.meshCols * c.meshCols := Nat.mul_le_mul_right _ hge
      omega
  refine @walk_error c _ _ (fun b => b < c.numCores ∧ b % c.meshCols = a % c.meshCols) (fun b => c.numCores - b)
    ?_ ?_ a ⟨ha, rfl⟩ fuel (by omega) service links
  · intro b hb
    have hlt := hbefore b hb
    rw [decide_eq_true_iff]
    omega
  · intro b b' hb hnext
    have hlt := hbefore b hb
    have hpos := h.cols_pos
    rw [h.nextInColumn_south hb.1 hlt] at hnext
    split at hnext
    · exact absurd hnext (by simp)
    · have heq := Option.some.inj hnext
      subst heq
      exact ⟨⟨by omega, by rw [Nat.add_mod_right, hb.2]⟩, by omega⟩

/-- The sum of the distances of the rows and of the columns falls by at most one along a link. -/
theorem potential_le {a b d : Nat} (hadj : Adj c a b) :
    tuAbsDiff (a / c.meshCols) (d / c.meshCols) + tuAbsDiff (a % c.meshCols) (d % c.meshCols) ≤
      tuAbsDiff (b / c.meshCols) (d / c.meshCols) + tuAbsDiff (b % c.meshCols) (d % c.meshCols) + 1 := by
  simp only [tuAbsDiff_eq]
  obtain ⟨-, -, rfl | rfl | ⟨rfl, hcol⟩ | ⟨rfl, hcol⟩⟩ := h.adj_iff.1 hadj
  · rw [Nat.add_div_right _ h.cols_pos, Nat.add_mod_right]
    omega
  · rw [Nat.add_div_right _ h.cols_pos, Nat.add_mod_right]
    omega
  · obtain ⟨hdiv, hmod⟩ := h.pred_div_mod hcol
    rw [Nat.add_sub_cancel] at hdiv hmod
    rw [hdiv, hmod]
    omega
  · obtain ⟨hdiv, hmod⟩ := h.succ_div_mod hcol
    rw [hdiv, hmod]
    omega

end MeshShape

end Tusim.Cluster
