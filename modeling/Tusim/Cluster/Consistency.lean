import Tusim.Cluster.Routing

/-!
# Distances, neighbours and routes agree

On a ring a message goes the shorter way round, and without links no message goes at all; both agree with the
neighbours for every pair of cores.  On a mesh they agree exactly where the router finds a core at its corner.
-/

namespace Tusim.Cluster

open Word Routes

variable {c : TuCluster}

/-- The hop distance is the distance over the neighbours, and a message is charged to that many links; or there is no
way at all, and the message is refused. -/
def RoutesAgree (c : TuCluster) (src dst : Nat) : Prop :=
  ∃ hops, tuClusterHopDistance c src dst = some hops ∧
    ((hops = uint32Max ∧ (∀ route, ¬ Route (Adj c) src route dst) ∧
        ∀ fuel, c.numCores < fuel → ∀ service links,
          addRouteService c fuel src dst service links = some (-1, links)) ∨
      (IsDistance (Adj c) src dst hops ∧
        ∃ route, Route (Adj c) src route dst ∧ route.length = hops ∧
          ∀ fuel, c.numCores < fuel → ∀ service links,
            addRouteService c fuel src dst service links = some (0, chargeAll c service route links)))

/-- A mesh has columns and a known routing order, and a core where the router turns. -/
def Routable (c : TuCluster) (src dst : Nat) : Prop :=
  c.topology = .mesh → c.meshCols ≠ 0 ∧
    (c.meshRoutingMode = tuIccMeshRouteXy ∧ src / c.meshCols * c.meshCols + dst % c.meshCols < c.numCores ∨
      c.meshRoutingMode = tuIccMeshRouteYx ∧ dst / c.meshCols * c.meshCols + src % c.meshCols < c.numCores)

/-! ### No links -/

theorem routesAgree_none (h : c.topology = .none) {src dst : Nat} (hsrc : src < c.numCores) (hdst : dst < c.numCores) :
    RoutesAgree c src dst := by
  have hadj : ∀ a b, ¬ Adj c a b := by
    rintro a b ⟨l, hl, hb⟩
    unfold tuClusterNeighbors at hl
    rw [h] at hl
    simp only [ite_self, Option.some.injEq] at hl
    rw [← hl] at hb
    exact absurd hb List.not_mem_nil
  unfold RoutesAgree tuClusterHopDistance addRouteService
  rw [if_neg (by omega), h]
  by_cases heq : src = dst
  · subst heq
    refine ⟨0, if_pos rfl, .inr ⟨⟨⟨[], .nil _, rfl⟩, fun _ _ => Nat.zero_le _⟩, [], .nil _, rfl, ?_⟩⟩
    intro fuel _ service links
    simp [chargeAll]
  · refine ⟨uint32Max, if_neg heq, .inl ⟨rfl, ?_, ?_⟩⟩
    · intro route hroute
      exact heq (hroute.eq_of_forall_not hadj)
    · intro fuel _ service links
      simp [heq]

/-! ### Rings -/

private theorem mod_of_lt_two_mul {x n : Nat} (h : x < 2 * n) : x % n = if x < n then x else x - n := by
  split
  · exact Nat.mod_eq_of_lt ‹_›
  · rw [Nat.mod_eq_sub_mod (by omega), Nat.mod_eq_of_lt (by omega)]

theorem ring_adj_iff (h : c.topology = .ring) {a b : Nat} :
    Adj c a b ↔ a < c.numCores ∧ b ≠ a ∧ (b = (a + c.numCores - 1) % c.numCores ∨ b = (a + 1) % c.numCores) := by
  unfold Adj tuClusterNeighbors
  by_cases ha : a ≥ c.numCores
  · rw [if_pos ha]
    constructor
    · rintro ⟨l, hl, hb⟩
      rw [← Option.some.inj hl] at hb
      exact absurd hb List.not_mem_nil
    · rintro ⟨hlt, -⟩
      omega
  · rw [if_neg ha, h]
    have hlt : a < c.numCores := by omega
    simp only [Option.some.injEq, exists_eq_left', List.mem_filter, List.mem_cons, List.not_mem_nil, or_false,
      decide_eq_true_iff, hlt, true_and]
    exact and_comm

/-- How far a core is from another one, clockwise. -/
def clockwiseTo (c : TuCluster) (dst a : Nat) : Nat := (dst + c.numCores - a) % c.numCores

/-- How far a core is from another one, counterclockwise. -/
def counterTo (c : TuCluster) (dst a : Nat) : Nat := (a + c.numCores - dst) % c.numCores

theorem clockwiseTo_eq {dst a : Nat} (hdst : dst < c.numCores) (ha : a < c.numCores) :
    clockwiseTo c dst a = if a ≤ dst then dst - a else dst + c.numCores - a := by
  unfold clockwiseTo
  rw [mod_of_lt_two_mul (by omega)]
  split <;> split <;> omega

theorem counterTo_eq {dst a : Nat} (hdst : dst < c.numCores) (ha : a < c.numCores) :
    counterTo c dst a = if dst ≤ a then a - dst else a + c.numCores - dst := by
  unfold counterTo
  rw [mod_of_lt_two_mul (by omega)]
  split <;> split <;> omega

theorem next_eq {a : Nat} (ha : a < c.numCores) :
    (a + 1) % c.numCores = if a + 1 = c.numCores then 0 else a + 1 := by
  rw [mod_of_lt_two_mul (by omega)]
  split <;> split <;> omega

theorem prev_eq {a : Nat} (ha : a < c.numCores) :
    (a + c.numCores - 1) % c.numCores = if a = 0 then c.numCores - 1 else a - 1 := by
  rw [mod_of_lt_two_mul (by omega)]
  split <;> split <;> omega

/-- The shorter way round falls by at most one along a link. -/
theorem ring_potential_le (h : c.topology = .ring) {dst a b : Nat} (hdst : dst < c.numCores) (hadj : Adj c a b) :
    min (clockwiseTo c dst a) (counterTo c dst a) ≤ min (clockwiseTo c dst b) (counterTo c dst b) + 1 := by
  obtain ⟨ha, -, hb⟩ := (ring_adj_iff h).1 hadj
  rw [next_eq ha, prev_eq ha] at hb
  have hlt : b < c.numCores := by
    rcases hb with rfl | rfl <;> split <;> omega
  rw [clockwiseTo_eq hdst ha, counterTo_eq hdst ha, clockwiseTo_eq hdst hlt, counterTo_eq hdst hlt]
  rcases hb with hb | hb <;> split at hb <;> (repeat' split) <;> omega

theorem walk_clockwise (h : c.topology = .ring) {src dst : Nat} (hsrc : src < c.numCores) (hdst : dst < c.numCores) :
    ∃ route, Route (Adj c) src route dst ∧ route.length = clockwiseTo c dst src ∧
      ∀ fuel, c.numCores < fuel → ∀ service links,
        walk c service (· = dst) (fun cur => some ((cur + 1) % c.numCores)) fuel src links =
          some (.ok (dst, chargeAll c service route links)) := by
  have hdone : ∀ a, a < c.numCores → (decide (a = dst) = true ↔ clockwiseTo c dst a = 0) := by
    intro a ha
    rw [decide_eq_true_iff, clockwiseTo_eq hdst ha]
    split <;> omega
  have hnext : ∀ a, a < c.numCores → clockwiseTo c dst a ≠ 0 →
      ∃ b, some ((a + 1) % c.numCores) = some b ∧ Adj c a b ∧ b < c.numCores ∧
        clockwiseTo c dst b + 1 = clockwiseTo c dst a := by
    intro a ha hne
    have hlt : (a + 1) % c.numCores < c.numCores := Nat.mod_lt _ (by omega)
    rw [clockwiseTo_eq hdst ha] at hne
    refine ⟨_, rfl, (ring_adj_iff h).2 ⟨ha, ?_, .inr rfl⟩, hlt, ?_⟩
    · rw [next_eq ha]
      split at hne <;> split <;> omega
    · rw [clockwiseTo_eq hdst hlt, clockwiseTo_eq hdst ha, next_eq ha]
      split at hne <;> (repeat' split) <;> omega
  obtain ⟨last, route, hroute, hlen, hlast, hzero, hwalk⟩ := walk_of_ranking hdone hnext hsrc
  obtain rfl : last = dst := by simpa using (hdone last hlast).2 hzero
  refine ⟨route, hroute, hlen, fun fuel hfuel => hwalk fuel ?_⟩
  have hlt : clockwiseTo c last src < c.numCores := Nat.mod_lt _ (by omega)
  omega

theorem walk_counter (h : c.topology = .ring) {src dst : Nat} (hsrc : src < c.numCores) (hdst : dst < c.numCores) :
    ∃ route, Route (Adj c) src route dst ∧ route.length = counterTo c dst src ∧
      ∀ fuel, c.numCores < fuel → ∀ service links,
        walk c service (· = dst) (fun cur => some ((cur + c.numCores - 1) % c.numCores)) fuel src links =
          some (.ok (dst, chargeAll c service route links)) := by
  have hdone : ∀ a, a < c.numCores → (decide (a = dst) = true ↔ counterTo c dst a = 0) := by
    intro a ha
    rw [decide_eq_true_iff, counterTo_eq hdst ha]
    split <;> omega
  have hnext : ∀ a, a < c.numCores → counterTo c dst a ≠ 0 →
      ∃ b, some ((a + c.numCores - 1) % c.numCores) = some b ∧ Adj c a b ∧ b < c.numCores ∧
        counterTo c dst b + 1 = counterTo c dst a := by
    intro a ha hne
    have hlt : (a + c.numCores - 1) % c.numCores < c.numCores := Nat.mod_lt _ (by omega)
    rw [counterTo_eq hdst ha] at hne
    refine ⟨_, rfl, (ring_adj_iff h).2 ⟨ha, ?_, .inl rfl⟩, hlt, ?_⟩
    · rw [prev_eq ha]
      split at hne <;> split <;> omega
    · rw [counterTo_eq hdst hlt, counterTo_eq hdst ha, prev_eq ha]
      split at hne <;> (repeat' split) <;> omega
  obtain ⟨last, route, hroute, hlen, hlast, hzero, hwalk⟩ := walk_of_ranking hdone hnext hsrc
  obtain rfl : last = dst := by simpa using (hdone last hlast).2 hzero
  refine ⟨route, hroute, hlen, fun fuel hfuel => hwalk fuel ?_⟩
  have hlt : counterTo c last src < c.numCores := Nat.mod_lt _ (by omega)
  omega

theorem routesAgree_ring (h : c.topology = .ring) {src dst : Nat} (hsrc : src < c.numCores) (hdst : dst < c.numCores) :
    RoutesAgree c src dst := by
  -- the router takes the clockwise way if it is not the longer one
  have hroute : ∃ route, Route (Adj c) src route dst ∧
      route.length = min (clockwiseTo c dst src) (counterTo c dst src) ∧
      ∀ fuel, c.numCores < fuel → ∀ service links,
        addRouteService c fuel src dst service links = some (0, chargeAll c service route links) := by
    unfold addRouteService
    rw [h]
    by_cases hway : clockwiseTo c dst src ≤ counterTo c dst src
    · obtain ⟨route, hroute, hlen, hwalk⟩ := walk_clockwise h hsrc hdst
      refine ⟨route, hroute, by rw [hlen, Nat.min_eq_left hway], ?_⟩
      intro fuel hfuel service links
      have hwalk := hwalk fuel hfuel service links
      unfold clockwiseTo counterTo at hway
      simp only [hway, if_true, hwalk, Option.map_some]
    · obtain ⟨route, hroute, hlen, hwalk⟩ := walk_counter h hsrc hdst
      refine ⟨route, hroute, by rw [hlen, Nat.min_eq_right (by omega)], ?_⟩
      intro fuel hfuel service links
      have hwalk := hwalk fuel hfuel service links
      unfold clockwiseTo counterTo at hway
      simp only [hway, if_false, hwalk, Option.map_some]
  have hhops : tuClusterHopDistance c src dst = some (min (clockwiseTo c dst src) (counterTo c dst src)) := by
    unfold tuClusterHopDistance
    rw [if_neg (by omega)]
    by_cases heq : src = dst
    · subst heq
      rw [if_pos rfl, clockwiseTo_eq hsrc hsrc, counterTo_eq hsrc hsrc]
      simp
    · rw [if_neg heq, h]
      dsimp only
      rw [Nat.min_def]
      unfold clockwiseTo counterTo
      congr 1
      split <;> split <;> omega
  obtain ⟨route, hpath, hlen, hcharge⟩ := hroute
  have hzero : min (clockwiseTo c dst dst) (counterTo c dst dst) = 0 := by
    rw [clockwiseTo_eq hdst hdst, counterTo_eq hdst hdst]
    simp
  refine ⟨_, hhops, .inr ⟨?_, route, hpath, hlen, hcharge⟩⟩
  exact isDistance_of_potential (f := fun a => min (clockwiseTo c dst a) (counterTo c dst a))
    (fun a b hadj => ring_potential_le h hdst hadj) hzero hpath hlen

/-! ### Meshes -/

namespace MeshShape

variable (h : MeshShape c)

include h

theorem corner_div_mod (a : Nat) {b : Nat} (hb : b < c.meshCols) :
    (a * c.meshCols + b) / c.meshCols = a ∧ (a * c.meshCols + b) % c.meshCols = b := by
  rw [Nat.mul_comm, Nat.mul_add_div h.cols_pos, Nat.div_eq_of_lt hb, Nat.mul_add_mod, Nat.mod_eq_of_lt hb]
  exact ⟨Nat.add_zero _, rfl⟩

theorem hopDistance_eq {src dst : Nat} (hsrc : src < c.numCores) (hdst : dst < c.numCores) :
    tuClusterHopDistance c src dst =
      some (tuAbsDiff (src / c.meshCols) (dst / c.meshCols) + tuAbsDiff (src % c.meshCols) (dst % c.meshCols)) := by
  have hpos := h.cols_pos
  have hsrcRow := h.row_lt hsrc
  have hdstRow := h.row_lt hdst
  unfold tuClusterHopDistance
  rw [if_neg (by omega)]
  by_cases heq : src = dst
  · subst heq
    rw [if_pos rfl, tuAbsDiff_eq, tuAbsDiff_eq]
    simp
  · rw [if_neg heq, h.topology]
    dsimp only
    rw [if_neg (by omega), if_neg (by omega)]

theorem addRouteService_xy (hmode : c.meshRoutingMode = tuIccMeshRouteXy) (fuel src dst service : Nat)
    (links : Nat → Nat) :
    addRouteService c fuel src dst service links =
      (walk c service (· % c.meshCols = dst % c.meshCols) (nextInRow c (dst % c.meshCols)) fuel src links).bind fun
        | .error links => some (-1, links)
        | .ok (cur, links) =>
          (walk c service (· / c.meshCols = dst / c.meshCols) (nextInColumn c (dst / c.meshCols)) fuel cur links).map fun
            | .ok (_, links) => (0, links)
            | .error links => (-1, links) := by
  have hpos := h.cols_pos
  unfold addRouteService
  rw [h.topology]
  dsimp only
  rw [if_neg (by omega), if_neg (fun hcon => hcon.1 hmode), if_pos hmode, if_pos hmode] <;> rfl

theorem addRouteService_yx (hmode : c.meshRoutingMode = tuIccMeshRouteYx) (fuel src dst service : Nat)
    (links : Nat → Nat) :
    addRouteService c fuel src dst service links =
      (walk c service (· / c.meshCols = dst / c.meshCols) (nextInColumn c (dst / c.meshCols)) fuel src links).bind fun
        | .error links => some (-1, links)
        | .ok (cur, links) =>
          (walk c service (· % c.meshCols = dst % c.meshCols) (nextInRow c (dst % c.meshCols)) fuel cur links).map fun
            | .ok (_, links) => (0, links)
            | .error links => (-1, links) := by
  have hpos := h.cols_pos
  have hnot : ¬ c.meshRoutingMode = tuIccMeshRouteXy := by
    rw [hmode]
    decide
  unfold addRouteService
  rw [h.topology]
  dsimp only
  rw [if_neg (by omega), if_neg (fun hcon => hcon.2 hmode), if_neg hnot, if_neg hnot] <;> rfl

/-- With a core at the corner the router finds a shortest way. -/
theorem charged_of_routable {src dst : Nat} (hsrc : src < c.numCores) (hdst : dst < c.numCores)
    (hroutable : Routable c src dst) :
    ∃ route, Route (Adj c) src route dst ∧
      route.length =
        tuAbsDiff (src / c.meshCols) (dst / c.meshCols) + tuAbsDiff (src % c.meshCols) (dst % c.meshCols) ∧
      ∀ fuel, c.numCores < fuel → ∀ service links,
        addRouteService c fuel src dst service links = some (0, chargeAll c service route links) := by
  have hdstEq := Nat.div_add_mod' dst c.meshCols
  have hsrcCol : src % c.meshCols < c.meshCols := Nat.mod_lt _ h.cols_pos
  have hdstCol : dst % c.meshCols < c.meshCols := Nat.mod_lt _ h.cols_pos
  rcases (hroutable h.topology).2 with ⟨hmode, hcorner⟩ | ⟨hmode, hcorner⟩
  · obtain ⟨hdiv, hmod⟩ := h.corner_div_mod (src / c.meshCols) hdstCol
    obtain ⟨first, hfirst, hfirstLen, hfirstWalk⟩ := h.walk_row hsrc hdstCol hcorner
    obtain ⟨second, hsecond, hsecondLen, hsecondWalk⟩ :=
      h.walk_column (dst / c.meshCols) hcorner (by rw [hmod, hdstEq]; exact hdst)
    rw [hmod, hdstEq] at hsecond hsecondWalk
    rw [hdiv] at hsecondLen
    refine ⟨first ++ second, hfirst.append hsecond, by rw [List.length_append, hfirstLen, hsecondLen, Nat.add_comm], ?_⟩
    intro fuel hfuel service links
    rw [h.addRouteService_xy hmode, hfirstWalk fuel hfuel, Option.bind_some]
    dsimp only
    rw [hsecondWalk fuel hfuel, Option.map_some, chargeAll_append]
  · obtain ⟨hdiv, hmod⟩ := h.corner_div_mod (dst / c.meshCols) hsrcCol
    obtain ⟨first, hfirst, hfirstLen, hfirstWalk⟩ := h.walk_column _ hsrc hcorner
    obtain ⟨second, hsecond, hsecondLen, hsecondWalk⟩ :=
      h.walk_row hcorner hdstCol (by rw [hdiv, hdstEq]; exact hdst)
    rw [hdiv, hdstEq] at hsecond hsecondWalk
    rw [hmod] at hsecondLen
    refine ⟨first ++ second, hfirst.append hsecond, by rw [List.length_append, hfirstLen, hsecondLen], ?_⟩
    intro fuel hfuel service links
    rw [h.addRouteService_yx hmode, hfirstWalk fuel hfuel, Option.bind_some]
    dsimp only
    rw [hsecondWalk fuel hfuel, Option.map_some, chargeAll_append]

/-- Without a core at the corner the message is refused. -/
theorem refused_of_not_routable {src dst : Nat} (hsrc : src < c.numCores) (hroutable : ¬ Routable c src dst)
    {fuel : Nat} (hfuel : c.numCores < fuel) (service : Nat) (links : Nat → Nat) :
    ∃ links', addRouteService c fuel src dst service links = some (-1, links') := by
  have hpos := h.cols_pos
  have hdstCol : dst % c.meshCols < c.meshCols := Nat.mod_lt _ h.cols_pos
  have hcorner : c.meshRoutingMode = tuIccMeshRouteXy →
      c.numCores ≤ src / c.meshCols * c.meshCols + dst % c.meshCols := by
    intro hmode
    exact le_of_not_gt fun hlt => hroutable fun _ => ⟨by omega, .inl ⟨hmode, hlt⟩⟩
  have hcorner' : c.meshRoutingMode = tuIccMeshRouteYx →
      c.numCores ≤ dst / c.meshCols * c.meshCols + src % c.meshCols := by
    intro hmode
    exact le_of_not_gt fun hlt => hroutable fun _ => ⟨by omega, .inr ⟨hmode, hlt⟩⟩
  by_cases hxy : c.meshRoutingMode = tuIccMeshRouteXy
  · obtain ⟨links', hwalk⟩ := h.walk_row_error hsrc hdstCol (hcorner hxy) hfuel service links
    exact ⟨links', by rw [h.addRouteService_xy hxy, hwalk]; rfl⟩
  by_cases hyx : c.meshRoutingMode = tuIccMeshRouteYx
  · obtain ⟨links', hwalk⟩ := h.walk_column_error hsrc (hcorner' hyx) hfuel service links
    exact ⟨links', by rw [h.addRouteService_yx hyx, hwalk]; rfl⟩
  · refine ⟨links, ?_⟩
    unfold addRouteService
    rw [h.topology]
    dsimp only
    rw [if_neg (by omega), if_pos ⟨hxy, hyx⟩]

theorem routesAgree_iff {src dst : Nat} (hsrc : src < c.numCores) (hdst : dst < c.numCores) :
    RoutesAgree c src dst ↔ Routable c src dst := by
  constructor
  · rintro ⟨hops, hhops, hagree⟩
    apply Classical.byContradiction
    intro hnot
    obtain ⟨links', hrefused⟩ := h.refused_of_not_routable hsrc hnot (Nat.lt_succ_self _) 0 fun _ => 0
    rcases hagree with ⟨rfl, -, -⟩ | ⟨-, route, -, -, hcharged⟩
    · -- the distance within a mesh is small
      rw [h.hopDistance_eq hsrc hdst] at hhops
      have hhops := Option.some.inj hhops
      have hcores := h.cores_le
      have hcols := h.cols_le
      have hsrcRow := Nat.div_le_self src c.meshCols
      have hdstRow := Nat.div_le_self dst c.meshCols
      have hsrcCol := Nat.mod_lt src h.cols_pos
      have hdstCol := Nat.mod_lt dst h.cols_pos
      rw [tuAbsDiff_eq, tuAbsDiff_eq] at hhops
      generalize src / c.meshCols = srcRow at hhops hsrcRow
      generalize dst / c.meshCols = dstRow at hhops hdstRow
      unfold uint32Max at hhops
      omega
    · rw [hcharged _ (Nat.lt_succ_self _)] at hrefused
      simp at hrefused
  · intro hroutable
    obtain ⟨route, hroute, hlen, hcharged⟩ := h.charged_of_routable hsrc hdst hroutable
    refine ⟨_, h.hopDistance_eq hsrc hdst, .inr ⟨?_, route, hroute, hlen, hcharged⟩⟩
    refine isDistance_of_potential (f := fun a =>
      tuAbsDiff (a / c.meshCols) (dst / c.meshCols) + tuAbsDiff (a % c.meshCols) (dst % c.meshCols))
      (fun a b hadj => h.potential_le hadj) ?_ hroute hlen
    rw [tuAbsDiff_eq, tuAbsDiff_eq]
    omega

end MeshShape

/-- What creating a cluster guarantees: no columns at all, or a mesh that its cores fit into. -/
theorem meshShape_of_create {numCores : UInt32} {topology : TuTopology} {meshRows : UInt32} {mode : Int}
    (h : tuClusterCreate numCores topology meshRows mode = some c) (hmesh : c.topology = .mesh)
    (hcols : c.meshCols ≠ 0) : MeshShape c := by
  unfold tuClusterCreate at h
  split at h
  · exact absurd h (by simp)
  rename_i hcount
  split at h
  · exact absurd h (by simp)
  rename_i hrows
  have hc := Option.some.inj h
  subst hc
  dsimp only at hmesh hcols
  subst hmesh
  rw [if_pos rfl] at hcols
  have hn : numCores ≠ 0 := fun hz => hcount (.inl hz)
  have hle : ¬ numCores > 256 := fun hgt => hcount (.inr hgt)
  have hr : meshRows ≠ 0 := fun hz => hrows ⟨rfl, hz⟩
  have hn' : numCores.toNat ≠ 0 := fun hz => hn (UInt32.toNat.inj hz)
  have hr' : meshRows.toNat ≠ 0 := fun hz => hr (UInt32.toNat.inj hz)
  have hle' : numCores.toNat ≤ 256 := by
    rw [gt_iff_lt, UInt32.lt_iff_toNat_lt] at hle
    exact not_lt.1 hle
  have hpos : 0 < (numCores + meshRows - 1).toNat / meshRows.toNat := by
    rw [← UInt32.toNat_div]
    exact Nat.pos_of_ne_zero hcols
  -- a wrapped sum is below the number of rows
  have hsum : (numCores + meshRows - 1).toNat = numCores.toNat + meshRows.toNat - 1 := by
    have hge := (Nat.div_pos_iff.1 hpos).2
    have hrows := meshRows.toNat_lt
    rw [UInt32.toNat_sub, UInt32.toNat_add] at hge ⊢
    have hone : (1 : UInt32).toNat = 1 := rfl
    rw [hone] at hge ⊢
    omega
  have hcolsEq : ((numCores + meshRows - 1) / meshRows).toNat =
      (numCores.toNat + meshRows.toNat - 1) / meshRows.toNat := by rw [UInt32.toNat_div, hsum]
  have hrowsPos : 0 < meshRows.toNat := Nat.pos_of_ne_zero hr'
  rw [hsum] at hpos
  refine ⟨rfl, ?_, ?_, hle', ?_⟩
  · dsimp only
    rw [if_pos rfl, hcolsEq]
    exact hpos
  · dsimp only
    rw [if_pos rfl, hcolsEq]
    have hprod : numCores.toNat * 1 ≤ numCores.toNat * meshRows.toNat := Nat.mul_le_mul_left _ hrowsPos
    have hle : (numCores.toNat + meshRows.toNat - 1) / meshRows.toNat ≤ numCores.toNat := by
      refine Nat.div_le_of_le_mul ?_
      obtain ⟨n, hn⟩ := Nat.exists_eq_succ_of_ne_zero hn'
      obtain ⟨r, hr⟩ := Nat.exists_eq_succ_of_ne_zero hr'
      rw [hn, hr, Nat.succ_mul, Nat.mul_succ]
      omega
    omega
  · dsimp only
    rw [if_pos rfl, if_pos rfl, hcolsEq]
    have hdecomp := Nat.div_add_mod (numCores.toNat + meshRows.toNat - 1) meshRows.toNat
    have hlt := Nat.mod_lt (numCores.toNat + meshRows.toNat - 1) hrowsPos
    omega

/-- For every cluster that can be created and every pair of its cores, distance, neighbours and route agree exactly if
the router finds a core where it turns. -/
theorem routesAgree_iff_routable {numCores : UInt32} {topology : TuTopology} {meshRows : UInt32} {mode : Int}
    (h : tuClusterCreate numCores topology meshRows mode = some c) {src dst : Nat} (hsrc : src < c.numCores)
    (hdst : dst < c.numCores) : RoutesAgree c src dst ↔ Routable c src dst := by
  cases htop : c.topology with
  | none =>
    have hroutable : Routable c src dst := fun hmesh => absurd (htop.symm.trans hmesh) (by decide)
    exact iff_of_true (routesAgree_none htop hsrc hdst) hroutable
  | ring =>
    have hroutable : Routable c src dst := fun hmesh => absurd (htop.symm.trans hmesh) (by decide)
    exact iff_of_true (routesAgree_ring htop hsrc hdst) hroutable
  | mesh =>
    by_cases hcols : c.meshCols = 0
    · refine iff_of_false ?_ fun hroutable => (hroutable htop).1 hcols
      -- the division stops the program
      rintro ⟨hops, hhops, ⟨-, -, hcharge⟩ | ⟨-, route, -, -, hcharge⟩⟩
      all_goals
        have hcharge := hcharge _ (Nat.lt_succ_self _) 0 fun _ => 0
        unfold addRouteService at hcharge
        rw [htop] at hcharge
        dsimp only at hcharge
        rw [if_pos hcols] at hcharge
        exact absurd hcharge (by simp)
    · exact (meshShape_of_create h htop hcols).routesAgree_iff hsrc hdst

/-- Five cores in two rows: from the first core of the full row to the last core of the partial one. -/
theorem routesAgree_iff_routable_five :
    RoutesAgree (TuCluster.mk 5 .mesh 2 3 0) 0 4 ↔ Routable (TuCluster.mk 5 .mesh 2 3 0) 0 4 :=
  routesAgree_iff_routable (show tuClusterCreate 5 .mesh 2 tuIccMeshRouteXy = _ by decide) (by decide) (by decide)

/-- From the partial last row of five cores to the last column there is no way along the row. -/
theorem not_routesAgree :
    tuClusterCreate 5 .mesh 2 tuIccMeshRouteXy = some (TuCluster.mk 5 .mesh 2 3 0) ∧
      tuClusterHopDistance (TuCluster.mk 5 .mesh 2 3 0) 3 2 = some 3 ∧
      (addRouteService (TuCluster.mk 5 .mesh 2 3 0) 6 3 2 1 fun _ => 0).map Prod.fst = some (-1) ∧
      ¬ RoutesAgree (TuCluster.mk 5 .mesh 2 3 0) 3 2 := by
  have hhops : tuClusterHopDistance (TuCluster.mk 5 .mesh 2 3 0) 3 2 = some 3 := by decide
  have hrefused : (addRouteService (TuCluster.mk 5 .mesh 2 3 0) 6 3 2 1 fun _ => 0).map Prod.fst = some (-1) := by decide
  refine ⟨by decide, hhops, hrefused, ?_⟩
  rintro ⟨hops, hsome, ⟨hmax, -, -⟩ | ⟨-, route, -, -, hcharge⟩⟩
  · rw [hhops, hmax] at hsome
    exact absurd hsome (by decide)
  · rw [hcharge 6 (by decide), Option.map_some] at hrefused
    exact absurd (Option.some.inj hrefused) (by simp)

end Tusim.Cluster
