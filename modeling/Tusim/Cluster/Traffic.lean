import Tusim.Cluster.Consistency
import Tusim.Lib.Choosing
import Mathlib.Algebra.BigOperators.Group.Finset.Piecewise
import Mathlib.Algebra.BigOperators.Ring.Finset
import Mathlib.Data.List.Nodup

/-!
# Traffic estimates

`tu_cluster_estimate_traffic_cycles`: messages that are in flight together charge the links of their routes with their
service, and the busiest link bounds the time they take.  The estimate of the source adds its two parts with 64 bits;
`trafficBound` is the sum itself.
-/

namespace Tusim.Cluster

open Word

/-- `TU_ICC_CONTENTION_IDEAL_PARALLEL` -/
def tuIccContentionIdealParallel : Int := 0

/-- `TU_ICC_CONTENTION_SHARED_LINK` -/
def tuIccContentionSharedLink : Int := 1

/-- `tu_cluster_t` with the field that only the traffic estimate reads. -/
structure TuTrafficCluster extends TuClusterState where
  contentionMode : Int

/-- `tu_icc_traffic_stats_t` -/
structure TuIccTrafficStats where
  isolatedCycles : Nat := 0
  estimatedCycles : Nat := 0
  bottleneckLinkCycles : Nat := 0
  bottleneckSrc : Nat := uint32Max
  bottleneckDst : Nat := uint32Max
  deriving DecidableEq, Repr

/-- What the loop over the messages keeps. -/
structure TrafficState where
  isolatedCycles : Nat := 0
  maxRouteCycles : Nat := 0
  links : Nat → Nat := fun _ => 0

variable (s : TuTrafficCluster)

/-- The service of a message on each of its links; `none` for a division by a link of width zero. -/
def serviceOf (m : TuIccMessage) : Option Nat :=
  if s.switchingMode ≠ tuIccSwitchLegacyHopOnly ∧ m.sizeBytes ≠ 0 then
    if s.linkBytesPerCycle = 0 then none
    else some ((m.sizeBytes.toNat + s.linkBytesPerCycle.toNat - 1) / s.linkBytesPerCycle.toNat)
  else some 0

/-- One turn of the loop over the messages; `.error` where the source returns `-1`. -/
def trafficStep (fuel : Nat) (t : TrafficState) (m : TuIccMessage) : Option (Except TrafficState TrafficState) :=
  let src := m.srcCoreId.toNat
  let dst := m.dstCoreId.toNat
  (tuClusterEstimateTransferCycles s.toTuClusterState src dst m.sizeBytes.toNat).bind fun isolated =>
    if isolated = uint64Max then some (.error t)
    else
      let t := { t with isolatedCycles := if isolated > t.isolatedCycles then isolated else t.isolatedCycles }
      (tuClusterHopDistance s.toTuCluster src dst).bind fun hops =>
        let route := u64 (hops * s.hopLatency.toNat)
        let t := { t with maxRouteCycles := if route > t.maxRouteCycles then route else t.maxRouteCycles }
        (serviceOf s m).bind fun service =>
          (addRouteService s.toTuCluster fuel src dst service t.links).map fun
            | (rc, links) => if rc ≠ 0 then .error { t with links := links } else .ok { t with links := links }

/-- The loop over the messages. -/
def trafficLoop (fuel : Nat) : List TuIccMessage → TrafficState → Option (Except TrafficState TrafficState)
  | [], t => some (.ok t)
  | m :: messages, t => (trafficStep s fuel t m).bind fun
    | .error t => some (.error t)
    | .ok t => trafficLoop fuel messages t

/-- The places of the loops over the links, in order. -/
def linkPlaces (n : Nat) : List (Nat × Nat) :=
  (List.range n).flatMap fun src => (List.range n).map fun dst => (src, dst)

/-- The busiest link, and the first of its kind. -/
def busiest (n : Nat) (links : Nat → Nat) : Nat × Nat × Nat :=
  (linkPlaces n).foldl (fun best p =>
    if links (p.1 * n + p.2) > best.1 then (links (p.1 * n + p.2), p.1, p.2) else best) (0, uint32Max, uint32Max)

/-- The statistics once the messages have charged the links. -/
def trafficStats (t : TrafficState) : TuIccTrafficStats :=
  let bottleneck := busiest s.numCores t.links
  { isolatedCycles := t.isolatedCycles
    estimatedCycles :=
      if s.contentionMode = tuIccContentionSharedLink then
        let sharedBound := u64 (bottleneck.1 + t.maxRouteCycles)
        if sharedBound > t.isolatedCycles then sharedBound else t.isolatedCycles
      else t.isolatedCycles
    bottleneckLinkCycles := bottleneck.1
    bottleneckSrc := bottleneck.2.1
    bottleneckDst := bottleneck.2.2 }

/-- `tu_cluster_estimate_traffic_cycles`: what it returns and the statistics it leaves; the table of links can be
allocated, and `fuel` bounds the tests of each loop of a route. -/
def tuClusterEstimateTrafficCycles (fuel : Nat) (messages : List TuIccMessage) : Option (Int × TuIccTrafficStats) :=
  if messages = [] then some (0, {})
  else
    (trafficLoop s fuel messages {}).map fun
      | .error t => (-1, { isolatedCycles := t.isolatedCycles })
      | .ok t =>
        if s.contentionMode ≠ tuIccContentionSharedLink ∧ s.contentionMode ≠ tuIccContentionIdealParallel then
          (-1, trafficStats s t)
        else (0, trafficStats s t)

/-! ### What the estimate stands for -/

/-- The links of the cluster a message goes over: `1` for a link on its route, `0` for another. -/
def crosses (m : TuIccMessage) : Nat → Nat :=
  (addRouteService s.toTuCluster (s.numCores + 1) m.srcCoreId.toNat m.dstCoreId.toNat 1 fun _ => 0).elim (fun _ => 0)
    Prod.snd

/-- The number of links between the cores of a message. -/
def hopsOf (m : TuIccMessage) : Nat :=
  (tuClusterHopDistance s.toTuCluster m.srcCoreId.toNat m.dstCoreId.toNat).getD 0

/-- The cycles of a message that has the links for itself. -/
def isolatedOf (m : TuIccMessage) : Nat :=
  (tuClusterEstimateTransferCycles s.toTuClusterState m.srcCoreId.toNat m.dstCoreId.toNat m.sizeBytes.toNat).getD 0

/-- The services of the messages that go over a link. -/
def loadOf (messages : List TuIccMessage) (k : Nat) : Nat :=
  (messages.map fun m => (serviceOf s m).getD 0 * crosses s m k).sum

/-- The longest way of a head over its links. -/
def longestRoute (messages : List TuIccMessage) : Nat :=
  (messages.map fun m => hopsOf s m * s.hopLatency.toNat).foldr max 0

/-- The longest time of a message that has the links for itself. -/
def longestIsolated (messages : List TuIccMessage) : Nat := (messages.map (isolatedOf s)).foldr max 0

/-- The load of the busiest link and the longest route together, in unbounded integers. -/
def trafficBound (messages : List TuIccMessage) : Nat :=
  (busiest s.numCores (loadOf s messages)).1 + longestRoute s messages

end Tusim.Cluster

/-!
### Laws of the traffic estimate

A message of an accepted list goes over a shortest route, so it charges a link once or not at all (`Accepts`), and no
load of a list of messages wraps (`trafficLoop_ok`).  So the loop leaves what `loadOf`, `longestIsolated` and
`longestRoute` say, whatever the order.  Only the sum of the busiest link and the longest route can wrap
(`estimated_le_iff`).
-/

namespace Tusim.Cluster

open Word Routes

variable {s : TuTrafficCluster}

/-- The loop goes on after the message. -/
structure Accepts (s : TuTrafficCluster) (m : TuIccMessage) : Prop where
  hops : tuClusterHopDistance s.toTuCluster m.srcCoreId.toNat m.dstCoreId.toNat = some (hopsOf s m)
  hops_le : hopsOf s m ≤ 510
  isolated : tuClusterEstimateTransferCycles s.toTuClusterState m.srcCoreId.toNat m.dstCoreId.toNat
    m.sizeBytes.toNat = some (isolatedOf s m)
  isolated_ne : isolatedOf s m ≠ uint64Max
  service : serviceOf s m = some ((serviceOf s m).getD 0)
  way : ∃ route, Route (Adj s.toTuCluster) m.srcCoreId.toNat route m.dstCoreId.toNat ∧
    (∀ other, Route (Adj s.toTuCluster) m.srcCoreId.toNat other m.dstCoreId.toNat → route.length ≤ other.length) ∧
    route.length = hopsOf s m ∧
    ∀ fuel, s.numCores < fuel → ∀ service links,
      addRouteService s.toTuCluster fuel m.srcCoreId.toNat m.dstCoreId.toNat service links =
        some (0, chargeAll s.toTuCluster service route links)

/-! ### Services -/

theorem serviceOf_le (m : TuIccMessage) : (serviceOf s m).getD 0 ≤ 2 ^ 32 - 1 := by
  unfold serviceOf
  split
  · split
    · exact Nat.zero_le _
    · rename_i hwidth
      have hpos := toNat_pos hwidth
      have hsize := m.sizeBytes.toNat_lt
      show (m.sizeBytes.toNat + s.linkBytesPerCycle.toNat - 1) / s.linkBytesPerCycle.toNat ≤ _
      refine Nat.le_trans ?_ (show m.sizeBytes.toNat ≤ _ by omega)
      rcases Nat.eq_zero_or_pos m.sizeBytes.toNat with hzero | hsome
      · rw [hzero, Nat.zero_add, Nat.div_eq_of_lt (by omega)]
      · refine Nat.div_le_of_le_mul ?_
        obtain ⟨n, hn⟩ := Nat.exists_eq_succ_of_ne_zero (Nat.ne_of_gt hsome)
        obtain ⟨w, hw⟩ := Nat.exists_eq_succ_of_ne_zero (Nat.ne_of_gt hpos)
        rw [hn, hw, Nat.succ_mul, Nat.mul_succ]
        omega
  · exact Nat.zero_le _

namespace Accepts

variable {m : TuIccMessage} (h : Accepts s m)

include h

/-- The links of the route, each at its own place. -/
private theorem exists_places : ∃ places : List Nat, places.Nodup ∧ places.length = hopsOf s m ∧
    (∀ k ∈ places, ∃ a < s.numCores, ∃ b < s.numCores, k = a * s.numCores + b) ∧
    ∀ fuel, s.numCores < fuel → ∀ service links, (∀ k, links k + service < 2 ^ 64) →
      addRouteService s.toTuCluster fuel m.srcCoreId.toNat m.dstCoreId.toNat service links =
        some (0, fun k => links k + service * if k ∈ places then 1 else 0) := by
  obtain ⟨route, hroute, hmin, hlen, hcharge⟩ := h.way
  have hnodup : (route.map (linkPlace s.toTuCluster)).Nodup := by
    refine List.Nodup.map_on ?_ (hroute.nodup_of_shortest hmin)
    rintro ⟨a, b⟩ hab ⟨a', b'⟩ hab' heq
    have hb := (hroute.rel hab).lt.2
    have hb' := (hroute.rel hab').lt.2
    have hdiv := congrArg (· / s.numCores) heq
    have hmod := congrArg (· % s.numCores) heq
    have hpos : 0 < s.numCores := Nat.zero_lt_of_lt hb
    unfold linkPlace at hdiv hmod
    dsimp only at hdiv hmod
    rw [Nat.mul_comm a, Nat.mul_comm a', Nat.mul_add_div hpos, Nat.mul_add_div hpos, Nat.div_eq_of_lt hb,
      Nat.div_eq_of_lt hb'] at hdiv
    rw [Nat.mul_comm a, Nat.mul_comm a', Nat.mul_add_mod, Nat.mul_add_mod, Nat.mod_eq_of_lt hb,
      Nat.mod_eq_of_lt hb'] at hmod
    exact Prod.ext hdiv hmod
  refine ⟨_, hnodup, by rw [List.length_map, hlen], fun k hk => ?_, fun fuel hfuel service links hsmall => ?_⟩
  · obtain ⟨link, hlink, rfl⟩ := List.mem_map.1 hk
    obtain ⟨hfst, hsnd⟩ := (hroute.rel hlink).lt
    exact ⟨link.1, hfst, link.2, hsnd, rfl⟩
  · rw [hcharge fuel hfuel]
    have heq : chargeAll s.toTuCluster service route links = fun k =>
        links k + service * if k ∈ route.map (linkPlace s.toTuCluster) then 1 else 0 :=
      funext fun k => chargeAll_apply hnodup (fun k _ => hsmall k) k
    rw [heq]

/-- The links that the message crosses, as many as it has hops. -/
theorem exists_crossed : ∃ places : List Nat, places.Nodup ∧ places.length = hopsOf s m ∧
    (∀ k ∈ places, k < s.numCores * s.numCores) ∧ (∀ k, crosses s m k = if k ∈ places then 1 else 0) ∧
    ∀ fuel, s.numCores < fuel → ∀ service links, (∀ k, links k + service < 2 ^ 64) →
      addRouteService s.toTuCluster fuel m.srcCoreId.toNat m.dstCoreId.toNat service links =
        some (0, fun k => links k + service * crosses s m k) := by
  obtain ⟨places, hnodup, hlen, hplaces, hadd⟩ := h.exists_places
  have hcrosses : crosses s m = fun k => if k ∈ places then 1 else 0 := by
    unfold crosses
    rw [hadd _ (Nat.lt_succ_self _) 1 _ fun _ => by decide]
    refine funext fun k => ?_
    show 0 + 1 * (if k ∈ places then 1 else 0) = _
    rw [Nat.zero_add, Nat.one_mul]
  refine ⟨places, hnodup, hlen, fun k hk => ?_, fun k => congrFun hcrosses k, fun fuel hfuel service links hsmall => ?_⟩
  · obtain ⟨a, ha, b, hb, rfl⟩ := hplaces k hk
    calc a * s.numCores + b < (a + 1) * s.numCores := by rw [Nat.succ_mul]; omega
      _ ≤ s.numCores * s.numCores := Nat.mul_le_mul_right _ ha
  · rw [hadd fuel hfuel service links hsmall, hcrosses]

theorem crosses_le (k : Nat) : crosses s m k ≤ 1 := by
  obtain ⟨places, -, -, -, hcrosses, -⟩ := h.exists_crossed
  rw [hcrosses]
  split <;> omega

/-- A message is charged to as many links as it has hops. -/
theorem sum_crosses : ∑ k ∈ Finset.range (s.numCores * s.numCores), crosses s m k = hopsOf s m := by
  obtain ⟨places, hnodup, hlen, hplaces, hcrosses, -⟩ := h.exists_crossed
  have hfilter : (Finset.range (s.numCores * s.numCores)).filter (· ∈ places) = places.toFinset := by
    ext k
    rw [Finset.mem_filter, Finset.mem_range, List.mem_toFinset]
    exact ⟨fun hk => hk.2, fun hk => ⟨hplaces k hk, hk⟩⟩
  simp only [hcrosses]
  rw [← Finset.card_filter, hfilter, List.toFinset_card_of_nodup hnodup, hlen]

end Accepts

/-! ### The loop over the messages -/

/-- What the loop leaves of a list of accepted messages. -/
def chargedBy (s : TuTrafficCluster) (t : TrafficState) (messages : List TuIccMessage) : TrafficState where
  isolatedCycles := max t.isolatedCycles (longestIsolated s messages)
  maxRouteCycles := max t.maxRouteCycles (longestRoute s messages)
  links k := t.links k + loadOf s messages k

theorem trafficStep_ok {m : TuIccMessage} (h : Accepts s m) {fuel : Nat} (hfuel : s.numCores < fuel)
    {t : TrafficState} (hsmall : ∀ k, t.links k + (serviceOf s m).getD 0 < 2 ^ 64) :
    trafficStep s fuel t m = some (.ok (chargedBy s t [m])) := by
  obtain ⟨-, -, -, -, -, hadd⟩ := h.exists_crossed
  have hroute : u64 (hopsOf s m * s.hopLatency.toNat) = hopsOf s m * s.hopLatency.toNat := by
    have hle := Nat.mul_le_mul h.hops_le (Nat.le_of_lt s.hopLatency.toNat_lt)
    exact u64_of_lt (by omega)
  have hmax : ∀ a b : Nat, (if a > b then a else b) = max b a := fun a b => by
    rw [Nat.max_def]
    split <;> split <;> omega
  unfold trafficStep
  dsimp only
  rw [h.isolated, Option.bind_some, if_neg h.isolated_ne, h.hops, Option.bind_some, h.service, Option.bind_some,
    hadd fuel hfuel _ _ hsmall, Option.map_some, hroute, hmax, hmax]
  dsimp only
  rw [if_neg fun hne => hne rfl]
  unfold chargedBy longestIsolated longestRoute loadOf
  simp

/-- A cluster that was created has at most 256 cores. -/
theorem numCores_le_of_create {c : TuCluster} {numCores : UInt32} {topology : TuTopology} {meshRows : UInt32}
    {mode : Int} (h : tuClusterCreate numCores topology meshRows mode = some c) : c.numCores ≤ 256 := by
  unfold tuClusterCreate at h
  split at h
  · cases h
  rename_i hcount
  split at h
  · cases h
  rw [← Option.some.inj h]
  exact Nat.le_of_not_lt fun hgt => hcount (.inr (UInt32.lt_iff_toNat_lt.2 hgt))

/-- A distance is the mark of a missing way or small. -/
theorem hopDistance_le {c : TuCluster} (hcores : c.numCores ≤ 256) {src dst hops : Nat}
    (h : tuClusterHopDistance c src dst = some hops) :
    hops = uint32Max ∨ (src < c.numCores ∧ dst < c.numCores ∧ hops ≤ 510) := by
  unfold tuClusterHopDistance at h
  split at h
  · exact .inl (Option.some.inj h).symm
  rename_i hcore
  have hsrc : src < c.numCores := by omega
  have hdst : dst < c.numCores := by omega
  split at h
  · exact .inr ⟨hsrc, hdst, by rw [← Option.some.inj h]; omega⟩
  split at h
  · exact .inl (Option.some.inj h).symm
  · rw [← Option.some.inj h]
    have hforward := Nat.mod_lt (dst + c.numCores - src) (Nat.zero_lt_of_lt hsrc)
    have hbackward := Nat.mod_lt (src + c.numCores - dst) (Nat.zero_lt_of_lt hsrc)
    exact .inr ⟨hsrc, hdst, by split <;> omega⟩
  · split at h
    · cases h
    dsimp only at h
    split at h
    · exact .inl (Option.some.inj h).symm
    · rw [← Option.some.inj h, tuAbsDiff_eq, tuAbsDiff_eq]
      have hsrcRow := Nat.div_le_self src c.meshCols
      have hdstRow := Nat.div_le_self dst c.meshCols
      have hsrcCol := Nat.mod_le src c.meshCols
      have hdstCol := Nat.mod_le dst c.meshCols
      generalize src / c.meshCols = srcRow at hsrcRow ⊢
      generalize dst / c.meshCols = dstRow at hdstRow ⊢
      generalize src % c.meshCols = srcCol at hsrcCol ⊢
      generalize dst % c.meshCols = dstCol at hdstCol ⊢
      exact .inr ⟨hsrc, hdst, by omega⟩

section

variable {numCores : UInt32} {topology : TuTopology} {meshRows : UInt32} {mode : Int}
  (hcreate : tuClusterCreate numCores topology meshRows mode = some s.toTuCluster)

include hcreate

/-- A message that the loop goes on after has a shortest route that the router follows. -/
theorem accepts_of_step {fuel : Nat} (hfuel : s.numCores < fuel) {t t' : TrafficState} {m : TuIccMessage}
    (h : trafficStep s fuel t m = some (.ok t')) : Accepts s m := by
  unfold trafficStep at h
  dsimp only at h
  obtain ⟨isolated, hisolated, h⟩ := Option.bind_eq_some_iff.1 h
  split at h
  · cases h
  rename_i hne
  obtain ⟨hops, hhops, h⟩ := Option.bind_eq_some_iff.1 h
  obtain ⟨service, hservice, h⟩ := Option.bind_eq_some_iff.1 h
  obtain ⟨⟨rc, links⟩, hadd, h⟩ := Option.map_eq_some_iff.1 h
  dsimp only at h
  split at h
  · cases h
  rename_i hrc
  have hrc : rc = 0 := not_not.1 hrc
  subst hrc
  have hopsEq : hopsOf s m = hops := by
    unfold hopsOf
    rw [hhops]
    rfl
  have hisolatedEq : isolatedOf s m = isolated := by
    unfold isolatedOf
    rw [hisolated]
    rfl
  -- the mark of a missing way would make the estimate its own
  have hway : hops ≠ uint32Max := fun heq => by
    unfold tuClusterEstimateTransferCycles at hisolated
    rw [hhops, Option.map_some, if_pos heq] at hisolated
    exact hne (Option.some.inj hisolated).symm
  obtain ⟨hsrc, hdst, hle⟩ := (hopDistance_le (numCores_le_of_create hcreate) hhops).resolve_left hway
  have hagree : RoutesAgree s.toTuCluster m.srcCoreId.toNat m.dstCoreId.toNat := by
    refine (routesAgree_iff_routable hcreate hsrc hdst).2 fun hmesh => ?_
    by_cases hcols : s.meshCols = 0
    · unfold addRouteService at hadd
      rw [hmesh] at hadd
      dsimp only at hadd
      rw [if_pos hcols] at hadd
      cases hadd
    · refine ⟨hcols, Classical.byContradiction fun hnot => ?_⟩
      have hshape := meshShape_of_create hcreate hmesh hcols
      obtain ⟨links', hrefused⟩ :=
        hshape.refused_of_not_routable hsrc (fun hr => hnot (hr hmesh).2) hfuel service t.links
      rw [hadd] at hrefused
      cases hrefused
  obtain ⟨hops', hhops', ⟨hmax, -⟩ | ⟨hdistance, route, hroute, hlen, hcharge⟩⟩ := hagree
  · rw [hhops] at hhops'
    exact absurd ((Option.some.inj hhops').trans hmax) hway
  · obtain rfl : hops = hops' := Option.some.inj (hhops.symm.trans hhops')
    exact {
      hops := by rw [hopsEq]; exact hhops
      hops_le := by rw [hopsEq]; exact hle
      isolated := by rw [hisolatedEq]; exact hisolated
      isolated_ne := by rw [hisolatedEq]; exact hne
      service := by rw [hservice]; rfl
      way := ⟨route, hroute, fun other hother => hlen ▸ hdistance.2 other hother, hlen.trans hopsEq.symm, hcharge⟩ }

/-- The loop goes through exactly the lists of accepted messages. -/
theorem accepts_of_loop {fuel : Nat} (hfuel : s.numCores < fuel) {messages : List TuIccMessage} {t t' : TrafficState}
    (h : trafficLoop s fuel messages t = some (.ok t')) : ∀ m ∈ messages, Accepts s m := by
  induction messages generalizing t with
  | nil => exact fun m hm => absurd hm List.not_mem_nil
  | cons m messages ih =>
    unfold trafficLoop at h
    obtain ⟨next, hstep, h⟩ := Option.bind_eq_some_iff.1 h
    cases next with
    | error t => cases h
    | ok t =>
      intro m' hm'
      rcases List.mem_cons.1 hm' with rfl | hm'
      · exact accepts_of_step hcreate hfuel hstep
      · exact ih h m' hm'

end

/-- Over accepted messages nothing wraps. -/
theorem trafficLoop_ok {fuel : Nat} (hfuel : s.numCores < fuel) {messages : List TuIccMessage}
    (h : ∀ m ∈ messages, Accepts s m) {t : TrafficState} (done : Nat) (hdone : done + messages.length < 2 ^ 32)
    (hsmall : ∀ k, t.links k ≤ done * (2 ^ 32 - 1)) :
    trafficLoop s fuel messages t = some (.ok (chargedBy s t messages)) := by
  induction messages generalizing t done with
  | nil =>
    unfold trafficLoop chargedBy longestIsolated longestRoute loadOf
    simp
  | cons m messages ih =>
    rw [List.length_cons] at hdone
    have hm := h m List.mem_cons_self
    have hservice := serviceOf_le (s := s) m
    have hstep := trafficStep_ok hm hfuel (t := t) fun k => by
      have := hsmall k
      have hle : done * (2 ^ 32 - 1) ≤ (2 ^ 32 - 2) * (2 ^ 32 - 1) := Nat.mul_le_mul_right _ (by omega)
      omega
    have hload : ∀ k, loadOf s [m] k ≤ 2 ^ 32 - 1 := fun k => by
      unfold loadOf
      rw [List.map_singleton, List.sum_singleton]
      calc (serviceOf s m).getD 0 * crosses s m k ≤ (2 ^ 32 - 1) * 1 := Nat.mul_le_mul hservice (hm.crosses_le k)
        _ = 2 ^ 32 - 1 := Nat.mul_one _
    have hrest : trafficLoop s fuel messages (chargedBy s t [m]) =
        some (.ok (chargedBy s (chargedBy s t [m]) messages)) := by
      refine ih (fun m' hm' => h m' (List.mem_cons_of_mem m hm')) (done + 1) (by omega) fun k => ?_
      have := hsmall k
      have := hload k
      show t.links k + loadOf s [m] k ≤ _
      rw [Nat.succ_mul]
      omega
    unfold trafficLoop
    rw [hstep, Option.bind_some]
    dsimp only
    rw [hrest]
    unfold chargedBy longestIsolated longestRoute loadOf
    simp [Nat.max_assoc, Nat.add_assoc]

/-! ### The statistics -/

section

variable {n : Nat} {links links' : Nat → Nat}

private theorem busiest_eq_scan (n : Nat) (links : Nat → Nat) :
    busiest n links = FirstBest.scan Prod.fst (0, uint32Max, uint32Max)
      ((linkPlaces n).map fun p => (links (p.1 * n + p.2), p.1, p.2)) := by
  unfold busiest FirstBest.scan
  rw [List.foldl_map]
  rfl

private theorem mem_linkPlaces {p : Nat × Nat} : p ∈ linkPlaces n ↔ p.1 < n ∧ p.2 < n := by
  unfold linkPlaces
  simp only [List.mem_flatMap, List.mem_map, List.mem_range]
  constructor
  · rintro ⟨a, ha, b, hb, rfl⟩
    exact ⟨ha, hb⟩
  · exact fun h => ⟨p.1, h.1, p.2, h.2, rfl⟩

theorem le_busiest {a b : Nat} (ha : a < n) (hb : b < n) : links (a * n + b) ≤ (busiest n links).1 := by
  rw [busiest_eq_scan]
  refine (FirstBest.le_scan Prod.fst _ _).2 (links (a * n + b), a, b) (List.mem_map.2 ⟨(a, b), ?_, rfl⟩)
  exact mem_linkPlaces.2 ⟨ha, hb⟩

theorem busiest_le {x : Nat} (h : ∀ a < n, ∀ b < n, links (a * n + b) ≤ x) : (busiest n links).1 ≤ x := by
  rw [busiest_eq_scan]
  rcases FirstBest.scan_eq_or_mem Prod.fst ((0, uint32Max, uint32Max) : Nat × Nat × Nat)
    ((linkPlaces n).map fun p => (links (p.1 * n + p.2), p.1, p.2)) with hstart | hmem
  · rw [hstart]
    exact Nat.zero_le x
  · obtain ⟨p, hp, heq⟩ := List.mem_map.1 hmem
    rw [← heq]
    exact h p.1 (mem_linkPlaces.1 hp).1 p.2 (mem_linkPlaces.1 hp).2

end

/-- The modes that the estimate knows. -/
def KnownContention (s : TuTrafficCluster) : Prop :=
  s.contentionMode = tuIccContentionSharedLink ∨ s.contentionMode = tuIccContentionIdealParallel

/-- The estimate succeeds on the lists of accepted messages, and its statistics do not depend on their order. -/
theorem estimate_eq_iff {numCores : UInt32} {topology : TuTopology} {meshRows : UInt32} {mode : Int}
    (hcreate : tuClusterCreate numCores topology meshRows mode = some s.toTuCluster) {fuel : Nat}
    (hfuel : s.numCores < fuel) {messages : List TuIccMessage} (hlen : messages.length < 2 ^ 32)
    {stats : TuIccTrafficStats} :
    tuClusterEstimateTrafficCycles s fuel messages = some (0, stats) ↔
      (∀ m ∈ messages, Accepts s m) ∧ (messages ≠ [] → KnownContention s) ∧
        stats = trafficStats s (chargedBy s {} messages) := by
  unfold tuClusterEstimateTrafficCycles
  by_cases hnil : messages = []
  · subst hnil
    have hzero : trafficStats s (chargedBy s {} []) = {} := by
      have hempty : chargedBy s {} [] = {} := rfl
      have hbusiest : busiest s.numCores (fun _ => 0) = (0, uint32Max, uint32Max) := by
        rw [busiest_eq_scan]
        refine FirstBest.scan_eq_self fun x hx => ?_
        obtain ⟨p, -, rfl⟩ := List.mem_map.1 hx
        exact Nat.le_refl 0
      unfold trafficStats
      rw [hempty]
      dsimp only
      rw [hbusiest]
      split <;> rfl
    rw [if_pos rfl, hzero]
    simp [eq_comm]
  rw [if_neg hnil]
  constructor
  · intro h
    obtain ⟨t, hloop, h⟩ := Option.map_eq_some_iff.1 h
    cases t with
    | error t => cases (Prod.mk.inj h).1
    | ok t =>
      have haccepts := accepts_of_loop hcreate hfuel hloop
      rw [trafficLoop_ok hfuel haccepts 0 (by omega) fun k => Nat.le_refl 0] at hloop
      obtain rfl := Except.ok.inj (Option.some.inj hloop)
      dsimp only at h
      split at h
      · cases (Prod.mk.inj h).1
      · rename_i hmode
        refine ⟨haccepts, fun _ => ?_, (Prod.mk.inj h).2.symm⟩
        unfold KnownContention
        by_cases hshared : s.contentionMode = tuIccContentionSharedLink
        · exact .inl hshared
        · exact .inr (not_not.1 fun hideal => hmode ⟨hshared, hideal⟩)
  · rintro ⟨haccepts, hmode, rfl⟩
    rw [trafficLoop_ok hfuel haccepts 0 (by omega) fun k => Nat.le_refl 0, Option.map_some]
    dsimp only
    rw [if_neg]
    rintro ⟨hshared, hideal⟩
    exact (hmode hnil).elim hshared hideal

/-! ### Laws -/

section

variable {messages messages' : List TuIccMessage}

theorem loadOf_perm (h : messages.Perm messages') : loadOf s messages = loadOf s messages' :=
  funext fun _ => (h.map _).sum_eq

theorem longestRoute_perm (h : messages.Perm messages') : longestRoute s messages = longestRoute s messages' :=
  (h.map _).foldr_eq 0

theorem chargedBy_perm (h : messages.Perm messages') (t : TrafficState) :
    chargedBy s t messages = chargedBy s t messages' := by
  have hisolated : longestIsolated s messages = longestIsolated s messages' := (h.map _).foldr_eq 0
  unfold chargedBy
  rw [loadOf_perm h, longestRoute_perm h, hisolated]

theorem trafficBound_perm (h : messages.Perm messages') : trafficBound s messages = trafficBound s messages' := by
  unfold trafficBound
  rw [loadOf_perm h, longestRoute_perm h]

private theorem foldr_max_le {l : List Nat} {x : Nat} (h : ∀ y ∈ l, y ≤ x) : l.foldr max 0 ≤ x := by
  induction l with
  | nil => exact Nat.zero_le x
  | cons y l ih =>
    exact Nat.max_le.2 ⟨h y List.mem_cons_self, ih fun z hz => h z (List.mem_cons_of_mem y hz)⟩

private theorem le_foldr_max {l : List Nat} {y : Nat} (h : y ∈ l) : y ≤ l.foldr max 0 := by
  induction l with
  | nil => exact absurd h List.not_mem_nil
  | cons x l ih =>
    rcases List.mem_cons.1 h with rfl | h
    · exact Nat.le_max_left _ _
    · exact Nat.le_trans (ih h) (Nat.le_max_right _ _)

theorem longestRoute_le (h : ∀ m ∈ messages, Accepts s m) : longestRoute s messages ≤ 2 ^ 41 := by
  refine foldr_max_le fun y hy => ?_
  obtain ⟨m, hm, rfl⟩ := List.mem_map.1 hy
  have hle := Nat.mul_le_mul (h m hm).hops_le (Nat.le_of_lt s.hopLatency.toNat_lt)
  omega

theorem Accepts.isolatedOf_le {m : TuIccMessage} (h : Accepts s m) : isolatedOf s m ≤ 2 ^ 43 := by
  have hisolated := h.isolated
  unfold tuClusterEstimateTransferCycles at hisolated
  rw [h.hops, Option.map_some] at hisolated
  have hne := h.isolated_ne
  have hlatency := s.hopLatency.toNat_lt
  have hsize := m.sizeBytes.toNat_lt
  have hroute := Nat.mul_le_mul h.hops_le (Nat.le_of_lt hlatency)
  have hser : (m.sizeBytes.toNat + s.linkBytesPerCycle.toNat - 1) / s.linkBytesPerCycle.toNat ≤ 2 ^ 33 := by
    have hwidth := s.linkBytesPerCycle.toNat_lt
    refine Nat.le_trans (Nat.div_le_self _ _) (by omega)
  generalize (m.sizeBytes.toNat + s.linkBytesPerCycle.toNat - 1) / s.linkBytesPerCycle.toNat = ser at hisolated hser
  have hforward := Nat.mul_le_mul h.hops_le (show s.hopLatency.toNat + ser ≤ 2 ^ 32 + 2 ^ 33 by omega)
  have hcut := u64_le (u64 (hopsOf s m * s.hopLatency.toNat) + ser)
  have hlegacy := u64_le (hopsOf s m * s.hopLatency.toNat)
  have hstore := u64_le (hopsOf s m * (s.hopLatency.toNat + ser))
  have hisolated := Option.some.inj hisolated
  dsimp only at hisolated
  split at hisolated
  · exact absurd hisolated.symm hne
  split at hisolated
  · omega
  split at hisolated
  · omega
  split at hisolated
  · exact absurd hisolated.symm hne
  split at hisolated
  · omega
  split at hisolated
  · omega
  · exact absurd hisolated.symm hne

theorem longestIsolated_le (h : ∀ m ∈ messages, Accepts s m) : longestIsolated s messages ≤ 2 ^ 43 := by
  refine foldr_max_le fun y hy => ?_
  obtain ⟨m, hm, rfl⟩ := List.mem_map.1 hy
  exact (h m hm).isolatedOf_le

/-- The load of a link by one more message. -/
theorem loadOf_cons_le {m : TuIccMessage} (h : Accepts s m) (k : Nat) :
    loadOf s (m :: messages) k ≤ 2 ^ 32 - 1 + loadOf s messages k := by
  have hle := Nat.mul_le_mul (serviceOf_le (s := s) m) (h.crosses_le k)
  unfold loadOf
  rw [List.map_cons, List.sum_cons]
  omega

theorem loadOf_le (h : ∀ m ∈ messages, Accepts s m) (k : Nat) :
    loadOf s messages k ≤ messages.length * (2 ^ 32 - 1) := by
  induction messages with
  | nil => exact Nat.le_refl 0
  | cons m messages ih =>
    have hcons : loadOf s (m :: messages) k ≤ 2 ^ 32 - 1 + loadOf s messages k :=
      loadOf_cons_le (h m List.mem_cons_self) k
    have hrest := ih fun m' hm' => h m' (List.mem_cons_of_mem m hm')
    rw [List.length_cons, Nat.succ_mul]
    omega

/-- The estimate of the lists with and without one message.  The sum of two 64-bit numbers wraps once at most, and where
it wraps because of the message, the estimate drops. -/
theorem estimated_le_iff {m : TuIccMessage} (h : ∀ m' ∈ m :: messages, Accepts s m')
    (hlen : (m :: messages).length < 2 ^ 32) :
    (trafficStats s (chargedBy s {} messages)).estimatedCycles ≤
        (trafficStats s (chargedBy s {} (m :: messages))).estimatedCycles ↔
      (s.contentionMode = tuIccContentionSharedLink → 2 ^ 64 ≤ trafficBound s (m :: messages) →
        2 ^ 64 ≤ trafficBound s messages) := by
  have hm := h m List.mem_cons_self
  have hrest : ∀ m' ∈ messages, Accepts s m' := fun m' hm' => h m' (List.mem_cons_of_mem m hm')
  have hlinks : ∀ l, (chargedBy s {} l).links = loadOf s l := fun l => funext fun k => Nat.zero_add _
  have hisolated : longestIsolated s messages ≤ longestIsolated s (m :: messages) := Nat.le_max_right _ _
  have hroute : longestRoute s messages ≤ longestRoute s (m :: messages) := Nat.le_max_right _ _
  have hbusiest : (busiest s.numCores (loadOf s messages)).1 ≤ (busiest s.numCores (loadOf s (m :: messages))).1 :=
    busiest_le fun a ha b hb => by
      refine Nat.le_trans ?_ (le_busiest ha hb)
      unfold loadOf
      rw [List.map_cons, List.sum_cons]
      exact Nat.le_add_left _ _
  have hmore : (busiest s.numCores (loadOf s (m :: messages))).1 ≤
      2 ^ 32 - 1 + (busiest s.numCores (loadOf s messages)).1 :=
    busiest_le fun a ha b hb => Nat.le_trans (loadOf_cons_le hm _) (Nat.add_le_add_left (le_busiest ha hb) _)
  have hload : (busiest s.numCores (loadOf s (m :: messages))).1 ≤ (2 ^ 32 - 1) * (2 ^ 32 - 1) :=
    busiest_le fun a _ b _ => Nat.le_trans (loadOf_le h _) (Nat.mul_le_mul_right _ (by omega))
  have hisolatedLe := longestIsolated_le h
  have hrouteLe := longestRoute_le h
  unfold trafficStats trafficBound
  dsimp only
  rw [hlinks, hlinks]
  have hisolatedEq : ∀ l, (chargedBy s {} l).isolatedCycles = longestIsolated s l := fun l => Nat.zero_max _
  have hrouteEq : ∀ l, (chargedBy s {} l).maxRouteCycles = longestRoute s l := fun l => Nat.zero_max _
  rw [hisolatedEq, hisolatedEq, hrouteEq, hrouteEq]
  generalize (busiest s.numCores (loadOf s messages)).1 = load at *
  generalize (busiest s.numCores (loadOf s (m :: messages))).1 = load' at *
  generalize longestIsolated s messages = isolated at *
  generalize longestIsolated s (m :: messages) = isolated' at *
  generalize longestRoute s messages = route at *
  generalize longestRoute s (m :: messages) = route' at *
  unfold u64
  by_cases hshared : s.contentionMode = tuIccContentionSharedLink
  · rw [if_pos hshared, if_pos hshared]
    constructor
    · intro hle _ hwraps
      split at hle <;> split at hle <;> omega
    · intro hwraps
      have hwraps := hwraps hshared
      split <;> split <;> omega
  · rw [if_neg hshared, if_neg hshared]
    exact iff_of_true hisolated fun hc => absurd hc hshared

/-- The loads of all links together. -/
theorem sum_loadOf (h : ∀ m ∈ messages, Accepts s m) :
    ∑ k ∈ Finset.range (s.numCores * s.numCores), loadOf s messages k =
      (messages.map fun m => hopsOf s m * (serviceOf s m).getD 0).sum := by
  induction messages with
  | nil => exact Finset.sum_const_zero
  | cons m messages ih =>
    have hcons : ∀ k, loadOf s (m :: messages) k = (serviceOf s m).getD 0 * crosses s m k + loadOf s messages k :=
      fun k => by
        unfold loadOf
        rw [List.map_cons, List.sum_cons]
    rw [List.map_cons, List.sum_cons, ← ih fun m' hm' => h m' (List.mem_cons_of_mem m hm'),
      ← (h m List.mem_cons_self).sum_crosses, Finset.sum_mul, ← Finset.sum_add_distrib]
    exact Finset.sum_congr rfl fun k _ => by rw [hcons, Nat.mul_comm]

theorem isolatedOf_le_estimated {m : TuIccMessage} (hm : m ∈ messages) :
    isolatedOf s m ≤ (trafficStats s (chargedBy s {} messages)).estimatedCycles := by
  have hle : isolatedOf s m ≤ (chargedBy s {} messages).isolatedCycles :=
    Nat.le_trans (le_foldr_max (List.mem_map.2 ⟨m, hm, rfl⟩)) (Nat.le_max_right _ _)
  unfold trafficStats
  dsimp only
  split
  · split <;> omega
  · exact hle

end

/-- For every cluster that can be created and every list on which the estimate succeeds: it does not depend on the order
of the messages, it is at least the isolated cost of each of them, and the links together are charged each message's
service once for each of its hops.  A further message does not lower it exactly if it does not make the busiest link
and the longest route together exceed 64 bits, or if they already did. -/
theorem traffic_laws {numCores : UInt32} {topology : TuTopology} {meshRows : UInt32} {mode : Int}
    (hcreate : tuClusterCreate numCores topology meshRows mode = some s.toTuCluster) {fuel : Nat}
    (hfuel : s.numCores < fuel) {messages : List TuIccMessage} (hlen : messages.length < 2 ^ 32)
    {stats : TuIccTrafficStats} (h : tuClusterEstimateTrafficCycles s fuel messages = some (0, stats)) :
    (∀ messages', messages.Perm messages' → tuClusterEstimateTrafficCycles s fuel messages' = some (0, stats)) ∧
      (∀ m messages' stats', messages'.Perm (m :: messages) → messages'.length < 2 ^ 32 →
        tuClusterEstimateTrafficCycles s fuel messages' = some (0, stats') →
        (stats.estimatedCycles ≤ stats'.estimatedCycles ↔
          (s.contentionMode = tuIccContentionSharedLink → 2 ^ 64 ≤ trafficBound s messages' →
            2 ^ 64 ≤ trafficBound s messages))) ∧
      (∀ m ∈ messages, ∃ isolated, tuClusterEstimateTransferCycles s.toTuClusterState m.srcCoreId.toNat
        m.dstCoreId.toNat m.sizeBytes.toNat = some isolated ∧ isolated ≤ stats.estimatedCycles) ∧
      ∃ t, trafficLoop s fuel messages {} = some (.ok t) ∧
        ∑ k ∈ Finset.range (s.numCores * s.numCores), t.links k =
          (messages.map fun m => hopsOf s m * (serviceOf s m).getD 0).sum := by
  obtain ⟨haccepts, hmode, rfl⟩ := (estimate_eq_iff hcreate hfuel hlen).1 h
  refine ⟨fun messages' hperm => ?_, fun m messages' stats' hperm hlen' h' => ?_, fun m hm => ?_, _,
    trafficLoop_ok hfuel haccepts 0 (by omega) fun _ => Nat.le_refl 0, ?_⟩
  · refine (estimate_eq_iff hcreate hfuel (hperm.length_eq ▸ hlen)).2
      ⟨fun m hm => haccepts m (hperm.mem_iff.2 hm), ?_, ?_⟩
    · exact fun hnil => hmode fun heq => hnil (List.perm_nil.1 (heq ▸ hperm.symm))
    · rw [chargedBy_perm hperm]
  · obtain ⟨haccepts', -, rfl⟩ := (estimate_eq_iff hcreate hfuel hlen').1 h'
    rw [chargedBy_perm hperm, trafficBound_perm hperm]
    exact estimated_le_iff (fun m' hm' => haccepts' m' (hperm.mem_iff.2 hm')) (hperm.length_eq ▸ hlen')
  · exact ⟨_, (haccepts m hm).isolated, isolatedOf_le_estimated hm⟩
  · rw [← sum_loadOf haccepts]
    exact Finset.sum_congr rfl fun k _ => Nat.zero_add _

/-- Eight cores on a ring with narrow links and a long delay for each hop. -/
def narrowRing : TuTrafficCluster where
  numCores := 8
  topology := .ring
  meshRoutingMode := tuIccMeshRouteXy
  hopLatency := 4294967295
  switchingMode := tuIccSwitchCutThrough
  linkBytesPerCycle := 1
  cores _ := none
  stats := ⟨0, 0, 0⟩
  contentionMode := tuIccContentionSharedLink

/-- The largest message, over three links of the ring. -/
def largeMessage : TuIccMessage := ⟨0, 3, 0, 0, 4294967295⟩

private theorem narrowRing_create :
    tuClusterCreate 8 .ring 0 tuIccMeshRouteXy = some narrowRing.toTuCluster := by decide

private theorem accepts_largeMessage : Accepts narrowRing largeMessage := by
  have hgoes : ((trafficStep narrowRing 9 {} largeMessage).any fun r => r.toOption.isSome) = true := by decide +kernel
  obtain ⟨r, hstep, hok⟩ := (Option.any_eq_true _ _).1 hgoes
  cases r with
  | error t => cases hok
  | ok t => exact accepts_of_step narrowRing_create (by decide) hstep

theorem traffic_laws_narrowRing :
    ∃ stats, tuClusterEstimateTrafficCycles narrowRing 9 [largeMessage] = some (0, stats) ∧
      ∃ t, trafficLoop narrowRing 9 [largeMessage] {} = some (.ok t) ∧
        ∑ k ∈ Finset.range 64, t.links k = 3 * 4294967295 := by
  have hall : ∀ m ∈ [largeMessage], Accepts narrowRing m := fun m hm => List.mem_singleton.1 hm ▸ accepts_largeMessage
  have hstats := (estimate_eq_iff narrowRing_create (show narrowRing.numCores < 9 by decide) (by decide)).2
    ⟨hall, fun _ => .inl rfl, rfl⟩
  obtain ⟨-, -, -, t, hloop, hsum⟩ := traffic_laws narrowRing_create (by decide) (by decide) hstats
  exact ⟨_, hstats, t, hloop, hsum.trans (by decide +kernel)⟩

/-- One more of the largest messages, and the estimate starts again from a small number. -/
private theorem estimate_drops_of {messages : List TuIccMessage} (hcount : messages.length = 4294967294)
    (hmem : ∀ m ∈ messages, m = largeMessage) :
    ∃ stats stats', tuClusterEstimateTrafficCycles narrowRing 9 messages = some (0, stats) ∧
      tuClusterEstimateTrafficCycles narrowRing 9 (largeMessage :: messages) = some (0, stats') ∧
      stats'.estimatedCycles < stats.estimatedCycles := by
  have hlen : (largeMessage :: messages).length < 2 ^ 32 := by
    rw [List.length_cons, hcount]
    decide
  have hall : ∀ m ∈ largeMessage :: messages, Accepts narrowRing m := fun m hm => by
    rcases List.mem_cons.1 hm with rfl | hm
    · exact accepts_largeMessage
    · rw [hmem m hm]
      exact accepts_largeMessage
  have hrest : ∀ m ∈ messages, Accepts narrowRing m := fun m hm => hall m (List.mem_cons_of_mem _ hm)
  have hroute : hopsOf narrowRing largeMessage * narrowRing.hopLatency.toNat = 3 * 4294967295 := by decide
  have hbound : trafficBound narrowRing messages < 2 ^ 64 := by
    have hload : (busiest narrowRing.numCores (loadOf narrowRing messages)).1 ≤ 4294967294 * (2 ^ 32 - 1) :=
      busiest_le fun a _ b _ => hcount ▸ loadOf_le hrest _
    have hlongest : longestRoute narrowRing messages ≤ 3 * 4294967295 := foldr_max_le fun y hy => by
      obtain ⟨m, hm, rfl⟩ := List.mem_map.1 hy
      rw [hmem m hm, hroute]
    unfold trafficBound
    omega
  have hbound' : 2 ^ 64 ≤ trafficBound narrowRing (largeMessage :: messages) := by
    have hservice : (serviceOf narrowRing largeMessage).getD 0 * crosses narrowRing largeMessage 1 = 4294967295 := by
      decide +kernel
    have hload : loadOf narrowRing (largeMessage :: messages) 1 = 4294967295 * 4294967295 := by
      have hreplicate : messages = List.replicate messages.length largeMessage := List.eq_replicate_of_mem hmem
      unfold loadOf
      rw [List.map_cons, List.sum_cons, hreplicate, List.map_replicate, List.sum_replicate, hservice, hcount]
      decide
    have hbusiest : loadOf narrowRing (largeMessage :: messages) (0 * 8 + 1) ≤
        (busiest narrowRing.numCores (loadOf narrowRing (largeMessage :: messages))).1 :=
      le_busiest (by decide) (by decide)
    have hlongest : 3 * 4294967295 ≤ longestRoute narrowRing (largeMessage :: messages) := by
      rw [← hroute]
      exact Nat.le_max_left _ _
    rw [show 0 * 8 + 1 = 1 from rfl, hload] at hbusiest
    unfold trafficBound
    omega
  have hknown : KnownContention narrowRing := .inl rfl
  refine ⟨_, _,
    (estimate_eq_iff narrowRing_create (by decide) (Nat.lt_of_succ_lt hlen)).2 ⟨hrest, fun _ => hknown, rfl⟩,
    (estimate_eq_iff narrowRing_create (by decide) hlen).2 ⟨hall, fun _ => hknown, rfl⟩,
    Nat.lt_of_not_le fun hle => ?_⟩
  have hwraps := (estimated_le_iff hall hlen).1 hle rfl hbound'
  omega

/-- Copies of one message over the same links, with the last one as many as 32 bits can count. -/
theorem estimate_drops :
    tuClusterCreate 8 .ring 0 tuIccMeshRouteXy = some narrowRing.toTuCluster ∧
      ∃ stats stats',
        tuClusterEstimateTrafficCycles narrowRing 9 (List.replicate 4294967294 largeMessage) = some (0, stats) ∧
        tuClusterEstimateTrafficCycles narrowRing 9 (largeMessage :: List.replicate 4294967294 largeMessage) =
          some (0, stats') ∧
        stats'.estimatedCycles < stats.estimatedCycles :=
  ⟨narrowRing_create, estimate_drops_of List.length_replicate fun _ hm => List.eq_of_mem_replicate hm⟩

end Tusim.Cluster
