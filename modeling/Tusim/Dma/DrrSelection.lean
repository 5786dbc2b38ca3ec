import Tusim.Dma.DeficitRoundRobin
import Tusim.Dma.Execution
import Tusim.Lib.Rotation
import Mathlib.Data.Nat.Find

/-!
# The selection loop of deficit round robin

The loop has no bound of its own.  A round gives every channel with a queued descriptor its weighted quantum, except
for the channel whose visit continues (`ArbView.quanta`), so the credits of each cover any 64-bit cost in the end.
`drrProbe_scanned` says what a probe does to the credits, `drrRound_scanned` what a round does, and
`drrSelect_scanned` follows the loop to the first round in which some channel can pay (`ArbView.Covers`).  The grant it
ends with is the only one of the tick (`tuDmaTick_selects`).
-/

namespace Tusim

open Word

namespace ArbView

/-- The channel that a probe of a scan looks at. -/
def probed (a : ArbView) (p : Nat) : Nat := (a.cursor + p) % a.cfg.numChannels

/-- The scan continues the last visit at channel `c`: no channel before it has a queued descriptor. -/
def Continues (a : ArbView) (head : Nat → Option Nat) (c : Nat) : Prop :=
  a.continueVisit = true ∧ a.continueChannel = c ∧
    ∀ p < a.cfg.numChannels, a.probed p = c → ∀ q < p, head (a.probed q) = none

instance (a : ArbView) (head : Nat → Option Nat) (c : Nat) : Decidable (a.Continues head c) :=
  inferInstanceAs (Decidable (_ ∧ _ ∧ ∀ p < a.cfg.numChannels, _ → ∀ q < p, _))

/-- The quanta a channel with a queued descriptor has got after `rounds` rounds. -/
def quanta (a : ArbView) (head : Nat → Option Nat) (c rounds : Nat) : Nat :=
  if a.Continues head c then rounds - 1 else rounds

/-- In round `k`, counted from zero, the credits of channel `c` cover the cost of its head. -/
def Covers (a : ArbView) (head : Nat → Option Nat) (k c : Nat) : Prop :=
  ∃ d, head c = some d ∧ (a.desc d).cost ≤
    min uint64Max (a.credits c + a.quanta head c (k + 1) * (drrQuantum a.cfg * drrWeight a.cfg c))

theorem probed_lt (a : ArbView) (p : Nat) : a.probed p < a.cfg.numChannels := Nat.mod_lt _ a.cfg.numChannels_pos

private theorem probed_eq (a : ArbView) (p : Nat) :
    a.probed p = (a.cursor % a.cfg.numChannels + p) % a.cfg.numChannels := (Nat.mod_add_mod _ _ _).symm

/-- A scan looks at no channel twice. -/
theorem probed_inj {a : ArbView} {p q : Nat} (hp : p < a.cfg.numChannels) (hq : q < a.cfg.numChannels)
    (h : a.probed p = a.probed q) : p = q := by
  have hcursor := Nat.mod_lt a.cursor a.cfg.numChannels_pos
  rw [probed_eq, probed_eq] at h
  rw [← Rotation.dist_add hcursor hp, h, Rotation.dist_add hcursor hq]

/-- A scan looks at every channel. -/
theorem exists_probed (a : ArbView) {c : Nat} (hc : c < a.cfg.numChannels) :
    ∃ p < a.cfg.numChannels, a.probed p = c := by
  have hcursor := Nat.mod_lt a.cursor a.cfg.numChannels_pos
  refine ⟨_, Rotation.dist_lt hcursor hc, ?_⟩
  rw [probed_eq, Rotation.add_dist hcursor hc]

end ArbView

/-! ### Costs -/

/-- A cost is a 64-bit number. -/
theorem descriptorDrrCost_le (cfg : TuDmaConfig) (desc : TuDmaDescriptor) :
    descriptorDrrCost cfg desc ≤ uint64Max := by
  have hu64 : ∀ x, u64 x ≤ uint64Max := fun x => Nat.le_pred_of_lt (Nat.mod_lt x (by decide))
  have hbytes : desc.totalBytes.toNat ≤ uint64Max := Nat.le_trans (Nat.le_of_lt desc.totalBytes.toNat_lt) (by decide)
  have htransfer : descriptorTransferCycles cfg desc ≤ uint64Max := hu64 _
  unfold descriptorDrrCost
  dsimp only
  generalize hcost : (if cfg.drrCostMode = .chargeServiceCycles then descriptorTransferCycles cfg desc
    else if cfg.drrCostMode = .chargeOccupiedBytes then u64 (descriptorPayloadCycles cfg desc * cfg.busWidthBytes)
    else desc.totalBytes.toNat) = cost
  have hle : cost ≤ uint64Max := by
    rw [← hcost]
    split
    · exact htransfer
    split
    · exact hu64 _
    · exact hbytes
  split
  · exact hle
  split
  · exact Nat.le_refl _
  · have hdiv := Nat.div_mul_le_self (cost + drrQuantum cfg - 1) (drrQuantum cfg)
    omega

theorem drrQuantum_pos (cfg : TuDmaConfig) : 0 < drrQuantum cfg := by
  unfold drrQuantum
  split
  · exact cfg.drrQuantumCycles_pos
  · exact cfg.drrQuantumBytes_pos

/-! ### One scan -/

/-- The queues as the arbitration finds them. -/
def TuDmaEngine.heads (e : TuDmaEngine) (c : Nat) : Option Nat := (e.channels c).head

/-- The engine `e` in the middle of a selection: the scans change credits, the flag of the visit and the clock. -/
def TuDmaEngine.scanned (e : TuDmaEngine) (credits : Nat → Nat) (visit : Bool) (clock : Nat) : TuDmaEngine :=
  { e with
    channels := fun c => { e.channels c with drrDeficitCredits := credits c }
    drrContinueVisit := visit
    currentCycle := clock }

section

variable (e : TuDmaEngine) (credits : Nat → Nat) (visit : Bool) (clock : Nat)

theorem scanned_self : e.scanned e.arb.credits e.drrContinueVisit e.currentCycle = e := rfl

theorem view_scanned : (e.scanned credits visit clock).view = e.view := rfl

theorem scanned_setCredits (c x : Nat) :
    (e.scanned credits visit clock).setChannel c (fun ch => { ch with drrDeficitCredits := x }) =
      e.scanned (Function.update credits c x) visit clock := by
  have hchannels : Function.update (e.scanned credits visit clock).channels c
      { (e.scanned credits visit clock).channels c with drrDeficitCredits := x } =
        (e.scanned (Function.update credits c x) visit clock).channels := by
    refine funext fun i => ?_
    show _ = ({ e.channels i with drrDeficitCredits := Function.update credits c x i } : TuDmaChannelState)
    by_cases hi : i = c
    · subst hi
      rw [Function.update_self, Function.update_self]
      rfl
    · rw [Function.update_of_ne hi, Function.update_of_ne hi]
      rfl
  unfold TuDmaEngine.setChannel
  rw [hchannels]
  rfl

/-- The credits of channel `c` while it is visited. -/
def visitedCredits (c : Nat) : Nat :=
  if visit = true ∧ e.drrContinueChannel = c then credits c
  else satAdd64 (credits c) (satMul64 (drrQuantum e.cfg) (drrWeight e.cfg c))

/-- What a probe of channel `c` does to the credits, the flag and the clock. -/
theorem drrProbe_scanned {c p : Nat} (hc : e.arb.probed p = c) :
    (e.heads c = none ∧ ∃ credits' visit', (∀ i ≠ c, credits' i = credits i) ∧
      (visit' = true ↔ visit = true ∧ e.drrContinueChannel ≠ c) ∧
      drrProbe (e.scanned credits visit clock) p = (e.scanned credits' visit' clock, .idle)) ∨
    ∃ d credits', e.heads c = some d ∧ (∀ i ≠ c, credits' i = credits i) ∧
      credits' c = visitedCredits e credits visit c ∧
      drrProbe (e.scanned credits visit clock) p =
        if visitedCredits e credits visit c < descriptorDrrCost e.cfg (e.heap d) then
          (e.scanned credits' false clock, .short)
        else (drrGrant (e.scanned credits' false clock) c d p, .granted) := by
  have hprobe : ((e.scanned credits visit clock).nextSharedChannel + p) %
      (e.scanned credits visit clock).cfg.numChannels = c := hc
  unfold drrProbe
  dsimp only
  rw [hprobe]
  cases hhead : e.heads c with
  | none =>
    refine .inl ⟨rfl, ?_⟩
    have hscanned : ((e.scanned credits visit clock).channels c).head = none := hhead
    rw [hscanned]
    dsimp only
    -- under the reset policy the credits are lost
    obtain ⟨credits', hother, hreset⟩ : ∃ credits', (∀ i ≠ c, credits' i = credits i) ∧
        drrResetIdle (e.scanned credits visit clock) c = e.scanned credits' visit clock := by
      unfold drrResetIdle
      split
      · exact ⟨_, fun i hi => Function.update_of_ne hi _ _, scanned_setCredits e credits visit clock c 0⟩
      · exact ⟨credits, fun _ _ => rfl, rfl⟩
    rw [hreset]
    unfold drrEndVisit
    by_cases hcont : visit = true ∧ e.drrContinueChannel = c
    · refine ⟨credits', false, hother, by simp [hcont.2], ?_⟩
      have hif : (e.scanned credits' visit clock).drrContinueVisit = true ∧
          (e.scanned credits' visit clock).drrContinueChannel = c := hcont
      rw [if_pos hif]
      rfl
    · refine ⟨credits', visit, hother, ⟨fun h => ⟨h, fun hch => hcont ⟨h, hch⟩⟩, fun h => h.1⟩, ?_⟩
      have hif : ¬ ((e.scanned credits' visit clock).drrContinueVisit = true ∧
          (e.scanned credits' visit clock).drrContinueChannel = c) := hcont
      rw [if_neg hif]
  | some d =>
    refine .inr ⟨d, Function.update credits c (visitedCredits e credits visit c), rfl,
      fun i hi => Function.update_of_ne hi _ _, Function.update_self _ _ _, ?_⟩
    have hscanned : ((e.scanned credits visit clock).channels c).head = some d := hhead
    rw [hscanned]
    dsimp only
    have hcredits : drrVisitCredits (e.scanned credits visit clock) c = visitedCredits e credits visit c := rfl
    have hvisit : drrVisit (e.scanned credits visit clock) c =
        e.scanned (Function.update credits c (visitedCredits e credits visit c)) false clock := by
      unfold drrVisit
      rw [scanned_setCredits]
      rfl
    rw [hcredits, hvisit]
    rfl

end

/-! ### Rounds -/

/-- The credits of channel `c` after `rounds` rounds, if it has a queued descriptor. -/
def accruedCredits (e : TuDmaEngine) (c rounds : Nat) : Nat :=
  (satAdd64 · (satMul64 (drrQuantum e.cfg) (drrWeight e.cfg c)))^[e.arb.quanta e.heads c rounds] (e.arb.credits c)

/-- The scan of round `k` has made its first `q` probes, none of them a grant. -/
structure Scanned (e : TuDmaEngine) (k q : Nat) (credits : Nat → Nat) (visit : Bool) : Prop where
  accrued : ∀ p < e.cfg.numChannels, e.heads (e.arb.probed p) ≠ none →
    credits (e.arb.probed p) = accruedCredits e (e.arb.probed p) (if p < q then k + 1 else k)
  visit_iff : visit = true ↔ k = 0 ∧ e.drrContinueVisit = true ∧
    ∀ p < q, e.heads (e.arb.probed p) = none ∧ e.arb.probed p ≠ e.drrContinueChannel

section

variable {e : TuDmaEngine} {k q : Nat} {credits : Nat → Nat} {visit : Bool}

theorem Scanned.start (e : TuDmaEngine) : Scanned e 0 0 e.arb.credits e.drrContinueVisit where
  accrued := fun p _ _ => by
    rw [if_neg (Nat.not_lt_zero p)]
    unfold accruedCredits ArbView.quanta
    split <;> rfl
  visit_iff := ⟨fun h => ⟨rfl, h, fun p hp => absurd hp (Nat.not_lt_zero p)⟩, fun h => h.2.1⟩

/-- A visit leaves the credits of its round. -/
theorem Scanned.visited (h : Scanned e k q credits visit) (hq : q < e.cfg.numChannels)
    (hhead : e.heads (e.arb.probed q) ≠ none) :
    visitedCredits e credits visit (e.arb.probed q) = accruedCredits e (e.arb.probed q) (k + 1) := by
  have hnow := h.accrued q hq hhead
  rw [if_neg (Nat.lt_irrefl q)] at hnow
  unfold visitedCredits
  rw [hnow]
  unfold accruedCredits ArbView.quanta
  by_cases hcont : visit = true ∧ e.drrContinueChannel = e.arb.probed q
  · -- the visit that continues gets no quantum
    obtain ⟨hk, hflag, hfree⟩ := h.visit_iff.1 hcont.1
    have hcontinues : e.arb.Continues e.heads (e.arb.probed q) := by
      refine ⟨hflag, hcont.2, fun p hp hpq r hr => ?_⟩
      rw [ArbView.probed_inj hp hq hpq] at hr
      exact (hfree r hr).1
    rw [if_pos hcont, if_pos hcontinues, if_pos hcontinues, hk]
  · rw [if_neg hcont, ← Function.iterate_succ_apply' (satAdd64 · (satMul64 (drrQuantum e.cfg) (drrWeight e.cfg _)))]
    by_cases hcontinues : e.arb.Continues e.heads (e.arb.probed q)
    · -- in the first round the flag would still be there
      have hk : k ≠ 0 := fun hk => by
        obtain ⟨hflag, hchannel, hfree⟩ := hcontinues
        refine hcont ⟨h.visit_iff.2 ⟨hk, hflag, fun p hp => ⟨hfree q hq rfl p hp, fun heq => ?_⟩⟩, hchannel⟩
        have hpq := ArbView.probed_inj (Nat.lt_trans hp hq) hq (heq.trans hchannel)
        omega
      rw [if_pos hcontinues, if_pos hcontinues]
      congr 1
      omega
    · rw [if_neg hcontinues, if_neg hcontinues]

/-- A probe of an idle channel. -/
theorem Scanned.pass (h : Scanned e k q credits visit) (hq : q < e.cfg.numChannels)
    (hhead : e.heads (e.arb.probed q) = none) {credits' : Nat → Nat} {visit' : Bool}
    (hother : ∀ i ≠ e.arb.probed q, credits' i = credits i)
    (hvisit : visit' = true ↔ visit = true ∧ e.drrContinueChannel ≠ e.arb.probed q) :
    Scanned e k (q + 1) credits' visit' where
  accrued := fun p hp hbacklog => by
    have hne : p ≠ q := fun hpq => hbacklog (hpq ▸ hhead)
    rw [hother _ fun heq => hne (ArbView.probed_inj hp hq heq), h.accrued p hp hbacklog]
    congr 1
    split <;> split <;> omega
  visit_iff := by
    rw [hvisit, h.visit_iff]
    constructor
    · rintro ⟨⟨hk, hflag, hfree⟩, hne⟩
      refine ⟨hk, hflag, fun p hp => ?_⟩
      rcases Nat.lt_succ_iff_lt_or_eq.1 hp with hp | rfl
      · exact hfree p hp
      · exact ⟨hhead, hne.symm⟩
    · rintro ⟨hk, hflag, hfree⟩
      exact ⟨⟨hk, hflag, fun p hp => hfree p (Nat.lt_succ_of_lt hp)⟩, (hfree q (Nat.lt_succ_self q)).2.symm⟩

/-- A visit without a grant. -/
theorem Scanned.short (h : Scanned e k q credits visit) (hq : q < e.cfg.numChannels)
    (hhead : e.heads (e.arb.probed q) ≠ none) {credits' : Nat → Nat}
    (hother : ∀ i ≠ e.arb.probed q, credits' i = credits i)
    (hvisited : credits' (e.arb.probed q) = visitedCredits e credits visit (e.arb.probed q)) :
    Scanned e k (q + 1) credits' false where
  accrued := fun p hp hbacklog => by
    by_cases hpq : p = q
    · subst hpq
      rw [hvisited, h.visited hq hhead, if_pos (Nat.lt_succ_self p)]
    · rw [hother _ fun heq => hpq (ArbView.probed_inj hp hq heq), h.accrued p hp hbacklog]
      congr 1
      split <;> split <;> omega
  visit_iff := ⟨fun h => absurd h Bool.false_ne_true, fun hc => absurd (hc.2.2 q (Nat.lt_succ_self q)).1 hhead⟩

/-- The end of a round without a grant, some channel having a queued descriptor. -/
theorem Scanned.next (h : Scanned e k e.cfg.numChannels credits visit)
    (hqueued : ∃ p < e.cfg.numChannels, e.heads (e.arb.probed p) ≠ none) : Scanned e (k + 1) 0 credits visit where
  accrued := fun p hp hbacklog => by
    rw [h.accrued p hp hbacklog, if_pos hp, if_neg (Nat.not_lt_zero p)]
  visit_iff := by
    obtain ⟨p, hp, hhead⟩ := hqueued
    constructor
    · exact fun hv => absurd ((h.visit_iff.1 hv).2.2 p hp).1 hhead
    · exact fun hc => absurd hc.1 (Nat.succ_ne_zero k)

/-- The credits of a visit cover the cost of the head as `ArbView.Covers` says. -/
theorem Scanned.covers_iff (h : Scanned e k q credits visit) (hq : q < e.cfg.numChannels) {d : Nat}
    (hhead : e.heads (e.arb.probed q) = some d) :
    descriptorDrrCost e.cfg (e.heap d) ≤ visitedCredits e credits visit (e.arb.probed q) ↔
      e.arb.Covers e.heads k (e.arb.probed q) := by
  rw [h.visited hq (by rw [hhead]; exact Option.some_ne_none d)]
  unfold accruedCredits
  rw [le_satAdd64_iterate_iff _ _ _ _ (descriptorDrrCost_le _ _)]
  constructor
  · exact fun hle => ⟨d, hhead, hle⟩
  · rintro ⟨d', hd', hle⟩
    obtain rfl : d = d' := Option.some.inj (hhead.symm.trans hd')
    exact hle

/-- What is left of a round: it grants the head of the first channel whose credits cover it, or goes to its end. -/
theorem drrRound_scanned (clock m : Nat) (hq : q + m = e.cfg.numChannels) (h : Scanned e k q credits visit) :
    (∃ p d credits', q ≤ p ∧ p < e.cfg.numChannels ∧ e.heads (e.arb.probed p) = some d ∧
      e.arb.Covers e.heads k (e.arb.probed p) ∧
      (∀ r, q ≤ r → r < p → ¬ e.arb.Covers e.heads k (e.arb.probed r)) ∧
      drrRound (List.range' q m) (e.scanned credits visit clock) =
        (drrGrant (e.scanned credits' false clock) (e.arb.probed p) d p, true, true)) ∨
    ((∀ r, q ≤ r → r < e.cfg.numChannels → ¬ e.arb.Covers e.heads k (e.arb.probed r)) ∧
      ∃ credits' visit' any, Scanned e k e.cfg.numChannels credits' visit' ∧
        ((∃ r, q ≤ r ∧ r < e.cfg.numChannels ∧ e.heads (e.arb.probed r) ≠ none) → any = true) ∧
        drrRound (List.range' q m) (e.scanned credits visit clock) =
          (e.scanned credits' visit' clock, any, false)) := by
  induction m generalizing q credits visit with
  | zero =>
    have hend : q = e.cfg.numChannels := hq
    refine .inr ⟨fun r hr hlt => by omega, credits, visit, false, hend ▸ h, ?_, rfl⟩
    rintro ⟨r, hr, hlt, -⟩
    omega
  | succ m ih =>
    have hlt : q < e.cfg.numChannels := by omega
    have hnext : q + 1 + m = e.cfg.numChannels := by omega
    rw [List.range'_succ]
    unfold drrRound
    rcases drrProbe_scanned e credits visit clock (rfl : e.arb.probed q = e.arb.probed q) with
      ⟨hhead, credits', visit', hother, hvisit, hprobe⟩ | ⟨d, credits', hhead, hother, hvisited, hprobe⟩
    · -- an idle channel
      have hnone : ¬ e.arb.Covers e.heads k (e.arb.probed q) := by
        rintro ⟨d, hd, -⟩
        rw [hhead] at hd
        cases hd
      rw [hprobe]
      dsimp only
      rcases ih hnext (h.pass hlt hhead hother hvisit) with
        ⟨p, d, credits'', hle, hp, hd, hcovers, hfirst, hround⟩ | ⟨hfirst, credits'', visit'', any, hscan, hany, hround⟩
      · refine .inl ⟨p, d, credits'', by omega, hp, hd, hcovers, fun r hr hrp => ?_, hround⟩
        rcases Nat.eq_or_lt_of_le hr with rfl | hr
        · exact hnone
        · exact hfirst r hr hrp
      · refine .inr ⟨fun r hr hrn => ?_, credits'', visit'', any, hscan, ?_, hround⟩
        · rcases Nat.eq_or_lt_of_le hr with rfl | hr
          · exact hnone
          · exact hfirst r hr hrn
        · rintro ⟨r, hr, hrn, hne⟩
          refine hany ⟨r, ?_, hrn, hne⟩
          rcases Nat.eq_or_lt_of_le hr with rfl | hr
          · exact absurd hhead hne
          · exact hr
    · have hiff := h.covers_iff hlt hhead
      have hbacklog : e.heads (e.arb.probed q) ≠ none := by
        rw [hhead]
        exact Option.some_ne_none d
      rw [hprobe]
      by_cases hshort : visitedCredits e credits visit (e.arb.probed q) < descriptorDrrCost e.cfg (e.heap d)
      · -- credits that do not cover the head
        have hnone : ¬ e.arb.Covers e.heads k (e.arb.probed q) := fun hc =>
          absurd (hiff.2 hc) (Nat.not_le_of_lt hshort)
        rw [if_pos hshort]
        dsimp only
        rcases ih hnext (h.short hlt hbacklog hother hvisited) with
          ⟨p, d', credits'', hle, hp, hd, hcovers, hfirst, hround⟩ | ⟨hfirst, credits'', visit'', any, hscan, -, hround⟩
        · refine .inl ⟨p, d', credits'', by omega, hp, hd, hcovers, fun r hr hrp => ?_, by rw [hround]⟩
          rcases Nat.eq_or_lt_of_le hr with rfl | hr
          · exact hnone
          · exact hfirst r hr hrp
        · refine .inr ⟨fun r hr hrn => ?_, credits'', visit'', true, hscan, fun _ => rfl, by rw [hround]⟩
          rcases Nat.eq_or_lt_of_le hr with rfl | hr
          · exact hnone
          · exact hfirst r hr hrn
      · rw [if_neg hshort]
        exact .inl ⟨q, d, credits', Nat.le_refl q, hlt, hhead, hiff.1 (Nat.le_of_not_lt hshort),
          fun r hr hrq => by omega, rfl⟩

/-! ### Selections -/

/-- The delay of a round without a grant. -/
def drrRoundDelay (cfg : TuDmaConfig) : Nat :=
  if cfg.drrRoundCostMode = .fixed then cfg.drrRoundIssueCycles
  else satMul64 cfg.drrRoundIssueCycles (drrScanGroups cfg cfg.numChannels cfg.drrRoundScanWidth)

theorem drrChargeRoundDelay_scanned (clock : Nat) :
    drrChargeRoundDelay (e.scanned credits visit clock) e.cfg.drrRoundIssueCycles =
      e.scanned credits visit (satAdd64 clock (drrRoundDelay e.cfg)) := rfl

/-- The selection goes on to the first round `k + l` in which some channel can pay. -/
theorem drrSelect_scanned {k l p : Nat} (hqueued : ∃ p < e.cfg.numChannels, e.heads (e.arb.probed p) ≠ none)
    (hshort : ∀ j < k + l, ∀ r < e.cfg.numChannels, ¬ e.arb.Covers e.heads j (e.arb.probed r))
    (hp : p < e.cfg.numChannels) (hcovers : e.arb.Covers e.heads (k + l) (e.arb.probed p))
    (hfirst : ∀ r < p, ¬ e.arb.Covers e.heads (k + l) (e.arb.probed r)) (clock : Nat)
    (h : Scanned e k 0 credits visit) :
    ∃ d credits', e.heads (e.arb.probed p) = some d ∧ ∀ m > l, drrSelect m (e.scanned credits visit clock) =
      drrGrant (e.scanned credits' false ((satAdd64 · (drrRoundDelay e.cfg))^[l] clock)) (e.arb.probed p) d p := by
  have hround := drrRound_scanned clock e.cfg.numChannels (Nat.zero_add _) h
  rw [← List.range_eq_range'] at hround
  induction l generalizing k credits visit clock with
  | zero =>
    rcases hround with ⟨p', d, credits', -, hp', hd, hcovers', hfirst', hround⟩ | ⟨hnone, -⟩
    · -- both are the first that can pay
      have heq : p' = p := by
        rcases Nat.lt_trichotomy p' p with hlt | heq | hlt
        · exact absurd hcovers' (hfirst p' hlt)
        · exact heq
        · exact absurd hcovers (hfirst' p (Nat.zero_le p) hlt)
      subst heq
      refine ⟨d, credits', hd, fun m hm => ?_⟩
      obtain ⟨m, rfl⟩ := Nat.exists_eq_succ_of_ne_zero (Nat.ne_of_gt hm)
      unfold drrSelect
      dsimp only
      rw [show (e.scanned credits visit clock).cfg = e.cfg from rfl, hround]
      rfl
    · exact absurd hcovers (hnone p (Nat.zero_le p) hp)
  | succ l ih =>
    rcases hround with ⟨p', d, -, -, hp', -, hcovers', -⟩ | ⟨-, credits', visit', any, hscan, hany, hround⟩
    · exact absurd hcovers' (hshort k (by omega) p' hp')
    · obtain ⟨r, hr, hbacklog⟩ := hqueued
      obtain rfl : any = true := hany ⟨r, Nat.zero_le r, hr, hbacklog⟩
      have hsum : k + 1 + l = k + (l + 1) := by omega
      have hnext := hscan.next ⟨r, hr, hbacklog⟩
      have hround' := drrRound_scanned (satAdd64 clock (drrRoundDelay e.cfg)) e.cfg.numChannels (Nat.zero_add _) hnext
      rw [← List.range_eq_range'] at hround'
      obtain ⟨d, credits'', hd, hselect⟩ := ih (by rw [hsum]; exact hshort) (by rw [hsum]; exact hcovers)
        (by rw [hsum]; exact hfirst) (satAdd64 clock (drrRoundDelay e.cfg)) hnext hround'
      refine ⟨d, credits'', hd, fun m hm => ?_⟩
      obtain ⟨m, rfl⟩ := Nat.exists_eq_succ_of_ne_zero (Nat.ne_of_gt (Nat.lt_of_le_of_lt (Nat.zero_le _) hm))
      unfold drrSelect
      dsimp only
      rw [show (e.scanned credits visit clock).cfg = e.cfg from rfl, hround]
      show drrSelect m (drrChargeRoundDelay (e.scanned credits' visit' clock) e.cfg.drrRoundIssueCycles) = _
      rw [drrChargeRoundDelay_scanned, hselect m (Nat.lt_of_succ_lt_succ hm)]
      rfl

end

/-- Some round finds a channel that can pay. -/
theorem exists_round_covers {e : TuDmaEngine} (hqueued : ∃ p < e.cfg.numChannels, e.heads (e.arb.probed p) ≠ none) :
    ∃ p < e.cfg.numChannels, e.arb.Covers e.heads uint64Max (e.arb.probed p) := by
  obtain ⟨p, hp, hhead⟩ := hqueued
  obtain ⟨d, hd⟩ := Option.ne_none_iff_exists'.1 hhead
  refine ⟨p, hp, d, hd, Nat.le_trans (descriptorDrrCost_le _ _) ?_⟩
  have hquanta : uint64Max ≤ e.arb.quanta e.heads (e.arb.probed p) (uint64Max + 1) := by
    unfold ArbView.quanta
    split <;> omega
  have hgrant : 0 < drrQuantum e.arb.cfg * drrWeight e.arb.cfg (e.arb.probed p) :=
    Nat.mul_pos (drrQuantum_pos _) (drrWeight_pos _ _)
  have hmul := Nat.mul_le_mul hquanta hgrant
  rw [Nat.succ_eq_add_one, Nat.zero_add, Nat.mul_one] at hmul
  exact Nat.le_min_of_le_of_le (Nat.le_refl _) (Nat.le_trans hmul (Nat.le_add_left _ _))

/-- The delay of a grant found by the last of `probes` probes. -/
def drrSelectDelay (cfg : TuDmaConfig) (probes : Nat) : Nat :=
  satMul64 cfg.drrSelectIssueCycles (match cfg.drrRoundCostMode with
    | .fixed => 1
    | .perChannel => drrScanGroups cfg cfg.numChannels cfg.drrSelectScanWidth
    | .perVisitedChannel => drrScanGroups cfg probes cfg.drrSelectScanWidth)

theorem drrGrant_currentCycle (e : TuDmaEngine) (i d probe : Nat) :
    (drrGrant e i d probe).currentCycle = satAdd64 e.currentCycle (drrSelectDelay e.cfg (probe + 1)) := by
  have hadvance : ∀ u : TuDmaEngine, (drrAdvance u i).currentCycle = u.currentCycle := fun u => by
    unfold drrAdvance
    dsimp only
    split <;> rfl
  have hreset : ∀ u : TuDmaEngine, (drrResetIdle u i).currentCycle = u.currentCycle := fun u => by
    unfold drrResetIdle
    split <;> rfl
  unfold drrGrant
  dsimp only
  rw [hadvance, tuDmaExecuteDesc_currentCycle, hreset]
  rfl

theorem grantsOf_start (v : QueueView) (i d cost : Nat) :
    grantsOf (v.start i d (some cost)).log = grantsOf v.log ++ [(i, cost)] := by
  have hexec : grantsOf (v.execEvents d) = [] := by
    unfold QueueView.execEvents
    split <;> rfl
  rw [QueueView.start_log, grantsOf_append, grantsOf_append, hexec, List.append_nil]
  rfl

theorem tickChannels_currentCycle (e : TuDmaEngine) :
    (tickChannels e).1.currentCycle = u64 (e.currentCycle + 1) := by
  have hstep : ∀ (s : TuDmaEngine × Nat) i, (tickChannel s i).1.currentCycle = s.1.currentCycle := fun s i => by
    have hretire : (retireActive s i).1.currentCycle = s.1.currentCycle := by
      unfold retireActive
      split
      · rfl
      · split <;> rfl
    unfold tickChannel startIndependent
    dsimp only
    split
    · split
      · rw [tuDmaExecuteDesc_currentCycle]
        exact hretire
      · exact hretire
    · exact hretire
  have hfold : ∀ (l : List Nat) (s : TuDmaEngine × Nat),
      (l.foldl tickChannel s).1.currentCycle = s.1.currentCycle := fun l => by
    induction l with
    | nil => exact fun _ => rfl
    | cons i l ih => exact fun s => (ih _).trans (hstep s i)
  exact hfold _ _

/-- From any state with queued descriptors: in the first round in which the credits of some channel cover the cost of
its head, the first such channel of the scan has its head activated. -/
theorem drrSelect_selects {e : TuDmaEngine} (hclock : e.currentCycle ≤ uint64Max)
    (hqueued : ∃ c < e.cfg.numChannels, e.heads c ≠ none) :
    ∃ k ≤ uint64Max, ∃ p d selected, p < e.cfg.numChannels ∧ e.heads (e.arb.probed p) = some d ∧
      (∀ j < k, ∀ r < e.cfg.numChannels, ¬ e.arb.Covers e.heads j (e.arb.probed r)) ∧
      e.arb.Covers e.heads k (e.arb.probed p) ∧ (∀ r < p, ¬ e.arb.Covers e.heads k (e.arb.probed r)) ∧
      (∀ rounds > k, drrSelect rounds e = selected) ∧
      selected.view = e.view.start (e.arb.probed p) d (some (descriptorDrrCost e.cfg (e.heap d))) ∧
      selected.currentCycle =
        satAdd64 (min uint64Max (e.currentCycle + k * drrRoundDelay e.cfg)) (drrSelectDelay e.cfg (p + 1)) := by
  classical
  obtain ⟨c, hc, hhead⟩ := hqueued
  obtain ⟨r, hr, rfl⟩ := e.arb.exists_probed hc
  have hqueued : ∃ p < e.cfg.numChannels, e.heads (e.arb.probed p) ≠ none := ⟨r, hr, hhead⟩
  -- the first round, and the first probe in it
  have hround : ∃ k, ∃ p < e.cfg.numChannels, e.arb.Covers e.heads k (e.arb.probed p) :=
    ⟨uint64Max, exists_round_covers hqueued⟩
  have hk := Nat.find_spec hround
  have hkle : Nat.find hround ≤ uint64Max := Nat.find_min' hround (exists_round_covers hqueued)
  have hkmin : ∀ j < Nat.find hround, ∀ r < e.cfg.numChannels, ¬ e.arb.Covers e.heads j (e.arb.probed r) :=
    fun j hj r hr hc => Nat.find_min hround hj ⟨r, hr, hc⟩
  generalize Nat.find hround = k at hk hkle hkmin
  have hp := Nat.find_spec hk
  have hpmin : ∀ r < Nat.find hk, ¬ e.arb.Covers e.heads k (e.arb.probed r) := fun r hr hc =>
    Nat.find_min hk hr ⟨Nat.lt_trans hr hp.1, hc⟩
  generalize Nat.find hk = p at hp hpmin
  have hsum : 0 + k = k := Nat.zero_add k
  obtain ⟨d, credits, hd, hselect⟩ := drrSelect_scanned hqueued (by rw [hsum]; exact hkmin) hp.1
    (by rw [hsum]; exact hp.2) (by rw [hsum]; exact hpmin) e.currentCycle (Scanned.start e)
  rw [scanned_self] at hselect
  refine ⟨k, hkle, p, d, _, hp.1, hd, hkmin, hp.2, hpmin, hselect, ?_, ?_⟩
  · rw [view_drrGrant, view_scanned]
    rfl
  · rw [drrGrant_currentCycle, ← satAdd64_iterate _ _ hclock]
    rfl

/-- A tick of an idle shared bus with queued descriptors, in any state and under any configuration of deficit round
robin: in the first round in which the credits of some channel cover the cost of its head, the first such channel of
the scan has its head activated, and no other channel has.  Each round before it costs one delay. -/
theorem tuDmaTick_selects {e : TuDmaEngine} (hbus : e.cfg.busMode = .sharedSerial)
    (hpolicy : e.cfg.arbPolicy = .deficitRoundRobin) (hidle : busBusy (tickChannels e).1 = false)
    (hqueued : ∃ c < e.cfg.numChannels, e.heads c ≠ none) :
    ∃ k p d, p < e.cfg.numChannels ∧ e.heads (e.arb.probed p) = some d ∧
      (∀ j < k, ∀ r < e.cfg.numChannels, ¬ e.arb.Covers e.heads j (e.arb.probed r)) ∧
      e.arb.Covers e.heads k (e.arb.probed p) ∧ (∀ r < p, ¬ e.arb.Covers e.heads k (e.arb.probed r)) ∧
      (∀ rounds > k, drrSelect rounds (tickChannels e).1 = (tuDmaTick e).1) ∧
      (∀ c < e.cfg.numChannels,
        ((tuDmaTick e).1.channels c).active = if c = e.arb.probed p then some d else none) ∧
      grantsOf (tuDmaTick e).1.log = grantsOf e.log ++ [(e.arb.probed p, descriptorDrrCost e.cfg (e.heap d))] ∧
      (tuDmaTick e).1.currentCycle =
        satAdd64 (min uint64Max (u64 (e.currentCycle + 1) + k * drrRoundDelay e.cfg))
          (drrSelectDelay e.cfg (p + 1)) := by
  have hclock := tickChannels_currentCycle e
  obtain ⟨harb, hhead⟩ := tickChannels_shared hbus
  rw [drrTick_eq hbus hpolicy, if_pos hidle]
  generalize (tickChannels e).1 = t at hclock harb hhead hidle
  have hheads : t.heads = e.heads := funext hhead
  have hcfg : t.cfg = e.cfg := congrArg ArbView.cfg harb
  have hcost : ∀ d, descriptorDrrCost t.cfg (t.heap d) = descriptorDrrCost e.cfg (e.heap d) := fun d =>
    congrArg (fun a : ArbView => (a.desc d).cost) harb
  have hlog : grantsOf t.log = grantsOf e.log := congrArg ArbView.grants harb
  have hmax : t.currentCycle ≤ uint64Max := by
    rw [hclock]
    exact Nat.le_pred_of_lt (Nat.mod_lt _ (by decide))
  obtain ⟨k, hk, p, d, selected, hp, hd, hkmin, hcovers, hpmin, hselect, hview, hcycle⟩ :=
    drrSelect_selects hmax (by rw [hheads, hcfg]; exact hqueued)
  rw [harb, hheads, hcfg] at hkmin
  rw [harb, hheads] at hcovers hpmin hd
  rw [harb, hcost] at hview
  rw [hcfg, hclock] at hcycle
  rw [hcfg] at hp
  have hrounds : drrSelect drrRounds t = selected := hselect _ (Nat.lt_of_le_of_lt hk (by decide))
  rw [hrounds]
  refine ⟨k, p, d, hp, hd, hkmin, hcovers, hpmin, hselect, fun c hc => ?_, ?_, hcycle⟩
  · show (selected.view.channels c).active = _
    rw [hview]
    by_cases hsel : c = e.arb.probed p
    · rw [if_pos hsel, hsel, QueueView.start_self]
    · rw [if_neg hsel, QueueView.start_of_ne _ _ _ hsel]
      have hbusy := List.any_eq_false.1 hidle c (List.mem_range.2 (hcfg ▸ hc))
      exact Option.not_isSome_iff_eq_none.1 hbusy
  · show grantsOf selected.view.log = _
    rw [hview, grantsOf_start]
    exact congrArg (· ++ _) hlog

theorem tuDmaTick_selects_third_round :
    let cfg : TuDmaConfig :=
      { asyncMode := true, numChannels := 2, maxDepth := 4, busMode := .sharedSerial, arbPolicy := .deficitRoundRobin,
        drrQuantumBytes := 4, drrRoundIssueCycles := 5, numChannels_pos := by decide, numChannels_le := by decide,
        maxDepth_pos := by decide, drrRoundIssueCycles_le := by decide }
    let desc := tuDmaDescCreateLinear 1 1 .hostToTu (some 0) 0 (some 0) 12 1
    let e := TuDmaEngine.run cfg (Memory.zero 16) [.submit [desc]]
    ∃ k p d, e.heads (e.arb.probed p) = some d ∧
      (∀ rounds > k, drrSelect rounds (tickChannels e).1 = (tuDmaTick e).1) ∧
      ((tuDmaTick e).1.channels (e.arb.probed p)).active = some d := by
  intro cfg desc e
  obtain ⟨k, p, d, hp, hd, -, -, -, hselect, hactive, -⟩ :=
    @tuDmaTick_selects e rfl rfl (by decide +kernel) ⟨1, by decide +kernel, by decide +kernel⟩
  exact ⟨k, p, d, hd, hselect, by rw [hactive _ (e.arb.probed_lt p), if_pos rfl]⟩

end Tusim
