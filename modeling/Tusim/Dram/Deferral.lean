import Tusim.Dram.Refresh

/-!
# Deferred refresh

A deferred refresh fires at the first access after its instant, and at its deadline at the latest.  `tu_dram_set_refresh`
bounds the deferral by `tREFI` before the rate is taken into account, and the catch-up does not clamp it to the
effective interval, as the comment above it says.  Two refreshes of a slot are never more than the effective interval
plus the deferral apart, and this is attained: an access at an instant, then nothing until the next deadline
(`run_apart_attained`).
-/

namespace Tusim

open Periodic TuDramRuntime

/-- Consecutive refreshes of every slot are at most twice the effective interval apart, in every run. -/
def DeferredApart (dram : TuDramRuntime) : Prop :=
  ∀ ops, ∀ slot < refreshSlots dram.setup, ∀ k time time',
    ((Run.exec step dram ops).refresh.fired slot)[k]? = some time →
    ((Run.exec step dram ops).refresh.fired slot)[k + 1]? = some time' →
    time ≤ time' ∧ time' ≤ time + 2 * refreshEffectiveInterval dram.setup

section

variable {setup : TuDramSetup}

/-- Ticks before the next deadline of a slot. -/
private theorem exec_ticks {dram : TuDramRuntime} (htype : dram.setup.type ≠ .ideal)
    (hsched : dram.setup.refreshScheduling = .deferred) {slot : Nat} (hslot : slot < refreshSlots dram.setup) {n : Nat}
    (hn : n = 0 ∨ dram.currentCycle + n < (dram.timer slot).due + dram.setup.refreshMaxDeferralCycles) :
    (Run.exec step dram (List.replicate n .tick)).setup = dram.setup ∧
      (Run.exec step dram (List.replicate n .tick)).currentCycle = dram.currentCycle + n ∧
      (Run.exec step dram (List.replicate n .tick)).timer slot = dram.timer slot := by
  induction n generalizing dram with
  | zero => exact ⟨rfl, rfl, rfl⟩
  | succ n ih =>
    have hsetup := step_setup dram .tick
    have hcycle : (dram.step .tick).currentCycle = dram.currentCycle + 1 := (step_schedule dram .tick).1
    have hnone : refreshFireAt dram.setup (dram.currentCycle + 1) false (dram.timer slot).due = none := by
      unfold refreshFireAt
      rw [hsched]
      split
      · rfl
      · simp only [Bool.false_eq_true, if_false]
        rw [if_neg (by omega)]
    have htimer : (dram.step .tick).timer slot = dram.timer slot :=
      (step_timer htype rfl hslot).trans (Timer.catchUp_of_none hnone _)
    obtain ⟨h₁, h₂, h₃⟩ := @ih (dram.step .tick) (hsetup ▸ htype) (hsetup ▸ hsched) (hsetup ▸ hslot)
      (Or.inr (by rw [htimer, hcycle, hsetup]; omega))
    rw [List.replicate_succ, Run.exec_cons]
    exact ⟨h₁.trans hsetup, by rw [h₂, hcycle]; omega, h₃.trans htimer⟩

/-- An access at an instant and the next deadline, one refresh at each. -/
theorem run_apart_attained (htype : setup.type ≠ .ideal) (hmode : setup.refreshMode ≠ .none)
    (hsched : setup.refreshScheduling = .deferred) (hpos : 0 < setup.refreshMaxDeferralCycles) :
    ∃ ops, (Run.exec step (fresh setup) ops).refresh.fired 0 =
      [refreshFirst setup 0,
        refreshFirst setup 0 + (refreshEffectiveInterval setup + setup.refreshMaxDeferralCycles)] := by
  have hslot : 0 < refreshSlots setup := refreshSlots_pos hmode
  have hperiod := refreshEffectiveInterval_pos hmode
  generalize hfirst : refreshFirst setup 0 = first
  generalize hint : refreshEffectiveInterval setup = interval at hperiod ⊢
  generalize hdef : setup.refreshMaxDeferralCycles = deferral at hpos ⊢
  -- up to the first instant nothing fires
  obtain ⟨hsetup₁, hcycle₁, htimer₁⟩ := @exec_ticks (fresh setup) htype hsched 0 hslot first
    (Or.inr (by
      show 0 + first < refreshFirst setup 0 + setup.refreshMaxDeferralCycles
      rw [hfirst, hdef]
      omega))
  generalize hd₁ : Run.exec step (fresh setup) (List.replicate first .tick) = d₁ at hsetup₁ hcycle₁ htimer₁
  have hstart : (fresh setup).timer 0 = { due := first, fired := [] } := by rw [← hfirst]; rfl
  have hclock : d₁.currentCycle = first := hcycle₁.trans (Nat.zero_add first)
  have hs₁ : d₁.setup = setup := hsetup₁
  -- the access fires the slot at its instant
  have htimer₂ : (d₁.step (.read 0 1)).timer 0 = { due := first + interval, fired := [first] } := by
    have hfire : refreshFireAt setup first true first = some first := by
      unfold refreshFireAt
      rw [hsched, hdef]
      simp only [Nat.lt_irrefl, if_false, if_true]
      rw [if_pos (by omega)]
    have hstop := @refreshFireAt_of_gt setup first (first + interval) true (by omega)
    rw [step_timer (hs₁ ▸ htype) rfl (hs₁ ▸ hslot), hs₁, hint, htimer₁, hstart, hclock]
    show Timer.catchUp interval (refreshFireAt setup first true) (first + 1) _ = _
    simp only [Timer.catchUp, hfire]
    exact Timer.catchUp_of_none hstop _
  have hcycle₂ : (d₁.step (.read 0 1)).currentCycle = first := (step_schedule d₁ (.read 0 1)).1.trans hclock
  have hs₂ : (d₁.step (.read 0 1)).setup = setup := (step_setup d₁ _).trans hs₁
  generalize hd₂ : d₁.step (.read 0 1) = d₂ at htimer₂ hcycle₂ hs₂
  -- no further refresh until just before the next deadline
  obtain ⟨hsetup₃, hcycle₃, htimer₃⟩ := @exec_ticks d₂ (hs₂ ▸ htype) (hs₂ ▸ hsched) 0 (hs₂ ▸ hslot)
    (interval + deferral - 1) (Or.inr (by rw [htimer₂, hcycle₂, hs₂, hdef]; dsimp only; omega))
  generalize hd₃ : Run.exec step d₂ (List.replicate (interval + deferral - 1) .tick) = d₃ at hsetup₃ hcycle₃ htimer₃
  have hs₃ : d₃.setup = setup := hsetup₃.trans hs₂
  -- the tick to the deadline fires it
  have htimer₄ : (d₃.step .tick).timer 0 =
      { due := first + interval + interval, fired := [first, first + (interval + deferral)] } := by
    have hclock₃ : d₃.currentCycle + 1 = first + interval + deferral := by omega
    have hfire : refreshFireAt setup (first + interval + deferral) false (first + interval) =
        some (first + (interval + deferral)) := by
      unfold refreshFireAt
      rw [hsched, hdef, if_neg (by omega)]
      simp only [Bool.false_eq_true, if_false, Nat.le_refl, if_true, Nat.add_assoc]
    have hstop : refreshFireAt setup (first + interval + deferral) false (first + interval + interval) = none := by
      unfold refreshFireAt
      rw [hsched, hdef]
      split
      · rfl
      · simp only [Bool.false_eq_true, if_false]
        rw [if_neg (by omega)]
    rw [step_timer (hs₃ ▸ htype) rfl (hs₃ ▸ hslot), hs₃, hint, htimer₃, htimer₂]
    show Timer.catchUp interval (refreshFireAt setup (d₃.currentCycle + 1) false) (d₃.currentCycle + 1 + 1) _ = _
    rw [hclock₃]
    simp only [Timer.catchUp, hfire]
    exact Timer.catchUp_of_none hstop _
  refine ⟨List.replicate first .tick ++ (.read 0 1 :: (List.replicate (interval + deferral - 1) .tick ++ [.tick])), ?_⟩
  rw [Run.exec_append, hd₁, Run.exec_cons, hd₂, Run.exec_append, hd₃]
  exact congrArg Timer.fired htimer₄

/-- In every run consecutive refreshes are at most the interval and the deferral apart, up or down. -/
theorem run_apart (htype : setup.type ≠ .ideal) (hsched : setup.refreshScheduling = .deferred) (ops : List TuDramOp)
    {slot : Nat} (hslot : slot < refreshSlots setup) {k time time' : Nat}
    (hk : ((Run.exec step (fresh setup) ops).refresh.fired slot)[k]? = some time)
    (hk' : ((Run.exec step (fresh setup) ops).refresh.fired slot)[k + 1]? = some time') :
    time + refreshEffectiveInterval setup ≤ time' + setup.refreshMaxDeferralCycles ∧
      time' ≤ time + (refreshEffectiveInterval setup + setup.refreshMaxDeferralCycles) := by
  have hslack : refreshSlack setup = setup.refreshMaxDeferralCycles := by
    unfold refreshSlack
    rw [hsched]
  rw [← hslack]
  exact ((run_refreshed htype ops).punctual slot hslot).apart hk hk'

end

/-- After deferred refresh is configured on a fresh model, refreshes stay within twice the effective interval in every
run exactly when the deferral is within the effective interval. -/
theorem deferredApart_iff {clock : CoreClock} {setup : TuDramSetup} {mode : TuDramRefreshMode} {rate : UInt32}
    {trefiNs trfcNs trfcPbNs maxDeferralNs : Nat} {dram : TuDramRuntime}
    (h : tuDramSetRefresh clock (fresh setup) mode .deferred rate trefiNs trfcNs trfcPbNs maxDeferralNs = some dram) :
    DeferredApart dram ↔ setup.type = .ideal ∨ mode = .none ∨
      dram.setup.refreshMaxDeferralCycles ≤ refreshEffectiveInterval dram.setup := by
  obtain ⟨hfresh, htype, hmode, hsched⟩ := tuDramSetRefresh_fresh h
  rw [← htype, ← hmode]
  constructor
  · intro hap
    by_contra hcond
    rw [not_or, not_or] at hcond
    obtain ⟨hideal, hnone, hdef⟩ := hcond
    obtain ⟨ops, hops⟩ := run_apart_attained hideal hnone hsched (by omega)
    rw [← hfresh] at hops
    have hgap := (hap ops 0 (refreshSlots_pos hnone) 0 _ _ (by rw [hops]; rfl) (by rw [hops]; rfl)).2
    omega
  · intro hcond ops slot hslot k time time' hk hk'
    by_cases hideal : dram.setup.type = .ideal
    · -- an ideal memory is never refreshed
      have hnil : (Run.exec step dram ops).setup = dram.setup ∧
          (Run.exec step dram ops).refresh = dram.refresh := by
        refine Run.invariant (P := fun d : TuDramRuntime => d.setup = dram.setup ∧ d.refresh = dram.refresh) ?_
          ⟨rfl, rfl⟩ ops
        rintro d op ⟨hs, hr⟩
        exact ⟨(step_setup d op).trans hs, (step_refresh_of_off (Or.inr (hs ▸ hideal)) op).trans hr⟩
      rw [hnil.2, hfresh] at hk
      exact absurd hk (by simp [fresh, refreshInitState])
    · have hdef : dram.setup.refreshMaxDeferralCycles ≤ refreshEffectiveInterval dram.setup := by
        rcases hcond with hcond | hcond | hcond
        · exact absurd hcond hideal
        · exact absurd hcond (mode_ne_none hslot)
        · exact hcond
      rw [hfresh] at hk hk'
      have := run_apart hideal hsched ops hslot hk hk'
      omega

/-- A deferral of at most the effective interval, at rate 2. -/
theorem deferredApart_iff_rate_two :
    ∃ dram, tuDramSetRefresh .oneGhz (tuDramCreate .hbm2) .perBank .deferred 2 7800 350 90 3900 = some dram ∧
      DeferredApart dram := by
  have h : tuDramSetRefresh .oneGhz (fresh (tuDramCreate .hbm2).setup) .perBank .deferred 2 7800 350 90 3900 =
    some _ := rfl
  exact ⟨_, h, (deferredApart_iff h).2 (Or.inr (Or.inr (by decide)))⟩

/-- At rate 4 with the default deferral, an access at the instant 2 and the deadline 12 of the instant 4: refreshes 10
cycles apart with an effective interval of 2. -/
theorem not_deferredApart_rate_four :
    ∃ dram, tuDramSetRefresh .oneGhz (tuDramCreate .hbm2) .allBank .deferred 4 8 3 1 0 = some dram ∧
      refreshEffectiveInterval dram.setup = 2 ∧
      (Run.exec step dram ([.tick, .tick, .read 0 1] ++ List.replicate 10 .tick)).refresh.fired 0 = [2, 12] ∧
      ¬ DeferredApart dram := by
  have hrun : ∀ dram, tuDramSetRefresh .oneGhz (tuDramCreate .hbm2) .allBank .deferred 4 8 3 1 0 = some dram →
      refreshEffectiveInterval dram.setup = 2 ∧
        (Run.exec step dram ([.tick, .tick, .read 0 1] ++ List.replicate 10 .tick)).refresh.fired 0 = [2, 12] := by
    intro dram h
    injection h with h
    subst h
    decide +kernel
  refine ⟨_, rfl, (hrun _ rfl).1, (hrun _ rfl).2, fun hap => ?_⟩
  have hgap := (hap _ 0 (by decide) 0 2 12 (by rw [(hrun _ rfl).2]; rfl) (by rw [(hrun _ rfl).2]; rfl)).2
  rw [(hrun _ rfl).1] at hgap
  exact absurd hgap (by decide)

end Tusim
