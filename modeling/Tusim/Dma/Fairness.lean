import Tusim.Lib.Rotation
import Tusim.Dma.DeficitRoundRobin
import Mathlib.Data.Rat.Cast.Order
import Mathlib.Tactic.FieldSimp
import Mathlib.Tactic.Linarith
import Mathlib.Tactic.Ring

/-!
# Weighted fairness of deficit round robin

The credits of a channel stay below the largest cost, up to the quantum of a visit that continues (`Scanning`).
For two channels that stay backlogged, what they were charged and still hold, divided by the weights, differs by
one quantum for each visit one of them is ahead, and visits alternate: `ArbView.balance` does not change
(`step_balance`).  Both facts together bound the difference of the weighted charges (`run_fairShare`).
-/

namespace Tusim

open Word Rotation

/-- The sum of the costs charged to channel `i`. -/
def charged (grants : List (Nat × Nat)) (i : Nat) : Nat := ((grants.filter (·.1 = i)).map (·.2)).sum

theorem charged_snoc (grants : List (Nat × Nat)) (k cost i : Nat) :
    charged (grants ++ [(k, cost)]) i = charged grants i + if k = i then cost else 0 := by
  unfold charged
  rw [List.filter_append, List.map_append, List.sum_append]
  by_cases hk : k = i <;> simp [hk]

/-! ### Credits -/

/-- A scan at channel `pos`: only a visit of that channel may continue, and the credits of every channel are at
most `max`, the bound on the costs of accepted descriptors, up to the quantum of a visit that continues. -/
structure Scanning (e : TuDmaEngine) (max pos : Nat) : Prop where
  ok : e.view.Ok
  costs : ∀ i, ∀ d ∈ acceptedOn e.log i, (e.arb.desc d).cost ≤ max
  flag : e.arb.continueVisit = true → e.arb.continueChannel = pos
  credits : ∀ i, e.arb.credits i ≤
    max + if e.arb.continueVisit = true ∧ e.arb.continueChannel = i then drrQuantum e.cfg * drrWeight e.cfg i else 0

section

variable {e : TuDmaEngine} {max : Nat}

/-- A visit brings at most one weighted quantum. -/
theorem Scanning.visitCredits_le {pos : Nat} (hs : Scanning e max pos) (i : Nat) :
    e.arb.visitCredits i ≤ max + drrQuantum e.cfg * drrWeight e.cfg i := by
  have hc := hs.credits i
  unfold ArbView.visitCredits
  split
  · rename_i hcont
    rwa [if_pos hcont] at hc
  · rename_i hcont
    rw [if_neg hcont] at hc
    have hadd := satAdd64_le (e.arb.credits i) (satMul64 (drrQuantum e.cfg) (drrWeight e.cfg i))
    have hmul := satMul64_le (drrQuantum e.cfg) (drrWeight e.cfg i)
    show satAdd64 (e.arb.credits i) (satMul64 (drrQuantum e.cfg) (drrWeight e.cfg i)) ≤ _
    omega

theorem Scanning.credits_le {pos i : Nat} (hs : Scanning e max pos) (hi : i ≠ pos) : e.arb.credits i ≤ max := by
  have hc := hs.credits i
  rw [if_neg] at hc
  · exact hc
  · rintro ⟨hv, hch⟩
    exact hi (hch.symm.trans (hs.flag hv))

/-- A probe that leaves no visit to continue. -/
private theorem Scanning.of_idle {u : TuDmaEngine} {pos i : Nat} (hs : Scanning e max i) (hv : u.view = e.view)
    (hdesc : u.arb.desc = e.arb.desc) (hflag : u.arb.continueVisit = false) (hi : u.arb.credits i ≤ max)
    (hother : ∀ k, k ≠ i → u.arb.credits k = e.arb.credits k) : Scanning u max pos := by
  have hlog : u.log = e.log := congrArg QueueView.log hv
  refine ⟨by rw [hv]; exact hs.ok, by rw [hlog, hdesc]; exact hs.costs, fun hf => ?_, fun k => ?_⟩
  · rw [hflag] at hf
    cases hf
  · refine Nat.le_trans ?_ (Nat.le_add_right _ _)
    by_cases hk : k = i
    · rw [hk]
      exact hi
    · rw [hother k hk]
      exact hs.credits_le hk

theorem Scanning.probe (h : e.cfg.FairQueueing) {probe : Nat}
    (hs : Scanning e max ((e.nextSharedChannel + probe) % e.cfg.numChannels)) :
    Scanning (drrProbe e probe).1 max (probeNext e probe) := by
  generalize hi : (e.nextSharedChannel + probe) % e.cfg.numChannels = i at hs
  rcases drrProbe_cases h hi with ⟨-, -, harb, hv⟩ | ⟨d, hd, hshort, -, harb, hv⟩ | ⟨d, hd, -, hr, harb, hv⟩
  · refine hs.of_idle hv (by rw [harb]; rfl) ?_ ?_ fun k hk => ?_
    · rw [harb, ArbView.pass_continueVisit hs.flag]
    · rw [harb]
      show Function.update e.arb.credits i 0 i ≤ max
      rw [Function.update_self]
      exact Nat.zero_le _
    · rw [harb]
      exact Function.update_of_ne hk _ _
  · refine hs.of_idle hv (by rw [harb]; rfl) (by rw [harb]; rfl) ?_ fun k hk => ?_
    · rw [harb]
      show Function.update e.arb.credits i (e.arb.visitCredits i) i ≤ max
      rw [Function.update_self]
      have := hs.costs i d ((hs.ok.within i).head d hd)
      omega
    · rw [harb]
      exact Function.update_of_ne hk _ _
  · have hmem := (hs.ok.within i).head d hd
    have hleft : (e.arb.visit i).left i d (e.next d) ≤ max + drrQuantum e.cfg * drrWeight e.cfg i := by
      have := hs.visitCredits_le i
      unfold ArbView.left ArbView.visit
      dsimp only
      rw [Function.update_self]
      split <;> omega
    have hother : ∀ k, k ≠ i →
        Function.update (e.arb.visit i).credits i ((e.arb.visit i).left i d (e.next d)) k ≤ max := by
      intro k hk
      rw [Function.update_of_ne hk]
      show Function.update e.arb.credits i _ k ≤ max
      rw [Function.update_of_ne hk]
      exact hs.credits_le hk
    have hacc : ∀ j, acceptedOn (drrProbe e probe).1.log j = acceptedOn e.log j := by
      intro j
      have hlog : (drrProbe e probe).1.log = (e.view.start i d (some (e.arb.desc d).cost)).log :=
        congrArg QueueView.log hv
      rw [hlog]
      exact QueueView.acceptedOn_start _ _ _ _ _
    have hdesc : (drrProbe e probe).1.arb.desc = e.arb.desc := by
      rw [harb, ArbView.grant_desc]
      rfl
    have hcfg : (drrProbe e probe).1.cfg = e.cfg := by
      show (drrProbe e probe).1.arb.cfg = _
      rw [harb, ArbView.grant_cfg]
      rfl
    unfold probeNext
    rw [if_pos hr]
    refine ⟨?_, ?_, ?_, ?_⟩
    · rw [hv]
      exact hs.ok.start _ hd
    · intro j x hx
      rw [hacc] at hx
      rw [hdesc]
      exact hs.costs j x hx
    · intro hf
      show (drrProbe e probe).1.arb.continueChannel = (drrProbe e probe).1.arb.cursor
      rw [harb] at hf ⊢
      exact ArbView.grant_continueChannel d _ (e.arb.visit_continueVisit i) hf
    · intro k
      rw [hcfg, harb]
      unfold ArbView.grant
      dsimp only
      split
      · -- the visit continues with the next head
        dsimp only
        by_cases hk : k = i
        · subst hk
          rw [if_pos ⟨rfl, rfl⟩, Function.update_self]
          exact hleft
        · exact Nat.le_trans (hother k hk) (Nat.le_add_right _ _)
      · rename_i hn
        dsimp only
        refine Nat.le_trans ?_ (Nat.le_add_right _ _)
        by_cases hk : k = i
        · subst hk
          rw [Function.update_self]
          -- the next head costs more than what is left
          cases hnext : e.next d with
          | none =>
            unfold ArbView.left
            rw [if_pos rfl]
            exact Nat.zero_le _
          | some b =>
            have hb := hs.costs k b (hs.ok.closed k d b hmem hnext)
            rw [hnext] at hn
            have hlt : ¬ (e.arb.desc b).cost ≤ (e.arb.visit k).left k d (some b) := fun hc => hn (decide_eq_true hc)
            omega
        · exact hother k hk

/-- Every accepted descriptor costs at most `max`. -/
def CostAtMost (max : Nat) (e : TuDmaEngine) : TuDmaOp → Prop
  | .submit descs => (admitted e descs).isSome = true → ∀ desc ∈ descs, descriptorDrrCost e.cfg desc ≤ max
  | .tick | .flush _ => True

instance (max : Nat) (e : TuDmaEngine) : (op : TuDmaOp) → Decidable (CostAtMost max e op)
  | .submit descs => inferInstanceAs (Decidable ((admitted e descs).isSome = true → _))
  | .tick => inferInstanceAs (Decidable True)
  | .flush _ => inferInstanceAs (Decidable True)

private theorem Scanning.tickChannels (h : e.cfg.FairQueueing) {pos : Nat} (hs : Scanning e max pos) :
    Scanning (tickChannels e).1 max pos := by
  have harb := (tickChannels_shared h.bus).1
  have hcfg : (Tusim.tickChannels e).1.cfg = e.cfg := congrArg ArbView.cfg harb
  refine ⟨tickChannels_ok hs.ok, fun i d hd => ?_, ?_, ?_⟩
  · rw [acceptedOn_tickChannels hs.ok] at hd
    rw [harb]
    exact hs.costs i d hd
  · rw [harb]
    exact hs.flag
  · rw [harb, hcfg]
    exact hs.credits

theorem step_scanning (op : TuDmaOp) (h : e.cfg.FairQueueing) (hop : CostAtMost max e op)
    (hcur : e.nextSharedChannel < e.cfg.numChannels) (hs : Scanning e max e.nextSharedChannel) :
    (e.step op).nextSharedChannel < e.cfg.numChannels ∧ Scanning (e.step op) max (e.step op).nextSharedChannel := by
  cases op with
  | submit descs =>
    have hx := arb_submitChain e descs
    have hcursor : (submitChain e descs).1.arb.cursor = e.nextSharedChannel := by
      rw [hx.rest]
      rfl
    show (submitChain e descs).1.arb.cursor < _ ∧
      Scanning (submitChain e descs).1 max (submitChain e descs).1.arb.cursor
    rw [hcursor]
    refine ⟨hcur, step_ok (.submit descs) hs.ok, fun i d hd => ?_, ?_, ?_⟩
    · rcases acceptedOn_submit hs.ok hd with hold | ⟨hadm, hnew⟩
      · have hlt := hs.ok.lt i d hold
        rw [hx.old d fun hm => by
          have hlt : d < e.allocated := hlt
          have := (List.mem_range'_1.1 hm).1
          omega]
        exact hs.costs i d hold
      · obtain ⟨-, -, desc, hmem, hcost⟩ := hx.fresh d hnew
        rw [hcost]
        exact hop hadm desc hmem
    · have hflag := hs.flag
      rw [hx.rest]
      exact hflag
    · have hcredits := hs.credits
      have hcfg : (submitChain e descs).1.cfg = e.cfg := by
        show (submitChain e descs).1.arb.cfg = _
        rw [hx.rest]
        rfl
      rw [hcfg, hx.rest]
      exact hcredits
  | flush channel =>
    have harb := arb_tuDmaFlushChannel e channel
    have hcfg : (tuDmaFlushChannel e channel).cfg = e.cfg := congrArg ArbView.cfg harb
    have hcursor : (tuDmaFlushChannel e channel).nextSharedChannel = e.nextSharedChannel := congrArg ArbView.cursor harb
    show (tuDmaFlushChannel e channel).nextSharedChannel < _ ∧
      Scanning (tuDmaFlushChannel e channel) max (tuDmaFlushChannel e channel).nextSharedChannel
    rw [hcursor]
    refine ⟨hcur, step_ok (.flush channel) hs.ok, fun i d hd => ?_, ?_, ?_⟩
    · rw [acceptedOn_flush hs.ok] at hd
      rw [harb]
      exact hs.costs i d hd
    · rw [harb]
      exact hs.flag
    · rw [harb, hcfg]
      exact hs.credits
  | tick =>
    have hu := hs.tickChannels h
    have harb := (tickChannels_shared h.bus).1
    have hcfg : (tickChannels e).1.cfg = e.cfg := congrArg ArbView.cfg harb
    have hcursor : (tickChannels e).1.nextSharedChannel = e.nextSharedChannel := congrArg ArbView.cursor harb
    rw [← hcursor] at hcur hu
    rw [← hcfg] at h hcur ⊢
    show (tuDmaTick e).1.nextSharedChannel < _ ∧ Scanning (tuDmaTick e).1 max (tuDmaTick e).1.nextSharedChannel
    have hfair : e.cfg.FairQueueing := by
      rw [← hcfg]
      exact h
    rw [drrTick_eq hfair.bus hfair.policy]
    split
    · exact (drrSelect_keeps (P := fun e pos => Scanning e max pos) (fun _ _ h _ hs => hs.probe h)
        (fun _ _ hs => ⟨hs.ok, hs.costs, hs.flag, hs.credits⟩) drrRounds h hcur (drrSelectAll_true _ _) hu).2
    · exact ⟨hcur, hu⟩

end

/-! ### Balance -/

namespace ArbView

/-- Where the next visit that brings credits starts: behind a visit that continues. -/
def place (a : ArbView) (pos : Nat) : Nat := if a.continueVisit = true then (pos + 1) % a.cfg.numChannels else pos

/-- What channel `i` was charged and still holds, in units of its weight. -/
def share (a : ArbView) (i : Nat) : ℚ := (charged a.grants i + a.credits i : ℚ) / drrWeight a.cfg i

/-- The difference of the shares of `i` and `j`, less a quantum when `i` is one visit ahead. -/
def balance (a : ArbView) (i j place : Nat) : ℚ :=
  a.share i - a.share j - turn a.cfg.numChannels i j place * drrQuantum a.cfg

section

variable {a : ArbView} {i j k : Nat}

theorem share_visit_of_ne (h : i ≠ k) : (a.visit k).share i = a.share i := by
  unfold share visit
  dsimp only
  rw [Function.update_of_ne h]

theorem share_visit_self (hsat : ¬ (a.continueVisit = true ∧ a.continueChannel = k) →
      a.credits k + drrQuantum a.cfg * drrWeight a.cfg k ≤ uint64Max) :
    (a.visit k).share k =
      a.share k + if a.continueVisit = true ∧ a.continueChannel = k then 0 else (drrQuantum a.cfg : ℚ) := by
  have hw : (drrWeight a.cfg k : ℚ) ≠ 0 := Nat.cast_ne_zero.2 (Nat.ne_of_gt (drrWeight_pos a.cfg k))
  unfold share visit visitCredits
  dsimp only
  rw [Function.update_self]
  by_cases hc : a.continueVisit = true ∧ a.continueChannel = k
  · rw [if_pos hc, if_pos hc, add_zero]
  · have hle := hsat hc
    have hmul : satMul64 (drrQuantum a.cfg) (drrWeight a.cfg k) = drrQuantum a.cfg * drrWeight a.cfg k :=
      satMul64_of_le (by omega)
    rw [if_neg hc, if_neg hc, hmul, satAdd64_of_le hle]
    push_cast
    field_simp
    ring

/-- A visit that brings credits moves the turn to the other channel, so the balance stays. -/
theorem balance_visit (hi : i < a.cfg.numChannels) (hj : j < a.cfg.numChannels) (hk : k < a.cfg.numChannels)
    (hij : i ≠ j) (hflag : a.continueVisit = true → a.continueChannel = k)
    (hsat : ¬ (a.continueVisit = true ∧ a.continueChannel = k) →
      a.credits k + drrQuantum a.cfg * drrWeight a.cfg k ≤ uint64Max) :
    (a.visit k).balance i j ((k + 1) % a.cfg.numChannels) = a.balance i j (a.place k) := by
  have hself := share_visit_self hsat
  unfold balance place
  show (a.visit k).share i - (a.visit k).share j -
    turn a.cfg.numChannels i j ((k + 1) % a.cfg.numChannels) * drrQuantum a.cfg = _
  by_cases hc : a.continueVisit = true
  · -- the visit continues: no credits, and the turn has already moved
    rw [if_pos ⟨hc, hflag hc⟩, add_zero] at hself
    rw [if_pos hc]
    by_cases hik : i = k
    · subst hik
      rw [hself, share_visit_of_ne (Ne.symm hij)]
    · by_cases hjk : j = k
      · subst hjk
        rw [hself, share_visit_of_ne hij]
      · rw [share_visit_of_ne hik, share_visit_of_ne hjk]
  · rw [if_neg fun h => hc h.1] at hself
    rw [if_neg hc]
    by_cases hik : i = k
    · subst hik
      rw [hself, share_visit_of_ne (Ne.symm hij), turn_next_self hi hj hij, turn_self]
      push_cast
      ring
    · by_cases hjk : j = k
      · subst hjk
        rw [hself, share_visit_of_ne hij, turn_next_other hi hj hij, turn_other hj hij]
        push_cast
        ring
      · rw [share_visit_of_ne hik, share_visit_of_ne hjk, turn_next_of_ne hk hi hj (Ne.symm hik) (Ne.symm hjk)]

theorem balance_pass (hi : i < a.cfg.numChannels) (hj : j < a.cfg.numChannels) (hk : k < a.cfg.numChannels)
    (hik : i ≠ k) (hjk : j ≠ k) : (a.pass k).balance i j ((k + 1) % a.cfg.numChannels) = a.balance i j (a.place k) := by
  have hshare : ∀ x, x ≠ k → (a.pass k).share x = a.share x := by
    intro x hx
    unfold share pass
    dsimp only
    rw [Function.update_of_ne hx]
  unfold balance place
  show (a.pass k).share i - (a.pass k).share j -
    turn a.cfg.numChannels i j ((k + 1) % a.cfg.numChannels) * drrQuantum a.cfg = _
  rw [hshare i hik, hshare j hjk]
  split
  · rfl
  · rw [turn_next_of_ne hk hi hj (Ne.symm hik) (Ne.symm hjk)]

/-- The cost moves from the credits to the charges. -/
theorem share_grant {d : Nat} {next : Option Nat} (hc : (a.desc d).cost ≤ a.credits k) (hnext : i = k → next ≠ none) :
    (a.grant k d next).share i = a.share i := by
  have hgrants : (a.grant k d next).grants = a.grants ++ [(k, (a.desc d).cost)] := by
    unfold grant
    dsimp only
    split <;> rfl
  have hcredits : (a.grant k d next).credits = Function.update a.credits k (a.left k d next) := by
    unfold grant
    dsimp only
    split <;> rfl
  unfold share
  rw [hgrants, hcredits, grant_cfg, charged_snoc]
  by_cases hi : i = k
  · subst hi
    unfold left
    rw [Function.update_self, if_pos rfl, if_neg (hnext rfl), Nat.cast_sub hc]
    push_cast
    ring
  · rw [Function.update_of_ne hi, if_neg (Ne.symm hi), Nat.add_zero]

/-- After a grant the next visit that brings credits starts behind the granted channel. -/
theorem place_grant {d : Nat} {next : Option Nat} (hv : a.continueVisit = false) :
    (a.grant k d next).place (a.grant k d next).cursor = (k + 1) % a.cfg.numChannels := by
  unfold grant place
  dsimp only
  split
  · rfl
  · simp [hv]

end

end ArbView

/-- The probe does not saturate the credits of the channel it visits. -/
def drrUnsaturated (e : TuDmaEngine) (probe : Nat) : Bool :=
  let i := (e.nextSharedChannel + probe) % e.cfg.numChannels
  (e.channels i).head.isNone || (e.drrContinueVisit && e.drrContinueChannel == i) ||
    decide ((e.channels i).drrDeficitCredits + drrQuantum e.cfg * drrWeight e.cfg i ≤ uint64Max)

/-- Channels `i` and `j` are balanced at `sum` when the scan is at `pos`, if both have queued descriptors. -/
structure Balanced (e : TuDmaEngine) (i j : Nat) (sum : ℚ) (pos : Nat) : Prop where
  flag : e.arb.continueVisit = true → e.arb.continueChannel = pos
  balance : (e.channels i).head ≠ none → (e.channels j).head ≠ none → e.arb.balance i j (e.arb.place pos) = sum

section

variable {e : TuDmaEngine} {i j : Nat} {sum : ℚ}

theorem Balanced.probe (h : e.cfg.FairQueueing) (hi : i < e.cfg.numChannels) (hj : j < e.cfg.numChannels) (hij : i ≠ j)
    {probe : Nat} (hsat : drrUnsaturated e probe = true)
    (hb : Balanced e i j sum ((e.nextSharedChannel + probe) % e.cfg.numChannels)) :
    Balanced (drrProbe e probe).1 i j sum (probeNext e probe) := by
  have hk : (e.nextSharedChannel + probe) % e.cfg.numChannels < e.cfg.numChannels := Nat.mod_lt _ e.cfg.numChannels_pos
  unfold drrUnsaturated at hsat
  unfold probeNext
  dsimp only at hsat
  generalize hpos : (e.nextSharedChannel + probe) % e.cfg.numChannels = k at hk hsat hb ⊢
  have hsat' : (e.channels k).head ≠ none → ¬ (e.arb.continueVisit = true ∧ e.arb.continueChannel = k) →
      e.arb.credits k + drrQuantum e.arb.cfg * drrWeight e.arb.cfg k ≤ uint64Max := by
    intro hh hc
    rw [Bool.or_eq_true, Bool.or_eq_true, decide_eq_true_eq] at hsat
    rcases hsat with (hnone | hcont) | hle
    · exact absurd (Option.isNone_iff_eq_none.1 hnone) hh
    · rw [Bool.and_eq_true, beq_iff_eq] at hcont
      exact absurd hcont hc
    · exact hle
  rcases drrProbe_cases h hpos with ⟨hnone, hr, harb, hv⟩ | ⟨d, hd, -, hr, harb, hv⟩ | ⟨d, hd, hcost, hr, harb, hv⟩
  · have hhead : ∀ x, ((drrProbe e probe).1.channels x).head = (e.channels x).head := fun x =>
      congrArg (fun v => (v.channels x).head) hv
    have hcont : (drrProbe e probe).1.arb.continueVisit = false := by
      rw [harb, ArbView.pass_continueVisit hb.flag]
    rw [if_neg (by rw [hr]; simp)]
    refine ⟨fun hf => ?_, fun hhi hhj => ?_⟩
    · rw [hcont] at hf
      cases hf
    · rw [hhead] at hhi hhj
      unfold ArbView.place
      rw [hcont, if_neg (by simp), harb]
      refine Eq.trans (ArbView.balance_pass hi hj hk ?_ ?_) (hb.balance hhi hhj)
      · rintro rfl
        exact hhi hnone
      · rintro rfl
        exact hhj hnone
  · have hhead : ∀ x, ((drrProbe e probe).1.channels x).head = (e.channels x).head := fun x =>
      congrArg (fun v => (v.channels x).head) hv
    have hcont : (drrProbe e probe).1.arb.continueVisit = false := by rw [harb]; rfl
    rw [if_neg (by rw [hr]; simp)]
    refine ⟨fun hf => ?_, fun hhi hhj => ?_⟩
    · rw [hcont] at hf
      cases hf
    · rw [hhead] at hhi hhj
      unfold ArbView.place
      rw [hcont, if_neg (by simp), harb]
      exact (ArbView.balance_visit hi hj hk hij hb.flag (hsat' (by rw [hd]; simp))).trans (hb.balance hhi hhj)
  · rw [if_pos hr]
    have hcursor : (drrProbe e probe).1.nextSharedChannel = (drrProbe e probe).1.arb.cursor := rfl
    rw [hcursor, harb]
    -- the heads before the grant
    have hself : ((drrProbe e probe).1.channels k).head = e.next d := by
      have hview := congrArg (fun v => (v.channels k).head) hv
      rw [QueueView.start_self] at hview
      exact hview
    have hother : ∀ x, x ≠ k → ((drrProbe e probe).1.channels x).head = (e.channels x).head := by
      intro x hx
      have hview := congrArg (fun v => (v.channels x).head) hv
      rw [QueueView.start_of_ne _ _ _ hx] at hview
      exact hview
    have hbefore : ∀ x, ((drrProbe e probe).1.channels x).head ≠ none →
        (e.channels x).head ≠ none ∧ (x = k → e.next d ≠ none) := by
      intro x hx
      by_cases hxk : x = k
      · subst hxk
        rw [hself] at hx
        exact ⟨by rw [hd]; simp, fun _ => hx⟩
      · rw [hother x hxk] at hx
        exact ⟨hx, fun h => absurd h hxk⟩
    have hcost : ((e.arb.visit k).desc d).cost ≤ (e.arb.visit k).credits k := by
      show (e.arb.desc d).cost ≤ Function.update e.arb.credits k (e.arb.visitCredits k) k
      rw [Function.update_self]
      exact hcost
    refine ⟨fun hf => ?_, fun hhi hhj => ?_⟩
    · rw [harb] at hf ⊢
      exact ArbView.grant_continueChannel d _ (e.arb.visit_continueVisit k) hf
    · obtain ⟨hhi, hnexti⟩ := hbefore i hhi
      obtain ⟨hhj, hnextj⟩ := hbefore j hhj
      rw [harb, ArbView.place_grant (e.arb.visit_continueVisit k)]
      have hvisit := (ArbView.balance_visit hi hj hk hij hb.flag (hsat' (by rw [hd]; simp))).trans (hb.balance hhi hhj)
      unfold ArbView.balance at hvisit ⊢
      rw [ArbView.share_grant hcost hnexti, ArbView.share_grant hcost hnextj, ArbView.grant_cfg]
      exact hvisit

/-- At every arbitration channel `i` has a queued descriptor. -/
def Queued (i : Nat) (e : TuDmaEngine) : TuDmaOp → Prop
  | .tick => busBusy (tickChannels e).1 = false → (e.channels i).head ≠ none
  | .submit _ | .flush _ => True

/-- At every arbitration channel `i` has a queued descriptor, also once the grant is made. -/
def Backlogged (i : Nat) (e : TuDmaEngine) : TuDmaOp → Prop
  | .tick => busBusy (tickChannels e).1 = false →
      (e.channels i).head ≠ none ∧ ((tuDmaTick e).1.channels i).head ≠ none
  | .submit _ | .flush _ => True

/-- No visit saturates the credits of its channel. -/
def Unsaturated (e : TuDmaEngine) : TuDmaOp → Prop
  | .tick => busBusy (tickChannels e).1 = false → drrSelectAll drrUnsaturated drrRounds (tickChannels e).1 = true
  | .submit _ | .flush _ => True

instance (i : Nat) (e : TuDmaEngine) : (op : TuDmaOp) → Decidable (Queued i e op)
  | .tick => inferInstanceAs (Decidable (busBusy (tickChannels e).1 = false → _))
  | .submit _ => inferInstanceAs (Decidable True)
  | .flush _ => inferInstanceAs (Decidable True)

instance (i : Nat) (e : TuDmaEngine) : (op : TuDmaOp) → Decidable (Backlogged i e op)
  | .tick => inferInstanceAs (Decidable (busBusy (tickChannels e).1 = false → _))
  | .submit _ => inferInstanceAs (Decidable True)
  | .flush _ => inferInstanceAs (Decidable True)

instance (e : TuDmaEngine) : (op : TuDmaOp) → Decidable (Unsaturated e op)
  | .tick => inferInstanceAs (Decidable (busBusy (tickChannels e).1 = false → _))
  | .submit _ => inferInstanceAs (Decidable True)
  | .flush _ => inferInstanceAs (Decidable True)

/-- While both channels are backlogged, no call changes the balance. -/
theorem step_balance (op : TuDmaOp) (h : e.cfg.FairQueueing) (hi : i < e.cfg.numChannels) (hj : j < e.cfg.numChannels)
    (hij : i ≠ j) (hcur : e.nextSharedChannel < e.cfg.numChannels)
    (hflag : e.arb.continueVisit = true → e.arb.continueChannel = e.nextSharedChannel) (hbi : Backlogged i e op)
    (hbj : Backlogged j e op) (hsat : Unsaturated e op) :
    (e.step op).arb.balance i j ((e.step op).arb.place (e.step op).nextSharedChannel) =
      e.arb.balance i j (e.arb.place e.nextSharedChannel) := by
  cases op with
  | submit descs =>
    have hx := arb_submitChain e descs
    show (submitChain e descs).1.arb.balance i j ((submitChain e descs).1.arb.place (submitChain e descs).1.arb.cursor) =
      e.arb.balance i j (e.arb.place e.arb.cursor)
    rw [hx.rest]
    rfl
  | flush channel =>
    have harb := arb_tuDmaFlushChannel e channel
    show (tuDmaFlushChannel e channel).arb.balance i j
      ((tuDmaFlushChannel e channel).arb.place (tuDmaFlushChannel e channel).arb.cursor) = _
    rw [harb]
    rfl
  | tick =>
    obtain ⟨harb, hhead⟩ := tickChannels_shared h.bus
    have hcfg : (tickChannels e).1.cfg = e.cfg := congrArg ArbView.cfg harb
    have hcursor : (tickChannels e).1.nextSharedChannel = e.nextSharedChannel := congrArg ArbView.cursor harb
    show (tuDmaTick e).1.arb.balance i j ((tuDmaTick e).1.arb.place (tuDmaTick e).1.nextSharedChannel) = _
    by_cases hb : busBusy (tickChannels e).1 = false
    · obtain ⟨hbi, hbi'⟩ := hbi hb
      obtain ⟨hbj, hbj'⟩ := hbj hb
      have hsat := hsat hb
      rw [drrTick_eq h.bus h.policy, if_pos hb] at hbi' hbj' ⊢
      have hstart : (tickChannels e).1.cfg.FairQueueing ∧ i < (tickChannels e).1.cfg.numChannels ∧
          j < (tickChannels e).1.cfg.numChannels := by
        rw [hcfg]
        exact ⟨h, hi, hj⟩
      refine (drrSelect_keeps (g := drrUnsaturated)
        (P := fun u pos => (u.cfg = e.cfg) ∧
          Balanced u i j (e.arb.balance i j (e.arb.place e.nextSharedChannel)) pos)
        (fun u probe hu hg hP => ⟨?_, ?_⟩) (fun u c hP => ⟨hP.1, hP.2.flag, hP.2.balance⟩) drrRounds hstart.1
        (by rw [hcfg, hcursor]; exact hcur) hsat ⟨hcfg, ?_, fun _ _ => ?_⟩).2.2.2.balance hbi' hbj'
      · exact (drrProbe_cfg hu probe).trans hP.1
      · exact hP.2.probe hu (by rw [hP.1]; exact hi) (by rw [hP.1]; exact hj) hij hg
      · rw [harb, hcursor]
        exact hflag
      · rw [harb, hcursor]
    · rw [drrTick_eq h.bus h.policy, if_neg hb, harb, hcursor]

end

/-! ### Runs -/

/-- The charges of channel `i` are bounded by those a turn of credits explains. -/
private theorem Scanning.credits_turn {e : TuDmaEngine} {max pos i j : Nat} (hs : Scanning e max pos)
    (hi : i < e.cfg.numChannels) (hj : j < e.cfg.numChannels) (hij : i ≠ j) :
    e.arb.credits i ≤ max + turn e.cfg.numChannels i j (e.arb.place pos) * (drrQuantum e.cfg * drrWeight e.cfg i) ∧
      e.arb.credits j ≤
        max + (1 - turn e.cfg.numChannels i j (e.arb.place pos)) * (drrQuantum e.cfg * drrWeight e.cfg j) := by
  have hci := hs.credits i
  have hcj := hs.credits j
  unfold ArbView.place
  by_cases hf : e.arb.continueVisit = true
  · have hpos := hs.flag hf
    rw [if_pos hf]
    have hcfg : e.arb.cfg = e.cfg := rfl
    rw [hcfg]
    by_cases hpi : pos = i
    · -- the visit of `i` continues: the turn is `j`'s
      subst hpi
      rw [if_pos ⟨hf, hpos⟩] at hci
      rw [if_neg fun hc => hij (hpos.symm.trans hc.2)] at hcj
      rw [turn_next_self hi hj hij, Nat.one_mul]
      exact ⟨hci, by omega⟩
    · rw [if_neg fun hc => hpi (hpos.symm.trans hc.2)] at hci
      by_cases hpj : pos = j
      · subst hpj
        rw [if_pos ⟨hf, hpos⟩] at hcj
        rw [turn_next_other hi hj hij, Nat.sub_zero, Nat.one_mul]
        exact ⟨by omega, hcj⟩
      · rw [if_neg fun hc => hpj (hpos.symm.trans hc.2)] at hcj
        exact ⟨Nat.le_trans hci (Nat.add_le_add_left (Nat.zero_le _) _),
          Nat.le_trans hcj (Nat.add_le_add_left (Nat.zero_le _) _)⟩
  · rw [if_neg fun hc => hf hc.1] at hci hcj
    exact ⟨Nat.le_trans hci (Nat.add_le_add_left (Nat.zero_le _) _),
      Nat.le_trans hcj (Nat.add_le_add_left (Nat.zero_le _) _)⟩

/-- The charges `s` and `t` of channels `i` and `j`, divided by the weights, differ by at most the quantum and the
weighted largest costs. -/
def FairShare (cfg : TuDmaConfig) (i j max : Nat) (s t : ℚ) : Prop :=
  |s / drrWeight cfg i - t / drrWeight cfg j| ≤ drrQuantum cfg + max / drrWeight cfg i + max / drrWeight cfg j

/-- Equal balances before and after a stretch bound the difference of the charges in between. -/
private theorem fairShare_of_balance {cfg : TuDmaConfig} {s e : TuDmaEngine} {i j max : Nat} (hscfg : s.cfg = cfg)
    (hecfg : e.cfg = cfg) (hi : i < cfg.numChannels) (hj : j < cfg.numChannels) (hij : i ≠ j)
    (hs : Scanning s max s.nextSharedChannel) (he : Scanning e max e.nextSharedChannel)
    (hb : e.arb.balance i j (e.arb.place e.nextSharedChannel) = s.arb.balance i j (s.arb.place s.nextSharedChannel)) :
    FairShare cfg i j max (charged (grantsOf e.log) i - charged (grantsOf s.log) i)
      (charged (grantsOf e.log) j - charged (grantsOf s.log) j) := by
  -- the credits of a channel in units of its weight
  have hcredits : ∀ {u : TuDmaEngine}, u.cfg = cfg → Scanning u max u.nextSharedChannel →
      (0 ≤ (u.arb.credits i : ℚ) / drrWeight cfg i ∧ (u.arb.credits i : ℚ) / drrWeight cfg i ≤
        max / drrWeight cfg i + turn cfg.numChannels i j (u.arb.place u.nextSharedChannel) * drrQuantum cfg) ∧
      0 ≤ (u.arb.credits j : ℚ) / drrWeight cfg j ∧ (u.arb.credits j : ℚ) / drrWeight cfg j ≤
        max / drrWeight cfg j + (1 - turn cfg.numChannels i j (u.arb.place u.nextSharedChannel)) * drrQuantum cfg := by
    intro u hcfg hu
    obtain ⟨hci, hcj⟩ := hu.credits_turn (by rw [hcfg]; exact hi) (by rw [hcfg]; exact hj) hij
    rw [hcfg] at hci hcj
    have hwi : (0 : ℚ) < drrWeight cfg i := Nat.cast_pos.2 (drrWeight_pos cfg i)
    have hwj : (0 : ℚ) < drrWeight cfg j := Nat.cast_pos.2 (drrWeight_pos cfg j)
    have hturn : turn cfg.numChannels i j (u.arb.place u.nextSharedChannel) ≤ 1 := turn_le_one
    generalize turn cfg.numChannels i j (u.arb.place u.nextSharedChannel) = t at hci hcj hturn ⊢
    refine ⟨⟨div_nonneg (Nat.cast_nonneg _) hwi.le, ?_⟩, div_nonneg (Nat.cast_nonneg _) hwj.le, ?_⟩
    · have hcast : (u.arb.credits i : ℚ) ≤ max + t * (drrQuantum cfg * drrWeight cfg i) := by exact_mod_cast hci
      rw [div_le_iff₀ hwi, add_mul, div_mul_cancel₀ _ (ne_of_gt hwi)]
      linarith
    · have hcast : (u.arb.credits j : ℚ) ≤ max + ((1 - t : Nat) : ℚ) * (drrQuantum cfg * drrWeight cfg j) := by
        exact_mod_cast hcj
      rw [Nat.cast_sub hturn, Nat.cast_one] at hcast
      rw [div_le_iff₀ hwj, add_mul, div_mul_cancel₀ _ (ne_of_gt hwj)]
      linarith
  obtain ⟨⟨hsi, hsi'⟩, hsj, hsj'⟩ := hcredits hscfg hs
  obtain ⟨⟨hei, hei'⟩, hej, hej'⟩ := hcredits hecfg he
  unfold ArbView.balance ArbView.share at hb
  have hsarb : s.arb.cfg = cfg := hscfg
  have hearb : e.arb.cfg = cfg := hecfg
  rw [hsarb, hearb, add_div, add_div, add_div, add_div] at hb
  have hgs : s.arb.grants = grantsOf s.log := rfl
  have hge : e.arb.grants = grantsOf e.log := rfl
  rw [hgs, hge] at hb
  unfold FairShare
  rw [sub_div, sub_div, abs_le]
  constructor <;> linarith

private theorem fairShare_self (cfg : TuDmaConfig) (i max : Nat) (s : ℚ) : FairShare cfg i i max s s := by
  unfold FairShare
  rw [sub_self, abs_zero]
  have hmax : (0 : ℚ) ≤ max / drrWeight cfg i := div_nonneg (Nat.cast_nonneg _) (Nat.cast_nonneg _)
  exact add_nonneg (add_nonneg (Nat.cast_nonneg _) hmax) hmax

/-- Over a stretch of a run in which two channels are backlogged, deficit round robin charges them in proportion to
their weights, up to the quantum and the largest costs. -/
theorem run_fairShare (cfg : TuDmaConfig) (mem : Memory) (ops ops' : List TuDmaOp) (i j max : Nat)
    (h : cfg.FairQueueing) (hi : i < cfg.numChannels) (hj : j < cfg.numChannels)
    (hcost : Run.Along (CostAtMost max) TuDmaEngine.step (TuDmaEngine.fresh cfg mem) (ops ++ ops'))
    (hrun : Run.Along (fun e op => Backlogged i e op ∧ Backlogged j e op ∧ Unsaturated e op) TuDmaEngine.step
      (TuDmaEngine.run cfg mem ops) ops') :
    FairShare cfg i j max
      (charged (grantsOf (TuDmaEngine.run cfg mem (ops ++ ops')).log) i -
        charged (grantsOf (TuDmaEngine.run cfg mem ops).log) i)
      (charged (grantsOf (TuDmaEngine.run cfg mem (ops ++ ops')).log) j -
        charged (grantsOf (TuDmaEngine.run cfg mem ops).log) j) := by
  by_cases hij : i = j
  · subst hij
    exact fairShare_self cfg i max _
  have hexec : TuDmaEngine.run cfg mem (ops ++ ops') = Run.exec TuDmaEngine.step (TuDmaEngine.run cfg mem ops) ops' :=
    Run.exec_append _ _ _ _
  obtain ⟨hcost, hcost'⟩ := Run.along_append.1 hcost
  have hfresh : Scanning (TuDmaEngine.fresh cfg mem) max (TuDmaEngine.fresh cfg mem).nextSharedChannel := by
    refine ⟨fresh_ok cfg mem, fun k d hd => ?_, fun hf => ?_, fun k => Nat.zero_le _⟩
    · cases hd
    · cases hf
  -- the credits stay bounded along the whole run
  have hscan : ∀ e op, e.cfg = cfg ∧ e.nextSharedChannel < e.cfg.numChannels ∧ Scanning e max e.nextSharedChannel →
      CostAtMost max e op → (e.step op).cfg = cfg ∧ (e.step op).nextSharedChannel < (e.step op).cfg.numChannels ∧
        Scanning (e.step op) max (e.step op).nextSharedChannel := by
    intro e op he hop
    have hstep := step_cfg op he.2.2.ok
    obtain ⟨hcur, hs⟩ := step_scanning op (by rw [he.1]; exact h) hop he.2.1 he.2.2
    exact ⟨hstep.trans he.1, by rw [hstep]; exact hcur, hs⟩
  have hstart : (TuDmaEngine.run cfg mem ops).cfg = cfg ∧
      (TuDmaEngine.run cfg mem ops).nextSharedChannel < (TuDmaEngine.run cfg mem ops).cfg.numChannels ∧
      Scanning (TuDmaEngine.run cfg mem ops) max (TuDmaEngine.run cfg mem ops).nextSharedChannel :=
    hcost.invariant
      (P := fun e => e.cfg = cfg ∧ e.nextSharedChannel < e.cfg.numChannels ∧ Scanning e max e.nextSharedChannel) hscan
      ⟨rfl, cfg.numChannels_pos, hfresh⟩
  have hcost' : Run.Along (CostAtMost max) TuDmaEngine.step (TuDmaEngine.run cfg mem ops) ops' := hcost'
  rw [hexec]
  generalize TuDmaEngine.run cfg mem ops = s at *
  have hend := (hcost'.and hrun).invariant
    (P := fun e => (e.cfg = cfg ∧ e.nextSharedChannel < e.cfg.numChannels ∧ Scanning e max e.nextSharedChannel) ∧
      e.arb.balance i j (e.arb.place e.nextSharedChannel) = s.arb.balance i j (s.arb.place s.nextSharedChannel))
    (fun e op he hop => by
      obtain ⟨⟨hcfg, hcur, hs⟩, hb⟩ := he
      obtain ⟨hop, hbi, hbj, hsat⟩ := hop
      refine ⟨hscan e op ⟨hcfg, hcur, hs⟩ hop, ?_⟩
      rw [← hb]
      subst hcfg
      exact step_balance op h hi hj hij hcur hs.flag hbi hbj hsat)
    ⟨hstart, rfl⟩
  exact fairShare_of_balance hstart.1 hend.1.1 hi hj hij hstart.2.2 hend.1.2.2 hend.2

theorem run_fairShare_two :
    let cfg : TuDmaConfig :=
      { asyncMode := true, numChannels := 2, maxDepth := 4, busMode := .sharedSerial, arbPolicy := .deficitRoundRobin,
        drrServiceMode := .workConserving, numChannels_pos := by decide, numChannels_le := by decide,
        maxDepth_pos := by decide }
    let desc := tuDmaDescCreateLinear 1 0 .hostToTu (some 0) 0 (some 0) 4 1
    let desc' := tuDmaDescCreateLinear 2 1 .hostToTu (some 0) 0 (some 0) 8 1
    let ops : List TuDmaOp := [.submit [desc], .submit [desc], .submit [desc'], .submit [desc']]
    FairShare cfg 0 1 8
      (charged (grantsOf (TuDmaEngine.run cfg (Memory.zero 16) (ops ++ [.tick])).log) 0 -
        charged (grantsOf (TuDmaEngine.run cfg (Memory.zero 16) ops).log) 0)
      (charged (grantsOf (TuDmaEngine.run cfg (Memory.zero 16) (ops ++ [.tick])).log) 1 -
        charged (grantsOf (TuDmaEngine.run cfg (Memory.zero 16) ops).log) 1) :=
  run_fairShare _ _ _ _ 0 1 8 ⟨rfl, rfl, rfl, rfl⟩ (by decide) (by decide) (by decide +kernel) (by decide +kernel)

/-- A queue that its own grant empties loses its credits: refilled before the next arbitration, it is again charged
only one small descriptor a round while the other channel is charged a large one. -/
theorem queued_not_fairShare :
    let cfg : TuDmaConfig :=
      { asyncMode := true, numChannels := 2, maxDepth := 4, busMode := .sharedSerial, arbPolicy := .deficitRoundRobin,
        drrServiceMode := .workConserving, drrQuantumBytes := 16, numChannels_pos := by decide,
        numChannels_le := by decide, maxDepth_pos := by decide }
    let small := tuDmaDescCreateLinear 1 0 .hostToTu (some 0) 0 (some 0) 1 1
    let large := tuDmaDescCreateLinear 2 1 .hostToTu (some 0) 0 (some 0) 16 1
    let ops : List TuDmaOp :=
      [.submit [small], .submit [large], .tick, .submit [small], .tick, .submit [large], .tick, .submit [small], .tick,
        .submit [large], .tick, .submit [small], .tick, .submit [large], .tick, .submit [small], .tick]
    let grants := grantsOf (TuDmaEngine.run cfg (Memory.zero 16) ops).log
    cfg.FairQueueing ∧ Run.Along (CostAtMost 16) TuDmaEngine.step (TuDmaEngine.fresh cfg (Memory.zero 16)) ops ∧
      Run.Along (fun e op => Queued 0 e op ∧ Queued 1 e op ∧ Unsaturated e op) TuDmaEngine.step
        (TuDmaEngine.fresh cfg (Memory.zero 16)) ops ∧
      ¬ FairShare cfg 0 1 16 (charged grants 0) (charged grants 1) := by
  intro cfg small large ops grants
  refine ⟨⟨rfl, rfl, rfl, rfl⟩, by decide +kernel, by decide +kernel, ?_⟩
  · have h0 : charged grants 0 = 4 := by decide +kernel
    have h1 : charged grants 1 = 64 := by decide +kernel
    have hw : ∀ k, drrWeight cfg k = 1 := fun _ => rfl
    have hq : drrQuantum cfg = 16 := rfl
    unfold FairShare
    rw [h0, h1, hw, hw, hq]
    norm_num

end Tusim
