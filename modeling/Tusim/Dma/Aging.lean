import Tusim.Lib.Rotation
import Tusim.Dma.Arbitration
import Mathlib.Algebra.Order.Floor.Div

/-!
# Aging priority

With aging by missed grants and no cap on the boost, a waiting head gains `agingIncrement` with every grant given
elsewhere.  Once its effective priority is `255` no other head is ahead of it but those the cursor meets first, and
every grant to one of these brings the cursor closer (`ArbView.Waiting`).  So a head of priority `p` is passed over
at most `⌈(255 - p) / agingIncrement⌉ + numChannels - 1` times (`run_missedGrants_le`).
-/

namespace Tusim

open Word Rotation

/-- A shared bus arbitrated by aging priority; heads age by missed grants, without a cap. -/
structure TuDmaConfig.UncappedAging (cfg : TuDmaConfig) : Prop where
  bus : cfg.busMode = .sharedSerial
  policy : cfg.arbPolicy = .agingPriority
  metric : cfg.agingMetric = .byMissedGrants
  uncapped : cfg.agingMaxBoost = 0

/-- The grant counter at the time the age of a descriptor is counted from. -/
def DescriptorArb.start (cfg : TuDmaConfig) (a : DescriptorArb) : Nat :=
  match cfg.agingScope with
  | .fromQueueHead => a.eligible
  | .fromSubmission => a.submitted

/-- The number of grants given to channels other than `c`. -/
def missedGrants (grants : List (Nat × Nat)) (c : Nat) : Nat := grants.countP (·.1 ≠ c)

/-! ### Effective priorities -/

section

variable {e : TuDmaEngine}

theorem descriptorEffectivePriority_le (e : TuDmaEngine) (desc : TuDmaDescriptor) :
    descriptorEffectivePriority e desc ≤ 255 := by
  have hp : desc.priority.toNat < 256 := desc.priority.toNat_lt
  have hcap : ∀ boost room : Nat, (if boost > room then room else boost) ≤ room := by
    intro boost room
    split <;> omega
  unfold descriptorEffectivePriority
  dsimp only
  exact Nat.le_trans (Nat.add_le_add_left (hcap _ _) _) (by omega)

theorem descriptorAge_missedGrants (h : e.cfg.UncappedAging) (desc : TuDmaDescriptor) :
    descriptorAge e desc = e.arbitrationEpoch - (desc.arb e.cfg).start e.cfg := by
  unfold descriptorAge DescriptorArb.start
  rw [h.metric]
  cases e.cfg.agingScope <;> rfl

/-- A descriptor that has aged enough has the highest priority. -/
theorem descriptorEffectivePriority_aged (h : e.cfg.UncappedAging) {desc : TuDmaDescriptor}
    (hage : 255 - desc.priority.toNat ≤
      (e.arbitrationEpoch - (desc.arb e.cfg).start e.cfg) * e.cfg.agingIncrement) :
    descriptorEffectivePriority e desc = 255 := by
  have hp : desc.priority.toNat < 256 := desc.priority.toNat_lt
  have hboost : ∀ boost, 255 - desc.priority.toNat ≤ boost →
      desc.priority.toNat + (if boost > 255 - desc.priority.toNat then 255 - desc.priority.toNat else boost) = 255 := by
    intro boost hboost
    split <;> omega
  unfold descriptorEffectivePriority
  dsimp only
  rw [h.uncapped, descriptorAge_missedGrants h]
  simp only [ne_eq, not_true_eq_false, false_and, if_false]
  refine hboost _ ?_
  split
  · exact Nat.le_trans (Nat.sub_le _ _) (by decide)
  · exact hage

theorem headPriority_aging (h : e.cfg.UncappedAging) (d : Nat) :
    headPriority e d = descriptorEffectivePriority e (e.heap d) := if_pos h.policy

theorem UncappedAging.usesPriority {cfg : TuDmaConfig} (h : cfg.UncappedAging) : usesPriority cfg = true := by
  unfold Tusim.usesPriority
  rw [h.policy]
  rfl

/-- A fold that stays below `top`, reaches it at `c` and never leaves it. -/
private theorem foldl_top {f : Nat → Nat → Nat} {top c : Nat} (hle : ∀ b i, b ≤ top → f b i ≤ top)
    (hc : ∀ b, b ≤ top → f b c = top) (htop : ∀ i, f top i = top) (l : List Nat) :
    ∀ b, b ≤ top → c ∈ l ∨ b = top → l.foldl f b = top := by
  induction l with
  | nil =>
    intro b _ hb
    exact hb.resolve_left List.not_mem_nil
  | cons i l ih =>
    intro b hb hmem
    rw [List.foldl_cons]
    apply ih _ (hle b i hb)
    rcases hmem with hmem | rfl
    · rcases List.mem_cons.1 hmem with rfl | hmem
      · exact .inr (hc b hb)
      · exact .inl hmem
    · exact .inr (htop i)

/-- The best priority is the highest one of the heads. -/
theorem bestPriority_eq (h : e.cfg.UncappedAging) {c d : Nat} (hc : c < e.cfg.numChannels)
    (hh : (e.channels c).head = some d) (htop : headPriority e d = 255) : bestPriority e = 255 := by
  have hle : ∀ x, headPriority e x ≤ 255 := fun x => by
    rw [headPriority_aging h]
    exact descriptorEffectivePriority_le e _
  unfold bestPriority
  rw [if_pos (UncappedAging.usesPriority h)]
  refine foldl_top (fun b i hb => ?_) (fun b hb => ?_) (fun i => ?_) _ 0 (by omega) (.inl (List.mem_range.2 hc))
  · split
    · next x _ =>
      have hx := hle x
      split <;> omega
    · exact hb
  · rw [hh]
    dsimp only
    rw [htop]
    split <;> omega
  · split
    · next x _ =>
      have hx := hle x
      rw [if_neg (by omega)]
    · rfl

/-- No head with the best priority comes before the one selected. -/
theorem selectHead_dist {best i d c x : Nat} (h : selectHead e best = some (i, d))
    (hcur : e.nextSharedChannel < e.cfg.numChannels) (hc : c < e.cfg.numChannels)
    (hh : (e.channels c).head = some x) (hbest : headPriority e x = best) :
    dist e.cfg.numChannels e.nextSharedChannel i ≤ dist e.cfg.numChannels e.nextSharedChannel c := by
  unfold selectHead at h
  rw [List.findSome?_eq_some_iff] at h
  obtain ⟨before, q, after, hrange, hq, hnone⟩ := h
  have hsorted : (before ++ q :: after).Pairwise (· < ·) := hrange ▸ List.pairwise_lt_range
  have hqn : q < e.cfg.numChannels := by
    rw [← List.mem_range, hrange]
    simp
  have hi : (e.nextSharedChannel + q) % e.cfg.numChannels = i := by
    dsimp only at hq
    cases hhq : (e.channels ((e.nextSharedChannel + q) % e.cfg.numChannels)).head with
    | none => simp [hhq] at hq
    | some y =>
      simp only [hhq] at hq
      split at hq
      · cases hq
      · cases hq
        rfl
  rw [← hi, dist_add hcur hqn]
  by_contra hlt
  have hdc := dist_lt hcur hc
  -- the probe of `c` comes before the successful one
  have hmem : dist e.cfg.numChannels e.nextSharedChannel c ∈ before := by
    have hin : dist e.cfg.numChannels e.nextSharedChannel c ∈ before ++ q :: after := by
      rw [← hrange]
      exact List.mem_range.2 hdc
    rcases List.mem_append.1 hin with hin | hin
    · exact hin
    · rcases List.mem_cons.1 hin with heq | hin
      · omega
      · have := (List.pairwise_cons.1 (List.pairwise_append.1 hsorted).2.1).1 _ hin
        omega
  have hmiss := hnone _ hmem
  rw [add_dist hcur hc] at hmiss
  simp [hh, hbest] at hmiss

end

/-! ### Clocks -/

namespace ArbView

/-- The cursor is a channel, and the stamps of all descriptors are in the past. -/
structure Clocked (a : ArbView) : Prop where
  cursor : a.cursor < a.cfg.numChannels
  stamps : ∀ d, (a.desc d).submitted ≤ a.epoch ∧ (a.desc d).eligible ≤ a.epoch

/-- The descriptor `d` at the head of channel `c` has priority `p` and has been passed over since the count of missed
grants was `missed`: it has aged by that much, and the cursor comes closer once it has aged by `rounds`. -/
structure Waiting (a : ArbView) (c d : Nat) (p : UInt8) (missed rounds : Nat) : Prop where
  priority : (a.desc d).priority = p
  age : (a.desc d).start a.cfg + missedGrants a.grants c ≤ a.epoch + missed
  bound : missedGrants a.grants c + dist a.cfg.numChannels a.cursor c < missed + rounds + a.cfg.numChannels

section

variable {a b : ArbView}

theorem Clocked.start_le (h : a.Clocked) (d : Nat) : (a.desc d).start a.cfg ≤ a.epoch := by
  unfold DescriptorArb.start
  split
  · exact (h.stamps d).2
  · exact (h.stamps d).1

theorem Extends.cfg_eq {bound : Nat} {descs : List TuDmaDescriptor} (h : a.Extends b bound descs) : b.cfg = a.cfg := by
  rw [h.rest]

theorem Clocked.extends {bound : Nat} {descs : List TuDmaDescriptor} (h : a.Clocked) (hx : a.Extends b bound descs) :
    b.Clocked := by
  have hcursor : b.cursor = a.cursor := by rw [hx.rest]
  have hepoch : b.epoch = a.epoch := by rw [hx.rest]
  refine ⟨by rw [hcursor, hx.cfg_eq]; exact h.cursor, fun d => ?_⟩
  rw [hepoch]
  by_cases hd : d ∈ List.range' bound descs.length
  · obtain ⟨hs, he, -⟩ := hx.fresh d hd
    exact ⟨hs, he⟩
  · rw [hx.old d hd]
    exact h.stamps d

theorem Waiting.extends {bound c d : Nat} {p : UInt8} {missed rounds : Nat} {descs : List TuDmaDescriptor}
    (h : a.Waiting c d p missed rounds) (hx : a.Extends b bound descs) (hd : d < bound) :
    b.Waiting c d p missed rounds := by
  have hcursor : b.cursor = a.cursor := by rw [hx.rest]
  have hepoch : b.epoch = a.epoch := by rw [hx.rest]
  have hgrants : b.grants = a.grants := by rw [hx.rest]
  have hdesc : b.desc d = a.desc d := by
    refine hx.old d fun hmem => ?_
    have := (List.mem_range'_1.1 hmem).1
    omega
  refine ⟨?_, ?_, ?_⟩
  · rw [hdesc]
    exact h.priority
  · rw [hdesc, hx.cfg_eq, hgrants, hepoch]
    exact h.age
  · rw [hgrants, hx.cfg_eq, hcursor]
    exact h.bound

end

end ArbView

section

variable {e : TuDmaEngine}

theorem clocked_grantHead (h : e.arb.Clocked) (i d : Nat) : (grantHead e i d).arb.Clocked := by
  rw [arb_grantHead]
  refine ⟨Nat.mod_lt _ e.cfg.numChannels_pos, fun x => ?_⟩
  have hx := h.stamps x
  show (ArbView.expose e.arb (e.next d) x).submitted ≤ e.arb.epoch + 1 ∧ _ ≤ e.arb.epoch + 1
  unfold ArbView.expose
  cases e.next d with
  | none => exact ⟨Nat.le_succ_of_le hx.1, Nat.le_succ_of_le hx.2⟩
  | some h =>
    dsimp only
    by_cases hxh : x = h
    · subst hxh
      rw [Function.update_self]
      exact ⟨Nat.le_succ_of_le hx.1, Nat.le_refl _⟩
    · rw [Function.update_of_ne hxh]
      exact ⟨Nat.le_succ_of_le hx.1, Nat.le_succ_of_le hx.2⟩

/-- A tick of a shared bus under aging priority grants at most one head. -/
theorem tick_cases (h : e.cfg.UncappedAging) :
    ∃ u : TuDmaEngine, u.arb = e.arb ∧ (∀ j, (u.channels j).head = (e.channels j).head) ∧ (e.view.Ok → u.view.Ok) ∧
      ((tuDmaTick e).1 = u ∨
        ∃ i d, selectHead u (bestPriority u) = some (i, d) ∧ (tuDmaTick e).1 = grantHead u i d) := by
  obtain ⟨harb, hhead⟩ := tickChannels_shared h.bus
  refine ⟨(tickChannels e).1, harb, hhead, tickChannels_ok, ?_⟩
  have hcfg : (tickChannels e).1.cfg = e.cfg := congrArg ArbView.cfg harb
  rw [tuDmaTick_eq]
  split
  · unfold arbitrate
    rw [if_neg (by rw [hcfg, h.policy]; simp)]
    cases hsel : selectHead (tickChannels e).1 (bestPriority (tickChannels e).1) with
    | none => exact .inl rfl
    | some p => exact .inr ⟨p.1, p.2, rfl, rfl⟩
  · exact .inl rfl

theorem step_clocked (op : TuDmaOp) (h : e.cfg.UncappedAging) (hclock : e.arb.Clocked) : (e.step op).arb.Clocked := by
  cases op with
  | submit descs => exact hclock.extends (arb_submitChain e descs)
  | flush channel =>
    show (tuDmaFlushChannel e channel).arb.Clocked
    rw [arb_tuDmaFlushChannel]
    exact hclock
  | tick =>
    obtain ⟨u, harb, -, -, htick⟩ := tick_cases h
    rw [← harb] at hclock
    show (tuDmaTick e).1.arb.Clocked
    rcases htick with ht | ⟨i, d, -, ht⟩
    · rw [ht]
      exact hclock
    · rw [ht]
      exact clocked_grantHead hclock i d

/-! ### Waiting heads -/

theorem missedGrants_snoc (grants : List (Nat × Nat)) (i cost c : Nat) :
    missedGrants (grants ++ [(i, cost)]) c = missedGrants grants c + if i = c then 0 else 1 := by
  unfold missedGrants
  rw [List.countP_append, List.countP_singleton]
  by_cases hi : i = c <;> simp [hi]

/-- A grant to another channel, whose next head is not `d`. -/
private theorem waiting_grantHead (h : e.cfg.UncappedAging) (hclock : e.arb.Clocked) {c d : Nat} {p : UInt8}
    {missed rounds : Nat} (hc : c < e.cfg.numChannels) (hh : (e.channels c).head = some d)
    (hrounds : 255 - p.toNat ≤ rounds * e.cfg.agingIncrement) (hw : e.arb.Waiting c d p missed rounds) {i x : Nat}
    (hsel : selectHead e (bestPriority e) = some (i, x)) (hi : i ≠ c) (hnext : e.next x ≠ some d) :
    (grantHead e i x).arb.Waiting c d p missed rounds := by
  have hin : i < e.cfg.numChannels := (selectHead_some hsel).1
  have hcur : e.nextSharedChannel < e.cfg.numChannels := hclock.cursor
  have hdesc : ArbView.expose e.arb (e.next x) d = e.arb.desc d := by
    unfold ArbView.expose
    cases hx : e.next x with
    | none => rfl
    | some b => exact Function.update_of_ne (fun hd => hnext (by rw [hx, hd])) _ _
  have hstart := hclock.start_le d
  have hage := hw.age
  have hbound := hw.bound
  have hdist : dist e.cfg.numChannels ((i + 1) % e.cfg.numChannels) c < e.cfg.numChannels :=
    dist_lt (Nat.mod_lt _ e.cfg.numChannels_pos) hc
  rw [arb_grantHead]
  refine ⟨?_, ?_, ?_⟩
  · show (ArbView.expose e.arb (e.next x) d).priority = p
    rw [hdesc]
    exact hw.priority
  · show (ArbView.expose e.arb (e.next x) d).start e.arb.cfg + missedGrants (e.arb.grants ++ [_]) c ≤
      e.arb.epoch + 1 + missed
    rw [hdesc, missedGrants_snoc, if_neg hi]
    omega
  · show missedGrants (e.arb.grants ++ [_]) c + dist e.cfg.numChannels ((i + 1) % e.cfg.numChannels) c <
      missed + rounds + e.cfg.numChannels
    rw [missedGrants_snoc, if_neg hi]
    by_cases haged : 255 - p.toNat ≤ (e.arb.epoch - (e.arb.desc d).start e.arb.cfg) * e.cfg.agingIncrement
    · -- the head has the highest priority: the grant went to a channel before it
      have htop : headPriority e d = 255 := by
        rw [headPriority_aging h]
        refine descriptorEffectivePriority_aged h ?_
        have hp : (e.heap d).priority = p := hw.priority
        rw [hp]
        exact haged
      have hbest := bestPriority_eq h hc hh htop
      have hle := selectHead_dist hsel hcur hc hh (htop.trans hbest.symm)
      have hne : dist e.cfg.numChannels e.nextSharedChannel i ≠ dist e.cfg.numChannels e.nextSharedChannel c := by
        intro heq
        have hplace := add_dist hcur hin
        rw [heq, add_dist hcur hc] at hplace
        exact hi hplace.symm
      have hstep := dist_advance hcur hc (Nat.lt_of_le_of_ne hle hne)
      rw [add_dist hcur hin] at hstep
      have hbound : missedGrants e.arb.grants c + dist e.cfg.numChannels e.nextSharedChannel c <
        missed + rounds + e.cfg.numChannels := hbound
      omega
    · -- the head is still young
      have hlt : (e.arb.epoch - (e.arb.desc d).start e.arb.cfg) * e.cfg.agingIncrement <
          rounds * e.cfg.agingIncrement := by omega
      have hyoung : e.arb.epoch - (e.arb.desc d).start e.arb.cfg < rounds := Nat.lt_of_mul_lt_mul_right hlt
      omega

/-- One call while `d` is the head of channel `c`. -/
private theorem step_waiting (op : TuDmaOp) (h : e.cfg.UncappedAging) (hok : e.view.Ok) (hclock : e.arb.Clocked)
    {c d : Nat} {p : UInt8} {missed rounds : Nat} (hc : c < e.cfg.numChannels) (hh : (e.channels c).head = some d)
    (hrounds : 255 - p.toNat ≤ rounds * e.cfg.agingIncrement) (hw : e.arb.Waiting c d p missed rounds) :
    missedGrants (e.step op).arb.grants c < missed + rounds + e.cfg.numChannels ∧
      (((e.step op).channels c).head = some d → (e.step op).arb.Waiting c d p missed rounds) := by
  have hbound : ∀ {a : ArbView}, a.cfg = e.cfg → a.Waiting c d p missed rounds →
      missedGrants a.grants c < missed + rounds + e.cfg.numChannels := by
    intro a hcfg ha
    have := ha.bound
    rw [hcfg] at this
    omega
  cases op with
  | submit descs =>
    have hx := arb_submitChain e descs
    have hw' := hw.extends hx ((hok.below c).head d hh)
    exact ⟨hbound hx.cfg_eq hw', fun _ => hw'⟩
  | flush channel =>
    have harb : (e.step (.flush channel)).arb = e.arb := arb_tuDmaFlushChannel e channel
    rw [harb]
    exact ⟨hbound rfl hw, fun _ => hw⟩
  | tick =>
    obtain ⟨u, harb, hhead, hoku, htick⟩ := tick_cases h
    have hoku := hoku hok
    have hcfg : u.cfg = e.cfg := congrArg ArbView.cfg harb
    have hhu : (u.channels c).head = some d := (hhead c).trans hh
    rw [← harb] at hclock hw
    rw [← hcfg] at h hc hrounds
    show missedGrants (tuDmaTick e).1.arb.grants c < _ ∧
      (((tuDmaTick e).1.channels c).head = some d → (tuDmaTick e).1.arb.Waiting c d p missed rounds)
    rcases htick with ht | ⟨i, x, hsel, ht⟩
    · rw [ht]
      exact ⟨hbound hcfg hw, fun _ => hw⟩
    · rw [ht]
      have hhx : (u.channels i).head = some x := (selectHead_some hsel).2
      by_cases hi : i = c
      · -- the waiting descriptor is granted
        subst hi
        have hxd : x = d := by
          rw [hhu] at hhx
          exact (Option.some.inj hhx).symm
        subst hxd
        constructor
        · rw [arb_grantHead]
          show missedGrants (u.arb.grants ++ [_]) i < _
          rw [missedGrants_snoc, if_pos rfl]
          exact hbound hcfg hw
        · intro hhead'
          have hnew : ((grantHead u i x).channels i).head = u.next x := by
            have hview := congrArg (fun v => (v.channels i).head) (view_grantHead u i x)
            rw [QueueView.start_self] at hview
            exact hview
          rw [hnew] at hhead'
          exact absurd (hoku.ascending x x hhead').1 (Nat.lt_irrefl x)
      · have hnext : u.next x ≠ some d := by
          intro hx
          have hmem := hoku.closed i x d ((hoku.within i).head x hhx) hx
          exact hoku.disjoint i c hi d hmem ((hoku.within c).head d hhu)
        have hw' := waiting_grantHead h hclock hc hhu hrounds hw hsel hi hnext
        have hcfg' : (grantHead u i x).arb.cfg = e.cfg := by
          rw [arb_grantHead]
          exact hcfg
        exact ⟨hbound hcfg' hw', fun _ => hw'⟩

end

/-! ### Runs -/

theorem run_clocked {cfg : TuDmaConfig} (mem : Memory) (h : cfg.UncappedAging) (ops : List TuDmaOp) :
    (TuDmaEngine.run cfg mem ops).arb.Clocked := by
  have hfresh : (TuDmaEngine.fresh cfg mem).arb.Clocked :=
    ⟨cfg.numChannels_pos, fun _ => ⟨Nat.le_refl 0, Nat.le_refl 0⟩⟩
  exact (Run.invariant (P := fun e : TuDmaEngine => e.view.Ok ∧ e.cfg = cfg ∧ e.arb.Clocked)
    (fun e op he => ⟨step_ok op he.1, (step_cfg op he.1).trans he.2.1, step_clocked op (by rw [he.2.1]; exact h) he.2.2⟩)
    ⟨fresh_ok cfg mem, rfl, hfresh⟩ ops).2.2

/-- While a descriptor of priority `p` is the head of channel `c`, at most `⌈(255 - p) / agingIncrement⌉ +
numChannels - 1` grants go to other channels. -/
theorem run_missedGrants_le (cfg : TuDmaConfig) (mem : Memory) (ops ops' : List TuDmaOp) (c d : Nat)
    (h : cfg.UncappedAging) (hc : c < cfg.numChannels)
    (hwait : Run.Along (fun e _ => (e.channels c).head = some d) TuDmaEngine.step (TuDmaEngine.run cfg mem ops) ops') :
    missedGrants (grantsOf (TuDmaEngine.run cfg mem (ops ++ ops')).log) c ≤
      missedGrants (grantsOf (TuDmaEngine.run cfg mem ops).log) c +
        ((255 - ((TuDmaEngine.run cfg mem ops).heap d).priority.toNat) ⌈/⌉ cfg.agingIncrement + cfg.numChannels - 1) := by
  have hrun : TuDmaEngine.run cfg mem (ops ++ ops') = Run.exec TuDmaEngine.step (TuDmaEngine.run cfg mem ops) ops' :=
    Run.exec_append _ _ _ _
  have hok := run_ok cfg mem ops
  have hcfg := run_cfg cfg mem ops
  have hclock := run_clocked mem h ops
  rw [hrun]
  generalize TuDmaEngine.run cfg mem ops = s at *
  generalize hp : (s.heap d).priority = p
  generalize hr : (255 - p.toNat) ⌈/⌉ cfg.agingIncrement = rounds
  have hrounds : 255 - p.toNat ≤ rounds * cfg.agingIncrement := by
    rw [← hr, Nat.mul_comm]
    exact le_smul_ceilDiv cfg.agingIncrement_pos
  have hdist : dist s.cfg.numChannels s.nextSharedChannel c < s.cfg.numChannels :=
    dist_lt hclock.cursor (by rw [hcfg]; exact hc)
  have hstart : s.arb.Waiting c d p (missedGrants s.arb.grants c) rounds :=
    ⟨hp, Nat.add_le_add_right (hclock.start_le d) _, by
      show missedGrants s.arb.grants c + dist s.cfg.numChannels s.nextSharedChannel c <
        missedGrants s.arb.grants c + rounds + s.cfg.numChannels
      omega⟩
  have hinv := hwait.invariant
    (P := fun e : TuDmaEngine => e.view.Ok ∧ e.cfg = cfg ∧ e.arb.Clocked ∧
      missedGrants e.arb.grants c < missedGrants s.arb.grants c + rounds + cfg.numChannels ∧
      ((e.channels c).head = some d → e.arb.Waiting c d p (missedGrants s.arb.grants c) rounds))
    (fun e op he hh => by
      obtain ⟨hok, hcfg, hclock, -, hw⟩ := he
      subst hcfg
      exact ⟨step_ok op hok, step_cfg op hok, step_clocked op h hclock,
        step_waiting op h hok hclock hc hh hrounds (hw hh)⟩)
    ⟨hok, hcfg, hclock, by have := cfg.numChannels_pos; omega, fun _ => hstart⟩
  have hlt := hinv.2.2.2.1
  show missedGrants (Run.exec TuDmaEngine.step s ops').arb.grants c ≤
    missedGrants s.arb.grants c + (rounds + cfg.numChannels - 1)
  omega

/-- A head of priority `0` is passed over for one of priority `9`. -/
theorem run_missedGrants_le_two :
    let cfg : TuDmaConfig :=
      { asyncMode := true, numChannels := 2, maxDepth := 4, busMode := .sharedSerial, arbPolicy := .agingPriority,
        numChannels_pos := by decide, numChannels_le := by decide, maxDepth_pos := by decide }
    let desc := tuDmaDescCreateLinear 1 0 .hostToTu (some 0) 0 (some 0) 4 1
    let urgent := { tuDmaDescCreateLinear 2 1 .hostToTu (some 0) 0 (some 0) 4 1 with priority := 9 }
    missedGrants (grantsOf (TuDmaEngine.run cfg (Memory.zero 16) [.submit [desc], .submit [urgent], .tick]).log) 0 ≤
      0 + (255 ⌈/⌉ 1 + 2 - 1) :=
  run_missedGrants_le _ _ [.submit [_], .submit [_]] [.tick] 0 0 ⟨rfl, rfl, rfl, rfl⟩ (by decide) ⟨by decide, trivial⟩

end Tusim
