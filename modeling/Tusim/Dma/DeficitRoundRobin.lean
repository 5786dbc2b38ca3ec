import Tusim.Dma.Arbitration

/-!
# Deficit round robin

`drrProbe_cases` says once what a probe of a channel does under work-conserving service with idle credits reset, in
terms of what arbitration sees.  `drrSelect_keeps` is the induction rule for a selection: what every probe keeps,
at the position it moves the scan to, the selection keeps at the cursor it leaves behind.
-/

namespace Tusim

open Word

/-- A shared bus arbitrated by deficit round robin with work-conserving service and idle credits reset. -/
structure TuDmaConfig.FairQueueing (cfg : TuDmaConfig) : Prop where
  bus : cfg.busMode = .sharedSerial
  policy : cfg.arbPolicy = .deficitRoundRobin
  service : cfg.drrServiceMode = .workConserving
  idle : cfg.drrIdlePolicy = .reset

/-- The weight of a channel; an unset weight counts as `1`. -/
def drrWeight (cfg : TuDmaConfig) (i : Nat) : Nat :=
  if cfg.drrChannelWeights i ≠ 0 then (cfg.drrChannelWeights i).toNat else 1

theorem drrWeight_pos (cfg : TuDmaConfig) (i : Nat) : 0 < drrWeight cfg i := by
  unfold drrWeight
  split
  · rename_i h
    exact Nat.pos_of_ne_zero fun h0 => h (UInt8.toNat_inj.1 h0)
  · exact Nat.one_pos

namespace ArbView

/-- The credits of channel `i` during a visit. -/
def visitCredits (a : ArbView) (i : Nat) : Nat :=
  if a.continueVisit = true ∧ a.continueChannel = i then a.credits i
  else satAdd64 (a.credits i) (satMul64 (drrQuantum a.cfg) (drrWeight a.cfg i))

/-- A visit of channel `i`. -/
def visit (a : ArbView) (i : Nat) : ArbView :=
  { a with credits := Function.update a.credits i (a.visitCredits i), continueVisit := false }

/-- A probe of the idle channel `i`. -/
def pass (a : ArbView) (i : Nat) : ArbView :=
  { a with
    credits := Function.update a.credits i 0
    continueVisit := if a.continueVisit = true ∧ a.continueChannel = i then false else a.continueVisit }

/-- What is left of the credits of channel `i` after the grant of `d`. -/
def left (a : ArbView) (i d : Nat) (next : Option Nat) : Nat :=
  if next = none then 0 else a.credits i - (a.desc d).cost

/-- The grant of descriptor `d` of channel `i`, which leaves `next` at the head. -/
def grant (a : ArbView) (i d : Nat) (next : Option Nat) : ArbView :=
  let b := { a with
    credits := Function.update a.credits i (a.left i d next)
    epoch := a.epoch + 1
    grants := a.grants ++ [(i, (a.desc d).cost)] }
  if next.any fun h => (a.desc h).cost ≤ a.left i d next then
    { b with cursor := i, continueVisit := true, continueChannel := i }
  else { b with cursor := (i + 1) % a.cfg.numChannels }

section

variable {a : ArbView} {i : Nat}

theorem visit_continueVisit (a : ArbView) (i : Nat) : (a.visit i).continueVisit = false := rfl

/-- A visit that was to be continued ends with its channel. -/
theorem pass_continueVisit (h : a.continueVisit = true → a.continueChannel = i) : (a.pass i).continueVisit = false := by
  show (if a.continueVisit = true ∧ a.continueChannel = i then false else a.continueVisit) = false
  by_cases hf : a.continueVisit = true
  · rw [if_pos ⟨hf, h hf⟩]
  · rw [if_neg fun hc => hf hc.1, Bool.eq_false_of_not_eq_true hf]

variable (d : Nat) (next : Option Nat)

theorem grant_cfg : (a.grant i d next).cfg = a.cfg := by
  unfold grant
  dsimp only
  split <;> rfl

theorem grant_desc : (a.grant i d next).desc = a.desc := by
  unfold grant
  dsimp only
  split <;> rfl

/-- A visit that is to be continued stays at the cursor. -/
theorem grant_continueChannel (ha : a.continueVisit = false) (h : (a.grant i d next).continueVisit = true) :
    (a.grant i d next).continueChannel = (a.grant i d next).cursor := by
  unfold grant at h ⊢
  dsimp only at h ⊢
  split
  · rfl
  · rename_i hn
    rw [if_neg hn] at h
    rw [ha] at h
    cases h

end

end ArbView

section

variable {e : TuDmaEngine}

theorem arb_drrVisit (e : TuDmaEngine) (i : Nat) : (drrVisit e i).arb = e.arb.visit i := by
  have h := arb_setChannel e i fun ch => { ch with drrDeficitCredits := drrVisitCredits e i }
  exact congrArg (fun a : ArbView => { a with continueVisit := false }) h

theorem arb_drrResetIdle (h : e.cfg.FairQueueing) (i : Nat) :
    (drrResetIdle e i).arb =
      { e.arb with credits :=
          if (e.channels i).head = none then Function.update e.arb.credits i 0 else e.arb.credits } := by
  unfold drrResetIdle
  by_cases hh : (e.channels i).head = none
  · rw [if_pos ⟨hh, h.idle⟩, if_pos hh]
    exact arb_setChannel e i _
  · rw [if_neg fun hc => hh hc.1, if_neg hh]

theorem arb_pass (h : e.cfg.FairQueueing) {i : Nat} (hh : (e.channels i).head = none) :
    (drrEndVisit (drrResetIdle e i) i).arb = e.arb.pass i := by
  have hreset := arb_drrResetIdle h i
  rw [if_pos hh] at hreset
  generalize drrResetIdle e i = u at hreset
  have hvisit : u.drrContinueVisit = e.drrContinueVisit := congrArg ArbView.continueVisit hreset
  have hchannel : u.drrContinueChannel = e.drrContinueChannel := congrArg ArbView.continueChannel hreset
  unfold drrEndVisit ArbView.pass
  by_cases hc : e.arb.continueVisit = true ∧ e.arb.continueChannel = i
  · have hcu : u.drrContinueVisit = true ∧ u.drrContinueChannel = i := by
      rw [hvisit, hchannel]
      exact hc
    rw [if_pos hc, if_pos hcu]
    exact congrArg (fun a : ArbView => { a with continueVisit := false }) hreset
  · have hcu : ¬ (u.drrContinueVisit = true ∧ u.drrContinueChannel = i) := by
      rw [hvisit, hchannel]
      exact hc
    rw [if_neg hc, if_neg hcu]
    exact hreset

theorem arb_drrAdvance (h : e.cfg.FairQueueing) (i : Nat) :
    (drrAdvance e i).arb =
      if (e.channels i).head.any fun h => (e.arb.desc h).cost ≤ e.arb.credits i then
        { e.arb with epoch := e.arb.epoch + 1, cursor := i, continueVisit := true, continueChannel := i }
      else { e.arb with epoch := e.arb.epoch + 1, cursor := (i + 1) % e.cfg.numChannels } := by
  unfold drrAdvance
  by_cases hc : ((e.channels i).head.any fun h => (e.arb.desc h).cost ≤ e.arb.credits i) = true
  · have hc' : e.cfg.drrServiceMode = .workConserving ∧
        ((e.channels i).head.any fun h =>
          descriptorDrrCost e.cfg (e.heap h) ≤ (e.channels i).drrDeficitCredits) = true := ⟨h.service, hc⟩
    rw [if_pos hc, if_pos hc']
    rfl
  · have hc' : ¬ (e.cfg.drrServiceMode = .workConserving ∧
        ((e.channels i).head.any fun h =>
          descriptorDrrCost e.cfg (e.heap h) ≤ (e.channels i).drrDeficitCredits) = true) := fun h => hc h.2
    rw [if_neg hc, if_neg hc']
    rfl

theorem arb_drrGrant (h : e.cfg.FairQueueing) (i d probe : Nat) :
    (drrGrant e i d probe).arb = e.arb.grant i d (e.next d) := by
  generalize hcost : descriptorDrrCost e.cfg (e.heap d) = cost
  have hcost' : (e.arb.desc d).cost = cost := hcost
  -- the debit and the activation of the head
  generalize hg : (activateHead (drrDebit e i cost probe) i d).emit (.granted i d cost) = g
  have hgarb : g.arb =
      { e.arb with
        credits := Function.update e.arb.credits i (e.arb.credits i - cost), grants := e.arb.grants ++ [(i, cost)] } := by
    have hdebit : (drrDebit e i cost probe).arb =
        { e.arb with credits := Function.update e.arb.credits i (e.arb.credits i - cost) } :=
      arb_setChannel e i fun ch => { ch with drrDeficitCredits := ch.drrDeficitCredits - cost }
    have hactive : (activateHead (drrDebit e i cost probe) i d).arb = (drrDebit e i cost probe).arb := by
      unfold activateHead
      rw [arb_emit_frame _ rfl, arb_setChannel_frame _ i rfl]
    rw [← hg, arb_emit, hactive, hdebit]
    rfl
  have hghead : (g.channels i).head = e.next d := by
    rw [← hg]
    show (Function.update (drrDebit e i cost probe).channels i _ i).head = _
    rw [Function.update_self]
    rfl
  have hgcfg : g.cfg = e.cfg := congrArg ArbView.cfg hgarb
  -- the reset of a queue that became empty, and the execution
  generalize hx : tuDmaExecuteDesc (drrResetIdle g i) d = x
  have hreset := arb_drrResetIdle (e := g) (by rw [hgcfg]; exact h) i
  have hxarb : x.arb =
      { e.arb with
        credits := Function.update e.arb.credits i (e.arb.left i d (e.next d)),
        grants := e.arb.grants ++ [(i, cost)] } := by
    rw [← hx, arb_tuDmaExecuteDesc, hreset, hghead, hgarb]
    unfold ArbView.left
    by_cases hn : e.next d = none
    · rw [if_pos hn, if_pos hn, Function.update_idem]
    · rw [if_neg hn, if_neg hn, hcost']
  have hxhead : (x.channels i).head = e.next d := by
    have hview : x.view = g.view.exec d := by rw [← hx, view_tuDmaExecuteDesc, view_drrResetIdle]
    have hhead := congrArg (fun v => (v.channels i).head) hview
    rw [QueueView.exec_channels] at hhead
    exact hhead.trans hghead
  have hxcfg : x.cfg = e.cfg := congrArg ArbView.cfg hxarb
  have hadvance := arb_drrAdvance (e := x) (by rw [hxcfg]; exact h) i
  unfold drrGrant
  dsimp only
  rw [hcost, hg, hx, hadvance, hxhead, hxarb, hxcfg]
  unfold ArbView.grant
  dsimp only
  simp only [Function.update_self, hcost']
  rfl

end

/-- What a probe of one channel does: it passes an idle channel, visits one whose credits do not cover its head, or
grants the head. -/
theorem drrProbe_cases {e : TuDmaEngine} (h : e.cfg.FairQueueing) {probe i : Nat}
    (hi : (e.nextSharedChannel + probe) % e.cfg.numChannels = i) :
    ((e.channels i).head = none ∧ (drrProbe e probe).2 = .idle ∧ (drrProbe e probe).1.arb = e.arb.pass i ∧
      (drrProbe e probe).1.view = e.view) ∨
    (∃ d, (e.channels i).head = some d ∧ e.arb.visitCredits i < (e.arb.desc d).cost ∧ (drrProbe e probe).2 = .short ∧
      (drrProbe e probe).1.arb = e.arb.visit i ∧ (drrProbe e probe).1.view = e.view) ∨
    ∃ d, (e.channels i).head = some d ∧ (e.arb.desc d).cost ≤ e.arb.visitCredits i ∧
      (drrProbe e probe).2 = .granted ∧ (drrProbe e probe).1.arb = (e.arb.visit i).grant i d (e.next d) ∧
      (drrProbe e probe).1.view = e.view.start i d (some (e.arb.desc d).cost) := by
  unfold drrProbe
  dsimp only
  rw [hi]
  cases hh : (e.channels i).head with
  | none =>
    exact .inl ⟨rfl, rfl, arb_pass h hh, (view_drrEndVisit _ i).trans (view_drrResetIdle e i)⟩
  | some d =>
    refine .inr ?_
    dsimp only
    by_cases hc : drrVisitCredits e i < descriptorDrrCost e.cfg (e.heap d)
    · rw [if_pos hc]
      exact .inl ⟨d, rfl, hc, rfl, arb_drrVisit e i, view_drrVisit e i⟩
    · rw [if_neg hc]
      have hcfg : (drrVisit e i).cfg = e.cfg := rfl
      have harb := arb_drrGrant (e := drrVisit e i) (by rw [hcfg]; exact h) i d probe
      rw [arb_drrVisit] at harb
      refine .inr ⟨d, rfl, Nat.le_of_not_lt hc, rfl, harb, ?_⟩
      rw [← view_drrVisit e i]
      exact view_drrGrant _ i d probe

/-! ### Selections -/

/-- Every probe that the round makes satisfies `g`. -/
def drrRoundAll (g : TuDmaEngine → Nat → Bool) : List Nat → TuDmaEngine → Bool
  | [], _ => true
  | probe :: probes, e =>
    g e probe &&
      match drrProbe e probe with
      | (_, .granted) => true
      | (e, _) => drrRoundAll g probes e

/-- Every probe that the selection makes satisfies `g`. -/
def drrSelectAll (g : TuDmaEngine → Nat → Bool) : Nat → TuDmaEngine → Bool
  | 0, _ => true
  | n + 1, e =>
    let r := drrRound (List.range e.cfg.numChannels) e
    drrRoundAll g (List.range e.cfg.numChannels) e &&
      (r.2.2 || !r.2.1 || drrSelectAll g n (drrChargeRoundDelay r.1 r.1.cfg.drrRoundIssueCycles))

theorem drrRoundAll_true (probes : List Nat) (e : TuDmaEngine) : drrRoundAll (fun _ _ => true) probes e = true := by
  induction probes generalizing e with
  | nil => rfl
  | cons probe probes ih =>
    unfold drrRoundAll
    rw [Bool.true_and]
    split
    · rfl
    · exact ih _

theorem drrSelectAll_true (n : Nat) (e : TuDmaEngine) : drrSelectAll (fun _ _ => true) n e = true := by
  induction n generalizing e with
  | zero => rfl
  | succ n ih =>
    unfold drrSelectAll
    dsimp only
    rw [drrRoundAll_true, ih]
    simp

section

variable {g : TuDmaEngine → Nat → Bool} {P : TuDmaEngine → Nat → Prop}

/-- The position a probe moves the scan to: the cursor after a grant, else the next channel. -/
def probeNext (e : TuDmaEngine) (probe : Nat) : Nat :=
  if (drrProbe e probe).2 = .granted then (drrProbe e probe).1.nextSharedChannel
  else ((e.nextSharedChannel + probe) % e.cfg.numChannels + 1) % e.cfg.numChannels

private theorem drrProbe_cursor {e : TuDmaEngine} (h : e.cfg.FairQueueing) (probe : Nat) :
    (drrProbe e probe).1.cfg = e.cfg ∧
      ((drrProbe e probe).2 ≠ .granted → (drrProbe e probe).1.nextSharedChannel = e.nextSharedChannel) ∧
      (e.nextSharedChannel < e.cfg.numChannels → (drrProbe e probe).1.nextSharedChannel < e.cfg.numChannels) := by
  have hpos := Nat.mod_lt (e.nextSharedChannel + probe) e.cfg.numChannels_pos
  generalize hi : (e.nextSharedChannel + probe) % e.cfg.numChannels = i at hpos
  rcases drrProbe_cases h hi with ⟨-, -, harb, -⟩ | ⟨d, -, -, -, harb, -⟩ | ⟨d, -, -, hr, harb, -⟩
  · have hcursor : (drrProbe e probe).1.nextSharedChannel = e.nextSharedChannel := congrArg ArbView.cursor harb
    exact ⟨congrArg ArbView.cfg harb, fun _ => hcursor, fun hlt => by rw [hcursor]; exact hlt⟩
  · have hcursor : (drrProbe e probe).1.nextSharedChannel = e.nextSharedChannel := congrArg ArbView.cursor harb
    exact ⟨congrArg ArbView.cfg harb, fun _ => hcursor, fun hlt => by rw [hcursor]; exact hlt⟩
  · have hcursor : (drrProbe e probe).1.nextSharedChannel = ((e.arb.visit i).grant i d (e.next d)).cursor :=
      congrArg ArbView.cursor harb
    have hcfg : (drrProbe e probe).1.cfg = ((e.arb.visit i).grant i d (e.next d)).cfg := congrArg ArbView.cfg harb
    refine ⟨hcfg.trans ?_, fun hne => absurd hr hne, fun _ => ?_⟩
    · unfold ArbView.grant
      dsimp only
      split <;> rfl
    · rw [hcursor]
      unfold ArbView.grant
      dsimp only
      split
      · exact hpos
      · exact Nat.mod_lt _ e.cfg.numChannels_pos

theorem drrProbe_cfg {e : TuDmaEngine} (h : e.cfg.FairQueueing) (probe : Nat) : (drrProbe e probe).1.cfg = e.cfg :=
  (drrProbe_cursor h probe).1

/-- What probes keep, a round keeps. -/
private theorem drrRound_keeps
    (hprobe : ∀ e probe, e.cfg.FairQueueing → g e probe = true →
      P e ((e.nextSharedChannel + probe) % e.cfg.numChannels) → P (drrProbe e probe).1 (probeNext e probe))
    (m : Nat) {q : Nat} {e : TuDmaEngine} (h : e.cfg.FairQueueing) (hq : q + m = e.cfg.numChannels)
    (hcur : e.nextSharedChannel < e.cfg.numChannels) (hall : drrRoundAll g (List.range' q m) e = true)
    (hP : P e ((e.nextSharedChannel + q) % e.cfg.numChannels)) :
    (drrRound (List.range' q m) e).1.cfg = e.cfg ∧
      (drrRound (List.range' q m) e).1.nextSharedChannel < e.cfg.numChannels ∧
      P (drrRound (List.range' q m) e).1 (drrRound (List.range' q m) e).1.nextSharedChannel := by
  induction m generalizing q e with
  | zero =>
    -- the scan went once round
    rw [Nat.add_zero] at hq
    rw [hq, Nat.add_mod_right, Nat.mod_eq_of_lt hcur] at hP
    exact ⟨rfl, hcur, hP⟩
  | succ m ih =>
    rw [List.range'_succ] at hall ⊢
    unfold drrRoundAll at hall
    unfold drrRound
    rw [Bool.and_eq_true] at hall
    obtain ⟨hg, hall⟩ := hall
    have hnext := hprobe e q h hg hP
    obtain ⟨hcfg, hsame, hlt⟩ := drrProbe_cursor h q
    unfold probeNext at hnext
    rcases hp : drrProbe e q with ⟨e', r⟩
    rw [hp] at hnext hcfg hsame hlt hall
    have hlater : r ≠ .granted → drrRoundAll g (List.range' (q + 1) m) e' = true →
        (drrRound (List.range' (q + 1) m) e').1.cfg = e.cfg ∧
          (drrRound (List.range' (q + 1) m) e').1.nextSharedChannel < e.cfg.numChannels ∧
          P (drrRound (List.range' (q + 1) m) e').1 (drrRound (List.range' (q + 1) m) e').1.nextSharedChannel := by
      intro hr hall
      have hcfg : e'.cfg = e.cfg := hcfg
      have hsame : e'.nextSharedChannel = e.nextSharedChannel := hsame hr
      have hnext : P e' (((e.nextSharedChannel + q) % e.cfg.numChannels + 1) % e.cfg.numChannels) := by
        rw [if_neg hr] at hnext
        exact hnext
      rw [Nat.mod_add_mod, Nat.add_assoc, ← hsame, ← hcfg] at hnext
      have := ih (e := e') (by rw [hcfg]; exact h) (by rw [hcfg]; omega) (by rw [hcfg, hsame]; exact hcur) hall hnext
      rw [hcfg] at this
      exact this
    cases r with
    | granted =>
      rw [if_pos rfl] at hnext
      exact ⟨hcfg, hlt hcur, hnext⟩
    | idle => exact hlater (by simp) hall
    | short => exact hlater (by simp) hall

/-- What probes and the delay of a round keep, a selection keeps. -/
theorem drrSelect_keeps
    (hprobe : ∀ e probe, e.cfg.FairQueueing → g e probe = true →
      P e ((e.nextSharedChannel + probe) % e.cfg.numChannels) → P (drrProbe e probe).1 (probeNext e probe))
    (hdelay : ∀ e cycles, P e e.nextSharedChannel → P (drrChargeRoundDelay e cycles) e.nextSharedChannel)
    (n : Nat) {e : TuDmaEngine} (h : e.cfg.FairQueueing) (hcur : e.nextSharedChannel < e.cfg.numChannels)
    (hall : drrSelectAll g n e = true) (hP : P e e.nextSharedChannel) :
    (drrSelect n e).cfg = e.cfg ∧ (drrSelect n e).nextSharedChannel < e.cfg.numChannels ∧
      P (drrSelect n e) (drrSelect n e).nextSharedChannel := by
  induction n generalizing e with
  | zero => exact ⟨rfl, hcur, hP⟩
  | succ n ih =>
    unfold drrSelectAll at hall
    dsimp only at hall
    rw [Bool.and_eq_true] at hall
    obtain ⟨hround, hrest⟩ := hall
    have hP0 : P e ((e.nextSharedChannel + 0) % e.cfg.numChannels) := by
      rw [Nat.add_zero, Nat.mod_eq_of_lt hcur]
      exact hP
    rw [List.range_eq_range'] at hround
    obtain ⟨hcfg, hlt, hPr⟩ := drrRound_keeps hprobe e.cfg.numChannels h (Nat.zero_add _) hcur hround hP0
    rw [← List.range_eq_range'] at hcfg hlt hPr
    unfold drrSelect
    dsimp only
    generalize drrRound (List.range e.cfg.numChannels) e = r at *
    split
    · exact ⟨hcfg, hlt, hPr⟩
    · rename_i hgo
      rw [Bool.not_eq_true] at hgo
      rw [hgo, Bool.false_or] at hrest
      have hcfg' : (drrChargeRoundDelay r.1 r.1.cfg.drrRoundIssueCycles).cfg = e.cfg := hcfg
      have := ih (e := drrChargeRoundDelay r.1 r.1.cfg.drrRoundIssueCycles) (by rw [hcfg']; exact h)
        (by rw [hcfg']; exact hlt) hrest (hdelay r.1 _ hPr)
      rw [hcfg'] at this
      exact this

end

/-- A tick under deficit round robin: nothing is selected while the bus is busy. -/
theorem drrTick_eq {e : TuDmaEngine} (hbus : e.cfg.busMode = .sharedSerial)
    (hpolicy : e.cfg.arbPolicy = .deficitRoundRobin) :
    (tuDmaTick e).1 =
      if busBusy (tickChannels e).1 = false then drrSelect drrRounds (tickChannels e).1 else (tickChannels e).1 := by
  have hcfg : (tickChannels e).1.cfg = e.cfg := congrArg ArbView.cfg (tickChannels_shared hbus).1
  rw [tuDmaTick_eq, hcfg]
  by_cases hb : busBusy (tickChannels e).1 = false
  · rw [if_pos ⟨hbus, hb⟩, if_pos hb]
    unfold arbitrate
    rw [hcfg, if_pos hpolicy]
  · rw [if_neg fun hc => hb hc.2, if_neg hb]

end Tusim
