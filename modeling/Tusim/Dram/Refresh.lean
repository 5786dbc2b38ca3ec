import Mathlib.Algebra.BigOperators.Group.Finset.Piecewise
import Tusim.Lib.Run
import Tusim.Lib.Timeline
import Tusim.Dram.Footprint

/-!
# Refresh slots are periodic timers

The refresh state of a slot is a timer with the effective interval as its period, and a catch-up is the `catchUp` of
the timer of every slot (`refreshCatchup_timer`).  An operation of a run either leaves the schedule alone or is one
catch-up (`step_schedule`).  So in every run each slot stays punctual, its busy mark belongs to its last refresh, and
the event counter counts the refreshes of all slots (`run_refreshed`).
-/

namespace Tusim

open Word Periodic TuDramRuntime TuDramOp

/-- The timer of a refresh slot. -/
def TuDramRuntime.timer (dram : TuDramRuntime) (slot : Nat) : Timer where
  due := dram.refresh.refreshNext slot
  fired := dram.refresh.fired slot

/-- How late a refresh may be. -/
def refreshSlack (setup : TuDramSetup) : Nat :=
  match setup.refreshScheduling with
  | .fixed => 0
  | .deferred => setup.refreshMaxDeferralCycles

theorem refreshEffectiveInterval_pos {setup : TuDramSetup} (h : setup.refreshMode ≠ .none) :
    0 < refreshEffectiveInterval setup := by
  have htrefi := setup.trefi_pos h
  have hpos : 0 < if setup.refreshRate = 0 then 1 else setup.refreshRate.toNat := by
    split
    · exact Nat.one_pos
    · rename_i hrate
      exact toNat_pos hrate
  unfold refreshEffectiveInterval
  exact Nat.div_pos (by omega) hpos

theorem refreshFireAt_rule (setup : TuDramSetup) (now : Nat) (onAccess : Bool) :
    Rule (refreshSlack setup) now (refreshFireAt setup now onAccess) := by
  intro due time h
  unfold refreshFireAt at h
  unfold refreshSlack
  split at h
  · exact absurd h (by simp)
  · cases hs : setup.refreshScheduling with
    | fixed =>
      simp only [hs, Option.some.injEq] at h
      dsimp only
      omega
    | deferred =>
      simp only [hs] at h
      dsimp only
      split at h
      · rw [Option.some.injEq] at h
        split at h <;> omega
      · split at h
        · rw [Option.some.injEq] at h
          omega
        · exact absurd h (by simp)

theorem refreshFireAt_of_gt (setup : TuDramSetup) {now due : Nat} (onAccess : Bool) (h : now < due) :
    refreshFireAt setup now onAccess due = none := by
  unfold refreshFireAt
  rw [if_pos h]

/-! ### One catch-up -/

/-- What every refresh keeps, the whole catch-up keeps. -/
theorem refreshCatchup_induction {setup : TuDramSetup} {now : Nat} {onAccess : Bool} {P : TuDramRuntime → Prop}
    (hfire : ∀ dram slot fireAt, dram.setup = setup → slot < refreshSlots setup →
      refreshFireAt setup now onAccess (dram.refresh.refreshNext slot) = some fireAt → P dram →
      P (refreshFire dram slot fireAt)) {dram : TuDramRuntime} (hsetup : dram.setup = setup) (h : P dram) :
    (refreshCatchup dram now onAccess).setup = setup ∧ P (refreshCatchup dram now onAccess) := by
  have hslot : ∀ slot < refreshSlots setup, ∀ n dram, dram.setup = setup → P dram →
      (refreshSlot now onAccess slot n dram).setup = setup ∧ P (refreshSlot now onAccess slot n dram) := by
    intro slot hlt n
    induction n with
    | zero => exact fun dram hsetup h => ⟨hsetup, h⟩
    | succ n ih =>
      intro dram hsetup h
      unfold refreshSlot
      split
      · exact ⟨hsetup, h⟩
      · rename_i fireAt hdue
        rw [hsetup] at hdue
        exact ih _ hsetup (hfire dram slot fireAt hsetup hlt hdue h)
  have hall : ∀ n ≤ refreshSlots setup, ∀ rounds,
      ((List.range n).foldl (fun dram slot => refreshSlot now onAccess slot rounds dram) dram).setup = setup ∧
        P ((List.range n).foldl (fun dram slot => refreshSlot now onAccess slot rounds dram) dram) := by
    intro n hn rounds
    induction n with
    | zero => exact ⟨hsetup, h⟩
    | succ n ih =>
      obtain ⟨hs, hp⟩ := ih (by omega)
      rw [List.range_succ, List.foldl_append]
      exact hslot n hn rounds _ hs hp
  unfold refreshCatchup
  split
  · exact ⟨hsetup, h⟩
  · rw [hsetup]
    exact hall _ (Nat.le_refl _) _

theorem refreshCatchup_setup (dram : TuDramRuntime) (now : Nat) (onAccess : Bool) :
    (refreshCatchup dram now onAccess).setup = dram.setup :=
  (refreshCatchup_induction (P := fun _ => True) (fun _ _ _ _ _ _ _ => trivial) rfl trivial).1

/-- A catch-up leaves the clock, the bandwidth window and the channels alone. -/
theorem refreshCatchup_frame (dram : TuDramRuntime) (now : Nat) (onAccess : Bool) :
    (refreshCatchup dram now onAccess).currentCycle = dram.currentCycle ∧
      (refreshCatchup dram now onAccess).bandwidth = dram.bandwidth ∧
      (refreshCatchup dram now onAccess).channels = dram.channels :=
  (refreshCatchup_induction (P := fun d =>
    d.currentCycle = dram.currentCycle ∧ d.bandwidth = dram.bandwidth ∧ d.channels = dram.channels)
    (fun _ _ _ _ _ _ h => h) rfl ⟨rfl, rfl, rfl⟩).2

@[simp] theorem refreshFire_timer_self (dram : TuDramRuntime) (slot fireAt : Nat) :
    (refreshFire dram slot fireAt).timer slot =
      (dram.timer slot).fire (refreshEffectiveInterval dram.setup) fireAt := by
  simp [refreshFire, timer, Timer.fire]

theorem refreshFire_timer_of_ne (dram : TuDramRuntime) {slot slot' : Nat} (fireAt : Nat) (h : slot' ≠ slot) :
    (refreshFire dram slot fireAt).timer slot' = dram.timer slot' := by
  simp [refreshFire, timer, h]

private theorem refreshSlot_timer (now : Nat) (onAccess : Bool) (slot n : Nat) (dram : TuDramRuntime) :
    (refreshSlot now onAccess slot n dram).setup = dram.setup ∧
      (refreshSlot now onAccess slot n dram).timer slot = (dram.timer slot).catchUp
        (refreshEffectiveInterval dram.setup) (refreshFireAt dram.setup now onAccess) n ∧
      ∀ slot' ≠ slot, (refreshSlot now onAccess slot n dram).timer slot' = dram.timer slot' := by
  induction n generalizing dram with
  | zero => exact ⟨rfl, rfl, fun _ _ => rfl⟩
  | succ n ih =>
    have hdue : (dram.timer slot).due = dram.refresh.refreshNext slot := rfl
    cases h : refreshFireAt dram.setup now onAccess (dram.refresh.refreshNext slot) with
    | none =>
      simp only [refreshSlot, Timer.catchUp, hdue, h]
      exact ⟨trivial, trivial, fun _ _ => trivial⟩
    | some fireAt =>
      obtain ⟨hsetup, hself, hother⟩ := ih (refreshFire dram slot fireAt)
      simp only [refreshSlot, Timer.catchUp, hdue, h]
      refine ⟨hsetup, ?_, fun slot' hne => ?_⟩
      · rw [hself, refreshFire_timer_self]
        rfl
      · rw [hother slot' hne, refreshFire_timer_of_ne dram fireAt hne]

/-- In a catch-up the timer of every slot catches up. -/
theorem refreshCatchup_timer {dram : TuDramRuntime} (hmode : dram.setup.refreshMode ≠ .none)
    (htype : dram.setup.type ≠ .ideal) (now : Nat) (onAccess : Bool) {slot : Nat}
    (hslot : slot < refreshSlots dram.setup) :
    (refreshCatchup dram now onAccess).timer slot = (dram.timer slot).catchUp
      (refreshEffectiveInterval dram.setup) (refreshFireAt dram.setup now onAccess) (now + 1) := by
  have hall : ∀ n, ((List.range n).foldl (fun dram slot => refreshSlot now onAccess slot (now + 1) dram) dram).setup =
        dram.setup ∧
      (∀ slot < n, ((List.range n).foldl (fun dram slot => refreshSlot now onAccess slot (now + 1) dram) dram).timer
        slot = (dram.timer slot).catchUp (refreshEffectiveInterval dram.setup)
          (refreshFireAt dram.setup now onAccess) (now + 1)) ∧
      ∀ slot ≥ n, ((List.range n).foldl (fun dram slot => refreshSlot now onAccess slot (now + 1) dram) dram).timer
        slot = dram.timer slot := by
    intro n
    induction n with
    | zero => exact ⟨rfl, fun slot h => absurd h (Nat.not_lt_zero slot), fun _ _ => rfl⟩
    | succ n ih =>
      obtain ⟨hsetup, hin, hout⟩ := ih
      rw [List.range_succ, List.foldl_append]
      generalize (List.range n).foldl (fun dram slot => refreshSlot now onAccess slot (now + 1) dram) dram = d at *
      obtain ⟨hs, hself, hother⟩ := refreshSlot_timer now onAccess n (now + 1) d
      refine ⟨hs.trans hsetup, fun slot h => ?_, fun slot h => ?_⟩
      · rcases Nat.lt_succ_iff_lt_or_eq.1 h with hlt | rfl
        · exact (hother slot (by omega)).trans (hin slot hlt)
        · rw [List.foldl_cons, List.foldl_nil, hself, hsetup, hout slot (Nat.le_refl _)]
      · exact (hother slot (by omega)).trans (hout slot (by omega))
  unfold refreshCatchup
  rw [if_neg (not_or.2 ⟨hmode, htype⟩)]
  exact (hall _).2.1 slot hslot

/-! ### The books of the refreshes -/

/-- The cycle up to which the refreshes `fired` keep a slot busy. -/
def busyUntil (setup : TuDramSetup) (fired : List Nat) : Nat :=
  match fired.getLast? with
  | none => 0
  | some time => time + refreshDuration setup

/-- Every busy mark belongs to the last refresh of its slot, and the event counter counts the refreshes. -/
structure Booked (dram : TuDramRuntime) : Prop where
  marks : ∀ slot, dram.refresh.refreshUntil slot = busyUntil dram.setup (dram.refresh.fired slot)
  events : dram.stats.totalRefreshEvents =
    ∑ slot ∈ Finset.range (refreshSlots dram.setup), (dram.refresh.fired slot).length

theorem Booked.refreshFire {dram : TuDramRuntime} (h : Booked dram) {slot : Nat}
    (hslot : slot < refreshSlots dram.setup) (fireAt : Nat) : Booked (refreshFire dram slot fireAt) where
  marks := by
    intro slot'
    by_cases hne : slot' = slot
    · simp [Tusim.refreshFire, hne, busyUntil]
    · simp [Tusim.refreshFire, hne, h.marks slot']
  events := by
    have hlen : ∀ slot', ((Tusim.refreshFire dram slot fireAt).refresh.fired slot').length =
        (dram.refresh.fired slot').length + if slot' = slot then 1 else 0 := by
      intro slot'
      by_cases hne : slot' = slot
      · simp [Tusim.refreshFire, hne]
      · simp [Tusim.refreshFire, hne]
    have hmem : slot ∈ Finset.range (refreshSlots dram.setup) := Finset.mem_range.2 hslot
    have hsum : ∑ slot' ∈ Finset.range (refreshSlots dram.setup),
          ((Tusim.refreshFire dram slot fireAt).refresh.fired slot').length =
        dram.stats.totalRefreshEvents + 1 := by
      rw [Finset.sum_congr rfl fun slot' _ => hlen slot', Finset.sum_add_distrib, Finset.sum_ite_eq', if_pos hmem,
        ← h.events]
    exact hsum.symm

theorem Booked.refreshCatchup {dram : TuDramRuntime} (h : Booked dram) (now : Nat) (onAccess : Bool) :
    Booked (refreshCatchup dram now onAccess) := by
  apply (refreshCatchup_induction (P := Booked) ?_ rfl h).2
  intro d slot fireAt hsetup hslot _ hd
  exact hd.refreshFire (hsetup ▸ hslot) fireAt

/-! ### The operations of a run -/

/-- The two states have the same schedule and the same number of refreshes. -/
structure SameSchedule (dram dram' : TuDramRuntime) : Prop where
  setup : dram'.setup = dram.setup
  refresh : dram'.refresh = dram.refresh
  events : dram'.stats.totalRefreshEvents = dram.stats.totalRefreshEvents

namespace SameSchedule

variable {dram dram' dram'' : TuDramRuntime}

theorem refl (dram : TuDramRuntime) : SameSchedule dram dram := ⟨rfl, rfl, rfl⟩

theorem trans (h : SameSchedule dram dram') (h' : SameSchedule dram' dram'') : SameSchedule dram dram'' :=
  ⟨h'.setup.trans h.setup, h'.refresh.trans h.refresh, h'.events.trans h.events⟩

theorem timer (h : SameSchedule dram dram') (slot : Nat) : dram'.timer slot = dram.timer slot := by
  unfold TuDramRuntime.timer
  rw [h.refresh]

theorem booked (h : SameSchedule dram dram') (hb : Booked dram) : Booked dram' where
  marks := by
    intro slot
    rw [h.refresh, h.setup]
    exact hb.marks slot
  events := by
    rw [h.events, h.refresh, h.setup]
    exact hb.events

end SameSchedule

/-- What the parts of an access other than the catch-up leave alone. -/
structure KeepsSchedule (dram dram' : TuDramRuntime) : Prop extends SameSchedule dram dram' where
  cycle : dram'.currentCycle = dram.currentCycle

theorem KeepsSchedule.trans {dram dram' dram'' : TuDramRuntime} (h : KeepsSchedule dram dram')
    (h' : KeepsSchedule dram' dram'') : KeepsSchedule dram dram'' :=
  ⟨h.toSameSchedule.trans h'.toSameSchedule, h'.cycle.trans h.cycle⟩

theorem ensureBandwidth_keeps (dram : TuDramRuntime) : KeepsSchedule dram (ensureBandwidth dram) := by
  rw [ensureBandwidth_eq]
  exact ⟨⟨rfl, rfl, rfl⟩, rfl⟩

theorem turnaroundFor_keeps (dram : TuDramRuntime) (channel : Nat) (new : TuDramDirection) :
    KeepsSchedule dram (turnaroundFor dram channel new).1 := by
  rw [turnaroundFor_eq]
  exact ⟨⟨rfl, rfl, rfl⟩, rfl⟩

theorem rowPenaltyFor_keeps (dram : TuDramRuntime) (direction : TuDramDirection) (addr : Nat) :
    KeepsSchedule dram (rowPenaltyFor dram direction addr).1 := by
  rw [rowPenaltyFor_eq]
  exact ⟨⟨rfl, rfl, rfl⟩, rfl⟩

theorem countAccess_events (s : TuDramStats) (direction : TuDramDirection) (numBytes : UInt32)
    (occupied totalCycles stall refreshStall : Nat) :
    (countAccess s direction numBytes occupied totalCycles stall refreshStall).totalRefreshEvents =
      s.totalRefreshEvents := by
  cases direction <;> rfl

theorem transfer_keeps (dram : TuDramRuntime) (direction : TuDramDirection) (channel addr : Nat) (numBytes : UInt32)
    (totalCycles refreshStall : Nat) :
    KeepsSchedule dram (transfer dram direction channel addr numBytes totalCycles refreshStall).1 :=
  ⟨⟨rfl, rfl, countAccess_events ..⟩, rfl⟩

theorem idealAccess_keeps (dram : TuDramRuntime) (direction : TuDramDirection) (numBytes : UInt32) :
    KeepsSchedule dram (idealAccess dram direction numBytes).1 :=
  ⟨⟨rfl, rfl, countAccess_events ..⟩, rfl⟩

/-- A timed access is a catch-up as far as the schedule is concerned. -/
theorem access_keeps {dram : TuDramRuntime} (htype : dram.setup.type ≠ .ideal) (direction : TuDramDirection)
    (addr : Nat) {numBytes : UInt32} (hbytes : numBytes ≠ 0) :
    KeepsSchedule (beginAccess dram) (access dram direction addr numBytes).1 := by
  rw [access_eq htype direction addr hbytes]
  exact ((turnaroundFor_keeps ..).trans (rowPenaltyFor_keeps ..)).trans (transfer_keeps ..)

theorem beginAccess_cycle (dram : TuDramRuntime) : (beginAccess dram).currentCycle = dram.currentCycle :=
  (refreshCatchup_frame ..).1.trans (ensureBandwidth_keeps dram).cycle

/-- An operation is a catch-up, unless it is an access of no bytes or to an ideal memory. -/
theorem step_schedule (dram : TuDramRuntime) (op : TuDramOp) :
    (dram.step op).currentCycle = dram.currentCycle + op.ticks ∧
      (((op.nonempty = true → dram.setup.type = .ideal) ∧ SameSchedule dram (dram.step op)) ∨
        ∃ d, op.nonempty = true ∧ SameSchedule dram d ∧
          SameSchedule (refreshCatchup d (dram.step op).currentCycle op.isAccess) (dram.step op)) := by
  rcases op.tick_or_access with rfl | ⟨addr, numBytes, direction, rfl⟩
  · have hkeeps := ensureBandwidth_keeps { dram with currentCycle := dram.currentCycle + 1 }
    have hcycle : (dram.step .tick).currentCycle = dram.currentCycle + 1 :=
      (refreshCatchup_frame ..).1.trans hkeeps.cycle
    have hsame : SameSchedule dram (ensureBandwidth { dram with currentCycle := dram.currentCycle + 1 }) :=
      ⟨hkeeps.setup, hkeeps.refresh, hkeeps.events⟩
    have hclock : (ensureBandwidth { dram with currentCycle := dram.currentCycle + 1 }).currentCycle =
        dram.currentCycle + 1 := hkeeps.cycle
    have hstep : dram.step .tick = refreshCatchup (ensureBandwidth { dram with currentCycle := dram.currentCycle + 1 })
        (dram.currentCycle + 1) false := by
      show refreshCatchup (ensureBandwidth _) (ensureBandwidth _).currentCycle false = _
      rw [hclock]
    refine ⟨hcycle, Or.inr ⟨_, rfl, hsame, ?_⟩⟩
    rw [hcycle, hstep]
    exact SameSchedule.refl _
  · rw [step_ofAccess, ticks_ofAccess, nonempty_ofAccess, isAccess_ofAccess, Nat.add_zero, decide_eq_true_eq]
    by_cases hbytes : numBytes = 0
    · subst hbytes
      rw [access_zero]
      exact ⟨rfl, Or.inl ⟨fun h => absurd rfl h, SameSchedule.refl dram⟩⟩
    by_cases htype : dram.setup.type = .ideal
    · rw [access_of_ideal htype direction addr hbytes]
      exact ⟨rfl, Or.inl ⟨fun _ => htype, (idealAccess_keeps ..).toSameSchedule⟩⟩
    · have hkeeps := access_keeps htype direction addr hbytes
      have hcycle := hkeeps.cycle.trans (beginAccess_cycle dram)
      refine ⟨hcycle, Or.inr ⟨ensureBandwidth dram, hbytes, (ensureBandwidth_keeps dram).toSameSchedule, ?_⟩⟩
      rw [hcycle]
      exact hkeeps.toSameSchedule

/-! ### Runs -/

/-- The state of the refreshes in a run of a model with the given setup. -/
structure Refreshed (setup : TuDramSetup) (dram : TuDramRuntime) : Prop where
  setup_eq : dram.setup = setup
  punctual : ∀ slot < refreshSlots setup,
    Punctual (refreshFirst setup slot) (refreshEffectiveInterval setup) (refreshSlack setup) (dram.timer slot)
  fired_le : ∀ slot < refreshSlots setup, ∀ time ∈ dram.refresh.fired slot, time ≤ dram.currentCycle
  booked : Booked dram

theorem Refreshed.fresh (setup : TuDramSetup) : Refreshed setup (fresh setup) where
  setup_eq := rfl
  punctual := fun slot _ => Punctual.start ..
  fired_le := fun slot _ time h => absurd h List.not_mem_nil
  booked :=
    { marks := fun _ => rfl
      events := by simp [TuDramRuntime.fresh, refreshInitState] }

theorem refreshSlots_pos {setup : TuDramSetup} (hmode : setup.refreshMode ≠ .none) : 0 < refreshSlots setup := by
  unfold refreshSlots
  cases h : setup.refreshMode with
  | none => exact absurd h hmode
  | allBank => exact Nat.one_pos
  | perBank => exact toNat_pos setup.banksPerChannel_ne

theorem mode_ne_none {setup : TuDramSetup} {slot : Nat} (hslot : slot < refreshSlots setup) :
    setup.refreshMode ≠ .none := by
  intro hmode
  unfold refreshSlots at hslot
  rw [hmode] at hslot
  exact Nat.not_lt_zero slot hslot

/-- The timer of a slot after an operation that catches up. -/
theorem step_timer {dram : TuDramRuntime} (htype : dram.setup.type ≠ .ideal) {op : TuDramOp} (hop : op.nonempty = true)
    {slot : Nat} (hslot : slot < refreshSlots dram.setup) :
    (dram.step op).timer slot = (dram.timer slot).catchUp (refreshEffectiveInterval dram.setup)
      (refreshFireAt dram.setup (dram.currentCycle + op.ticks) op.isAccess) (dram.currentCycle + op.ticks + 1) := by
  obtain ⟨hcycle, ⟨hideal, _⟩ | ⟨d, _, hsame, hcatch⟩⟩ := step_schedule dram op
  · exact absurd (hideal hop) htype
  · have hd := hsame.setup
    have hcu := @refreshCatchup_timer d (hd ▸ mode_ne_none hslot) (hd ▸ htype)
      (dram.step op).currentCycle op.isAccess slot (hd ▸ hslot)
    rw [hcatch.timer, hcu, hd, hsame.timer, hcycle]

/-- An access of no bytes leaves the timers alone. -/
theorem step_timer_of_empty {dram : TuDramRuntime} {op : TuDramOp} (hop : op.nonempty = false) (slot : Nat) :
    (dram.step op).timer slot = dram.timer slot := by
  obtain ⟨_, ⟨_, hsame⟩ | ⟨d, hne, _⟩⟩ := step_schedule dram op
  · exact hsame.timer slot
  · exact absurd hne (by simp [hop])

theorem step_setup (dram : TuDramRuntime) (op : TuDramOp) : (dram.step op).setup = dram.setup := by
  obtain ⟨_, ⟨_, hsame⟩ | ⟨d, _, hsame, hcatch⟩⟩ := step_schedule dram op
  · exact hsame.setup
  · exact hcatch.setup.trans ((refreshCatchup_setup ..).trans hsame.setup)

theorem step_booked {dram : TuDramRuntime} (h : Booked dram) (op : TuDramOp) : Booked (dram.step op) := by
  obtain ⟨_, ⟨_, hsame⟩ | ⟨d, _, hsame, hcatch⟩⟩ := step_schedule dram op
  · exact hsame.booked h
  · exact hcatch.booked ((hsame.booked h).refreshCatchup _ _)

/-- Without a schedule nothing is refreshed. -/
theorem step_refresh_of_off {dram : TuDramRuntime}
    (hoff : dram.setup.refreshMode = .none ∨ dram.setup.type = .ideal) (op : TuDramOp) :
    (dram.step op).refresh = dram.refresh := by
  obtain ⟨_, ⟨_, hsame⟩ | ⟨d, _, hsame, hcatch⟩⟩ := step_schedule dram op
  · exact hsame.refresh
  · rw [hcatch.refresh]
    unfold refreshCatchup
    rw [hsame.setup, if_pos hoff, hsame.refresh]

theorem Refreshed.step {setup : TuDramSetup} (htype : setup.type ≠ .ideal) {dram : TuDramRuntime}
    (h : Refreshed setup dram) (op : TuDramOp) : Refreshed setup (dram.step op) := by
  have hsetup := h.setup_eq
  have hcycle := (step_schedule dram op).1
  have hle : ∀ slot < refreshSlots setup, ∀ time ∈ (dram.timer slot).fired, time ≤ dram.currentCycle + op.ticks :=
    fun slot hslot time hmem => (h.fired_le slot hslot time hmem).trans (Nat.le_add_right _ _)
  have hfired : ∀ slot, (dram.step op).refresh.fired slot = ((dram.step op).timer slot).fired := fun _ => rfl
  refine ⟨(step_setup dram op).trans hsetup, fun slot hslot => ?_, fun slot hslot => ?_, step_booked h.booked op⟩
  · cases hop : op.nonempty with
    | false =>
      rw [step_timer_of_empty hop]
      exact h.punctual slot hslot
    | true =>
      rw [step_timer (hsetup ▸ htype) hop (hsetup ▸ hslot), hsetup]
      exact (h.punctual slot hslot).catchUp (refreshFireAt_rule _ _ _) _
  · rw [hfired, hcycle]
    cases hop : op.nonempty with
    | false =>
      rw [step_timer_of_empty hop]
      exact hle slot hslot
    | true =>
      rw [step_timer (hsetup ▸ htype) hop (hsetup ▸ hslot), hsetup]
      exact Timer.fired_le_catchUp (refreshFireAt_rule _ _ _) (hle slot hslot) _

/-- In every run of a model that is not ideal each refresh slot is punctual and the books are right. -/
theorem run_refreshed {setup : TuDramSetup} (htype : setup.type ≠ .ideal) (ops : List TuDramOp) :
    Refreshed setup (Run.exec TuDramRuntime.step (fresh setup) ops) :=
  Run.invariant (fun _ op h => h.step htype op) (Refreshed.fresh setup) ops

/-- Configuring the refresh of a fresh model gives a fresh model. -/
theorem tuDramSetRefresh_fresh {clock : CoreClock} {setup : TuDramSetup} {mode : TuDramRefreshMode}
    {scheduling : TuDramRefreshScheduling} {rate : UInt32} {trefiNs trfcNs trfcPbNs maxDeferralNs : Nat}
    {dram : TuDramRuntime}
    (h : tuDramSetRefresh clock (fresh setup) mode scheduling rate trefiNs trfcNs trfcPbNs maxDeferralNs = some dram) :
    dram = fresh dram.setup ∧ dram.setup.type = setup.type ∧ dram.setup.refreshMode = mode ∧
      dram.setup.refreshScheduling = scheduling := by
  unfold tuDramSetRefresh at h
  split at h
  · exact absurd h (by simp)
  · dsimp only at h
    split at h
    · exact absurd h (by simp)
    · injection h with h
      subst h
      exact ⟨rfl, rfl, rfl, rfl⟩

end Tusim
