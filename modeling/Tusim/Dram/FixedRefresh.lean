import Tusim.Dram.Refresh

/-!
# Fixed refresh

Under fixed scheduling a slot that has caught up has been refreshed at exactly the instants of its schedule so far,
whatever was accessed in between, so that the number of events and the refresh stall of an access depend on the cycle
alone (`fixedRefresh_run`).  Ticks and accesses catch up; before the first of them the instants at cycle 0, which
banks have when the interval is shorter than the number of banks, are still outstanding.
-/

namespace Tusim

open Periodic TuDramRuntime

/-- The instants of a refresh slot up to a cycle. -/
def scheduledInstants (setup : TuDramSetup) (slot now : Nat) : List Nat :=
  instants (refreshFirst setup slot) (refreshEffectiveInterval setup) now

/-- What is left at cycle `now` of the refresh at the last instant of a slot. -/
def scheduledStall (setup : TuDramSetup) (slot now : Nat) : Nat :=
  match (scheduledInstants setup slot now).getLast? with
  | none => 0
  | some time => time + refreshDuration setup - now

section

variable {setup : TuDramSetup} (htype : setup.type ≠ .ideal) (hsched : setup.refreshScheduling = .fixed)

include htype

/-- After a tick or an access, or when no instant is at cycle 0, every slot is due later. -/
private theorem run_caught (ops : List TuDramOp)
    (hops : (∃ op ∈ ops, op.nonempty = true) ∨ ∀ slot < refreshSlots setup, 0 < refreshFirst setup slot)
    {slot : Nat} (hslot : slot < refreshSlots setup) (hsched : setup.refreshScheduling = .fixed) :
    (Run.exec step (fresh setup) ops).currentCycle < ((Run.exec step (fresh setup) ops).timer slot).due := by
  induction ops using List.reverseRecOn with
  | nil =>
    rcases hops with ⟨op, hmem, _⟩ | hpos
    · exact absurd hmem List.not_mem_nil
    · exact hpos slot hslot
  | append_singleton ops op ih =>
    have hsetup : (Run.exec step (fresh setup) ops).setup = setup := (run_refreshed htype ops).setup_eq
    rw [Run.exec_append, Run.exec_cons, Run.exec_nil]
    generalize Run.exec step (fresh setup) ops = d at hsetup ih ⊢
    rw [(step_schedule d op).1]
    cases hop : op.nonempty with
    | true =>
      have hnone : refreshFireAt setup (d.currentCycle + op.ticks) op.isAccess ((d.step op).timer slot).due = none := by
        rw [step_timer (hsetup ▸ htype) hop (hsetup ▸ hslot), hsetup]
        have hnever : ∀ due, d.currentCycle + op.ticks < due →
            refreshFireAt setup (d.currentCycle + op.ticks) op.isAccess due = none :=
          fun due hdue => refreshFireAt_of_gt setup op.isAccess hdue
        exact Timer.rule_catchUp (refreshEffectiveInterval_pos (mode_ne_none hslot)) hnever (by omega)
      unfold refreshFireAt at hnone
      split at hnone
      · assumption
      · rw [hsched] at hnone
        exact absurd hnone (by simp)
    | false =>
      have hticks : op.ticks = 0 := by
        rcases op.tick_or_access with rfl | ⟨addr, numBytes, direction, rfl⟩
        · exact absurd hop (by simp [TuDramOp.nonempty])
        · exact TuDramOp.ticks_ofAccess addr numBytes direction
      rw [step_timer_of_empty hop, hticks]
      apply ih
      refine hops.imp_left ?_
      rintro ⟨op', hmem, hop'⟩
      rcases List.mem_append.1 hmem with hmem | hmem
      · exact ⟨op', hmem, hop'⟩
      · rw [List.mem_singleton.1 hmem, hop] at hop'
        exact absurd hop' (by simp)

include hsched

/-- The refreshes of a slot are the instants of its schedule. -/
theorem run_fired_eq (ops : List TuDramOp)
    (hops : (∃ op ∈ ops, op.nonempty = true) ∨ ∀ slot < refreshSlots setup, 0 < refreshFirst setup slot)
    {slot : Nat} (hslot : slot < refreshSlots setup) :
    (Run.exec step (fresh setup) ops).refresh.fired slot =
      scheduledInstants setup slot (Run.exec step (fresh setup) ops).currentCycle := by
  have h := run_refreshed htype ops
  have hslack : refreshSlack setup = 0 := by
    unfold refreshSlack
    rw [hsched]
  have hpunctual := h.punctual slot hslot
  rw [hslack] at hpunctual
  exact hpunctual.fired_eq (refreshEffectiveInterval_pos (mode_ne_none hslot))
    (run_caught htype ops hops hslot hsched) (h.fired_le slot hslot)

end

/-! ### The stall of an access -/

/-- The refresh stall of an access to a bank. -/
theorem refreshStallFor_eq {dram : TuDramRuntime} (hbooked : Booked dram) (htype : dram.setup.type ≠ .ideal)
    (hmode : dram.setup.refreshMode ≠ .none) (bank now : Nat) :
    refreshStallFor dram bank now =
      busyUntil dram.setup (dram.refresh.fired (refreshSlotOf dram.setup bank)) - now := by
  unfold refreshStallFor
  rw [if_neg (not_or.2 ⟨hmode, htype⟩), ← hbooked.marks]
  dsimp only
  split <;> omega

theorem beginAccess_refreshStall (dram : TuDramRuntime) :
    (beginAccess dram).stats.totalRefreshStallCycles = dram.stats.totalRefreshStallCycles := by
  have hens : (ensureBandwidth dram).stats = dram.stats := by rw [ensureBandwidth_eq]
  rw [← hens]
  unfold beginAccess
  apply (refreshCatchup_induction
    (P := fun d => d.stats.totalRefreshStallCycles = (ensureBandwidth dram).stats.totalRefreshStallCycles)
    ?_ rfl rfl).2
  exact fun _ _ _ _ _ _ h => h

theorem countAccess_refreshStall (s : TuDramStats) (direction : TuDramDirection) (numBytes : UInt32)
    (occupied totalCycles stall refreshStall : Nat) :
    (countAccess s direction numBytes occupied totalCycles stall refreshStall).totalRefreshStallCycles =
      s.totalRefreshStallCycles + refreshStall := by
  cases direction <;> rfl

/-- The cycles a timed access adds to the refresh stalls. -/
theorem access_refreshStall {dram : TuDramRuntime} (htype : dram.setup.type ≠ .ideal) (direction : TuDramDirection)
    (addr : Nat) {numBytes : UInt32} (hbytes : numBytes ≠ 0) :
    (access dram direction addr numBytes).1.stats.totalRefreshStallCycles = dram.stats.totalRefreshStallCycles +
      refreshStallFor (beginAccess dram) (decodedPlace dram.setup addr).2 dram.currentCycle := by
  have hturn : (turnedAround dram direction addr).1.stats.totalRefreshStallCycles =
      (beginAccess dram).stats.totalRefreshStallCycles := by
    unfold turnedAround
    rw [turnaroundFor_eq]
  have hrow : (rowPenaltyFor (turnedAround dram direction addr).1 direction addr).1.stats.totalRefreshStallCycles =
      (turnedAround dram direction addr).1.stats.totalRefreshStallCycles := by
    rw [rowPenaltyFor_eq]
    rfl
  rw [access_eq htype direction addr hbytes]
  refine (countAccess_refreshStall ..).trans ?_
  rw [hrow, hturn, beginAccess_refreshStall, beginAccess_cycle]

/-- The bank of an address has a refresh slot. -/
theorem refreshSlotOf_lt {setup : TuDramSetup} (hmode : setup.refreshMode ≠ .none) (addr : Nat) :
    refreshSlotOf setup (decodedPlace setup addr).2 < refreshSlots setup := by
  obtain ⟨channel, bank, row, hdec, _, hbank, _⟩ := tuDramDecodeAddress_range setup.toTuDramModel addr
  unfold refreshSlotOf refreshSlots decodedPlace
  rw [hdec]
  cases h : setup.refreshMode with
  | none => exact absurd h hmode
  | allBank => exact Nat.one_pos
  | perBank => exact hbank

end Tusim
