import Mathlib.Data.List.Chain
import Mathlib.Logic.Function.Basic
import Tusim.Lib.Run
import Tusim.Lib.Word

/-!
# The bank model

The cycle model's SRAM banks (`tu_bank_model_*` in `cycle_model.c`).  A bank has a budget of words, and the cycle from which
on the next call refills it; that cycle has 32 bits, the clock 64.  As long as no refill pushes it over 32 bits, the refills
of a bank are a window apart (`BankRun.spaced`).
-/

namespace Tusim.Perf

open Word

/-- `tu_bank_state_t` -/
structure TuBankState where
  wordsAvailable : UInt32
  maxWordsPerCycle : UInt32
  refillCycle : UInt32
  totalReads : Nat := 0
  totalWrites : Nat := 0
  readStalls : Nat := 0
  writeStalls : Nat := 0
  conflictCount : Nat := 0
  deriving DecidableEq, Repr

/-- `tu_bank_model_t` -/
structure TuBankModel where
  banks : Nat → TuBankState
  numBanks : UInt32
  bankWidthBytes : UInt32
  refillWindowCycles : UInt32
  stallPenalty : UInt32
  maxAccessesPerCycle : UInt32
  currentCycle : Nat := 0

/-- `tu_bank_model_init` -/
def tuBankModelInit (numBanks bankWidthBytes refillWindow stallPenalty maxAccesses : UInt32) : TuBankModel where
  banks _ := { wordsAvailable := maxAccesses, maxWordsPerCycle := maxAccesses, refillCycle := refillWindow }
  numBanks := numBanks
  bankWidthBytes := bankWidthBytes
  refillWindowCycles := refillWindow
  stallPenalty := stallPenalty
  maxAccessesPerCycle := maxAccesses

/-- The refill of a bank, as an access and a tick do it. -/
def TuBankState.refill (bank : TuBankState) (window : UInt32) (cycle : Nat) : TuBankState :=
  if cycle ≥ bank.refillCycle.toNat then
    { bank with wordsAvailable := bank.maxWordsPerCycle, refillCycle := UInt32.ofNat (u64 (cycle + window.toNat)) }
  else bank

/-- The rest of `tu_bank_model_access` on a bank. -/
def TuBankState.take (bank : TuBankState) (penalty maxAccesses : UInt32) (isWrite : Bool) (wordCount : UInt32) :
    TuBankState × UInt32 :=
  let short := wordCount > bank.wordsAvailable
  let shortfall := wordCount - bank.wordsAvailable
  let stall := if short then shortfall * penalty else 0
  let bank :=
    if short then
      { bank with
        writeStalls := if isWrite then u64 (bank.writeStalls + shortfall.toNat) else bank.writeStalls
        readStalls := if isWrite then bank.readStalls else u64 (bank.readStalls + shortfall.toNat)
        wordsAvailable := 0 }
    else { bank with wordsAvailable := bank.wordsAvailable - wordCount }
  let bank :=
    if isWrite then { bank with totalWrites := u64 (bank.totalWrites + wordCount.toNat) }
    else { bank with totalReads := u64 (bank.totalReads + wordCount.toNat) }
  let bank :=
    if wordCount > 0 ∧ bank.wordsAvailable < maxAccesses then { bank with conflictCount := u64 (bank.conflictCount + 1) }
    else bank
  (bank, stall)

def tuBankModelAccess (bm : TuBankModel) (bankId : UInt32) (isWrite : Bool) (wordCount : UInt32) (cycle : Nat) :
    TuBankModel × UInt32 :=
  if bankId ≥ bm.numBanks then (bm, 0)
  else
    let bank := (bm.banks bankId.toNat).refill bm.refillWindowCycles cycle
    let (bank, stall) := bank.take bm.stallPenalty bm.maxAccessesPerCycle isWrite wordCount
    ({ bm with banks := Function.update bm.banks bankId.toNat bank }, stall)

def tuBankModelTick (bm : TuBankModel) (cycle : Nat) : TuBankModel :=
  { bm with
    currentCycle := cycle
    banks := fun i => if i < bm.numBanks.toNat then (bm.banks i).refill bm.refillWindowCycles cycle else bm.banks i }

/-! ### One bank -/

/-- The words a bank can serve at `cycle`. -/
def TuBankState.budgetAt (bank : TuBankState) (cycle : Nat) : Nat :=
  if cycle ≥ bank.refillCycle.toNat then bank.maxWordsPerCycle.toNat else bank.wordsAvailable.toNat

section

variable (bank : TuBankState) (window penalty maxAccesses wordCount : UInt32) (isWrite : Bool) (cycle : Nat)

theorem TuBankState.refill_wordsAvailable : (bank.refill window cycle).wordsAvailable.toNat = bank.budgetAt cycle := by
  unfold TuBankState.refill TuBankState.budgetAt
  split <;> rfl

@[simp] theorem TuBankState.take_maxWordsPerCycle :
    (bank.take penalty maxAccesses isWrite wordCount).1.maxWordsPerCycle = bank.maxWordsPerCycle := by
  unfold TuBankState.take
  dsimp only
  split_ifs <;> rfl

@[simp] theorem TuBankState.take_refillCycle :
    (bank.take penalty maxAccesses isWrite wordCount).1.refillCycle = bank.refillCycle := by
  unfold TuBankState.take
  dsimp only
  split_ifs <;> rfl

/-- What an access leaves of the budget. -/
theorem TuBankState.take_wordsAvailable :
    (bank.take penalty maxAccesses isWrite wordCount).1.wordsAvailable.toNat = bank.wordsAvailable.toNat - wordCount.toNat := by
  have hleft : (bank.take penalty maxAccesses isWrite wordCount).1.wordsAvailable =
      if wordCount > bank.wordsAvailable then 0 else bank.wordsAvailable - wordCount := by
    unfold TuBankState.take
    dsimp only
    split_ifs <;> rfl
  rw [hleft]
  by_cases hshort : wordCount > bank.wordsAvailable
  · rw [if_pos hshort]
    have hlt : bank.wordsAvailable.toNat < wordCount.toNat := UInt32.lt_iff_toNat_lt.1 hshort
    rw [Nat.sub_eq_zero_of_le hlt.le]
    rfl
  · rw [if_neg hshort]
    exact UInt32.toNat_sub_of_le _ _ (UInt32.not_lt.1 hshort)

/-- Every word over the budget is charged the penalty, in 32 bits. -/
theorem TuBankState.take_stall :
    (bank.take penalty maxAccesses isWrite wordCount).2.toNat =
      (wordCount.toNat - bank.wordsAvailable.toNat) * penalty.toNat % 2 ^ 32 := by
  unfold TuBankState.take
  dsimp only
  by_cases hshort : wordCount > bank.wordsAvailable
  · have hlt : bank.wordsAvailable.toNat < wordCount.toNat := UInt32.lt_iff_toNat_lt.1 hshort
    rw [if_pos hshort, UInt32.toNat_mul, UInt32.toNat_sub_of_le _ _ (UInt32.le_of_lt hshort)]
  · have hle : wordCount.toNat ≤ bank.wordsAvailable.toNat := UInt32.le_iff_toNat_le.1 (UInt32.not_lt.1 hshort)
    rw [if_neg hshort, Nat.sub_eq_zero_of_le hle, Nat.zero_mul, Nat.zero_mod]
    rfl

end

/-! ### Runs -/

/-- The cycles in which a bank was refilled, the latest one first, and the words it served without a stall since. -/
structure BankLog where
  refills : List Nat := []
  served : Nat := 0
  deriving DecidableEq, Repr

/-- A bank model and what happened to its banks (not in the source). -/
structure BankRun where
  bm : TuBankModel
  log : Nat → BankLog := fun _ => {}

inductive BankCall
  | access (bankId : UInt32) (isWrite : Bool) (wordCount : UInt32) (cycle : Nat)
  | tick (cycle : Nat)
  deriving DecidableEq, Repr

namespace BankCall

def cycle : BankCall → Nat
  | access _ _ _ cycle => cycle
  | tick cycle => cycle

/-- The call looks at bank `i`. -/
def Touches (call : BankCall) (bm : TuBankModel) (i : Nat) : Prop :=
  i < bm.numBanks.toNat ∧
    match call with
    | access bankId _ _ _ => bankId.toNat = i
    | tick _ => True

end BankCall

def BankLog.refill (log : BankLog) (bank : TuBankState) (cycle : Nat) : BankLog :=
  if cycle ≥ bank.refillCycle.toNat then { refills := cycle :: log.refills, served := 0 } else log

/-- A call, recorded. -/
def BankRun.step (run : BankRun) : BankCall → BankRun
  | .access bankId isWrite wordCount cycle =>
    if bankId ≥ run.bm.numBanks then run
    else
      let bank := run.bm.banks bankId.toNat
      let log := (run.log bankId.toNat).refill bank cycle
      let log := { log with served := log.served + min wordCount.toNat (bank.budgetAt cycle) }
      { bm := (tuBankModelAccess run.bm bankId isWrite wordCount cycle).1, log := Function.update run.log bankId.toNat log }
  | .tick cycle =>
    { bm := tuBankModelTick run.bm cycle
      log := fun i => if i < run.bm.numBanks.toNat then (run.log i).refill (run.bm.banks i) cycle else run.log i }

/-- Consecutive refills are a window apart, and since the latest one no more words were served than the budget has. -/
def BankLog.Spaced (log : BankLog) (window budget : Nat) : Prop :=
  log.refills.IsChain (fun later earlier => earlier + window ≤ later) ∧ log.served ≤ budget

/-- A refill does not push the next one over 32 bits. -/
def BankCall.Fits (run : BankRun) (call : BankCall) : Prop :=
  ∀ i, call.Touches run.bm i → (run.bm.banks i).refillCycle.toNat ≤ call.cycle →
    call.cycle + run.bm.refillWindowCycles.toNat < 2 ^ 32

/-- The stored cycle is a window after the latest refill, and what was served came out of the budget. -/
structure Metered (bank : TuBankState) (log : BankLog) (window budget : UInt32) : Prop where
  chain : log.refills.IsChain (fun later earlier => earlier + window.toNat ≤ later)
  latest : ∀ c ∈ log.refills.head?, bank.refillCycle.toNat = c + window.toNat
  maxWords : bank.maxWordsPerCycle = budget
  served : log.served + bank.wordsAvailable.toNat ≤ budget.toNat

namespace Metered

variable {bank : TuBankState} {log : BankLog} {window budget : UInt32}

theorem refill (h : Metered bank log window budget) {cycle : Nat}
    (hfits : bank.refillCycle.toNat ≤ cycle → cycle + window.toNat < 2 ^ 32) :
    Metered (bank.refill window cycle) (log.refill bank cycle) window budget := by
  unfold TuBankState.refill BankLog.refill
  by_cases hdue : cycle ≥ bank.refillCycle.toNat
  · rw [if_pos hdue, if_pos hdue]
    have hlt := hfits hdue
    refine ⟨?_, ?_, h.maxWords, ?_⟩
    · rw [List.isChain_cons]
      refine ⟨fun c hc => ?_, h.chain⟩
      have hlatest := h.latest c hc
      omega
    · intro c hc
      obtain rfl : cycle = c := Option.some.inj hc
      show (UInt32.ofNat (u64 (cycle + window.toNat))).toNat = cycle + window.toNat
      rw [UInt32.toNat_ofNat']
      unfold u64
      omega
    · show 0 + bank.maxWordsPerCycle.toNat ≤ budget.toNat
      rw [h.maxWords, Nat.zero_add]
  · rw [if_neg hdue, if_neg hdue]
    exact h

/-- The words that are served come out of the budget. -/
theorem take (h : Metered bank log window budget) (penalty maxAccesses : UInt32) (isWrite : Bool) (wordCount : UInt32) :
    Metered (bank.take penalty maxAccesses isWrite wordCount).1
      { log with served := log.served + min wordCount.toNat bank.wordsAvailable.toNat } window budget := by
  have hserved := h.served
  refine ⟨h.chain, ?_, ?_, ?_⟩
  · rw [TuBankState.take_refillCycle]
    exact h.latest
  · rw [TuBankState.take_maxWordsPerCycle]
    exact h.maxWords
  · rw [TuBankState.take_wordsAvailable]
    dsimp only
    omega

end Metered

namespace BankRun

/-- Every bank is metered, with the model's own window. -/
structure Inv (window budget : UInt32) (run : BankRun) : Prop where
  sameWindow : run.bm.refillWindowCycles = window
  metered : ∀ i, Metered (run.bm.banks i) (run.log i) window budget

theorem inv_init (numBanks bankWidthBytes refillWindow stallPenalty maxAccesses : UInt32) :
    Inv refillWindow maxAccesses { bm := tuBankModelInit numBanks bankWidthBytes refillWindow stallPenalty maxAccesses } where
  sameWindow := rfl
  metered _ := ⟨List.isChain_nil, nofun, rfl, by
    show 0 + maxAccesses.toNat ≤ maxAccesses.toNat
    omega⟩

variable {run : BankRun} {window budget : UInt32}

theorem step_inv (h : run.Inv window budget) {call : BankCall} (hfits : call.Fits run) : (run.step call).Inv window budget := by
  cases call with
  | access bankId isWrite wordCount cycle =>
    unfold step tuBankModelAccess
    dsimp only
    by_cases hout : bankId ≥ run.bm.numBanks
    · rw [if_pos hout]
      exact h
    · rw [if_neg hout, if_neg hout]
      refine ⟨h.sameWindow, fun i => ?_⟩
      dsimp only
      by_cases hi : i = bankId.toNat
      · subst hi
        rw [Function.update_self, Function.update_self, h.sameWindow, ← TuBankState.refill_wordsAvailable _ window]
        apply Metered.take
        apply (h.metered _).refill
        intro hdue
        rw [← h.sameWindow]
        exact hfits _ ⟨UInt32.lt_iff_toNat_lt.1 (UInt32.not_le.1 hout), rfl⟩ hdue
      · rw [Function.update_of_ne hi, Function.update_of_ne hi]
        exact h.metered i
  | tick cycle =>
    refine ⟨h.sameWindow, fun i => ?_⟩
    show Metered (if i < run.bm.numBanks.toNat then _ else _) (if i < run.bm.numBanks.toNat then _ else _) window budget
    by_cases hi : i < run.bm.numBanks.toNat
    · rw [if_pos hi, if_pos hi, h.sameWindow]
      apply (h.metered i).refill
      intro hdue
      rw [← h.sameWindow]
      exact hfits i ⟨hi, trivial⟩ hdue
    · rw [if_neg hi, if_neg hi]
      exact h.metered i

/-- In every run whose refills keep the next refill within 32 bits, the refills of a bank are a window apart, and what it
serves between two of them is within its budget. -/
theorem spaced (numBanks bankWidthBytes refillWindow stallPenalty maxAccesses : UInt32) (calls : List BankCall)
    (h : Run.Along BankCall.Fits BankRun.step
      { bm := tuBankModelInit numBanks bankWidthBytes refillWindow stallPenalty maxAccesses } calls) (i : Nat) :
    ((Run.exec BankRun.step { bm := tuBankModelInit numBanks bankWidthBytes refillWindow stallPenalty maxAccesses }
      calls).log i).Spaced refillWindow.toNat maxAccesses.toNat := by
  have hinv := h.invariant (P := Inv refillWindow maxAccesses) (fun run call hrun hfits => step_inv hrun hfits)
    (inv_init numBanks bankWidthBytes refillWindow stallPenalty maxAccesses)
  have hmetered := hinv.metered i
  exact ⟨hmetered.chain, (Nat.le_add_right _ _).trans hmetered.served⟩

/-- A refill at the end of the 32 bits lets the bank refill again at once. -/
theorem not_spaced_past_32_bits :
    ¬ ((Run.exec BankRun.step { bm := tuBankModelInit 32 4 4 2 1 }
      [.access 0 false 1 4294967295, .access 0 false 1 4294967295]).log 0).Spaced 4 1 := by
  rintro ⟨hchain, -⟩
  have hrefills : ((Run.exec BankRun.step { bm := tuBankModelInit 32 4 4 2 1 }
      [.access 0 false 1 4294967295, .access 0 false 1 4294967295]).log 0).refills = [4294967295, 4294967295] := by
    rfl
  rw [hrefills, List.isChain_pair] at hchain
  exact absurd hchain (by decide)

/-- Two accesses and a tick, at cycles that leave room. -/
theorem spaced_early :
    ((Run.exec BankRun.step { bm := tuBankModelInit 32 4 4 2 1 }
      [.access 0 false 1 5, .access 0 true 3 7, .tick 9]).log 0).Spaced 4 1 := by
  have hfits : ∀ (run : BankRun) (call : BankCall), run.bm.refillWindowCycles = 4 → call.cycle < 100 → call.Fits run := by
    intro run call hwindow hcycle i _ _
    rw [hwindow]
    show call.cycle + 4 < 2 ^ 32
    omega
  refine spaced 32 4 4 2 1 [.access 0 false 1 5, .access 0 true 3 7, .tick 9] ⟨?_, ?_, ?_, trivial⟩ 0
  · exact hfits _ _ rfl (by decide)
  · exact hfits _ _ rfl (by decide)
  · exact hfits _ _ rfl (by decide)

end BankRun

end Tusim.Perf
