import Tusim.Perf.CycleModel

/-!
# The direction of a transfer

`tu_cycle_model_dma_transfer` passes `is_read` on as the DRAM's `is_write` and its negation as the bank's.  So the words
of a transfer are added to the wrong counter of the bank (`bank_counters`), and the DRAM charges the latency of the other
direction (`transfer_reversed`).  The rows are counted right (`rowCount_run`).
-/

namespace Tusim.Perf

open Word

/-! ### What a transfer should be charged -/

/-- `⌈n / d⌉` -/
def ceilDiv (n d : Nat) : Nat := (n + d - 1) / d

/-- Activating the row of an address, after closing another one if need be. -/
def rowPenalty (ch : TuDramChannel) (address : Nat) : Nat :=
  let (bankId, row) := tuDramDecodeAddress ch address
  let bank := ch.banks (if bankId ≥ ch.timing.numBanks.toNat then 0 else bankId)
  if bank.openRow = row then 0
  else if bank.openRow = 0xffffffff then ch.timing.tRCD.toNat
  else ch.timing.tRP.toNat + ch.timing.tRCD.toNat

/-- The cycles of the bursts of a transfer. -/
def burstCycles (timing : TuDramTiming) (bytes : UInt32) : Nat :=
  ceilDiv bytes.toNat (timing.busWidthBytes.toNat * timing.tBL.toNat) * timing.tCCD.toNat

/-- The row-state penalty, the latency of the direction and the bursts. -/
def dramCharge (ch : TuDramChannel) (t : CycleTransfer) : Nat :=
  rowPenalty ch t.dramAddr + (if t.isRead then ch.timing.tCL else ch.timing.tCWL).toNat + burstCycles ch.timing t.bytes

/-- The words of a transfer are written to the bank if it comes from DRAM, and read from it if it goes there. -/
def BankCounted (bm bm' : TuBankModel) (t : CycleTransfer) : Prop :=
  let bank := bm.banks t.sramBank.toNat
  let bank' := bm'.banks t.sramBank.toNat
  let words := ceilDiv t.bytes.toNat bm.bankWidthBytes.toNat
  if t.isRead then bank'.totalWrites = u64 (bank.totalWrites + words) ∧ bank'.totalReads = bank.totalReads
  else bank'.totalReads = u64 (bank.totalReads + words) ∧ bank'.totalWrites = bank.totalWrites

/-- A transfer is charged and counted by its direction. -/
def Directed (cm cm' : TuCycleModel) (t : CycleTransfer) : Prop :=
  ∃ ch ch' bm bm', cm.dramChannel = some ch ∧ cm'.dramChannel = some ch' ∧ cm.bankModel = some bm ∧ cm'.bankModel = some bm' ∧
    ch'.totalCyclesStalled = u64 (ch.totalCyclesStalled + dramCharge ch t) ∧ BankCounted bm bm' t

/-- Every transfer of a run that moves something. -/
def AllDirected : TuCycleModel → List CycleTransfer → Prop
  | _, [] => True
  | cm, t :: ts => ∃ cm' elapsed, tuCycleModelDmaTransfer cm t = some (cm', elapsed) ∧ (t.bytes ≠ 0 → Directed cm cm' t) ∧
      AllDirected cm' ts

/-- Row hits and row misses. -/
def TuCycleModel.rowCount (cm : TuCycleModel) : Nat :=
  match cm.dramChannel with
  | some ch => ch.totalRowHits + ch.totalRowMisses
  | none => 0

/-- The models in cycle-accurate mode with all parts, and `numBanks` banks. -/
structure TuCycleModel.Accurate (cm : TuCycleModel) (numBanks : UInt32) : Prop where
  mode : cm.mode = .cycleAccurate
  dramChannel : ∃ ch, cm.dramChannel = some ch
  bankModel : ∃ bm, cm.bankModel = some bm ∧ bm.numBanks = numBanks

/-- A transfer with a DRAM address and a valid bank. -/
def CycleTransfer.Valid (t : CycleTransfer) (numBanks : UInt32) : Prop := t.dramAddr ≠ 0 ∧ t.sramBank < numBanks

/-! ### The bank -/

section

variable (bank : TuBankState) (window penalty maxAccesses wordCount : UInt32) (isWrite : Bool) (cycle : Nat)

theorem refill_totals :
    (bank.refill window cycle).totalReads = bank.totalReads ∧ (bank.refill window cycle).totalWrites = bank.totalWrites := by
  unfold TuBankState.refill
  split <;> exact ⟨rfl, rfl⟩

theorem take_totals :
    (bank.take penalty maxAccesses isWrite wordCount).1.totalReads =
        (if isWrite then bank.totalReads else u64 (bank.totalReads + wordCount.toNat)) ∧
      (bank.take penalty maxAccesses isWrite wordCount).1.totalWrites =
        (if isWrite then u64 (bank.totalWrites + wordCount.toNat) else bank.totalWrites) := by
  unfold TuBankState.take
  dsimp only
  cases isWrite <;> split_ifs <;> exact ⟨rfl, rfl⟩

end

variable {cm cm' : TuCycleModel} {t : CycleTransfer} {elapsed : Nat} {numBanks : UInt32}

theorem bankPhase_eq_some {bm : TuBankModel} (hvalid : t.sramBank < bm.numBanks) {cycle : Nat} {bank : Option TuBankModel}
    {stall : Nat} (h : bankPhase (some bm) t cycle = some (bank, stall)) :
    ∃ words, bank = some (tuBankModelAccess bm t.sramBank (!t.isRead) words cycle).1 := by
  unfold bankPhase at h
  dsimp only at h
  rw [if_pos hvalid] at h
  split at h
  · exact absurd h nofun
  · rw [Option.some.injEq, Prod.mk.injEq] at h
    exact ⟨_, h.1.symm⟩

/-- A transfer from DRAM leaves the bank's writes as they are, one to DRAM its reads. -/
theorem bank_counters (bm : TuBankModel) (hvalid : t.sramBank < bm.numBanks) (words : UInt32) (cycle : Nat) :
    let bank' := (tuBankModelAccess bm t.sramBank (!t.isRead) words cycle).1.banks t.sramBank.toNat
    if t.isRead then bank'.totalWrites = (bm.banks t.sramBank.toNat).totalWrites
    else bank'.totalReads = (bm.banks t.sramBank.toNat).totalReads := by
  obtain ⟨hreads, hwrites⟩ := refill_totals (bm.banks t.sramBank.toNat) bm.refillWindowCycles cycle
  unfold tuBankModelAccess
  rw [if_neg (UInt32.not_le.2 hvalid)]
  dsimp only
  rw [Function.update_self, (take_totals _ _ _ _ _).1, (take_totals _ _ _ _ _).2, hreads, hwrites]
  cases t.isRead <;> simp

/-- Words that are added to a counter show. -/
theorem u64_add_ne {n words : Nat} (hpos : 0 < words) (hlt : words < 2 ^ 64) : u64 (n + words) ≠ n := by
  unfold u64
  omega

theorem ceilDiv_pos {bytes width : UInt32} (hbytes : bytes ≠ 0) (hwidth : width ≠ 0) :
    0 < ceilDiv bytes.toNat width.toNat ∧ ceilDiv bytes.toNat width.toNat < 2 ^ 64 := by
  have hb : 0 < bytes.toNat := Nat.pos_of_ne_zero fun h => hbytes (UInt32.toNat_inj.1 h)
  have hw : 0 < width.toNat := Nat.pos_of_ne_zero fun h => hwidth (UInt32.toNat_inj.1 h)
  have hblt := bytes.toNat_lt
  have hwlt := width.toNat_lt
  unfold ceilDiv
  refine ⟨Nat.div_pos (by omega) hw, ?_⟩
  have hle := Nat.div_le_self (bytes.toNat + width.toNat - 1) width.toNat
  omega

/-- No transfer that moves something is counted by its direction. -/
theorem not_directed (h : cm.Accurate numBanks) (hvalid : t.Valid numBanks) (hbytes : t.bytes ≠ 0)
    (hrun : tuCycleModelDmaTransfer cm t = some (cm', elapsed)) : ¬ Directed cm cm' t := by
  rintro ⟨ch, ch', bm, bm', -, -, hbm, hbm', -, hcounted⟩
  obtain ⟨bm'', hbm'', hbanks⟩ := h.bankModel
  rw [hbm, Option.some.injEq] at hbm''
  subst hbm''
  obtain ⟨-, cycle, -, stall, -, hbank, -⟩ := dmaTransfer_eq_some h.mode hbytes hrun
  rw [hbm] at hbank
  have hsram : t.sramBank < bm.numBanks := hbanks ▸ hvalid.2
  have hwidth : bm.bankWidthBytes ≠ 0 := by
    rintro hzero
    unfold bankPhase at hbank
    dsimp only at hbank
    rw [if_pos hsram, if_pos hzero] at hbank
    exact absurd hbank nofun
  obtain ⟨words, haccess⟩ := bankPhase_eq_some hsram hbank
  rw [hbm', Option.some.injEq] at haccess
  subst haccess
  have hkept := bank_counters bm hsram words cycle
  obtain ⟨hpos, hlt⟩ := ceilDiv_pos hbytes hwidth
  unfold BankCounted at hcounted
  dsimp only at hcounted hkept
  cases hread : t.isRead with
  | true =>
    rw [hread, if_pos rfl] at hcounted hkept
    exact u64_add_ne hpos hlt (hcounted.1.symm.trans hkept)
  | false =>
    rw [hread, if_neg Bool.false_ne_true] at hcounted hkept
    exact u64_add_ne hpos hlt (hcounted.1.symm.trans hkept)

/-! ### The rows -/

/-- One of two counters is incremented. -/
theorem one_counted (p : Prop) [Decidable p] (hits misses : Nat) :
    (if p then u64 (hits + 1) else hits) + (if p then misses else u64 (misses + 1)) ≡ hits + misses + 1 [MOD 2 ^ 64] := by
  have hwrap : ∀ n, u64 (n + 1) ≡ n + 1 [MOD 2 ^ 64] := fun n => Nat.mod_modEq _ _
  by_cases h : p
  · rw [if_pos h, if_pos h, Nat.add_right_comm]
    exact (hwrap hits).add_right misses
  · rw [if_neg h, if_neg h]
    exact (hwrap misses).add_left hits

/-- An access is a hit or a miss. -/
theorem dramAccess_rows {ch ch' : TuDramChannel} {address : Nat} {isWrite : Bool} {bytes : UInt32} {cycle latency : Nat}
    (h : tuDramAccess ch address isWrite bytes cycle = some (ch', latency)) :
    ch'.totalRowHits + ch'.totalRowMisses ≡ ch.totalRowHits + ch.totalRowMisses + 1 [MOD 2 ^ 64] := by
  unfold tuDramAccess at h
  dsimp only at h
  split at h
  · exact absurd h nofun
  · rw [Option.some.injEq, Prod.mk.injEq] at h
    rw [← h.1]
    exact one_counted _ _ _

theorem dramPhase_eq_some {ch : TuDramChannel} (haddr : t.dramAddr ≠ 0) {cycle : Nat} {dram : Option TuDramChannel}
    {latency : Nat} (h : dramPhase (some ch) t cycle = some (dram, latency)) :
    ∃ ch', dram = some ch' ∧ tuDramAccess ch t.dramAddr t.isRead t.bytes cycle = some (ch', latency) := by
  unfold dramPhase at h
  dsimp only at h
  rw [if_pos haddr] at h
  obtain ⟨⟨ch', latency'⟩, haccess, heq⟩ := Option.map_eq_some_iff.1 h
  rw [Prod.mk.injEq] at heq
  obtain ⟨rfl, rfl⟩ := heq
  exact ⟨ch', rfl, haccess⟩

theorem dmaTransfer_nothing (hbytes : t.bytes = 0) : tuCycleModelDmaTransfer cm t = some (cm, 0) := if_pos hbytes

/-- One transfer keeps the parts of the model, and is one hit or one miss if it moves something. -/
theorem transfer_rowCount (h : cm.Accurate numBanks) (hvalid : t.Valid numBanks)
    (hrun : tuCycleModelDmaTransfer cm t = some (cm', elapsed)) :
    cm'.Accurate numBanks ∧ cm'.rowCount ≡ cm.rowCount + (if t.bytes = 0 then 0 else 1) [MOD 2 ^ 64] := by
  by_cases hbytes : t.bytes = 0
  · rw [dmaTransfer_nothing hbytes, Option.some.injEq, Prod.mk.injEq] at hrun
    obtain ⟨rfl, -⟩ := hrun
    rw [if_pos hbytes]
    exact ⟨h, rfl⟩
  · rw [if_neg hbytes]
    obtain ⟨ch, hch⟩ := h.dramChannel
    obtain ⟨bm, hbm, hbanks⟩ := h.bankModel
    obtain ⟨cycle, cycle', latency, stall, hdram, hbank, hmode⟩ := dmaTransfer_eq_some h.mode hbytes hrun
    rw [hch] at hdram
    rw [hbm] at hbank
    obtain ⟨ch', hch', haccess⟩ := dramPhase_eq_some hvalid.1 hdram
    obtain ⟨words, hbm'⟩ := bankPhase_eq_some (hbanks ▸ hvalid.2) hbank
    refine ⟨⟨hmode, ⟨ch', hch'⟩, _, hbm', ?_⟩, ?_⟩
    · rw [tuBankModelAccess_numBanks, hbanks]
    · unfold TuCycleModel.rowCount
      rw [hch, hch']
      exact dramAccess_rows haccess

/-- The run of a list of transfers. -/
def transferAll (cm : TuCycleModel) (ts : List CycleTransfer) : Option TuCycleModel :=
  ts.foldlM (fun cm t => (tuCycleModelDmaTransfer cm t).map Prod.fst) cm

/-- Row hits and row misses equal the number of transfers that move something. -/
theorem rowCount_run {ts : List CycleTransfer} (h : cm.Accurate numBanks) (hvalid : ∀ t ∈ ts, t.Valid numBanks)
    (hrun : transferAll cm ts = some cm') :
    cm'.rowCount ≡ cm.rowCount + ts.countP (fun t => t.bytes ≠ 0) [MOD 2 ^ 64] := by
  induction ts generalizing cm with
  | nil =>
    obtain rfl := Option.some.inj hrun
    rfl
  | cons t ts ih =>
    unfold transferAll at hrun
    rw [List.foldlM_cons, Option.bind_eq_bind, Option.bind_eq_some_iff] at hrun
    obtain ⟨cm₁, hstep, hrest⟩ := hrun
    obtain ⟨⟨cm₁', elapsed⟩, hfirst, rfl⟩ := Option.map_eq_some_iff.1 hstep
    obtain ⟨hnext, hone⟩ := transfer_rowCount h (hvalid t List.mem_cons_self) hfirst
    refine (ih hnext (fun t' ht' => hvalid t' (List.mem_cons_of_mem t ht')) hrest).trans ?_
    rw [List.countP_cons]
    refine (hone.add_right _).trans ?_
    by_cases hbytes : t.bytes = 0
    · simp [hbytes]
      rfl
    · simp only [hbytes, if_false, ne_eq, not_false_eq_true, decide_true, if_true]
      rw [Nat.add_assoc, Nat.add_comm 1]

/-- Directions are respected, and the rows counted, only in runs in which nothing is transferred. -/
theorem allDirected_iff (h : cm.Accurate numBanks) {ts : List CycleTransfer} (hvalid : ∀ t ∈ ts, t.Valid numBanks) :
    (∃ cm', transferAll cm ts = some cm' ∧ AllDirected cm ts ∧
      cm'.rowCount ≡ cm.rowCount + ts.countP (fun t => t.bytes ≠ 0) [MOD 2 ^ 64]) ↔ ∀ t ∈ ts, t.bytes = 0 := by
  constructor
  · rintro ⟨-, -, hall, -⟩
    induction ts with
    | nil => exact fun t ht => absurd ht List.not_mem_nil
    | cons t ts ih =>
      obtain ⟨cm₁, elapsed, hrun, hdirected, hrest⟩ := hall
      have hbytes : t.bytes = 0 := by
        by_contra hbytes
        exact not_directed h (hvalid t List.mem_cons_self) hbytes hrun (hdirected hbytes)
      rw [dmaTransfer_nothing hbytes, Option.some.injEq, Prod.mk.injEq] at hrun
      obtain ⟨rfl, -⟩ := hrun
      intro t' ht'
      rcases List.mem_cons.1 ht' with rfl | hmem
      · exact hbytes
      · exact ih (fun t' ht' => hvalid t' (List.mem_cons_of_mem t ht')) hrest t' hmem
  · intro hnothing
    have hstay : transferAll cm ts = some cm ∧ AllDirected cm ts := by
      induction ts with
      | nil => exact ⟨rfl, trivial⟩
      | cons t ts ih =>
        have hbytes := hnothing t List.mem_cons_self
        obtain ⟨hrun, hall⟩ := ih (fun t' ht' => hvalid t' (List.mem_cons_of_mem t ht'))
          fun t' ht' => hnothing t' (List.mem_cons_of_mem t ht')
        refine ⟨?_, cm, 0, dmaTransfer_nothing hbytes, fun hne => absurd hbytes hne, hall⟩
        unfold transferAll at hrun ⊢
        rw [List.foldlM_cons, dmaTransfer_nothing hbytes]
        exact hrun
    exact ⟨cm, hstay.1, hstay.2, rowCount_run h hvalid hstay.1⟩

/-! ### What a transfer is charged -/

/-- No sum or product of the charges of a transfer wraps around. -/
structure ChargesFit (ch : TuDramChannel) (bm : TuBankModel) (t : CycleTransfer) : Prop where
  row : ch.timing.tRP.toNat + ch.timing.tRCD.toNat + max ch.timing.tCL.toNat ch.timing.tCWL.toNat < 2 ^ 32
  burst : t.bytes.toNat + ch.timing.busWidthBytes.toNat * ch.timing.tBL.toNat < 2 ^ 32
  bursts : burstCycles ch.timing t.bytes < 2 ^ 32
  words : t.bytes.toNat + bm.bankWidthBytes.toNat < 2 ^ 32

/-- The transfer in the other direction. -/
def CycleTransfer.reverse (t : CycleTransfer) : CycleTransfer := { t with isRead := !t.isRead }

/-- A quotient rounded up, in 32 bits. -/
theorem ceilDiv_eq (bytes : UInt32) {width : UInt32} (hwidth : width ≠ 0) (h : bytes.toNat + width.toNat < 2 ^ 32) :
    ((bytes + width - 1) / width).toNat = ceilDiv bytes.toNat width.toNat := by
  have hpos : 0 < width.toNat := Nat.pos_of_ne_zero fun h => hwidth (UInt32.toNat_inj.1 h)
  have hsum : (bytes + width).toNat = bytes.toNat + width.toNat := by
    rw [UInt32.toNat_add]
    exact Nat.mod_eq_of_lt h
  have hone : (1 : UInt32) ≤ bytes + width := by
    rw [UInt32.le_iff_toNat_le, hsum]
    show 1 ≤ _
    omega
  unfold ceilDiv
  rw [UInt32.toNat_div, UInt32.toNat_sub_of_le _ _ hone, hsum]
  rfl

/-- The DRAM charges the latency of the other direction. -/
theorem dramAccess_charge {ch ch' : TuDramChannel} {bm : TuBankModel} (hfits : ChargesFit ch bm t) {cycle latency : Nat}
    (h : tuDramAccess ch t.dramAddr t.isRead t.bytes cycle = some (ch', latency)) :
    ch'.totalCyclesStalled = u64 (ch.totalCyclesStalled + dramCharge ch t.reverse) := by
  obtain ⟨hrow, hburst, hbursts, -⟩ := hfits
  have hcas : (if t.isRead then ch.timing.tCWL else ch.timing.tCL).toNat ≤ max ch.timing.tCL.toNat ch.timing.tCWL.toNat := by
    split
    · exact le_max_right _ _
    · exact le_max_left _ _
  have hproduct : (ch.timing.busWidthBytes * ch.timing.tBL).toNat = ch.timing.busWidthBytes.toNat * ch.timing.tBL.toNat := by
    rw [UInt32.toNat_mul]
    exact Nat.mod_eq_of_lt (by omega)
  unfold tuDramAccess at h
  dsimp only at h
  split at h
  · exact absurd h nofun
  · rename_i hne
    rw [Option.some.injEq, Prod.mk.injEq] at h
    rw [← h.1]
    dsimp only
    have hquotient := ceilDiv_eq t.bytes hne (by rw [hproduct]; exact hburst)
    have hcycles : ((t.bytes + ch.timing.busWidthBytes * ch.timing.tBL - 1) / (ch.timing.busWidthBytes * ch.timing.tBL) *
        ch.timing.tCCD).toNat = burstCycles ch.timing t.bytes := by
      rw [UInt32.toNat_mul, hquotient, hproduct]
      exact Nat.mod_eq_of_lt hbursts
    have hlatency : ∀ cas : UInt32, cas.toNat ≤ max ch.timing.tCL.toNat ch.timing.tCWL.toNat → ∀ p q : Prop, [Decidable p] →
        [Decidable q] → (if p then cas else if q then ch.timing.tRCD + cas else ch.timing.tRP + ch.timing.tRCD + cas).toNat =
          (if p then 0 else if q then ch.timing.tRCD.toNat else ch.timing.tRP.toNat + ch.timing.tRCD.toNat) + cas.toNat := by
      intro cas hle p q _ _
      split
      · rw [Nat.zero_add]
      · split
        · rw [UInt32.toNat_add]
          exact Nat.mod_eq_of_lt (by omega)
        · rw [UInt32.toNat_add, UInt32.toNat_add, Nat.mod_eq_of_lt (by omega : ch.timing.tRP.toNat + ch.timing.tRCD.toNat < 2 ^ 32)]
          exact Nat.mod_eq_of_lt (by omega)
    have hreverse : (if t.reverse.isRead then ch.timing.tCL else ch.timing.tCWL) =
        if t.isRead then ch.timing.tCWL else ch.timing.tCL := by
      unfold CycleTransfer.reverse
      cases t.isRead <;> rfl
    unfold dramCharge
    rw [hcycles, hlatency _ hcas, hreverse]
    exact Nat.add_mod_mod _ _ _

/-- A transfer is charged and counted as the one in the other direction would have to be. -/
theorem transfer_reversed {ch : TuDramChannel} {bm : TuBankModel} (h : cm.Accurate numBanks) (hvalid : t.Valid numBanks)
    (hbytes : t.bytes ≠ 0) (hch : cm.dramChannel = some ch) (hbm : cm.bankModel = some bm) (hfits : ChargesFit ch bm t)
    (hrun : tuCycleModelDmaTransfer cm t = some (cm', elapsed)) : Directed cm cm' t.reverse := by
  obtain ⟨bm₀, hbm₀, hbanks⟩ := h.bankModel
  rw [hbm, Option.some.injEq] at hbm₀
  subst hbm₀
  obtain ⟨cycle, cycle', latency, stall, hdram, hbank, -⟩ := dmaTransfer_eq_some h.mode hbytes hrun
  rw [hch] at hdram
  rw [hbm] at hbank
  obtain ⟨ch', hch', haccess⟩ := dramPhase_eq_some hvalid.1 hdram
  have hsram : t.sramBank < bm.numBanks := hbanks ▸ hvalid.2
  unfold bankPhase at hbank
  dsimp only at hbank
  rw [if_pos hsram] at hbank
  split at hbank
  · exact absurd hbank nofun
  · rename_i hwidth
    rw [Option.some.injEq, Prod.mk.injEq] at hbank
    refine ⟨ch, ch', bm, _, hch, hch', hbm, hbank.1.symm, dramAccess_charge hfits haccess, ?_⟩
    obtain ⟨hreads, hwrites⟩ := refill_totals (bm.banks t.sramBank.toNat) bm.refillWindowCycles cycle'
    have hwords := ceilDiv_eq t.bytes hwidth hfits.words
    unfold BankCounted tuBankModelAccess
    rw [if_neg (UInt32.not_le.2 hsram)]
    dsimp only [CycleTransfer.reverse]
    rw [Function.update_self, (take_totals _ _ _ _ _).1, (take_totals _ _ _ _ _).2, hreads, hwrites, hwords]
    rcases Bool.eq_false_or_eq_true t.isRead with hread | hread <;> simp [hread]

/-- 64 bytes from DRAM to bank 0 of a new model count as 16 words read from the bank. -/
theorem dmaTransfer_counts_reads :
    (tuCycleModelCreate .cycleAccurate).Accurate 32 ∧
    ∃ t : CycleTransfer, t = { channel := 0, bytes := 64, isRead := true, dramAddr := 0x1000, sramBank := 0 } ∧
      t.Valid 32 ∧ ¬ AllDirected (tuCycleModelCreate .cycleAccurate) [t] ∧
      ∃ cm' elapsed bm', tuCycleModelDmaTransfer (tuCycleModelCreate .cycleAccurate) t = some (cm', elapsed) ∧
        cm'.bankModel = some bm' ∧ (bm'.banks 0).totalReads = 16 ∧ (bm'.banks 0).totalWrites = 0 := by
  have haccurate : (tuCycleModelCreate .cycleAccurate).Accurate 32 := ⟨rfl, ⟨_, rfl⟩, _, rfl, rfl⟩
  refine ⟨haccurate, _, rfl, ⟨by decide, by decide⟩, ?_, _, _, _, rfl, rfl, rfl, rfl⟩
  rintro ⟨cm', elapsed, hrun, hdirected, -⟩
  exact not_directed haccurate ⟨by decide, by decide⟩ (by decide) hrun (hdirected (by decide))

/-- A run of two transfers that move nothing. -/
theorem allDirected_iff_nothing :
    ∃ cm', transferAll (tuCycleModelCreate .cycleAccurate)
        [{ channel := 0, bytes := 0, isRead := true, dramAddr := 1, sramBank := 0 },
          { channel := 1, bytes := 0, isRead := false, dramAddr := 2, sramBank := 3 }] = some cm' ∧
      AllDirected (tuCycleModelCreate .cycleAccurate)
        [{ channel := 0, bytes := 0, isRead := true, dramAddr := 1, sramBank := 0 },
          { channel := 1, bytes := 0, isRead := false, dramAddr := 2, sramBank := 3 }] ∧
      cm'.rowCount ≡ (tuCycleModelCreate .cycleAccurate).rowCount + 0 [MOD 2 ^ 64] := by
  have haccurate : (tuCycleModelCreate .cycleAccurate).Accurate 32 := ⟨rfl, ⟨_, rfl⟩, _, rfl, rfl⟩
  refine (allDirected_iff haccurate ?_).2 ?_
  · intro t ht
    simp only [List.mem_cons, List.not_mem_nil, or_false] at ht
    rcases ht with rfl | rfl <;> exact ⟨by decide, by decide⟩
  · decide

end Tusim.Perf
