import Tusim.BandwidthLedger

/-!
# The word budget of a bank

A bank may serve `wordsPerCycle` words, and then stalls until a cycle advance of at least a window refills it.  Whatever
takes words from the banks takes them one by one, and a word that is served leaves the budget (`Served`); only a refill
gives words back.  So the budget is never negative and never above the grant (`WithinBudget`), and between two refills a
bank serves no more than it was granted (`servedSince_le`).

An access pays for the words it meets or for its size, by the mode of the region; the two counts differ by at most one
(`meteredWords_span`).
-/

namespace Tusim.Sram

open Word

/-! ### Words that are served -/

/-- From one state of a bank to another it served `reads` words of reads and `writes` words of writes. -/
structure Served (reads writes : Nat) (bw bw' : TuSramBwBank) : Prop where
  available : bw.wordsAvailable = bw'.wordsAvailable + reads + writes
  nonneg : 0 ≤ bw.wordsAvailable → 0 ≤ bw'.wordsAvailable
  readsServed : bw'.readsServed ≡ bw.readsServed + reads [MOD 2 ^ 64]
  writesServed : bw'.writesServed ≡ bw.writesServed + writes [MOD 2 ^ 64]
  readsServed_lt : bw.readsServed < 2 ^ 64 → bw'.readsServed < 2 ^ 64
  writesServed_lt : bw.writesServed < 2 ^ 64 → bw'.writesServed < 2 ^ 64

theorem Served.refl (bw : TuSramBwBank) : Served 0 0 bw bw := by
  refine ⟨?_, id, rfl, rfl, id, id⟩
  simp

theorem Served.trans {j k m n : Nat} {bw bw' bw'' : TuSramBwBank} (h : Served j k bw bw') (h' : Served m n bw' bw'') :
    Served (j + m) (k + n) bw bw'' where
  available := by
    rw [h.available, h'.available]
    omega
  nonneg := h'.nonneg ∘ h.nonneg
  readsServed := by
    rw [← Nat.add_assoc]
    exact h'.readsServed.trans (h.readsServed.add_right m)
  writesServed := by
    rw [← Nat.add_assoc]
    exact h'.writesServed.trans (h.writesServed.add_right n)
  readsServed_lt := h'.readsServed_lt ∘ h.readsServed_lt
  writesServed_lt := h'.writesServed_lt ∘ h.writesServed_lt

/-- A word is served or it stalls. -/
theorem exists_served_takeWord (isWrite : Bool) (bw : TuSramBwBank) :
    ∃ reads writes, Served reads writes bw (takeWord isWrite bw) := by
  have hlt : ∀ x, u64 x < 2 ^ 64 := fun x => Nat.mod_lt _ (by decide)
  unfold takeWord
  by_cases h : bw.wordsAvailable > 0
  · rw [if_pos h]
    cases isWrite with
    | false => exact ⟨1, 0, by dsimp; omega, fun _ => by dsimp; omega, u64_modEq _, rfl, fun _ => hlt _, id⟩
    | true => exact ⟨0, 1, by dsimp; omega, fun _ => by dsimp; omega, rfl, u64_modEq _, id, fun _ => hlt _⟩
  · rw [if_neg h]
    cases isWrite with
    | false => exact ⟨0, 0, by simp, id, rfl, rfl, id, id⟩
    | true => exact ⟨0, 0, by simp, id, rfl, rfl, id, id⟩

/-- The banks of a region only serve words. -/
structure Spends (b b' : TuSramBank) : Prop where
  wordsPerCycle : b'.wordsPerCycle = b.wordsPerCycle
  bankWidth : b'.bankWidth = b.bankWidth
  exists_served : ∀ i, ∃ reads writes, Served reads writes (b.bwBanks i) (b'.bwBanks i)

theorem Spends.refl (b : TuSramBank) : Spends b b := ⟨rfl, rfl, fun _ => ⟨0, 0, .refl _⟩⟩

theorem Spends.trans {b b' b'' : TuSramBank} (h : Spends b b') (h' : Spends b' b'') : Spends b b'' where
  wordsPerCycle := h'.wordsPerCycle.trans h.wordsPerCycle
  bankWidth := h'.bankWidth.trans h.bankWidth
  exists_served i := by
    obtain ⟨j, k, hfirst⟩ := h.exists_served i
    obtain ⟨m, n, hsecond⟩ := h'.exists_served i
    exact ⟨j + m, k + n, hfirst.trans hsecond⟩

theorem spends_update (b : TuSramBank) (bank : Nat) (isWrite : Bool) :
    Spends b { b with bwBanks := Function.update b.bwBanks bank (takeWord isWrite (b.bwBanks bank)) } := by
  refine ⟨rfl, rfl, fun i => ?_⟩
  dsimp only
  by_cases hi : i = bank
  · subst hi
    rw [Function.update_self]
    exact exists_served_takeWord isWrite _
  · rw [Function.update_of_ne hi]
    exact ⟨0, 0, .refl _⟩

theorem spends_sramBwConsume (r : TuCoreRegion) (bank : Nat) (isWrite : Bool) :
    Spends r.banks (sramBwConsume r bank isWrite).1.banks := by
  have htake := spends_update r.banks bank isWrite
  unfold sramBwConsume
  split
  · exact .refl _
  · dsimp only
    unfold takeWord at htake
    by_cases h : (r.banks.bwBanks bank).wordsAvailable > 0
    · rw [if_pos h] at htake ⊢
      exact htake
    · rw [if_neg h] at htake ⊢
      exact htake

theorem spends_sramMeter (r : TuCoreRegion) (addr bytes : Nat) (isWrite : Bool) :
    Spends r.banks (sramMeter r addr bytes isWrite).1.banks := by
  unfold sramMeter
  dsimp only
  generalize (if bytes = 0 then 0 else _) = words
  induction words with
  | zero => exact .refl _
  | succ n ih =>
    rw [List.range_succ, List.foldl_append]
    exact ih.trans (spends_sramBwConsume _ _ isWrite)

/-! ### Operations -/

/-- `tu_sram_set_word_metering`: the region and the result. -/
def tuSramSetWordMetering (r : TuCoreRegion) (mode : Nat) : TuCoreRegion × Int :=
  if mode ≠ 0 ∧ mode ≠ tuSramMeterAddressSpan then (r, -1) else ({ r with wordMetering := mode }, 0)

/-- `tu_sram_set_bw_modeling` -/
def tuSramSetBwModeling (r : TuCoreRegion) (enabled : Bool) : TuCoreRegion :=
  { r with banks := { r.banks with bwModeling := enabled } }

/-- A word that the executor of the DMA engine or the elementwise pipeline takes from the bank of an offset. -/
def takeWordAt (r : TuCoreRegion) (off : Nat) (isWrite : Bool) : TuCoreRegion :=
  let bank := tuSramBankIndex r.banks off
  if r.banks.bwModeling then
    { r with banks := { r.banks with
        bwBanks := Function.update r.banks.bwBanks bank (takeWord isWrite (r.banks.bwBanks bank)) } }
  else r

inductive BudgetOp where
  | read (addr : UInt32) (out : Nat → UInt8)
  | write (addr : UInt32) (data : Nat → UInt8)
  | readBulk (addr bytes : UInt32) (out : Nat → UInt8)
  | writeBulk (addr bytes : UInt32) (data : Nat → UInt8)
  | takeWord (off : UInt32) (isWrite : Bool)
  | advance (cycles : Nat)
  | refill
  | setWordMetering (mode : Nat)
  | setBwModeling (enabled : Bool)

def budgetStep (r : TuCoreRegion) : BudgetOp → TuCoreRegion
  | .read addr out => (tuSramRead r addr.toNat out).1
  | .write addr data => (tuSramWrite r addr.toNat data).1
  | .readBulk addr bytes out => (tuSramReadBulk r addr.toNat out bytes.toNat).1
  | .writeBulk addr bytes data => (tuSramWriteBulk r addr.toNat data bytes.toNat).1
  | .takeWord off isWrite => takeWordAt r off.toNat isWrite
  | .advance cycles => advanceCycle r cycles
  | .refill => { r with toTuSramRegion := tuSramRefillBw r.toTuSramRegion }
  | .setWordMetering mode => (tuSramSetWordMetering r mode).1
  | .setBwModeling enabled => tuSramSetBwModeling r enabled

/-- The refill loop comes to bank `i` and finds its window elapsed. -/
def RefillDue (b : TuSramBank) (i : Nat) : Prop :=
  b.bwModeling = true ∧ i < b.bankCount.toNat ∧
    u64 (b.currentCycle + 2 ^ 64 - (b.bwBanks i).lastRefillCycle) ≥ if b.bwRefillWindow > 0 then b.bwRefillWindow else 1

/-- The operation refills bank `i`. -/
def Refills (i : Nat) (r : TuCoreRegion) : BudgetOp → Prop
  | .advance cycles => RefillDue { r.banks with currentCycle := u64 (r.banks.currentCycle + cycles) } i
  | .refill => RefillDue r.banks i
  | _ => False

/-- The words a bank has served from one state to another, by its counters. -/
def servedSince (i : Nat) (r r' : TuCoreRegion) : Nat :=
  u64 ((r'.banks.bwBanks i).readsServed + 2 ^ 64 - (r.banks.bwBanks i).readsServed) +
    u64 ((r'.banks.bwBanks i).writesServed + 2 ^ 64 - (r.banks.bwBanks i).writesServed)

/-- The budgets of the banks are between zero and the grant. -/
structure WithinBudget (b : TuSramBank) : Prop where
  nonneg : ∀ i, 0 ≤ (b.bwBanks i).wordsAvailable
  le : ∀ i, (b.bwBanks i).wordsAvailable ≤ b.wordsPerCycle.toNat
  readsServed_lt : ∀ i, (b.bwBanks i).readsServed < 2 ^ 64
  writesServed_lt : ∀ i, (b.bwBanks i).writesServed < 2 ^ 64

theorem WithinBudget.of_spends {b b' : TuSramBank} (h : WithinBudget b) (hspends : Spends b b') : WithinBudget b' := by
  refine ⟨fun i => ?_, fun i => ?_, fun i => ?_, fun i => ?_⟩ <;>
    obtain ⟨reads, writes, hserved⟩ := hspends.exists_served i
  · exact hserved.nonneg (h.nonneg i)
  · have hle := h.le i
    have havailable := hserved.available
    rw [hspends.wordsPerCycle]
    omega
  · exact hserved.readsServed_lt (h.readsServed_lt i)
  · exact hserved.writesServed_lt (h.writesServed_lt i)

/-- The refill loop at one bank. -/
theorem refillBw_bank (r : TuSramRegion) (i : Nat) :
    (RefillDue r.banks i → (tuSramRefillBw r).banks.bwBanks i =
        { r.banks.bwBanks i with
          wordsAvailable := r.banks.wordsPerCycle.toNat, lastRefillCycle := r.banks.currentCycle }) ∧
      (¬ RefillDue r.banks i → (tuSramRefillBw r).banks.bwBanks i = r.banks.bwBanks i) := by
  unfold RefillDue tuSramRefillBw
  by_cases hmodeling : r.banks.bwModeling = true
  · rw [if_pos hmodeling]
    dsimp only
    by_cases hi : i < r.banks.bankCount.toNat
    · rw [if_pos hi]
      unfold TuSramBank.refillBank
      dsimp only
      refine ⟨fun h => if_pos h.2.2, fun h => if_neg fun hdue => h ⟨hmodeling, hi, hdue⟩⟩
    · rw [if_neg hi]
      exact ⟨fun h => absurd h.2.1 hi, fun _ => rfl⟩
  · rw [if_neg hmodeling]
    exact ⟨fun h => absurd h.1 hmodeling, fun _ => rfl⟩

theorem refillBw_frame (r : TuSramRegion) :
    (tuSramRefillBw r).banks.wordsPerCycle = r.banks.wordsPerCycle ∧
      (tuSramRefillBw r).banks.bankWidth = r.banks.bankWidth := by
  unfold tuSramRefillBw
  split <;> exact ⟨rfl, rfl⟩

theorem spends_access (addr bytes : Nat) (isWrite : Bool) {r r' : TuCoreRegion}
    (h : r'.banks = r.banks ∨ r'.banks = (sramMeter r addr bytes isWrite).1.banks) : Spends r.banks r'.banks := by
  rcases h with h | h
  · rw [h]
    exact .refl _
  · rw [h]
    exact spends_sramMeter r addr bytes isWrite

/-- What a step does to the banks: they only serve words, or the refill loop passes over them. -/
theorem budgetStep_cases (r : TuCoreRegion) (op : BudgetOp) :
    Spends r.banks (budgetStep r op).banks ∨
      ∃ cycle, (budgetStep r op).banks =
          (tuSramRefillBw { r.toTuSramRegion with banks := { r.banks with currentCycle := cycle } }).banks ∧
        ∀ i, Refills i r op ↔ RefillDue { r.banks with currentCycle := cycle } i := by
  cases op with
  | read addr out =>
    refine Or.inl (spends_access addr.toNat r.banks.bankWidth.toNat false ?_)
    unfold budgetStep tuSramRead
    dsimp only
    split
    · exact Or.inl rfl
    · exact Or.inr rfl
  | write addr data =>
    refine Or.inl (spends_access addr.toNat r.banks.bankWidth.toNat true ?_)
    unfold budgetStep tuSramWrite
    dsimp only
    split
    · exact Or.inl rfl
    · exact Or.inr (setActive_banks _ _)
  | readBulk addr bytes out =>
    refine Or.inl (spends_access addr.toNat bytes.toNat false ?_)
    unfold budgetStep tuSramReadBulk
    dsimp only
    split
    · exact Or.inl rfl
    · exact Or.inr rfl
  | writeBulk addr bytes data =>
    refine Or.inl (spends_access addr.toNat bytes.toNat true ?_)
    unfold budgetStep tuSramWriteBulk
    dsimp only
    split
    · exact Or.inl rfl
    · exact Or.inr (setActive_banks _ _)
  | takeWord off isWrite =>
    refine Or.inl ?_
    unfold budgetStep takeWordAt
    dsimp only
    split
    · exact spends_update _ _ _
    · exact .refl _
  | advance cycles => exact Or.inr ⟨_, rfl, fun i => Iff.rfl⟩
  | refill => exact Or.inr ⟨r.banks.currentCycle, rfl, fun i => Iff.rfl⟩
  | setWordMetering mode =>
    refine Or.inl ?_
    unfold budgetStep tuSramSetWordMetering
    dsimp only
    split <;> exact .refl _
  | setBwModeling enabled => exact Or.inl ⟨rfl, rfl, fun i => ⟨0, 0, .refl _⟩⟩

theorem budgetStep_frame (r : TuCoreRegion) (op : BudgetOp) :
    (budgetStep r op).banks.wordsPerCycle = r.banks.wordsPerCycle ∧
      (budgetStep r op).banks.bankWidth = r.banks.bankWidth := by
  rcases budgetStep_cases r op with hspends | ⟨cycle, hbanks, -⟩
  · exact ⟨hspends.wordsPerCycle, hspends.bankWidth⟩
  · rw [hbanks]
    exact refillBw_frame _

/-- A refill gives a bank its grant, which is within the budget. -/
theorem WithinBudget.budgetStep {r : TuCoreRegion} (h : WithinBudget r.banks) (op : BudgetOp) :
    WithinBudget (budgetStep r op).banks := by
  rcases budgetStep_cases r op with hspends | ⟨cycle, hbanks, -⟩
  · exact h.of_spends hspends
  · have hwpc := (refillBw_frame { r.toTuSramRegion with banks := { r.banks with currentCycle := cycle } }).1
    have hbank : ∀ i, (∃ last, (tuSramRefillBw
          { r.toTuSramRegion with banks := { r.banks with currentCycle := cycle } }).banks.bwBanks i =
            { r.banks.bwBanks i with wordsAvailable := r.banks.wordsPerCycle.toNat, lastRefillCycle := last }) ∨
        (tuSramRefillBw { r.toTuSramRegion with banks := { r.banks with currentCycle := cycle } }).banks.bwBanks i =
          r.banks.bwBanks i := by
      intro i
      obtain ⟨hdue, hnot⟩ := refillBw_bank { r.toTuSramRegion with banks := { r.banks with currentCycle := cycle } } i
      by_cases h : RefillDue { r.banks with currentCycle := cycle } i
      · exact Or.inl ⟨_, hdue h⟩
      · exact Or.inr (hnot h)
    rw [hbanks]
    refine ⟨fun i => ?_, fun i => ?_, fun i => ?_, fun i => ?_⟩ <;> rcases hbank i with ⟨last, hi⟩ | hi <;> rw [hi]
    · exact Int.natCast_nonneg _
    · exact h.nonneg i
    · rw [hwpc]
    · rw [hwpc]
      exact h.le i
    · exact h.readsServed_lt i
    · exact h.readsServed_lt i
    · exact h.writesServed_lt i
    · exact h.writesServed_lt i

/-- A step that does not refill the bank only takes words from it. -/
theorem exists_served_step {r : TuCoreRegion} {op : BudgetOp} {i : Nat} (h : ¬ Refills i r op) :
    ∃ reads writes, Served reads writes (r.banks.bwBanks i) ((budgetStep r op).banks.bwBanks i) := by
  rcases budgetStep_cases r op with hspends | ⟨cycle, hbanks, hiff⟩
  · exact hspends.exists_served i
  · have hsame := (refillBw_bank { r.toTuSramRegion with banks := { r.banks with currentCycle := cycle } } i).2
      fun hdue => h ((hiff i).2 hdue)
    rw [hbanks, hsame]
    exact ⟨0, 0, .refl _⟩

/-! ### Runs -/

theorem WithinBudget.exec {r : TuCoreRegion} (h : WithinBudget r.banks) (ops : List BudgetOp) :
    WithinBudget (Run.exec Sram.budgetStep r ops).banks := by
  induction ops generalizing r with
  | nil => exact h
  | cons op ops ih => exact ih (h.budgetStep op)

theorem exec_frame (r : TuCoreRegion) (ops : List BudgetOp) :
    (Run.exec budgetStep r ops).banks.wordsPerCycle = r.banks.wordsPerCycle ∧
      (Run.exec budgetStep r ops).banks.bankWidth = r.banks.bankWidth := by
  induction ops generalizing r with
  | nil => exact ⟨rfl, rfl⟩
  | cons op ops ih =>
    obtain ⟨hwpc, hwidth⟩ := budgetStep_frame r op
    rw [Run.exec_cons, (ih _).1, (ih _).2]
    exact ⟨hwpc, hwidth⟩

theorem exists_served_run {r : TuCoreRegion} {ops : List BudgetOp} {i : Nat}
    (h : Run.Along (fun r op => ¬ Refills i r op) budgetStep r ops) :
    ∃ reads writes, Served reads writes (r.banks.bwBanks i) ((Run.exec budgetStep r ops).banks.bwBanks i) := by
  induction ops generalizing r with
  | nil => exact ⟨0, 0, .refl _⟩
  | cons op ops ih =>
    obtain ⟨j, k, hstep⟩ := exists_served_step h.1
    obtain ⟨m, n, hrun⟩ := ih h.2
    exact ⟨j + m, k + n, hstep.trans hrun⟩

/-- Between two refills a bank serves no more words than it was granted. -/
theorem servedSince_le {r : TuCoreRegion} (hwithin : WithinBudget r.banks) {ops : List BudgetOp} {i : Nat}
    (h : Run.Along (fun r op => ¬ Refills i r op) budgetStep r ops) :
    servedSince i r (Run.exec budgetStep r ops) ≤ r.banks.wordsPerCycle.toNat := by
  obtain ⟨reads, writes, hserved⟩ := exists_served_run h
  have hwithin' := hwithin.exec ops
  have hnonneg := hwithin'.nonneg i
  have hle := hwithin.le i
  have havailable := hserved.available
  have hbyte : r.banks.wordsPerCycle.toNat < 256 := r.banks.wordsPerCycle.toNat_lt
  have hreads := hserved.readsServed
  have hwrites := hserved.writesServed
  have hlt := hwithin.readsServed_lt i
  have hlt' := hwithin'.readsServed_lt i
  have hwlt := hwithin.writesServed_lt i
  have hwlt' := hwithin'.writesServed_lt i
  unfold Nat.ModEq at hreads hwrites
  unfold servedSince u64
  -- the counters differ by the words served, which are too few to wrap them around
  omega

/-! ### The words of an access -/

theorem meteredWords_zero (r : TuCoreRegion) (addr : Nat) (isWrite : Bool) : meteredWords r addr 0 isWrite = 0 := rfl

theorem meteredWords_size {r : TuCoreRegion} (hmode : r.wordMetering ≠ tuSramMeterAddressSpan) (addr : Nat)
    {bytes : Nat} (hbytes : 0 < bytes) (isWrite : Bool) :
    meteredWords r addr bytes isWrite = (bytes - 1) / r.banks.bankWidth.toNat + 1 := by
  unfold meteredWords sramMeter
  dsimp only
  rw [if_neg (Nat.ne_of_gt hbytes), if_neg hmode, Nat.add_comm]

theorem meteredWords_met {r : TuCoreRegion} (hwidth : 0 < r.banks.bankWidth.toNat)
    (hmode : r.wordMetering = tuSramMeterAddressSpan) (addr : Nat) {bytes : Nat} (hbytes : 0 < bytes)
    (isWrite : Bool) :
    meteredWords r addr bytes isWrite = (Cutting.met r.banks.bankWidth.toNat addr bytes).card := by
  have hle : addr / r.banks.bankWidth.toNat ≤ (addr + bytes - 1) / r.banks.bankWidth.toNat :=
    Nat.div_le_div_right (by omega)
  rw [Cutting.met_eq_Icc hwidth hbytes, Nat.card_Icc, Nat.sub_add_comm hle]
  unfold meteredWords sramMeter
  dsimp only
  rw [if_neg (Nat.ne_of_gt hbytes), if_pos hmode]

/-- In address-span mode an access pays for the words it meets, at most one more than in size-only mode. -/
theorem meteredWords_span {r : TuCoreRegion} (hwidth : 0 < r.banks.bankWidth.toNat)
    (hmode : r.wordMetering = tuSramMeterAddressSpan) (addr bytes : Nat) (isWrite : Bool) :
    meteredWords r addr bytes isWrite = (Cutting.met r.banks.bankWidth.toNat addr bytes).card ∧
      meteredWords { r with wordMetering := 0 } addr bytes isWrite ≤ meteredWords r addr bytes isWrite ∧
      meteredWords r addr bytes isWrite ≤ meteredWords { r with wordMetering := 0 } addr bytes isWrite + 1 := by
  rcases Nat.eq_zero_or_pos bytes with rfl | hbytes
  · rw [meteredWords_zero, meteredWords_zero]
    refine ⟨?_, Nat.le_refl 0, Nat.zero_le _⟩
    simp [Cutting.met]
  · have hsize : meteredWords { r with wordMetering := 0 } addr bytes isWrite =
        (bytes - 1) / r.banks.bankWidth.toNat + 1 := meteredWords_size Nat.zero_ne_one addr hbytes isWrite
    rw [hsize, meteredWords_met hwidth hmode addr hbytes, Cutting.card_met hwidth hbytes]
    have hoffset : addr % r.banks.bankWidth.toNat < r.banks.bankWidth.toNat := Nat.mod_lt _ hwidth
    refine ⟨rfl, Nat.succ_le_succ (Nat.div_le_div_right (by omega)), Nat.succ_le_succ ?_⟩
    -- the offset in the first word pushes the last byte at most one word further
    rw [← Nat.add_div_right _ hwidth]
    exact Nat.div_le_div_right (by omega)

/-! ### Regions -/

theorem withinBudget_init (sizeBytes : UInt32) (name : String) (bankCount bankWidth : UInt32)
    (wordsPerCycle stallPenalty : UInt8) (refillWindow : Nat) :
    WithinBudget
      (tuSramInitRuntime sizeBytes name bankCount bankWidth wordsPerCycle stallPenalty refillWindow).banks :=
  ⟨fun _ => Int.natCast_nonneg _, fun _ => Int.le_refl _, fun _ => Nat.two_pow_pos 64, fun _ => Nat.two_pow_pos 64⟩

theorem bankWidth_init_pos (sizeBytes : UInt32) (name : String) (bankCount bankWidth : UInt32)
    (wordsPerCycle stallPenalty : UInt8) (refillWindow : Nat) :
    0 < (tuSramInitRuntime sizeBytes name bankCount bankWidth wordsPerCycle stallPenalty
      refillWindow).banks.bankWidth.toNat := by
  unfold tuSramInitRuntime
  dsimp only
  split
  · rename_i hne
    exact toNat_pos hne
  · decide

/-- **The bank budget.**  In every state of every run of a region the budgets are within the grant; from there on a bank
serves at most its grant until an operation refills it; and the two ways to count the words of an access agree up to
one, the first of them exactly. -/
theorem bank_budget (sizeBytes : UInt32) (name : String) (bankCount bankWidth : UInt32)
    (wordsPerCycle stallPenalty : UInt8) (refillWindow : Nat) (ops : List BudgetOp) :
    let r := Run.exec budgetStep
      (tuSramInitRuntime sizeBytes name bankCount bankWidth wordsPerCycle stallPenalty refillWindow) ops
    (∀ i, 0 ≤ (r.banks.bwBanks i).wordsAvailable ∧ (r.banks.bwBanks i).wordsAvailable ≤ r.banks.wordsPerCycle.toNat) ∧
      (∀ i ops', Run.Along (fun r op => ¬ Refills i r op) budgetStep r ops' →
        servedSince i r (Run.exec budgetStep r ops') ≤ r.banks.wordsPerCycle.toNat) ∧
      ∀ (addr bytes : UInt32) (isWrite : Bool), r.wordMetering = tuSramMeterAddressSpan →
        meteredWords r addr.toNat bytes.toNat isWrite =
            (Cutting.met r.banks.bankWidth.toNat addr.toNat bytes.toNat).card ∧
          meteredWords { r with wordMetering := 0 } addr.toNat bytes.toNat isWrite ≤
            meteredWords r addr.toNat bytes.toNat isWrite ∧
          meteredWords r addr.toNat bytes.toNat isWrite ≤
            meteredWords { r with wordMetering := 0 } addr.toNat bytes.toNat isWrite + 1 := by
  intro r
  have hwithin : WithinBudget r.banks :=
    (withinBudget_init sizeBytes name bankCount bankWidth wordsPerCycle stallPenalty refillWindow).exec ops
  have hwidth : 0 < r.banks.bankWidth.toNat := by
    rw [(exec_frame _ ops).2]
    exact bankWidth_init_pos sizeBytes name bankCount bankWidth wordsPerCycle stallPenalty refillWindow
  exact ⟨fun i => ⟨hwithin.nonneg i, hwithin.le i⟩, fun i ops' h => servedSince_le hwithin h,
    fun addr bytes isWrite hmode => meteredWords_span hwidth hmode addr.toNat bytes.toNat isWrite⟩

end Tusim.Sram
