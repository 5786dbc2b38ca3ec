import Mathlib.Algebra.BigOperators.Group.Finset.Basic
import Mathlib.Data.Nat.ModEq
import Tusim.Dma.Admission
import Tusim.SramAccess

/-!
# The ledger of the bandwidth model

A region counts the words it serves and stalls in its banks (`TuSramBwBank`), and in `reads`, `writes` and `stallCycles`
again.  Both the accesses of `tu_sram.c` and the executor of the DMA engine take words from the banks (`takeWord`), but
only the former keep the second set of books.

* `Consumed`: so many words were taken from the banks, and so many of them stalled;
* `balanced_of_metered`, `balanced_advanceCycle`: the accesses and the cycles keep the ledger (`LedgerBalanced`);
* `balanced_executeOn_iff`: an execution that takes a word breaks it;
* `ledger_iff`: the ledger is balanced in every state of a run exactly when no execution of the run takes a word.
-/

namespace Tusim.Sram

open Word

/-- The sum of a counter over the banks. -/
def bankTotal (f : TuSramBwBank → Nat) (b : TuSramBank) : Nat :=
  ∑ i ∈ Finset.range b.bankCount.toNat, f (b.bwBanks i)

/-- The words of one direction that a bank has counted. -/
def wordsOf (isWrite : Bool) (bw : TuSramBwBank) : Nat :=
  if isWrite then bw.writesServed + bw.writeStalls else bw.readsServed + bw.readStalls

def stallsOf (bw : TuSramBwBank) : Nat := bw.readStalls + bw.writeStalls

/-- The counters of a region agree with those of its banks, in the arithmetic of 64-bit counters. -/
structure LedgerBalanced (r : TuCoreRegion) : Prop where
  stallCycles : r.stallCycles = u64 (r.banks.stallPenalty.toNat * bankTotal stallsOf r.banks)
  reads : r.reads = u64 (bankTotal (wordsOf false) r.banks)
  writes : r.writes = u64 (bankTotal (wordsOf true) r.banks)

/-! ### Taking words -/

/-- A bank after one word. -/
def takeWord (isWrite : Bool) (bw : TuSramBwBank) : TuSramBwBank :=
  if bw.wordsAvailable > 0 then
    let bw := { bw with wordsAvailable := bw.wordsAvailable - 1 }
    if isWrite then { bw with writesServed := u64 (bw.writesServed + 1) }
    else { bw with readsServed := u64 (bw.readsServed + 1) }
  else if isWrite then { bw with writeStalls := u64 (bw.writeStalls + 1) }
  else { bw with readStalls := u64 (bw.readStalls + 1) }

/-- One for a word that stalls. -/
def stalled (bw : TuSramBwBank) : Nat := if bw.wordsAvailable > 0 then 0 else 1

theorem u64_modEq (x : Nat) : u64 x ≡ x [MOD 2 ^ 64] := Nat.mod_modEq _ _

theorem wordsOf_takeWord (isWrite : Bool) (bw : TuSramBwBank) :
    wordsOf isWrite (takeWord isWrite bw) ≡ wordsOf isWrite bw + 1 [MOD 2 ^ 64] := by
  unfold wordsOf takeWord Nat.ModEq u64
  cases isWrite <;> by_cases h : bw.wordsAvailable > 0 <;> simp only [h, ↓reduceIte, Bool.false_eq_true] <;> omega

theorem wordsOf_takeWord_other (isWrite : Bool) (bw : TuSramBwBank) :
    wordsOf (!isWrite) (takeWord isWrite bw) = wordsOf (!isWrite) bw := by
  unfold wordsOf takeWord
  cases isWrite <;> by_cases h : bw.wordsAvailable > 0 <;> simp only [h, ↓reduceIte, Bool.false_eq_true, Bool.not_true,
    Bool.not_false]

theorem stallsOf_takeWord (isWrite : Bool) (bw : TuSramBwBank) :
    stallsOf (takeWord isWrite bw) ≡ stallsOf bw + stalled bw [MOD 2 ^ 64] := by
  unfold stallsOf takeWord stalled Nat.ModEq u64
  cases isWrite <;> by_cases h : bw.wordsAvailable > 0 <;> simp only [h, ↓reduceIte, Bool.false_eq_true] <;> omega

theorem bankTotal_update {b : TuSramBank} {i : Nat} (hi : i < b.bankCount.toNat) (f : TuSramBwBank → Nat)
    (bw : TuSramBwBank) {k : Nat} (hbw : f bw ≡ f (b.bwBanks i) + k [MOD 2 ^ 64]) :
    bankTotal f { b with bwBanks := Function.update b.bwBanks i bw } ≡ bankTotal f b + k [MOD 2 ^ 64] := by
  have hmem : i ∈ Finset.range b.bankCount.toNat := Finset.mem_range.2 hi
  unfold bankTotal
  rw [← Finset.add_sum_erase _ _ hmem, ← Finset.add_sum_erase _ _ hmem]
  dsimp only
  rw [Function.update_self, Finset.sum_congr rfl fun j hj => by rw [Function.update_of_ne (Finset.ne_of_mem_erase hj)],
    Nat.add_right_comm]
  exact hbw.add_right _

/-- `words` words of one direction were taken from the banks, and `stalls` of them stalled. -/
structure Consumed (isWrite : Bool) (words stalls : Nat) (b b' : TuSramBank) : Prop where
  bankCount : b'.bankCount = b.bankCount
  stallPenalty : b'.stallPenalty = b.stallPenalty
  bwModeling : b'.bwModeling = b.bwModeling
  bankWidth : b'.bankWidth = b.bankWidth
  taken : bankTotal (wordsOf isWrite) b' ≡ bankTotal (wordsOf isWrite) b + words [MOD 2 ^ 64]
  other : bankTotal (wordsOf !isWrite) b' = bankTotal (wordsOf !isWrite) b
  stalled : bankTotal stallsOf b' ≡ bankTotal stallsOf b + stalls [MOD 2 ^ 64]
  stalls_le : stalls ≤ words

theorem Consumed.refl (isWrite : Bool) (b : TuSramBank) : Consumed isWrite 0 0 b b :=
  ⟨rfl, rfl, rfl, rfl, rfl, rfl, rfl, Nat.le_refl 0⟩

theorem Consumed.trans {isWrite : Bool} {m n j k : Nat} {b b' b'' : TuSramBank} (h : Consumed isWrite m j b b')
    (h' : Consumed isWrite n k b' b'') : Consumed isWrite (m + n) (j + k) b b'' where
  bankCount := h'.bankCount.trans h.bankCount
  stallPenalty := h'.stallPenalty.trans h.stallPenalty
  bwModeling := h'.bwModeling.trans h.bwModeling
  bankWidth := h'.bankWidth.trans h.bankWidth
  taken := by
    rw [← Nat.add_assoc]
    exact h'.taken.trans (h.taken.add_right n)
  other := h'.other.trans h.other
  stalled := by
    rw [← Nat.add_assoc]
    exact h'.stalled.trans (h.stalled.add_right k)
  stalls_le := Nat.add_le_add h.stalls_le h'.stalls_le

theorem consumed_takeWord {b : TuSramBank} {i : Nat} (hi : i < b.bankCount.toNat) (isWrite : Bool) :
    Consumed isWrite 1 (stalled (b.bwBanks i)) b
      { b with bwBanks := Function.update b.bwBanks i (takeWord isWrite (b.bwBanks i)) } where
  bankCount := rfl
  stallPenalty := rfl
  bwModeling := rfl
  bankWidth := rfl
  taken := bankTotal_update hi _ _ (wordsOf_takeWord isWrite _)
  other := by
    unfold bankTotal
    refine Finset.sum_congr rfl fun j _ => ?_
    dsimp only
    by_cases hj : j = i
    · subst hj
      rw [Function.update_self, wordsOf_takeWord_other]
    · rw [Function.update_of_ne hj]
  stalled := bankTotal_update hi _ _ (stallsOf_takeWord isWrite _)
  stalls_le := by
    unfold Sram.stalled
    split <;> decide

/-! ### Accesses -/

/-- A region as its initialisation and the accesses keep it: it has banks, and their bandwidth is modelled. -/
structure Modelled (r : TuCoreRegion) : Prop where
  bankCount : 0 < r.banks.bankCount.toNat
  bwModeling : r.banks.bwModeling = true

/-- The words of a metered access: their stalls are booked, the accesses themselves not yet. -/
structure Metered (isWrite : Bool) (words : Nat) (r r' : TuCoreRegion) : Prop where
  exists_consumed : ∃ stalls, Consumed isWrite words stalls r.banks r'.banks ∧
    r'.stallCycles ≡ r.stallCycles + r.banks.stallPenalty.toNat * stalls [MOD 2 ^ 64]
  bound : r.stallCycles < 2 ^ 64 → r'.stallCycles < 2 ^ 64
  reads : r'.reads = r.reads
  writes : r'.writes = r.writes

theorem Metered.refl (isWrite : Bool) (r : TuCoreRegion) : Metered isWrite 0 r r :=
  ⟨⟨0, .refl isWrite _, rfl⟩, id, rfl, rfl⟩

theorem Metered.trans {isWrite : Bool} {m n : Nat} {r r' r'' : TuCoreRegion} (h : Metered isWrite m r r')
    (h' : Metered isWrite n r' r'') : Metered isWrite (m + n) r r'' where
  exists_consumed := by
    obtain ⟨j, hj, hstall⟩ := h.exists_consumed
    obtain ⟨k, hk, hstall'⟩ := h'.exists_consumed
    refine ⟨j + k, hj.trans hk, ?_⟩
    rw [hj.stallPenalty] at hstall'
    rw [Nat.mul_add, ← Nat.add_assoc]
    exact hstall'.trans (hstall.add_right _)
  bound := h'.bound ∘ h.bound
  reads := h'.reads.trans h.reads
  writes := h'.writes.trans h.writes

theorem Metered.modelled {isWrite : Bool} {n : Nat} {r r' : TuCoreRegion} (h : Metered isWrite n r r')
    (hr : Modelled r) : Modelled r' := by
  obtain ⟨_, hconsumed, _⟩ := h.exists_consumed
  exact ⟨by rw [hconsumed.bankCount]; exact hr.bankCount, by rw [hconsumed.bwModeling]; exact hr.bwModeling⟩

theorem metered_sramBwConsume {r : TuCoreRegion} (hr : Modelled r) {i : Nat} (hi : i < r.banks.bankCount.toNat)
    (isWrite : Bool) : Metered isWrite 1 r (sramBwConsume r i isWrite).1 := by
  have htake := consumed_takeWord hi isWrite
  unfold sramBwConsume
  rw [if_neg (by rw [hr.bwModeling]; simp)]
  dsimp only
  by_cases h : (r.banks.bwBanks i).wordsAvailable > 0
  · rw [if_pos h]
    unfold takeWord stalled at htake
    rw [if_pos h, if_pos h] at htake
    exact ⟨⟨0, htake, rfl⟩, id, rfl, rfl⟩
  · rw [if_neg h]
    unfold takeWord stalled at htake
    rw [if_neg h, if_neg h] at htake
    refine ⟨⟨1, htake, ?_⟩, fun _ => Nat.mod_lt _ (by decide), rfl, rfl⟩
    rw [Nat.mul_one]
    exact u64_modEq _

/-- The number of words of an access. -/
def meteredWords (r : TuCoreRegion) (addr bytes : Nat) (isWrite : Bool) : Nat := (sramMeter r addr bytes isWrite).2.2

theorem metered_sramMeter {r : TuCoreRegion} (hr : Modelled r) (addr bytes : Nat) (isWrite : Bool) :
    Metered isWrite (meteredWords r addr bytes isWrite) r (sramMeter r addr bytes isWrite).1 := by
  unfold meteredWords sramMeter
  dsimp only
  generalize (if bytes = 0 then 0 else _) = words
  induction words with
  | zero => exact .refl isWrite r
  | succ n ih =>
    rw [List.range_succ, List.foldl_append]
    have hmodelled := ih.modelled hr
    exact ih.trans (metered_sramBwConsume hmodelled (Nat.mod_lt _ hmodelled.bankCount) isWrite)

/-- Booking the accesses balances the ledger again. -/
theorem balanced_of_metered {isWrite : Bool} {words : Nat} {r r' : TuCoreRegion} (h : LedgerBalanced r)
    (hmetered : Metered isWrite words r r') {r'' : TuCoreRegion} (hbanks : r''.banks = r'.banks)
    (hstall : r''.stallCycles = r'.stallCycles)
    (hreads : r''.reads = if isWrite then r'.reads else u64 (r'.reads + words))
    (hwrites : r''.writes = if isWrite then u64 (r'.writes + words) else r'.writes) : LedgerBalanced r'' := by
  obtain ⟨stalls, hconsumed, hstalls⟩ := hmetered.exists_consumed
  have hlt : r'.stallCycles < 2 ^ 64 := hmetered.bound (by rw [h.stallCycles]; exact Nat.mod_lt _ (by decide))
  refine ⟨?_, ?_, ?_⟩
  · rw [hstall, hbanks, hconsumed.stallPenalty, ← u64_of_lt hlt]
    refine hstalls.trans ?_
    rw [h.stallCycles]
    refine ((u64_modEq _).add_right _).trans ?_
    rw [← Nat.mul_add]
    exact (hconsumed.stalled.symm).mul_left _
  · rw [hreads, hbanks]
    cases isWrite with
    | true =>
      rw [if_pos rfl, hmetered.reads, h.reads]
      exact congrArg u64 hconsumed.other.symm
    | false =>
      rw [if_neg Bool.false_ne_true, hmetered.reads, h.reads]
      exact ((u64_modEq _).add_right _).trans hconsumed.taken.symm
  · rw [hwrites, hbanks]
    cases isWrite with
    | true =>
      rw [if_pos rfl, hmetered.writes, h.writes]
      exact ((u64_modEq _).add_right _).trans hconsumed.taken.symm
    | false =>
      rw [if_neg Bool.false_ne_true, hmetered.writes, h.writes]
      exact congrArg u64 hconsumed.other.symm

theorem balanced_tuSramReadBulk {r : TuCoreRegion} (hr : Modelled r) (h : LedgerBalanced r) (addr : Nat)
    (out : Nat → UInt8) (bytes : Nat) :
    Modelled (tuSramReadBulk r addr out bytes).1 ∧ LedgerBalanced (tuSramReadBulk r addr out bytes).1 := by
  unfold tuSramReadBulk
  split
  · exact ⟨hr, h⟩
  · have hmetered := metered_sramMeter hr addr bytes false
    have hmodelled := hmetered.modelled hr
    exact ⟨⟨hmodelled.bankCount, hmodelled.bwModeling⟩, balanced_of_metered h hmetered rfl rfl rfl rfl⟩

theorem setActive_banks (r : TuCoreRegion) (bytes : Nat → UInt8) : (setActive r bytes).banks = r.banks :=
  setRaw_banks _ _

theorem balanced_tuSramWriteBulk {r : TuCoreRegion} (hr : Modelled r) (h : LedgerBalanced r) (addr : Nat)
    (data : Nat → UInt8) (bytes : Nat) :
    Modelled (tuSramWriteBulk r addr data bytes).1 ∧ LedgerBalanced (tuSramWriteBulk r addr data bytes).1 := by
  unfold tuSramWriteBulk
  split
  · exact ⟨hr, h⟩
  · have hmetered := metered_sramMeter hr addr bytes true
    have hmodelled := hmetered.modelled hr
    refine ⟨⟨?_, ?_⟩, balanced_of_metered h hmetered (setActive_banks _ _) rfl rfl rfl⟩
    · rw [setActive_banks]
      exact hmodelled.bankCount
    · rw [setActive_banks]
      exact hmodelled.bwModeling

theorem balanced_tuSramRead {r : TuCoreRegion} (hr : Modelled r) (h : LedgerBalanced r) (addr : Nat)
    (out : Nat → UInt8) : Modelled (tuSramRead r addr out).1 ∧ LedgerBalanced (tuSramRead r addr out).1 := by
  unfold tuSramRead
  dsimp only
  split
  · exact ⟨hr, h⟩
  · have hmetered := metered_sramMeter hr addr r.banks.bankWidth.toNat false
    have hmodelled := hmetered.modelled hr
    exact ⟨⟨hmodelled.bankCount, hmodelled.bwModeling⟩, balanced_of_metered h hmetered rfl rfl rfl rfl⟩

theorem balanced_tuSramWrite {r : TuCoreRegion} (hr : Modelled r) (h : LedgerBalanced r) (addr : Nat)
    (data : Nat → UInt8) : Modelled (tuSramWrite r addr data).1 ∧ LedgerBalanced (tuSramWrite r addr data).1 := by
  unfold tuSramWrite
  dsimp only
  split
  · exact ⟨hr, h⟩
  · have hmetered := metered_sramMeter hr addr r.banks.bankWidth.toNat true
    have hmodelled := hmetered.modelled hr
    refine ⟨⟨?_, ?_⟩, balanced_of_metered h hmetered (setActive_banks _ _) rfl rfl rfl⟩
    · rw [setActive_banks]
      exact hmodelled.bankCount
    · rw [setActive_banks]
      exact hmodelled.bwModeling

/-- `tu_sram_advance_cycle` -/
def advanceCycle (r : TuCoreRegion) (cycles : Nat) : TuCoreRegion :=
  { r with toTuSramRegion := tuSramAdvanceCycle r.toTuSramRegion cycles }

theorem exists_refillBank (b : TuSramBank) (bw : TuSramBwBank) :
    ∃ words cycle, b.refillBank bw = { bw with wordsAvailable := words, lastRefillCycle := cycle } := by
  unfold TuSramBank.refillBank
  dsimp only
  generalize (if b.bwRefillWindow > 0 then b.bwRefillWindow else 1) = window
  split
  · exact ⟨_, _, rfl⟩
  · exact ⟨bw.wordsAvailable, bw.lastRefillCycle, rfl⟩

/-- A refill gives words to the banks and leaves their counters alone. -/
theorem bankTotal_advance (r : TuSramRegion) (cycles : Nat) {f : TuSramBwBank → Nat}
    (hf : ∀ bw words cycle, f { bw with wordsAvailable := words, lastRefillCycle := cycle } = f bw) :
    bankTotal f (tuSramAdvanceCycle r cycles).banks = bankTotal f r.banks := by
  unfold tuSramAdvanceCycle tuSramRefillBw
  split
  · unfold bankTotal
    refine Finset.sum_congr rfl fun i hi => ?_
    dsimp only
    rw [if_pos (Finset.mem_range.1 hi)]
    obtain ⟨words, cycle, hrefill⟩ :=
      exists_refillBank { r.banks with currentCycle := u64 (r.banks.currentCycle + cycles) } (r.banks.bwBanks i)
    rw [hrefill]
    exact hf _ _ _
  · rfl

theorem consumed_advance (r : TuSramRegion) (cycles : Nat) (isWrite : Bool) :
    Consumed isWrite 0 0 r.banks (tuSramAdvanceCycle r cycles).banks := by
  have hframe : (tuSramAdvanceCycle r cycles).banks.bankCount = r.banks.bankCount ∧
      (tuSramAdvanceCycle r cycles).banks.stallPenalty = r.banks.stallPenalty ∧
      (tuSramAdvanceCycle r cycles).banks.bwModeling = r.banks.bwModeling ∧
      (tuSramAdvanceCycle r cycles).banks.bankWidth = r.banks.bankWidth := by
    unfold tuSramAdvanceCycle tuSramRefillBw
    split <;> exact ⟨rfl, rfl, rfl, rfl⟩
  obtain ⟨hcount, hpenalty, hmodeling, hwidth⟩ := hframe
  have htotal : ∀ w, bankTotal (wordsOf w) (tuSramAdvanceCycle r cycles).banks = bankTotal (wordsOf w) r.banks :=
    fun w => bankTotal_advance r cycles fun _ _ _ => rfl
  refine ⟨hcount, hpenalty, hmodeling, hwidth, ?_, htotal _, ?_, Nat.le_refl 0⟩
  · rw [htotal]
    rfl
  · rw [bankTotal_advance (f := stallsOf) r cycles fun _ _ _ => rfl]
    rfl

theorem balanced_advanceCycle {r : TuCoreRegion} (hr : Modelled r) (h : LedgerBalanced r) (cycles : Nat) :
    Modelled (advanceCycle r cycles) ∧ LedgerBalanced (advanceCycle r cycles) := by
  have hconsumed := consumed_advance r.toTuSramRegion cycles
  have hmetered : Metered false 0 r (advanceCycle r cycles) := ⟨⟨0, hconsumed false, rfl⟩, id, rfl, rfl⟩
  refine ⟨hmetered.modelled hr, balanced_of_metered h hmetered rfl rfl ?_ rfl⟩
  rw [if_neg Bool.false_ne_true, Nat.add_zero, hmetered.reads, h.reads]
  exact (Nat.mod_mod _ _).symm

/-! ### The executor -/

/-- The engine with the region under number `k`. -/
def withRegion (e : TuDmaEngine) (k : Nat) (r : TuCoreRegion) : TuDmaEngine :=
  { e with mem := { e.mem with sram := Function.update e.mem.sram k r.toTuSramRegion } }

/-- The region under number `k` after `tu_dma_execute_desc` on descriptor `d` of an engine. -/
def executeOn (r : TuCoreRegion) (e : TuDmaEngine) (k d : Nat) : TuCoreRegion :=
  { r with toTuSramRegion := (tuDmaExecuteDesc (withRegion e k r) d).mem.sram k }

/-- The words that a transfer takes from region `k`. -/
def transferWords (m : Memory) (desc : TuDmaDescriptor) (k : Nat) : Nat :=
  match meteredRegion desc with
  | some (region, _, _) =>
    if region = k then
      u32 (desc.totalBytes.toNat + (m.sram k).banks.bankWidth.toNat - 1) / (m.sram k).banks.bankWidth.toNat
    else 0
  | none => 0

/-- The executor refuses a descriptor. -/
def Refused (e : TuDmaEngine) (d : Nat) : Prop :=
  (e.heap d).completed = true ∨ descriptorSramSpansValid e.mem.sizes (e.heap d) = false ∨
    (externalBoundary e.cfg = true ∧ (e.heap d).externalAddressValid = false) ∨
      descriptorCopies e.mem.sizes (e.heap d) = none

instance (e : TuDmaEngine) (d : Nat) : Decidable (Refused e d) := inferInstanceAs (Decidable (_ ∨ _ ∨ _ ∨ _))

/-- The words that the executor takes from region `k`. -/
def executedWords (e : TuDmaEngine) (k d : Nat) : Nat := if Refused e d then 0 else transferWords e.mem (e.heap d) k

theorem tuDmaExecuteDesc_mem_of_refused {e : TuDmaEngine} {d : Nat} (h : Refused e d) :
    (tuDmaExecuteDesc e d).mem = e.mem := by
  unfold tuDmaExecuteDesc
  dsimp only
  by_cases hcompleted : (e.heap d).completed = true
  · rw [if_pos hcompleted]
  · rw [if_neg hcompleted]
    split
    · rfl
    · rename_i hvalid
      split
      · rfl
      · rename_i hboundary
        split
        · rfl
        · rename_i copies hcopies
          obtain h | h | h | h := h
          · exact absurd h hcompleted
          · simp [h] at hvalid
          · simp [h] at hboundary
          · rw [hcopies] at h
            cases h

theorem exists_copies_of_not_refused {e : TuDmaEngine} {d : Nat} (h : ¬Refused e d) :
    ∃ copies, tuDmaExecuteDesc e d =
      (accountTransfer { e with mem := e.mem.copyAll copies } d).emit (.executed d true) := by
  unfold Refused at h
  simp only [not_or, not_and] at h
  obtain ⟨hcompleted, hvalid, hboundary, hcopies⟩ := h
  cases hcopied : descriptorCopies e.mem.sizes (e.heap d) with
  | none => exact absurd hcopied hcopies
  | some copies =>
    refine ⟨copies, ?_⟩
    unfold tuDmaExecuteDesc
    dsimp only
    rw [if_neg hcompleted, if_neg (by simpa using hvalid), if_neg (by simpa using hboundary), hcopied]

theorem copyAll_banks (m : Memory) (copies : List Memcpy) (k : Nat) :
    ((m.copyAll copies).sram k).banks = (m.sram k).banks := by
  unfold Memory.copyAll
  induction copies generalizing m with
  | nil => rfl
  | cons c copies ih =>
    rw [List.foldl_cons, ih]
    unfold Memory.memcpy
    split
    · dsimp only
      split
      · rename_i heq
        rw [setRaw_banks, heq]
      · rfl
    · rfl

theorem consumed_meterWord {r : TuSramRegion} (hcount : 0 < r.banks.bankCount.toNat) (isWrite : Bool) (base : UInt32)
    (stall i : Nat) : ∃ stalls, Consumed isWrite 1 stalls r.banks (meterWord isWrite base (r, stall) i).1.banks := by
  unfold meterWord
  dsimp only
  have hi : tuSramBankIndex r.banks (u32 (base.toNat + i * r.banks.bankWidth.toNat)) < r.banks.bankCount.toNat :=
    Nat.mod_lt _ hcount
  generalize tuSramBankIndex r.banks (u32 (base.toNat + i * r.banks.bankWidth.toNat)) = bank at hi ⊢
  have htake := consumed_takeWord hi isWrite
  refine ⟨stalled (r.banks.bwBanks bank), ?_⟩
  unfold takeWord at htake
  by_cases h : (r.banks.bwBanks bank).wordsAvailable > 0
  · rw [if_pos h] at htake ⊢
    exact htake
  · rw [if_neg h] at htake ⊢
    exact htake

theorem consumed_meterWords (isWrite : Bool) (base : UInt32) (words stall : Nat) {r : TuSramRegion}
    (hcount : 0 < r.banks.bankCount.toNat) :
    ∃ stalls, Consumed isWrite words stalls r.banks
      ((List.range words).foldl (meterWord isWrite base) (r, stall)).1.banks := by
  induction words with
  | zero => exact ⟨0, .refl isWrite _⟩
  | succ n ih =>
    obtain ⟨stalls, hconsumed⟩ := ih
    rw [List.range_succ, List.foldl_append, List.foldl_cons, List.foldl_nil]
    generalize (List.range n).foldl (meterWord isWrite base) (r, stall) = s at hconsumed ⊢
    obtain ⟨stalls', hword⟩ :=
      consumed_meterWord (by rw [hconsumed.bankCount]; exact hcount) isWrite base s.2 n
    exact ⟨stalls + stalls', hconsumed.trans hword⟩

theorem consumed_sramStallCycles {m : Memory} {k : Nat} (hcount : 0 < (m.sram k).banks.bankCount.toNat)
    (hmodeling : (m.sram k).banks.bwModeling = true) (desc : TuDmaDescriptor) (cycles : Nat) :
    ∃ isWrite stalls, Consumed isWrite (transferWords m desc k) stalls (m.sram k).banks
      ((sramStallCycles m desc cycles).1.sram k).banks := by
  unfold sramStallCycles transferWords
  cases meteredRegion desc with
  | none => exact ⟨false, 0, .refl false _⟩
  | some metered =>
    obtain ⟨region, isWrite, base⟩ := metered
    dsimp only
    by_cases hregion : region = k
    · subst hregion
      rw [if_pos hmodeling, if_pos rfl]
      dsimp only
      rw [Function.update_self]
      have hadvance := consumed_advance (m.sram region) cycles isWrite
      have hcount' : 0 < (tuSramAdvanceCycle (m.sram region) cycles).banks.bankCount.toNat := by
        rw [hadvance.bankCount]
        exact hcount
      obtain ⟨stalls, hwords⟩ := consumed_meterWords isWrite base
        (u32 (desc.totalBytes.toNat + (m.sram region).banks.bankWidth.toNat - 1) /
          (m.sram region).banks.bankWidth.toNat) 0 hcount'
      refine ⟨isWrite, 0 + stalls, ?_⟩
      have hboth := hadvance.trans hwords
      rw [Nat.zero_add] at hboth
      exact hboth
    · rw [if_neg hregion]
      refine ⟨false, 0, ?_⟩
      split
      · dsimp only
        rw [Function.update_of_ne (Ne.symm hregion)]
        exact .refl false _
      · exact .refl false _

/-- What an execution does to the banks of a region: it takes its words, in one direction. -/
theorem consumed_tuDmaExecuteDesc {e : TuDmaEngine} {k : Nat} (hcount : 0 < (e.mem.sram k).banks.bankCount.toNat)
    (hmodeling : (e.mem.sram k).banks.bwModeling = true) (d : Nat) :
    ∃ isWrite stalls, Consumed isWrite (executedWords e k d) stalls (e.mem.sram k).banks
      ((tuDmaExecuteDesc e d).mem.sram k).banks := by
  unfold executedWords
  by_cases hrefused : Refused e d
  · rw [if_pos hrefused, tuDmaExecuteDesc_mem_of_refused hrefused]
    exact ⟨false, 0, .refl false _⟩
  · obtain ⟨copies, hexecuted⟩ := exists_copies_of_not_refused hrefused
    rw [if_neg hrefused, hexecuted]
    have hbanks : ((e.mem.copyAll copies).sram k).banks = (e.mem.sram k).banks := copyAll_banks _ _ _
    obtain ⟨isWrite, stalls, hconsumed⟩ := @consumed_sramStallCycles (e.mem.copyAll copies) k
      (by rw [hbanks]; exact hcount) (by rw [hbanks]; exact hmodeling) (e.heap d)
      (descriptorTransferCycles e.cfg (e.heap d))
    refine ⟨isWrite, stalls, ?_⟩
    show Consumed isWrite (transferWords e.mem (e.heap d) k) stalls _ ((accountTransfer _ d).mem.sram k).banks
    rw [accountTransfer_mem]
    unfold transferWords at hconsumed ⊢
    rw [hbanks] at hconsumed
    exact hconsumed

theorem executedWords_lt (e : TuDmaEngine) (k d : Nat) : executedWords e k d < 2 ^ 32 := by
  have hwords : transferWords e.mem (e.heap d) k < 2 ^ 32 := by
    unfold transferWords
    split
    · split
      · exact Nat.lt_of_le_of_lt (Nat.div_le_self _ _) (Nat.mod_lt _ (by decide))
      · decide
    · decide
  unfold executedWords
  split
  · decide
  · exact hwords

/-- An execution that takes words of the region books none of them. -/
theorem balanced_executeOn_iff {r : TuCoreRegion} (hr : Modelled r) (h : LedgerBalanced r) (e : TuDmaEngine) (k d : Nat) :
    LedgerBalanced (executeOn r e k d) ↔ executedWords (withRegion e k r) k d = 0 := by
  have hregion : (withRegion e k r).mem.sram k = r.toTuSramRegion := Function.update_self ..
  have hconsumed := @consumed_tuDmaExecuteDesc (withRegion e k r) k (by rw [hregion]; exact hr.bankCount)
    (by rw [hregion]; exact hr.bwModeling) d
  have hlt := executedWords_lt (withRegion e k r) k d
  rw [hregion] at hconsumed
  generalize executedWords (withRegion e k r) k d = words at hconsumed hlt ⊢
  obtain ⟨isWrite, stalls, hconsumed⟩ := hconsumed
  constructor
  · intro hbalanced
    have hsame : u64 (bankTotal (wordsOf isWrite) (executeOn r e k d).banks) =
        u64 (bankTotal (wordsOf isWrite) r.banks) := by
      cases isWrite with
      | false => exact hbalanced.reads.symm.trans h.reads
      | true => exact hbalanced.writes.symm.trans h.writes
    have htaken : bankTotal (wordsOf isWrite) (executeOn r e k d).banks ≡
        bankTotal (wordsOf isWrite) r.banks + words [MOD 2 ^ 64] := hconsumed.taken
    unfold u64 at hsame
    unfold Nat.ModEq at htaken
    omega
  · rintro rfl
    have hstalls : stalls = 0 := Nat.le_zero.1 hconsumed.stalls_le
    subst hstalls
    have hmetered : Metered isWrite 0 r (executeOn r e k d) := ⟨⟨0, hconsumed, rfl⟩, id, rfl, rfl⟩
    have hkeep : ∀ x y : Nat, x = u64 y → x = u64 (x + 0) := by
      rintro x y rfl
      exact (Nat.mod_mod _ _).symm
    refine balanced_of_metered h hmetered rfl rfl ?_ ?_
    · split
      · rfl
      · exact hkeep _ _ h.reads
    · split
      · exact hkeep _ _ h.writes
      · rfl

theorem modelled_executeOn {r : TuCoreRegion} (hr : Modelled r) (e : TuDmaEngine) (k d : Nat) :
    Modelled (executeOn r e k d) := by
  have hregion : (withRegion e k r).mem.sram k = r.toTuSramRegion := Function.update_self ..
  have hconsumed := @consumed_tuDmaExecuteDesc (withRegion e k r) k (by rw [hregion]; exact hr.bankCount)
    (by rw [hregion]; exact hr.bwModeling) d
  rw [hregion] at hconsumed
  obtain ⟨isWrite, stalls, hconsumed⟩ := hconsumed
  exact ⟨by rw [show (executeOn r e k d).banks.bankCount = _ from hconsumed.bankCount]; exact hr.bankCount,
    by rw [show (executeOn r e k d).banks.bwModeling = _ from hconsumed.bwModeling]; exact hr.bwModeling⟩

/-! ### Runs -/

/-- What a program does to a region.  An execution comes with the state of the engine it runs in, and the number that the
region has there. -/
inductive LedgerOp where
  | read (addr : UInt32) (out : Nat → UInt8)
  | write (addr : UInt32) (data : Nat → UInt8)
  | readBulk (addr bytes : UInt32) (out : Nat → UInt8)
  | writeBulk (addr bytes : UInt32) (data : Nat → UInt8)
  | advance (cycles : Nat)
  | execute (e : TuDmaEngine) (region desc : Nat)

def ledgerStep (r : TuCoreRegion) : LedgerOp → TuCoreRegion
  | .read addr out => (tuSramRead r addr.toNat out).1
  | .write addr data => (tuSramWrite r addr.toNat data).1
  | .readBulk addr bytes out => (tuSramReadBulk r addr.toNat out bytes.toNat).1
  | .writeBulk addr bytes data => (tuSramWriteBulk r addr.toNat data bytes.toNat).1
  | .advance cycles => advanceCycle r cycles
  | .execute e region desc => executeOn r e region desc

/-- An operation that is not an execution taking words of the region. -/
def TakesNoWords (r : TuCoreRegion) : LedgerOp → Prop
  | .execute e region desc => executedWords (withRegion e region r) region desc = 0
  | _ => True

theorem balanced_ledgerStep {r : TuCoreRegion} (hr : Modelled r) (h : LedgerBalanced r) (op : LedgerOp) :
    Modelled (ledgerStep r op) ∧ (LedgerBalanced (ledgerStep r op) ↔ TakesNoWords r op) := by
  cases op with
  | read addr out =>
    obtain ⟨hmodelled, hbalanced⟩ := balanced_tuSramRead hr h addr.toNat out
    exact ⟨hmodelled, iff_of_true hbalanced trivial⟩
  | write addr data =>
    obtain ⟨hmodelled, hbalanced⟩ := balanced_tuSramWrite hr h addr.toNat data
    exact ⟨hmodelled, iff_of_true hbalanced trivial⟩
  | readBulk addr bytes out =>
    obtain ⟨hmodelled, hbalanced⟩ := balanced_tuSramReadBulk hr h addr.toNat out bytes.toNat
    exact ⟨hmodelled, iff_of_true hbalanced trivial⟩
  | writeBulk addr bytes data =>
    obtain ⟨hmodelled, hbalanced⟩ := balanced_tuSramWriteBulk hr h addr.toNat data bytes.toNat
    exact ⟨hmodelled, iff_of_true hbalanced trivial⟩
  | advance cycles =>
    obtain ⟨hmodelled, hbalanced⟩ := balanced_advanceCycle hr h cycles
    exact ⟨hmodelled, iff_of_true hbalanced trivial⟩
  | execute e region desc => exact ⟨modelled_executeOn hr e region desc, balanced_executeOn_iff hr h e region desc⟩

/-- A region right after its initialisation, with the word metering chosen. -/
def initialRegion (sizeBytes : UInt32) (bankCount bankWidth : UInt32) (wordsPerCycle stallPenalty : UInt8)
    (refillWindow wordMetering : Nat) : TuCoreRegion :=
  { tuSramInitRuntime sizeBytes "SRAM" bankCount bankWidth wordsPerCycle stallPenalty refillWindow with
    wordMetering := wordMetering }

theorem balanced_initialRegion (sizeBytes bankCount bankWidth : UInt32) (wordsPerCycle stallPenalty : UInt8)
    (refillWindow wordMetering : Nat) :
    Modelled (initialRegion sizeBytes bankCount bankWidth wordsPerCycle stallPenalty refillWindow wordMetering) ∧
      LedgerBalanced
        (initialRegion sizeBytes bankCount bankWidth wordsPerCycle stallPenalty refillWindow wordMetering) := by
  have hcount : 0 < (if bankCount ≠ 0 then bankCount else tuSramBanks).toNat := by
    split
    · rename_i hne
      exact Nat.pos_of_ne_zero fun h0 => hne (UInt32.toNat_inj.1 h0)
    · decide
  refine ⟨⟨hcount, rfl⟩, ?_, ?_, ?_⟩
  · show 0 = u64 (_ * ∑ i ∈ _, 0)
    rw [Finset.sum_const_zero, Nat.mul_zero]
    rfl
  · show 0 = u64 (∑ i ∈ _, 0)
    rw [Finset.sum_const_zero]
    rfl
  · show 0 = u64 (∑ i ∈ _, 0)
    rw [Finset.sum_const_zero]
    rfl

/-- **The ledger is balanced throughout a run** exactly when no execution of the run takes a word of the region. -/
theorem ledger_iff (sizeBytes bankCount bankWidth : UInt32) (wordsPerCycle stallPenalty : UInt8)
    (refillWindow wordMetering : Nat) (ops : List LedgerOp) :
    let r := initialRegion sizeBytes bankCount bankWidth wordsPerCycle stallPenalty refillWindow wordMetering;
    (∀ n, LedgerBalanced (Run.exec ledgerStep r (ops.take n))) ↔ Run.Along TakesNoWords ledgerStep r ops := by
  dsimp only
  refine Run.forall_take_iff_along (I := fun r => Modelled r ∧ LedgerBalanced r) (fun r h => h.2) ?_ ?_
    (balanced_initialRegion ..) ops
  · rintro r op ⟨hr, h⟩ hop
    obtain ⟨hmodelled, hiff⟩ := balanced_ledgerStep hr h op
    exact ⟨hmodelled, hiff.2 hop⟩
  · rintro r op ⟨hr, h⟩ hop hbalanced
    exact hop ((balanced_ledgerStep hr h op).2.1 hbalanced)

/-- An engine with a load of four bytes from the host address 16 into region 0. -/
def loadingEngine : TuDmaEngine :=
  { TuDmaEngine.fresh (.single false) (Memory.zero 64) with
    heap := fun _ => tuDmaDescCreateLinear 1 0 .hostToTu (some 0) 0 (some 16) 1 4
    allocated := 1 }

/-- A load of four bytes takes a word that nobody books. -/
theorem not_ledger : ¬∀ (ops : List LedgerOp),
    LedgerBalanced (Run.exec ledgerStep (initialRegion 64 4 4 1 2 4 0) ops) := by
  intro h
  have hloaded := h [.execute loadingEngine 0 0]
  obtain ⟨hr, hbalanced⟩ := balanced_initialRegion 64 4 4 1 2 4 0
  have hwords := (balanced_executeOn_iff hr hbalanced loadingEngine 0 0).1 hloaded
  exact absurd hwords (by decide)

end Tusim.Sram
