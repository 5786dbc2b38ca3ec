import Tusim.Context.State

/-!
# Accesses to a region

The metered accesses of `tu_sram.c`.  An access that is not inside the region reports an error and does nothing; the
meters never touch the bytes (`SameBytes`), and a write inside the region changes its span of the active buffer and
nothing else (`Wrote`).
-/

namespace Tusim.Sram

open Blocks Word

/-- `TU_SRAM_METER_ADDRESS_SPAN` -/
def tuSramMeterAddressSpan : Nat := 1

/-- `sram_bw_consume`: the meters afterwards and the stall. -/
def sramBwConsume (r : TuCoreRegion) (bankIdx : Nat) (isWrite : Bool) : TuCoreRegion × Nat :=
  if ¬ r.banks.bwModeling then (r, 0)
  else
    let bw := r.banks.bwBanks bankIdx
    let metered (bw : TuSramBwBank) : TuCoreRegion :=
      { r with banks := { r.banks with bwBanks := Function.update r.banks.bwBanks bankIdx bw } }
    if bw.wordsAvailable > 0 then
      let bw := { bw with wordsAvailable := bw.wordsAvailable - 1 }
      (metered
        (if isWrite then { bw with writesServed := u64 (bw.writesServed + 1) }
         else { bw with readsServed := u64 (bw.readsServed + 1) }), 0)
    else
      ({ metered
          (if isWrite then { bw with writeStalls := u64 (bw.writeStalls + 1) }
           else { bw with readStalls := u64 (bw.readStalls + 1) }) with
         stallCycles := u64 (r.stallCycles + r.banks.stallPenalty.toNat) }, r.banks.stallPenalty.toNat)

/-- `sram_meter`: the meters afterwards, the stall and the number of words. -/
def sramMeter (r : TuCoreRegion) (addr bytes : Nat) (isWrite : Bool) : TuCoreRegion × Nat × Nat :=
  let width := r.banks.bankWidth.toNat
  let first := addr / width
  let words :=
    if bytes = 0 then 0
    else if r.wordMetering = tuSramMeterAddressSpan then (addr + bytes - 1) / width - first + 1
    else 1 + (bytes - 1) / width
  let (r, stall) := (List.range words).foldl (fun (r, stall) i =>
    let (r, s) := sramBwConsume r ((first + i) % r.banks.bankCount.toNat) isWrite
    (r, u64 (stall + s))) (r, 0)
  (r, stall, words)

/-- `bounds_check` -/
def boundsCheck (r : TuCoreRegion) (addr size : Nat) : Bool :=
  addr ≤ r.totalSize.toNat && size ≤ r.totalSize.toNat - addr

/-- `sram_data_ptr` -/
def sramDataPtr (r : TuCoreRegion) : Nat → UInt8 := tuSramRawPtr r.toTuSramRegion

/-- The region with other bytes behind `sram_data_ptr`. -/
def setActive (r : TuCoreRegion) (bytes : Nat → UInt8) : TuCoreRegion :=
  { r with toTuSramRegion := r.toTuSramRegion.setRaw bytes }

/-- `tu_sram_read_bulk`: the region, the bytes that `out` holds afterwards, and the stall. -/
def tuSramReadBulk (r : TuCoreRegion) (addr : Nat) (out : Nat → UInt8) (bytes : Nat) :
    TuCoreRegion × (Nat → UInt8) × Nat :=
  if ¬ boundsCheck r addr bytes ∨ bytes = 0 then (r, out, 0)
  else
    let (metered, stall, words) := sramMeter r addr bytes false
    ({ metered with reads := u64 (metered.reads + words) },
      memcpy out 0 (fun i => sramDataPtr metered (addr + i)) bytes, stall)

/-- `tu_sram_write_bulk` -/
def tuSramWriteBulk (r : TuCoreRegion) (addr : Nat) (data : Nat → UInt8) (bytes : Nat) : TuCoreRegion × Nat :=
  if ¬ boundsCheck r addr bytes ∨ bytes = 0 then (r, 0)
  else
    let (metered, stall, words) := sramMeter r addr bytes true
    let written := setActive metered (memcpy (sramDataPtr metered) addr data bytes)
    ({ written with writes := u64 (written.writes + words) }, stall)

/-- `tu_sram_read` -/
def tuSramRead (r : TuCoreRegion) (addr : Nat) (out : Nat → UInt8) : TuCoreRegion × (Nat → UInt8) × Nat :=
  let width := r.banks.bankWidth.toNat
  if ¬ boundsCheck r addr width then (r, out, 0)
  else
    let (metered, stall, words) := sramMeter r addr width false
    ({ metered with reads := u64 (metered.reads + words) },
      memcpy out 0 (fun i => sramDataPtr metered (addr + i)) width, stall)

/-- `tu_sram_write` -/
def tuSramWrite (r : TuCoreRegion) (addr : Nat) (data : Nat → UInt8) : TuCoreRegion × Nat :=
  let width := r.banks.bankWidth.toNat
  if ¬ boundsCheck r addr width then (r, 0)
  else
    let (metered, stall, words) := sramMeter r addr width true
    let written := setActive metered (memcpy (sramDataPtr metered) addr data width)
    ({ written with writes := u64 (written.writes + words) }, stall)

/-! ### The bytes -/

/-- The regions differ at most in meters and counters. -/
structure SameBytes (r r' : TuCoreRegion) : Prop where
  data : r'.data = r.data
  db : r'.db = r.db
  totalSize : r'.totalSize = r.totalSize
  bankWidth : r'.banks.bankWidth = r.banks.bankWidth

theorem SameBytes.refl (r : TuCoreRegion) : SameBytes r r := ⟨rfl, rfl, rfl, rfl⟩

theorem SameBytes.trans {r r' r'' : TuCoreRegion} (h : SameBytes r r') (h' : SameBytes r' r'') : SameBytes r r'' :=
  ⟨h'.data.trans h.data, h'.db.trans h.db, h'.totalSize.trans h.totalSize, h'.bankWidth.trans h.bankWidth⟩

theorem SameBytes.active {r r' : TuCoreRegion} (h : SameBytes r r') : sramDataPtr r' = sramDataPtr r := by
  unfold sramDataPtr tuSramRawPtr
  rw [h.db, h.data]

theorem SameBytes.idle {r r' : TuCoreRegion} (h : SameBytes r r') : r'.idleData = r.idleData := by
  unfold TuSramRegion.idleData
  rw [h.db, h.data]

theorem sameBytes_sramBwConsume (r : TuCoreRegion) (bankIdx : Nat) (isWrite : Bool) :
    SameBytes r (sramBwConsume r bankIdx isWrite).1 := by
  unfold sramBwConsume
  split
  · exact .refl r
  · dsimp only
    split <;> exact ⟨rfl, rfl, rfl, rfl⟩

theorem sameBytes_sramMeter (r : TuCoreRegion) (addr bytes : Nat) (isWrite : Bool) :
    SameBytes r (sramMeter r addr bytes isWrite).1 := by
  unfold sramMeter
  dsimp only
  generalize (if bytes = 0 then 0 else _) = words
  induction words with
  | zero => exact .refl r
  | succ n ih =>
    rw [List.range_succ, List.foldl_append]
    exact ih.trans (sameBytes_sramBwConsume _ _ _)

/-- The shadow buffer is the active one. -/
def ShadowActive (r : TuCoreRegion) : Prop := ∃ db, r.db = some db ∧ db.enabled = true ∧ db.activeIdx ≠ 0

/-- `r'` is `r` with `bytes` bytes of `src` at `addr` of the active buffer, apart from meters and counters. -/
structure Wrote (addr : Nat) (src : Nat → UInt8) (bytes : Nat) (r r' : TuCoreRegion) : Prop where
  active : sramDataPtr r' = memcpy (sramDataPtr r) addr src bytes
  idle : r'.idleData = r.idleData
  shadow : ShadowActive r' ↔ ShadowActive r
  totalSize : r'.totalSize = r.totalSize
  bankWidth : r'.banks.bankWidth = r.banks.bankWidth

theorem setRaw_shadow (r : TuSramRegion) (bytes : Nat → UInt8) :
    (∃ db, (r.setRaw bytes).db = some db ∧ db.enabled = true ∧ db.activeIdx ≠ 0) ↔
      ∃ db, r.db = some db ∧ db.enabled = true ∧ db.activeIdx ≠ 0 := by
  unfold TuSramRegion.setRaw
  cases hdb : r.db with
  | none => simp
  | some db =>
    dsimp only
    split <;> simp

theorem setRaw_banks (r : TuSramRegion) (bytes : Nat → UInt8) : (r.setRaw bytes).banks = r.banks := by
  unfold TuSramRegion.setRaw
  split
  · split <;> rfl
  · rfl

theorem SameBytes.wrote {r r' : TuCoreRegion} (h : SameBytes r r') (addr : Nat) (src : Nat → UInt8) (bytes writes : Nat) :
    Wrote addr src bytes r { setActive r' (memcpy (sramDataPtr r') addr src bytes) with writes := writes } where
  active := by
    rw [← h.active]
    exact tuSramRawPtr_setRaw _ _
  idle := (TuSramRegion.idleData_setRaw _ _).trans h.idle
  shadow := by
    refine (setRaw_shadow _ _).trans ?_
    rw [h.db]
    exact Iff.rfl
  totalSize := (TuSramRegion.setRaw_totalSize _ _).trans h.totalSize
  bankWidth := by
    show ((TuSramRegion.setRaw _ _).banks).bankWidth = _
    rw [setRaw_banks, h.bankWidth]

/-- The primary buffer, in terms of the active and the idle one. -/
theorem data_eq_active {r : TuCoreRegion} (h : ¬ ShadowActive r) : r.data = sramDataPtr r :=
  (tuSramRawPtr_of_primaryActive fun db hdb henabled =>
    Classical.byContradiction fun hne => h ⟨db, hdb, henabled, hne⟩).symm

theorem idleData_eq_data {r : TuCoreRegion} (h : ShadowActive r) : r.idleData = some r.data := by
  obtain ⟨db, hdb, henabled, hne⟩ := h
  unfold TuSramRegion.idleData
  rw [hdb]
  simp [henabled, hne]

/-! ### Accesses -/

theorem boundsCheck_iff {r : TuCoreRegion} {addr size : Nat} :
    boundsCheck r addr size = true ↔ addr + size ≤ r.totalSize.toNat := by
  unfold boundsCheck
  rw [Bool.and_eq_true, decide_eq_true_iff, decide_eq_true_iff]
  omega

theorem tuSramReadBulk_outside {r : TuCoreRegion} {addr bytes : Nat} (h : r.totalSize.toNat < addr + bytes)
    (out : Nat → UInt8) : tuSramReadBulk r addr out bytes = (r, out, 0) := by
  unfold tuSramReadBulk
  rw [if_pos (.inl (by rw [boundsCheck_iff]; omega))]

theorem tuSramReadBulk_inside {r : TuCoreRegion} {addr bytes : Nat} (h : addr + bytes ≤ r.totalSize.toNat)
    (out : Nat → UInt8) :
    SameBytes r (tuSramReadBulk r addr out bytes).1 ∧
      (tuSramReadBulk r addr out bytes).2.1 = memcpy out 0 (fun i => sramDataPtr r (addr + i)) bytes := by
  unfold tuSramReadBulk
  by_cases hzero : bytes = 0
  · rw [if_pos (.inr hzero)]
    subst hzero
    refine ⟨.refl r, ?_⟩
    funext i
    exact (memcpy_outside (.inr (Nat.zero_le i))).symm
  · have hgo : ¬ (¬ boundsCheck r addr bytes = true ∨ bytes = 0) := by
      rw [boundsCheck_iff]
      omega
    rw [if_neg hgo]
    have hsame := sameBytes_sramMeter r addr bytes false
    exact ⟨hsame.trans ⟨rfl, rfl, rfl, rfl⟩, by rw [← hsame.active]⟩

theorem tuSramWriteBulk_outside {r : TuCoreRegion} {addr bytes : Nat} (h : r.totalSize.toNat < addr + bytes)
    (data : Nat → UInt8) : tuSramWriteBulk r addr data bytes = (r, 0) := by
  unfold tuSramWriteBulk
  rw [if_pos (.inl (by rw [boundsCheck_iff]; omega))]

theorem tuSramWriteBulk_inside {r : TuCoreRegion} {addr bytes : Nat} (h : addr + bytes ≤ r.totalSize.toNat)
    (data : Nat → UInt8) : Wrote addr data bytes r (tuSramWriteBulk r addr data bytes).1 := by
  unfold tuSramWriteBulk
  by_cases hzero : bytes = 0
  · rw [if_pos (.inr hzero)]
    subst hzero
    refine ⟨?_, rfl, Iff.rfl, rfl, rfl⟩
    funext i
    exact (memcpy_outside (by omega)).symm
  · have hgo : ¬ (¬ boundsCheck r addr bytes = true ∨ bytes = 0) := by
      rw [boundsCheck_iff]
      omega
    rw [if_neg hgo]
    exact (sameBytes_sramMeter r addr bytes true).wrote addr data bytes _

theorem tuSramRead_outside {r : TuCoreRegion} {addr : Nat}
    (h : r.totalSize.toNat < addr + r.banks.bankWidth.toNat) (out : Nat → UInt8) :
    tuSramRead r addr out = (r, out, 0) := by
  unfold tuSramRead
  rw [if_pos (by rw [boundsCheck_iff]; omega)]

theorem tuSramRead_inside {r : TuCoreRegion} {addr : Nat} (h : addr + r.banks.bankWidth.toNat ≤ r.totalSize.toNat)
    (out : Nat → UInt8) :
    SameBytes r (tuSramRead r addr out).1 ∧
      (tuSramRead r addr out).2.1 = memcpy out 0 (fun i => sramDataPtr r (addr + i)) r.banks.bankWidth.toNat := by
  unfold tuSramRead
  have hgo : ¬ ¬ boundsCheck r addr r.banks.bankWidth.toNat = true := by
    rw [boundsCheck_iff]
    omega
  rw [if_neg hgo]
  have hsame := sameBytes_sramMeter r addr r.banks.bankWidth.toNat false
  exact ⟨hsame.trans ⟨rfl, rfl, rfl, rfl⟩, by rw [← hsame.active]⟩

theorem tuSramWrite_outside {r : TuCoreRegion} {addr : Nat}
    (h : r.totalSize.toNat < addr + r.banks.bankWidth.toNat) (data : Nat → UInt8) :
    tuSramWrite r addr data = (r, 0) := by
  unfold tuSramWrite
  rw [if_pos (by rw [boundsCheck_iff]; omega)]

theorem tuSramWrite_inside {r : TuCoreRegion} {addr : Nat} (h : addr + r.banks.bankWidth.toNat ≤ r.totalSize.toNat)
    (data : Nat → UInt8) : Wrote addr data r.banks.bankWidth.toNat r (tuSramWrite r addr data).1 := by
  unfold tuSramWrite
  have hgo : ¬ ¬ boundsCheck r addr r.banks.bankWidth.toNat = true := by
    rw [boundsCheck_iff]
    omega
  rw [if_neg hgo]
  exact (sameBytes_sramMeter r addr _ true).wrote addr data _ _

theorem tuSramWrite_frame (r : TuCoreRegion) (addr : Nat) (data : Nat → UInt8) :
    (tuSramWrite r addr data).1.banks.bankWidth = r.banks.bankWidth ∧
      (tuSramWrite r addr data).1.totalSize = r.totalSize := by
  by_cases hfit : addr + r.banks.bankWidth.toNat ≤ r.totalSize.toNat
  · have hwrote := tuSramWrite_inside hfit data
    exact ⟨hwrote.bankWidth, hwrote.totalSize⟩
  · rw [tuSramWrite_outside (by omega)]
    exact ⟨rfl, rfl⟩

/-! ### Writes one after the other -/

variable {r r' r'' : TuCoreRegion}

theorem Wrote.refl (addr : Nat) (src : Nat → UInt8) (r : TuCoreRegion) : Wrote addr src 0 r r where
  active := by
    funext j
    exact (memcpy_outside (by omega)).symm
  idle := rfl
  shadow := Iff.rfl
  totalSize := rfl
  bankWidth := rfl

theorem Wrote.append {addr n m : Nat} {src : Nat → UInt8} (h : Wrote addr src n r r')
    (h' : Wrote (addr + n) (fun k => src (n + k)) m r' r'') : Wrote addr src (n + m) r r'' where
  active := by
    rw [h'.active, h.active]
    funext j
    unfold memcpy
    by_cases hlater : addr + n ≤ j ∧ j < addr + n + m
    · rw [if_pos hlater, if_pos (by omega)]
      show src (n + (j - (addr + n))) = src (j - addr)
      congr 1
      omega
    · rw [if_neg hlater]
      by_cases hfirst : addr ≤ j ∧ j < addr + n
      · rw [if_pos hfirst, if_pos (by omega)]
      · rw [if_neg hfirst, if_neg (by omega)]
  idle := h'.idle.trans h.idle
  shadow := h'.shadow.trans h.shadow
  totalSize := h'.totalSize.trans h.totalSize
  bankWidth := h'.bankWidth.trans h.bankWidth

theorem Wrote.congr {addr n : Nat} {src src' : Nat → UInt8} (h : Wrote addr src n r r') (hsrc : ∀ k < n, src k = src' k) :
    Wrote addr src' n r r' where
  active := by
    rw [h.active]
    funext j
    unfold memcpy
    split
    · exact hsrc _ (by omega)
    · rfl
  idle := h.idle
  shadow := h.shadow
  totalSize := h.totalSize
  bankWidth := h.bankWidth

/-- The primary buffer outside the written span, whether it is the active one or not. -/
theorem Wrote.data_outside {addr n j : Nat} {src : Nat → UInt8} (h : Wrote addr src n r r')
    (hj : j < addr ∨ addr + n ≤ j) : r'.data j = r.data j := by
  by_cases hshadow : ShadowActive r
  · have hidle := h.idle
    rw [idleData_eq_data hshadow, idleData_eq_data (h.shadow.2 hshadow)] at hidle
    rw [Option.some.inj hidle]
  · rw [data_eq_active hshadow, data_eq_active fun hcon => hshadow (h.shadow.1 hcon), h.active]
    exact memcpy_outside hj

end Tusim.Sram
