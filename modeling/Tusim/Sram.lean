import Tusim.Lib.Word

/-!
# SRAM regions

The state of a banked scratchpad region (`tu_sram.h`) as far as the DMA engine uses it: the bytes, the size, the
double buffer and the bandwidth meter of each bank.  A region is addressed by byte offset; an offset beyond
`totalSize` is memory outside the region.  The buffers of an initialised region are allocated, so the raw pointer is
never `NULL`.
-/

namespace Tusim

open Word

/-- The bandwidth meter of one bank. -/
structure TuSramBwBank where
  wordsAvailable : Int
  lastRefillCycle : Nat
  readsServed : Nat := 0
  writesServed : Nat := 0
  readStalls : Nat := 0
  writeStalls : Nat := 0
  deriving DecidableEq, Repr

structure TuSramBank where
  bankCount : UInt32
  bankWidth : UInt32
  bwBanks : Nat → TuSramBwBank
  bwRefillWindow : Nat
  currentCycle : Nat
  wordsPerCycle : UInt8
  stallPenalty : UInt8
  bwModeling : Bool

structure TuDoubleBuffer where
  enabled : Bool
  activeIdx : Nat
  shadowData : Nat → UInt8

structure TuSramRegion where
  banks : TuSramBank
  data : Nat → UInt8
  totalSize : UInt32
  db : Option TuDoubleBuffer

/-- The buffer `tu_sram_raw_ptr` points to. -/
def tuSramRawPtr (r : TuSramRegion) : Nat → UInt8 :=
  match r.db with
  | some db => if db.enabled && db.activeIdx != 0 then db.shadowData else r.data
  | none => r.data

/-- The region with the buffer behind `tu_sram_raw_ptr` replaced. -/
def TuSramRegion.setRaw (r : TuSramRegion) (bytes : Nat → UInt8) : TuSramRegion :=
  match r.db with
  | some db =>
    if db.enabled && db.activeIdx != 0 then { r with db := some { db with shadowData := bytes } }
    else { r with data := bytes }
  | none => { r with data := bytes }

@[simp] theorem TuSramRegion.setRaw_totalSize (r : TuSramRegion) (bytes : Nat → UInt8) :
    (r.setRaw bytes).totalSize = r.totalSize := by
  unfold setRaw
  split
  · split <;> rfl
  · rfl

@[simp] theorem tuSramRawPtr_setRaw (r : TuSramRegion) (bytes : Nat → UInt8) :
    tuSramRawPtr (r.setRaw bytes) = bytes := by
  unfold TuSramRegion.setRaw
  split
  · rename_i db h
    split
    · rename_i hs; simp only [tuSramRawPtr, hs, if_true]
    · rename_i hs; simp only [tuSramRawPtr, h, hs, if_false, Bool.false_eq_true]
  · rename_i h; simp only [tuSramRawPtr, h]

/-- The buffer of a double-buffered region that `tu_sram_raw_ptr` does not point to. -/
def TuSramRegion.idleData (r : TuSramRegion) : Option (Nat → UInt8) :=
  r.db.map fun db => if db.enabled && db.activeIdx != 0 then r.data else db.shadowData

@[simp] theorem TuSramRegion.idleData_setRaw (r : TuSramRegion) (bytes : Nat → UInt8) :
    (r.setRaw bytes).idleData = r.idleData := by
  unfold setRaw idleData
  split
  · rename_i db h
    split
    · rename_i hs; simp only [h, hs, if_true, Option.map_some]
    · rename_i hs; simp only [h, hs, if_false, Bool.false_eq_true, Option.map_some]
  · rename_i h; simp only [h, Option.map_none]

/-- One meter of `tu_sram_refill_bw`: the budget is restored once the window has elapsed. -/
def TuSramBank.refillBank (b : TuSramBank) (bw : TuSramBwBank) : TuSramBwBank :=
  let window := if b.bwRefillWindow > 0 then b.bwRefillWindow else 1
  if u64 (b.currentCycle + 2 ^ 64 - bw.lastRefillCycle) ≥ window then
    { bw with wordsAvailable := b.wordsPerCycle.toNat, lastRefillCycle := b.currentCycle }
  else bw

def tuSramRefillBw (r : TuSramRegion) : TuSramRegion :=
  if r.banks.bwModeling then
    { r with banks := { r.banks with bwBanks := fun i =>
        if i < r.banks.bankCount.toNat then r.banks.refillBank (r.banks.bwBanks i) else r.banks.bwBanks i } }
  else r

def tuSramAdvanceCycle (r : TuSramRegion) (cycles : Nat) : TuSramRegion :=
  tuSramRefillBw { r with banks := { r.banks with currentCycle := u64 (r.banks.currentCycle + cycles) } }

@[simp] theorem tuSramAdvanceCycle_totalSize (r : TuSramRegion) (cycles : Nat) :
    (tuSramAdvanceCycle r cycles).totalSize = r.totalSize := by
  unfold tuSramAdvanceCycle tuSramRefillBw
  split <;> rfl

def tuSramBankIndex (b : TuSramBank) (addr : Nat) : Nat := addr / b.bankWidth.toNat % b.bankCount.toNat

/-- A process memory as the engine sees it: the SRAM regions, by number, and host memory, by address. -/
structure Memory where
  sram : Nat → TuSramRegion
  host : Nat → UInt8

/-- A zeroed memory whose regions all have `size` bytes, without bandwidth modelling and double buffers. -/
def Memory.zero (size : UInt32) : Memory where
  sram _ :=
    { banks :=
        { bankCount := 1, bankWidth := 4, bwBanks := fun _ => { wordsAvailable := 0, lastRefillCycle := 0 },
          bwRefillWindow := 1, currentCycle := 0, wordsPerCycle := 1, stallPenalty := 0, bwModeling := false }
      data := fun _ => 0, totalSize := size, db := none }
  host _ := 0

/-- The size of every region. -/
def Memory.sizes (m : Memory) (region : Nat) : UInt32 := (m.sram region).totalSize

end Tusim

/-!
### Double buffers

The functions of `double_buffer.c` that the pipeline controller calls.  The statistics of a double buffer are left out.
A swap exchanges the active buffer of a region with the idle one (`tuSramRawPtr_swap`).
-/

namespace Tusim

def tuSramIsDoubleBuffered (r : TuSramRegion) : Bool := r.db.any (·.enabled)

/-- `tu_sram_enable_double_buffer`, its allocations succeeding. -/
def tuSramEnableDoubleBuffer (r : TuSramRegion) : TuSramRegion :=
  if r.totalSize = 0 ∨ tuSramIsDoubleBuffered r then r
  else { r with db := some { enabled := true, activeIdx := 0, shadowData := fun _ => 0 } }

def tuSramSwapBuffers (r : TuSramRegion) : TuSramRegion :=
  match r.db with
  | some db =>
    if db.enabled then { r with db := some { db with activeIdx := if db.activeIdx = 0 then 1 else 0 } } else r
  | none => r

/-- The addresses of the two buffers of a region. -/
structure TuSramBuffers where
  primary : Nat
  shadow : Nat

def tuSramGetShadowPtr (buffers : TuSramBuffers) (r : TuSramRegion) : Option Nat :=
  match r.db with
  | some db => if db.enabled then some (if db.activeIdx = 0 then buffers.shadow else buffers.primary) else none
  | none => none

variable {r : TuSramRegion}

theorem tuSramRawPtr_swap (h : tuSramIsDoubleBuffered r = true) :
    r.idleData = some (tuSramRawPtr (tuSramSwapBuffers r)) := by
  unfold tuSramIsDoubleBuffered at h
  unfold TuSramRegion.idleData tuSramSwapBuffers tuSramRawPtr
  cases hdb : r.db with
  | none => simp [hdb] at h
  | some db =>
    rw [hdb] at h
    have henabled : db.enabled = true := h
    by_cases hidx : db.activeIdx = 0
    · simp [henabled, hidx]
    · simp [henabled, hidx]

@[simp] theorem tuSramSwapBuffers_totalSize (r : TuSramRegion) : (tuSramSwapBuffers r).totalSize = r.totalSize := by
  unfold tuSramSwapBuffers
  split
  · split <;> rfl
  · rfl

end Tusim
