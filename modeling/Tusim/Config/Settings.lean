import Mathlib.Data.Rat.Floor
import Tusim.Config.Accepted

/-!
# The configuration that runs

A `Setting` is one of the integers a document gives for the memories and the DMA engine, with its place in the document,
its value in the runtime configuration and the values that an initialised unit holds for it.

* `RunsAsGiven`: each value present is an integer, and it is what the runtime configuration and the unit hold;
* `Representable`: each value present is an integer that fits its field, and the width of a bank is the constant one;
* `Setting.Stored`: what the loader makes of an integer it has read (`Setting.stored_of_read`).

Some values are narrowed without a check, the sizes are multiplied in 32 bits, the width of a bank is read and then not
used, and a value that is not an integer is rounded or passed over.
-/

namespace Tusim.Config

open JsonGrammar Tusim.Json

/-! ### Values of the document -/

section

variable {F : Type} (fp : Doubles F)

/-- The value at a path below `tu`; of several members with one name `tu_json_get` takes the first. -/
def valueAt (root : TuJsonValue F) (path : List String) : Option (TuJsonValue F) :=
  path.foldl tuJsonGet (some (tuSection root))

/-- A number that is the integer `n`. -/
def IsInteger (v : TuJsonValue F) (n : Int) : Prop :=
  v = .int n ∨ ∃ (negative : Bool) (m : Nat),
    v = .double (fp.round negative m) ∧ n = if negative then -(m : Int) else (m : Int)

/-- What a document has at a path, if anything, is an integer with the property. -/
def Given (root : TuJsonValue F) (path : List String) (P : Int → Prop) : Prop :=
  ∀ v, valueAt root path = some v → ∃ n, IsInteger fp v n ∧ P n

variable {fp}

/-- The loader reads an integer below `2^53` as it is. -/
theorem IsInteger.exists_read {obj : Option (TuJsonValue F)} {key : String} {v : TuJsonValue F} {n : Int}
    (h : IsInteger fp v n) (hv : tuJsonGet obj key = some v) :
    ∃ m, parseOptInt64 fp obj key = some m ∧ (m = n ∨ 2 ^ 53 ≤ n.natAbs) := by
  unfold parseOptInt64
  rw [hv]
  obtain rfl | ⟨negative, m, rfl, rfl⟩ := h
  · exact ⟨n, rfl, .inl rfl⟩
  · refine ⟨_, rfl, ?_⟩
    by_cases hm : m < 2 ^ 53
    · exact .inl (fp.toInt64_round negative m hm)
    · right
      cases negative
      · simpa using hm
      · simpa using hm

end

theorem toNat_ofInt (n : Int) : ((UInt32.ofInt n).toNat : Int) = n % 2 ^ 32 := by
  have hlt : (n % 2 ^ 32).toNat < 2 ^ 32 := by omega
  have h : (UInt32.ofInt n).toNat = (n % 2 ^ 32).toNat := UInt32.toNat_ofNat_of_lt' hlt
  rw [h]
  omega

/-- A narrowed integer is the integer given when it fits 32 bits. -/
theorem narrow_iff {m n : Int} (hm : m = n ∨ 2 ^ 53 ≤ n.natAbs) :
    ((UInt32.ofInt m).toNat : Int) = n ↔ 0 ≤ n ∧ n < 2 ^ 32 := by
  have h := toNat_ofInt m
  have hlt := (UInt32.ofInt m).toNat_lt
  constructor
  · intro heq
    omega
  · rintro ⟨h0, hle⟩
    obtain rfl | hbig := hm
    · omega
    · omega

/-- A narrowed number of KB is the number of bytes given when that fits 32 bits. -/
theorem size_iff {m n : Int} (hm : m = n ∨ 2 ^ 53 ≤ n.natAbs) :
    ((UInt32.ofInt m * 1024).toNat : Int) = 1024 * n ↔ 0 ≤ n ∧ 1024 * n < 2 ^ 32 := by
  have h := toNat_ofInt m
  have hlt := (UInt32.ofInt m * 1024).toNat_lt
  have hmul : (UInt32.ofInt m * 1024).toNat = (UInt32.ofInt m).toNat * 1024 % 2 ^ 32 := UInt32.toNat_mul _ _
  constructor
  · intro heq
    omega
  · rintro ⟨h0, hle⟩
    obtain rfl | hbig := hm
    · omega
    · omega

/-! ### Settings -/

/-- The integers a document gives for the memories and the DMA engine. -/
inductive Setting
  | wBufferKb | aBufferKb | oBufferKb
  | banks | bankWidthBytes | wordsPerRefill | refillWindowCycles | stallPenaltyCycles
  | channels | maxOutstanding | busWidthBits | maxBurstBytes | readMaxBurstBytes | writeMaxBurstBytes
  deriving DecidableEq, Repr

namespace Setting

def path : Setting → List String
  | wBufferKb => ["memory", "sram", "w_buffer_kb"]
  | aBufferKb => ["memory", "sram", "a_buffer_kb"]
  | oBufferKb => ["memory", "sram", "o_buffer_kb"]
  | banks => ["memory", "banking", "banks"]
  | bankWidthBytes => ["memory", "banking", "bank_width_bytes"]
  | wordsPerRefill => ["memory", "banking", "words_per_refill"]
  | refillWindowCycles => ["memory", "banking", "refill_window_cycles"]
  | stallPenaltyCycles => ["memory", "banking", "stall_penalty_cycles"]
  | channels => ["dma", "channels"]
  | maxOutstanding => ["dma", "max_outstanding"]
  | busWidthBits => ["dma", "bus_width_bits"]
  | maxBurstBytes => ["dma", "max_burst_bytes"]
  | readMaxBurstBytes => ["dma", "read_max_burst_bytes"]
  | writeMaxBurstBytes => ["dma", "write_max_burst_bytes"]

/-- Bytes to a KB for the sizes of the regions. -/
def scale : Setting → Int
  | wBufferKb | aBufferKb | oBufferKb => 1024
  | _ => 1

/-- The value in the runtime configuration. -/
def runtimeValue (rt : TuRuntimeConfig) : Setting → Nat
  | wBufferKb => rt.sramWSize.toNat
  | aBufferKb => rt.sramASize.toNat
  | oBufferKb => rt.sramOSize.toNat
  | banks => rt.sramNumBanks.toNat
  | bankWidthBytes => rt.sramBankWidth.toNat
  | wordsPerRefill => rt.sramWordsPerCycle.toNat
  | refillWindowCycles => rt.sramBwWindowCycles
  | stallPenaltyCycles => rt.sramStallPenalty.toNat
  | channels => rt.dma.numChannels.toNat
  | maxOutstanding => rt.dma.maxQueueDepth.toNat
  | busWidthBits => rt.dma.busWidthBits.toNat
  | maxBurstBytes => rt.dma.maxBurstBytes.toNat
  | readMaxBurstBytes => rt.dma.readMaxBurstBytes.toNat
  | writeMaxBurstBytes => rt.dma.writeMaxBurstBytes.toNat

/-- The values in the regions, or in the engine. -/
def unitValues (unit : TuInitialised) (engine : TuDmaConfig) : Setting → List Nat
  | wBufferKb => [unit.sramW.totalSize.toNat]
  | aBufferKb => [unit.sramA.totalSize.toNat]
  | oBufferKb => [unit.sramO.totalSize.toNat]
  | banks => [unit.sramW, unit.sramA, unit.sramO].map fun r => r.banks.bankCount.toNat
  | bankWidthBytes => [unit.sramW, unit.sramA, unit.sramO].map fun r => r.banks.bankWidth.toNat
  | wordsPerRefill => [unit.sramW, unit.sramA, unit.sramO].map fun r => r.banks.wordsPerCycle.toNat
  | refillWindowCycles => [unit.sramW, unit.sramA, unit.sramO].map fun r => r.banks.bwRefillWindow
  | stallPenaltyCycles => [unit.sramW, unit.sramA, unit.sramO].map fun r => r.banks.stallPenalty.toNat
  | channels => [engine.numChannels]
  | maxOutstanding => [engine.maxDepth.toNat]
  | busWidthBits => [engine.busWidthBytes * 8]
  | maxBurstBytes => [unit.maxBurstBytes.toNat]
  | readMaxBurstBytes => [engine.readMaxBurstBytes]
  | writeMaxBurstBytes => [engine.writeMaxBurstBytes]

/-- The value that a unit should hold for an integer of the document.  A burst of zero bytes for one direction asks for
the common maximum. -/
def expected (unit : TuInitialised) (s : Setting) (n : Int) : Int :=
  match s with
  | readMaxBurstBytes | writeMaxBurstBytes => if n = 0 then unit.maxBurstBytes.toNat else n
  | _ => s.scale * n

/-- A unit runs with an integer of the document. -/
def Runs (rt : TuRuntimeConfig) (unit : TuInitialised) (engine : TuDmaConfig) (s : Setting) (n : Int) : Prop :=
  (s.runtimeValue rt : Int) = s.scale * n ∧ ∀ x ∈ s.unitValues unit engine, (x : Int) = s.expected unit n

/-- The integers that their field can hold; the banks are always four bytes wide. -/
def Fits : Setting → Int → Prop
  | wBufferKb, n | aBufferKb, n | oBufferKb, n => 0 ≤ n ∧ 1024 * n < 2 ^ 32
  | bankWidthBytes, n => n = 4
  | wordsPerRefill, n | stallPenaltyCycles, n => 1 ≤ n ∧ n ≤ 255
  | refillWindowCycles, n => 1 ≤ n ∧ n ≤ 1000000
  | _, n => 0 ≤ n ∧ n < 2 ^ 32

end Setting

section

variable {F : Type} (fp : Doubles F)

/-- The configuration runs as the document gives it. -/
def RunsAsGiven (root : TuJsonValue F) (cfg : TuConfig F) : Prop :=
  ∃ unit engine, tuInitFromConfig fp cfg = some unit ∧ unit.dma = .ok engine ∧
    ∀ s : Setting, Given fp root s.path (s.Runs (tuConfigToRuntime fp cfg) unit engine)

/-- Every value of the document is an integer that its field can hold. -/
def Representable (root : TuJsonValue F) : Prop := ∀ s : Setting, Given fp root s.path s.Fits

/-- What the loader stores for an integer it has read. -/
def Setting.Stored (c : TuConfig F) : Setting → Int → Prop
  | wBufferKb, m => c.sram.wSizeKb = UInt32.ofInt m
  | aBufferKb, m => c.sram.aSizeKb = UInt32.ofInt m
  | oBufferKb, m => c.sram.oSizeKb = UInt32.ofInt m
  | banks, m => c.sram.numBanks = UInt32.ofInt m
  | bankWidthBytes, m => c.sram.bankWidth = UInt32.ofInt m
  | wordsPerRefill, m => c.sram.wordsPerCycle = inRange 1 255 0 m
  | refillWindowCycles, m => c.sram.bwWindowCycles = if 1 ≤ m ∧ m ≤ 1000000 then m.toNat else 0
  | stallPenaltyCycles, m => c.sram.stallPenalty = if 1 ≤ m ∧ m ≤ 255 then UInt8.ofInt m else 0
  | channels, m => c.dma.numChannels = UInt32.ofInt m
  | maxOutstanding, m => c.dma.maxOutstanding = UInt32.ofInt m
  | busWidthBits, m => c.dma.busWidthBits = UInt32.ofInt m
  | maxBurstBytes, m => c.dma.maxBurstBytes = UInt32.ofInt m
  | readMaxBurstBytes, m => c.dma.readMaxBurstBytes = UInt32.ofInt m
  | writeMaxBurstBytes, m => c.dma.writeMaxBurstBytes = UInt32.ofInt m

variable {fp}

theorem Setting.stored_of_read (root : TuJsonValue F) (s : Setting) {v : TuJsonValue F} {n : Int}
    (hv : valueAt root s.path = some v) (hn : IsInteger fp v n) :
    ∃ m, s.Stored (loadConfig fp root) m ∧ (m = n ∨ 2 ^ 53 ≤ n.natAbs) := by
  cases s
  all_goals
    obtain ⟨m, hm, hmn⟩ := hn.exists_read hv
    refine ⟨m, ?_, hmn⟩
    simp only [Stored, loadConfig, loadSram, loadDma, hm, Option.map_some, Option.getD_some]

end

end Tusim.Config
