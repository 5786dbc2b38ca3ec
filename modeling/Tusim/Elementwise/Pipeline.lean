import Tusim.Lib.Blocks
import Tusim.Sram

/-!
# The elementwise pipeline

Chains of elementwise operations on 32-bit floats in SRAM (`elementwise_pipeline.c`), over the arithmetic and the byte
format of the floats.  The counter `stall_cycles` of a region grows by the stall that is returned and is not kept apart.
Offsets and sizes are 32 bits wide and wrap.  Key fact: what a chain does to a region depends on the operations only
through the function they compute on one number (`tuEwApplyFused_congr`).
-/

namespace Tusim

open Word Blocks

/-- The arithmetic of `float`: its constants, operators and library functions, and its four bytes in memory. -/
structure EwFloat (α : Type) where
  zero : α
  one : α
  half : α
  /-- `0.7978845608f` -/
  geluA : α
  /-- `0.044715f` -/
  geluB : α
  negInfinity : α
  neg : α → α
  add : α → α → α
  sub : α → α → α
  mul : α → α → α
  div : α → α → α
  /-- `x < y` -/
  lt : α → α → Bool
  /-- `x != y` -/
  ne : α → α → Bool
  /-- `x >= y` -/
  ge : α → α → Bool
  tanhf : α → α
  expf : α → α
  sqrtf : α → α
  logf : α → α
  read : (Nat → UInt8) → α
  bytes : α → Nat → UInt8

namespace TuEw

/-! The opcodes. -/

@[match_pattern] def nop : UInt8 := 0
@[match_pattern] def relu : UInt8 := 1
@[match_pattern] def gelu : UInt8 := 2
@[match_pattern] def silu : UInt8 := 3
@[match_pattern] def sigmoid : UInt8 := 4
@[match_pattern] def tanh : UInt8 := 5
@[match_pattern] def exp : UInt8 := 6
@[match_pattern] def neg : UInt8 := 7
@[match_pattern] def abs : UInt8 := 8
@[match_pattern] def sqrt : UInt8 := 9
@[match_pattern] def log : UInt8 := 10
@[match_pattern] def add : UInt8 := 11
@[match_pattern] def mul : UInt8 := 12
@[match_pattern] def sub : UInt8 := 13
@[match_pattern] def div : UInt8 := 14
@[match_pattern] def min : UInt8 := 15
@[match_pattern] def max : UInt8 := 16

/-- `TU_EW_COUNT` -/
def count : UInt8 := 17

/-- `TU_EW_MAX_OPS` -/
def maxOps : Nat := 8

end TuEw

structure TuEwOp (α : Type) where
  opcode : UInt8
  scalar : α
  hasScalar : Bool

/-- A chain on the elements from `sramOffset` on, written to `outOffset` unless it works in place. -/
structure TuEwDesc (α : Type) where
  ops : List (TuEwOp α)
  sramOffset : UInt32
  elemCount : UInt32
  inPlace : Bool
  outOffset : UInt32 := 0

section

variable {α : Type} (fp : EwFloat α)

def ewRelu (x : α) : α := if fp.lt fp.zero x then x else fp.zero

def ewGeluTanhApprox (x : α) : α :=
  let x3 := fp.mul (fp.mul x x) x
  let inner := fp.mul fp.geluA (fp.add x (fp.mul fp.geluB x3))
  fp.mul (fp.mul fp.half x) (fp.add fp.one (fp.tanhf inner))

def ewSilu (x : α) : α := fp.div x (fp.add fp.one (fp.expf (fp.neg x)))

def ewSigmoid (x : α) : α := fp.div fp.one (fp.add fp.one (fp.expf (fp.neg x)))

def ewAbs (x : α) : α := if fp.lt x fp.zero then fp.neg x else x

def ewApplyUnaryOp (x : α) (op : UInt8) : α :=
  match op with
  | TuEw.nop => x
  | TuEw.relu => ewRelu fp x
  | TuEw.gelu => ewGeluTanhApprox fp x
  | TuEw.silu => ewSilu fp x
  | TuEw.sigmoid => ewSigmoid fp x
  | TuEw.tanh => fp.tanhf x
  | TuEw.exp => fp.expf x
  | TuEw.neg => fp.neg x
  | TuEw.abs => ewAbs fp x
  | TuEw.sqrt => if fp.ge x fp.zero then fp.sqrtf x else fp.zero
  | TuEw.log => if fp.lt fp.zero x then fp.logf x else fp.negInfinity
  | _ => x

def ewApplyBinaryOp (x y : α) (op : UInt8) : α :=
  match op with
  | TuEw.add => fp.add x y
  | TuEw.mul => fp.mul x y
  | TuEw.sub => fp.sub x y
  | TuEw.div => if fp.ne y fp.zero then fp.div x y else fp.zero
  | TuEw.min => if fp.lt x y then x else y
  | TuEw.max => if fp.lt y x then x else y
  | _ => x

/-- One operation of a chain. -/
def TuEwOp.apply (op : TuEwOp α) (x : α) : α :=
  if op.hasScalar then ewApplyBinaryOp fp x op.scalar op.opcode else ewApplyUnaryOp fp x op.opcode

/-- The chain on one element. -/
def ewChain (ops : List (TuEwOp α)) (x : α) : α := ops.foldl (fun val op => op.apply fp val) x

def tuEwValidateDesc (sram : TuSramRegion) (desc : TuEwDesc α) : Bool :=
  let dataBytes := u32 (desc.elemCount.toNat * 4)
  desc.ops.length != 0 && desc.ops.length ≤ TuEw.maxOps && desc.elemCount != 0 &&
    u32 (desc.sramOffset.toNat + dataBytes) ≤ sram.totalSize.toNat &&
    (desc.inPlace || u32 (desc.outOffset.toNat + dataBytes) ≤ sram.totalSize.toNat) &&
    desc.ops.all fun op => op.opcode < TuEw.count

/-- `out[i] = val` for the value `f` computes from `in[i]`. -/
def ewElement (f : α → α) (inOffset outOffset : Nat) (data : Nat → UInt8) (i : Nat) : Nat → UInt8 :=
  memcpy data (outOffset + 4 * i) (fp.bytes (f (fp.read fun k => data (inOffset + 4 * i + k)))) 4

/-- The meter of one word of the accounting after the loop, and the stall so far. -/
def ewMeterWord (inOffset outOffset : Nat) (s : TuSramRegion × Nat) (i : Nat) : TuSramRegion × Nat :=
  let (sram, stall) := s
  let off := if i % 2 = 0 ∨ inOffset = outOffset then inOffset else outOffset
  let off := u32 (off + i / 2 * 4)
  let bank := tuSramBankIndex sram.banks off
  let bwB := sram.banks.bwBanks bank
  if bwB.wordsAvailable > 0 then
    let bwB := { bwB with wordsAvailable := bwB.wordsAvailable - 1, writesServed := bwB.writesServed + 1 }
    ({ sram with banks := { sram.banks with bwBanks := Function.update sram.banks.bwBanks bank bwB } }, stall)
  else
    let bwB := { bwB with writeStalls := bwB.writeStalls + 1 }
    ({ sram with banks := { sram.banks with bwBanks := Function.update sram.banks.bwBanks bank bwB } },
      stall + sram.banks.stallPenalty.toNat)

/-- The region and the stall.  The source tests the bounds once more after the validation. -/
def tuEwExecute (sram : TuSramRegion) (desc : TuEwDesc α) : TuSramRegion × Nat :=
  if !tuEwValidateDesc sram desc then (sram, 0)
  else
    let inOffset := desc.sramOffset.toNat
    let outOffset := if desc.inPlace then desc.sramOffset.toNat else desc.outOffset.toNat
    let data := (List.range desc.elemCount.toNat).foldl (ewElement fp (ewChain fp desc.ops) inOffset outOffset)
      (tuSramRawPtr sram)
    let sram := sram.setRaw data
    if sram.banks.bwModeling then
      let wordsPerElement := 4 / sram.banks.bankWidth.toNat
      let words := u32 ((if inOffset ≠ outOffset then 2 else 1) * desc.elemCount.toNat * wordsPerElement)
      (List.range words).foldl (ewMeterWord inOffset outOffset) (tuSramAdvanceCycle sram desc.elemCount.toNat, 0)
    else (sram, 0)

def tuEwApplyFused (sram : TuSramRegion) (offset elemCount : UInt32) (ops : List (TuEwOp α)) : TuSramRegion × Nat :=
  if ops.length > TuEw.maxOps then (sram, 0)
  else tuEwExecute fp sram { ops := ops, sramOffset := offset, elemCount := elemCount, inPlace := true }

variable {fp}

/-- Chains of the same opcodes that compute the same function leave the same region. -/
theorem tuEwApplyFused_congr {ops ops' : List (TuEwOp α)} (hcodes : ops.map (·.opcode) = ops'.map (·.opcode))
    (hchain : ewChain fp ops = ewChain fp ops') (sram : TuSramRegion) (offset elemCount : UInt32) :
    tuEwApplyFused fp sram offset elemCount ops = tuEwApplyFused fp sram offset elemCount ops' := by
  have hlength : ops.length = ops'.length := by simpa using congrArg List.length hcodes
  have hall : (ops.all fun op => op.opcode < TuEw.count) = ops'.all fun op => op.opcode < TuEw.count := by
    have h := congrArg (fun codes => codes.all (· < TuEw.count)) hcodes
    simpa [List.all_map, Function.comp_def] using h
  unfold tuEwApplyFused tuEwExecute tuEwValidateDesc
  rw [hlength, hall, hchain]

end

end Tusim
