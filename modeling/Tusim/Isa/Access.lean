import Mathlib.Algebra.Group.Int.Defs
import Mathlib.Algebra.Group.Nat.Defs

/-!
# Instructions and their footprints

An instruction is the packed 96-bit word of the encoding.  The opcode stays a byte: the compiler passes classify
opcodes by numeric ranges, and those ranges contain bytes that name no operation.

`tuSchedAnalyzeAccess` reads the byte ranges of the three scratchpads that an instruction reads and writes off its
operand fields; `hasDependency` compares two footprints.  All offsets are computed modulo `2 ^ 32`.
-/

namespace Tusim

structure TuInstruction where
  opcode : UInt8
  flags : UInt8 := 0
  dim0 : UInt16 := 0
  dim1 : UInt16 := 0
  dim2 : UInt16 := 0
  immediates : UInt32 := 0
deriving DecidableEq, Repr

instance : Inhabited TuInstruction := ⟨{ opcode := 0 }⟩

namespace TuIsa

def nop : UInt8 := 0x00
def halt : UInt8 := 0x01
def sync : UInt8 := 0x02
def barrier : UInt8 := 0x03
def fence : UInt8 := 0x04
def mma : UInt8 := 0x10
def mmaBias : UInt8 := 0x11
def mmaFused : UInt8 := 0x12
def conv2d : UInt8 := 0x13
def conv3d : UInt8 := 0x14
def depthwiseConv : UInt8 := 0x15
def transposedConv : UInt8 := 0x16
def attention : UInt8 := 0x17
def attnQk : UInt8 := 0x18
def attnPv : UInt8 := 0x19
def elementwise : UInt8 := 0x20
def add : UInt8 := 0x21
def mul : UInt8 := 0x22
def relu : UInt8 := 0x23
def gelu : UInt8 := 0x24
def silu : UInt8 := 0x25
def tanh : UInt8 := 0x26
def sigmoid : UInt8 := 0x27
def exp : UInt8 := 0x28
def scale : UInt8 := 0x29
def reduceSum : UInt8 := 0x30
def reduceMax : UInt8 := 0x31
def reduceMean : UInt8 := 0x32
def softmax : UInt8 := 0x33
def logSoftmax : UInt8 := 0x34
def layerNorm : UInt8 := 0x35
def rmsNorm : UInt8 := 0x36
def batchNorm : UInt8 := 0x37
def groupNorm : UInt8 := 0x38
def poolMax : UInt8 := 0x40
def poolAvg : UInt8 := 0x41
def poolGlobalAvg : UInt8 := 0x42
def dmaLoad : UInt8 := 0x50
def dmaStore : UInt8 := 0x51
def dmaChain : UInt8 := 0x52
def dmaLoadStrided : UInt8 := 0x53
def dmaStoreStrided : UInt8 := 0x54
def dmaScatter : UInt8 := 0x55
def dmaGather : UInt8 := 0x56
def dmaBroadcast : UInt8 := 0x57
def sparseMma : UInt8 := 0x70
def compress : UInt8 := 0x72

end TuIsa

/-- The scratchpads; the constructors are the values of `tu_sram_region_id_t`. -/
inductive TuSramRegionId
  | w
  | a
  | o
deriving DecidableEq, Repr

namespace TuSramRegionId

def all : List TuSramRegionId := [w, a, o]

theorem mem_all (r : TuSramRegionId) : r ∈ all := by cases r <;> decide

/-- The region a channel number names; `3` names the weights as `0` does. -/
def ofChannel (channel : UInt8) : TuSramRegionId := if channel = 1 then a else if channel = 2 then o else w

end TuSramRegionId

structure TuSramAccess where
  reads : TuSramRegionId → Bool := fun _ => false
  writes : TuSramRegionId → Bool := fun _ => false
  readOffsets : TuSramRegionId → UInt32 × UInt32 := fun _ => (0, 0)
  writeOffsets : TuSramRegionId → UInt32 × UInt32 := fun _ => (0, 0)

namespace TuSramAccess

def withRead (acc : TuSramAccess) (r : TuSramRegionId) (start stop : UInt32) : TuSramAccess :=
  { acc with
    reads := fun s => if s = r then true else acc.reads s
    readOffsets := fun s => if s = r then (start, stop) else acc.readOffsets s }

def withWrite (acc : TuSramAccess) (r : TuSramRegionId) (start stop : UInt32) : TuSramAccess :=
  { acc with
    writes := fun s => if s = r then true else acc.writes s
    writeOffsets := fun s => if s = r then (start, stop) else acc.writeOffsets s }

end TuSramAccess

/-! ### Classes of opcodes -/

def isDmaOp (op : UInt8) : Bool := TuIsa.dmaLoad ≤ op && op ≤ TuIsa.dmaBroadcast

def isComputeOp (op : UInt8) : Bool :=
  (TuIsa.mma ≤ op && op ≤ TuIsa.reduceMean) || (TuIsa.softmax ≤ op && op ≤ TuIsa.batchNorm) ||
    (TuIsa.poolMax ≤ op && op ≤ TuIsa.poolGlobalAvg) || (TuIsa.relu ≤ op && op ≤ TuIsa.exp) ||
    (TuIsa.add ≤ op && op ≤ TuIsa.mul) || (TuIsa.sparseMma ≤ op && op ≤ TuIsa.compress)

def isBarrierOp (op : UInt8) : Bool :=
  op = TuIsa.barrier || op = TuIsa.sync || op = TuIsa.fence || op = TuIsa.halt

/-! ### Footprints -/

/-- The region and byte range of a DMA instruction. -/
def extractDmaRange (instr : TuInstruction) : TuSramRegionId × UInt32 × UInt32 :=
  let channel : UInt8 :=
    if instr.opcode = TuIsa.dmaLoad || instr.opcode = TuIsa.dmaStore then instr.flags &&& 0x3
    else if instr.opcode = TuIsa.dmaLoadStrided || instr.opcode = TuIsa.dmaStoreStrided then
      (instr.flags >>> 2) &&& 0x3
    else if TuIsa.dmaScatter ≤ instr.opcode && instr.opcode ≤ TuIsa.dmaBroadcast then instr.flags &&& 0x3
    else 0
  let offset := instr.dim0.toUInt32
  let size := if instr.dim1 ≠ 0 then instr.dim1.toUInt32 else 1
  (.ofChannel channel, offset, offset + size)

/-- The low half of the immediates: the offset in the activations. -/
def TuInstruction.immLow (instr : TuInstruction) : UInt32 := instr.immediates &&& 0xFFFF

/-- The high half of the immediates: the offset in the outputs. -/
def TuInstruction.immHigh (instr : TuInstruction) : UInt32 := (instr.immediates >>> 16) &&& 0xFFFF

/-- The footprint of a compute instruction; an opcode outside the cases touches no scratchpad. -/
def extractComputeRange (instr : TuInstruction) : TuSramAccess :=
  let op := instr.opcode
  let dim0 := instr.dim0.toUInt32
  let dim1 := instr.dim1.toUInt32
  let dim2 := instr.dim2.toUInt32
  if op ∈ [TuIsa.mma, TuIsa.mmaBias, TuIsa.mmaFused, TuIsa.sparseMma] then
    TuSramAccess.withRead {} .w dim0 (dim0 + dim2 * dim1 * 2)
      |>.withRead .a instr.immLow (instr.immLow + dim2 * dim1 * 2)
      |>.withWrite .o instr.immHigh (instr.immHigh + dim0 * dim1 * 4)
  else if op ∈ [TuIsa.attention, TuIsa.attnQk, TuIsa.attnPv] then
    TuSramAccess.withRead {} .a dim0 (dim0 + 65536)
      |>.withWrite .o instr.immHigh (instr.immHigh + 65536)
  else if op ∈ [TuIsa.conv2d, TuIsa.conv3d, TuIsa.depthwiseConv, TuIsa.transposedConv] then
    -- the whole of every region
    TuSramAccess.withRead {} .w 0 0xFFFFFFFF |>.withRead .a 0 0xFFFFFFFF |>.withWrite .o 0 0xFFFFFFFF
  else if op ∈ [TuIsa.elementwise, TuIsa.add, TuIsa.mul, TuIsa.relu, TuIsa.gelu, TuIsa.silu, TuIsa.tanh, TuIsa.sigmoid,
      TuIsa.exp, TuIsa.scale] then
    TuSramAccess.withRead {} .o dim0 (dim0 + dim1 * 4) |>.withWrite .o dim0 (dim0 + dim1 * 4)
  else if op ∈ [TuIsa.softmax, TuIsa.logSoftmax, TuIsa.layerNorm, TuIsa.rmsNorm, TuIsa.batchNorm, TuIsa.groupNorm] then
    TuSramAccess.withRead {} .a dim0 (dim0 + dim1 * 4)
      |>.withWrite .o instr.immHigh (instr.immHigh + dim1 * 4)
  else if op ∈ [TuIsa.poolMax, TuIsa.poolAvg, TuIsa.poolGlobalAvg] then
    TuSramAccess.withRead {} .a dim0 (dim0 + 65536)
      |>.withWrite .o instr.immHigh (instr.immHigh + 65536)
  else if op ∈ [TuIsa.reduceSum, TuIsa.reduceMax, TuIsa.reduceMean] then
    TuSramAccess.withRead {} .a dim0 (dim0 + dim1 * 4)
      |>.withWrite .o instr.immHigh (instr.immHigh + dim2 * 4)
  else {}

def tuSchedAnalyzeAccess (instr : TuInstruction) : TuSramAccess :=
  if isDmaOp instr.opcode then
    let isLoad := instr.opcode = TuIsa.dmaLoad || instr.opcode = TuIsa.dmaLoadStrided ||
      instr.opcode = TuIsa.dmaScatter || instr.opcode = TuIsa.dmaBroadcast
    let (region, start, stop) := extractDmaRange instr
    if isLoad then TuSramAccess.withWrite {} region start stop else TuSramAccess.withRead {} region start stop
  else if isComputeOp instr.opcode then extractComputeRange instr
  else {}

/-! ### Dependences -/

/-- The pass takes a full range to overlap every range. -/
def rangesOverlap (a b : UInt32 × UInt32) : Bool :=
  if a.1 = 0 && a.2 = 0xFFFFFFFF then true
  else if b.1 = 0 && b.2 = 0xFFFFFFFF then true
  else a.1 < b.2 && b.1 < a.2

def hasDependency (producer consumer : TuSramAccess) : Bool :=
  TuSramRegionId.all.any fun r =>
    (producer.writes r && consumer.reads r && rangesOverlap (producer.writeOffsets r) (consumer.readOffsets r)) ||
    (producer.reads r && consumer.writes r && rangesOverlap (producer.readOffsets r) (consumer.writeOffsets r)) ||
    (producer.writes r && consumer.writes r && rangesOverlap (producer.writeOffsets r) (consumer.writeOffsets r))

namespace TuSramAccess

/-- Byte `x` of region `r` is in the footprint's reads. -/
def ReadsByte (acc : TuSramAccess) (r : TuSramRegionId) (x : Nat) : Prop :=
  acc.reads r = true ∧ (acc.readOffsets r).1.toNat ≤ x ∧ x < (acc.readOffsets r).2.toNat

/-- Byte `x` of region `r` is in the footprint's writes. -/
def WritesByte (acc : TuSramAccess) (r : TuSramRegionId) (x : Nat) : Prop :=
  acc.writes r = true ∧ (acc.writeOffsets r).1.toNat ≤ x ∧ x < (acc.writeOffsets r).2.toNat

/-- Two footprints share a byte that at least one of them writes. -/
def Hazard (producer consumer : TuSramAccess) : Prop :=
  ∃ r x, (producer.WritesByte r x ∧ consumer.ReadsByte r x) ∨ (producer.ReadsByte r x ∧ consumer.WritesByte r x) ∨
    (producer.WritesByte r x ∧ consumer.WritesByte r x)

end TuSramAccess

theorem rangesOverlap_of_byte {a b : UInt32 × UInt32} {x : Nat} (ha : a.1.toNat ≤ x) (ha' : x < a.2.toNat)
    (hb : b.1.toNat ≤ x) (hb' : x < b.2.toNat) : rangesOverlap a b = true := by
  have hab : a.1 < b.2 := UInt32.lt_iff_toNat_lt.2 (Nat.lt_of_le_of_lt ha hb')
  have hba : b.1 < a.2 := UInt32.lt_iff_toNat_lt.2 (Nat.lt_of_le_of_lt hb ha')
  unfold rangesOverlap
  rw [decide_eq_true hab, decide_eq_true hba]
  split
  · rfl
  · split <;> rfl

/-- The pass sees every hazard. -/
theorem hasDependency_of_hazard {producer consumer : TuSramAccess} (h : producer.Hazard consumer) :
    hasDependency producer consumer = true := by
  obtain ⟨r, x, h⟩ := h
  unfold hasDependency
  rw [List.any_eq_true]
  refine ⟨r, r.mem_all, ?_⟩
  rcases h with ⟨⟨hp, hp1, hp2⟩, hc, hc1, hc2⟩ | ⟨⟨hp, hp1, hp2⟩, hc, hc1, hc2⟩ | ⟨⟨hp, hp1, hp2⟩, hc, hc1, hc2⟩
  · rw [hp, hc, rangesOverlap_of_byte hp1 hp2 hc1 hc2]
    simp
  · rw [hp, hc, rangesOverlap_of_byte hp1 hp2 hc1 hc2]
    simp
  · rw [hp, hc, rangesOverlap_of_byte hp1 hp2 hc1 hc2]
    simp

private theorem isDmaOp_of_isBarrierOp {op : UInt8} (h : isBarrierOp op = true) :
    isDmaOp op = false ∧ isComputeOp op = false := by
  unfold isBarrierOp at h
  simp only [Bool.or_eq_true, decide_eq_true_eq] at h
  rcases h with ((rfl | rfl) | rfl) | rfl <;> decide

/-- A barrier touches no scratchpad. -/
theorem analyzeAccess_barrier {instr : TuInstruction} (h : isBarrierOp instr.opcode = true) :
    tuSchedAnalyzeAccess instr = {} := by
  obtain ⟨hdma, hcompute⟩ := isDmaOp_of_isBarrierOp h
  unfold tuSchedAnalyzeAccess
  rw [hdma, hcompute]
  rfl

end Tusim
