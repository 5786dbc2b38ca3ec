import Tusim.Isa.Access

/-!
# Live ranges

The allocator reads definitions and uses off the instructions on its own (not through `tuSchedAnalyzeAccess`),
creates a virtual register for every definition and for every use without one before it, and extends live ranges to
the last use.  Instruction indices are the source's `int32_t`; programs are shorter than `2 ^ 31`.
-/

namespace Tusim

def tuLiveMaxVregs : Nat := 128

def isLoadOp (op : UInt8) : Bool :=
  op = TuIsa.dmaLoad || op = TuIsa.dmaLoadStrided || op = TuIsa.dmaScatter || op = TuIsa.dmaBroadcast

def isStoreOp (op : UInt8) : Bool := op = TuIsa.dmaStore || op = TuIsa.dmaStoreStrided || op = TuIsa.dmaGather

/-- The opcodes decoded as matrix products. -/
def isMmaOp (op : UInt8) : Bool :=
  op = TuIsa.mma || op = TuIsa.mmaBias || op = TuIsa.mmaFused || op = TuIsa.sparseMma

/-- A scratchpad operand: a region and a byte range. -/
structure TuOperand where
  region : TuSramRegionId
  start : UInt32
  stop : UInt32
deriving DecidableEq, Repr

/-- The size the allocator computes for a range. -/
def TuOperand.size (operand : TuOperand) : UInt32 := operand.stop - operand.start

/-- The operand of a DMA instruction. -/
def TuInstruction.dmaOperand (instr : TuInstruction) : TuOperand :=
  let size := if instr.dim1 ≠ 0 then instr.dim1.toUInt32 else 1
  { region := .ofChannel (instr.flags &&& 0x3), start := instr.dim0.toUInt32, stop := instr.dim0.toUInt32 + size }

/-- The operand an instruction writes.  The comparison with `layerNorm` has no upper bound: the opcodes after it,
the DMA stores among them, all define an output. -/
def extractVregDef (instr : TuInstruction) : Option TuOperand :=
  let op := instr.opcode
  let dim0 := instr.dim0.toUInt32
  let dim1 := instr.dim1.toUInt32
  if isLoadOp op then some instr.dmaOperand
  else if isMmaOp op then some ⟨.o, instr.immHigh, instr.immHigh + dim0 * dim1 * 4⟩
  else if TuIsa.add ≤ op && op ≤ TuIsa.exp then some ⟨.o, dim0, dim0 + dim1 * 4⟩
  else if op = TuIsa.softmax || op = TuIsa.logSoftmax || TuIsa.layerNorm ≤ op then
    some ⟨.o, instr.immHigh, instr.immHigh + dim1 * 4⟩
  else if op = TuIsa.conv2d || op = TuIsa.conv3d || op = TuIsa.depthwiseConv then some ⟨.o, 0, 0xFFFFFFFF⟩
  else if op = TuIsa.attention || op = TuIsa.attnQk || op = TuIsa.attnPv then
    some ⟨.o, instr.immHigh, instr.immHigh + 65536⟩
  else if op = TuIsa.poolMax || op = TuIsa.poolAvg || op = TuIsa.poolGlobalAvg then
    some ⟨.o, instr.immHigh, instr.immHigh + 65536⟩
  else none

/-- The operands an instruction reads. -/
def extractVregUses (instr : TuInstruction) : List TuOperand :=
  let op := instr.opcode
  let dim0 := instr.dim0.toUInt32
  let dim1 := instr.dim1.toUInt32
  let dim2 := instr.dim2.toUInt32
  if isStoreOp op then [instr.dmaOperand]
  else if isMmaOp op then
    [⟨.w, dim0, dim0 + dim2 * dim1 * 2⟩, ⟨.a, instr.immLow, instr.immLow + dim2 * dim1 * 2⟩]
  else if TuIsa.relu ≤ op && op ≤ TuIsa.exp then [⟨.o, dim0, dim0 + dim1 * 4⟩]
  else if op = TuIsa.softmax || op = TuIsa.logSoftmax || TuIsa.layerNorm ≤ op then [⟨.a, dim0, dim0 + dim1 * 4⟩]
  else []

/-- The offset of a register that is not placed, `UINT32_MAX`. -/
def tuUnassigned : UInt32 := 0xFFFFFFFF

structure TuVreg where
  id : UInt32
  region : TuSramRegionId
  sizeBytes : UInt32
  /-- The defining instruction, or `-1`. -/
  firstDef : Int
  lastUse : Int
  spilled : Bool := false
  accessCount : UInt32 := 1
  physicalOffset : UInt32 := tuUnassigned

instance : Inhabited TuVreg := ⟨{ id := 0, region := .w, sizeBytes := 0, firstDef := 0, lastUse := 0 }⟩

/-- The register that follows `count` others. -/
def TuVreg.create (count : Nat) (operand : TuOperand) (firstDef lastUse : Int) : TuVreg :=
  { id := (count + 1).toUInt32, region := operand.region, sizeBytes := operand.size, firstDef, lastUse }

/-- The new register of a definition or of a use without one; nothing happens once the table is full. -/
def createVreg (vregs : List TuVreg) (operand : TuOperand) (firstDef lastUse : Int) : List TuVreg :=
  if tuLiveMaxVregs ≤ vregs.length then vregs
  else vregs ++ [TuVreg.create vregs.length operand firstDef lastUse]

/-- The last register of the region that has a definition, whatever bytes it covers. -/
def recentVreg (vregs : List TuVreg) (region : TuSramRegionId) : Option Nat :=
  (List.range vregs.length).reverse.find? fun k =>
    let v := vregs.getD k default
    v.region = region && 0 ≤ v.firstDef

def TuVreg.use (v : TuVreg) (instrIdx : Int) : TuVreg :=
  { v with lastUse := if instrIdx > v.lastUse then instrIdx else v.lastUse, accessCount := v.accessCount + 1 }

/-- A definition creates a register, a use extends the most recent one of its region. -/
def findOrCreateVreg (vregs : List TuVreg) (operand : TuOperand) (instrIdx : Int) (isDef : Bool) : List TuVreg :=
  if isDef then createVreg vregs operand instrIdx instrIdx
  else
    match recentVreg vregs operand.region with
    | some k => vregs.modify k (·.use instrIdx)
    | none => createVreg vregs operand (-1) instrIdx

def analyzeDef (vregs : List TuVreg) (instr : TuInstruction) (instrIdx : Int) : List TuVreg :=
  match extractVregDef instr with
  | some operand => findOrCreateVreg vregs operand instrIdx true
  | none => vregs

def analyzeUses (vregs : List TuVreg) (uses : List TuOperand) (instrIdx : Int) : List TuVreg :=
  uses.foldl (fun vregs operand => findOrCreateVreg vregs operand instrIdx false) vregs

/-- The definition of an instruction first, then its uses. -/
def analyzeInstr (vregs : List TuVreg) (instr : TuInstruction) (instrIdx : Int) : List TuVreg :=
  analyzeUses (analyzeDef vregs instr instrIdx) (extractVregUses instr) instrIdx

/-- The registers of a program; a table that overflows is not reported. -/
def tuLiveAnalyze (instrs : List TuInstruction) : Option (List TuVreg) :=
  if instrs.isEmpty then none
  else some ((List.range instrs.length).foldl (fun vregs i => analyzeInstr vregs (instrs.getD i default) i) [])

end Tusim
