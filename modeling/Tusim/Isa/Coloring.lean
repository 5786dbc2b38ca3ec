import Mathlib.Algebra.Order.Ring.Nat
import Mathlib.Data.List.Sort
import Mathlib.Logic.Function.Basic
import Tusim.Isa.Liveness

/-!
# Placing registers

Each region has its own interference graph over the positions of its registers and is coloured greedily: the
registers are sorted by definition and each takes the first offset that conflicts with no interfering register
placed before it.  The graph keeps the positions of before the sorting.
-/

namespace Tusim

inductive TuAllocStrategy
  | firstFit
  | bestFit
  | worstFit
  | count
deriving DecidableEq, Repr

inductive TuSpillStrategy
  | fifo
  | lru
  | largest
  | leastAccessed
  | count
deriving DecidableEq, Repr

structure TuLiveConfig where
  wCapacity : UInt32
  aCapacity : UInt32
  oCapacity : UInt32
  allocStrategy : TuAllocStrategy
  spillStrategy : TuSpillStrategy
  safetyMargin : UInt32
  enableSpilling : Bool

def tuLiveConfigDefault : TuLiveConfig :=
  { wCapacity := 131072, aCapacity := 65536, oCapacity := 65536, allocStrategy := .firstFit, spillStrategy := .lru,
    safetyMargin := 4096, enableSpilling := true }

def regionCapacity (cfg : TuLiveConfig) : TuSramRegionId → UInt32
  | .w => cfg.wCapacity
  | .a => cfg.aCapacity
  | .o => cfg.oCapacity

/-! ### Interference -/

/-- The registers of a region, as indices of the register table. -/
def regionVregs (vregs : List TuVreg) (region : TuSramRegionId) : List Nat :=
  (List.range vregs.length).filter fun k => (vregs.getD k default).region = region

/-- The adjacency matrix over positions of `members`: both registers have definitions and their live ranges
overlap. -/
def interferes (vregs : List TuVreg) (members : List Nat) (p q : Nat) : Bool :=
  let vi := vregs.getD (members.getD p 0) default
  let vj := vregs.getD (members.getD q 0) default
  p ≠ q && 0 ≤ vi.firstDef && 0 ≤ vj.firstDef && vi.firstDef ≤ vj.lastUse && vj.firstDef ≤ vi.lastUse

/-! ### Colouring -/

structure Coloring where
  vregs : List TuVreg
  numSpills : Nat := 0
  spillBytes : UInt32 := 0

def Coloring.vreg (s : Coloring) (k : Nat) : TuVreg := s.vregs.getD k default

def Coloring.place (s : Coloring) (k : Nat) (offset : UInt32) : Coloring :=
  { s with vregs := s.vregs.modify k fun v => { v with physicalOffset := offset } }

def Coloring.spill (s : Coloring) (k : Nat) : Coloring :=
  { vregs := s.vregs.modify k fun v => { v with spilled := true }
    numSpills := s.numSpills + 1
    spillBytes := s.spillBytes + (s.vreg k).sizeBytes }

/-- The register at position `p` of `members` conflicts at `offset` with an interfering register that is placed. -/
def physicalConflict (s : Coloring) (members : List Nat) (interference : Nat → Nat → Bool) (p : Nat)
    (offset : UInt32) : Bool :=
  (List.range members.length).any fun q =>
    let v := s.vreg (members.getD p 0)
    let other := s.vreg (members.getD q 0)
    q ≠ p && interference p q && other.physicalOffset ≠ tuUnassigned &&
      offset < other.physicalOffset + other.sizeBytes && other.physicalOffset < offset + v.sizeBytes

/-- The loop `for (off = 0; off + size <= capacity; off += step)` up to the first offset without conflict.  The
offset wraps around, so a loop of `2 ^ 32` turns comes back to where it was and does not end: `none`. -/
def searchOffset (conflict : UInt32 → Bool) (size capacity step : UInt32) : Nat → UInt32 → Option (Option UInt32)
  | 0, _ => none
  | n + 1, offset =>
    if offset + size ≤ capacity then
      if conflict offset then searchOffset conflict size capacity step n (offset + step) else some (some offset)
    else some none

def TuSpillStrategy.score (strategy : TuSpillStrategy) (v : TuVreg) : UInt32 :=
  match strategy with
  | .fifo => 0xFFFFFFFF - v.id
  | .lru => 0xFFFFFFFF - UInt32.ofInt v.lastUse
  | .largest => v.sizeBytes
  | .leastAccessed => 0xFFFFFFFF - v.accessCount
  | .count => 0

/-- The position of the victim: position `0` when no register scores. -/
def selectSpillVictim (s : Coloring) (members : List Nat) (strategy : TuSpillStrategy) : Nat :=
  ((List.range members.length).foldl (fun (best : Nat × UInt32) p =>
    let v := s.vreg (members.getD p 0)
    if v.spilled || v.physicalOffset ≠ tuUnassigned then best
    else if strategy.score v > best.2 then (p, strategy.score v) else best) (0, 0)).1

/-- The search for the register at position `p`. -/
def Coloring.search (s : Coloring) (members : List Nat) (interference : Nat → Nat → Bool) (capacity step : UInt32)
    (p : Nat) : Option (Option UInt32) :=
  searchOffset (physicalConflict s members interference p) (s.vreg (members.getD p 0)).sizeBytes capacity step
    (2 ^ 32) 0

/-- A register that found no place: spill a victim, try again, and spill the register itself if that fails too. -/
def Coloring.evict (config : TuLiveConfig) (members : List Nat) (interference : Nat → Nat → Bool)
    (capacity step : UInt32) (s : Coloring) (p : Nat) : Option Coloring :=
  let k := members.getD p 0
  let victim := selectSpillVictim s members config.spillStrategy
  if victim < members.length && !(s.vreg (members.getD victim 0)).spilled then
    let s := s.spill (members.getD victim 0)
    (s.search members interference capacity step p).map fun found =>
      match found with
      | some offset => s.place k offset
      | none => s.spill k
  else some (s.spill k)

/-- Place or spill the register at position `p`. -/
def Coloring.placeNext (config : TuLiveConfig) (members : List Nat) (interference : Nat → Nat → Bool)
    (capacity : UInt32) (s : Coloring) (p : Nat) : Option Coloring :=
  let k := members.getD p 0
  if (s.vreg k).firstDef < 0 then some (s.place k 0)
  else
    let step : UInt32 := if config.allocStrategy = .bestFit then 4 else 16
    (s.search members interference capacity step p).bind fun found =>
      match found with
      | some offset => some (s.place k offset)
      | none =>
        if config.enableSpilling then
          -- best fit looks again at every byte
          let finer := if config.allocStrategy = .bestFit then s.search members interference capacity 1 p else some none
          finer.bind fun found =>
            match found with
            | some offset => some (s.place k offset)
            | none => s.evict config members interference capacity step p
        else some (s.place k 0)

/-- Colour one region. -/
def colorRegion (config : TuLiveConfig) (s : Coloring) (region : TuSramRegionId) : Option Coloring :=
  let members := regionVregs s.vregs region
  let interference := interferes s.vregs members
  let sorted := members.insertionSort fun a b => (s.vreg a).firstDef ≤ (s.vreg b).firstDef
  (List.range sorted.length).foldlM
    (Coloring.placeNext config sorted interference (regionCapacity config region - config.safetyMargin)) s

/-- The regions one after the other; `none` where a search does not end. -/
def tuLiveColor (config : TuLiveConfig) (vregs : List TuVreg) : Option Coloring :=
  TuSramRegionId.all.foldlM (colorRegion config) { vregs }

end Tusim

/-!
### Applying an allocation

`patchInstruction` rewrites operand fields to the offsets of the registers, and `tuLiveApply` emits the patched
instructions with fills and spills in between.  An output entry remembers what it is; the source keeps the
instructions.
-/

namespace Tusim

/-- The register an instruction defines. -/
def findDefVreg (vregs : List TuVreg) (instrIdx : Int) : Option TuVreg := vregs.find? fun v => v.firstDef = instrIdx

/-- The products whose operands are rewritten. -/
def isPatchedMma (op : UInt8) : Bool := op = TuIsa.mma || op = TuIsa.mmaBias || op = TuIsa.mmaFused

/-- The register is live at the instruction. -/
def TuVreg.covers (v : TuVreg) (instrIdx : Int) : Bool :=
  0 ≤ v.firstDef && v.firstDef ≤ instrIdx && instrIdx ≤ v.lastUse

def TuInstruction.setImmHigh (instr : TuInstruction) (offset : UInt32) : TuInstruction :=
  { instr with immediates := (instr.immediates &&& 0xFFFF) ||| ((offset &&& (0xFFFF : UInt32)) <<< (16 : UInt32)) }

def TuInstruction.setImmLow (instr : TuInstruction) (offset : UInt32) : TuInstruction :=
  { instr with immediates := (instr.immediates &&& 0xFFFF0000) ||| (offset &&& 0xFFFF) }

def TuInstruction.setDim0 (instr : TuInstruction) (offset : UInt32) : TuInstruction :=
  { instr with dim0 := offset.toUInt16 }

/-- Rewrite the written operand. -/
def patchDef (instr : TuInstruction) (d : TuVreg) : TuInstruction :=
  match d.region with
  | .o =>
    if isPatchedMma instr.opcode then instr.setImmHigh d.physicalOffset
    else if TuIsa.relu ≤ instr.opcode && instr.opcode ≤ TuIsa.exp then instr.setDim0 d.physicalOffset
    else instr
  | .w | .a => if isLoadOp instr.opcode then instr.setDim0 d.physicalOffset else instr

/-- One turn of the loop that rewrites what a product reads. -/
def patchUse (instrIdx : Int) (instr : TuInstruction) (v : TuVreg) : TuInstruction :=
  if v.covers instrIdx then
    match v.region with
    | .w => instr.setDim0 v.physicalOffset
    | .a => instr.setImmLow v.physicalOffset
    | .o => instr
  else instr

def patchInstruction (instr : TuInstruction) (vregs : List TuVreg) (instrIdx : Int) : TuInstruction :=
  match findDefVreg vregs instrIdx with
  | none => instr
  | some d =>
    if d.physicalOffset = tuUnassigned then instr
    else
      let instr := patchDef instr d
      if isPatchedMma instr.opcode then vregs.foldl (patchUse instrIdx) instr else instr

/-- The flags byte that names a region. -/
def regionFlags : TuSramRegionId → UInt8
  | .w => 0
  | .a => 1
  | .o => 2

def makeSpillInstr (v : TuVreg) : TuInstruction :=
  { opcode := TuIsa.dmaStore, flags := regionFlags v.region, dim0 := (v.physicalOffset &&& 0xFFFF).toUInt16,
    dim1 := (v.sizeBytes &&& 0xFFFF).toUInt16 }

def makeFillInstr (v : TuVreg) : TuInstruction :=
  { opcode := TuIsa.dmaLoad, flags := regionFlags v.region, dim0 := (v.physicalOffset &&& 0xFFFF).toUInt16,
    dim1 := (v.sizeBytes &&& 0xFFFF).toUInt16 }

/-- An instruction of the output: the image of input instruction `i`, or transfer code of register `k` of the
table. -/
inductive TuAllocated
  | image (i : Nat) (instr : TuInstruction)
  | fill (k : Nat) (instr : TuInstruction)
  | spill (k : Nat) (instr : TuInstruction)
deriving DecidableEq

def TuAllocated.instr : TuAllocated → TuInstruction
  | .image _ instr | .fill _ instr | .spill _ instr => instr

/-- Entries of the output array. -/
def tuAllocatedMaxInstrs : Nat := 512

structure TuAllocatedSequence where
  entries : List TuAllocated := []
  usage : TuSramRegionId → UInt32 := fun _ => 0
  peakUsage : TuSramRegionId → UInt32 := fun _ => 0
  valid : Bool := false

def TuAllocatedSequence.instructions (output : TuAllocatedSequence) : List TuInstruction :=
  output.entries.map TuAllocated.instr

/-- Append transfer code, unless it would take the last entry. -/
def TuAllocatedSequence.insert (output : TuAllocatedSequence) (entry : TuAllocated) : TuAllocatedSequence :=
  if output.entries.length < tuAllocatedMaxInstrs - 1 then { output with entries := output.entries ++ [entry] }
  else output

/-- Usage after the definition of an instruction. -/
def TuAllocatedSequence.define (output : TuAllocatedSequence) (vregs : List TuVreg) (instrIdx : Int) :
    TuAllocatedSequence :=
  let usage :=
    match findDefVreg vregs instrIdx with
    | some d =>
      if d.physicalOffset ≠ tuUnassigned && d.physicalOffset + d.sizeBytes > output.usage d.region then
        Function.update output.usage d.region (d.physicalOffset + d.sizeBytes)
      else output.usage
    | none => output.usage
  { output with
    usage
    peakUsage := fun r => if usage r > output.peakUsage r then usage r else output.peakUsage r }

/-- Registers that die give their space back; weights are kept. -/
def TuAllocatedSequence.reclaim (output : TuAllocatedSequence) (vregs : List TuVreg) (instrIdx : Int) :
    TuAllocatedSequence :=
  { output with
    usage := vregs.foldl (fun usage v =>
      if !v.spilled && v.lastUse = instrIdx && v.region ≠ .w then Function.update usage v.region 0 else usage)
      output.usage }

/-- The output of one input instruction. -/
def applyInstr (vregs : List TuVreg) (instrs : List TuInstruction) (output : TuAllocatedSequence) (i : Nat) :
    TuAllocatedSequence :=
  if output.entries.length < tuAllocatedMaxInstrs then
    let output := vregs.zipIdx.foldl (fun output (v, k) =>
      if v.spilled && v.firstDef < (i : Int) && (i : Int) ≤ v.lastUse then output.insert (.fill k (makeFillInstr v))
      else output)
      output
    let image := patchInstruction (instrs.getD i default) vregs i
    let output := { output with entries := output.entries ++ [TuAllocated.image i image] }
    let output := (output.define vregs i).reclaim vregs i
    vregs.zipIdx.foldl (fun output (v, k) =>
      if v.spilled && v.lastUse = (i : Int) then output.insert (.spill k (makeSpillInstr v)) else output) output
  else output

/-- The loop over the input ends early once the output is full; the result is valid all the same. -/
def tuLiveApply (vregs : List TuVreg) (instrs : List TuInstruction) : TuAllocatedSequence :=
  let output := (List.range instrs.length).foldl (applyInstr vregs instrs) {}
  { output with valid := true }

/-- The allocation; `none` where the source returns `-1` or does not return. -/
def tuLiveAllocate (instrs : List TuInstruction) (config : Option TuLiveConfig) : Option TuAllocatedSequence :=
  (tuLiveAnalyze instrs).bind fun vregs =>
    (tuLiveColor (config.getD tuLiveConfigDefault) vregs).map fun s => tuLiveApply s.vregs instrs

end Tusim
