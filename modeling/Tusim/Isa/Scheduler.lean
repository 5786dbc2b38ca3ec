import Tusim.Lib.Emission
import Tusim.Isa.Access
import Mathlib.Logic.Function.Basic

/-!
# The scheduling pass

The pass builds a dependence graph over the instructions, estimates the earliest and latest cycle of every node and
emits the nodes by list scheduling.  The node array is split: what phase 1 of the construction writes is a
`TuSchedNode`, the edge arrays and cycle estimates are functions of the node's id.
-/

namespace Tusim

open Emission

def tuSchedMaxInstrs : Nat := 256

/-- Entries of the predecessor and of the successor array of a node. -/
def tuSchedMaxDeps : Nat := 16

def tuSchedMaxReadyQueue : Nat := 256

inductive TuSchedPolicy
  | asap
  | alap
  | balanced
  | count
deriving DecidableEq, Repr

structure TuSchedConfig where
  policy : TuSchedPolicy
  hoistDma : Bool
  insertBarriers : Bool
  maxHoistDistance : Nat

def tuSchedConfigDefault : TuSchedConfig :=
  { policy := .balanced, hoistDma := true, insertBarriers := true, maxHoistDistance := 32 }

structure TuSchedNode where
  instr : TuInstruction
  access : TuSramAccess
  isDma : Bool
  isCompute : Bool
  isBarrier : Bool

def schedNode (instr : TuInstruction) : TuSchedNode :=
  { instr
    access := tuSchedAnalyzeAccess instr
    isDma := isDmaOp instr.opcode
    isCompute := isComputeOp instr.opcode
    isBarrier := isBarrierOp instr.opcode }

structure TuSchedGraph where
  nodes : Nat → TuSchedNode
  numNodes : Nat
  preds : Nat → List Nat := fun _ => []
  succs : Nat → List Nat := fun _ => []
  asapCycle : Nat → Int := fun _ => 0
  alapCycle : Nat → Int := fun _ => 0
  slack : Nat → Int := fun _ => 0
  config : TuSchedConfig

/-! ### Construction of the graph -/

/-- Record the edge from `j` to `i`, unless an array is full: then the edge is dropped. -/
def TuSchedGraph.link (g : TuSchedGraph) (i j : Nat) : TuSchedGraph :=
  if tuSchedMaxDeps ≤ (g.succs j).length || tuSchedMaxDeps ≤ (g.preds i).length then g
  else
    { g with
      succs := Function.update g.succs j (g.succs j ++ [i])
      preds := Function.update g.preds i (g.preds i ++ [j]) }

/-- Consumer `i` meets the earlier instruction `j`.  A barrier depends on every earlier instruction that is no
barrier. -/
def TuSchedGraph.visit (i : Nat) (g : TuSchedGraph) (j : Nat) : TuSchedGraph :=
  if (g.nodes j).isBarrier then g
  else if (g.nodes i).isBarrier then g.link i j
  else if hasDependency (g.nodes j).access (g.nodes i).access then g.link i j
  else g

/-- The nodes of phase 1. -/
def schedNodes (instrs : List TuInstruction) (i : Nat) : TuSchedNode := schedNode (instrs.getD i default)

def TuSchedGraph.create (instrs : List TuInstruction) (config : Option TuSchedConfig) : TuSchedGraph :=
  { nodes := schedNodes instrs
    numNodes := instrs.length
    config := config.getD tuSchedConfigDefault }

def tuSchedBuildDag (instrs : List TuInstruction) (config : Option TuSchedConfig) : Option TuSchedGraph :=
  if tuSchedMaxInstrs < instrs.length then none
  else
    some ((List.range instrs.length).foldl (fun g i => (List.range i).foldl (TuSchedGraph.visit i) g)
      (.create instrs config))

/-! ### Mobility -/

def TuSchedNode.cycles (node : TuSchedNode) : Nat := if node.isDma then 1 else 4

def TuSchedGraph.earliest (g : TuSchedGraph) (i : Nat) : Int :=
  if (g.preds i).isEmpty then 0
  else (g.preds i).foldl (fun latest p =>
    let predEnd := g.asapCycle p + (g.nodes p).cycles
    if predEnd > latest then predEnd else latest) (-1)

def TuSchedGraph.latest (g : TuSchedGraph) (maxAsap : Int) (i : Nat) : Int :=
  if (g.succs i).isEmpty then maxAsap
  else
    let alap := (g.succs i).foldl (fun soonest s =>
      let succStart := g.alapCycle s - (g.nodes i).cycles
      if succStart < soonest then succStart else soonest) (2 ^ 31 - 1)
    if alap < g.asapCycle i then g.asapCycle i else alap

def tuSchedComputeMobility (g : TuSchedGraph) : TuSchedGraph :=
  let g := (List.range g.numNodes).foldl (fun g i =>
    { g with asapCycle := Function.update g.asapCycle i (g.earliest i) }) g
  let maxAsap := (List.range g.numNodes).foldl (fun m i => if g.asapCycle i > m then g.asapCycle i else m) 0
  (List.range g.numNodes).reverse.foldl (fun g i =>
    let alap := g.latest maxAsap i
    { g with
      alapCycle := Function.update g.alapCycle i alap
      slack := Function.update g.slack i (alap - g.asapCycle i) }) g

/-! ### Reported counts -/

def TuSchedNode.writesSram (node : TuSchedNode) : Bool := TuSramRegionId.all.any node.access.writes

def TuSchedNode.readsSram (node : TuSchedNode) : Bool := TuSramRegionId.all.any node.access.reads

/-- How many loads could move ahead of an instruction; the graph does not change. -/
def tuSchedHoistDma (g : TuSchedGraph) : Nat :=
  ((List.range g.numNodes).filter fun i =>
    (g.nodes i).isDma && (g.nodes i).writesSram &&
      let earliestPos := (g.preds i).foldl (fun e p => if p < e then p else e) i
      earliestPos < i && 0 < i - (earliestPos + 1) && i - (earliestPos + 1) ≤ g.config.maxHoistDistance).length

/-- How many stores have a compute successor; the graph does not change. -/
def tuSchedInsertBarriers (g : TuSchedGraph) : Nat :=
  ((List.range g.numNodes).filter fun i =>
    (g.nodes i).isDma && (g.nodes i).readsSram && (g.succs i).any fun s => (g.nodes s).isCompute).length

/-! ### List scheduling -/

/-- Whatever writes a scratchpad counts as a load. -/
def balancedPriority (node : TuSchedNode) : Int :=
  if node.isBarrier then 0
  else if node.writesSram then 3
  else if node.isCompute then 2
  else if node.isDma then 1
  else 0

def TuSchedGraph.priority (g : TuSchedGraph) (i : Nat) : Int :=
  match g.config.policy with
  | .asap => -g.asapCycle i
  | .alap => g.alapCycle i
  | .balanced | .count => balancedPriority (g.nodes i)

/-- The position in the ready queue of the node of highest priority, the lowest id among equals. -/
def TuSchedGraph.best (g : TuSchedGraph) (ready : List Nat) : Nat :=
  ((List.range ready.length).foldl (fun (best : Nat × Int) q =>
    let nodeId := ready.getD q 0
    let prio := g.priority nodeId
    if prio > best.2 || (prio = best.2 && nodeId < ready.getD best.1 0) then (q, prio) else best)
    (0, -2 ^ 31)).1

/-- The state of the emission loop; `order` holds the ids of the emitted nodes. -/
structure ListScheduler where
  readyQueue : List Nat
  remainingPreds : Nat → Nat
  scheduled : Nat → Bool := fun _ => false
  order : List Nat := []
  estimatedCycles : Nat := 0

def ListScheduler.init (g : TuSchedGraph) : ListScheduler :=
  { remainingPreds := fun i => (g.preds i).length
    readyQueue := (List.range g.numNodes).filter fun i => (g.preds i).length = 0 && !(g.nodes i).isBarrier }

/-- One predecessor of `i` is emitted. -/
def ListScheduler.release (s : ListScheduler) (i : Nat) : ListScheduler :=
  let left := s.remainingPreds i - 1
  { s with
    remainingPreds := Function.update s.remainingPreds i left
    readyQueue :=
      if left = 0 && s.readyQueue.length < tuSchedMaxReadyQueue && !s.scheduled i then s.readyQueue ++ [i]
      else s.readyQueue }

/-- The ready queue, or any node that is not blocked once it is empty: a barrier without predecessors is never
seeded. -/
def ListScheduler.candidates (g : TuSchedGraph) (s : ListScheduler) : List Nat :=
  if s.readyQueue.isEmpty then
    ((List.range g.numNodes).find? fun i => !s.scheduled i && s.remainingPreds i = 0).toList
  else s.readyQueue

/-- Emit the best candidate. -/
def ListScheduler.emit (g : TuSchedGraph) (s : ListScheduler) (ready : List Nat) : ListScheduler :=
  let best := g.best ready
  let selected := ready.getD best 0
  (g.succs selected).foldl .release
    { s with
      readyQueue := swapRemove ready best
      scheduled := Function.update s.scheduled selected true
      order := s.order ++ [selected]
      estimatedCycles := s.estimatedCycles + (g.nodes selected).cycles }

/-- The emission loop; every turn emits one node, so it takes at most one turn a node. -/
def ListScheduler.loop (g : TuSchedGraph) : Nat → ListScheduler → ListScheduler
  | 0, s => s
  | n + 1, s =>
    if s.order.length < g.numNodes then
      let ready := s.candidates g
      if ready.isEmpty then s else loop g n (s.emit g ready)
    else s

/-- The result of the pass; the source keeps the instructions and not the ids in `order`. -/
structure TuSchedResult where
  order : List Nat := []
  instructions : List TuInstruction := []
  numBarriersInserted : Nat := 0
  numDmaHoisted : Nat := 0
  estimatedCycles : Nat := 0
  valid : Bool := false

/-- The counts that earlier steps reported are cleared. -/
def listSchedule (g : TuSchedGraph) (result : TuSchedResult) : TuSchedResult :=
  let s := ListScheduler.loop g g.numNodes (.init g)
  { result with
    order := s.order
    instructions := s.order.map fun i => (g.nodes i).instr
    numBarriersInserted := 0
    numDmaHoisted := 0
    estimatedCycles := s.estimatedCycles
    valid := s.order.length = g.numNodes }

/-- The pass; `none` where the source returns `-1` without emitting anything. -/
def tuSchedRun (instrs : List TuInstruction) (config : Option TuSchedConfig) : Option TuSchedResult :=
  if instrs.isEmpty || tuSchedMaxInstrs < instrs.length then none
  else
    (tuSchedBuildDag instrs config).map fun g =>
      let g := tuSchedComputeMobility g
      let result : TuSchedResult := {}
      let result := if config.any (·.hoistDma) then { result with numDmaHoisted := tuSchedHoistDma g } else result
      let result :=
        if config.any (·.insertBarriers) then { result with numBarriersInserted := tuSchedInsertBarriers g } else result
      listSchedule g result

end Tusim
