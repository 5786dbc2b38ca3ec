import Tusim.Lib.Run
import Tusim.Lib.Segment
import Tusim.Dma.Timing
import Tusim.Dma.Transfer

/-!
# The DMA engine

The state of `g_tu_dma` and the functions that change it.  Descriptors live in a heap: descriptor `d` is `heap d`, the
first `allocated` numbers are in use, and a queue is threaded through the `next` fields.  The loops of the source that
follow `next` visit at most `allocated` descriptors.  A freed descriptor keeps its contents in the heap.

64-bit counters are natural numbers reduced by `u64` where they can wrap.  The grant counter `arbitrationEpoch` is not
reduced: reaching the bound takes `2 ^ 64` grants.

`log` is not part of the source: it records in order what happened to descriptors, for the statements about runs.
-/

namespace Tusim

open Word Segment

structure TuDmaChannelState where
  head : Option Nat := none
  tail : Option Nat := none
  active : Option Nat := none
  queueDepth : UInt32 := 0
  totalSubmitted : Nat := 0
  totalCompleted : Nat := 0
  totalBytes : Nat := 0
  totalOccupiedBytes : Nat := 0
  totalCycles : Nat := 0
  drrDeficitCredits : Nat := 0
  deriving DecidableEq, Repr

inductive TuDmaEvent where
  /-- a chain was committed to a channel's queue -/
  | accepted (channel : Nat) (chain : List Nat)
  /-- a descriptor was removed from a channel's queue -/
  | dequeued (channel desc : Nat)
  /-- the executor ran on a descriptor that had not completed; `moved` tells whether it made its copies -/
  | executed (desc : Nat) (moved : Bool)
  /-- a channel's `total_completed` was incremented for a descriptor -/
  | retired (channel desc : Nat)
  /-- the shared bus was granted to a channel's head; `cost` is its deficit-round-robin cost -/
  | granted (channel desc cost : Nat)
  deriving DecidableEq, Repr

structure TuDmaEngine where
  cfg : TuDmaConfig
  channels : Nat → TuDmaChannelState
  drrContinueVisit : Bool
  drrContinueChannel : Nat
  nextSharedChannel : Nat
  arbitrationEpoch : Nat
  nextBindingChannel : Nat
  currentCycle : Nat
  totalBytes : Nat
  totalOccupiedBytes : Nat
  totalTransfers : Nat
  estimatedCycles : Nat
  heap : Nat → TuDmaDescriptor
  allocated : Nat
  mem : Memory
  log : List TuDmaEvent

/-- The engine right after initialisation. -/
def TuDmaEngine.fresh (cfg : TuDmaConfig) (mem : Memory) : TuDmaEngine where
  cfg := cfg
  channels _ := {}
  drrContinueVisit := false
  drrContinueChannel := 0
  nextSharedChannel := 0
  arbitrationEpoch := 0
  nextBindingChannel := 0
  currentCycle := 0
  totalBytes := 0
  totalOccupiedBytes := 0
  totalTransfers := 0
  estimatedCycles := 0
  heap _ := { descId := 0, type := .other, direction := .other, channel := 0, elemSize := 0, totalBytes := 0 }
  allocated := 0
  mem := mem
  log := []

namespace TuDmaEngine

def setChannel (e : TuDmaEngine) (i : Nat) (f : TuDmaChannelState → TuDmaChannelState) : TuDmaEngine :=
  { e with channels := Function.update e.channels i (f (e.channels i)) }

def setDesc (e : TuDmaEngine) (d : Nat) (f : TuDmaDescriptor → TuDmaDescriptor) : TuDmaEngine :=
  { e with heap := Function.update e.heap d (f (e.heap d)) }

def emit (e : TuDmaEngine) (ev : TuDmaEvent) : TuDmaEngine := { e with log := e.log ++ [ev] }

/-- The `next` fields of the heap. -/
def next (e : TuDmaEngine) (d : Nat) : Option Nat := (e.heap d).next

/-- The descriptors visited by following `next` from `p`. -/
def chain (e : TuDmaEngine) (p : Option Nat) : List Nat := walk e.next e.allocated p

/-- The queue of a channel. -/
def queue (e : TuDmaEngine) (i : Nat) : List Nat := e.chain (e.channels i).head

end TuDmaEngine

/-! ### Execution -/

/-- `sram_region` of the executor, whether it is written, and the base its words are counted from. -/
def meteredRegion (desc : TuDmaDescriptor) : Option (Nat × Bool × UInt32) :=
  if desc.type = .multicast then none
  else
    match desc.direction with
    | .hostToTu => desc.dstRegion.map (·, true, desc.dstBase)
    | .tuToHost => desc.srcRegion.map (·, false, desc.srcBase)
    | _ => none

/-- One word of the bandwidth simulation; the second component adds up the stall cycles. -/
def meterWord (isWrite : Bool) (base : UInt32) (s : TuSramRegion × Nat) (i : Nat) : TuSramRegion × Nat :=
  let banks := s.1.banks
  let off := u32 (base.toNat + i * banks.bankWidth.toNat)
  let bank := tuSramBankIndex banks off
  let bw := banks.bwBanks bank
  let setBw (bw : TuSramBwBank) : TuSramRegion :=
    { s.1 with banks := { banks with bwBanks := Function.update banks.bwBanks bank bw } }
  if bw.wordsAvailable > 0 then
    let bw := { bw with wordsAvailable := bw.wordsAvailable - 1 }
    (setBw (if isWrite then { bw with writesServed := u64 (bw.writesServed + 1) }
      else { bw with readsServed := u64 (bw.readsServed + 1) }), s.2)
  else
    (setBw (if isWrite then { bw with writeStalls := u64 (bw.writeStalls + 1) }
      else { bw with readStalls := u64 (bw.readStalls + 1) }), u64 (s.2 + banks.stallPenalty.toNat))

/-- The SRAM bandwidth stalls of a transfer. -/
def sramStallCycles (mem : Memory) (desc : TuDmaDescriptor) (transferCycles : Nat) : Memory × Nat :=
  match meteredRegion desc with
  | none => (mem, 0)
  | some (r, isWrite, base) =>
    if (mem.sram r).banks.bwModeling then
      let width := (mem.sram r).banks.bankWidth.toNat
      let words := u32 (desc.totalBytes.toNat + width - 1) / width
      let s := (List.range words).foldl (meterWord isWrite base) (tuSramAdvanceCycle (mem.sram r) transferCycles, 0)
      ({ mem with sram := Function.update mem.sram r s.1 }, s.2)
    else (mem, 0)

/-- The accounting at the end of the executor. -/
def accountTransfer (e : TuDmaEngine) (d : Nat) : TuDmaEngine :=
  let desc := e.heap d
  let payloadCycles := descriptorPayloadCycles e.cfg desc
  let stalls := sramStallCycles e.mem desc (descriptorTransferCycles e.cfg desc)
  let transferCycles := u64 (descriptorTransferCycles e.cfg desc + stalls.2)
  let occupied := u64 (payloadCycles * e.cfg.busWidthBytes)
  let e := { e with mem := stalls.1 }
  let e := e.setDesc d fun desc =>
    { desc with completed := true, cyclesCompleted := u64 (e.currentCycle + transferCycles) }
  let e := { e with
    totalBytes := u64 (e.totalBytes + desc.totalBytes.toNat)
    totalOccupiedBytes := u64 (e.totalOccupiedBytes + occupied)
    totalTransfers := u64 (e.totalTransfers + 1)
    estimatedCycles := u64 (e.estimatedCycles + transferCycles) }
  if desc.channel.toNat < e.cfg.numChannels then
    e.setChannel desc.channel.toNat fun ch => { ch with
      totalBytes := u64 (ch.totalBytes + desc.totalBytes.toNat)
      totalOccupiedBytes := u64 (ch.totalOccupiedBytes + occupied)
      totalCycles := u64 (ch.totalCycles + transferCycles) }
  else e

def tuDmaExecuteDesc (e : TuDmaEngine) (d : Nat) : TuDmaEngine :=
  let desc := e.heap d
  if desc.completed then e
  else if !descriptorSramSpansValid e.mem.sizes desc then e.emit (.executed d false)
  else if externalBoundary e.cfg && !desc.externalAddressValid then e.emit (.executed d false)
  else
    match descriptorCopies e.mem.sizes desc with
    | none => e.emit (.executed d false)
    | some copies => (accountTransfer { e with mem := e.mem.copyAll copies } d).emit (.executed d true)

/-- `while (ch->head) { … }` of synchronous submission and of flushing. -/
def executePending : Nat → TuDmaEngine → Nat → TuDmaEngine
  | 0, e, _ => e
  | n + 1, e, i =>
    match (e.channels i).head with
    | none => e
    | some d =>
      let next := e.next d
      let e := tuDmaExecuteDesc e d
      let e := e.setChannel i fun ch => { ch with
        head := next, queueDepth := ch.queueDepth - 1, totalCompleted := u64 (ch.totalCompleted + 1) }
      executePending n ((e.emit (.dequeued i d)).emit (.retired i d)) i

/-! ### Construction of chains -/

/-- The fields `calloc` leaves zero: the link and the status. -/
def TuDmaDescriptor.cleared (desc : TuDmaDescriptor) : TuDmaDescriptor :=
  { desc with
    next := none, completed := false, arbitrationEpochSubmitted := 0, arbitrationEpochEligible := 0,
    arbitrationCycleSubmitted := 0, arbitrationCycleEligible := 0, cyclesCompleted := 0 }

/-- A fresh descriptor with the given transfer. -/
def allocDescriptor (e : TuDmaEngine) (desc : TuDmaDescriptor) : TuDmaEngine × Nat :=
  ({ e with heap := Function.update e.heap e.allocated desc.cleared, allocated := e.allocated + 1 }, e.allocated)

def tuDmaDescChain (e : TuDmaEngine) (head tail : Option Nat) : TuDmaEngine × Option Nat :=
  match (e.chain head).getLast? with
  | none => (e, tail)
  | some cur => (e.setDesc cur fun desc => { desc with next := tail }, head)

/-- Build a chain of fresh descriptors. -/
def newChain : TuDmaEngine → List TuDmaDescriptor → TuDmaEngine × Option Nat
  | e, [] => (e, none)
  | e, desc :: descs =>
    let a := allocDescriptor e desc
    let rest := newChain a.1 descs
    tuDmaDescChain rest.1 (some a.2) rest.2

/-! ### Submission -/

/-- Descriptors queued on or active in a channel, as the source counts them. -/
def outstanding (e : TuDmaEngine) (i : Nat) : UInt32 :=
  (e.channels i).queueDepth + (if (e.channels i).active.isSome then 1 else 0)

def channelAssignedBytes (e : TuDmaEngine) (i : Nat) : Nat :=
  let bytes := (e.channels i).active.elim 0 fun a => (e.heap a).totalBytes.toNat
  (e.queue i).foldl (fun bytes d => u64 (bytes + (e.heap d).totalBytes.toNat)) bytes

def channelProjectedCycles (e : TuDmaEngine) (i : Nat) : Nat :=
  let cycles := (e.channels i).active.elim 0 fun a =>
    if (e.heap a).cyclesCompleted > e.currentCycle then (e.heap a).cyclesCompleted - e.currentCycle else 0
  (e.queue i).foldl (fun cycles d => u64 (cycles + descriptorTransferCycles e.cfg (e.heap d))) cycles

/-- The channel with the least `measure` below `limit`, searched from the binding cursor. -/
def leastChannel (e : TuDmaEngine) (default limit : Nat) (measure : Nat → Nat) : Nat :=
  ((List.range e.cfg.numChannels).foldl (fun best probe =>
    let i := (e.nextBindingChannel + probe) % e.cfg.numChannels
    if measure i < best.1 then (measure i, i) else best) (limit, default)).2

/-- The channel a submission of descriptor `d` is bound to. -/
def selectChannel (e : TuDmaEngine) (d : Nat) : Nat :=
  let channel := (e.heap d).channel.toNat
  match e.cfg.bindingPolicy with
  | .explicit => channel
  | .roundRobin => e.nextBindingChannel
  | .leastOutstanding => leastChannel e channel (2 ^ 32 - 1) fun i => (outstanding e i).toNat
  | .leastBytes => leastChannel e channel uint64Max (channelAssignedBytes e)
  | .leastProjectedCycles => leastChannel e channel uint64Max (channelProjectedCycles e)

/-- Append `d` to the queue of channel `i`; only `ch->tail` is consulted and becomes `d`. -/
def enqueue (e : TuDmaEngine) (i d : Nat) : TuDmaEngine :=
  match (e.channels i).head with
  | none => e.setChannel i fun ch => { ch with head := some d, tail := some d }
  | some _ =>
    let e :=
      match (e.channels i).tail with
      | some t => e.setDesc t fun desc => { desc with next := some d }
      | none => e
    e.setChannel i fun ch => { ch with tail := some d }

/-- The stamps of an accepted submission. -/
def stampSubmitted (e : TuDmaEngine) (d : Nat) : TuDmaEngine :=
  e.setDesc d fun desc => { desc with
    arbitrationEpochSubmitted := e.arbitrationEpoch, arbitrationEpochEligible := e.arbitrationEpoch,
    arbitrationCycleSubmitted := e.currentCycle, arbitrationCycleEligible := e.currentCycle }

/-- The automatic binding state, written once every gate has passed. -/
def commitBinding (e : TuDmaEngine) (i d : Nat) : TuDmaEngine :=
  if e.cfg.bindingPolicy = .explicit then e
  else
    { e.setDesc d fun desc => { desc with channel := UInt8.ofNat i } with
      nextBindingChannel := (i + 1) % e.cfg.numChannels }

/-- The chain at `d` is bound, stamped, put at the end of the queue of channel `i` and counted. -/
def acceptChain (e : TuDmaEngine) (i d : Nat) : TuDmaEngine :=
  let e := commitBinding e i d
  let chain := e.chain (some d)
  let e := enqueue (chain.foldl stampSubmitted e) i d
  (e.setChannel i fun ch =>
    { ch with queueDepth := ch.queueDepth + 1, totalSubmitted := u64 (ch.totalSubmitted + 1) }).emit
      (.accepted i chain)

/-- A submission that has passed every gate; in synchronous mode the queue is executed at once. -/
def commitSubmission (e : TuDmaEngine) (i d : Nat) : TuDmaEngine :=
  let e := acceptChain e i d
  if e.cfg.asyncMode then e
  else (executePending e.allocated e i).setChannel i fun ch => { ch with tail := none }

/-- Every descriptor of the chain passes the admission check. -/
def chainSpansValid (e : TuDmaEngine) (d : Nat) : Bool :=
  (e.chain (some d)).all fun d => descriptorSramSpansValid e.mem.sizes (e.heap d)

/-- Every descriptor of the chain has the external address the boundary mode needs. -/
def chainAddressed (e : TuDmaEngine) (d : Nat) : Bool :=
  !externalBoundary e.cfg || (e.chain (some d)).all fun d => (e.heap d).externalAddressValid

/-- The channel is at its limit of outstanding descriptors. -/
def atLimit (e : TuDmaEngine) (i : Nat) : Bool := outstanding e i ≥ e.cfg.maxDepth && e.cfg.maxDepth > 0

/-- Submission of the chain at `desc`; the second component is the returned identifier, `0` on rejection. -/
def tuDmaSubmitDesc (e : TuDmaEngine) (desc : Option Nat) : TuDmaEngine × UInt32 :=
  match desc with
  | none => (e, 0)
  | some d =>
    if !chainSpansValid e d then (e, 0)
    else if !chainAddressed e d then (e, 0)
    else
      let i := selectChannel e d
      if i ≥ e.cfg.numChannels then (e, 0)
      else if atLimit e i then (e, 0)
      else (commitSubmission e i d, (e.heap d).descId)

/-! ### Arbitration -/

/-- `age` of `descriptor_effective_priority`, in the configured metric and scope. -/
def descriptorAge (e : TuDmaEngine) (desc : TuDmaDescriptor) : Nat :=
  match e.cfg.agingMetric with
  | .byWaitCycles =>
    let start :=
      match e.cfg.agingScope with
      | .fromQueueHead => desc.arbitrationCycleEligible
      | .fromSubmission => desc.arbitrationCycleSubmitted
    u64 (e.currentCycle + 2 ^ 64 - start) / e.cfg.agingCycleQuantum
  | .byMissedGrants =>
    let start :=
      match e.cfg.agingScope with
      | .fromQueueHead => desc.arbitrationEpochEligible
      | .fromSubmission => desc.arbitrationEpochSubmitted
    e.arbitrationEpoch - start

def descriptorEffectivePriority (e : TuDmaEngine) (desc : TuDmaDescriptor) : Nat :=
  let age := descriptorAge e desc
  let room := 255 - desc.priority.toNat
  let boost := if age > uint64Max / e.cfg.agingIncrement then uint64Max else age * e.cfg.agingIncrement
  let boost := if e.cfg.agingMaxBoost ≠ 0 ∧ boost > e.cfg.agingMaxBoost then e.cfg.agingMaxBoost else boost
  let boost := if boost > room then room else boost
  desc.priority.toNat + boost

def drrScanGroups (cfg : TuDmaConfig) (probes stageWidth : Nat) : Nat :=
  let width := if stageWidth ≠ 0 then stageWidth else if cfg.drrScanWidth ≠ 0 then cfg.drrScanWidth else 1
  ceilDivU64 probes width

def drrChargeRoundDelay (e : TuDmaEngine) (cycles : Nat) : TuDmaEngine :=
  let delay :=
    if e.cfg.drrRoundCostMode = .fixed then cycles
    else satMul64 cycles (drrScanGroups e.cfg e.cfg.numChannels e.cfg.drrRoundScanWidth)
  { e with currentCycle := satAdd64 e.currentCycle delay }

def drrChargeSelectDelay (e : TuDmaEngine) (cycles probes : Nat) : TuDmaEngine :=
  let multiplier :=
    match e.cfg.drrRoundCostMode with
    | .fixed => 1
    | .perChannel => drrScanGroups e.cfg e.cfg.numChannels e.cfg.drrSelectScanWidth
    | .perVisitedChannel => drrScanGroups e.cfg probes e.cfg.drrSelectScanWidth
  { e with currentCycle := satAdd64 e.currentCycle (satMul64 cycles multiplier) }

/-- `ch->active = ch->head; ch->head = ch->head->next; ch->queue_depth--;` -/
def activateHead (e : TuDmaEngine) (i d : Nat) : TuDmaEngine :=
  (e.setChannel i fun ch =>
    { ch with active := some d, head := e.next d, queueDepth := ch.queueDepth - 1 }).emit (.dequeued i d)

/-- The credits of channel `i` when its visit starts: a visit that continues the last one gets no quantum. -/
def drrVisitCredits (e : TuDmaEngine) (i : Nat) : Nat :=
  let credits := (e.channels i).drrDeficitCredits
  if e.drrContinueVisit ∧ e.drrContinueChannel = i then credits
  else
    let weight := if e.cfg.drrChannelWeights i ≠ 0 then (e.cfg.drrChannelWeights i).toNat else 1
    satAdd64 credits (satMul64 (drrQuantum e.cfg) weight)

/-- The charge for a grant found by probe `probe`. -/
def drrDebit (e : TuDmaEngine) (i cost probe : Nat) : TuDmaEngine :=
  drrChargeSelectDelay (e.setChannel i fun ch => { ch with drrDeficitCredits := ch.drrDeficitCredits - cost })
    e.cfg.drrSelectIssueCycles (probe + 1)

/-- A channel without queued descriptors loses its credits under the reset policy. -/
def drrResetIdle (e : TuDmaEngine) (i : Nat) : TuDmaEngine :=
  if (e.channels i).head = none ∧ e.cfg.drrIdlePolicy = .reset then
    e.setChannel i fun ch => { ch with drrDeficitCredits := 0 }
  else e

/-- The cursor after a grant to channel `i`: it stays when the visit continues with the next head. -/
def drrAdvance (e : TuDmaEngine) (i : Nat) : TuDmaEngine :=
  let e :=
    if e.cfg.drrServiceMode = .workConserving ∧
        (e.channels i).head.any fun h => descriptorDrrCost e.cfg (e.heap h) ≤ (e.channels i).drrDeficitCredits then
      { e with nextSharedChannel := i, drrContinueVisit := true, drrContinueChannel := i }
    else { e with nextSharedChannel := (i + 1) % e.cfg.numChannels }
  { e with arbitrationEpoch := e.arbitrationEpoch + 1 }

/-- The grant of the shared bus to head `d` of channel `i`, found by probe `probe`, in deficit round robin. -/
def drrGrant (e : TuDmaEngine) (i d probe : Nat) : TuDmaEngine :=
  let cost := descriptorDrrCost e.cfg (e.heap d)
  let e := (activateHead (drrDebit e i cost probe) i d).emit (.granted i d cost)
  drrAdvance (tuDmaExecuteDesc (drrResetIdle e i) d) i

/-- What a probe of one channel found. -/
inductive DrrProbe where
  /-- no queued descriptor -/
  | idle
  /-- a queued descriptor the credits do not cover -/
  | short
  | granted
  deriving DecidableEq, Repr

/-- A visit that would have continued at an idle channel ends. -/
def drrEndVisit (e : TuDmaEngine) (i : Nat) : TuDmaEngine :=
  if e.drrContinueVisit ∧ e.drrContinueChannel = i then { e with drrContinueVisit := false } else e

/-- The credits of a visited channel are replenished unless its last visit continues. -/
def drrVisit (e : TuDmaEngine) (i : Nat) : TuDmaEngine :=
  { e.setChannel i fun ch => { ch with drrDeficitCredits := drrVisitCredits e i } with drrContinueVisit := false }

def drrProbe (e : TuDmaEngine) (probe : Nat) : TuDmaEngine × DrrProbe :=
  let i := (e.nextSharedChannel + probe) % e.cfg.numChannels
  match (e.channels i).head with
  | none => (drrEndVisit (drrResetIdle e i) i, .idle)
  | some d =>
    if drrVisitCredits e i < descriptorDrrCost e.cfg (e.heap d) then (drrVisit e i, .short)
    else (drrGrant (drrVisit e i) i d probe, .granted)

/-- One round over the probes that are left: the engine, whether a descriptor was queued, whether one was granted. -/
def drrRound : List Nat → TuDmaEngine → TuDmaEngine × Bool × Bool
  | [], e => (e, false, false)
  | probe :: probes, e =>
    match drrProbe e probe with
    | (e, .idle) => drrRound probes e
    | (e, .short) =>
      let r := drrRound probes e
      (r.1, true, r.2.2)
    | (e, .granted) => (e, true, true)

/-- The loop `while (!selected)`, for at most `n` rounds. -/
def drrSelect : Nat → TuDmaEngine → TuDmaEngine
  | 0, e => e
  | n + 1, e =>
    let r := drrRound (List.range e.cfg.numChannels) e
    if r.2.2 || !r.2.1 then r.1 else drrSelect n (drrChargeRoundDelay r.1 r.1.cfg.drrRoundIssueCycles)

/-- Enough rounds for any selection: every unsuccessful round adds to credits that stop at the largest cost. -/
def drrRounds : Nat := 2 ^ 64 + 1

def usesPriority (cfg : TuDmaConfig) : Bool := cfg.arbPolicy = .strictPriority || cfg.arbPolicy = .agingPriority

/-- The priority of a queued descriptor under the configured policy. -/
def headPriority (e : TuDmaEngine) (d : Nat) : Nat :=
  if e.cfg.arbPolicy = .agingPriority then descriptorEffectivePriority e (e.heap d) else (e.heap d).priority.toNat

def bestPriority (e : TuDmaEngine) : Nat :=
  if usesPriority e.cfg then
    (List.range e.cfg.numChannels).foldl (fun best i =>
      match (e.channels i).head with
      | some d => if headPriority e d > best then headPriority e d else best
      | none => best) 0
  else 0

/-- The first channel in cyclic order from the cursor whose head may be granted, with that head. -/
def selectHead (e : TuDmaEngine) (best : Nat) : Option (Nat × Nat) :=
  (List.range e.cfg.numChannels).findSome? fun probe =>
    let i := (e.nextSharedChannel + probe) % e.cfg.numChannels
    match (e.channels i).head with
    | none => none
    | some d => if usesPriority e.cfg && headPriority e d != best then none else some (i, d)

/-- The stamps of the descriptor a grant exposes at the head of channel `i`. -/
def exposeHead (e : TuDmaEngine) (i : Nat) : TuDmaEngine :=
  match (e.channels i).head with
  | some h => e.setDesc h fun desc => { desc with
      arbitrationEpochEligible := e.arbitrationEpoch + 1, arbitrationCycleEligible := e.currentCycle }
  | none => e

/-- The grant of the shared bus to head `d` of channel `i` in the other policies. -/
def grantHead (e : TuDmaEngine) (i d : Nat) : TuDmaEngine :=
  let cost := descriptorDrrCost e.cfg (e.heap d)
  let e := tuDmaExecuteDesc (exposeHead ((activateHead e i d).emit (.granted i d cost)) i) d
  { e with
    nextSharedChannel := (i + 1) % e.cfg.numChannels
    arbitrationEpoch := e.arbitrationEpoch + 1 }

/-- Arbitration of an idle shared bus. -/
def arbitrate (e : TuDmaEngine) : TuDmaEngine :=
  if e.cfg.arbPolicy = .deficitRoundRobin then drrSelect drrRounds e
  else
    match selectHead e (bestPriority e) with
    | some (i, d) => grantHead e i d
    | none => e

/-! ### Ticks and flushes -/

/-- Retire the active descriptor of channel `i` if its time has come; the second component counts completions. -/
def retireActive (s : TuDmaEngine × Nat) (i : Nat) : TuDmaEngine × Nat :=
  match (s.1.channels i).active with
  | none => s
  | some a =>
    if (s.1.heap a).cyclesCompleted ≤ s.1.currentCycle then
      ((s.1.setChannel i fun ch =>
        { ch with active := none, totalCompleted := u64 (ch.totalCompleted + 1) }).emit (.retired i a), s.2 + 1)
    else s

/-- With independent paths every idle channel starts its head. -/
def startIndependent (e : TuDmaEngine) (i : Nat) : TuDmaEngine :=
  if e.cfg.busMode = .independent ∧ (e.channels i).active = none then
    match (e.channels i).head with
    | some d => tuDmaExecuteDesc (activateHead e i d) d
    | none => e
  else e

def tickChannel (s : TuDmaEngine × Nat) (i : Nat) : TuDmaEngine × Nat :=
  let s := retireActive s i
  (startIndependent s.1 i, s.2)

def busBusy (e : TuDmaEngine) : Bool := (List.range e.cfg.numChannels).any fun i => (e.channels i).active.isSome

/-- The clock advances, active descriptors retire and, with independent paths, heads start. -/
def tickChannels (e : TuDmaEngine) : TuDmaEngine × Nat :=
  (List.range e.cfg.numChannels).foldl tickChannel ({ e with currentCycle := u64 (e.currentCycle + 1) }, 0)

/-- One model tick; the second component is the returned number of completions. -/
def tuDmaTick (e : TuDmaEngine) : TuDmaEngine × Nat :=
  let s := tickChannels e
  if s.1.cfg.busMode = .sharedSerial ∧ !busBusy s.1 then (arbitrate s.1, s.2) else s

def tuDmaFlushChannel (e : TuDmaEngine) (channel : UInt8) : TuDmaEngine :=
  let i := channel.toNat
  if i ≥ e.cfg.numChannels then e
  else
    let e := executePending e.allocated e i
    let e := e.setChannel i fun ch => { ch with tail := none }
    match (e.channels i).active with
    | none => e
    | some a =>
      ((tuDmaExecuteDesc e a).setChannel i fun ch =>
        { ch with active := none, totalCompleted := u64 (ch.totalCompleted + 1) }).emit (.retired i a)

def tuDmaFlushAll (e : TuDmaEngine) : TuDmaEngine :=
  (List.range e.cfg.numChannels).foldl (fun e i => tuDmaFlushChannel e (UInt8.ofNat i)) e

/-! ### Destruction -/

/-- What `free` is applied to, and which descriptors are read. -/
inductive TuDmaRelease where
  | visit (desc : Nat)
  | free (desc : Nat)
  deriving DecidableEq, Repr

/-- A loop that reads `next`, frees the descriptor and goes on: the queue loop of `tu_dma_destroy`, and
`tu_dma_desc_destroy`. -/
def tuDmaDescDestroy (e : TuDmaEngine) (desc : Option Nat) : List TuDmaRelease :=
  (e.chain desc).flatMap fun d => [.visit d, .free d]

/-- What `tu_dma_destroy` does to the descriptors of channel `i`: the queue first, then the active descriptor. -/
def tuDmaDestroyChannel (e : TuDmaEngine) (i : Nat) : List TuDmaRelease :=
  let ch := e.channels i
  tuDmaDescDestroy e ch.head ++
    (if ch.active.isSome ∧ ch.active ≠ ch.head then tuDmaDescDestroy e ch.active else [])

def tuDmaDestroy (e : TuDmaEngine) : List TuDmaRelease :=
  (List.range e.cfg.numChannels).flatMap (tuDmaDestroyChannel e)

/-! ### Runs -/

/-- The calls of a run.  A submission brings a chain of fresh descriptors. -/
inductive TuDmaOp where
  | submit (chain : List TuDmaDescriptor)
  | tick
  | flush (channel : UInt8)

/-- Build a chain and submit it. -/
def submitChain (e : TuDmaEngine) (descs : List TuDmaDescriptor) : TuDmaEngine × UInt32 :=
  let c := newChain e descs
  tuDmaSubmitDesc c.1 c.2

namespace TuDmaEngine

def step (e : TuDmaEngine) : TuDmaOp → TuDmaEngine
  | .submit chain => (submitChain e chain).1
  | .tick => (tuDmaTick e).1
  | .flush channel => tuDmaFlushChannel e channel

/-- The state after a run from a fresh engine. -/
def run (cfg : TuDmaConfig) (mem : Memory) (ops : List TuDmaOp) : TuDmaEngine :=
  Run.exec step (fresh cfg mem) ops

end TuDmaEngine

end Tusim
