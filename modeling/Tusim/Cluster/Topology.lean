import Tusim.Lib.Routes
import Tusim.SramAccess

/-!
# Cluster topologies

The interconnect of a cluster (`tu_cluster.c`): which cores are neighbours, how far two cores are apart, and the route
that a message is charged to.  Core numbers have 32 bits.  A division by a mesh of no columns stops the program; the
functions give `none` there.
-/

namespace Tusim.Cluster

open Word

inductive TuTopology
  | none
  | ring
  | mesh
  deriving DecidableEq, Repr

/-- `TU_ICC_MESH_ROUTE_XY` -/
def tuIccMeshRouteXy : Int := 0

/-- `TU_ICC_MESH_ROUTE_YX` -/
def tuIccMeshRouteYx : Int := 1

/-- `UINT32_MAX` -/
def uint32Max : Nat := 2 ^ 32 - 1

/-- The fields of `tu_cluster_t` that describe the interconnect. -/
structure TuCluster where
  numCores : Nat
  topology : TuTopology
  meshRows : Nat := 0
  meshCols : Nat := 0
  meshRoutingMode : Int
  deriving DecidableEq, Repr

/-- `tu_cluster_create`; the cores can be created. -/
def tuClusterCreate (numCores : UInt32) (topology : TuTopology) (meshRows : UInt32) (meshRoutingMode : Int) :
    Option TuCluster :=
  if numCores = 0 ∨ numCores > 256 then none
  else if topology = .mesh ∧ meshRows = 0 then none
  else
    some
      { numCores := numCores.toNat
        topology := topology
        meshRows := if topology = .mesh then meshRows.toNat else 0
        meshCols := if topology = .mesh then ((numCores + meshRows - 1) / meshRows).toNat else 0
        meshRoutingMode := meshRoutingMode }

variable (c : TuCluster)

/-- `tu_abs_diff` -/
def tuAbsDiff (a b : Nat) : Nat := if a > b then a - b else b - a

theorem tuAbsDiff_eq (a b : Nat) : tuAbsDiff a b = (a - b) + (b - a) := by
  unfold tuAbsDiff
  split <;> omega

/-- `tu_cluster_hop_distance` -/
def tuClusterHopDistance (src dst : Nat) : Option Nat :=
  if src ≥ c.numCores ∨ dst ≥ c.numCores then some uint32Max
  else if src = dst then some 0
  else
    match c.topology with
    | .none => some uint32Max
    | .ring =>
      let forward := (dst + c.numCores - src) % c.numCores
      let backward := (src + c.numCores - dst) % c.numCores
      some (if forward < backward then forward else backward)
    | .mesh =>
      if c.meshCols = 0 then none
      else
        let srcRow := src / c.meshCols
        let srcCol := src % c.meshCols
        let dstRow := dst / c.meshCols
        let dstCol := dst % c.meshCols
        if srcRow ≥ c.meshRows ∨ dstRow ≥ c.meshRows then some uint32Max
        else some (tuAbsDiff srcRow dstRow + tuAbsDiff srcCol dstCol)

/-- `tu_cluster_neighbors`: the first `num_neighbors` entries. -/
def tuClusterNeighbors (coreId : Nat) : Option (List Nat) :=
  if coreId ≥ c.numCores then some []
  else
    match c.topology with
    | .none => some []
    | .ring =>
      let prev := (coreId + c.numCores - 1) % c.numCores
      let next := (coreId + 1) % c.numCores
      some ([prev, next].filter (· ≠ coreId))
    | .mesh =>
      if c.meshCols = 0 then none
      else
        let row := coreId / c.meshCols
        let col := coreId % c.meshCols
        let north := if row > 0 then [coreId - c.meshCols] else []
        let s := coreId + c.meshCols
        let south := if row + 1 < c.meshRows ∧ s < c.numCores then [s] else []
        let west := if col > 0 then [coreId - 1] else []
        let e := coreId + 1
        let east := if col + 1 < c.meshCols ∧ e < c.numCores ∧ e / c.meshCols = row then [e] else []
        some (north ++ south ++ west ++ east)

/-- `add_link_service`: 64-bit services, one for each ordered pair of cores. -/
def addLinkService (links : Nat → Nat) (src dst service : Nat) : Nat → Nat :=
  Function.update links (src * c.numCores + dst) (u64 (links (src * c.numCores + dst) + service))

/-- A loop that goes on to `next cur` until `done cur`, charging every link; `.error` where the source returns `-1`. -/
def walk (service : Nat) (done : Nat → Bool) (next : Nat → Option Nat) :
    Nat → Nat → (Nat → Nat) → Option (Except (Nat → Nat) (Nat × (Nat → Nat)))
  | 0, _, _ => none
  | n + 1, cur, links =>
    if done cur then some (.ok (cur, links))
    else
      match next cur with
      | none => some (.error links)
      | some nxt => walk service done next n nxt (addLinkService c links cur nxt service)

/-- The next core along a row. -/
def nextInRow (dstCol cur : Nat) : Option Nat :=
  let next := if cur % c.meshCols < dstCol then u32 (cur + 1) else u32 (cur + 2 ^ 32 - 1)
  if next ≥ c.numCores ∨ next / c.meshCols ≠ cur / c.meshCols then none else some next

/-- The next core along a column. -/
def nextInColumn (dstRow cur : Nat) : Option Nat :=
  let next := if cur / c.meshCols < dstRow then u32 (cur + c.meshCols) else u32 (cur + 2 ^ 32 - c.meshCols)
  if next ≥ c.numCores then none else some next

/-- `add_route_service`: what it returns and the services it leaves; `fuel` bounds the tests of each loop. -/
def addRouteService (fuel src dst service : Nat) (links : Nat → Nat) : Option (Int × (Nat → Nat)) :=
  match c.topology with
  | .ring =>
    let forward := (dst + c.numCores - src) % c.numCores
    let backward := (src + c.numCores - dst) % c.numCores
    let clockwise := forward ≤ backward
    (walk c service (· = dst)
      (fun cur => some (if clockwise then (cur + 1) % c.numCores else (cur + c.numCores - 1) % c.numCores))
      fuel src links).map fun
        | .ok (_, links) => (0, links)
        | .error links => (-1, links)
  | .mesh =>
    if c.meshCols = 0 then none
    else
      let cols := c.meshCols
      let dstRow := dst / cols
      let dstCol := dst % cols
      let xFirst := c.meshRoutingMode = tuIccMeshRouteXy
      if ¬ xFirst ∧ c.meshRoutingMode ≠ tuIccMeshRouteYx then some (-1, links)
      else
        let routeX := walk c service (· % cols = dstCol) (nextInRow c dstCol) fuel
        let routeY := walk c service (· / cols = dstRow) (nextInColumn c dstRow) fuel
        let first := if xFirst then routeX else routeY
        let second := if xFirst then routeY else routeX
        (first src links).bind fun
          | .error links => some (-1, links)
          | .ok (cur, links) => (second cur links).map fun
            | .ok (_, links) => (0, links)
            | .error links => (-1, links)
  | .none => some (if src = dst then 0 else -1, links)

end Tusim.Cluster

/-!
### Messages between cores

`tu_cluster_send` and `tu_cluster_broadcast`: the bytes move from the output scratchpad of one core to that of another.
A message that is not delivered leaves the cluster as it was; a broadcast stops at the first message that is not
delivered.
-/

namespace Tusim.Cluster

open Blocks Word Sram

/-- `TU_ICC_SWITCH_LEGACY_HOP_ONLY` -/
def tuIccSwitchLegacyHopOnly : Int := 0

/-- `TU_ICC_SWITCH_CUT_THROUGH` -/
def tuIccSwitchCutThrough : Int := 1

/-- `TU_ICC_SWITCH_STORE_FORWARD` -/
def tuIccSwitchStoreForward : Int := 2

/-- `UINT64_MAX` -/
def uint64Max : Nat := 2 ^ 64 - 1

/-- What a cluster uses of `tu_core_t`. -/
structure TuCore where
  initialized : Bool
  sramO : TuCoreRegion
  estimatedCycles : Nat

structure TuClusterStats where
  totalIccMessages : Nat
  totalIccBytes : Nat
  totalIccCycles : Nat
  deriving DecidableEq, Repr

/-- `tu_cluster_t` -/
structure TuClusterState extends TuCluster where
  hopLatency : UInt32
  switchingMode : Int
  linkBytesPerCycle : UInt32
  cores : Nat → Option TuCore
  stats : TuClusterStats

/-- `tu_icc_message_t` -/
structure TuIccMessage where
  srcCoreId : UInt32
  dstCoreId : UInt32
  srcOffset : UInt32
  dstOffset : UInt32
  sizeBytes : UInt32
  deriving DecidableEq, Repr

variable (s : TuClusterState)

/-- `tu_cluster_estimate_transfer_cycles` -/
def tuClusterEstimateTransferCycles (src dst sizeBytes : Nat) : Option Nat :=
  (tuClusterHopDistance s.toTuCluster src dst).map fun hops =>
    if hops = uint32Max then uint64Max
    else if hops = 0 ∨ sizeBytes = 0 then 0
    else
      let routeCycles := u64 (hops * s.hopLatency.toNat)
      if s.switchingMode = tuIccSwitchLegacyHopOnly then routeCycles
      else if s.linkBytesPerCycle = 0 then uint64Max
      else
        let serialization := (sizeBytes + s.linkBytesPerCycle.toNat - 1) / s.linkBytesPerCycle.toNat
        if s.switchingMode = tuIccSwitchCutThrough then u64 (routeCycles + serialization)
        else if s.switchingMode = tuIccSwitchStoreForward then u64 (hops * (s.hopLatency.toNat + serialization))
        else uint64Max

/-- The cluster with another core. -/
def TuClusterState.setCore (id : Nat) (core : TuCore) : TuClusterState :=
  { s with cores := Function.update s.cores id (some core) }

/-- `tu_cluster_send`: what it returns and the cluster afterwards; `garbage` is what the new buffer holds. -/
def tuClusterSend (garbage : Nat → UInt8) (msg : TuIccMessage) : Option (Int × TuClusterState) :=
  let src := msg.srcCoreId.toNat
  let dst := msg.dstCoreId.toNat
  if src ≥ s.numCores ∨ dst ≥ s.numCores then some (-1, s)
  else if msg.sizeBytes = 0 then some (0, s)
  else
    match s.cores src, s.cores dst with
    | some srcCore, some dstCore =>
      if ¬ srcCore.initialized ∨ ¬ dstCore.initialized then some (-1, s)
      else if msg.srcOffset + msg.sizeBytes > srcCore.sramO.totalSize then some (-1, s)
      else if msg.dstOffset + msg.sizeBytes > dstCore.sramO.totalSize then some (-1, s)
      else
        (tuClusterEstimateTransferCycles s src dst msg.sizeBytes.toNat).map fun latency =>
          if latency = uint64Max then (-1, s)
          else
            let (srcSram, tmp, _) := Sram.tuSramReadBulk srcCore.sramO msg.srcOffset.toNat garbage msg.sizeBytes.toNat
            -- the two cores may be one
            let dstSram := if src = dst then srcSram else dstCore.sramO
            let (dstSram, _) := Sram.tuSramWriteBulk dstSram msg.dstOffset.toNat tmp msg.sizeBytes.toNat
            let moved := (s.setCore src { srcCore with sramO := srcSram }).setCore dst
              { dstCore with sramO := dstSram, estimatedCycles := u64 (dstCore.estimatedCycles + latency) }
            (0,
              { moved with
                stats :=
                  { totalIccMessages := u64 (s.stats.totalIccMessages + 1)
                    totalIccBytes := u64 (s.stats.totalIccBytes + msg.sizeBytes.toNat)
                    totalIccCycles := u64 (s.stats.totalIccCycles + latency) } })
    | _, _ => some (-1, s)

/-- The loop of `tu_cluster_broadcast` over the remaining destinations. -/
def broadcastLoop (garbage : Nat → UInt8) (src : UInt32) (srcOffset dstOffset sizeBytes : UInt32) :
    List Nat → TuClusterState → Option (Int × TuClusterState)
  | [], s => some (0, s)
  | dst :: rest, s =>
    if dst = src.toNat then broadcastLoop garbage src srcOffset dstOffset sizeBytes rest s
    else
      (tuClusterSend s garbage ⟨src, UInt32.ofNat dst, srcOffset, dstOffset, sizeBytes⟩).bind fun (rc, s) =>
        if rc ≠ 0 then some (rc, s) else broadcastLoop garbage src srcOffset dstOffset sizeBytes rest s

/-- `tu_cluster_broadcast` -/
def tuClusterBroadcast (garbage : Nat → UInt8) (src : UInt32) (srcOffset dstOffset sizeBytes : UInt32) :
    Option (Int × TuClusterState) :=
  if src.toNat ≥ s.numCores then some (-1, s)
  else if sizeBytes = 0 then some (0, s)
  else broadcastLoop garbage src srcOffset dstOffset sizeBytes (List.range s.numCores) s

/-! ### What a message needs and what it does -/

/-- The span lies inside the output scratchpad of an initialised core. -/
def SpanInside (id offset size : Nat) : Prop :=
  id < s.numCores ∧ ∃ core, s.cores id = some core ∧ core.initialized = true ∧ offset + size ≤ core.sramO.totalSize.toNat

/-- The interconnect has a way from one core to the other. -/
def HasWay (src dst size : Nat) : Prop :=
  ∃ latency, tuClusterEstimateTransferCycles s src dst size = some latency ∧ latency ≠ uint64Max

/-- Both spans are inside and there is a way. -/
def Deliverable (src dst srcOffset dstOffset size : Nat) : Prop :=
  SpanInside s src srcOffset size ∧ SpanInside s dst dstOffset size ∧ HasWay s src dst size

/-- The bytes of a core from an offset on. -/
def bytesFrom (id offset : Nat) : Nat → UInt8 :=
  fun i => (s.cores id).elim 0 fun core => sramDataPtr core.sramO (offset + i)

/-- The core has received the bytes at its offset, if it is one of the receivers, and nothing else. -/
structure CoreReceived (received : Prop) (dstOffset : Nat) (bytes : Nat → UInt8) (size : Nat) (core core' : TuCore) :
    Prop where
  initialized : core'.initialized = core.initialized
  totalSize : core'.sramO.totalSize = core.sramO.totalSize
  idle : core'.sramO.idleData = core.sramO.idleData
  inside : received → sramDataPtr core'.sramO = memcpy (sramDataPtr core.sramO) dstOffset bytes size
  outside : ¬ received → sramDataPtr core'.sramO = sramDataPtr core.sramO

/-- The receivers have the bytes at their offset, no other byte has changed, and the messages are counted. -/
structure Received (receivers : List Nat) (dstOffset : Nat) (bytes : Nat → UInt8) (size : Nat)
    (s s' : TuClusterState) : Prop where
  cluster : s'.toTuCluster = s.toTuCluster
  hopLatency : s'.hopLatency = s.hopLatency
  switchingMode : s'.switchingMode = s.switchingMode
  linkBytesPerCycle : s'.linkBytesPerCycle = s.linkBytesPerCycle
  cores : ∀ id, Option.Rel (CoreReceived (id ∈ receivers) dstOffset bytes size) (s.cores id) (s'.cores id)
  messages : s'.stats.totalIccMessages % 2 ^ 64 = (s.stats.totalIccMessages + receivers.length) % 2 ^ 64
  totalBytes : s'.stats.totalIccBytes % 2 ^ 64 = (s.stats.totalIccBytes + receivers.length * size) % 2 ^ 64

end Tusim.Cluster
