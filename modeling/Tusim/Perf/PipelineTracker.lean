import Tusim.Compute.Dataflow
import Tusim.Lib.Rotation
import Tusim.Lib.Run

/-!
# The pipeline tracker

The tracker of in-flight tiles of the cycle model (`cycle_model.c`): a ring of entries, each with the registers that
its tile writes.  An issue compares the registers of the new tile with those of the active entries and asks for a stall
if some match; a completion retires the entry at the tail.  Cycles and totals have 64 bits.  The register list of an
entry has four places; an issue writes as many of them as its tile has registers and leaves the others as they were.

`TrackerRun` adds the history to the tracker: the tiles issued and the completions so far.
-/

namespace Tusim.Perf

open Word

/-- `m_start`, `m_count`, ... -/
structure TileShape where
  mStart : UInt16 := 0
  mCount : UInt16 := 0
  nStart : UInt16 := 0
  nCount : UInt16 := 0
  kStart : UInt16 := 0
  kCount : UInt16 := 0
  deriving DecidableEq, Repr

/-- The arguments of an issue; `num_src` and `num_dst` are the lengths of the lists. -/
structure PipelineTile where
  shape : TileShape := {}
  srcRegs : List UInt32
  dstRegs : List UInt32
  deriving DecidableEq, Repr

/-- `tu_pipeline_entry_t`; `number` is the number of the issue that filled the entry (not in the source). -/
structure TuPipelineEntry where
  issueCycle : Nat := 0
  completeCycle : Nat := 0
  stage : UInt16 := 0
  shape : TileShape := {}
  active : Bool := false
  regDeps : Nat → UInt32 := fun _ => 0
  regOutputs : Nat → UInt32 := fun _ => 0
  number : Nat := 0

structure TuPipelineTracker where
  entries : Nat → TuPipelineEntry
  numEntries : Nat
  head : Nat := 0
  tail : Nat := 0
  totalStallCycles : Nat := 0
  totalIssues : Nat := 0
  totalCompletions : Nat := 0

/-- `tu_cycle_pipeline_init` -/
def tuCyclePipelineInit (maxInFlight : UInt32) : TuPipelineTracker where
  entries _ := {}
  numEntries := if maxInFlight > 0 then maxInFlight.toNat else tuPePipelineDepth

/-- The stall until `ent` completes, as both loops compute it. -/
def TuPipelineEntry.remaining (ent : TuPipelineEntry) (currentCycle : Nat) : Nat :=
  if ent.completeCycle > currentCycle then ent.completeCycle - currentCycle
  else if ent.completeCycle = 0 then tuPePipelineDepth * 16 + 64
  else 0

/-- The body of the loops over registers: a match asks for the stall until `ent` completes. -/
def checkHazard (ent : TuPipelineEntry) (currentCycle : Nat) (reg output : UInt32) (stall : Nat) : Nat :=
  if reg = output ∧ reg ≠ 0 then max stall (ent.remaining currentCycle) else stall

/-- The loop for read-after-write hazards. -/
def rawStall (pt : TuPipelineTracker) (tile : PipelineTile) (currentCycle stall : Nat) : Nat :=
  (List.range pt.numEntries).foldl (fun stall i =>
    let ent := pt.entries i
    if ent.active then
      (List.range (min tile.srcRegs.length 4)).foldl (fun stall s =>
        (List.range (min tile.dstRegs.length 4)).foldl (fun stall d =>
          checkHazard ent currentCycle (tile.srcRegs.getD s 0) (ent.regOutputs d) stall) stall) stall
    else stall) stall

/-- The loop for write-after-write hazards. -/
def wawStall (pt : TuPipelineTracker) (tile : PipelineTile) (currentCycle stall : Nat) : Nat :=
  (List.range pt.numEntries).foldl (fun stall i =>
    let ent := pt.entries i
    if ent.active then
      (List.range (min tile.dstRegs.length 4)).foldl (fun stall d1 =>
        (List.range 4).foldl (fun stall d2 =>
          checkHazard ent currentCycle (tile.dstRegs.getD d1 0) (ent.regOutputs d2) stall) stall) stall
    else stall) stall

/-- `tu_cycle_pipeline_issue`; `number` is for the entry (not in the source). -/
def tuCyclePipelineIssue (pt : TuPipelineTracker) (tile : PipelineTile) (currentCycle number : Nat) :
    TuPipelineTracker × Nat :=
  let stall := wawStall pt tile currentCycle (rawStall pt tile currentCycle 0)
  let old := pt.entries pt.head
  let ent : TuPipelineEntry :=
    { issueCycle := u64 (currentCycle + stall)
      completeCycle := 0
      stage := 0
      shape := tile.shape
      active := true
      regDeps := fun i => if i < min tile.srcRegs.length 4 then tile.srcRegs.getD i 0 else old.regDeps i
      regOutputs := fun i => if i < min tile.dstRegs.length 4 then tile.dstRegs.getD i 0 else old.regOutputs i
      number := number }
  ({ pt with
      entries := Function.update pt.entries pt.head ent
      head := (pt.head + 1) % pt.numEntries
      totalIssues := u64 (pt.totalIssues + 1)
      totalStallCycles := u64 (pt.totalStallCycles + stall) }, stall)

/-- `tu_cycle_pipeline_complete` -/
def tuCyclePipelineComplete (pt : TuPipelineTracker) (currentCycle : Nat) : TuPipelineTracker × Nat :=
  let ent := pt.entries pt.tail
  if !ent.active then (pt, 0)
  else
    ({ pt with
        entries := Function.update pt.entries pt.tail { ent with completeCycle := currentCycle, active := false }
        tail := (pt.tail + 1) % pt.numEntries
        totalCompletions := u64 (pt.totalCompletions + 1) }, u64 (currentCycle + 2 ^ 64 - ent.issueCycle))

/-- The number of active entries. -/
def TuPipelineTracker.activeEntries (pt : TuPipelineTracker) : Nat :=
  ((Finset.range pt.numEntries).filter fun i => (pt.entries i).active).card

/-! ### Runs -/

/-- A tile and the cycle it was issued in. -/
structure IssuedTile where
  tile : PipelineTile
  issueCycle : Nat
  deriving DecidableEq, Repr

/-- A successful completion: the number of the tile it retired, its cycle and what it returned. -/
structure Retirement where
  number : Nat
  cycle : Nat
  elapsed : Nat
  deriving DecidableEq, Repr

/-- A tracker with its history. -/
structure TrackerRun where
  pt : TuPipelineTracker
  issued : List IssuedTile := []
  retired : List Retirement := []

inductive TrackerCall
  | issue (tile : PipelineTile) (currentCycle : UInt64)
  | complete (currentCycle : UInt64)
  deriving DecidableEq

namespace TrackerRun

def init (maxInFlight : UInt32) : TrackerRun where
  pt := tuCyclePipelineInit maxInFlight

/-- The stall an issue returns. -/
def stall (r : TrackerRun) (tile : PipelineTile) (currentCycle : UInt64) : Nat :=
  (tuCyclePipelineIssue r.pt tile currentCycle.toNat r.issued.length).2

def step (r : TrackerRun) : TrackerCall → TrackerRun
  | .issue tile now =>
    { r with
      pt := (tuCyclePipelineIssue r.pt tile now.toNat r.issued.length).1
      issued := r.issued ++ [{ tile := tile, issueCycle := u64 (now.toNat + r.stall tile now) }] }
  | .complete now =>
    let ent := r.pt.entries r.pt.tail
    let (pt, elapsed) := tuCyclePipelineComplete r.pt now.toNat
    if ent.active then
      { r with pt := pt, retired := r.retired ++ [{ number := ent.number, cycle := now.toNat, elapsed := elapsed }] }
    else { r with pt := pt }

/-- The tiles issued and not yet retired. -/
def inFlight (r : TrackerRun) : List IssuedTile := r.issued.drop r.retired.length

/-- The entry holds the tile of issue `j`. -/
structure Fills (u : IssuedTile) (j : Nat) (ent : TuPipelineEntry) : Prop where
  active : ent.active = true
  completeCycle : ent.completeCycle = 0
  issueCycle : ent.issueCycle = u.issueCycle
  number : ent.number = j
  outputs : ∀ d < min u.tile.dstRegs.length 4, ent.regOutputs d = u.tile.dstRegs.getD d 0

/-- The ring holds the tiles in flight, tile `j` in entry `j % numEntries`. -/
structure Tracks (r : TrackerRun) : Prop where
  pos : 0 < r.pt.numEntries
  head : r.pt.head = r.issued.length % r.pt.numEntries
  tail : r.pt.tail = r.retired.length % r.pt.numEntries
  retired_le : r.retired.length ≤ r.issued.length
  issued_le : r.issued.length ≤ r.retired.length + r.pt.numEntries
  fills : ∀ (j : Nat) (u : IssuedTile), r.retired.length ≤ j → r.issued[j]? = some u → Fills u j (r.pt.entries (j % r.pt.numEntries))
  active : ∀ k < r.pt.numEntries, (r.pt.entries k).active = true →
    k ∈ RingWindow.slots r.pt.numEntries r.retired.length r.issued.length
  totals : r.pt.totalIssues = u64 (r.pt.totalCompletions + (r.issued.length - r.retired.length))
  order : ∀ (j : Nat) (e : Retirement), r.retired[j]? = some e → e.number = j ∧
    ∃ u : IssuedTile, r.issued[j]? = some u ∧ e.elapsed = u64 (e.cycle + 2 ^ 64 - u.issueCycle)

variable {r : TrackerRun}

theorem init_tracks (maxInFlight : UInt32) : (init maxInFlight).Tracks where
  pos := by
    unfold init tuCyclePipelineInit
    dsimp only
    split
    · rename_i h
      exact UInt32.lt_iff_toNat_lt.1 h
    · decide
  head := (Nat.zero_mod _).symm
  tail := (Nat.zero_mod _).symm
  retired_le := Nat.le_refl _
  issued_le := Nat.zero_le _
  fills := fun _ _ _ h => by cases h
  active := fun _ _ h => by cases h
  totals := rfl
  order := fun _ _ h => by cases h

namespace Tracks

/-- The entries in use are those of the tiles in flight. -/
theorem active_iff (h : r.Tracks) {k : Nat} (hk : k < r.pt.numEntries) :
    (r.pt.entries k).active = true ↔ k ∈ RingWindow.slots r.pt.numEntries r.retired.length r.issued.length := by
  refine ⟨h.active k hk, ?_⟩
  intro hmem
  obtain ⟨j, hj, hlt, rfl⟩ := RingWindow.mem_slots.1 hmem
  exact (h.fills j _ hj (List.getElem?_eq_getElem hlt)).active

theorem activeEntries_eq (h : r.Tracks) : r.pt.activeEntries = r.issued.length - r.retired.length := by
  rw [← RingWindow.card_slots h.issued_le]
  unfold TuPipelineTracker.activeEntries
  congr 1
  ext k
  rw [Finset.mem_filter, Finset.mem_range]
  constructor
  · rintro ⟨hk, hactive⟩
    exact h.active k hk hactive
  · intro hmem
    have hk : k < r.pt.numEntries := by
      obtain ⟨j, -, -, rfl⟩ := RingWindow.mem_slots.1 hmem
      exact Nat.mod_lt j h.pos
    exact ⟨hk, (h.active_iff hk).2 hmem⟩

/-- An issue into a ring with a free entry. -/
theorem issue (h : r.Tracks) (tile : PipelineTile) (now : UInt64)
    (hfree : r.issued.length < r.retired.length + r.pt.numEntries) : (r.step (.issue tile now)).Tracks := by
  have hlen : (r.issued ++ [IssuedTile.mk tile (u64 (now.toNat + r.stall tile now))]).length = r.issued.length + 1 := by
    simp
  have hnew : r.issued.length % r.pt.numEntries ∉
      RingWindow.slots r.pt.numEntries r.retired.length r.issued.length := RingWindow.next_free h.retired_le hfree
  have hle := h.retired_le
  constructor
  · exact h.pos
  · show (r.pt.head + 1) % r.pt.numEntries = (r.issued ++ [_]).length % r.pt.numEntries
    rw [hlen, h.head, Nat.mod_add_mod]
  · exact h.tail
  · show r.retired.length ≤ (r.issued ++ [_]).length
    omega
  · show (r.issued ++ [_]).length ≤ r.retired.length + r.pt.numEntries
    omega
  · intro j u hj hu
    show Fills u j (Function.update r.pt.entries r.pt.head _ (j % r.pt.numEntries))
    have hu : (r.issued ++ [IssuedTile.mk tile (u64 (now.toNat + r.stall tile now))])[j]? = some u := hu
    rw [h.head]
    rcases Nat.lt_or_ge j r.issued.length with hlt | hge
    · rw [List.getElem?_append_left hlt] at hu
      have hne : j % r.pt.numEntries ≠ r.issued.length % r.pt.numEntries := by
        intro heq
        exact hnew (RingWindow.mem_slots.2 ⟨j, hj, hlt, heq⟩)
      rw [Function.update_of_ne hne]
      exact h.fills j u hj hu
    · have hj' : j = r.issued.length := by
        have := (List.getElem?_eq_some_iff.1 hu).1
        omega
      subst hj'
      rw [List.getElem?_concat_length, Option.some.injEq] at hu
      subst hu
      rw [Function.update_self]
      exact { active := rfl, completeCycle := rfl, issueCycle := rfl, number := rfl, outputs := fun d hd => if_pos hd }
  · intro k hk hactive
    have hactive : (Function.update r.pt.entries r.pt.head _ k).active = true := hactive
    show k ∈ RingWindow.slots r.pt.numEntries r.retired.length (r.issued ++ [_]).length
    rw [hlen, RingWindow.mem_slots]
    rw [h.head] at hactive
    by_cases hkhead : k = r.issued.length % r.pt.numEntries
    · exact ⟨r.issued.length, hle, Nat.lt_succ_self _, hkhead.symm⟩
    · rw [Function.update_of_ne hkhead] at hactive
      obtain ⟨j, hj, hlt, rfl⟩ := RingWindow.mem_slots.1 (h.active k hk hactive)
      exact ⟨j, hj, by omega, rfl⟩
  · show u64 (r.pt.totalIssues + 1) = u64 (r.pt.totalCompletions + ((r.issued ++ [_]).length - r.retired.length))
    have htotals := h.totals
    rw [hlen]
    unfold u64 at htotals ⊢
    omega
  · intro j e he
    obtain ⟨hnumber, u, hu, helapsed⟩ := h.order j e he
    refine ⟨hnumber, u, ?_, helapsed⟩
    show (r.issued ++ [_])[j]? = some u
    rw [List.getElem?_append_left (List.getElem?_eq_some_iff.1 hu).1, hu]

/-- A completion retires the oldest tile in flight, or does nothing when there is none. -/
theorem complete_cases (h : r.Tracks) (now : UInt64) :
    (r.issued.length = r.retired.length ∧ r.step (.complete now) = r) ∨
      ∃ u, r.issued[r.retired.length]? = some u ∧
        Fills u r.retired.length (r.pt.entries (r.retired.length % r.pt.numEntries)) ∧
        r.step (.complete now) =
          { r with
            pt := (tuCyclePipelineComplete r.pt now.toNat).1
            retired := r.retired ++ [{ number := r.retired.length, cycle := now.toNat
                                       elapsed := u64 (now.toNat + 2 ^ 64 - u.issueCycle) }] } := by
  have hk : r.retired.length % r.pt.numEntries < r.pt.numEntries := Nat.mod_lt _ h.pos
  rcases Nat.lt_or_ge r.retired.length r.issued.length with hlt | hge
  · right
    have hu : r.issued[r.retired.length]? = some r.issued[r.retired.length] := List.getElem?_eq_getElem hlt
    have hfills := h.fills _ _ (Nat.le_refl _) hu
    refine ⟨_, hu, hfills, ?_⟩
    unfold step tuCyclePipelineComplete
    dsimp only
    rw [h.tail, hfills.active, Bool.not_true, if_pos rfl, if_neg (by decide), hfills.number, hfills.issueCycle]
  · left
    have heq : r.issued.length = r.retired.length := Nat.le_antisymm hge h.retired_le
    refine ⟨heq, ?_⟩
    have hidle : (r.pt.entries r.pt.tail).active = false := by
      rw [h.tail, Bool.eq_false_iff]
      intro hactive
      obtain ⟨j, hj, hlt, -⟩ := RingWindow.mem_slots.1 (h.active _ hk hactive)
      omega
    unfold step tuCyclePipelineComplete
    dsimp only
    rw [hidle]
    rfl

theorem complete (h : r.Tracks) (now : UInt64) : (r.step (.complete now)).Tracks := by
  rcases h.complete_cases now with ⟨-, hsame⟩ | ⟨u, hu, hfills, hstep⟩
  · rw [hsame]
    exact h
  · have hlt : r.retired.length < r.issued.length := (List.getElem?_eq_some_iff.1 hu).1
    have hbound := h.issued_le
    have hpt : (tuCyclePipelineComplete r.pt now.toNat).1 = { r.pt with
        entries := Function.update r.pt.entries (r.retired.length % r.pt.numEntries)
          { r.pt.entries (r.retired.length % r.pt.numEntries) with completeCycle := now.toNat, active := false }
        tail := (r.pt.tail + 1) % r.pt.numEntries
        totalCompletions := u64 (r.pt.totalCompletions + 1) } := by
      unfold tuCyclePipelineComplete
      dsimp only
      rw [h.tail, hfills.active]
      rfl
    rw [hstep, hpt]
    constructor <;> dsimp only
    · exact h.pos
    · exact h.head
    · rw [h.tail, Nat.mod_add_mod, List.length_append, List.length_singleton]
    · rw [List.length_append, List.length_singleton]
      exact hlt
    · rw [List.length_append, List.length_singleton]
      omega
    · intro j u' hj hu'
      rw [List.length_append, List.length_singleton] at hj
      have hjlt : j < r.issued.length := (List.getElem?_eq_some_iff.1 hu').1
      have hne : j % r.pt.numEntries ≠ r.retired.length % r.pt.numEntries := by
        intro heq
        have := RingWindow.mod_inj hbound (by omega) hjlt (Nat.le_refl _) hlt heq
        omega
      rw [Function.update_of_ne hne]
      exact h.fills j u' (by omega) hu'
    · intro k hk hactive
      rw [List.length_append, List.length_singleton, RingWindow.mem_slots]
      by_cases hktail : k = r.retired.length % r.pt.numEntries
      · rw [hktail, Function.update_self] at hactive
        cases hactive
      · rw [Function.update_of_ne hktail] at hactive
        obtain ⟨j, hj, hjlt, rfl⟩ := RingWindow.mem_slots.1 (h.active k hk hactive)
        have hne : j ≠ r.retired.length := fun heq => hktail (heq ▸ rfl)
        exact ⟨j, by omega, hjlt, rfl⟩
    · have htotals := h.totals
      rw [List.length_append, List.length_singleton]
      unfold u64 at htotals ⊢
      omega
    · intro j e he
      rcases Nat.lt_or_ge j r.retired.length with hjlt | hjge
      · rw [List.getElem?_append_left hjlt] at he
        exact h.order j e he
      · have hj : j = r.retired.length := by
          have := (List.getElem?_eq_some_iff.1 he).1
          rw [List.length_append, List.length_singleton] at this
          omega
        subst hj
        rw [List.getElem?_concat_length, Option.some.injEq] at he
        subst he
        exact ⟨rfl, u, hu, rfl⟩

end Tracks

end TrackerRun

end Tusim.Perf

/-!
### Tiles in flight

An issue does not look whether the entry at the head is free.  As long as it is, the totals account for every tile and
the completions retire the tiles in the order of their issues; an issue into a full ring forgets the oldest tile, and the
totals show it (`accounted_iff_room`).
-/

namespace Tusim.Perf

open Word

namespace TrackerRun

/-- The totals account for every tile, and the `n`-th completion retires the `n`-th tile. -/
structure Accounted (r : TrackerRun) : Prop where
  totals : r.pt.totalIssues = u64 (r.pt.totalCompletions + r.pt.activeEntries)
  order : ∀ (j : Nat) (e : Retirement), r.retired[j]? = some e → e.number = j ∧
    ∃ u : IssuedTile, r.issued[j]? = some u ∧ e.elapsed = u64 (e.cycle + 2 ^ 64 - u.issueCycle)

instance (r : TrackerRun) : Decidable r.Accounted :=
  decidable_of_iff (r.pt.totalIssues = u64 (r.pt.totalCompletions + r.pt.activeEntries) ∧
      ∀ j < r.retired.length, ∀ e ∈ r.retired[j]?, e.number = j ∧
        ∃ u ∈ r.issued[j]?, e.elapsed = u64 (e.cycle + 2 ^ 64 - u.issueCycle)) <| by
    constructor
    · rintro ⟨htotals, horder⟩
      exact ⟨htotals, fun j e he => horder j (List.getElem?_eq_some_iff.1 he).1 e he⟩
    · rintro ⟨htotals, horder⟩
      exact ⟨htotals, fun j _ e he => horder j e he⟩

/-- Fewer tiles are active than there are entries, when one is issued. -/
def HasRoom (r : TrackerRun) : TrackerCall → Prop
  | .issue _ _ => r.pt.activeEntries < r.pt.numEntries
  | .complete _ => True

namespace Tracks

variable {r : TrackerRun}

theorem accounted (h : r.Tracks) : r.Accounted where
  totals := by
    rw [h.activeEntries_eq]
    exact h.totals
  order := h.order

theorem step (h : r.Tracks) {call : TrackerCall} (hroom : r.HasRoom call) : (r.step call).Tracks := by
  cases call with
  | issue tile now =>
    have hroom : r.pt.activeEntries < r.pt.numEntries := hroom
    have hle := h.retired_le
    rw [h.activeEntries_eq] at hroom
    exact h.issue tile now (by omega)
  | complete now => exact h.complete now

/-- An issue into a full ring takes the entry of a tile that is still active. -/
theorem forgets (h : r.Tracks) {call : TrackerCall} (hfull : ¬ r.HasRoom call) : ¬ (r.step call).Accounted := by
  cases call with
  | complete now => exact absurd trivial hfull
  | issue tile now =>
    have hfull : ¬ r.pt.activeEntries < r.pt.numEntries := hfull
    have hle := h.retired_le
    have hbound := h.issued_le
    have heq := h.activeEntries_eq
    have hall : r.issued.length = r.retired.length + r.pt.numEntries := by omega
    have hhead : (r.pt.entries r.pt.head).active = true := by
      have hlt : r.issued.length % r.pt.numEntries < r.pt.numEntries := Nat.mod_lt _ h.pos
      rw [h.head, h.active_iff hlt]
      exact RingWindow.full h.pos hall hlt
    have hactive : (r.step (.issue tile now)).pt.activeEntries = r.pt.activeEntries := by
      show ((Finset.range r.pt.numEntries).filter fun i => (Function.update r.pt.entries r.pt.head _ i).active = true).card =
        ((Finset.range r.pt.numEntries).filter fun i => (r.pt.entries i).active = true).card
      congr 1
      apply Finset.filter_congr
      intro i _
      by_cases hi : i = r.pt.head
      · rw [hi, Function.update_self, hhead]
      · rw [Function.update_of_ne hi]
    intro hacc
    have htotals := hacc.totals
    rw [hactive] at htotals
    have hnext : u64 (r.pt.totalIssues + 1) = u64 (r.pt.totalCompletions + r.pt.activeEntries) := htotals
    have hbefore := h.accounted.totals
    unfold u64 at hnext hbefore
    omega

end Tracks

/-- In a run no tile is ever forgotten exactly if every issue finds fewer tiles active than there are entries. -/
theorem accounted_iff_room (maxInFlight : UInt32) (calls : List TrackerCall) :
    (∀ k, (Run.exec step (init maxInFlight) (calls.take k)).Accounted) ↔
      Run.Along HasRoom step (init maxInFlight) calls :=
  Run.forall_take_iff_along (I := Tracks) (P := Accounted) (fun _ h => h.accounted) (fun _ _ h hroom => h.step hroom)
    (fun _ _ h hfull => h.forgets hfull) (init_tracks maxInFlight) calls

/-- Two issues into a ring of one entry: one tile is active, and none was retired. -/
theorem burst_not_accounted :
    ¬ (Run.exec step (init 1)
      [.issue { srcRegs := [1], dstRegs := [2] } 0, .issue { srcRegs := [3], dstRegs := [4] } 1]).Accounted := by
  decide +kernel

end TrackerRun

end Tusim.Perf
