import Tusim.Perf.PipelineTracker

/-!
# Hazards

An issue stalls if a register of the new tile is in the register list of an active entry: a destination register at any
place, a source register only at one of the first `num_dst` places, where `num_dst` is that of the new tile (`stall_pos`).
Registers that an earlier tile left in an entry count as well.  So the stalls are those for the hazards among the tiles
in flight exactly if some hazard is seen anyway, or left-over registers are used just when an output further back is read
(`detected_iff_exact`).
-/

namespace Tusim.Perf

/-- A fold that can only raise a number raises it from zero when one of its steps does. -/
theorem foldl_pos {A : Type} {f : Nat → A → Nat} {P : A → Prop} {l : List A}
    (h : ∀ a ∈ l, ∀ s, 0 < f s a ↔ 0 < s ∨ P a) (s : Nat) : 0 < l.foldl f s ↔ 0 < s ∨ ∃ a ∈ l, P a := by
  induction l generalizing s with
  | nil => simp
  | cons a l ih =>
    rw [List.foldl_cons, ih (fun b hb => h b (List.mem_cons_of_mem a hb)), h a List.mem_cons_self]
    simp [or_assoc]

/-- The tile uses `reg` in a way that the loops compare with place `d` of an entry. -/
def PipelineTile.ComparesAt (tile : PipelineTile) (d : Nat) (reg : UInt32) : Prop :=
  reg ≠ 0 ∧ (reg ∈ tile.dstRegs ∨ reg ∈ tile.srcRegs ∧ d < tile.dstRegs.length)

instance (tile : PipelineTile) (d : Nat) (reg : UInt32) : Decidable (tile.ComparesAt d reg) :=
  inferInstanceAs (Decidable (_ ∧ _))

section

variable {pt : TuPipelineTracker} {tile : PipelineTile} {now : Nat}

theorem checkHazard_pos {ent : TuPipelineEntry} (h : ent.completeCycle = 0) (reg output : UInt32) (stall : Nat) :
    0 < checkHazard ent now reg output stall ↔ 0 < stall ∨ (reg = output ∧ reg ≠ 0) := by
  have hremaining : 0 < ent.remaining now := by
    unfold TuPipelineEntry.remaining
    rw [h, if_neg (by omega), if_pos rfl]
    decide
  unfold checkHazard
  by_cases hmatch : reg = output ∧ reg ≠ 0
  · rw [if_pos hmatch]
    exact iff_of_true (lt_max_of_lt_right hremaining) (Or.inr hmatch)
  · rw [if_neg hmatch, or_iff_left hmatch]

/-- The registers of a list that a loop over its places meets. -/
theorem exists_place {regs : List UInt32} (hlen : regs.length ≤ 4) {P : UInt32 → Prop} :
    (∃ s ∈ List.range (min regs.length 4), P (regs.getD s 0)) ↔ ∃ reg ∈ regs, P reg := by
  rw [Nat.min_eq_left hlen]
  constructor
  · rintro ⟨s, hs, hP⟩
    rw [List.mem_range] at hs
    rw [List.getD_eq_getElem?_getD, List.getElem?_eq_getElem hs, Option.getD_some] at hP
    exact ⟨_, List.getElem_mem hs, hP⟩
  · rintro ⟨reg, hreg, hP⟩
    obtain ⟨s, hs, rfl⟩ := List.getElem_of_mem hreg
    refine ⟨s, List.mem_range.2 hs, ?_⟩
    rwa [List.getD_eq_getElem?_getD, List.getElem?_eq_getElem hs, Option.getD_some]

/-- The comparisons of the registers `regs` with the first `b` places of an entry. -/
theorem entryLoop_pos {ent : TuPipelineEntry} (h : ent.completeCycle = 0) {regs : List UInt32} (hlen : regs.length ≤ 4)
    (b stall : Nat) :
    0 < (List.range (min regs.length 4)).foldl (fun stall i => (List.range b).foldl (fun stall d =>
        checkHazard ent now (regs.getD i 0) (ent.regOutputs d) stall) stall) stall ↔
      0 < stall ∨ ∃ reg ∈ regs, ∃ d ∈ List.range b, reg = ent.regOutputs d ∧ reg ≠ 0 := by
  have hinner : ∀ i ∈ List.range (min regs.length 4), ∀ stall, 0 < (List.range b).foldl (fun stall d =>
      checkHazard ent now (regs.getD i 0) (ent.regOutputs d) stall) stall ↔
        0 < stall ∨ ∃ d ∈ List.range b, regs.getD i 0 = ent.regOutputs d ∧ regs.getD i 0 ≠ 0 :=
    fun i _ stall => foldl_pos (fun d _ stall => checkHazard_pos h (regs.getD i 0) (ent.regOutputs d) stall) stall
  rw [foldl_pos hinner, exists_place (P := fun reg => ∃ d ∈ List.range b, reg = ent.regOutputs d ∧ reg ≠ 0) hlen]

/-- What the two loops find. -/
theorem wawStall_pos (hactive : ∀ k < pt.numEntries, (pt.entries k).active = true → (pt.entries k).completeCycle = 0)
    (hsrc : tile.srcRegs.length ≤ 4) (hdst : tile.dstRegs.length ≤ 4) :
    0 < wawStall pt tile now (rawStall pt tile now 0) ↔
      ∃ k < pt.numEntries, (pt.entries k).active = true ∧ ∃ d < 4, tile.ComparesAt d ((pt.entries k).regOutputs d) := by
  let Meets (regs : List UInt32) (b k : Nat) : Prop := (pt.entries k).active = true ∧
    ∃ reg ∈ regs, ∃ d ∈ List.range b, reg = (pt.entries k).regOutputs d ∧ reg ≠ 0
  have hloop : ∀ (regs : List UInt32) (b : Nat), regs.length ≤ 4 → ∀ k ∈ List.range pt.numEntries, ∀ stall,
      0 < (if (pt.entries k).active = true then (List.range (min regs.length 4)).foldl (fun stall i =>
          (List.range b).foldl (fun stall d =>
            checkHazard (pt.entries k) now (regs.getD i 0) ((pt.entries k).regOutputs d) stall) stall) stall
        else stall) ↔ 0 < stall ∨ Meets regs b k := by
    intro regs b hlen k hk stall
    by_cases ha : (pt.entries k).active = true
    · rw [if_pos ha, entryLoop_pos (hactive k (List.mem_range.1 hk) ha) hlen]
      exact or_congr_right (and_iff_right ha).symm
    · rw [if_neg ha, or_iff_left fun hmeets => ha hmeets.1]
  have hraw : 0 < rawStall pt tile now 0 ↔
      0 < 0 ∨ ∃ k ∈ List.range pt.numEntries, Meets tile.srcRegs (min tile.dstRegs.length 4) k :=
    foldl_pos (hloop tile.srcRegs (min tile.dstRegs.length 4) hsrc) 0
  have hwaw : ∀ stall, 0 < wawStall pt tile now stall ↔
      0 < stall ∨ ∃ k ∈ List.range pt.numEntries, Meets tile.dstRegs 4 k :=
    foldl_pos (hloop tile.dstRegs 4 hdst)
  rw [hwaw, hraw]
  constructor
  · rintro ((hzero | ⟨k, hk, ha, reg, hreg, d, hd, rfl, hne⟩) | ⟨k, hk, ha, reg, hreg, d, hd, rfl, hne⟩)
    · exact absurd hzero (Nat.lt_irrefl 0)
    · rw [List.mem_range] at hk hd
      exact ⟨k, hk, ha, d, by omega, hne, Or.inr ⟨hreg, by omega⟩⟩
    · rw [List.mem_range] at hk hd
      exact ⟨k, hk, ha, d, hd, hne, Or.inl hreg⟩
  · rintro ⟨k, hk, ha, d, hd, hne, hreg | ⟨hreg, hlt⟩⟩
    · exact Or.inr ⟨k, List.mem_range.2 hk, ha, _, hreg, d, List.mem_range.2 hd, rfl, hne⟩
    · exact Or.inl (Or.inr ⟨k, List.mem_range.2 hk, ha, _, hreg, d, List.mem_range.2 (by omega), rfl, hne⟩)

end

namespace TrackerRun

/-- A tile in flight writes a register that the new tile reads or writes. -/
def Hazard (r : TrackerRun) (tile : PipelineTile) : Prop :=
  ∃ u ∈ r.inFlight, ∃ reg ∈ u.tile.dstRegs, reg ≠ 0 ∧ (reg ∈ tile.srcRegs ∨ reg ∈ tile.dstRegs)

instance (r : TrackerRun) (tile : PipelineTile) : Decidable (r.Hazard tile) :=
  inferInstanceAs (Decidable (∃ _ ∈ _, ∃ _ ∈ _, _))

/-- A hazard at a place that the loops compare. -/
def Seen (r : TrackerRun) (tile : PipelineTile) : Prop :=
  ∃ u ∈ r.inFlight, ∃ d reg, u.tile.dstRegs[d]? = some reg ∧ tile.ComparesAt d reg

/-- The new tile reads an output behind the first `num_dst` ones. -/
def Late (r : TrackerRun) (tile : PipelineTile) : Prop :=
  ∃ u ∈ r.inFlight, ∃ d reg, u.tile.dstRegs[d]? = some reg ∧ reg ≠ 0 ∧ reg ∈ tile.srcRegs ∧ tile.dstRegs.length ≤ d

/-- The new tile uses a register that an earlier tile left in the entry of a tile in flight. -/
def Stale (r : TrackerRun) (tile : PipelineTile) : Prop :=
  ∃ (j : Nat) (u : IssuedTile), r.retired.length ≤ j ∧ r.issued[j]? = some u ∧
    ∃ d < 4, u.tile.dstRegs.length ≤ d ∧ tile.ComparesAt d ((r.pt.entries (j % r.pt.numEntries)).regOutputs d)

/-- At most `num_entries` tiles in flight, with at most four registers each way. -/
def Admissible (r : TrackerRun) : TrackerCall → Prop
  | .issue tile _ => r.inFlight.length < r.pt.numEntries ∧ tile.srcRegs.length ≤ 4 ∧ tile.dstRegs.length ≤ 4
  | .complete _ => True

instance (r : TrackerRun) : (call : TrackerCall) → Decidable (r.Admissible call)
  | .issue _ _ => inferInstanceAs (Decidable (_ ∧ _))
  | .complete _ => inferInstanceAs (Decidable True)

/-- An issue stalls exactly for a hazard. -/
def Detected (r : TrackerRun) : TrackerCall → Prop
  | .issue tile now => 0 < r.stall tile now ↔ r.Hazard tile
  | .complete _ => True

instance (r : TrackerRun) : (call : TrackerCall) → Decidable (r.Detected call)
  | .issue _ _ => inferInstanceAs (Decidable (_ ↔ _))
  | .complete _ => inferInstanceAs (Decidable True)

/-- A hazard is seen, or left-over registers are used just when an output behind the first `num_dst` ones is read. -/
def Exact (r : TrackerRun) : TrackerCall → Prop
  | .issue tile _ => r.Seen tile ∨ (r.Stale tile ↔ r.Late tile)
  | .complete _ => True

variable {r : TrackerRun} {tile : PipelineTile}

theorem hazard_iff : r.Hazard tile ↔ r.Seen tile ∨ r.Late tile := by
  constructor
  · rintro ⟨u, hu, reg, hreg, hne, huse⟩
    obtain ⟨d, hd, rfl⟩ := List.getElem_of_mem hreg
    have hget : u.tile.dstRegs[d]? = some u.tile.dstRegs[d] := List.getElem?_eq_getElem hd
    rcases huse with hsrc | hdst
    · rcases Nat.lt_or_ge d tile.dstRegs.length with hlt | hge
      · exact Or.inl ⟨u, hu, d, _, hget, hne, Or.inr ⟨hsrc, hlt⟩⟩
      · exact Or.inr ⟨u, hu, d, _, hget, hne, hsrc, hge⟩
    · exact Or.inl ⟨u, hu, d, _, hget, hne, Or.inl hdst⟩
  · rintro (⟨u, hu, d, reg, hget, hne, huse⟩ | ⟨u, hu, d, reg, hget, hne, hsrc, -⟩)
    · exact ⟨u, hu, reg, List.mem_of_getElem? hget, hne, huse.elim Or.inr fun h => Or.inl h.1⟩
    · exact ⟨u, hu, reg, List.mem_of_getElem? hget, hne, Or.inl hsrc⟩

theorem mem_inFlight {u : IssuedTile} :
    u ∈ r.inFlight ↔ ∃ j, r.retired.length ≤ j ∧ r.issued[j]? = some u := by
  unfold inFlight
  rw [List.mem_iff_getElem?]
  constructor
  · rintro ⟨i, hi⟩
    rw [List.getElem?_drop] at hi
    exact ⟨r.retired.length + i, Nat.le_add_right _ i, hi⟩
  · rintro ⟨j, hj, hu⟩
    refine ⟨j - r.retired.length, ?_⟩
    rw [List.getElem?_drop, Nat.add_sub_cancel' hj]
    exact hu

/-- The ring tracks the tiles, which have at most four destination registers. -/
structure TracksFour (r : TrackerRun) : Prop extends Tracks r where
  dst_le : ∀ u ∈ r.issued, u.tile.dstRegs.length ≤ 4

namespace TracksFour

theorem step (h : r.TracksFour) {call : TrackerCall} (hadm : r.Admissible call) : (r.step call).TracksFour := by
  cases call with
  | issue tile now =>
    obtain ⟨hroom, -, hdst⟩ := hadm
    unfold inFlight at hroom
    rw [List.length_drop] at hroom
    have hle := h.retired_le
    refine ⟨h.toTracks.issue tile now (by omega), ?_⟩
    intro u hu
    rcases List.mem_append.1 hu with hu | hu
    · exact h.dst_le u hu
    · rw [List.mem_singleton.1 hu]
      exact hdst
  | complete now =>
    refine ⟨h.toTracks.complete now, ?_⟩
    rcases h.toTracks.complete_cases now with ⟨-, hsame⟩ | ⟨u, -, -, hstep⟩
    · rw [hsame]
      exact h.dst_le
    · rw [hstep]
      exact h.dst_le

/-- What an issue finds in the entries of the tiles in flight. -/
theorem stall_pos (h : r.TracksFour) (now : UInt64) (hsrc : tile.srcRegs.length ≤ 4) (hdst : tile.dstRegs.length ≤ 4) :
    0 < r.stall tile now ↔ r.Seen tile ∨ r.Stale tile := by
  have hcomplete : ∀ k, k < r.pt.numEntries → (r.pt.entries k).active = true → ∃ j u, r.retired.length ≤ j ∧
      r.issued[j]? = some u ∧ j % r.pt.numEntries = k ∧ Fills u j (r.pt.entries k) := by
    intro k hk hactive
    obtain ⟨j, hj, hlt, rfl⟩ := RingWindow.mem_slots.1 (h.active k hk hactive)
    exact ⟨j, _, hj, List.getElem?_eq_getElem hlt, rfl, h.fills j _ hj (List.getElem?_eq_getElem hlt)⟩
  have hplace : ∀ {j : Nat} {u : IssuedTile} {d : Nat} {ent : TuPipelineEntry}, Fills u j ent → r.issued[j]? = some u →
      d < u.tile.dstRegs.length → u.tile.dstRegs[d]? = some (ent.regOutputs d) := by
    intro j u d ent hfills hu hd
    have hle := h.dst_le u (List.mem_of_getElem? hu)
    rw [hfills.outputs d (by omega), List.getD_eq_getElem?_getD, List.getElem?_eq_getElem hd, Option.getD_some]
  show 0 < wawStall r.pt tile now.toNat (rawStall r.pt tile now.toNat 0) ↔ _
  have hidle : ∀ k < r.pt.numEntries, (r.pt.entries k).active = true → (r.pt.entries k).completeCycle = 0 := by
    intro k hk hactive
    obtain ⟨j, u, -, -, -, hfills⟩ := hcomplete k hk hactive
    exact hfills.completeCycle
  rw [wawStall_pos hidle hsrc hdst]
  constructor
  · rintro ⟨k, hk, hactive, d, hd, hcompares⟩
    obtain ⟨j, u, hj, hu, rfl, hfills⟩ := hcomplete k hk hactive
    rcases Nat.lt_or_ge d u.tile.dstRegs.length with hlt | hge
    · exact Or.inl ⟨u, mem_inFlight.2 ⟨j, hj, hu⟩, d, _, hplace hfills hu hlt, hcompares⟩
    · exact Or.inr ⟨j, u, hj, hu, d, hd, hge, hcompares⟩
  · rintro (⟨u, hmem, d, reg, hget, hcompares⟩ | ⟨j, u, hj, hu, d, hd, -, hcompares⟩)
    · obtain ⟨j, hj, hu⟩ := mem_inFlight.1 hmem
      have hfills := h.fills j u hj hu
      have hd := (List.getElem?_eq_some_iff.1 hget).1
      have hle := h.dst_le u (List.mem_of_getElem? hu)
      rw [hplace hfills hu hd, Option.some.injEq] at hget
      rw [← hget] at hcompares
      exact ⟨_, Nat.mod_lt j h.pos, hfills.active, d, by omega, hcompares⟩
    · exact ⟨_, Nat.mod_lt j h.pos, (h.fills j u hj hu).active, d, hd, hcompares⟩

theorem detected_iff (h : r.TracksFour) {call : TrackerCall} (hadm : r.Admissible call) :
    r.Detected call ↔ r.Exact call := by
  cases call with
  | complete now => exact Iff.rfl
  | issue tile now =>
    obtain ⟨-, hsrc, hdst⟩ := hadm
    show (0 < r.stall tile now ↔ r.Hazard tile) ↔ (r.Seen tile ∨ (r.Stale tile ↔ r.Late tile))
    rw [h.stall_pos now hsrc hdst, hazard_iff]
    tauto

end TracksFour

/-- Along a run with at most `num_entries` tiles in flight and up to four registers each way, every issue stalls exactly
for a hazard if and only if every issue sees a hazard anyway or finds left-over registers just when it reads an output
behind the first `num_dst` ones. -/
theorem detected_iff_exact (maxInFlight : UInt32) (calls : List TrackerCall)
    (hadm : Run.Along Admissible step (init maxInFlight) calls) :
    Run.Along Detected step (init maxInFlight) calls ↔ Run.Along Exact step (init maxInFlight) calls :=
  hadm.iff_of_invariant (I := TracksFour) (fun _ _ h hadm => h.step hadm) (fun _ _ h hadm => h.detected_iff hadm)
    ⟨init_tracks maxInFlight, fun _ hu => absurd hu List.not_mem_nil⟩

/-- A tile reads the second output of a tile in flight and has one destination itself. -/
theorem detected_iff_exact_second :
    let calls := [TrackerCall.issue { srcRegs := [], dstRegs := [1, 2] } 0, .issue { srcRegs := [2], dstRegs := [3] } 1]
    Run.Along Detected step (init 2) calls ↔ Run.Along Exact step (init 2) calls :=
  detected_iff_exact 2 _ (by decide +kernel)

/-- A missed hazard, and a phantom one: after two tiles have come and gone, the entry of the third still names a register
of the first. -/
theorem not_detected :
    (∃ calls, Run.Along Admissible step (init 2) calls ∧ ¬ Run.Along Detected step (init 2) calls) ∧
      let calls := [TrackerCall.issue { srcRegs := [], dstRegs := [1, 2] } 0, .complete 40,
        .issue { srcRegs := [], dstRegs := [4] } 50, .complete 90, .issue { srcRegs := [], dstRegs := [3] } 100,
        .issue { srcRegs := [], dstRegs := [2] } 101]
      Run.Along Admissible step (init 2) calls ∧ ¬ Run.Along Detected step (init 2) calls := by
  refine ⟨⟨[.issue { srcRegs := [], dstRegs := [1, 2] } 0, .issue { srcRegs := [2], dstRegs := [3] } 1], ?_⟩, ?_⟩
  · decide +kernel
  · decide +kernel

end TrackerRun

end Tusim.Perf
