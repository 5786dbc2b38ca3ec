import Tusim.Cmdq.CommandQueue
import Tusim.Elementwise.Pipeline

/-!
# Elementwise chains through the command queue

`tu_cmdq_submit_elementwise` packs a chain into an operand descriptor with eight opcodes and four scalars; the executor
unpacks it and calls `tu_ew_apply_fused`.  The submitter stores the scalars densely, the executor deals them out to the
operations from the first one on, so a chain survives only if the operations with a scalar come first (`unpack_pack`).
The arrays of operations, scalars and flags of the submitter are present and given as one list.
-/

namespace Tusim

/-- The operand descriptor; the arrays have eight and four entries. -/
structure TuCmdEwDesc (α : Type) where
  sramOffset : UInt32
  elemCount : UInt32
  numOps : UInt8
  ops : Nat → UInt8
  scalars : Nat → α
  hasScalar : Nat → Bool
  sramRegion : UInt8

/-- The three regions of the core. -/
structure EwRegions where
  sramW : TuSramRegion
  sramA : TuSramRegion
  sramO : TuSramRegion

namespace EwRegions

def select (g : EwRegions) (sramRegion : UInt8) : TuSramRegion :=
  match sramRegion with
  | 1 => g.sramW
  | 2 => g.sramA
  | _ => g.sramO

def set (g : EwRegions) (sramRegion : UInt8) (sram : TuSramRegion) : EwRegions :=
  match sramRegion with
  | 1 => { g with sramW := sram }
  | 2 => { g with sramA := sram }
  | _ => { g with sramO := sram }

end EwRegions

variable {α : Type} (fp : EwFloat α)

/-- The direct call on the selected region. -/
def applyFusedTo (sramRegion : UInt8) (offset elemCount : UInt32) (ops : List (TuEwOp α)) (g : EwRegions) : EwRegions :=
  g.set sramRegion (tuEwApplyFused fp (g.select sramRegion) offset elemCount ops).1

/-- One round of the packing loop, with the next free scalar `si`. -/
def packOp (ops : Nat → TuEwOp α) (s : TuCmdEwDesc α × Nat) (i : Nat) : TuCmdEwDesc α × Nat :=
  let (desc, si) := s
  let desc := { desc with ops := Function.update desc.ops i (ops i).opcode }
  if (ops i).hasScalar && si < 4 then
    ({ desc with
        hasScalar := Function.update desc.hasScalar si true
        scalars := Function.update desc.scalars si (ops i).scalar }, si + 1)
  else (desc, si)

/-- The descriptor that `tu_cmdq_submit_elementwise` submits. -/
def packElementwise (sramRegion : UInt8) (sramOffset elemCount : UInt32) (ops : Nat → TuEwOp α) (numOps : UInt8) :
    TuCmdEwDesc α :=
  let desc : TuCmdEwDesc α :=
    { sramOffset := sramOffset, elemCount := elemCount, numOps := numOps, ops := fun _ => 0
      scalars := fun _ => fp.zero, hasScalar := fun _ => false, sramRegion := sramRegion }
  ((List.range (min numOps.toNat 8)).foldl (packOp ops) (desc, 0)).1

/-- The queue and the id of the new command. -/
def tuCmdqSubmitElementwise (q : TuCommandQueue (TuCmdEwDesc α)) (sramRegion : UInt8) (sramOffset elemCount : UInt32)
    (ops : Nat → TuEwOp α) (numOps : UInt8) : Option (TuCommandQueue (TuCmdEwDesc α) × Nat) :=
  tuCmdqSubmit q TuCmd.elementwise (some (packElementwise fp sramRegion sramOffset elemCount ops numOps)) []

/-- One round of the unpacking loop, with the next scalar `scalarIdx`. -/
def unpackOp (desc : TuCmdEwDesc α) (s : List (TuEwOp α) × Nat) (i : Nat) : List (TuEwOp α) × Nat :=
  let (ops, scalarIdx) := s
  if scalarIdx < 4 && desc.hasScalar scalarIdx then
    (ops ++ [{ opcode := desc.ops i, scalar := desc.scalars scalarIdx, hasScalar := true }], scalarIdx + 1)
  else (ops ++ [{ opcode := desc.ops i, scalar := fp.zero, hasScalar := false }], scalarIdx)

/-- The first eight operations of a descriptor. -/
def unpackElementwise (desc : TuCmdEwDesc α) : List (TuEwOp α) :=
  ((List.range (min desc.numOps.toNat TuEw.maxOps)).foldl (unpackOp fp desc) ([], 0)).1

/-- The case `TU_CMD_ELEMENTWISE` of `execute_command`.  With more than eight operations, `tu_ew_apply_fused` only looks at
their number. -/
def executeElementwise (desc : TuCmdEwDesc α) (g : EwRegions) : EwRegions :=
  if desc.numOps.toNat > TuEw.maxOps then g
  else applyFusedTo fp desc.sramRegion desc.sramOffset desc.elemCount (unpackElementwise fp desc) g

/-- What executing a command does to the regions; commands of other kinds are not elementwise operations. -/
def executeEwCommand (cmd : TuCommand (TuCmdEwDesc α)) (g : EwRegions) : EwRegions :=
  if cmd.opcode = TuCmd.elementwise then
    match cmd.op with
    | some desc => executeElementwise fp desc g
    | none => g
  else g

/-! ### Packing and unpacking -/

/-- The operations with a scalar among the first `n`. -/
def withScalar (ops : Nat → TuEwOp α) (n : Nat) : List Nat := (List.range n).filter fun i => (ops i).hasScalar

theorem withScalar_succ (ops : Nat → TuEwOp α) (n : Nat) :
    withScalar ops (n + 1) = if (ops n).hasScalar then withScalar ops n ++ [n] else withScalar ops n := by
  unfold withScalar
  rw [List.range_succ, List.filter_append]
  by_cases h : (ops n).hasScalar = true
  · rw [if_pos h, List.filter_cons_of_pos (by exact h), List.filter_nil]
  · rw [if_neg h, List.filter_cons_of_neg (by exact h), List.filter_nil, List.append_nil]

/-- The scalar of the `j`-th operation that has one. -/
def denseScalar (ops : Nat → TuEwOp α) (n j : Nat) : α := ((withScalar ops n)[j]?.map fun i => (ops i).scalar).getD fp.zero

/-- The loop invariant of packing. -/
structure PackedUpTo (ops : Nat → TuEwOp α) (n : Nat) (s : TuCmdEwDesc α × Nat) : Prop where
  si : s.2 = min (withScalar ops n).length 4
  opcodes : ∀ i < n, s.1.ops i = (ops i).opcode
  hasScalar : ∀ j, s.1.hasScalar j = decide (j < s.2)
  scalars : ∀ j < s.2, s.1.scalars j = denseScalar fp ops n j

theorem PackedUpTo.packOp {ops : Nat → TuEwOp α} {n : Nat} {s : TuCmdEwDesc α × Nat} (h : PackedUpTo fp ops n s) :
    PackedUpTo fp ops (n + 1) (packOp ops s n) := by
  obtain ⟨desc, si⟩ := s
  have hsi : si = min (withScalar ops n).length 4 := h.si
  have hsucc := withScalar_succ ops n
  have hcodes : ∀ i < n + 1, Function.update desc.ops n (ops n).opcode i = (ops i).opcode := by
    intro i hi
    rw [Function.update_apply]
    split
    · rename_i heq
      rw [heq]
    · exact h.opcodes i (by omega)
  have hkeep : ∀ j < (withScalar ops n).length, denseScalar fp ops (n + 1) j = denseScalar fp ops n j := by
    intro j hj
    unfold denseScalar
    rw [hsucc]
    split
    · rw [List.getElem?_append_left hj]
    · rfl
  unfold Tusim.packOp
  dsimp only
  split
  · rename_i hnew
    rw [Bool.and_eq_true, decide_eq_true_eq] at hnew
    rw [if_pos hnew.1] at hsucc
    constructor
    · show si + 1 = _
      rw [hsucc, List.length_append, List.length_singleton]
      omega
    · exact hcodes
    · intro j
      show Function.update desc.hasScalar si true j = decide (j < si + 1)
      rw [Function.update_apply, h.hasScalar j]
      by_cases hj : j = si
      · simp [hj]
      · rw [if_neg hj]
        exact decide_eq_decide.2 (by omega)
    · intro j hj
      show Function.update desc.scalars si (ops n).scalar j = _
      rw [Function.update_apply]
      by_cases hji : j = si
      · have hlast : (withScalar ops n).length = si := by omega
        rw [if_pos hji]
        unfold denseScalar
        rw [hsucc, hji, ← hlast, List.getElem?_concat_length]
        rfl
      · have hj' : j < si := by
          have : j < si + 1 := hj
          omega
        rw [if_neg hji, hkeep j (by omega)]
        exact h.scalars j hj'
  · rename_i hold
    constructor
    · show si = _
      rw [hsucc]
      split
      · rename_i hflag
        have hfull : ¬ si < 4 := by
          intro hlt
          exact hold (by simp [hflag, hlt])
        rw [List.length_append, List.length_singleton]
        omega
      · exact hsi
    · exact hcodes
    · exact h.hasScalar
    · intro j hj
      have hj' : j < si := hj
      rw [hkeep j (by omega)]
      exact h.scalars j hj

theorem packElementwise_spec (sramRegion : UInt8) (sramOffset elemCount : UInt32) (ops : Nat → TuEwOp α) (numOps : UInt8) :
    ∃ si, PackedUpTo fp ops (min numOps.toNat 8) (packElementwise fp sramRegion sramOffset elemCount ops numOps, si) := by
  have hloop : ∀ n, PackedUpTo fp ops n ((List.range n).foldl (packOp ops)
      ({ sramOffset := sramOffset, elemCount := elemCount, numOps := numOps, ops := fun _ => 0,
         scalars := fun _ => fp.zero, hasScalar := fun _ => false, sramRegion := sramRegion }, 0)) := by
    intro n
    induction n with
    | zero =>
      exact { si := rfl, opcodes := fun i hi => absurd hi (Nat.not_lt_zero i), hasScalar := fun j => rfl
              scalars := fun j hj => absurd hj (Nat.not_lt_zero j) }
    | succ n ih =>
      rw [List.range_succ, List.foldl_append]
      exact ih.packOp
  exact ⟨_, hloop _⟩

theorem packOp_frame (ops : Nat → TuEwOp α) (s : TuCmdEwDesc α × Nat) (i : Nat) :
    (packOp ops s i).1 = { s.1 with
      ops := (packOp ops s i).1.ops
      scalars := (packOp ops s i).1.scalars
      hasScalar := (packOp ops s i).1.hasScalar } := by
  unfold packOp
  dsimp only
  split <;> rfl

theorem packElementwise_frame (sramRegion : UInt8) (sramOffset elemCount : UInt32) (ops : Nat → TuEwOp α)
    (numOps : UInt8) :
    let desc := packElementwise fp sramRegion sramOffset elemCount ops numOps
    desc.sramRegion = sramRegion ∧ desc.sramOffset = sramOffset ∧ desc.elemCount = elemCount ∧ desc.numOps = numOps := by
  unfold packElementwise
  dsimp only
  generalize min numOps.toNat 8 = n
  induction n with
  | zero => exact ⟨rfl, rfl, rfl, rfl⟩
  | succ n ih =>
    rw [List.range_succ, List.foldl_append, List.foldl_cons, List.foldl_nil, packOp_frame]
    exact ih

/-- The scalars end up on the operations at the front. -/
theorem unpack_pack (sramRegion : UInt8) (sramOffset elemCount : UInt32) (ops : Nat → TuEwOp α) {numOps : UInt8}
    (hn : numOps.toNat ≤ 8) :
    unpackElementwise fp (packElementwise fp sramRegion sramOffset elemCount ops numOps) =
      (List.range numOps.toNat).map fun i =>
        if i < min (withScalar ops numOps.toNat).length 4 then
          { opcode := (ops i).opcode, scalar := denseScalar fp ops numOps.toNat i, hasScalar := true }
        else { opcode := (ops i).opcode, scalar := fp.zero, hasScalar := false } := by
  obtain ⟨si, hpacked⟩ := packElementwise_spec fp sramRegion sramOffset elemCount ops numOps
  obtain ⟨-, -, -, hnum⟩ := packElementwise_frame fp sramRegion sramOffset elemCount ops numOps
  rw [Nat.min_eq_left hn] at hpacked
  have hsi : si = min (withScalar ops numOps.toNat).length 4 := hpacked.si
  rw [← hsi]
  unfold unpackElementwise
  rw [hnum, Nat.min_eq_left (show numOps.toNat ≤ TuEw.maxOps from hn)]
  have hloop : ∀ n ≤ numOps.toNat, (List.range n).foldl
      (unpackOp fp (packElementwise fp sramRegion sramOffset elemCount ops numOps)) ([], 0) =
        ((List.range n).map fun i =>
          if i < si then
            { opcode := (ops i).opcode, scalar := denseScalar fp ops numOps.toNat i, hasScalar := true }
          else { opcode := (ops i).opcode, scalar := fp.zero, hasScalar := false }, min n si) := by
    intro n
    induction n with
    | zero => exact fun _ => rfl
    | succ n ih =>
      intro hlt
      rw [List.range_succ, List.foldl_append, ih (by omega), List.map_append, List.foldl_cons, List.foldl_nil]
      have hcode : (packElementwise fp sramRegion sramOffset elemCount ops numOps).ops n = (ops n).opcode :=
        hpacked.opcodes n (by omega)
      unfold unpackOp
      dsimp only
      rw [hcode, hpacked.hasScalar]
      dsimp only
      by_cases hni : n < si
      · have hmin : min n si = n := by omega
        have hscalar : (packElementwise fp sramRegion sramOffset elemCount ops numOps).scalars n =
            denseScalar fp ops numOps.toNat n := hpacked.scalars n hni
        rw [hmin, if_pos (by simp [hni]; omega), hscalar, List.map_singleton, if_pos hni,
          show min (n + 1) si = n + 1 by omega]
      · rw [show min n si = si by omega, if_neg (by simp), List.map_singleton, if_neg hni,
          show min (n + 1) si = si by omega]
  rw [hloop _ (le_refl _)]

/-! ### The command in the queue -/

/-- Executing commands leaves their opcodes and operands. -/
theorem tuCmdqTick_operands {Op : Type} (q : TuCommandQueue Op) (i : Nat) :
    ((tuCmdqTick q).1.commands i).opcode = (q.commands i).opcode ∧ ((tuCmdqTick q).1.commands i).op = (q.commands i).op := by
  have hexecute : ∀ (q : TuCommandQueue Op) j, ((executeCommand q j).commands i).opcode = (q.commands i).opcode ∧
      ((executeCommand q j).commands i).op = (q.commands i).op := by
    intro q j
    unfold executeCommand
    dsimp only
    split <;>
    · dsimp only
      rw [Function.update_apply]
      split
      · rename_i h
        rw [h]
        exact ⟨rfl, rfl⟩
      · exact ⟨rfl, rfl⟩
  have hscan : ∀ (q : TuCommandQueue Op) j, ((q.scanSlot j).commands i).opcode = (q.commands i).opcode ∧
      ((q.scanSlot j).commands i).op = (q.commands i).op := by
    intro q j
    unfold TuCommandQueue.scanSlot TuCommandQueue.retire
    split
    · dsimp only
      split
      · rw [← (hexecute q j).1, ← (hexecute q j).2]
        dsimp only
        rw [Function.update_apply]
        split
        · rename_i h
          rw [h]
          exact ⟨rfl, rfl⟩
        · exact ⟨rfl, rfl⟩
      · exact hexecute q j
    · exact ⟨rfl, rfl⟩
  have hloop : ∀ (l : List Nat) (s : TuCommandQueue Op × Nat),
      ((l.foldl (fun s i => (s.1.scanSlot i, if s.1.ready i then s.2 + 1 else s.2)) s).1.commands i).opcode =
        (s.1.commands i).opcode ∧
      ((l.foldl (fun s i => (s.1.scanSlot i, if s.1.ready i then s.2 + 1 else s.2)) s).1.commands i).op =
        (s.1.commands i).op := by
    intro l
    induction l with
    | nil => exact fun _ => ⟨rfl, rfl⟩
    | cons j l ih =>
      intro s
      rw [List.foldl_cons, (ih _).1, (ih _).2]
      exact hscan s.1 j
  exact hloop _ _

/-- A submitted command keeps its opcode and its operands, executed or not. -/
theorem tuCmdqSubmit_operands {Op : Type} {q q' : TuCommandQueue Op} {opcode : UInt32} {opDesc : Option Op}
    {depIds : List Nat} {cmdId : Nat} (h : tuCmdqSubmit q opcode opDesc depIds = some (q', cmdId))
    (hop : TuCmd.hasOperands opcode = true) :
    (q'.commands q.head).opcode = opcode ∧ (q'.commands q.head).op = opDesc := by
  have hnew : ((q.enqueue opcode opDesc depIds).commands q.head).opcode = opcode ∧
      ((q.enqueue opcode opDesc depIds).commands q.head).op = opDesc := by
    unfold TuCommandQueue.enqueue
    dsimp only
    rw [Function.update_self, if_pos hop]
    exact ⟨rfl, rfl⟩
  unfold tuCmdqSubmit at h
  split at h
  · cases h
  · dsimp only at h
    split at h
    · cases h
      unfold executeCommand
      dsimp only
      split <;>
      · dsimp only
        rw [Function.update_self]
        exact hnew
    · cases h
      rw [(tuCmdqTick_operands _ _).1, (tuCmdqTick_operands _ _).2]
      exact hnew

/-- What executing the submitted command does. -/
theorem executeEwCommand_submitted {n : Nat} (hn : n < 256) {ops : Nat → TuEwOp α}
    {sramRegion : UInt8} {offset elemCount : UInt32} {q q' : TuCommandQueue (TuCmdEwDesc α)} {cmdId : Nat}
    (h : tuCmdqSubmitElementwise fp q sramRegion offset elemCount ops (UInt8.ofNat n) = some (q', cmdId))
    (g : EwRegions) :
    executeEwCommand fp (q'.commands q.head) g =
      if n ≤ 8 then
        applyFusedTo fp sramRegion offset elemCount ((List.range n).map fun i =>
          if i < min (withScalar ops n).length 4 then
            { opcode := (ops i).opcode, scalar := denseScalar fp ops n i, hasScalar := true }
          else { opcode := (ops i).opcode, scalar := fp.zero, hasScalar := false }) g
      else g := by
  obtain ⟨hopcode, hop⟩ := tuCmdqSubmit_operands h (by decide)
  obtain ⟨hregion, hoffset, hcount, hnum⟩ := packElementwise_frame fp sramRegion offset elemCount ops
    (UInt8.ofNat n)
  have hnat : (UInt8.ofNat n).toNat = n := UInt8.toNat_ofNat_of_lt' hn
  unfold executeEwCommand
  rw [if_pos hopcode, hop]
  dsimp only
  unfold executeElementwise
  rw [hregion, hoffset, hcount, hnum, hnat]
  by_cases hmax : n ≤ 8
  · rw [if_neg (show ¬ n > TuEw.maxOps from Nat.not_lt.2 hmax), if_pos hmax,
      unpack_pack fp sramRegion offset elemCount ops (by rwa [hnat]), hnat]
  · rw [if_pos (show n > TuEw.maxOps from Nat.not_le.1 hmax), if_neg hmax]

end Tusim
