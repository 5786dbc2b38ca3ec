import Mathlib.Data.List.TakeDrop
import Tusim.Isa.RegisterTable
import Tusim.Isa.Coloring

/-!
# What the output holds

`due` lists what `tuLiveApply` would emit with unlimited room: every instruction with the fills before it and the
stores after it.  The output is its first 511 entries and the next instruction after them (`tuLiveApply_entries`),
so it is complete exactly when no more than one instruction is due later (`nothingLost_iff`).
-/

namespace Tusim

namespace TuAllocated

def imageOf : TuAllocated → Option (Nat × TuInstruction)
  | .image i instr => some (i, instr)
  | .fill _ _ | .spill _ _ => none

def isImage (e : TuAllocated) : Bool := e.imageOf.isSome

def isFill : TuAllocated → Bool
  | .fill _ _ => true
  | .image _ _ | .spill _ _ => false

end TuAllocated

/-- The images of input instructions in the output, with their indices. -/
def TuAllocatedSequence.images (output : TuAllocatedSequence) : List (Nat × TuInstruction) :=
  output.entries.filterMap TuAllocated.imageOf

/-! ### Due entries -/

section

variable (vregs : List TuVreg) (instrs : List TuInstruction)

def dueFills (i : Nat) : List TuAllocated :=
  vregs.zipIdx.filterMap fun (v, k) =>
    if v.spilled && v.firstDef < (i : Int) && (i : Int) ≤ v.lastUse then some (.fill k (makeFillInstr v)) else none

def dueSpills (i : Nat) : List TuAllocated :=
  vregs.zipIdx.filterMap fun (v, k) =>
    if v.spilled && v.lastUse = (i : Int) then some (.spill k (makeSpillInstr v)) else none

def dueImage (i : Nat) : TuAllocated := .image i (patchInstruction (instrs.getD i default) vregs i)

/-- What instruction `i` asks to emit. -/
def dueAt (i : Nat) : List TuAllocated := dueFills vregs i ++ dueImage vregs instrs i :: dueSpills vregs i

/-- What the program asks to emit. -/
def due : List TuAllocated := (List.range instrs.length).flatMap (dueAt vregs instrs)

end

/-- Emit one entry: an instruction into any free entry, transfer code into any but the last. -/
def emitEntry (entries : List TuAllocated) (e : TuAllocated) : List TuAllocated :=
  if entries.length < (if e.isImage then tuAllocatedMaxInstrs else tuAllocatedMaxInstrs - 1) then entries ++ [e]
  else entries

/-! ### The output -/

private theorem imageOf_dueFills {vregs : List TuVreg} {i : Nat} {e : TuAllocated} (h : e ∈ dueFills vregs i) :
    e.imageOf = none := by
  obtain ⟨⟨v, k⟩, -, he⟩ := List.mem_filterMap.1 h
  dsimp only at he
  split at he
  · rw [← Option.some.inj he]
    rfl
  · cases he

private theorem imageOf_dueSpills {vregs : List TuVreg} {i : Nat} {e : TuAllocated} (h : e ∈ dueSpills vregs i) :
    e.imageOf = none := by
  obtain ⟨⟨v, k⟩, -, he⟩ := List.mem_filterMap.1 h
  dsimp only at he
  split at he
  · rw [← Option.some.inj he]
    rfl
  · cases he

private theorem insert_entries (output : TuAllocatedSequence) {e : TuAllocated} (h : e.imageOf = none) :
    (output.insert e).entries = emitEntry output.entries e := by
  unfold TuAllocatedSequence.insert emitEntry TuAllocated.isImage
  rw [h, Option.isSome_none, if_neg Bool.false_ne_true]
  split <;> rfl

/-- Inserting transfer code for some registers emits it entry by entry. -/
private theorem foldl_insert (c : TuVreg × Nat → Bool) {g : TuVreg × Nat → TuAllocated} (hg : ∀ x, (g x).imageOf = none)
    (xs : List (TuVreg × Nat)) (output : TuAllocatedSequence) :
    (xs.foldl (fun output x => if c x then output.insert (g x) else output) output).entries =
      (xs.filterMap fun x => if c x then some (g x) else none).foldl emitEntry output.entries := by
  induction xs generalizing output with
  | nil => rfl
  | cons x xs ih =>
    rw [List.foldl_cons, ih]
    by_cases hx : c x = true
    · rw [if_pos hx, List.filterMap_cons_some (f := fun x => if c x then some (g x) else none) (if_pos hx),
        List.foldl_cons, insert_entries output (hg x)]
    · rw [if_neg hx, List.filterMap_cons_none (f := fun x => if c x then some (g x) else none) (if_neg hx)]

private theorem emitEntry_over {entries : List TuAllocated} (h : tuAllocatedMaxInstrs ≤ entries.length)
    (es : List TuAllocated) : es.foldl emitEntry entries = entries := by
  induction es with
  | nil => rfl
  | cons e es ih =>
    have hstay : emitEntry entries e = entries := by
      unfold emitEntry
      rw [if_neg]
      split <;> omega
    rw [List.foldl_cons, hstay]
    exact ih

/-- Transfer code leaves the last entry free. -/
private theorem emitEntry_transfers {entries es : List TuAllocated} (h : entries.length < tuAllocatedMaxInstrs)
    (hes : ∀ e ∈ es, e.imageOf = none) : (es.foldl emitEntry entries).length < tuAllocatedMaxInstrs := by
  induction es generalizing entries with
  | nil => exact h
  | cons e es ih =>
    refine ih ?_ fun x hx => hes x (List.mem_cons_of_mem e hx)
    have hnone : e.isImage = false := by
      unfold TuAllocated.isImage
      rw [hes e (List.mem_cons_self ..)]
      rfl
    unfold emitEntry
    rw [hnone, if_neg Bool.false_ne_true]
    split
    · rw [List.length_append, List.length_singleton]
      omega
    · exact h

/-- One turn of the loop emits what its instruction asks for. -/
theorem applyInstr_entries (vregs : List TuVreg) (instrs : List TuInstruction) (output : TuAllocatedSequence) (i : Nat) :
    (applyInstr vregs instrs output i).entries = (dueAt vregs instrs i).foldl emitEntry output.entries := by
  unfold applyInstr
  by_cases hroom : output.entries.length < tuAllocatedMaxInstrs
  · have hfills := emitEntry_transfers hroom fun e (he : e ∈ dueFills vregs i) => imageOf_dueFills he
    have himage : emitEntry ((dueFills vregs i).foldl emitEntry output.entries) (dueImage vregs instrs i) =
        (dueFills vregs i).foldl emitEntry output.entries ++ [dueImage vregs instrs i] := if_pos hfills
    rw [if_pos hroom]
    dsimp only
    unfold dueAt
    rw [List.foldl_append, List.foldl_cons, himage]
    rw [foldl_insert (fun x => x.1.spilled && decide (x.1.lastUse = (i : Int)))
      (fun x => (rfl : (TuAllocated.spill x.2 (makeSpillInstr x.1)).imageOf = none))]
    unfold TuAllocatedSequence.reclaim TuAllocatedSequence.define
    dsimp only
    rw [foldl_insert (fun x => x.1.spilled && decide (x.1.firstDef < (i : Int)) && decide ((i : Int) ≤ x.1.lastUse))
      (fun x => (rfl : (TuAllocated.fill x.2 (makeFillInstr x.1)).imageOf = none))]
    rfl
  · rw [if_neg hroom, emitEntry_over (Nat.not_lt.1 hroom)]

private theorem emitEntry_room {entries : List TuAllocated} (es : List TuAllocated)
    (h : entries.length + es.length ≤ tuAllocatedMaxInstrs - 1) : es.foldl emitEntry entries = entries ++ es := by
  induction es generalizing entries with
  | nil => exact (List.append_nil _).symm
  | cons e es ih =>
    rw [List.length_cons] at h
    have htake : emitEntry entries e = entries ++ [e] := by
      unfold emitEntry
      rw [if_pos]
      split <;> omega
    rw [List.foldl_cons, htake, ih, List.append_assoc]
    · rfl
    · rw [List.length_append, List.length_singleton]
      omega

/-- Once only the last entry is free, it goes to the next instruction. -/
private theorem emitEntry_last {entries : List TuAllocated} (es : List TuAllocated)
    (h : entries.length = tuAllocatedMaxInstrs - 1) :
    es.foldl emitEntry entries = entries ++ (es.find? TuAllocated.isImage).toList := by
  have hmax : tuAllocatedMaxInstrs = 512 := rfl
  induction es with
  | nil => exact (List.append_nil _).symm
  | cons e es ih =>
    rw [List.foldl_cons]
    cases himage : e.isImage with
    | true =>
      have htake : emitEntry entries e = entries ++ [e] := by
        unfold emitEntry
        rw [himage, if_pos rfl, if_pos (by omega)]
      rw [htake, emitEntry_over, List.find?_cons_of_pos himage]
      · rfl
      · rw [List.length_append, List.length_singleton]
        omega
    | false =>
      have hstay : emitEntry entries e = entries := by
        unfold emitEntry
        rw [himage, if_neg Bool.false_ne_true, if_neg (by omega)]
      rw [hstay, ih, List.find?_cons_of_neg (by rw [himage]; exact Bool.false_ne_true)]

/-- The output is the first 511 due entries and the next instruction after them. -/
theorem tuLiveApply_entries (vregs : List TuVreg) (instrs : List TuInstruction) :
    (tuLiveApply vregs instrs).entries =
      (due vregs instrs).take (tuAllocatedMaxInstrs - 1) ++
        (((due vregs instrs).drop (tuAllocatedMaxInstrs - 1)).find? TuAllocated.isImage).toList := by
  have hfold : ∀ (is : List Nat) (output : TuAllocatedSequence),
      (is.foldl (applyInstr vregs instrs) output).entries =
        (is.flatMap (dueAt vregs instrs)).foldl emitEntry output.entries := by
    intro is
    induction is with
    | nil => exact fun _ => rfl
    | cons i is ih =>
      intro output
      rw [List.foldl_cons, ih, applyInstr_entries, List.flatMap_cons, List.foldl_append]
  have hentries : (tuLiveApply vregs instrs).entries = (due vregs instrs).foldl emitEntry [] := hfold _ _
  rw [hentries]
  generalize due vregs instrs = es
  by_cases hlen : es.length ≤ tuAllocatedMaxInstrs - 1
  · rw [emitEntry_room es (by simpa using hlen), List.take_of_length_le hlen, List.drop_eq_nil_of_le hlen]
    exact (List.append_nil _).symm
  · have htake : (es.take (tuAllocatedMaxInstrs - 1)).length = tuAllocatedMaxInstrs - 1 :=
      List.length_take_of_le (by omega)
    have hsplit : es.foldl emitEntry [] = (es.drop (tuAllocatedMaxInstrs - 1)).foldl emitEntry
        ((es.take (tuAllocatedMaxInstrs - 1)).foldl emitEntry []) := by
      rw [← List.foldl_append, List.take_append_drop]
    have hfirst : (es.take (tuAllocatedMaxInstrs - 1)).foldl emitEntry [] = es.take (tuAllocatedMaxInstrs - 1) :=
      emitEntry_room _ (by rw [htake, List.length_nil]; omega)
    rw [hsplit, hfirst, emitEntry_last _ htake]

/-- The output fits into its array. -/
theorem tuLiveApply_length_le (vregs : List TuVreg) (instrs : List TuInstruction) :
    (tuLiveApply vregs instrs).entries.length ≤ tuAllocatedMaxInstrs := by
  have hmax : tuAllocatedMaxInstrs = 512 := rfl
  have hfirst := List.length_take_le (tuAllocatedMaxInstrs - 1) (due vregs instrs)
  have hlast : (((due vregs instrs).drop (tuAllocatedMaxInstrs - 1)).find? TuAllocated.isImage).toList.length ≤ 1 :=
    Option.length_toList_le
  rw [tuLiveApply_entries, List.length_append]
  omega

/-! ### Images -/

/-- The image of instruction `i`. -/
def imageAt (vregs : List TuVreg) (instrs : List TuInstruction) (i : Nat) : Nat × TuInstruction :=
  (i, patchInstruction (instrs.getD i default) vregs i)

theorem images_due (vregs : List TuVreg) (instrs : List TuInstruction) :
    (due vregs instrs).filterMap TuAllocated.imageOf = (List.range instrs.length).map (imageAt vregs instrs) := by
  have hone : ∀ i, (dueAt vregs instrs i).filterMap TuAllocated.imageOf = [imageAt vregs instrs i] := by
    intro i
    have hfills : (dueFills vregs i).filterMap TuAllocated.imageOf = [] :=
      List.filterMap_eq_nil_iff.2 fun e he => imageOf_dueFills he
    have hspills : (dueSpills vregs i).filterMap TuAllocated.imageOf = [] :=
      List.filterMap_eq_nil_iff.2 fun e he => imageOf_dueSpills he
    have himage : (dueImage vregs instrs i).imageOf = some (imageAt vregs instrs i) := rfl
    unfold dueAt
    rw [List.filterMap_append, hfills, List.nil_append, List.filterMap_cons_some himage, hspills]
  unfold due
  rw [List.filterMap_flatMap]
  generalize List.range instrs.length = is
  induction is with
  | nil => rfl
  | cons i is ih => rw [List.flatMap_cons, hone, ih, List.map_cons, List.singleton_append]

private theorem find?_isImage (es : List TuAllocated) :
    (es.find? TuAllocated.isImage).toList.filterMap TuAllocated.imageOf = (es.filterMap TuAllocated.imageOf).take 1 := by
  induction es with
  | nil => rfl
  | cons e es ih =>
    cases himage : e.imageOf with
    | none =>
      have hnot : ¬ e.isImage = true := by
        unfold TuAllocated.isImage
        rw [himage]
        exact Bool.false_ne_true
      rw [List.find?_cons_of_neg hnot, List.filterMap_cons_none himage, ih]
    | some p =>
      have hpos : e.isImage = true := by
        unfold TuAllocated.isImage
        rw [himage]
        rfl
      rw [List.find?_cons_of_pos hpos, List.filterMap_cons_some himage, List.take_succ_cons, List.take_zero]
      exact List.filterMap_cons_some himage

/-- How many instructions are due beyond the first 511 entries. -/
def dueLate (vregs : List TuVreg) (instrs : List TuInstruction) : Nat :=
  ((due vregs instrs).drop (tuAllocatedMaxInstrs - 1)).countP TuAllocated.isImage

/-- The output has an image of every instruction exactly when at most one is due beyond the first 511 entries. -/
theorem images_eq_iff (vregs : List TuVreg) (instrs : List TuInstruction) :
    (tuLiveApply vregs instrs).images = (List.range instrs.length).map (imageAt vregs instrs) ↔
      dueLate vregs instrs ≤ 1 := by
  have hcount : dueLate vregs instrs =
      (((due vregs instrs).drop (tuAllocatedMaxInstrs - 1)).filterMap TuAllocated.imageOf).length := by
    unfold dueLate
    rw [List.length_filterMap_eq_countP]
    rfl
  have hsplit : ((due vregs instrs).take (tuAllocatedMaxInstrs - 1)).filterMap TuAllocated.imageOf ++
      ((due vregs instrs).drop (tuAllocatedMaxInstrs - 1)).filterMap TuAllocated.imageOf =
        (List.range instrs.length).map (imageAt vregs instrs) := by
    rw [← List.filterMap_append, List.take_append_drop, images_due]
  unfold TuAllocatedSequence.images
  rw [tuLiveApply_entries, List.filterMap_append, find?_isImage, hcount, ← hsplit, List.append_cancel_left_eq,
    List.take_eq_self_iff]

/-! ### What is lost -/

@[simp] theorem setImmHigh_opcode (instr : TuInstruction) (offset : UInt32) :
    (instr.setImmHigh offset).opcode = instr.opcode := rfl

@[simp] theorem setDim0_opcode (instr : TuInstruction) (offset : UInt32) :
    (instr.setDim0 offset).opcode = instr.opcode := rfl

@[simp] theorem patchDef_opcode (instr : TuInstruction) (d : TuVreg) : (patchDef instr d).opcode = instr.opcode := by
  unfold patchDef
  split
  · split
    · rfl
    · split <;> rfl
  · split <;> rfl
  · split <;> rfl

@[simp] theorem patchUse_opcode (i : Int) (instr : TuInstruction) (v : TuVreg) :
    (patchUse i instr v).opcode = instr.opcode := by
  unfold patchUse
  split
  · split <;> rfl
  · rfl

/-- Patching rewrites operands only. -/
theorem patchInstruction_opcode (instr : TuInstruction) (vregs : List TuVreg) (i : Int) :
    (patchInstruction instr vregs i).opcode = instr.opcode := by
  have huses : ∀ (vs : List TuVreg) (instr : TuInstruction), (vs.foldl (patchUse i) instr).opcode = instr.opcode := by
    intro vs
    induction vs with
    | nil => exact fun _ => rfl
    | cons v vs ih =>
      intro instr
      rw [List.foldl_cons, ih, patchUse_opcode]
  unfold patchInstruction
  split
  · rfl
  · split
    · rfl
    · dsimp only
      split
      · rw [huses, patchDef_opcode]
      · exact patchDef_opcode _ _

/-- The output has images of all instructions in order, with their opcodes, and every definition has a register. -/
def NothingLost (instrs : List TuInstruction) (vs : List TuVreg) (output : TuAllocatedSequence) : Prop :=
  output.images.map Prod.fst = List.range instrs.length ∧
    (∀ p ∈ output.images, p.2.opcode = (instrs.getD p.1 default).opcode) ∧
    ∀ i d, i < instrs.length → extractVregDef (instrs.getD i default) = some d →
      ∃ v ∈ vs, v.region = d.region ∧ v.sizeBytes = d.size ∧ v.firstDef = i

theorem images_initial (vregs : List TuVreg) (instrs : List TuInstruction) :
    (tuLiveApply vregs instrs).images <+: (List.range instrs.length).map (imageAt vregs instrs) := by
  unfold TuAllocatedSequence.images
  rw [tuLiveApply_entries, List.filterMap_append, find?_isImage, ← images_due]
  conv => rhs; rw [← List.take_append_drop (tuAllocatedMaxInstrs - 1) (due vregs instrs)]
  rw [List.filterMap_append]
  refine (List.prefix_append_right_inj _).2 ?_
  exact List.take_prefix ..

/-- An allocation loses nothing exactly when at most one instruction is due beyond the first 511 entries and every
definition comes before the 129th register. -/
theorem nothingLost_iff {instrs : List TuInstruction} {config : Option TuLiveConfig} {vs : List TuVreg} {s : Coloring}
    (h : tuLiveAnalyze instrs = some vs) (hcolor : tuLiveColor (config.getD tuLiveConfigDefault) vs = some s) :
    tuLiveAllocate instrs config = some (tuLiveApply s.vregs instrs) ∧
      (NothingLost instrs vs (tuLiveApply s.vregs instrs) ↔
        dueLate s.vregs instrs ≤ 1 ∧
          ∀ i, i < instrs.length → extractVregDef (instrs.getD i default) ≠ none →
            (demands instrs i).length < tuLiveMaxVregs) := by
  constructor
  · unfold tuLiveAllocate
    rw [h]
    dsimp only [Option.bind_some]
    rw [hcolor]
    rfl
  have hfst : ((List.range instrs.length).map (imageAt s.vregs instrs)).map Prod.fst = List.range instrs.length := by
    rw [List.map_map]
    exact List.map_id _
  have hopcode : ∀ p ∈ (tuLiveApply s.vregs instrs).images, p.2.opcode = (instrs.getD p.1 default).opcode := by
    intro p hp
    obtain ⟨i, -, rfl⟩ := List.mem_map.1 ((images_initial s.vregs instrs).subset hp)
    exact patchInstruction_opcode _ _ _
  rw [← images_eq_iff]
  constructor
  · rintro ⟨himages, -, hregs⟩
    refine ⟨?_, fun i hi hd => ?_⟩
    · refine (images_initial s.vregs instrs).eq_of_length ?_
      have hlen := congrArg List.length himages
      rw [List.length_map] at hlen
      rw [hlen, List.length_map]
    · obtain ⟨d, hd⟩ := Option.ne_none_iff_exists'.1 hd
      exact (registered_iff h hi hd).1 (hregs i d hi hd)
  · rintro ⟨himages, hroom⟩
    refine ⟨by rw [himages, hfst], hopcode, fun i d hi hd => ?_⟩
    refine (registered_iff h hi hd).2 (hroom i hi ?_)
    rw [hd]
    exact Option.some_ne_none d

/-- Two loads and their product. -/
theorem nothingLost_loads_mma :
    let instrs : List TuInstruction :=
      [{ opcode := TuIsa.dmaLoad, dim1 := 32 }, { opcode := TuIsa.dmaLoad, flags := 1, dim1 := 32 },
        { opcode := TuIsa.mma, dim1 := 4, dim2 := 4 }]
    ∃ (vs : List TuVreg) (s : Coloring), tuLiveAllocate instrs none = some (tuLiveApply s.vregs instrs) ∧
      NothingLost instrs vs (tuLiveApply s.vregs instrs) := by
  intro instrs
  have hsome : ((tuLiveAnalyze instrs).bind (tuLiveColor tuLiveConfigDefault)).isSome = true := by decide +kernel
  obtain ⟨s, hs⟩ := Option.isSome_iff_exists.1 hsome
  obtain ⟨vs, hvs, hcolor⟩ := Option.bind_eq_some_iff.1 hs
  obtain ⟨hallocate, hiff⟩ := @nothingLost_iff _ none _ _ hvs hcolor
  refine ⟨vs, s, hallocate, hiff.2 ⟨?_, by decide⟩⟩
  have hlate : ((tuLiveAnalyze instrs).bind (tuLiveColor tuLiveConfigDefault)).all
      (fun s => decide (dueLate s.vregs instrs ≤ 1)) = true := by decide +kernel
  rw [hs] at hlate
  exact of_decide_eq_true hlate

/-- A program of 513 instructions without operands: the last one has no image. -/
theorem not_nothingLost_nops :
    let instrs : List TuInstruction := List.replicate 513 { opcode := TuIsa.nop }
    tuLiveAnalyze instrs = some [] ∧ tuLiveAllocate instrs none = some (tuLiveApply [] instrs) ∧
      (tuLiveApply [] instrs).valid = true ∧ ¬ NothingLost instrs [] (tuLiveApply [] instrs) := by
  intro instrs
  have hvs : tuLiveAnalyze instrs = some [] := by
    have hstep : ∀ i : Nat, analyzeInstr [] (instrs.getD i default) i = [] := by
      intro i
      rw [List.getD_eq_getElem?_getD, List.getElem?_replicate]
      split <;> rfl
    have hnil : ∀ n, analyzePrefix instrs n = [] := by
      intro n
      induction n with
      | zero => rfl
      | succ n ih => rw [analyzePrefix_succ, ih, hstep]
    exact congrArg some (hnil instrs.length)
  refine ⟨hvs, ?_, rfl, fun hall => ?_⟩
  · unfold tuLiveAllocate
    rw [hvs]
    rfl
  · have hlen := congrArg List.length hall.1
    rw [List.length_map, List.length_range, List.length_replicate] at hlen
    have himages := List.length_filterMap_le TuAllocated.imageOf (tuLiveApply [] instrs).entries
    have hentries := tuLiveApply_length_le [] instrs
    have hmax : tuAllocatedMaxInstrs = 512 := rfl
    unfold TuAllocatedSequence.images at hlen
    omega

end Tusim
