import Tusim.Isa.Agreement
import Tusim.Isa.Application
import Tusim.Isa.Placement

/-!
# What patching writes

A register with a definition is at offset `0` or has no offset, so the fields that patching rewrites can be read
off the program (`patchInstruction_operands`).  A definition that is placed moves to offset `0`, and a product
reads weights and activations where the last definitions before it went.  The offset of its weights is also its row
count.
-/

namespace Tusim

/-- A register for the operand gets a place. -/
def TuOperand.fits (config : TuLiveConfig) (d : TuOperand) : Bool :=
  !config.enableSpilling || d.size ≤ regionCapacity config d.region - config.safetyMargin

/-- The definition of instruction `i` has a register, and the register gets a place. -/
def placedAt (config : TuLiveConfig) (instrs : List TuInstruction) (i : Nat) : Bool :=
  (demands instrs i).length < tuLiveMaxVregs && (extractVregDef (instrs.getD i default)).any (·.fits config)

/-- The last instruction before `j` that defines the region. -/
def latestDef (instrs : List TuInstruction) (region : TuSramRegionId) (j : Nat) : Option Nat :=
  (List.range j).reverse.find? fun i => definesRegion (instrs.getD i default) region

/-- The offset field that product `j` gets for its operand in the region. -/
def patchedOffset (config : TuLiveConfig) (instrs : List TuInstruction) (region : TuSramRegionId) (j : Nat) :
    Option UInt32 :=
  (latestDef instrs region j).map fun i => if placedAt config instrs i then 0 else 0xFFFF

def isActivation (op : UInt8) : Bool := TuIsa.relu ≤ op && op ≤ TuIsa.exp

/-- Patching rewrites `dim0`: of an activation, and of a load into weights or activations. -/
def patchesDim0 (instr : TuInstruction) : Bool :=
  isActivation instr.opcode || (isLoadOp instr.opcode && !definesRegion instr .o)

/-- Where the image of instruction `i` starts to write operand `d`. -/
def writeStart (config : TuLiveConfig) (instrs : List TuInstruction) (i : Nat) (d : TuOperand) : UInt32 :=
  let instr := instrs.getD i default
  if placedAt config instrs i && (isPatchedMma instr.opcode || patchesDim0 instr) then 0 else d.start

/-- How many bytes the image of instruction `i` writes. -/
def writeSize (config : TuLiveConfig) (instrs : List TuInstruction) (i : Nat) (d : TuOperand) : UInt32 :=
  let instr := instrs.getD i default
  if placedAt config instrs i && isPatchedMma instr.opcode then
    match patchedOffset config instrs .w i with
    | some rows => rows * instr.dim1.toUInt32 * 4
    | none => d.size
  else d.size

/-- Where the image of instruction `j` starts to read operand `u`. -/
def readStart (config : TuLiveConfig) (instrs : List TuInstruction) (j : Nat) (u : TuOperand) : UInt32 :=
  let instr := instrs.getD j default
  if placedAt config instrs j then
    if isPatchedMma instr.opcode then (patchedOffset config instrs u.region j).getD u.start
    else if patchesDim0 instr then 0
    else u.start
  else u.start

/-- The operand moved and resized. -/
def TuOperand.moveTo (operand : TuOperand) (start size : UInt32) : TuOperand := ⟨operand.region, start, start + size⟩

@[simp] theorem TuOperand.moveTo_size (operand : TuOperand) (start size : UInt32) :
    (operand.moveTo start size).size = size := by
  show start + size - start = size
  rw [UInt32.add_comm, UInt32.add_sub_cancel]

theorem TuOperand.moveTo_self (operand : TuOperand) : operand.moveTo operand.start operand.size = operand := by
  show (⟨operand.region, operand.start, operand.start + (operand.stop - operand.start)⟩ : TuOperand) = operand
  rw [UInt32.add_comm, UInt32.sub_add_cancel]

/-! ### The registers of a program -/

/-- The registers of the program, coloured. -/
structure Allocated (config : TuLiveConfig) (instrs : List TuInstruction) (vs : List TuVreg) (s : Coloring) : Prop where
  analyzed : tuLiveAnalyze instrs = some vs
  places : Places vs s
  settled : ∀ k, k < vs.length → (s.vreg k).Settled config

section Registers

variable {instrs : List TuInstruction} {vs : List TuVreg} {config : TuLiveConfig} {s : Coloring}

/-- A register after colouring is one of before. -/
theorem Allocated.exists_vreg (h : Allocated config instrs vs s) {v : TuVreg} (hv : v ∈ s.vregs) :
    ∃ k, k < vs.length ∧ v = s.vreg k := by
  obtain ⟨k, hk, rfl⟩ := List.mem_iff_getElem.1 hv
  exact ⟨k, h.places.length ▸ hk, (List.getD_eq_getElem _ _ hk).symm⟩

theorem Allocated.vreg_mem (h : Allocated config instrs vs s) {k : Nat} (hk : k < vs.length) : s.vreg k ∈ s.vregs := by
  have hks : k < s.vregs.length := h.places.length.symm ▸ hk
  unfold Coloring.vreg
  rw [List.getD_eq_getElem _ _ hks]
  exact List.getElem_mem hks

/-- A register with a definition is the one of that definition, and is at `0` if it fits. -/
theorem Allocated.vreg_def (h : Allocated config instrs vs s) {v : TuVreg} (hv : v ∈ s.vregs) (hpos : 0 ≤ v.firstDef) :
    ∃ i d, i < instrs.length ∧ v.firstDef = (i : Int) ∧ extractVregDef (instrs.getD i default) = some d ∧
      v.region = d.region ∧ (demands instrs i).length < tuLiveMaxVregs ∧
      v.physicalOffset = if d.fits config then 0 else tuUnassigned := by
  obtain ⟨k, hk, rfl⟩ := h.exists_vreg hv
  have hbare : vs.getD k default ∈ vs := by
    rw [List.getD_eq_getElem _ _ hk]
    exact List.getElem_mem hk
  have hkey : (vs.getD k default).key ∈ demands instrs instrs.length := by
    have hmem : (vs.getD k default).key ∈ vs.map TuVreg.key := List.mem_map_of_mem hbare
    rw [(analyze_tabled h.analyzed).keys] at hmem
    exact List.mem_of_mem_take hmem
  have hfirst := h.places.firstDef k
  rw [hfirst] at hpos
  obtain ⟨i, d, hi, hd, hkd⟩ := mem_demands_def.1 ⟨hkey, hpos⟩
  have hregion : (vs.getD k default).region = d.region := congrArg (·.1) hkd
  have hsize : (vs.getD k default).sizeBytes = d.size := congrArg (·.2.1) hkd
  have hdef : (vs.getD k default).firstDef = (i : Int) := congrArg (·.2.2) hkd
  refine ⟨i, d, hi, hfirst.trans hdef, hd, (h.places.region k).trans hregion,
    (registered_iff h.analyzed hi hd).1 ⟨_, hbare, hregion, hsize, hdef⟩, ?_⟩
  have hplace : (s.vreg k).placeable config = d.fits config := by
    unfold TuVreg.placeable TuOperand.fits
    rw [h.places.region, h.places.sizeBytes, h.places.firstDef, hregion, hsize, hdef,
      decide_eq_false (by omega : ¬ (i : Int) < 0), Bool.false_or]
  have hoffset := h.settled k hk
  unfold TuVreg.Settled at hoffset
  rw [hplace] at hoffset
  split at hoffset
  · rename_i hfits
    rw [if_pos hfits]
    exact hoffset
  · rename_i hfits
    rw [if_neg hfits]
    exact hoffset.2

/-- The register that patching takes for the definition of instruction `i`. -/
theorem Allocated.findDefVreg_some (h : Allocated config instrs vs s) {i : Nat} {v : TuVreg}
    (hv : findDefVreg s.vregs i = some v) :
    ∃ d, extractVregDef (instrs.getD i default) = some d ∧ v.region = d.region ∧
      (demands instrs i).length < tuLiveMaxVregs ∧ v.physicalOffset = if d.fits config then 0 else tuUnassigned := by
  unfold findDefVreg at hv
  have hvi := List.find?_some hv
  rw [decide_eq_true_eq] at hvi
  obtain ⟨i', d, -, hvi', hrest⟩ := h.vreg_def (List.mem_of_find?_eq_some hv) (by omega)
  obtain rfl : i = i' := by omega
  exact ⟨d, hrest⟩

/-- A definition that is placed has its register at offset `0`. -/
theorem Allocated.findDefVreg_placed (h : Allocated config instrs vs s) {i : Nat} (hi : i < instrs.length)
    (hplaced : placedAt config instrs i = true) :
    ∃ v d, findDefVreg s.vregs i = some v ∧ v.physicalOffset = 0 ∧
      extractVregDef (instrs.getD i default) = some d ∧ v.region = d.region := by
  unfold placedAt at hplaced
  simp only [Bool.and_eq_true, decide_eq_true_eq, Option.any_eq_true] at hplaced
  obtain ⟨hroom, d, hd, hfits⟩ := hplaced
  obtain ⟨v, hv, -, -, hvi⟩ := (registered_iff h.analyzed hi hd).2 hroom
  obtain ⟨k, hk, rfl⟩ := List.mem_iff_getElem.1 hv
  cases hfind : findDefVreg s.vregs i with
  | none =>
    have hnot := List.find?_eq_none.1 hfind (s.vreg k) (h.vreg_mem hk)
    rw [h.places.firstDef, List.getD_eq_getElem _ _ hk, hvi] at hnot
    simp at hnot
  | some v =>
    obtain ⟨d', hd', hr, -, hoffset⟩ := h.findDefVreg_some hfind
    obtain rfl : d = d' := Option.some.inj (hd.symm.trans hd')
    rw [if_pos hfits] at hoffset
    exact ⟨v, d, rfl, hoffset, hd, hr⟩

/-- Of any other definition the register, if there is one, has no offset. -/
theorem Allocated.findDefVreg_unplaced (h : Allocated config instrs vs s) {i : Nat} {v : TuVreg}
    (hplaced : placedAt config instrs i = false) (hv : findDefVreg s.vregs i = some v) :
    v.physicalOffset = tuUnassigned := by
  obtain ⟨d, hd, -, hroom, hoffset⟩ := h.findDefVreg_some hv
  unfold placedAt at hplaced
  rw [decide_eq_true hroom, hd] at hplaced
  have hfits : d.fits config = false := hplaced
  rw [hoffset, hfits]
  rfl

end Registers

/-! ### Registers alive at an instruction -/

theorem latestDef_some {instrs : List TuInstruction} {region : TuSramRegionId} {i j : Nat}
    (h : latestDef instrs region j = some i) :
    i < j ∧ definesRegion (instrs.getD i default) region = true ∧
      ∀ m, i < m → m < j → definesRegion (instrs.getD m default) region = false :=
  find?_reverse_range.1 i h

theorem latestDef_none {instrs : List TuInstruction} {region : TuSramRegionId} {j : Nat}
    (h : latestDef instrs region j = none) : ∀ m, m < j → definesRegion (instrs.getD m default) region = false :=
  find?_reverse_range.2 h

/-- A use keeps a register of its region alive. -/
private theorem alive_use {vs : List TuVreg} {uses : List TuOperand} {u : TuOperand} (i : Int) (hu : u ∈ uses)
    (hdef : HasDef (vs.map TuVreg.key) u.region) :
    ∃ v ∈ analyzeUses vs uses i, v.region = u.region ∧ 0 ≤ v.firstDef ∧ i ≤ v.lastUse := by
  induction uses generalizing vs with
  | nil => exact absurd hu List.not_mem_nil
  | cons w uses ih =>
    rcases List.mem_cons.1 hu with rfl | hu
    · cases hrecent : recentVreg vs u.region with
      | none =>
        obtain ⟨v, hv, hr, hpos⟩ := hasDef_map.1 hdef
        exact absurd hpos (by have := recentVreg_none hrecent v hv hr; omega)
      | some k =>
        obtain ⟨hk, hkey, -⟩ := find?_reverse_range.1 k hrecent
        rw [List.getD_eq_getElem _ _ hk] at hkey
        simp only [Bool.and_eq_true, decide_eq_true_eq] at hkey
        have hmem : vs[k].use i ∈ findOrCreateVreg vs u i false := by
          unfold findOrCreateVreg
          rw [if_neg Bool.false_ne_true, hrecent]
          have hkm : k < (vs.modify k (·.use i)).length := by rwa [List.length_modify]
          have hget : (vs.modify k (·.use i))[k] = vs[k].use i := by rw [List.getElem_modify, if_pos rfl]
          rw [← hget]
          exact List.getElem_mem hkm
        obtain ⟨v, hv, hvkey, hlast⟩ := grows_analyzeUses _ uses i _ hmem
        have hle : i ≤ (vs[k].use i).lastUse := by
          show i ≤ if i > vs[k].lastUse then i else vs[k].lastUse
          split <;> omega
        have hfirst : v.firstDef = vs[k].firstDef := congrArg (·.2.2) hvkey
        exact ⟨v, hv, (congrArg (·.1) hvkey).trans hkey.1, hfirst ▸ hkey.2, by omega⟩
    · exact ih hu (hdef.grows (grows_findOrCreate vs w i false))

section Alive

variable {instrs : List TuInstruction} {vs : List TuVreg} {region : TuSramRegionId} {i j : Nat}

/-- While the table has room, an instruction that uses a region with a definition keeps a register of it alive. -/
theorem exists_covers (h : tuLiveAnalyze instrs = some vs) (hj : j < instrs.length)
    (hroom : (demands instrs j).length < tuLiveMaxVregs) (hlatest : latestDef instrs region j = some i)
    (huse : ∃ u ∈ extractVregUses (instrs.getD j default), u.region = region) :
    ∃ v ∈ vs, v.region = region ∧ v.covers j = true := by
  obtain ⟨u, hu, rfl⟩ := huse
  obtain ⟨hij, hdefines, -⟩ := latestDef_some hlatest
  obtain ⟨d, hd, hr⟩ := definesRegion_iff.1 hdefines
  have hkeys := (analyzed_analyzePrefix (Nat.le_of_lt hroom)).keys
  have hdef : HasDef ((analyzePrefix instrs j).map TuVreg.key) u.region := by
    rw [hkeys]
    exact ⟨_, (mem_demands_def.2 ⟨i, d, hij, hd, rfl⟩).1, hr, Int.natCast_nonneg i⟩
  have hdef := hdef.grows (grows_analyzeDef _ (instrs.getD j default) j)
  obtain ⟨w, hw, hwr, hwpos, hwlast⟩ := alive_use (j : Int) hu hdef
  have hmem : w ∈ analyzePrefix instrs (j + 1) := by
    rw [analyzePrefix_succ]
    exact hw
  have hle : w.firstDef ≤ j := by
    have hlt := ((apart_analyzePrefix instrs (j + 1)).ranged w hmem).firstDef_le
    have hlt' := ((apart_analyzePrefix instrs (j + 1)).ranged w hmem).lastUse_lt
    omega
  obtain ⟨v, hv, hkey, hlast⟩ := grows_analyzePrefix instrs (Nat.succ_le_of_lt hj) w hmem
  rw [← tuLiveAnalyze_eq h] at hv
  have hfirst : v.firstDef = w.firstDef := congrArg (·.2.2) hkey
  refine ⟨v, hv, (congrArg (·.1) hkey).trans hwr, ?_⟩
  unfold TuVreg.covers
  simp only [Bool.and_eq_true, decide_eq_true_eq]
  omega

/-- A register that is alive at an instruction that does not define its region has the last definition before it. -/
theorem latestDef_of_covers (h : tuLiveAnalyze instrs = some vs) (hj : j < instrs.length)
    (hroom : (demands instrs j).length < tuLiveMaxVregs)
    (hnot : definesRegion (instrs.getD j default) region = false) {k : Nat} (hk : k < vs.length)
    (hr : (vs.getD k default).region = region) (hcovers : (vs.getD k default).covers j = true) :
    ∃ i, latestDef instrs region j = some i ∧ (vs.getD k default).firstDef = (i : Int) := by
  unfold TuVreg.covers at hcovers
  simp only [Bool.and_eq_true, decide_eq_true_eq] at hcovers
  obtain ⟨⟨hpos, hle⟩, hlast⟩ := hcovers
  have hkey : (vs.getD k default).key ∈ demands instrs instrs.length := by
    have hmem := List.mem_map_of_mem (f := TuVreg.key) (List.getElem_mem hk)
    rw [(analyze_tabled h).keys, ← List.getD_eq_getElem _ default hk] at hmem
    exact List.mem_of_mem_take hmem
  obtain ⟨m, d, hm, hd, hkd⟩ := mem_demands_def.1 ⟨hkey, hpos⟩
  have hfirst : (vs.getD k default).firstDef = (m : Int) := congrArg (·.2.2) hkd
  have hdr : (vs.getD k default).region = d.region := congrArg (·.1) hkd
  have hdefines : definesRegion (instrs.getD m default) region = true :=
    definesRegion_iff.2 ⟨d, hd, hdr.symm.trans hr⟩
  have hmj : m < j := by
    rcases Nat.lt_or_eq_of_le (show m ≤ j by omega) with hlt | rfl
    · exact hlt
    · rw [hnot] at hdefines
      cases hdefines
  cases hlatest : latestDef instrs region j with
  | none =>
    rw [latestDef_none hlatest m hmj] at hdefines
    cases hdefines
  | some i =>
    obtain ⟨hij, hidef, hmax⟩ := latestDef_some hlatest
    refine ⟨i, rfl, ?_⟩
    rcases Nat.lt_trichotomy m i with hmi | rfl | him
    · -- the register of the later definition would be alive together with this one
      obtain ⟨e, he, her⟩ := definesRegion_iff.1 hidef
      have hroom' := Nat.lt_of_le_of_lt (length_demands_mono (Nat.le_of_lt hij)) hroom
      obtain ⟨w, hw, hwr, -, hwi⟩ := (registered_iff h (Nat.lt_trans hij hj) he).2 hroom'
      obtain ⟨q, hq, rfl⟩ := List.mem_iff_getElem.1 hw
      rw [← List.getD_eq_getElem _ default hq] at hwr hwi
      have hqlast := ((analyze_apart h).ranged _ (List.getElem_mem hq)).firstDef_le
      rw [← List.getD_eq_getElem _ default hq] at hqlast
      have hover : (vs.getD k default).Overlaps (vs.getD q default) := by
        unfold TuVreg.Overlaps
        omega
      have hneg := (analyze_apart h).implicit_of_overlaps hk hq (by rintro rfl; omega)
        (hr.trans (hwr.trans her).symm) hover
      omega
    · exact hfirst
    · rw [hmax m him hmj] at hdefines
      cases hdefines

end Alive

/-! ### The loop over the registers -/

private theorem or_and_right (x y z : UInt32) : (x ||| y) &&& z = (x &&& z) ||| (y &&& z) := by
  apply UInt32.toBitVec_inj.1
  exact BitVec.and_or_distrib_right

@[simp] theorem immLow_setImmLow (instr : TuInstruction) (offset : UInt32) :
    (instr.setImmLow offset).immLow = offset &&& 0xFFFF := by
  have hhigh : (0xFFFF0000 : UInt32) &&& 0xFFFF = 0 := rfl
  have hlow : (0xFFFF : UInt32) &&& 0xFFFF = 0xFFFF := rfl
  show ((instr.immediates &&& 0xFFFF0000) ||| (offset &&& 0xFFFF)) &&& 0xFFFF = offset &&& 0xFFFF
  rw [or_and_right, UInt32.and_assoc, UInt32.and_assoc, hhigh, hlow, UInt32.and_zero, UInt32.zero_or]

@[simp] theorem immHigh_setImmLow (instr : TuInstruction) (offset : UInt32) :
    (instr.setImmLow offset).immHigh = instr.immHigh := by
  have hhigh : (0xFFFF0000 : UInt32) >>> (16 : UInt32) &&& 0xFFFF = 0xFFFF := rfl
  have hlow : (0xFFFF : UInt32) >>> (16 : UInt32) = 0 := rfl
  show (((instr.immediates &&& 0xFFFF0000) ||| (offset &&& 0xFFFF)) >>> (16 : UInt32)) &&& 0xFFFF =
    (instr.immediates >>> (16 : UInt32)) &&& 0xFFFF
  rw [UInt32.shiftRight_or, UInt32.shiftRight_and, UInt32.shiftRight_and, hlow, UInt32.and_zero, UInt32.or_zero,
    UInt32.and_assoc, hhigh]

@[simp] theorem immLow_setImmHigh_zero (instr : TuInstruction) : (instr.setImmHigh 0).immLow = instr.immLow := by
  have hlow : (0xFFFF : UInt32) &&& 0xFFFF = 0xFFFF := rfl
  have hzero : ((0 : UInt32) &&& 0xFFFF) <<< (16 : UInt32) = 0 := rfl
  show ((instr.immediates &&& 0xFFFF) ||| (((0 : UInt32) &&& 0xFFFF) <<< (16 : UInt32))) &&& 0xFFFF =
    instr.immediates &&& 0xFFFF
  rw [hzero, UInt32.or_zero, UInt32.and_assoc, hlow]

@[simp] theorem immHigh_setImmHigh_zero (instr : TuInstruction) : (instr.setImmHigh 0).immHigh = 0 := by
  have hlow : (0xFFFF : UInt32) >>> (16 : UInt32) = 0 := rfl
  have hzero : ((0 : UInt32) &&& 0xFFFF) <<< (16 : UInt32) = 0 := rfl
  show (((instr.immediates &&& 0xFFFF) ||| (((0 : UInt32) &&& 0xFFFF) <<< (16 : UInt32))) >>> (16 : UInt32)) &&& 0xFFFF =
    0
  rw [hzero, UInt32.or_zero, UInt32.shiftRight_and, hlow, UInt32.and_zero, UInt32.zero_and]

/-- The product operands after the loop over the registers: the offsets of those that are alive. -/
theorem foldl_patchUse {i : Int} {wOffset aOffset : UInt32} (vs : List TuVreg) (instr : TuInstruction)
    (hw : ∀ v ∈ vs, v.covers i = true → v.region = .w → v.physicalOffset = wOffset)
    (ha : ∀ v ∈ vs, v.covers i = true → v.region = .a → v.physicalOffset = aOffset) :
    let patched := vs.foldl (patchUse i) instr
    patched.opcode = instr.opcode ∧ patched.dim1 = instr.dim1 ∧ patched.dim2 = instr.dim2 ∧
      patched.immHigh = instr.immHigh ∧
      patched.dim0 = (if vs.any fun v => v.covers i && v.region = .w then wOffset.toUInt16 else instr.dim0) ∧
      patched.immLow = (if vs.any fun v => v.covers i && v.region = .a then aOffset &&& 0xFFFF else instr.immLow) := by
  induction vs generalizing instr with
  | nil => exact ⟨rfl, rfl, rfl, rfl, rfl, rfl⟩
  | cons v vs ih =>
    obtain ⟨hop, hdim1, hdim2, hhigh, hdim0, hlow⟩ := ih (patchUse i instr v)
      (fun x hx => hw x (List.mem_cons_of_mem v hx)) (fun x hx => ha x (List.mem_cons_of_mem v hx))
    dsimp only
    rw [List.foldl_cons, hop, hdim1, hdim2, hhigh, hdim0, hlow, List.any_cons, List.any_cons]
    unfold patchUse
    by_cases hcovers : v.covers i = true
    · rw [if_pos hcovers, hcovers]
      cases hr : v.region with
      | w =>
        rw [hw v (List.mem_cons_self ..) hcovers hr]
        refine ⟨rfl, rfl, rfl, rfl, ?_, rfl⟩
        show (if _ then wOffset.toUInt16 else wOffset.toUInt16) = _
        simp
      | a =>
        rw [ha v (List.mem_cons_self ..) hcovers hr]
        refine ⟨rfl, rfl, rfl, immHigh_setImmLow instr aOffset, rfl, ?_⟩
        dsimp only
        rw [immLow_setImmLow]
        simp
      | o => exact ⟨rfl, rfl, rfl, rfl, rfl, rfl⟩
    · rw [if_neg hcovers, Bool.eq_false_iff.2 hcovers]
      exact ⟨rfl, rfl, rfl, rfl, rfl, rfl⟩

section Products

variable {instrs : List TuInstruction} {vs : List TuVreg} {config : TuLiveConfig} {s : Coloring}
  {region : TuSramRegionId} {j : Nat}

/-- Where the last definition of the region before instruction `j` went. -/
def sourceOffset (config : TuLiveConfig) (instrs : List TuInstruction) (region : TuSramRegionId) (j : Nat) : UInt32 :=
  if (latestDef instrs region j).any (placedAt config instrs) then 0 else tuUnassigned

/-- The registers that a product finds alive in a region it does not define. -/
theorem Allocated.covering_vregs (h : Allocated config instrs vs s) (hj : j < instrs.length)
    (hroom : (demands instrs j).length < tuLiveMaxVregs)
    (huse : ∃ u ∈ extractVregUses (instrs.getD j default), u.region = region)
    (hnot : definesRegion (instrs.getD j default) region = false) :
    (s.vregs.any fun v => v.covers j && v.region = region) = (latestDef instrs region j).isSome ∧
      ∀ v ∈ s.vregs, v.covers j = true → v.region = region →
        v.physicalOffset = sourceOffset config instrs region j := by
  have hcovers : ∀ k, (s.vreg k).covers j = (vs.getD k default).covers j := by
    intro k
    unfold TuVreg.covers
    rw [h.places.firstDef, h.places.lastUse]
  have hlatest : ∀ v ∈ s.vregs, v.covers j = true → v.region = region →
      ∃ i, latestDef instrs region j = some i ∧ v.firstDef = (i : Int) := by
    intro v hv hc hr
    obtain ⟨k, hk, rfl⟩ := h.exists_vreg hv
    rw [hcovers] at hc
    rw [h.places.region] at hr
    rw [h.places.firstDef]
    exact latestDef_of_covers h.analyzed hj hroom hnot hk hr hc
  constructor
  · rw [Bool.eq_iff_iff, List.any_eq_true]
    constructor
    · rintro ⟨v, hv, hcond⟩
      rw [Bool.and_eq_true, decide_eq_true_eq] at hcond
      obtain ⟨i, hi, -⟩ := hlatest v hv hcond.1 hcond.2
      rw [hi]
      rfl
    · intro hsome
      obtain ⟨i, hi⟩ := Option.isSome_iff_exists.1 hsome
      obtain ⟨v, hv, hr, hc⟩ := exists_covers h.analyzed hj hroom hi huse
      obtain ⟨k, hk, rfl⟩ := List.mem_iff_getElem.1 hv
      refine ⟨s.vreg k, h.vreg_mem hk, ?_⟩
      rw [hcovers, h.places.region, List.getD_eq_getElem _ _ hk, hc, hr, decide_eq_true rfl]
      rfl
  · intro v hv hc hr
    obtain ⟨i, hi, hvi⟩ := hlatest v hv hc hr
    obtain ⟨i', d, -, hvi', hd, -, hroom', hoffset⟩ := h.vreg_def hv (by omega)
    obtain rfl : i = i' := by omega
    have hplaced : placedAt config instrs i = d.fits config := by
      unfold placedAt
      rw [hd, decide_eq_true hroom']
      rfl
    unfold sourceOffset
    rw [hoffset, hi, Option.any_some, hplaced]

/-- Patching writes the low half of the offset. -/
theorem low_sourceOffset (config : TuLiveConfig) (instrs : List TuInstruction) (region : TuSramRegionId) (j : Nat)
    (y : UInt32) :
    (if (latestDef instrs region j).isSome then sourceOffset config instrs region j &&& 0xFFFF else y) =
        (patchedOffset config instrs region j).getD y ∧
      (if (latestDef instrs region j).isSome then (sourceOffset config instrs region j).toUInt16.toUInt32 else y) =
        (patchedOffset config instrs region j).getD y := by
  unfold patchedOffset sourceOffset
  cases latestDef instrs region j with
  | none => exact ⟨rfl, rfl⟩
  | some i =>
    rw [Option.any_some, Option.map_some]
    cases placedAt config instrs i with
    | false => exact ⟨rfl, rfl⟩
    | true => exact ⟨rfl, rfl⟩

end Products

/-! ### Images -/

/-- What patching does by opcode. -/
def PatchCase (op : UInt8) : Prop :=
  (isPatchedMma op = true ∧ isActivation op = false ∧ isLoadOp op = false ∧ defCase op = .product ∧
    useCase op = .product) ∨
  (isPatchedMma op = false ∧ isActivation op = true ∧ isLoadOp op = false ∧ defCase op = .inPlace ∧
    useCase op = .inPlace) ∨
  (isPatchedMma op = false ∧ isActivation op = false ∧ isLoadOp op = true ∧ defCase op = .dmaLoad ∧
    useCase op = .rowwise) ∨
  (isPatchedMma op = false ∧ isActivation op = false ∧ isLoadOp op = false)

instance : DecidablePred PatchCase := fun op => by
  unfold PatchCase
  infer_instance

theorem patchCase_table (op : UInt8) : PatchCase op := by
  have hall : ∀ n : Fin 256, PatchCase (.ofNat n) := by decide +kernel
  have hop := hall ⟨op.toNat, op.toNat_lt⟩
  rwa [UInt8.ofNat_toNat] at hop

/-- A product whose operands are patched is decoded as a product. -/
theorem case_of_isPatchedMma {op : UInt8} (h : isPatchedMma op = true) :
    defCase op = .product ∧ useCase op = .product := by
  rcases patchCase_table op with ⟨-, -, -, hcase⟩ | ⟨hnot, -⟩ | ⟨hnot, -⟩ | ⟨hnot, -⟩
  · exact hcase
  · rw [h] at hnot
    cases hnot
  · rw [h] at hnot
    cases hnot
  · rw [h] at hnot
    cases hnot

section Images

variable {instrs : List TuInstruction} {vs : List TuVreg} {config : TuLiveConfig} {s : Coloring} {j : Nat}

/-- Only a definition that is placed is rewritten. -/
theorem Allocated.patchInstruction_unplaced (h : Allocated config instrs vs s)
    (hplaced : placedAt config instrs j = false) (instr : TuInstruction) : patchInstruction instr s.vregs j = instr := by
  unfold patchInstruction
  cases hfind : findDefVreg s.vregs j with
  | none => rfl
  | some v => exact if_pos (h.findDefVreg_unplaced hplaced hfind)

/-- The image of a product that is placed. -/
theorem Allocated.patchInstruction_mma (h : Allocated config instrs vs s) (hj : j < instrs.length)
    (hplaced : placedAt config instrs j = true) (hmma : isPatchedMma (instrs.getD j default).opcode = true) :
    let instr := instrs.getD j default
    let patched := patchInstruction instr s.vregs j
    patched.opcode = instr.opcode ∧ patched.dim1 = instr.dim1 ∧ patched.dim2 = instr.dim2 ∧ patched.immHigh = 0 ∧
      patched.dim0.toUInt32 = (patchedOffset config instrs .w j).getD instr.dim0.toUInt32 ∧
      patched.immLow = (patchedOffset config instrs .a j).getD instr.immLow := by
  intro instr patched
  obtain ⟨hdefCase, huseCase⟩ := case_of_isPatchedMma hmma
  have hdefs : extractVregDef instr = AccessCase.product.definition instr := by rw [extractVregDef_eq, hdefCase]
  have huses : extractVregUses instr = AccessCase.product.uses instr := by rw [extractVregUses_eq, huseCase]
  have hroom : (demands instrs j).length < tuLiveMaxVregs := by
    unfold placedAt at hplaced
    rw [Bool.and_eq_true, decide_eq_true_eq] at hplaced
    exact hplaced.1
  have hnot : ∀ r, r ≠ .o → definesRegion instr r = false := by
    intro r hr
    unfold definesRegion
    rw [hdefs]
    exact decide_eq_false hr.symm
  obtain ⟨v, d, hfind, hzero, hd, hr⟩ := h.findDefVreg_placed hj hplaced
  have hregion : v.region = .o := by
    rw [hr]
    have hd : extractVregDef instr = some d := hd
    rw [hdefs] at hd
    rw [← Option.some.inj hd]
  have huse : ∀ r, r ≠ .o → ∃ u ∈ extractVregUses instr, u.region = r := by
    intro r hr
    rw [huses]
    cases r with
    | w => exact ⟨_, List.mem_cons_self .., rfl⟩
    | a => exact ⟨_, List.mem_cons_of_mem _ (List.mem_cons_self ..), rfl⟩
    | o => exact absurd rfl hr
  have hfound := fun (r : TuSramRegionId) (hr : r ≠ .o) =>
    h.covering_vregs hj hroom (huse r hr) (hnot r hr)
  obtain ⟨hwAny, hwOffset⟩ := hfound .w (by decide)
  obtain ⟨haAny, haOffset⟩ := hfound .a (by decide)
  have hpatched : patched = s.vregs.foldl (patchUse j) (instr.setImmHigh 0) := by
    show patchInstruction instr s.vregs j = _
    unfold patchInstruction
    rw [hfind]
    dsimp only
    rw [hzero, if_neg (by decide)]
    unfold patchDef
    rw [hregion]
    dsimp only
    rw [if_pos hmma, hzero, setImmHigh_opcode, if_pos hmma]
  obtain ⟨hop, hdim1, hdim2, hhigh, hdim0, hlow⟩ := foldl_patchUse s.vregs (instr.setImmHigh 0) hwOffset haOffset
  rw [hpatched]
  rw [hwAny] at hdim0
  rw [haAny] at hlow
  refine ⟨hop, hdim1, hdim2, hhigh.trans (immHigh_setImmHigh_zero instr), ?_, ?_⟩
  · rw [← (low_sourceOffset config instrs .w j instr.dim0.toUInt32).2, hdim0]
    split <;> rfl
  · rw [← (low_sourceOffset config instrs .a j instr.immLow).1, hlow, immLow_setImmHigh_zero]

/-- Any other image has `dim0` rewritten or nothing. -/
theorem Allocated.patchInstruction_other (h : Allocated config instrs vs s) (hj : j < instrs.length)
    (hplaced : placedAt config instrs j = true) (hmma : isPatchedMma (instrs.getD j default).opcode = false) :
    let instr := instrs.getD j default
    patchInstruction instr s.vregs j = if patchesDim0 instr then instr.setDim0 0 else instr := by
  intro instr
  obtain ⟨v, d, hfind, hzero, hd, hr⟩ := h.findDefVreg_placed hj hplaced
  have hpatched : patchInstruction instr s.vregs j = patchDef instr v := by
    unfold patchInstruction
    rw [hfind]
    dsimp only
    rw [hzero, if_neg (by decide), patchDef_opcode, if_neg (by rw [hmma]; exact Bool.false_ne_true)]
  have hdefines : ∀ r, definesRegion instr r = decide (v.region = r) := by
    intro r
    unfold definesRegion
    rw [hr]
    have hd : extractVregDef instr = some d := hd
    rw [hd]
    rfl
  have hcase := patchCase_table instr.opcode
  unfold PatchCase at hcase
  rw [hmma] at hcase
  rw [hpatched]
  unfold patchDef patchesDim0
  rw [hzero, hdefines, hmma]
  rcases hcase with ⟨hc, -⟩ | ⟨-, hact, -, hdefCase, -⟩ | ⟨-, hact, hload, -⟩ | ⟨-, hact, hload⟩
  · cases hc
  · have hregion : v.region = .o := by
      have hd : extractVregDef instr = some d := hd
      rw [extractVregDef_eq, hdefCase] at hd
      rw [hr, ← Option.some.inj hd]
    have hact' : (TuIsa.relu ≤ instr.opcode && instr.opcode ≤ TuIsa.exp) = true := hact
    rw [hregion, hact, hact']
    rfl
  · have hact' : (TuIsa.relu ≤ instr.opcode && instr.opcode ≤ TuIsa.exp) = false := hact
    rw [hact, hact', hload]
    cases v.region <;> rfl
  · have hact' : (TuIsa.relu ≤ instr.opcode && instr.opcode ≤ TuIsa.exp) = false := hact
    rw [hact, hact', hload]
    cases v.region <;> rfl

private theorem moveTo_mk (region : TuSramRegionId) (start start' size size' : UInt32) :
    (⟨region, start, start + size⟩ : TuOperand).moveTo start' size' = ⟨region, start', start' + size'⟩ := rfl

private theorem size_mk (region : TuSramRegionId) (start size : UInt32) :
    (⟨region, start, start + size⟩ : TuOperand).size = size := by
  show start + size - start = size
  rw [UInt32.add_comm, UInt32.add_sub_cancel]

/-- An instruction with `dim0` cleared. -/
private theorem setDim0_operands {instr : TuInstruction} (h : patchesDim0 instr = true)
    (hmma : isPatchedMma instr.opcode = false) :
    extractVregDef (instr.setDim0 0) = (extractVregDef instr).map (fun d => d.moveTo 0 d.size) ∧
      extractVregUses (instr.setDim0 0) = (extractVregUses instr).map fun u => u.moveTo 0 u.size := by
  have hcase := patchCase_table instr.opcode
  unfold PatchCase at hcase
  rw [hmma] at hcase
  rw [extractVregDef_eq, extractVregDef_eq, extractVregUses_eq, extractVregUses_eq, setDim0_opcode]
  unfold patchesDim0 at h
  rcases hcase with ⟨hc, -⟩ | ⟨-, -, -, hdefCase, huseCase⟩ | ⟨-, -, -, hdefCase, huseCase⟩ | ⟨-, hact, hload⟩
  · cases hc
  · rw [hdefCase, huseCase]
    simp only [AccessCase.definition, AccessCase.uses, Option.map_some, List.map_cons, List.map_nil, moveTo_mk, size_mk]
    exact ⟨rfl, rfl⟩
  · rw [hdefCase, huseCase]
    simp only [AccessCase.definition, AccessCase.uses, TuInstruction.dmaOperand, Option.map_some, List.map_cons,
      List.map_nil, moveTo_mk, size_mk]
    exact ⟨rfl, rfl⟩
  · rw [hact, hload] at h
    cases h

/-- An image has the operands of its instruction, moved. -/
theorem Allocated.patchInstruction_operands (h : Allocated config instrs vs s) (hj : j < instrs.length) :
    extractVregDef (patchInstruction (instrs.getD j default) s.vregs j) =
        (extractVregDef (instrs.getD j default)).map (fun d =>
          d.moveTo (writeStart config instrs j d) (writeSize config instrs j d)) ∧
      extractVregUses (patchInstruction (instrs.getD j default) s.vregs j) =
        (extractVregUses (instrs.getD j default)).map fun u => u.moveTo (readStart config instrs j u) u.size := by
  have hself : extractVregDef (instrs.getD j default) =
      (extractVregDef (instrs.getD j default)).map (fun d => d.moveTo d.start d.size) ∧
      extractVregUses (instrs.getD j default) =
        (extractVregUses (instrs.getD j default)).map fun u => u.moveTo u.start u.size := by
    simp only [TuOperand.moveTo_self, Option.map_id_fun', id, List.map_id', and_self]
  unfold writeStart writeSize readStart
  dsimp only
  cases hplaced : placedAt config instrs j with
  | false =>
    rw [h.patchInstruction_unplaced hplaced]
    exact hself
  | true =>
    cases hmma : isPatchedMma (instrs.getD j default).opcode with
    | false =>
      rw [h.patchInstruction_other hj hplaced hmma]
      cases hdim : patchesDim0 (instrs.getD j default) with
      | false => exact hself
      | true => exact setDim0_operands hdim hmma
    | true =>
      obtain ⟨hop, hdim1, hdim2, hhigh, hdim0, hlow⟩ := h.patchInstruction_mma hj hplaced hmma
      obtain ⟨hdefCase, huseCase⟩ := case_of_isPatchedMma hmma
      rw [extractVregDef_eq, extractVregDef_eq, extractVregUses_eq, extractVregUses_eq, hop, hdefCase, huseCase]
      simp only [AccessCase.definition, AccessCase.uses, Option.map_some, List.map_cons, List.map_nil, moveTo_mk,
        size_mk, hdim1, hdim2, hhigh, hdim0, hlow]
      constructor
      · cases patchedOffset config instrs .w j <;> rfl
      · rfl

end Images

end Tusim
