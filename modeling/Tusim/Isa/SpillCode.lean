import Tusim.Isa.Application
import Tusim.Lib.Run
import Mathlib.Data.Nat.Find

/-!
# Fills and stores

A spilled register is filled before every instruction of its live range and stored only after the last one, so
every fill comes before the store it should follow.  Spill code is in order exactly when no fill is emitted, no
emitted instruction reads a spilled register and every store that is emitted stays inside its region
(`spillCode_iff`).
-/

namespace Tusim

open History

/-- Instruction `i` reads register `k`: it uses the region, and the register is the latest one of the region there.  A
register without definition is read only by the instruction it was made for. -/
def ReadsVreg (vs : List TuVreg) (instrs : List TuInstruction) (i k : Nat) (v : TuVreg) : Prop :=
  vs[k]? = some v ∧ (∃ u ∈ extractVregUses (instrs.getD i default), u.region = v.region) ∧
    if v.firstDef < 0 then v.lastUse = i
    else v.firstDef ≤ i ∧
      ∀ q w, k < q → vs[q]? = some w → w.region = v.region → 0 ≤ w.firstDef → (i : Int) < w.firstDef

/-- Register `k` has been stored after its definition. -/
def Stored (k : Nat) (v : TuVreg) (past : List TuAllocated) : Prop :=
  ∃ before store rest, past = before ++ .spill k store :: rest ∧
    ∀ i : Nat, v.firstDef = i → ∃ instr, .image i instr ∈ before

/-- Every fill follows a store of its register, a spilled register is filled before it is read, and fills and stores
address the same bytes of the region. -/
structure SpillCodeSound (config : TuLiveConfig) (vs : List TuVreg) (instrs : List TuInstruction)
    (entries : List TuAllocated) : Prop where
  fills : Everywhere (fun past e => ∀ k v fill, vs[k]? = some v → e = .fill k fill → Stored k v past) entries
  reads : Everywhere (fun past e => ∀ i instr k v, e = .image i instr → ReadsVreg vs instrs i k v → v.spilled = true →
    ∃ fill, .fill k fill ∈ past) entries
  ranges : ∀ k fill store, .fill k fill ∈ entries → .spill k store ∈ entries → fill.dmaOperand = store.dmaOperand
  bounds : ∀ e ∈ entries, e.imageOf = none →
    e.instr.dmaOperand.stop.toNat ≤ (regionCapacity config e.instr.dmaOperand.region).toNat

/-! ### When it is -/

/-- Registers that are stored after instruction `i`. -/
def storedAt (i : Nat) (v : TuVreg) : Bool := v.spilled && v.lastUse = (i : Int)

/-- The entry of instruction `i` in an output without fills. -/
def slot (vs : List TuVreg) : Nat → Nat
  | 0 => 0
  | i + 1 => slot vs i + 1 + vs.countP (storedAt i)

/-- The entry of the store of register `k` after instruction `i` in an output without fills. -/
def storeSlot (vs : List TuVreg) (i k : Nat) : Nat := slot vs i + 1 + (vs.take k).countP (storedAt i)

/-- The end of the bytes that transfer code of the register addresses. -/
def TuVreg.transferStop (v : TuVreg) : Nat := v.physicalOffset.toNat % 2 ^ 16 + max 1 (v.sizeBytes.toNat % 2 ^ 16)

/-- No spilled register is alive after its definition while the output has entries. -/
def FillsLate (vs : List TuVreg) (n : Nat) : Prop :=
  ∀ v ∈ vs, v.spilled = true → ∀ i, i < n → v.firstDef < (i : Int) → (i : Int) ≤ v.lastUse →
    tuAllocatedMaxInstrs - 1 ≤ slot vs i

/-- No fill is emitted, no instruction with an image reads a spilled register, and the stores that are emitted stay
inside their regions. -/
structure Quiet (config : TuLiveConfig) (vs : List TuVreg) (instrs : List TuInstruction) : Prop where
  fills : FillsLate vs instrs.length
  reads : ∀ i, i < instrs.length → (∀ j, j < i → slot vs j < tuAllocatedMaxInstrs - 1) →
    ∀ k v, ReadsVreg vs instrs i k v → v.spilled = false
  bounds : ∀ i k v, i < instrs.length → vs[k]? = some v → storedAt i v = true →
    storeSlot vs i k < tuAllocatedMaxInstrs - 1 → v.transferStop ≤ (regionCapacity config v.region).toNat

/-! ### Due entries -/

section

variable {vs : List TuVreg} {instrs : List TuInstruction} {i : Nat}

theorem mem_dueFills {e : TuAllocated} :
    e ∈ dueFills vs i ↔ ∃ k v, vs[k]? = some v ∧ (v.spilled = true ∧ v.firstDef < (i : Int) ∧ (i : Int) ≤ v.lastUse) ∧
      e = .fill k (makeFillInstr v) := by
  unfold dueFills
  rw [List.mem_filterMap]
  constructor
  · rintro ⟨⟨v, k⟩, hmem, he⟩
    dsimp only at he
    split at he
    · rename_i hcond
      simp only [Bool.and_eq_true, decide_eq_true_eq] at hcond
      exact ⟨k, v, List.mem_zipIdx_iff_getElem?.1 hmem, ⟨hcond.1.1, hcond.1.2, hcond.2⟩, (Option.some.inj he).symm⟩
    · cases he
  · rintro ⟨k, v, hk, ⟨hspilled, hdef, hlast⟩, rfl⟩
    refine ⟨(v, k), List.mem_zipIdx_iff_getElem?.2 hk, ?_⟩
    dsimp only
    rw [if_pos (by simp [hspilled, hdef, hlast])]

theorem mem_dueSpills {e : TuAllocated} :
    e ∈ dueSpills vs i ↔ ∃ k v, vs[k]? = some v ∧ storedAt i v = true ∧ e = .spill k (makeSpillInstr v) := by
  unfold dueSpills
  rw [List.mem_filterMap]
  constructor
  · rintro ⟨⟨v, k⟩, hmem, he⟩
    dsimp only at he
    split at he
    · rename_i hcond
      exact ⟨k, v, List.mem_zipIdx_iff_getElem?.1 hmem, hcond, (Option.some.inj he).symm⟩
    · cases he
  · rintro ⟨k, v, hk, hstored, rfl⟩
    refine ⟨(v, k), List.mem_zipIdx_iff_getElem?.2 hk, ?_⟩
    exact if_pos hstored

/-- What the first `i` instructions ask to emit. -/
def dueUpTo (vs : List TuVreg) (instrs : List TuInstruction) (i : Nat) : List TuAllocated :=
  (List.range i).flatMap (dueAt vs instrs)

theorem dueUpTo_succ (vs : List TuVreg) (instrs : List TuInstruction) (i : Nat) :
    dueUpTo vs instrs (i + 1) = dueUpTo vs instrs i ++ dueAt vs instrs i := by
  unfold dueUpTo
  rw [List.range_succ, List.flatMap_append, List.flatMap_singleton]

theorem dueUpTo_mono (vs : List TuVreg) (instrs : List TuInstruction) {j : Nat} (h : i ≤ j) :
    dueUpTo vs instrs i <+: dueUpTo vs instrs j := by
  induction j with
  | zero =>
    obtain rfl := Nat.le_zero.1 h
    exact List.prefix_rfl
  | succ j ih =>
    rcases Nat.le_succ_iff.1 h with h | rfl
    · rw [dueUpTo_succ]
      exact (ih h).trans (List.prefix_append ..)
    · exact List.prefix_rfl

theorem mem_dueUpTo {e : TuAllocated} : e ∈ dueUpTo vs instrs i ↔ ∃ j, j < i ∧ e ∈ dueAt vs instrs j := by
  unfold dueUpTo
  simp only [List.mem_flatMap, List.mem_range]

/-- The store of a register of the table. -/
private def storeOf (i : Nat) (x : TuVreg × Nat) : Option TuAllocated :=
  if storedAt i x.1 then some (.spill x.2 (makeSpillInstr x.1)) else none

private theorem length_storeOf (i : Nat) (xs : List (TuVreg × Nat)) :
    (xs.filterMap (storeOf i)).length = (xs.map Prod.fst).countP (storedAt i) := by
  rw [List.length_filterMap_eq_countP, List.countP_map]
  congr 1
  funext x
  unfold storeOf
  show _ = storedAt i x.1
  cases storedAt i x.1 <;> rfl

theorem length_dueSpills (vs : List TuVreg) (i : Nat) : (dueSpills vs i).length = vs.countP (storedAt i) := by
  have hlen := length_storeOf i vs.zipIdx
  rw [List.zipIdx_map_fst] at hlen
  exact hlen

/-- The store of register `k` comes after those of the stored registers before it. -/
private theorem dueSpills_split {k : Nat} {v : TuVreg} (hk : vs[k]? = some v) (hstored : storedAt i v = true) :
    ∃ before rest, dueSpills vs i = before ++ .spill k (makeSpillInstr v) :: rest ∧
      before.length = (vs.take k).countP (storedAt i) ∧ ∀ store, TuAllocated.spill k store ∉ before := by
  obtain ⟨hlt, hv⟩ := List.getElem?_eq_some_iff.1 hk
  have hsplit : vs.zipIdx = (vs.take k).zipIdx ++ (v, k) :: (vs.drop (k + 1)).zipIdx (k + 1) := by
    have hlen : (vs.take k).length = k := List.length_take_of_le (Nat.le_of_lt hlt)
    conv => lhs; rw [← List.take_append_drop k vs, List.drop_eq_getElem_cons hlt, hv]
    rw [List.zipIdx_append, hlen, Nat.zero_add, List.zipIdx_cons]
  refine ⟨(vs.take k).zipIdx.filterMap (storeOf i), ((vs.drop (k + 1)).zipIdx (k + 1)).filterMap (storeOf i), ?_, ?_, ?_⟩
  · have hstore : storeOf i (v, k) = some (.spill k (makeSpillInstr v)) := if_pos hstored
    show vs.zipIdx.filterMap (storeOf i) = _
    rw [hsplit, List.filterMap_append, List.filterMap_cons_some hstore]
  · rw [length_storeOf, List.zipIdx_map_fst]
  · intro store hmem
    obtain ⟨⟨w, q⟩, hq, hstore⟩ := List.mem_filterMap.1 hmem
    have hqlt := (List.mem_zipIdx' hq).1
    rw [List.length_take] at hqlt
    unfold storeOf at hstore
    dsimp only at hstore
    split at hstore
    · obtain ⟨rfl, -⟩ := TuAllocated.spill.inj (Option.some.inj hstore)
      omega
    · cases hstore

@[simp] theorem slot_zero (vs : List TuVreg) : slot vs 0 = 0 := rfl

theorem slot_succ (vs : List TuVreg) (i : Nat) : slot vs (i + 1) = slot vs i + 1 + vs.countP (storedAt i) := rfl

/-- Without fills instruction `i` has its slot. -/
theorem length_dueUpTo (instrs : List TuInstruction) (h : ∀ j, j < i → dueFills vs j = []) :
    (dueUpTo vs instrs i).length = slot vs i := by
  induction i with
  | zero => rfl
  | succ i ih =>
    rw [dueUpTo_succ, List.length_append, ih fun j hj => h j (Nat.lt_succ_of_lt hj), slot_succ]
    unfold dueAt
    rw [h i (Nat.lt_succ_self i), List.nil_append, List.length_cons, length_dueSpills]
    omega

theorem slot_lt {j : Nat} (h : i < j) : slot vs i < slot vs j := by
  induction j with
  | zero => omega
  | succ j ih =>
    rw [slot_succ]
    rcases Nat.lt_succ_iff_lt_or_eq.1 h with h | rfl
    · have hlt := ih h
      omega
    · omega

theorem slot_le (vs : List TuVreg) {j : Nat} (h : i ≤ j) : slot vs i ≤ slot vs j := by
  rcases Nat.lt_or_eq_of_le h with h | rfl
  · exact Nat.le_of_lt (slot_lt h)
  · exact Nat.le_refl _

/-- What the program asks for, split at an instruction. -/
theorem due_split (vs : List TuVreg) (hi : i < instrs.length) :
    ∃ rest, due vs instrs = dueUpTo vs instrs i ++ (dueAt vs instrs i ++ rest) := by
  obtain ⟨rest, hrest⟩ := dueUpTo_mono vs instrs (Nat.succ_le_of_lt hi)
  refine ⟨rest, ?_⟩
  rw [← List.append_assoc, ← dueUpTo_succ]
  exact hrest.symm

/-- An entry is emitted if fewer than 511 are due before it. -/
theorem mem_entries_of_lt {before rest : List TuAllocated} {e : TuAllocated} (h : due vs instrs = before ++ e :: rest)
    (hlt : before.length < tuAllocatedMaxInstrs - 1) : e ∈ (tuLiveApply vs instrs).entries := by
  rw [tuLiveApply_entries, List.mem_append]
  left
  obtain ⟨room, hroom⟩ : ∃ room, tuAllocatedMaxInstrs - 1 = before.length + (room + 1) :=
    ⟨tuAllocatedMaxInstrs - 1 - before.length - 1, by omega⟩
  rw [h, hroom, List.take_length_add_append, List.take_succ_cons]
  exact List.mem_append_right _ (List.mem_cons_self ..)

/-- An emitted fill or store is among the first 511 due entries. -/
theorem mem_take_of_transfer {e : TuAllocated} (h : e ∈ (tuLiveApply vs instrs).entries) (he : e.imageOf = none) :
    e ∈ (due vs instrs).take (tuAllocatedMaxInstrs - 1) := by
  rw [tuLiveApply_entries, List.mem_append] at h
  rcases h with h | h
  · exact h
  · have hsome := List.find?_some (Option.mem_toList.1 h)
    unfold TuAllocated.isImage at hsome
    rw [he] at hsome
    cases hsome

theorem entries_sublist (vs : List TuVreg) (instrs : List TuInstruction) :
    (tuLiveApply vs instrs).entries.Sublist (due vs instrs) := by
  rw [tuLiveApply_entries]
  conv => rhs; rw [← List.take_append_drop (tuAllocatedMaxInstrs - 1) (due vs instrs)]
  refine List.Sublist.append (List.Sublist.refl _) ?_
  cases hfind : ((due vs instrs).drop (tuAllocatedMaxInstrs - 1)).find? TuAllocated.isImage with
  | none => exact List.nil_sublist _
  | some e => exact List.singleton_sublist.2 (List.mem_of_find?_eq_some hfind)

theorem mem_due {e : TuAllocated} : e ∈ due vs instrs ↔ ∃ j, j < instrs.length ∧ e ∈ dueAt vs instrs j := mem_dueUpTo

theorem mem_dueAt {e : TuAllocated} :
    e ∈ dueAt vs instrs i ↔ e ∈ dueFills vs i ∨ e = dueImage vs instrs i ∨ e ∈ dueSpills vs i := by
  unfold dueAt
  rw [List.mem_append, List.mem_cons]

theorem fill_mem_dueAt {k : Nat} {fill : TuInstruction} :
    .fill k fill ∈ dueAt vs instrs i ↔ .fill k fill ∈ dueFills vs i := by
  rw [mem_dueAt]
  refine ⟨fun h => ?_, Or.inl⟩
  rcases h with h | h | h
  · exact h
  · cases h
  · obtain ⟨_, _, -, -, h⟩ := mem_dueSpills.1 h
    cases h

theorem spill_mem_dueAt {k : Nat} {store : TuInstruction} :
    .spill k store ∈ dueAt vs instrs i ↔ .spill k store ∈ dueSpills vs i := by
  rw [mem_dueAt]
  refine ⟨fun h => ?_, fun h => Or.inr (Or.inr h)⟩
  rcases h with h | h | h
  · obtain ⟨_, _, -, -, h⟩ := mem_dueFills.1 h
    cases h
  · cases h
  · exact h

theorem image_mem_dueAt {j : Nat} {instr : TuInstruction} (h : .image j instr ∈ dueAt vs instrs i) : j = i := by
  rcases mem_dueAt.1 h with h | h | h
  · obtain ⟨_, _, -, -, h⟩ := mem_dueFills.1 h
    cases h
  · exact (TuAllocated.image.inj h).1
  · obtain ⟨_, _, -, -, h⟩ := mem_dueSpills.1 h
    cases h

/-! ### Fills come too early -/

/-- No fill of a register comes after a store of it. -/
theorem due_order (vs : List TuVreg) (instrs : List TuInstruction) :
    (due vs instrs).Pairwise fun a b => ∀ k store fill, a = .spill k store → b ≠ .fill k fill := by
  unfold due
  rw [List.pairwise_flatMap]
  constructor
  · intro i _
    unfold dueAt
    rw [List.pairwise_append]
    refine ⟨?_, ?_, ?_⟩
    · refine List.Pairwise.imp_of_mem (fun {a b} ha _ _ k store fill hstore => ?_)
        (List.pairwise_of_forall fun _ _ => trivial)
      obtain ⟨_, _, -, -, hfill⟩ := mem_dueFills.1 ha
      rw [hstore] at hfill
      cases hfill
    · refine List.Pairwise.imp_of_mem (fun {a b} _ hb _ k store fill _ hfill => ?_)
        (List.pairwise_of_forall fun _ _ => trivial)
      rw [hfill, List.mem_cons] at hb
      rcases hb with hb | hb
      · cases hb
      · obtain ⟨_, _, -, -, hb⟩ := mem_dueSpills.1 hb
        cases hb
    · intro a ha b _ k store fill hstore
      obtain ⟨_, _, -, -, hfill⟩ := mem_dueFills.1 ha
      rw [hstore] at hfill
      cases hfill
  · refine List.pairwise_lt_range.imp fun {i j} hij a ha b hb k store fill hstore hfill => ?_
    subst hstore
    subst hfill
    obtain ⟨q, v, hv, hlast, hq⟩ := mem_dueSpills.1 (spill_mem_dueAt.1 ha)
    obtain ⟨q', v', hv', ⟨-, -, hle⟩, hq'⟩ := mem_dueFills.1 (fill_mem_dueAt.1 hb)
    obtain ⟨rfl, -⟩ := TuAllocated.spill.inj hq
    obtain ⟨rfl, -⟩ := TuAllocated.fill.inj hq'
    obtain rfl := Option.some.inj (hv.symm.trans hv')
    unfold storedAt at hlast
    rw [Bool.and_eq_true, decide_eq_true_eq] at hlast
    omega

/-- The first instruction that asks for fills. -/
private theorem exists_first {j : Nat} (h : dueFills vs j ≠ []) :
    ∃ m, m ≤ j ∧ dueFills vs m ≠ [] ∧ ∀ i, i < m → dueFills vs i = [] := by
  have hex : ∃ i, dueFills vs i ≠ [] := ⟨j, h⟩
  refine ⟨Nat.find hex, Nat.find_min' hex h, Nat.find_spec hex, fun i hi => ?_⟩
  by_contra hne
  exact Nat.find_min hex hi hne

/-- An entry that is due late is not among the first 511. -/
private theorem take_due {m : Nat} (hm : m ≤ instrs.length)
    (hlen : tuAllocatedMaxInstrs - 1 ≤ (dueUpTo vs instrs m).length) {e : TuAllocated}
    (h : e ∈ (due vs instrs).take (tuAllocatedMaxInstrs - 1)) : e ∈ dueUpTo vs instrs m := by
  obtain ⟨rest, hrest⟩ := dueUpTo_mono vs instrs hm
  have hdue : due vs instrs = dueUpTo vs instrs m ++ rest := hrest.symm
  rw [hdue, List.take_append_of_le_length hlen] at h
  exact List.mem_of_mem_take h

private theorem FillsLate.full (h : FillsLate vs instrs.length) (hi : i < instrs.length) (hne : dueFills vs i ≠ []) :
    tuAllocatedMaxInstrs - 1 ≤ slot vs i := by
  obtain ⟨e, he⟩ := List.exists_mem_of_ne_nil _ hne
  obtain ⟨_, v, hv, ⟨hspilled, hdef, hlast⟩, -⟩ := mem_dueFills.1 he
  exact h v (List.mem_of_getElem? hv) hspilled i hi hdef hlast

/-- Fills are emitted unless the output is full before the first of them. -/
theorem fillsLate_iff : FillsLate vs instrs.length ↔ ∀ k fill, .fill k fill ∉ (tuLiveApply vs instrs).entries := by
  constructor
  · intro hlate k fill hmem
    have htake := mem_take_of_transfer hmem rfl
    obtain ⟨j, hj, hdue⟩ := mem_due.1 (List.mem_of_mem_take htake)
    obtain ⟨m, hmj, hne, hfirst⟩ := exists_first (List.ne_nil_of_mem (fill_mem_dueAt.1 hdue))
    have hslot := hlate.full (Nat.lt_of_le_of_lt hmj hj) hne
    rw [← length_dueUpTo instrs hfirst] at hslot
    obtain ⟨i, hi, hfill⟩ := mem_dueUpTo.1 (take_due (Nat.le_of_lt (Nat.lt_of_le_of_lt hmj hj)) hslot htake)
    rw [fill_mem_dueAt, hfirst i hi] at hfill
    exact List.not_mem_nil hfill
  · intro hnone v hv hspilled i hi hdef hlast
    by_contra hslot
    obtain ⟨k, hk⟩ := List.mem_iff_getElem?.1 hv
    obtain ⟨m, hmi, hne, hfirst⟩ :=
      exists_first (List.ne_nil_of_mem (mem_dueFills.2 ⟨k, v, hk, ⟨hspilled, hdef, hlast⟩, rfl⟩))
    obtain ⟨rest, hrest⟩ := due_split vs (Nat.lt_of_le_of_lt hmi hi)
    have hlen := length_dueUpTo instrs hfirst
    have hle := slot_le vs hmi
    obtain ⟨e, es, hes⟩ := List.exists_cons_of_ne_nil hne
    obtain ⟨q, w, -, -, hfill⟩ := mem_dueFills.1 (hes ▸ List.mem_cons_self .. : e ∈ dueFills vs m)
    refine hnone q (makeFillInstr w) ?_
    rw [← hfill]
    unfold dueAt at hrest
    rw [hes, List.cons_append, List.cons_append] at hrest
    exact mem_entries_of_lt hrest (by omega)

/-! ### What is emitted without fills -/

/-- While there are entries no instruction asks for fills. -/
private theorem FillsLate.dueFills_nil (h : FillsLate vs instrs.length) (hi : i < instrs.length)
    (hslot : slot vs i < tuAllocatedMaxInstrs - 1) : dueFills vs i = [] := by
  by_contra hne
  have hlate := h.full hi hne
  omega

theorem FillsLate.length_eq (h : FillsLate vs instrs.length) (hi : i ≤ instrs.length)
    (hslot : ∀ j, j < i → slot vs j < tuAllocatedMaxInstrs - 1) : (dueUpTo vs instrs i).length = slot vs i :=
  length_dueUpTo instrs fun j hj => h.dueFills_nil (Nat.lt_of_lt_of_le hj hi) (hslot j hj)

private theorem not_isImage_fills {e : TuAllocated} (h : e ∈ dueFills vs i) : ¬ e.isImage = true := by
  obtain ⟨_, _, -, -, rfl⟩ := mem_dueFills.1 h
  exact Bool.false_ne_true

private theorem not_isImage_spills {e : TuAllocated} (h : e ∈ dueSpills vs i) : ¬ e.isImage = true := by
  obtain ⟨_, _, -, -, rfl⟩ := mem_dueSpills.1 h
  exact Bool.false_ne_true

private theorem find?_dueAt (rest : List TuAllocated) :
    (dueAt vs instrs i ++ rest).find? TuAllocated.isImage = some (dueImage vs instrs i) := by
  have hfills : (dueFills vs i).find? TuAllocated.isImage = none :=
    List.find?_eq_none.2 fun e he => not_isImage_fills he
  unfold dueAt
  rw [List.append_assoc, List.find?_append, hfills, Option.none_or, List.cons_append]
  exact List.find?_cons_of_pos rfl

/-- Beyond its slot the last instruction has left only stores. -/
private theorem FillsLate.drop_dueUpTo (h : FillsLate vs instrs.length) (hi : i < instrs.length)
    (hslot : ∀ j, j ≤ i → slot vs j < tuAllocatedMaxInstrs - 1) :
    ((dueUpTo vs instrs (i + 1)).drop (tuAllocatedMaxInstrs - 1)).find? TuAllocated.isImage = none := by
  have hlen := h.length_eq (Nat.le_of_lt hi) fun j hj => hslot j (Nat.le_of_lt hj)
  have hlt := hslot i (Nat.le_refl i)
  obtain ⟨room, hroom⟩ : ∃ room, tuAllocatedMaxInstrs - 1 = (dueUpTo vs instrs i).length + (room + 1) :=
    ⟨tuAllocatedMaxInstrs - 1 - (dueUpTo vs instrs i).length - 1, by omega⟩
  rw [dueUpTo_succ, hroom, List.drop_append, List.drop_eq_nil_of_le (by omega), List.nil_append, Nat.add_sub_cancel_left]
  unfold dueAt
  rw [h.dueFills_nil hi hlt, List.nil_append, List.drop_succ_cons]
  exact List.find?_eq_none.2 fun e he => not_isImage_spills (List.mem_of_mem_drop he)

/-- An instruction has an image if the one before it has left an entry. -/
theorem FillsLate.image_emitted (h : FillsLate vs instrs.length) (hi : i < instrs.length)
    (hslot : ∀ j, j < i → slot vs j < tuAllocatedMaxInstrs - 1) :
    dueImage vs instrs i ∈ (tuLiveApply vs instrs).entries := by
  have hlen := h.length_eq (Nat.le_of_lt hi) hslot
  obtain ⟨rest, hrest⟩ := due_split vs hi
  by_cases hroom : slot vs i < tuAllocatedMaxInstrs - 1
  · unfold dueAt at hrest
    rw [h.dueFills_nil hi hroom, List.nil_append, List.cons_append] at hrest
    exact mem_entries_of_lt hrest (by omega)
  · -- the last entry goes to the next image, which is this one
    cases i with
    | zero =>
      rw [slot_zero] at hroom
      exact absurd (by decide) hroom
    | succ j =>
      rw [tuLiveApply_entries, List.mem_append, Option.mem_toList, hrest, List.drop_append_of_le_length (by omega),
        List.find?_append, h.drop_dueUpTo (Nat.lt_of_succ_lt hi) fun q hq => hslot q (by omega), find?_dueAt]
      exact Or.inr rfl

/-- The first instruction beyond the entries. -/
private theorem exists_full {j : Nat} (h : tuAllocatedMaxInstrs - 1 ≤ slot vs j) :
    ∃ m, m ≤ j ∧ tuAllocatedMaxInstrs - 1 ≤ slot vs m ∧ ∀ q, q < m → slot vs q < tuAllocatedMaxInstrs - 1 := by
  have hex : ∃ m, tuAllocatedMaxInstrs - 1 ≤ slot vs m := ⟨j, h⟩
  exact ⟨Nat.find hex, Nat.find_min' hex h, Nat.find_spec hex, fun q hq => Nat.not_le.1 (Nat.find_min hex hq)⟩

/-- Only such instructions have an image. -/
theorem FillsLate.image_reached (h : FillsLate vs instrs.length) {instr : TuInstruction}
    (hmem : .image i instr ∈ (tuLiveApply vs instrs).entries) :
    i < instrs.length ∧ ∀ j, j < i → slot vs j < tuAllocatedMaxInstrs - 1 := by
  have hi : i < instrs.length := by
    obtain ⟨j, hj, hdue⟩ := mem_due.1 ((entries_sublist vs instrs).subset hmem)
    rw [image_mem_dueAt hdue]
    exact hj
  refine ⟨hi, fun j hji => ?_⟩
  by_contra hfull
  obtain ⟨m, hmj, hm, hmin⟩ := exists_full (Nat.not_lt.1 hfull)
  have hmlt : m < instrs.length := by omega
  have hlen := h.length_eq (Nat.le_of_lt hmlt) hmin
  have hpast : ∀ e ∈ dueUpTo vs instrs m, e ≠ .image i instr := by
    rintro e he rfl
    obtain ⟨q, hq, hdue⟩ := mem_dueUpTo.1 he
    have hiq := image_mem_dueAt hdue
    omega
  rw [tuLiveApply_entries, List.mem_append, Option.mem_toList] at hmem
  rcases hmem with htake | hfind
  · exact hpast _ (take_due (Nat.le_of_lt hmlt) (by omega) htake) rfl
  · obtain ⟨rest, hrest⟩ := due_split vs hmlt
    rw [hrest, List.drop_append_of_le_length (by omega), List.find?_append, find?_dueAt] at hfind
    cases hlate : ((dueUpTo vs instrs m).drop (tuAllocatedMaxInstrs - 1)).find? TuAllocated.isImage with
    | some e =>
      rw [hlate] at hfind
      exact hpast e (List.mem_of_mem_drop (List.mem_of_find?_eq_some hlate)) (Option.some.inj hfind)
    | none =>
      rw [hlate, Option.none_or] at hfind
      have him := (TuAllocated.image.inj (Option.some.inj hfind)).1
      omega

/-- The store of a register comes after one instruction only. -/
private theorem spill_mem_dueUpTo {k : Nat} {v : TuVreg} {store : TuInstruction} (hk : vs[k]? = some v)
    (hstored : storedAt i v = true) {m : Nat} (hm : m ≤ i) : .spill k store ∉ dueUpTo vs instrs m := by
  intro hmem
  obtain ⟨j, hj, hdue⟩ := mem_dueUpTo.1 hmem
  obtain ⟨q, w, hw, hlast, hq⟩ := mem_dueSpills.1 (spill_mem_dueAt.1 hdue)
  obtain ⟨rfl, -⟩ := TuAllocated.spill.inj hq
  obtain rfl := Option.some.inj (hk.symm.trans hw)
  unfold storedAt at hlast hstored
  rw [Bool.and_eq_true, decide_eq_true_eq] at hlast hstored
  omega

/-- A store is emitted exactly when its slot is an entry. -/
theorem FillsLate.spill_emitted_iff (h : FillsLate vs instrs.length) (hi : i < instrs.length) {k : Nat} {v : TuVreg}
    (hk : vs[k]? = some v) (hstored : storedAt i v = true) {store : TuInstruction} :
    .spill k store ∈ (tuLiveApply vs instrs).entries ↔
      store = makeSpillInstr v ∧ storeSlot vs i k < tuAllocatedMaxInstrs - 1 := by
  obtain ⟨before, rest', hsplit, hbefore, hfresh⟩ := dueSpills_split hk hstored
  obtain ⟨rest, hrest⟩ := due_split vs hi
  constructor
  · intro hmem
    have htake := mem_take_of_transfer hmem rfl
    refine ⟨?_, ?_⟩
    · obtain ⟨j, -, hdue⟩ := mem_due.1 (List.mem_of_mem_take htake)
      obtain ⟨q, w, hw, -, hq⟩ := mem_dueSpills.1 (spill_mem_dueAt.1 hdue)
      obtain ⟨rfl, rfl⟩ := TuAllocated.spill.inj hq
      rw [Option.some.inj (hk.symm.trans hw)]
    · by_contra hlate
      by_cases hroom : slot vs i < tuAllocatedMaxInstrs - 1
      · have hslot : ∀ j, j < i → slot vs j < tuAllocatedMaxInstrs - 1 := fun j hj =>
          Nat.lt_trans (slot_lt hj) hroom
        have hlen := h.length_eq (Nat.le_of_lt hi) hslot
        have hdue : due vs instrs = (dueUpTo vs instrs i ++ dueImage vs instrs i :: before) ++
            (.spill k (makeSpillInstr v) :: rest' ++ rest) := by
          rw [hrest]
          unfold dueAt
          rw [h.dueFills_nil hi hroom, hsplit]
          simp
        unfold storeSlot at hlate
        rw [hdue, List.take_append_of_le_length (by
          rw [List.length_append, List.length_cons]
          omega)] at htake
        rcases List.mem_append.1 (List.mem_of_mem_take htake) with hpast | hnow
        · exact spill_mem_dueUpTo hk hstored (Nat.le_refl i) hpast
        · rcases List.mem_cons.1 hnow with himage | hstore
          · cases himage
          · exact hfresh _ hstore
      · obtain ⟨m, hmi, hm, hmin⟩ := exists_full (Nat.not_lt.1 hroom)
        have hlen := h.length_eq (Nat.le_of_lt (Nat.lt_of_le_of_lt hmi hi)) hmin
        exact spill_mem_dueUpTo hk hstored hmi
          (take_due (Nat.le_of_lt (Nat.lt_of_le_of_lt hmi hi)) (by omega) htake)
  · rintro ⟨rfl, hslot⟩
    unfold storeSlot at hslot
    have hroom : slot vs i < tuAllocatedMaxInstrs - 1 := by omega
    have hlen := h.length_eq (Nat.le_of_lt hi) fun j hj => Nat.lt_trans (slot_lt hj) hroom
    have hdue : due vs instrs = (dueUpTo vs instrs i ++ dueImage vs instrs i :: before) ++
        .spill k (makeSpillInstr v) :: (rest' ++ rest) := by
      rw [hrest]
      unfold dueAt
      rw [h.dueFills_nil hi hroom, hsplit]
      simp
    refine mem_entries_of_lt hdue ?_
    rw [List.length_append, List.length_cons]
    omega

end

/-! ### Addresses -/

private theorem low_half (x : UInt32) : (x &&& 0xFFFF).toUInt16.toNat = x.toNat % 2 ^ 16 := by
  have hmask : (0xFFFF : UInt32).toNat = 2 ^ 16 - 1 := rfl
  rw [UInt32.toNat_toUInt16, UInt32.toNat_and, hmask, Nat.and_two_pow_sub_one_eq_mod, Nat.mod_mod]

/-- Transfer code addresses the low halves of offset and size. -/
theorem transfer_operand (v : TuVreg) :
    (makeFillInstr v).dmaOperand = (makeSpillInstr v).dmaOperand ∧
      (makeSpillInstr v).dmaOperand.region = v.region ∧
      (makeSpillInstr v).dmaOperand.stop.toNat = v.transferStop := by
  refine ⟨rfl, ?_, ?_⟩
  · show TuSramRegionId.ofChannel (regionFlags v.region &&& 0x3) = v.region
    cases v.region <;> rfl
  · have hoffset := low_half v.physicalOffset
    have hsize := low_half v.sizeBytes
    show ((v.physicalOffset &&& 0xFFFF).toUInt16.toUInt32 +
      if (v.sizeBytes &&& 0xFFFF).toUInt16 ≠ 0 then (v.sizeBytes &&& 0xFFFF).toUInt16.toUInt32 else 1).toNat = _
    unfold TuVreg.transferStop
    rw [← hoffset, ← hsize]
    generalize (v.physicalOffset &&& 0xFFFF).toUInt16 = offset
    generalize (v.sizeBytes &&& 0xFFFF).toUInt16 = size
    have hofflt := offset.toNat_lt
    have hsizelt := size.toNat_lt
    have hone : (1 : UInt32).toNat = 1 := rfl
    by_cases hzero : size = 0
    · subst hzero
      have hnat : (0 : UInt16).toNat = 0 := rfl
      rw [if_neg (fun hne => hne rfl), UInt32.toNat_add, UInt16.toNat_toUInt32, hone, hnat]
      omega
    · have hpos : size.toNat ≠ 0 := fun hc => hzero (UInt16.toNat_inj.1 hc)
      rw [if_pos hzero, UInt32.toNat_add, UInt16.toNat_toUInt32, UInt16.toNat_toUInt32]
      omega

/-! ### Spill code in order -/

variable {config : TuLiveConfig} {vs : List TuVreg} {instrs : List TuInstruction}

/-- A fill that follows a store of its register would break the order of the output. -/
theorem SpillCodeSound.no_fills (h : SpillCodeSound config vs instrs (tuLiveApply vs instrs).entries) (k : Nat)
    (fill : TuInstruction) : .fill k fill ∉ (tuLiveApply vs instrs).entries := by
  intro hmem
  obtain ⟨j, -, hdue⟩ := mem_due.1 ((entries_sublist vs instrs).subset hmem)
  obtain ⟨q, v, hv, -, hq⟩ := mem_dueFills.1 (fill_mem_dueAt.1 hdue)
  obtain ⟨rfl, -⟩ := TuAllocated.fill.inj hq
  obtain ⟨past, rest, hsplit⟩ := List.append_of_mem hmem
  obtain ⟨before, store, between, hpast, -⟩ := h.fills past _ rest hsplit k v fill hv rfl
  have horder := (due_order vs instrs).sublist (entries_sublist vs instrs)
  rw [hsplit, hpast, List.pairwise_append] at horder
  exact horder.2.2 (.spill k store) (List.mem_append_right _ (List.mem_cons_self ..)) (.fill k fill)
    (List.mem_cons_self ..) k store fill rfl rfl

/-- The spill code of a register table is well formed exactly when the output has no fills, no instruction with an
image reads a spilled register and the stores that are emitted stay inside their regions. -/
theorem spillCode_iff (config : TuLiveConfig) (vs : List TuVreg) (instrs : List TuInstruction) :
    SpillCodeSound config vs instrs (tuLiveApply vs instrs).entries ↔ Quiet config vs instrs := by
  constructor
  · intro h
    have hnone := h.no_fills
    have hlate : FillsLate vs instrs.length := fillsLate_iff.2 hnone
    refine ⟨hlate, fun i hi hslot k v hreads => ?_, fun i k v hi hk hstored hslot => ?_⟩
    · by_contra hspilled
      rw [Bool.not_eq_false] at hspilled
      obtain ⟨past, rest, hsplit⟩ := List.append_of_mem (hlate.image_emitted hi hslot)
      obtain ⟨fill, hfill⟩ := h.reads past _ rest hsplit i _ k v rfl hreads hspilled
      refine hnone k fill ?_
      rw [hsplit]
      exact List.mem_append_left _ hfill
    · have hbound := h.bounds _ ((hlate.spill_emitted_iff hi hk hstored).2 ⟨rfl, hslot⟩) rfl
      obtain ⟨-, hregion, hstop⟩ := transfer_operand v
      have hbound : (makeSpillInstr v).dmaOperand.stop.toNat ≤
          (regionCapacity config (makeSpillInstr v).dmaOperand.region).toNat := hbound
      rwa [hregion, hstop] at hbound
  · intro h
    have hnone := fillsLate_iff.1 h.fills
    refine ⟨fun past e rest hsplit k v fill _ he => ?_, fun past e rest hsplit i instr k v he hreads hspilled => ?_,
      fun k fill store hfill _ => absurd hfill (hnone k fill), fun e he hnot => ?_⟩
    · subst he
      refine absurd ?_ (hnone k fill)
      rw [hsplit]
      exact List.mem_append_right _ (List.mem_cons_self ..)
    · subst he
      have hmem : .image i instr ∈ (tuLiveApply vs instrs).entries := by
        rw [hsplit]
        exact List.mem_append_right _ (List.mem_cons_self ..)
      obtain ⟨hi, hslot⟩ := h.fills.image_reached hmem
      rw [h.reads i hi hslot k v hreads] at hspilled
      cases hspilled
    · cases e with
      | image i instr => cases hnot
      | fill k fill => exact absurd he (hnone k fill)
      | spill k store =>
        obtain ⟨i, hi, hdue⟩ := mem_due.1 ((entries_sublist vs instrs).subset he)
        obtain ⟨q, v, hk, hstored, hq⟩ := mem_dueSpills.1 (spill_mem_dueAt.1 hdue)
        obtain ⟨rfl, -⟩ := TuAllocated.spill.inj hq
        obtain ⟨rfl, hslot⟩ := (h.fills.spill_emitted_iff hi hk hstored).1 he
        obtain ⟨-, hregion, hstop⟩ := transfer_operand v
        show (makeSpillInstr v).dmaOperand.stop.toNat ≤
          (regionCapacity config (makeSpillInstr v).dmaOperand.region).toNat
        rw [hregion, hstop]
        exact h.bounds i k v hi hk hstored hslot

/-- Activations that do not fit: they are filled before the product and stored after it. -/
theorem not_spillCodeSound_mma :
    let instrs : List TuInstruction :=
      [{ opcode := TuIsa.dmaLoad, dim1 := 32 }, { opcode := TuIsa.dmaLoad, flags := 1, dim1 := 62000 },
        { opcode := TuIsa.mma, dim0 := 4, dim1 := 4, dim2 := 4 }]
    ∃ vs s, tuLiveAnalyze instrs = some vs ∧ tuLiveColor tuLiveConfigDefault vs = some s ∧
      ¬ SpillCodeSound tuLiveConfigDefault s.vregs instrs (tuLiveApply s.vregs instrs).entries := by
  intro instrs
  have hall : ((tuLiveAnalyze instrs).bind (tuLiveColor tuLiveConfigDefault)).any (fun s =>
      (tuLiveApply s.vregs instrs).entries.any TuAllocated.isFill) = true := by decide +kernel
  obtain ⟨s, hs, hfill⟩ := (Option.any_eq_true ..).1 hall
  obtain ⟨vs, hvs, hcolor⟩ := Option.bind_eq_some_iff.1 hs
  refine ⟨vs, s, hvs, hcolor, fun hsound => ?_⟩
  obtain ⟨e, hmem, he⟩ := List.any_eq_true.1 hfill
  cases e with
  | image i instr => cases he
  | fill k fill => exact hsound.no_fills k fill hmem
  | spill k store => cases he

end Tusim
