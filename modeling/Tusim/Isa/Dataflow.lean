import Tusim.Isa.Patching

/-!
# Dataflow through an allocation

A read of a program finds the bytes of the definitions that reach it.  In the output it finds the same bytes
exactly when every definition that reaches it moves as far as the read, still writes the byte, and no definition in
between moves onto it (`preservesDataflow_iff`).
-/

namespace Tusim

/-- Byte `x` of the region lies in the operand. -/
def TuOperand.Covers (operand : TuOperand) (x : Nat) : Prop :=
  operand.start.toNat ≤ x ∧ x < operand.start.toNat + operand.size.toNat

/-- What instruction `j` finds in byte `x` of the region is byte `k` of what instruction `i` wrote. -/
structure Reaches (program : List TuInstruction) (i k j : Nat) (region : TuSramRegionId) (x : Nat) : Prop where
  lt : i < j
  writes : ∃ d, extractVregDef (program.getD i default) = some d ∧ d.region = region ∧ k < d.size.toNat ∧
    d.start.toNat + k = x
  last : ∀ m d, i < m → m < j → extractVregDef (program.getD m default) = some d → d.region = region → ¬ d.Covers x

/-- Instruction `j` reads through `v` in the output the bytes it reads through `u` in the input. -/
structure ReadsSame (instrs output : List TuInstruction) (j : Nat) (u v : TuOperand) : Prop where
  region : v.region = u.region
  size : v.size = u.size
  reaches : ∀ b i k, b < u.size.toNat → Reaches instrs i k j u.region (u.start.toNat + b) →
    Reaches output i k j v.region (v.start.toNat + b)

/-- All reads of the output are those of the input. -/
def PreservesDataflow (instrs output : List TuInstruction) : Prop :=
  ∀ j, j < output.length →
    List.Forall₂ (ReadsSame instrs output j) (extractVregUses (instrs.getD j default))
      (extractVregUses (output.getD j default))

/-! ### When it is preserved -/

/-- Byte `k` of instruction `i` follows its read through byte `b` of operand `u` of instruction `j`: both move as far,
the byte is still written, and nothing in between moves onto it. -/
structure Follows (config : TuLiveConfig) (instrs : List TuInstruction) (i k j : Nat) (u : TuOperand) (b : Nat) :
    Prop where
  alike : ∀ d, extractVregDef (instrs.getD i default) = some d →
    (writeStart config instrs i d).toNat + u.start.toNat = d.start.toNat + (readStart config instrs j u).toNat
  written : ∀ d, extractVregDef (instrs.getD i default) = some d → k < (writeSize config instrs i d).toNat
  clear : ∀ m d, i < m → m < j → extractVregDef (instrs.getD m default) = some d → d.region = u.region →
    ¬ (d.moveTo (writeStart config instrs m d) (writeSize config instrs m d)).Covers
      ((readStart config instrs j u).toNat + b)

/-- All bytes that instruction `j` reads from definitions follow it. -/
def ReadsFollow (config : TuLiveConfig) (instrs : List TuInstruction) (j : Nat) : Prop :=
  ∀ u ∈ extractVregUses (instrs.getD j default), ∀ b i k, b < u.size.toNat →
    Reaches instrs i k j u.region (u.start.toNat + b) → Follows config instrs i k j u b

section

variable {instrs output : List TuInstruction} {config : TuLiveConfig} {i k j : Nat}

/-- The operands of the output are those of the input, moved. -/
structure Moved (config : TuLiveConfig) (instrs output : List TuInstruction) : Prop where
  definition : ∀ m, m < output.length → extractVregDef (output.getD m default) =
    (extractVregDef (instrs.getD m default)).map fun d =>
      d.moveTo (writeStart config instrs m d) (writeSize config instrs m d)
  uses : ∀ m, m < output.length → extractVregUses (output.getD m default) =
    (extractVregUses (instrs.getD m default)).map fun u => u.moveTo (readStart config instrs m u) u.size

/-- A definition that reaches a read reaches its image exactly when it follows. -/
theorem Moved.reaches_iff (h : Moved config instrs output) (hj : j < output.length) {u : TuOperand} {b : Nat}
    (hreaches : Reaches instrs i k j u.region (u.start.toNat + b)) :
    Reaches output i k j u.region ((readStart config instrs j u).toNat + b) ↔ Follows config instrs i k j u b := by
  obtain ⟨hij, ⟨d, hd, hr, hk, hstart⟩, -⟩ := hreaches
  have hdef := h.definition i (Nat.lt_trans hij hj)
  rw [hd, Option.map_some] at hdef
  constructor
  · rintro ⟨-, ⟨d', hd', -, hk', hstart'⟩, hlast⟩
    obtain rfl := Option.some.inj (hdef.symm.trans hd')
    rw [TuOperand.moveTo_size] at hk'
    have hstart' : (writeStart config instrs i d).toNat + k = (readStart config instrs j u).toNat + b := hstart'
    refine ⟨fun e he => ?_, fun e he => ?_, fun m e hm hmj he her => ?_⟩
    · obtain rfl := Option.some.inj (hd.symm.trans he)
      omega
    · obtain rfl := Option.some.inj (hd.symm.trans he)
      exact hk'
    · have hmdef := h.definition m (Nat.lt_trans hmj hj)
      rw [he, Option.map_some] at hmdef
      exact hlast m _ hm hmj hmdef her
  · rintro ⟨halike, hwritten, hclear⟩
    have halike := halike d hd
    refine ⟨hij, ⟨_, hdef, hr, ?_, ?_⟩, fun m e hm hmj he her => ?_⟩
    · rw [TuOperand.moveTo_size]
      exact hwritten d hd
    · show (writeStart config instrs i d).toNat + k = _
      omega
    · rw [h.definition m (Nat.lt_trans hmj hj), Option.map_eq_some_iff] at he
      obtain ⟨e', he', rfl⟩ := he
      exact hclear m e' hm hmj he' her

theorem Moved.readsSame_iff (h : Moved config instrs output) (hj : j < output.length) :
    List.Forall₂ (ReadsSame instrs output j) (extractVregUses (instrs.getD j default))
      (extractVregUses (output.getD j default)) ↔ ReadsFollow config instrs j := by
  rw [h.uses j hj, List.forall₂_map_right_iff, List.forall₂_same]
  unfold ReadsFollow
  constructor
  · intro hsame u hu b i k hb hreaches
    exact (h.reaches_iff hj hreaches).1 ((hsame u hu).reaches b i k hb hreaches)
  · intro hfollow u hu
    refine ⟨rfl, TuOperand.moveTo_size .., fun b i k hb hreaches => ?_⟩
    exact (h.reaches_iff hj hreaches).2 (hfollow u hu b i k hb hreaches)

end

/-- The images of an allocation. -/
theorem allocate_moved {instrs : List TuInstruction} {config : Option TuLiveConfig} {output : TuAllocatedSequence}
    (h : tuLiveAllocate instrs config = some output) :
    Moved (config.getD tuLiveConfigDefault) instrs (output.images.map Prod.snd) := by
  obtain ⟨vs, hvs, hmap⟩ := Option.bind_eq_some_iff.1 h
  obtain ⟨s, hs, rfl⟩ := Option.map_eq_some_iff.1 hmap
  obtain ⟨s', hs', hplaces, hsettled, -⟩ := color_settled hvs (config.getD tuLiveConfigDefault)
  obtain rfl := Option.some.inj (hs.symm.trans hs')
  have hallocated : Allocated (config.getD tuLiveConfigDefault) instrs vs s := ⟨hvs, hplaces, hsettled⟩
  have hinitial := images_initial s.vregs instrs
  have himage : ∀ m, m < ((tuLiveApply s.vregs instrs).images.map Prod.snd).length → m < instrs.length ∧
      ((tuLiveApply s.vregs instrs).images.map Prod.snd).getD m default =
        patchInstruction (instrs.getD m default) s.vregs m := by
    intro m hm
    rw [List.length_map] at hm
    have hlen := hinitial.length_le
    rw [List.length_map, List.length_range] at hlen
    refine ⟨by omega, ?_⟩
    rw [List.getD_eq_getElem _ _ (by rwa [List.length_map]), List.getElem_map, hinitial.getElem hm, List.getElem_map,
      List.getElem_range]
    rfl
  refine ⟨fun m hm => ?_, fun m hm => ?_⟩
  · obtain ⟨hmi, hget⟩ := himage m hm
    rw [hget]
    exact (hallocated.patchInstruction_operands hmi).1
  · obtain ⟨hmi, hget⟩ := himage m hm
    rw [hget]
    exact (hallocated.patchInstruction_operands hmi).2

end Tusim
