import Tusim.Isa.Liveness

/-!
# Scheduler and allocator on the same instruction

Both passes decode operands by cases on the opcode.  `AccessCase` names the cases, and each decoder is its choice
of a case (`schedCase`, `defCase`, `useCase`) followed by what the case touches.  The three choices are compared
over all opcodes (`cases_table`), and only the case of the pooling instructions depends on an operand field.
-/

namespace Tusim

/-- The scheduler reports this operand as read. -/
def TuSramAccess.Reads (acc : TuSramAccess) (operand : TuOperand) : Prop :=
  acc.reads operand.region = true ∧ acc.readOffsets operand.region = (operand.start, operand.stop)

/-- The scheduler reports this operand as written. -/
def TuSramAccess.Writes (acc : TuSramAccess) (operand : TuOperand) : Prop :=
  acc.writes operand.region = true ∧ acc.writeOffsets operand.region = (operand.start, operand.stop)

/-- Scheduler and allocator report the same operands. -/
def PassesAgree (instr : TuInstruction) : Prop :=
  ∀ operand, ((tuSchedAnalyzeAccess instr).Writes operand ↔ extractVregDef instr = some operand) ∧
    ((tuSchedAnalyzeAccess instr).Reads operand ↔ operand ∈ extractVregUses instr)

/-! ### The cases of the decoders -/

inductive AccessCase
  | dmaLoad
  | dmaStore
  | product
  | attention
  | convolution
  | inPlace
  | rowwise
  | pool
  | reduce
  | nothing
deriving DecidableEq

/-- The case `tuSchedAnalyzeAccess` takes. -/
def schedCase (op : UInt8) : AccessCase :=
  if isDmaOp op then
    if op = TuIsa.dmaLoad || op = TuIsa.dmaLoadStrided || op = TuIsa.dmaScatter || op = TuIsa.dmaBroadcast then .dmaLoad
    else .dmaStore
  else if isComputeOp op then
    if op ∈ [TuIsa.mma, TuIsa.mmaBias, TuIsa.mmaFused, TuIsa.sparseMma] then .product
    else if op ∈ [TuIsa.attention, TuIsa.attnQk, TuIsa.attnPv] then .attention
    else if op ∈ [TuIsa.conv2d, TuIsa.conv3d, TuIsa.depthwiseConv, TuIsa.transposedConv] then .convolution
    else if op ∈ [TuIsa.elementwise, TuIsa.add, TuIsa.mul, TuIsa.relu, TuIsa.gelu, TuIsa.silu, TuIsa.tanh,
        TuIsa.sigmoid, TuIsa.exp, TuIsa.scale] then .inPlace
    else if op ∈ [TuIsa.softmax, TuIsa.logSoftmax, TuIsa.layerNorm, TuIsa.rmsNorm, TuIsa.batchNorm, TuIsa.groupNorm] then
      .rowwise
    else if op ∈ [TuIsa.poolMax, TuIsa.poolAvg, TuIsa.poolGlobalAvg] then .pool
    else if op ∈ [TuIsa.reduceSum, TuIsa.reduceMax, TuIsa.reduceMean] then .reduce
    else .nothing
  else .nothing

/-- The case `extractVregDef` takes. -/
def defCase (op : UInt8) : AccessCase :=
  if isLoadOp op then .dmaLoad
  else if isMmaOp op then .product
  else if TuIsa.add ≤ op && op ≤ TuIsa.exp then .inPlace
  else if op = TuIsa.softmax || op = TuIsa.logSoftmax || TuIsa.layerNorm ≤ op then .rowwise
  else if op = TuIsa.conv2d || op = TuIsa.conv3d || op = TuIsa.depthwiseConv then .convolution
  else if op = TuIsa.attention || op = TuIsa.attnQk || op = TuIsa.attnPv then .attention
  else if op = TuIsa.poolMax || op = TuIsa.poolAvg || op = TuIsa.poolGlobalAvg then .pool
  else .nothing

/-- The case `extractVregUses` takes. -/
def useCase (op : UInt8) : AccessCase :=
  if isStoreOp op then .dmaStore
  else if isMmaOp op then .product
  else if TuIsa.relu ≤ op && op ≤ TuIsa.exp then .inPlace
  else if op = TuIsa.softmax || op = TuIsa.logSoftmax || TuIsa.layerNorm ≤ op then .rowwise
  else .nothing

section

variable (instr : TuInstruction)

/-- What the scheduler reports in a case. -/
def AccessCase.access : AccessCase → TuSramAccess
  | .dmaLoad => TuSramAccess.withWrite {} (extractDmaRange instr).1 (extractDmaRange instr).2.1 (extractDmaRange instr).2.2
  | .dmaStore => TuSramAccess.withRead {} (extractDmaRange instr).1 (extractDmaRange instr).2.1 (extractDmaRange instr).2.2
  | .product =>
    TuSramAccess.withRead {} .w instr.dim0.toUInt32
        (instr.dim0.toUInt32 + instr.dim2.toUInt32 * instr.dim1.toUInt32 * 2)
      |>.withRead .a instr.immLow (instr.immLow + instr.dim2.toUInt32 * instr.dim1.toUInt32 * 2)
      |>.withWrite .o instr.immHigh (instr.immHigh + instr.dim0.toUInt32 * instr.dim1.toUInt32 * 4)
  | .attention | .pool =>
    TuSramAccess.withRead {} .a instr.dim0.toUInt32 (instr.dim0.toUInt32 + 65536)
      |>.withWrite .o instr.immHigh (instr.immHigh + 65536)
  | .convolution =>
    TuSramAccess.withRead {} .w 0 0xFFFFFFFF |>.withRead .a 0 0xFFFFFFFF |>.withWrite .o 0 0xFFFFFFFF
  | .inPlace =>
    TuSramAccess.withRead {} .o instr.dim0.toUInt32 (instr.dim0.toUInt32 + instr.dim1.toUInt32 * 4)
      |>.withWrite .o instr.dim0.toUInt32 (instr.dim0.toUInt32 + instr.dim1.toUInt32 * 4)
  | .rowwise =>
    TuSramAccess.withRead {} .a instr.dim0.toUInt32 (instr.dim0.toUInt32 + instr.dim1.toUInt32 * 4)
      |>.withWrite .o instr.immHigh (instr.immHigh + instr.dim1.toUInt32 * 4)
  | .reduce =>
    TuSramAccess.withRead {} .a instr.dim0.toUInt32 (instr.dim0.toUInt32 + instr.dim1.toUInt32 * 4)
      |>.withWrite .o instr.immHigh (instr.immHigh + instr.dim2.toUInt32 * 4)
  | .nothing => {}

/-- What the allocator takes as the definition in a case. -/
def AccessCase.definition : AccessCase → Option TuOperand
  | .dmaLoad => some instr.dmaOperand
  | .product => some ⟨.o, instr.immHigh, instr.immHigh + instr.dim0.toUInt32 * instr.dim1.toUInt32 * 4⟩
  | .inPlace => some ⟨.o, instr.dim0.toUInt32, instr.dim0.toUInt32 + instr.dim1.toUInt32 * 4⟩
  | .rowwise => some ⟨.o, instr.immHigh, instr.immHigh + instr.dim1.toUInt32 * 4⟩
  | .convolution => some ⟨.o, 0, 0xFFFFFFFF⟩
  | .attention | .pool => some ⟨.o, instr.immHigh, instr.immHigh + 65536⟩
  | .dmaStore | .reduce | .nothing => none

/-- What the allocator takes as uses in a case. -/
def AccessCase.uses : AccessCase → List TuOperand
  | .dmaStore => [instr.dmaOperand]
  | .product =>
    [⟨.w, instr.dim0.toUInt32, instr.dim0.toUInt32 + instr.dim2.toUInt32 * instr.dim1.toUInt32 * 2⟩,
      ⟨.a, instr.immLow, instr.immLow + instr.dim2.toUInt32 * instr.dim1.toUInt32 * 2⟩]
  | .inPlace => [⟨.o, instr.dim0.toUInt32, instr.dim0.toUInt32 + instr.dim1.toUInt32 * 4⟩]
  | .rowwise => [⟨.a, instr.dim0.toUInt32, instr.dim0.toUInt32 + instr.dim1.toUInt32 * 4⟩]
  | .dmaLoad | .attention | .convolution | .pool | .reduce | .nothing => []

theorem analyzeAccess_eq : tuSchedAnalyzeAccess instr = (schedCase instr.opcode).access instr := by
  unfold tuSchedAnalyzeAccess schedCase extractComputeRange
  dsimp only
  split
  · split
    · rfl
    · rfl
  · split
    · repeat (split; · rfl)
      rfl
    · rfl

theorem extractVregDef_eq : extractVregDef instr = (defCase instr.opcode).definition instr := by
  unfold extractVregDef defCase
  dsimp only
  repeat (split; · rfl)
  rfl

theorem extractVregUses_eq : extractVregUses instr = (useCase instr.opcode).uses instr := by
  unfold extractVregUses useCase
  dsimp only
  repeat (split; · rfl)
  rfl

end

/-! ### Comparing the cases -/

def isPoolOp (op : UInt8) : Bool := TuIsa.poolMax ≤ op && op ≤ TuIsa.poolGlobalAvg

/-- The opcodes both passes decode alike: nothing at all, products, in-place activations and row-wise operations. -/
def decodedAlike (op : UInt8) : Bool :=
  op ≤ TuIsa.mmaFused || (TuIsa.attnPv < op && op < TuIsa.elementwise) || (TuIsa.relu ≤ op && op ≤ TuIsa.exp) ||
    (TuIsa.scale < op && op < TuIsa.reduceSum) || (TuIsa.softmax ≤ op && op ≤ TuIsa.batchNorm) || op = TuIsa.sparseMma

/-- The cases of an opcode: decoded alike, alike up to a field, or different for one of three reasons. -/
def CasesOf (op : UInt8) : Prop :=
  (decodedAlike op = true ∧ (schedCase op, defCase op, useCase op) ∈
    [(.product, .product, .product), (.inPlace, .inPlace, .inPlace), (.rowwise, .rowwise, .rowwise),
      (.nothing, .nothing, .nothing)]) ∨
  (decodedAlike op = false ∧ isPoolOp op = true ∧ (schedCase op, defCase op, useCase op) = (.pool, .rowwise, .rowwise)) ∨
  (decodedAlike op = false ∧ isPoolOp op = false ∧
    ((schedCase op ∈ [.attention, .convolution, .inPlace, .reduce] ∧ useCase op = .nothing) ∨
      (schedCase op ∈ [.dmaStore, .nothing] ∧ defCase op = .rowwise) ∨
      (schedCase op = .dmaLoad ∧ useCase op = .rowwise)))

instance : DecidablePred CasesOf := fun op => by
  unfold CasesOf
  infer_instance

theorem cases_table (op : UInt8) : CasesOf op := by
  have hall : ∀ n : Fin 256, CasesOf (.ofNat n) := by decide +kernel
  have hop := hall ⟨op.toNat, op.toNat_lt⟩
  rwa [UInt8.ofNat_toNat] at hop

section

variable {instr : TuInstruction} {s d u : AccessCase}

/-- The choices of a case report the same operands. -/
def CasesAgree (instr : TuInstruction) (s d u : AccessCase) : Prop :=
  ∀ operand, ((s.access instr).Writes operand ↔ d.definition instr = some operand) ∧
    ((s.access instr).Reads operand ↔ operand ∈ u.uses instr)

theorem passesAgree_iff_cases :
    PassesAgree instr ↔ CasesAgree instr (schedCase instr.opcode) (defCase instr.opcode) (useCase instr.opcode) := by
  unfold PassesAgree CasesAgree
  rw [analyzeAccess_eq, extractVregDef_eq, extractVregUses_eq]

private theorem casesAgree_alike (h : (s, d, u) ∈ [(AccessCase.product, AccessCase.product, AccessCase.product),
    (.inPlace, .inPlace, .inPlace), (.rowwise, .rowwise, .rowwise), (.nothing, .nothing, .nothing)]) :
    CasesAgree instr s d u := by
  simp only [List.mem_cons, Prod.mk.injEq, List.not_mem_nil, or_false] at h
  rintro ⟨r, start, stop⟩
  rcases h with ⟨rfl, rfl, rfl⟩ | ⟨rfl, rfl, rfl⟩ | ⟨rfl, rfl, rfl⟩ | ⟨rfl, rfl, rfl⟩ <;> cases r <;>
    simp [TuSramAccess.Writes, TuSramAccess.Reads, AccessCase.access, AccessCase.definition, AccessCase.uses,
      TuSramAccess.withRead, TuSramAccess.withWrite, eq_comm]

private theorem window_iff (x : UInt32) (n : UInt16) : x + 65536 = x + n.toUInt32 * 4 ↔ n = 16384 := by
  have hn := n.toNat_lt
  constructor
  · intro h
    have hnat := congrArg UInt32.toNat h
    simp only [UInt32.toNat_add, UInt32.toNat_mul, UInt16.toNat_toUInt32, UInt32.reduceToNat] at hnat
    apply UInt16.toNat_inj.1
    show n.toNat = 16384
    omega
  · rintro rfl
    rfl

/-- The scheduler takes pooling windows of 64 KiB, the allocator rows of `dim1` words. -/
private theorem casesAgree_pool : CasesAgree instr .pool .rowwise .rowwise ↔ instr.dim1 = 16384 := by
  constructor
  · intro h
    have hdef := (h ⟨.o, instr.immHigh, instr.immHigh + instr.dim1.toUInt32 * 4⟩).1.2 rfl
    have hpair := hdef.2
    simp only [AccessCase.access, TuSramAccess.withWrite, TuSramAccess.withRead, if_true] at hpair
    exact (window_iff _ _).1 (Prod.mk.inj hpair).2
  · intro h
    have hstop : ∀ x : UInt32, x + 65536 = x + instr.dim1.toUInt32 * 4 := fun x => (window_iff x _).2 h
    rintro ⟨r, start, stop⟩
    cases r <;>
      simp [TuSramAccess.Writes, TuSramAccess.Reads, AccessCase.access, AccessCase.definition, AccessCase.uses,
        TuSramAccess.withRead, TuSramAccess.withWrite, hstop, eq_comm]

/-- The scheduler reports a read, the allocator none. -/
private theorem not_casesAgree_unread (hs : s ∈ [AccessCase.attention, .convolution, .inPlace, .reduce])
    (hu : u = .nothing) : ¬ CasesAgree instr s d u := by
  intro h
  have hnone : ∀ operand, ¬ (s.access instr).Reads operand := by
    intro operand hread
    have hmem := (h operand).2.1 hread
    rw [hu] at hmem
    exact List.not_mem_nil hmem
  simp only [List.mem_cons, List.not_mem_nil, or_false] at hs
  rcases hs with rfl | rfl | rfl | rfl
  · exact hnone ⟨.a, _, _⟩ ⟨rfl, rfl⟩
  · exact hnone ⟨.a, _, _⟩ ⟨rfl, rfl⟩
  · exact hnone ⟨.o, _, _⟩ ⟨rfl, rfl⟩
  · exact hnone ⟨.a, _, _⟩ ⟨rfl, rfl⟩

/-- The scheduler reports no write, the allocator a definition. -/
private theorem not_casesAgree_unwritten (hs : s ∈ [AccessCase.dmaStore, .nothing]) (hd : d = .rowwise) :
    ¬ CasesAgree instr s d u := by
  intro h
  subst hd
  have hwrite := ((h ⟨.o, instr.immHigh, instr.immHigh + instr.dim1.toUInt32 * 4⟩).1.2 rfl).1
  simp only [List.mem_cons, List.not_mem_nil, or_false] at hs
  rcases hs with rfl | rfl
  · cases hwrite
  · cases hwrite

/-- The scheduler reports no read of a load, the allocator one. -/
private theorem not_casesAgree_overread (hs : s = .dmaLoad) (hu : u = .rowwise) : ¬ CasesAgree instr s d u := by
  intro h
  subst hs hu
  have hread := ((h ⟨.a, instr.dim0.toUInt32, instr.dim0.toUInt32 + instr.dim1.toUInt32 * 4⟩).2.2
    (List.mem_singleton.2 rfl)).1
  cases hread

end

/-- The passes agree on the opcodes they decode alike, on pooling when a row is 64 KiB, and on nothing else. -/
theorem passesAgree_iff (instr : TuInstruction) :
    PassesAgree instr ↔
      decodedAlike instr.opcode = true ∨ (isPoolOp instr.opcode = true ∧ instr.dim1 = 16384) := by
  rw [passesAgree_iff_cases]
  rcases cases_table instr.opcode with ⟨halike, hcases⟩ | ⟨hnot, hpool, hcases⟩ | ⟨hnot, hpool, hdiffer⟩
  · exact ⟨fun _ => Or.inl halike, fun _ => casesAgree_alike hcases⟩
  · obtain ⟨hs, hdu⟩ := Prod.mk.inj hcases
    obtain ⟨hd, hu⟩ := Prod.mk.inj hdu
    rw [hs, hd, hu, casesAgree_pool]
    simp [hnot, hpool]
  · have hno : ¬ CasesAgree instr (schedCase instr.opcode) (defCase instr.opcode) (useCase instr.opcode) := by
      rcases hdiffer with ⟨hs, hu⟩ | ⟨hs, hd⟩ | ⟨hs, hu⟩
      · exact not_casesAgree_unread hs hu
      · exact not_casesAgree_unwritten hs hd
      · exact not_casesAgree_overread hs hu
    simp [hno, hnot, hpool]

/-- A DMA load: the allocator reads an operand of it off the activations. -/
theorem not_passesAgree_load : ¬ PassesAgree { opcode := TuIsa.dmaLoad, dim1 := 16 } := by
  intro h
  have hread := ((h ⟨.a, 0, 64⟩).2.2 (by decide)).1
  revert hread
  decide

end Tusim
