import Tusim.Dma.Engine

/-!
# Soundness of the admission check

`descriptorSramSpansValid` is meant to keep every SRAM access of the executor inside the regions the descriptor names.
It does so for linear, strided and multicast descriptors (`accessesInside_of_not_indexed`).  For scatter and gather it
compares the entries of the index list with the region without the base the executor adds to them, and does not look
at the contiguous side; `execute_accessesInside_iff` says what is left to be checked.
-/

namespace Tusim

open Word

/-! ### The accesses of the executor -/

/-- The copies `tu_dma_execute_desc` makes for descriptor `d`. -/
def executorCopies (e : TuDmaEngine) (d : Nat) : List Memcpy :=
  let desc := e.heap d
  if desc.completed then []
  else if !descriptorSramSpansValid e.mem.sizes desc then []
  else if externalBoundary e.cfg && !desc.externalAddressValid then []
  else (descriptorCopies e.mem.sizes desc).getD []

private theorem meterWord_fold_data (isWrite : Bool) (base : UInt32) (words : List Nat) (s : TuSramRegion × Nat) :
    (words.foldl (meterWord isWrite base) s).1.data = s.1.data ∧
      (words.foldl (meterWord isWrite base) s).1.db = s.1.db := by
  induction words generalizing s with
  | nil => exact ⟨rfl, rfl⟩
  | cons w words ih =>
    rw [List.foldl_cons]
    have hs : (meterWord isWrite base s w).1.data = s.1.data ∧ (meterWord isWrite base s w).1.db = s.1.db := by
      unfold meterWord
      dsimp only
      split <;> exact ⟨rfl, rfl⟩
    exact ⟨(ih _).1.trans hs.1, (ih _).2.trans hs.2⟩

/-- The bandwidth meters are no bytes of the region. -/
theorem sramStallCycles_buffers (mem : Memory) (desc : TuDmaDescriptor) (n r : Nat) :
    ((sramStallCycles mem desc n).1.sram r).data = (mem.sram r).data ∧
      ((sramStallCycles mem desc n).1.sram r).db = (mem.sram r).db := by
  unfold sramStallCycles
  split
  · exact ⟨rfl, rfl⟩
  · rename_i r' isWrite base hr
    split
    · dsimp only
      by_cases h : r = r'
      · subst h
        rw [Function.update_self]
        have hdata := meterWord_fold_data isWrite base
          (List.range (u32 (desc.totalBytes.toNat + (mem.sram r).banks.bankWidth.toNat - 1) /
            (mem.sram r).banks.bankWidth.toNat)) (tuSramAdvanceCycle (mem.sram r) n, 0)
        have hadv : (tuSramAdvanceCycle (mem.sram r) n).data = (mem.sram r).data ∧
            (tuSramAdvanceCycle (mem.sram r) n).db = (mem.sram r).db := by
          unfold tuSramAdvanceCycle tuSramRefillBw
          split <;> exact ⟨rfl, rfl⟩
        exact ⟨hdata.1.trans hadv.1, hdata.2.trans hadv.2⟩
      · rw [Function.update_of_ne h]
        exact ⟨rfl, rfl⟩
    · exact ⟨rfl, rfl⟩

theorem sramStallCycles_host (mem : Memory) (desc : TuDmaDescriptor) (n : Nat) :
    (sramStallCycles mem desc n).1.host = mem.host := by
  unfold sramStallCycles
  split
  · rfl
  · split <;> rfl

theorem sramStallCycles_read (mem : Memory) (desc : TuDmaDescriptor) (n : Nat) (a : TuAddr) :
    (sramStallCycles mem desc n).1.read a = mem.read a := by
  cases a with
  | host x => exact congrFun (sramStallCycles_host mem desc n) x
  | sram r o =>
    obtain ⟨hdata, hdb⟩ := sramStallCycles_buffers mem desc n r
    simp only [Memory.read, tuSramRawPtr, hdata, hdb]

/-- What the accounting of the executor does to memory. -/
theorem accountTransfer_mem (e : TuDmaEngine) (d : Nat) :
    (accountTransfer e d).mem = (sramStallCycles e.mem (e.heap d) (descriptorTransferCycles e.cfg (e.heap d))).1 := by
  unfold accountTransfer
  dsimp only
  split <;> rfl

/-- The executor changes memory by its copies and in no other way. -/
theorem tuDmaExecuteDesc_read (e : TuDmaEngine) (d : Nat) (a : TuAddr) :
    (tuDmaExecuteDesc e d).mem.read a = (e.mem.copyAll (executorCopies e d)).read a := by
  unfold tuDmaExecuteDesc executorCopies
  dsimp only
  split
  · rfl
  split
  · rfl
  split
  · rfl
  cases hc : descriptorCopies e.mem.sizes (e.heap d) with
  | none => rfl
  | some copies =>
    show (accountTransfer _ d).mem.read a = _
    rw [accountTransfer_mem, sramStallCycles_read]
    rfl

/-- The executor returns at once, reports a refused descriptor, or makes copies and accounts for them. -/
theorem tuDmaExecuteDesc_cases (e : TuDmaEngine) (d : Nat) :
    tuDmaExecuteDesc e d = e ∨ tuDmaExecuteDesc e d = e.emit (.executed d false) ∨
      ∃ copies, tuDmaExecuteDesc e d =
        (accountTransfer { e with mem := e.mem.copyAll copies } d).emit (.executed d true) := by
  unfold tuDmaExecuteDesc
  dsimp only
  split
  · exact Or.inl rfl
  split
  · exact Or.inr (Or.inl rfl)
  split
  · exact Or.inr (Or.inl rfl)
  split
  · exact Or.inr (Or.inl rfl)
  · exact Or.inr (Or.inr ⟨_, rfl⟩)

/-- The executor does not touch the idle buffers of double-buffered regions. -/
theorem tuDmaExecuteDesc_idleData (e : TuDmaEngine) (d r : Nat) :
    ((tuDmaExecuteDesc e d).mem.sram r).idleData = (e.mem.sram r).idleData := by
  rcases tuDmaExecuteDesc_cases e d with h | h | ⟨copies, h⟩
  · rw [h]
  · rw [h]
    rfl
  · rw [h]
    show ((accountTransfer _ d).mem.sram r).idleData = _
    rw [accountTransfer_mem]
    obtain ⟨hdata, hdb⟩ := sramStallCycles_buffers (e.mem.copyAll copies) (e.heap d)
      (descriptorTransferCycles e.cfg (e.heap d)) r
    rw [← e.mem.copyAll_idleData copies r]
    unfold TuSramRegion.idleData
    rw [hdata, hdb]

/-! ### Accesses inside the named regions -/

/-- Host memory, or a byte inside a region that is named. -/
def TuAddr.Inside (sizes : Nat → UInt32) (named : Nat → Prop) : TuAddr → Prop
  | sram r o => named r ∧ o < (sizes r).toNat
  | host _ => True

/-- The SRAM regions the descriptor names as destination. -/
def NamedDst (desc : TuDmaDescriptor) (r : Nat) : Prop :=
  if desc.type = .multicast then ∃ i < desc.multicastCount.toNat, desc.multicastRegions.bind (· i) = some r
  else desc.dstRegion = some r

/-- The SRAM region the descriptor names as source. -/
def NamedSrc (desc : TuDmaDescriptor) (r : Nat) : Prop := desc.srcRegion = some r

/-- Every byte the copies read or write lies inside the region named for its side. -/
def AccessesInside (sizes : Nat → UInt32) (desc : TuDmaDescriptor) (copies : List Memcpy) : Prop :=
  ∀ c ∈ copies, ∀ k < c.bytes,
    (c.dst.add k).Inside sizes (NamedDst desc) ∧ (c.src.add k).Inside sizes (NamedSrc desc)

section

variable {sizes : Nat → UInt32} {desc : TuDmaDescriptor}

@[simp] theorem accessesInside_nil : AccessesInside sizes desc [] := by
  intro c hc
  cases hc

private theorem addr_add_add (a : TuAddr) (i k : Nat) : (a.add i).add k = a.add (i + k) := by
  cases a <;> simp [Nat.add_assoc]

private theorem srcPtr_cases {a : TuAddr} (h : srcPtr desc = some a) :
    (∃ r, desc.srcRegion = some r ∧ a = .sram r desc.srcBase.toNat) ∨ ∃ x, a = .host x := by
  unfold srcPtr at h
  cases hd : desc.direction <;> simp only [hd] at h
  · obtain ⟨x, -, rfl⟩ := Option.map_eq_some_iff.1 h
    exact .inr ⟨x, rfl⟩
  · cases hr : desc.srcRegion with
    | some r => simp only [hr, Option.some.injEq] at h; exact .inl ⟨r, rfl, h.symm⟩
    | none =>
      simp only [hr] at h
      obtain ⟨x, -, rfl⟩ := Option.map_eq_some_iff.1 h
      exact .inr ⟨x, rfl⟩
  · obtain ⟨r, hr, rfl⟩ := Option.map_eq_some_iff.1 h
    exact .inl ⟨r, hr, rfl⟩
  · cases h

private theorem dstPtr_cases {a : TuAddr} (h : dstPtr desc = some a) :
    (∃ r, desc.dstRegion = some r ∧ a = .sram r desc.dstBase.toNat) ∨ ∃ x, a = .host x := by
  unfold dstPtr at h
  cases hd : desc.direction <;> simp only [hd] at h
  · cases hr : desc.dstRegion with
    | some r => simp only [hr, Option.some.injEq] at h; exact .inl ⟨r, rfl, h.symm⟩
    | none =>
      simp only [hr] at h
      obtain ⟨x, -, rfl⟩ := Option.map_eq_some_iff.1 h
      exact .inr ⟨x, rfl⟩
  · obtain ⟨x, -, rfl⟩ := Option.map_eq_some_iff.1 h
    exact .inr ⟨x, rfl⟩
  · obtain ⟨r, hr, rfl⟩ := Option.map_eq_some_iff.1 h
    exact .inl ⟨r, hr, rfl⟩
  · cases h

/-- An access at offset `off` from the source pointer is inside as soon as it fits a region that is named. -/
private theorem inside_src {a : TuAddr} (h : srcPtr desc = some a) {off : Nat}
    (hfit : ∀ r, desc.srcRegion = some r → desc.srcBase.toNat + off < (sizes r).toNat) :
    (a.add off).Inside sizes (NamedSrc desc) := by
  rcases srcPtr_cases h with ⟨r, hr, rfl⟩ | ⟨x, rfl⟩
  · exact ⟨hr, hfit r hr⟩
  · trivial

private theorem inside_dst {a : TuAddr} (ht : desc.type ≠ .multicast) (h : dstPtr desc = some a) {off : Nat}
    (hfit : ∀ r, desc.dstRegion = some r → desc.dstBase.toNat + off < (sizes r).toNat) :
    (a.add off).Inside sizes (NamedDst desc) := by
  rcases dstPtr_cases h with ⟨r, hr, rfl⟩ | ⟨x, rfl⟩
  · exact ⟨by unfold NamedDst; rwa [if_neg ht], hfit r hr⟩
  · trivial

/-! ### Shapes the check covers -/

theorem sramRangeFits_some {r offset bytes : Nat} :
    sramRangeFits sizes (some r) offset bytes = true ↔ offset + bytes ≤ (sizes r).toNat := by
  simp only [sramRangeFits, Bool.and_eq_true, decide_eq_true_eq]
  omega

private theorem mul_le_of_lt_pred {i n : Nat} (hi : i < n) (s : Nat) : i * s ≤ (n - 1) * s :=
  Nat.mul_le_mul_right s (by omega)

theorem strided2dFits_bound {r base rowStride rows rowBytes i k : Nat}
    (h : strided2dFits sizes (some r) base rowStride rows rowBytes = true) (hb : base ≤ uint64Max)
    (hi : i < rows) (hk : k < rowBytes) : base + (i * rowStride + k) < (sizes r).toNat := by
  unfold strided2dFits at h
  dsimp only at h
  rw [if_neg (by omega)] at h
  split at h
  · cases h
  · rename_i lastEnd hl
    obtain ⟨x, hx, hl⟩ := Option.bind_eq_some_iff.1 hl
    obtain ⟨y, hy, hz⟩ := Option.bind_eq_some_iff.1 hl
    obtain ⟨rfl, -⟩ := u64MulChecked_eq_some.1 hx
    obtain ⟨rfl, hle⟩ := (u64AddChecked_eq_some hb).1 hy
    obtain ⟨rfl, -⟩ := (u64AddChecked_eq_some hle).1 hz
    have hrow := mul_le_of_lt_pred hi rowStride
    have := of_decide_eq_true h
    omega

theorem strided3dFits_bound {r base rowStride depthStride depth rows rowBytes i j k : Nat}
    (h : strided3dFits sizes (some r) base rowStride depthStride depth rows rowBytes = true)
    (hb : base ≤ uint64Max) (hi : i < depth) (hj : j < rows) (hk : k < rowBytes) :
    base + (i * depthStride + j * rowStride + k) < (sizes r).toNat := by
  unfold strided3dFits at h
  dsimp only at h
  rw [if_neg (by omega)] at h
  split at h
  · cases h
  · rename_i lastEnd hl
    obtain ⟨x, hx, hl⟩ := Option.bind_eq_some_iff.1 hl
    obtain ⟨y, hy, hl⟩ := Option.bind_eq_some_iff.1 hl
    obtain ⟨z, hz, hl⟩ := Option.bind_eq_some_iff.1 hl
    obtain ⟨w, hw, hl⟩ := Option.bind_eq_some_iff.1 hl
    obtain ⟨rfl, -⟩ := u64MulChecked_eq_some.1 hx
    obtain ⟨rfl, -⟩ := u64MulChecked_eq_some.1 hy
    obtain ⟨rfl, hzle⟩ := (u64AddChecked_eq_some hb).1 hz
    obtain ⟨rfl, hwle⟩ := (u64AddChecked_eq_some hzle).1 hw
    obtain ⟨rfl, -⟩ := (u64AddChecked_eq_some hwle).1 hl
    have hdepth := mul_le_of_lt_pred hi depthStride
    have hrow := mul_le_of_lt_pred hj rowStride
    have := of_decide_eq_true h
    omega

private theorem base_le (b : UInt32) : b.toNat ≤ uint64Max := by
  have := b.toNat_lt
  unfold uint64Max
  omega

private theorem accessesInside_linear (ht : desc.type = .linear) (hv : typeSpansFit sizes desc = true)
    {src dst : TuAddr} (hs : srcPtr desc = some src) (hd : dstPtr desc = some dst) :
    AccessesInside sizes desc (executeLinear desc src dst) := by
  simp only [typeSpansFit, ht, Bool.and_eq_true] at hv
  intro c hc k hk
  obtain rfl := List.mem_singleton.1 hc
  constructor
  · refine inside_dst (by rw [ht]; decide) hd fun r hr => ?_
    have := sramRangeFits_some.1 (hr ▸ hv.2)
    dsimp only at hk
    omega
  · refine inside_src hs fun r hr => ?_
    have := sramRangeFits_some.1 (hr ▸ hv.1)
    dsimp only at hk
    omega

private theorem accessesInside_strided2d (ht : desc.type = .strided2d) (hv : typeSpansFit sizes desc = true)
    {src dst : TuAddr} (hs : srcPtr desc = some src) (hd : dstPtr desc = some dst) :
    AccessesInside sizes desc (executeStrided2d desc src dst) := by
  simp only [typeSpansFit, ht] at hv
  split at hv
  · cases hv
  rename_i rowBytes hrow
  obtain ⟨rfl, -⟩ := u64MulChecked_eq_some.1 hrow
  rw [Bool.and_eq_true] at hv
  intro c hc k hk
  obtain ⟨i, hi, rfl⟩ := List.mem_map.1 hc
  have hi := List.mem_range.1 hi
  have hk : k < desc.elemSize.toNat * (desc.dims 1).toNat :=
    Nat.mul_comm (desc.dims 1).toNat _ ▸ Nat.lt_of_lt_of_le hk (u32_le _)
  constructor
  · rw [addr_add_add]
    exact inside_dst (by rw [ht]; decide) hd fun r hr => strided2dFits_bound (hr ▸ hv.2) (base_le _) hi hk
  · rw [addr_add_add]
    exact inside_src hs fun r hr => strided2dFits_bound (hr ▸ hv.1) (base_le _) hi hk

private theorem accessesInside_strided3d (ht : desc.type = .strided3d) (hv : typeSpansFit sizes desc = true)
    {src dst : TuAddr} (hs : srcPtr desc = some src) (hd : dstPtr desc = some dst) :
    AccessesInside sizes desc (executeStrided3d desc src dst) := by
  simp only [typeSpansFit, ht] at hv
  split at hv
  · cases hv
  rename_i rowBytes hrow
  obtain ⟨rfl, -⟩ := u64MulChecked_eq_some.1 hrow
  rw [Bool.and_eq_true] at hv
  intro c hc k hk
  obtain ⟨i, hi, hc⟩ := List.mem_flatMap.1 hc
  obtain ⟨j, hj, rfl⟩ := List.mem_map.1 hc
  have hi := List.mem_range.1 hi
  have hj := List.mem_range.1 hj
  have hk : k < desc.elemSize.toNat * (desc.dims 2).toNat :=
    Nat.mul_comm (desc.dims 2).toNat _ ▸ Nat.lt_of_lt_of_le hk (u32_le _)
  constructor
  · rw [addr_add_add]
    exact inside_dst (by rw [ht]; decide) hd fun r hr => strided3dFits_bound (hr ▸ hv.2) (base_le _) hi hj hk
  · rw [addr_add_add]
    exact inside_src hs fun r hr => strided3dFits_bound (hr ▸ hv.1) (base_le _) hi hj hk

private theorem accessesInside_multicast (ht : desc.type = .multicast) (hv : typeSpansFit sizes desc = true) :
    AccessesInside sizes desc (executeMulticast sizes desc) := by
  simp only [typeSpansFit, ht, Bool.and_eq_true] at hv
  obtain ⟨-, hv⟩ := hv
  split at hv
  · cases hv
  rename_i rowBytes hrow
  obtain ⟨rfl, -⟩ := u64MulChecked_eq_some.1 hrow
  rw [List.all_eq_true] at hv
  intro c hc k hk
  obtain ⟨i, hi, hc⟩ := List.mem_filterMap.1 hc
  have hfit := hv i hi
  cases hr : desc.multicastRegions.bind (· i) with
  | none => simp [hr] at hc
  | some r =>
    simp only [hr, Option.isSome_some, Bool.true_and] at hfit hc
    have hle := sramRangeFits_some.1 hfit
    split at hc
    · cases hc
    · obtain rfl := Option.some.inj hc
      refine ⟨⟨?_, ?_⟩, trivial⟩
      · unfold NamedDst
        rw [if_pos ht]
        exact ⟨i, List.mem_range.1 hi, hr⟩
      · have := Nat.lt_of_lt_of_le hk (u32_le _)
        omega

/-- Scatter and gather descriptors. -/
def isIndexed (desc : TuDmaDescriptor) : Bool := desc.type = .scatter || desc.type = .gather

/-- The check covers every transfer type but the two indexed ones. -/
theorem accessesInside_of_not_indexed (hi : isIndexed desc = false)
    (hv : descriptorSramSpansValid sizes desc = true) :
    AccessesInside sizes desc ((descriptorCopies sizes desc).getD []) := by
  have hv : typeSpansFit sizes desc = true := (Bool.and_eq_true_iff.1 hv).2
  unfold descriptorCopies
  by_cases hm : desc.type = .multicast
  · rw [if_pos hm]
    exact accessesInside_multicast hm hv
  rw [if_neg hm]
  split
  · rename_i src dst hs hd
    cases ht : desc.type with
    | linear => exact accessesInside_linear ht hv hs hd
    | strided2d => exact accessesInside_strided2d ht hv hs hd
    | strided3d => exact accessesInside_strided3d ht hv hs hd
    | multicast => exact absurd ht hm
    | other => exact accessesInside_nil
    | scatter => simp [isIndexed, ht] at hi
    | gather => simp [isIndexed, ht] at hi
  · exact accessesInside_nil

/-! ### Indexed shapes -/

/-- The bytes at `offset` from a pointer fit the region it points into. -/
def pointerFits (sizes : Nat → UInt32) (p : TuAddr) (offset bytes : Nat) : Bool :=
  match p with
  | .sram r base => sramRangeFits sizes (some r) (base + offset) bytes
  | .host _ => true

/-- Offsets of the two sides of element `i`, counted from the pointers: the index list on one side, consecutive
elements on the other. -/
def indexedDstOffset (desc : TuDmaDescriptor) (i : Nat) : Nat :=
  if desc.type = .scatter then (desc.indexList.elim 0 (· i)).toNat else u32 (i * desc.elemSize.toNat)

def indexedSrcOffset (desc : TuDmaDescriptor) (i : Nat) : Nat :=
  if desc.type = .scatter then u32 (i * desc.elemSize.toNat) else (desc.indexList.elim 0 (· i)).toNat

/-- Every element of an indexed transfer fits on both sides, the bases included. -/
def indexedSpansFit (sizes : Nat → UInt32) (desc : TuDmaDescriptor) : Bool :=
  match srcPtr desc, dstPtr desc with
  | some src, some dst => (List.range desc.indexCount.toNat).all fun i =>
      pointerFits sizes dst (indexedDstOffset desc i) desc.elemSize.toNat &&
        pointerFits sizes src (indexedSrcOffset desc i) desc.elemSize.toNat
  | _, _ => true

private theorem pointerFits_src {a : TuAddr} (h : srcPtr desc = some a) {off n : Nat} (hn : 0 < n) :
    pointerFits sizes a off n = true ↔ ∀ k < n, ((a.add off).add k).Inside sizes (NamedSrc desc) := by
  rcases srcPtr_cases h with ⟨r, hr, rfl⟩ | ⟨x, rfl⟩
  · unfold pointerFits
    rw [sramRangeFits_some]
    constructor
    · intro hle k hk
      exact ⟨hr, by omega⟩
    · intro hin
      have := (hin (n - 1) (by omega)).2
      omega
  · exact ⟨fun _ _ _ => trivial, fun _ => rfl⟩

private theorem pointerFits_dst {a : TuAddr} (ht : desc.type ≠ .multicast) (h : dstPtr desc = some a) {off n : Nat}
    (hn : 0 < n) :
    pointerFits sizes a off n = true ↔ ∀ k < n, ((a.add off).add k).Inside sizes (NamedDst desc) := by
  rcases dstPtr_cases h with ⟨r, hr, rfl⟩ | ⟨x, rfl⟩
  · unfold pointerFits
    rw [sramRangeFits_some]
    constructor
    · intro hle k hk
      exact ⟨by unfold NamedDst; rwa [if_neg ht], by omega⟩
    · intro hin
      have := (hin (n - 1) (by omega)).2
      omega
  · exact ⟨fun _ _ _ => trivial, fun _ => rfl⟩

private theorem indexed_copies (hi : isIndexed desc = true) {src dst : TuAddr} (hs : srcPtr desc = some src)
    (hd : dstPtr desc = some dst) :
    descriptorCopies sizes desc = some ((List.range desc.indexCount.toNat).map fun i =>
      ⟨dst.add (indexedDstOffset desc i), src.add (indexedSrcOffset desc i), desc.elemSize.toNat⟩) := by
  simp only [isIndexed, Bool.or_eq_true, decide_eq_true_eq] at hi
  unfold descriptorCopies indexedDstOffset indexedSrcOffset
  rcases hi with ht | ht <;> simp [ht, hs, hd, executeScatter, executeGather]

theorem accessesInside_indexed_iff (hi : isIndexed desc = true) :
    AccessesInside sizes desc ((descriptorCopies sizes desc).getD []) ↔
      desc.elemSize = 0 ∨ indexedSpansFit sizes desc = true := by
  have hm : desc.type ≠ .multicast := by
    rintro ht
    simp [isIndexed, ht] at hi
  cases hs : srcPtr desc with
  | none => simp [descriptorCopies, indexedSpansFit, hm, hs]
  | some src =>
    cases hd : dstPtr desc with
    | none => simp [descriptorCopies, indexedSpansFit, hm, hs, hd]
    | some dst =>
      rw [indexed_copies hi hs hd]
      rcases Nat.eq_zero_or_pos desc.elemSize.toNat with h0 | hpos
      · have he : desc.elemSize = 0 := UInt32.toNat_inj.1 h0
        refine ⟨fun _ => .inl he, fun _ c hc k hk => ?_⟩
        obtain ⟨i, -, rfl⟩ := List.mem_map.1 hc
        exact absurd hk (by simp [h0])
      · have he : desc.elemSize ≠ 0 := by
          rintro h
          simp [h] at hpos
        simp only [he, false_or, indexedSpansFit, hs, hd, List.all_eq_true, Bool.and_eq_true,
          pointerFits_src hs hpos, pointerFits_dst hm hd hpos]
        constructor
        · intro h i hi
          have hc := h _ (List.mem_map.2 ⟨i, hi, rfl⟩)
          exact ⟨fun k hk => (hc k hk).1, fun k hk => (hc k hk).2⟩
        · intro h c hc k hk
          obtain ⟨i, hi, rfl⟩ := List.mem_map.1 hc
          exact ⟨(h i hi).1 k hk, (h i hi).2 k hk⟩

end

/-! ### The executor -/

/-- The executor returns before it resolves any pointer of an admitted descriptor. -/
def executorReturns (e : TuDmaEngine) (d : Nat) : Bool :=
  (e.heap d).completed || (externalBoundary e.cfg && !(e.heap d).externalAddressValid)

/-- For an admitted descriptor the executor stays inside the named regions exactly when the descriptor is not indexed,
is not executed, moves no bytes, or has elements that fit with the bases counted in. -/
theorem execute_accessesInside_iff (e : TuDmaEngine) (d : Nat)
    (hv : descriptorSramSpansValid e.mem.sizes (e.heap d) = true) :
    AccessesInside e.mem.sizes (e.heap d) (executorCopies e d) ↔
      (isIndexed (e.heap d) = false ∨ executorReturns e d = true ∨ (e.heap d).elemSize = 0 ∨
        indexedSpansFit e.mem.sizes (e.heap d) = true) := by
  by_cases hr : executorReturns e d = true
  · have hnil : executorCopies e d = [] := by
      unfold executorReturns at hr
      unfold executorCopies
      rcases Bool.or_eq_true_iff.1 hr with h | h
      · simp [h]
      · simp [h]
    rw [hnil]
    exact ⟨fun _ => .inr (.inl hr), fun _ => accessesInside_nil⟩
  have hcopies : executorCopies e d = (descriptorCopies e.mem.sizes (e.heap d)).getD [] := by
    unfold executorReturns at hr
    rw [Bool.or_eq_true_iff, not_or] at hr
    unfold executorCopies
    simp only [hr.1, hv, hr.2, Bool.not_true, Bool.false_eq_true, if_false]
  rw [hcopies]
  by_cases hi : isIndexed (e.heap d) = true
  · rw [accessesInside_indexed_iff hi]
    simp [hi, hr]
  · have hi : isIndexed (e.heap d) = false := by simpa using hi
    exact ⟨fun _ => .inl hi, fun _ => accessesInside_of_not_indexed hi hv⟩

/-- One descriptor on an engine whose regions have 16 bytes. -/
private def admissionEngine (desc : TuDmaDescriptor) : TuDmaEngine :=
  { TuDmaEngine.fresh (.single true) (Memory.zero 16) with heap := fun _ => desc, allocated := 1 }

theorem execute_accessesInside_gather :
    let e := admissionEngine
      { descId := 1, type := .gather, direction := .tuToTu, channel := 0, elemSize := 4, totalBytes := 8,
        srcRegion := some 0, srcBase := 4, dstRegion := some 1, dstBase := 8,
        indexList := some fun i => if i = 0 then 8 else 0, indexCount := 2, indexElemSize := 4 }
    AccessesInside e.mem.sizes (e.heap 0) (executorCopies e 0) :=
  (execute_accessesInside_iff _ 0 (by decide)).2 (by decide)

/-- Index `12` fits a region of 16 bytes; the executor writes the element at `8 + 12`. -/
theorem execute_scatter_outside :
    let e := admissionEngine
      { descId := 1, type := .scatter, direction := .hostToTu, channel := 0, elemSize := 4, totalBytes := 4,
        srcHost := some 0, dstRegion := some 0, dstBase := 8, indexList := some fun _ => 12, indexCount := 1,
        indexElemSize := 4 }
    descriptorSramSpansValid e.mem.sizes (e.heap 0) = true ∧
      ¬ AccessesInside e.mem.sizes (e.heap 0) (executorCopies e 0) := by
  refine ⟨by decide, fun h => ?_⟩
  have := (h ⟨.sram 0 20, .host 0, 4⟩ (by decide) 0 (by decide)).1.2
  exact absurd this (by decide)

end Tusim
