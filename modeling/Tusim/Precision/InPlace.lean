import Tusim.Lib.Bytes
import Tusim.Precision.HalfPrecision
import Tusim.SramAccess

/-!
# Conversions in place

Two loops convert an array of floats inside one buffer.  The bias of `tu_mma` arrives as half-precision numbers and is
expanded to single precision from the last element to the first; `fp32_to_fp16_in_sram` packs single-precision numbers
from the first element to the last.  Each order is the one in which no turn overwrites the source of a later one
(`intact_forward`, `intact_backward`), so every element is the conversion of what the buffer held before the loop.
-/

namespace Tusim.Precision

open Blocks Bytes Sram Word

/-- The `fp16_t` at an address. -/
def fp16At (mem : Nat → UInt8) (addr : Nat) : UInt16 := UInt16.ofNat (loadLE 2 mem addr)

/-- The `fp32_t` at an address. -/
def fp32At (mem : Nat → UInt8) (addr : Nat) : UInt32 := UInt32.ofNat (loadLE 4 mem addr)

def fp16Cells (h : UInt16) : Nat → UInt8 := cellsLE 2 h.toNat

def fp32Cells (f : UInt32) : Nat → UInt8 := cellsLE 4 f.toNat

theorem fp16At_congr {mem mem' : Nat → UInt8} {a : Nat} (h : ∀ i < 2, mem (a + i) = mem' (a + i)) :
    fp16At mem a = fp16At mem' a :=
  congrArg UInt16.ofNat (loadLE_congr h)

theorem fp32At_congr {mem mem' : Nat → UInt8} {a : Nat} (h : ∀ i < 4, mem (a + i) = mem' (a + i)) :
    fp32At mem a = fp32At mem' a :=
  congrArg UInt32.ofNat (loadLE_congr h)

@[simp] theorem fp16At_shift (mem : Nat → UInt8) (a : Nat) : fp16At (fun y => mem (a + y)) 0 = fp16At mem a :=
  congrArg UInt16.ofNat (loadLE_congr fun i _ => by rw [Nat.zero_add])

@[simp] theorem fp32At_shift (mem : Nat → UInt8) (a : Nat) : fp32At (fun y => mem (a + y)) 0 = fp32At mem a :=
  congrArg UInt32.ofNat (loadLE_congr fun i _ => by rw [Nat.zero_add])

theorem fp16At_cells {mem : Nat → UInt8} {a : Nat} {h : UInt16} (hcells : ∀ i < 2, mem (a + i) = fp16Cells h i) :
    fp16At mem a = h := by
  unfold fp16At
  rw [loadLE_cells h.toNat_lt hcells, UInt16.ofNat_toNat]

theorem fp32At_cells {mem : Nat → UInt8} {a : Nat} {f : UInt32} (hcells : ∀ i < 4, mem (a + i) = fp32Cells f i) :
    fp32At mem a = f := by
  unfold fp32At
  rw [loadLE_cells f.toNat_lt hcells, UInt32.ofNat_toNat]

/-! ### The bias -/

/-- `O[i] = fp16_to_fp32(bf[i])`, where `O` and `bf` are the same address. -/
def expandElement (oOffset : Nat) : (Nat → UInt8) → Nat → Nat → UInt8 := fun o i =>
  memcpy o (oOffset + 4 * i) (fp32Cells (tuFp16ToFp32 (fp16At o (oOffset + 2 * i)))) 4

/-- The bias loops of `tu_mma`. -/
def expandBias (o : Nat → UInt8) (M N : UInt16) (oOffset : UInt32) : Nat → UInt8 :=
  (List.range M.toNat).reverse.foldl (fun o m =>
    (List.range N.toNat).reverse.foldl (fun o n => expandElement oOffset.toNat o (m * N.toNat + n)) o) o

/-- The conversion of an element of the bias. -/
def expandCells (_ : Nat) (src : Nat → UInt8) : Nat → UInt8 := fp32Cells (tuFp16ToFp32 (fp16At src 0))

theorem converts_expandCells : Converts 2 4 expandCells := by
  intro _ src src' hsrc x _
  unfold expandCells
  rw [fp16At_congr fun y hy => by rw [Nat.zero_add, hsrc y hy]]

/-- The elements in the order of the bias loops. -/
def biasOrder (M N : Nat) : List Nat := (List.range M).reverse.flatMap fun m => (List.range N).reverse.map (m * N + ·)

theorem mem_biasOrder {M N m n : Nat} (hm : m < M) (hn : n < N) : m * N + n ∈ biasOrder M N :=
  List.mem_flatMap.2 ⟨m, List.mem_reverse.2 (List.mem_range.2 hm),
    List.mem_map.2 ⟨n, List.mem_reverse.2 (List.mem_range.2 hn), rfl⟩⟩

theorem biasOrder_lt {M N i : Nat} (h : i ∈ biasOrder M N) : i < M * N := by
  obtain ⟨m, hm, hi⟩ := List.mem_flatMap.1 h
  obtain ⟨n, hn, rfl⟩ := List.mem_map.1 hi
  have hm := List.mem_range.1 (List.mem_reverse.1 hm)
  have hn := List.mem_range.1 (List.mem_reverse.1 hn)
  have hrow : m * N + N ≤ M * N := by
    rw [← Nat.succ_mul]
    exact Nat.mul_le_mul_right N hm
  omega

theorem biasOrder_decreasing (M N : Nat) : (biasOrder M N).Pairwise fun j i => i < j := by
  have hrange (k : Nat) : (List.range k).reverse.Pairwise fun j i => i < j :=
    List.pairwise_reverse.2 List.pairwise_lt_range
  refine List.pairwise_flatMap.2 ⟨fun m _ => ?_, ?_⟩
  · refine List.pairwise_map.2 ((hrange N).imp fun h => ?_)
    omega
  · refine (hrange M).imp fun {m m'} hlt => ?_
    intro j hj i hi
    obtain ⟨n, -, rfl⟩ := List.mem_map.1 hj
    obtain ⟨n', hn', rfl⟩ := List.mem_map.1 hi
    have hn' := List.mem_range.1 (List.mem_reverse.1 hn')
    have hrow : m' * N + N ≤ m * N := by
      rw [← Nat.succ_mul]
      exact Nat.mul_le_mul_right N hlt
    omega

theorem expandBias_eq (o : Nat → UInt8) (M N : UInt16) (oOffset : UInt32) :
    expandBias o M N oOffset =
      (biasOrder M.toNat N.toNat).foldl
        (convertAt oOffset.toNat 2 4 expandCells) o := by
  have helement : expandElement oOffset.toNat = convertAt oOffset.toNat 2 4 expandCells := by
    funext o i
    unfold expandElement convertAt expandCells
    rw [fp16At_shift]
  unfold expandBias biasOrder
  rw [List.foldl_flatMap]
  simp only [List.foldl_map]
  rw [helement]

theorem biasOrder_intact (M N : Nat) : (biasOrder M N).Pairwise (Intact 2 4) :=
  (biasOrder_decreasing M N).imp fun hlt => intact_backward (by decide) hlt

theorem expandBias_exact (o : Nat → UInt8) (M N : UInt16) (oOffset : UInt32) {m n : Nat} (hm : m < M.toNat)
    (hn : n < N.toNat) :
    fp32At (expandBias o M N oOffset) (oOffset.toNat + 4 * (m * N.toNat + n)) =
      tuFp16ToFp32 (fp16At o (oOffset.toNat + 2 * (m * N.toNat + n))) := by
  obtain ⟨hin, -⟩ := foldl_convertAt (s := oOffset.toNat) converts_expandCells (biasOrder_intact M.toNat N.toNat) o
  rw [expandBias_eq]
  refine (fp32At_cells fun x hx => hin _ (mem_biasOrder hm hn) x hx).trans ?_
  rw [fp16At_shift]

/-- The bytes before the matrix and those after it keep their values. -/
theorem expandBias_outside (o : Nat → UInt8) (M N : UInt16) (oOffset : UInt32) {c : Nat}
    (hc : c < oOffset.toNat ∨ oOffset.toNat + 4 * (M.toNat * N.toNat) ≤ c) : expandBias o M N oOffset c = o c := by
  rw [expandBias_eq]
  refine (foldl_convertAt converts_expandCells (biasOrder_intact _ _) o).2 c fun i hi => ?_
  have hlt := biasOrder_lt hi
  omega

/-! ### The packing -/

/-- A turn of `fp32_to_fp16_in_sram`: the region and the stall so far.  `val` is what the local variable holds before it
is read, `mode` the rounding mode with the bits that this conversion draws. -/
def packElement (mode : TuRoundingMode) (subnormals : TuSubnormalMode) (val : Nat → UInt8) (offset idx : Nat) :
    TuCoreRegion × Nat → TuCoreRegion × Nat := fun (sram, stall) =>
  let srcAddr := u32 (offset + idx * 4)
  let (sram, val, cycles) := tuSramRead sram srcAddr val
  let stall := u64 (stall + cycles)
  let h := tuFp32ToFp16 mode subnormals (fp32At val 0)
  let dstAddr := u32 (offset + idx * 2)
  let (sram, cycles) := tuSramWriteBulk sram dstAddr (fp16Cells h) 2
  (sram, u64 (stall + cycles))

/-- `fp32_to_fp16_in_sram` -/
def fp32ToFp16InSram (mode : Nat → TuRoundingMode) (subnormals : TuSubnormalMode) (val : Nat → Nat → UInt8)
    (sram : TuCoreRegion) (offset elemCount : UInt32) : TuCoreRegion × Nat :=
  (List.range elemCount.toNat).foldl (fun s idx => packElement (mode idx) subnormals (val idx) offset.toNat idx s)
    (sram, 0)

variable (mode : Nat → TuRoundingMode) (subnormals : TuSubnormalMode) (val : Nat → Nat → UInt8)

/-- The conversion of element `i`. -/
def packCells (mode : Nat → TuRoundingMode) (subnormals : TuSubnormalMode) (i : Nat) (src : Nat → UInt8) : Nat → UInt8 :=
  fp16Cells (tuFp32ToFp16 (mode i) subnormals (fp32At src 0))

theorem converts_packCells : Converts 4 2 (packCells mode subnormals) := by
  intro i src src' hsrc x _
  unfold packCells
  rw [fp32At_congr fun y hy => by rw [Nat.zero_add, hsrc y hy]]

/-- A turn inside the region converts its element. -/
theorem packElement_inside {r : TuCoreRegion} {offset idx : Nat} (hwidth : r.banks.bankWidth.toNat = 4)
    (hinside : offset + 4 * idx + 4 ≤ r.totalSize.toNat) (stall : Nat) :
    let r' := (packElement (mode idx) subnormals (val idx) offset idx (r, stall)).1;
    sramDataPtr r' = convertAt offset 4 2 (packCells mode subnormals) (sramDataPtr r) idx ∧
      r'.totalSize = r.totalSize ∧ r'.banks.bankWidth = r.banks.bankWidth := by
  have hsize := r.totalSize.toNat_lt
  have hsrc : u32 (offset + idx * 4) = offset + 4 * idx := by
    unfold u32
    omega
  have hdst : u32 (offset + idx * 2) = offset + 2 * idx := by
    unfold u32
    omega
  have hsrcFit : offset + 4 * idx + r.banks.bankWidth.toNat ≤ r.totalSize.toNat := by omega
  obtain ⟨hsame, hread⟩ := tuSramRead_inside hsrcFit (val idx)
  have hdstFit : offset + 2 * idx + 2 ≤ (tuSramRead r (offset + 4 * idx) (val idx)).1.totalSize.toNat := by
    rw [hsame.totalSize]
    omega
  have hwrote := tuSramWriteBulk_inside hdstFit
    (fp16Cells (tuFp32ToFp16 (mode idx) subnormals (fp32At (tuSramRead r (offset + 4 * idx) (val idx)).2.1 0)))
  unfold packElement
  dsimp only
  rw [hsrc, hdst]
  refine ⟨?_, hwrote.totalSize.trans hsame.totalSize, hwrote.bankWidth.trans hsame.bankWidth⟩
  rw [hwrote.active, hsame.active, hread, hwidth]
  unfold convertAt packCells
  rw [fp32At_congr fun y hy => (memcpy_inside hy).trans (by rw [Nat.zero_add])]

/-- The loop inside the region converts one element after the other. -/
theorem pack_inside {r : TuCoreRegion} {offset : Nat} (hwidth : r.banks.bankWidth.toNat = 4) {k : Nat}
    (hinside : offset + 4 * k ≤ r.totalSize.toNat) :
    let r' := ((List.range k).foldl (fun s idx => packElement (mode idx) subnormals (val idx) offset idx s) (r, 0)).1;
    sramDataPtr r' = (List.range k).foldl (convertAt offset 4 2 (packCells mode subnormals)) (sramDataPtr r) ∧
      r'.totalSize = r.totalSize ∧ r'.banks.bankWidth = r.banks.bankWidth := by
  induction k with
  | zero => exact ⟨rfl, rfl, rfl⟩
  | succ k ih =>
    obtain ⟨hdata, hsize, hbank⟩ := ih (by omega)
    rw [List.range_succ, List.foldl_append, List.foldl_append]
    simp only [List.foldl_cons, List.foldl_nil]
    generalize (List.range k).foldl (fun s idx => packElement (mode idx) subnormals (val idx) offset idx s) (r, 0) = s
      at hdata hsize hbank ⊢
    obtain ⟨r', stall⟩ := s
    dsimp only at hdata hsize hbank
    obtain ⟨hdata', hsize', hbank'⟩ := packElement_inside mode subnormals val (r := r')
      (by rw [hbank, hwidth]) (by rw [hsize]; omega) stall
    exact ⟨by rw [hdata', hdata], hsize'.trans hsize, hbank'.trans hbank⟩

/-- **Conversions in place.**  Both loops write to each output the conversion of the input that the buffer held at the
start, and nothing else.  The index of the bias, an `int`, does not overflow. -/
theorem inPlace_conversions (r : TuCoreRegion) (offset : UInt32) (mode : Nat → TuRoundingMode)
    (subnormals : TuSubnormalMode) (val : Nat → Nat → UInt8) (hwidth : r.banks.bankWidth.toNat = 4) :
    (∀ M N : UInt16, offset.toNat + 4 * (M.toNat * N.toNat) ≤ r.totalSize.toNat →
      (∀ m < M.toNat, ∀ n < N.toNat, m * N.toNat + n < 2 ^ 31 ∧
        fp32At (expandBias (sramDataPtr r) M N offset) (offset.toNat + 4 * (m * N.toNat + n)) =
          tuFp16ToFp32 (fp16At (sramDataPtr r) (offset.toNat + 2 * (m * N.toNat + n)))) ∧
      ∀ c, c < offset.toNat ∨ offset.toNat + 4 * (M.toNat * N.toNat) ≤ c →
        expandBias (sramDataPtr r) M N offset c = sramDataPtr r c) ∧
    ∀ elemCount : UInt32, offset.toNat + 4 * elemCount.toNat ≤ r.totalSize.toNat →
      let r' := (fp32ToFp16InSram mode subnormals val r offset elemCount).1;
      (∀ i < elemCount.toNat,
        fp16At (sramDataPtr r') (offset.toNat + 2 * i) =
          tuFp32ToFp16 (mode i) subnormals (fp32At (sramDataPtr r) (offset.toNat + 4 * i))) ∧
      ∀ c, c < offset.toNat ∨ offset.toNat + 2 * elemCount.toNat ≤ c → sramDataPtr r' c = sramDataPtr r c := by
  constructor
  · intro M N hinside
    refine ⟨fun m hm n hn => ⟨?_, expandBias_exact _ M N offset hm hn⟩, fun c hc => expandBias_outside _ M N offset hc⟩
    have hindex := biasOrder_lt (mem_biasOrder hm hn)
    have hsize := r.totalSize.toNat_lt
    omega
  · intro elemCount hinside
    obtain ⟨hdata, -, -⟩ := pack_inside mode subnormals val hwidth hinside
    have horder : (List.range elemCount.toNat).Pairwise (Intact 4 2) :=
      List.pairwise_lt_range.imp fun hlt => intact_forward (by decide) hlt
    obtain ⟨hin, hout⟩ := foldl_convertAt (s := offset.toNat) (converts_packCells mode subnormals) horder (sramDataPtr r)
    unfold fp32ToFp16InSram
    dsimp only
    rw [hdata]
    constructor
    · intro i hi
      refine (fp16At_cells fun x hx => hin i (List.mem_range.2 hi) x hx).trans ?_
      rw [fp32At_shift]
    · intro c hc
      refine hout c fun i hi => ?_
      have hi := List.mem_range.1 hi
      omega

/-- Two elements in a region of eight bytes. -/
theorem inPlace_conversions_two :
    let r : TuCoreRegion := { tuSramInitRuntime 8 "O" 0 0 0 0 0 with data := fun i => if i % 2 = 1 then 0x3C else 0 };
    fp32At (expandBias (sramDataPtr r) 1 2 0) 4 = 0x3F800000 ∧
      fp16At (sramDataPtr (fp32ToFp16InSram (fun _ => .rne) .full (fun _ _ => 0) r 0 2).1) 2 =
        tuFp32ToFp16 .rne .full (fp32At (sramDataPtr r) 4) := by
  intro r
  obtain ⟨hbias, hpack⟩ := inPlace_conversions r 0 (fun _ => .rne) .full (fun _ _ => 0) rfl
  exact ⟨((hbias 1 2 (by decide)).1 0 (by decide) 1 (by decide)).2.trans (by decide),
    (hpack 2 (by decide)).1 1 (by decide)⟩

end Tusim.Precision
