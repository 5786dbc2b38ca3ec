import Tusim.Dma.Descriptor
import Mathlib.Data.List.Basic

/-!
# Admission check and data movement

`descriptorSramSpansValid` is the admission check of a descriptor and `descriptorCopies` the list of `memcpy` calls
the executor makes for it, in order.  The check looks only at the sizes of the regions.  A `memcpy` reads all its
source bytes before it writes; pointer arithmetic is 64-bit, index arithmetic 32-bit as in the source.
-/

namespace Tusim

open Word

/-! ### The admission check -/

/-- `u64_mul_checked`: the product, unless it leaves 64 bits. -/
def u64MulChecked (a b : Nat) : Option Nat := if a ≠ 0 ∧ b > uint64Max / a then none else some (a * b)

/-- `u64_add_checked`: the sum, unless it leaves 64 bits. -/
def u64AddChecked (a b : Nat) : Option Nat := if b > uint64Max - a then none else some (a + b)

theorem u64MulChecked_eq_some {a b c : Nat} : u64MulChecked a b = some c ↔ c = a * b ∧ a * b ≤ uint64Max := by
  unfold u64MulChecked
  rcases Nat.eq_zero_or_pos a with rfl | ha
  · simp [eq_comm]
  · have := Nat.le_div_iff_mul_le (x := b) (y := uint64Max) ha
    rw [Nat.mul_comm] at this
    split <;> simp <;> omega

theorem u64AddChecked_eq_some {a b c : Nat} (ha : a ≤ uint64Max) :
    u64AddChecked a b = some c ↔ c = a + b ∧ a + b ≤ uint64Max := by
  unfold u64AddChecked
  split <;> simp <;> omega

section

variable (sizes : Nat → UInt32)

def sramRangeFits (region : Option Nat) (offset bytes : Nat) : Bool :=
  match region with
  | none => true
  | some r => offset ≤ (sizes r).toNat && bytes ≤ (sizes r).toNat - offset

def strided2dFits (region : Option Nat) (base rowStride rows rowBytes : Nat) : Bool :=
  match region with
  | none => true
  | some r =>
    if rows = 0 ∨ rowBytes = 0 then true
    else
      match (u64MulChecked (rows - 1) rowStride).bind fun lastRow =>
          (u64AddChecked base lastRow).bind fun lastRow => u64AddChecked lastRow rowBytes with
      | none => false
      | some lastEnd => lastEnd ≤ (sizes r).toNat

def strided3dFits (region : Option Nat) (base rowStride depthStride depth rows rowBytes : Nat) : Bool :=
  match region with
  | none => true
  | some r =>
    if depth = 0 ∨ rows = 0 ∨ rowBytes = 0 then true
    else
      match (u64MulChecked (depth - 1) depthStride).bind fun depthOff =>
          (u64MulChecked (rows - 1) rowStride).bind fun rowOff =>
          (u64AddChecked base depthOff).bind fun lastStart =>
          (u64AddChecked lastStart rowOff).bind fun lastStart => u64AddChecked lastStart rowBytes with
      | none => false
      | some lastEnd => lastEnd ≤ (sizes r).toNat

/-- The regions a direction needs are named. -/
def directionRegionsNamed (desc : TuDmaDescriptor) : Bool :=
  if desc.type = .multicast then desc.direction = .hostToTu
  else
    match desc.direction with
    | .hostToTu => desc.dstRegion.isSome
    | .tuToHost => desc.srcRegion.isSome
    | .tuToTu => desc.srcRegion.isSome && desc.dstRegion.isSome
    | .other => false

/-- The spans a transfer type addresses fit their regions. -/
def typeSpansFit (desc : TuDmaDescriptor) : Bool :=
  match desc.type with
  | .strided2d =>
    match u64MulChecked desc.elemSize.toNat (desc.dims 1).toNat with
    | none => false
    | some rowBytes =>
      strided2dFits sizes desc.srcRegion desc.srcBase.toNat (desc.srcStrides 0).toNat (desc.dims 0).toNat rowBytes &&
      strided2dFits sizes desc.dstRegion desc.dstBase.toNat (desc.dstStrides 0).toNat (desc.dims 0).toNat rowBytes
  | .strided3d =>
    match u64MulChecked desc.elemSize.toNat (desc.dims 2).toNat with
    | none => false
    | some rowBytes =>
      strided3dFits sizes desc.srcRegion desc.srcBase.toNat (desc.srcStrides 0).toNat (desc.srcStrides 1).toNat
        (desc.dims 0).toNat (desc.dims 1).toNat rowBytes &&
      strided3dFits sizes desc.dstRegion desc.dstBase.toNat (desc.dstStrides 0).toNat (desc.dstStrides 1).toNat
        (desc.dims 0).toNat (desc.dims 1).toNat rowBytes
  | .scatter | .gather =>
    let region := if desc.type = .scatter then desc.dstRegion else desc.srcRegion
    !(region.isNone && desc.indexCount != 0) && !(desc.indexCount != 0 && desc.indexList.isNone) &&
      desc.indexElemSize == desc.elemSize &&
      (List.range desc.indexCount.toNat).all fun i =>
        sramRangeFits sizes region (desc.indexList.elim 0 (· i)).toNat desc.elemSize.toNat
  | .multicast =>
    !(desc.multicastCount != 0 && (desc.multicastRegions.isNone || desc.multicastOffsets.isNone)) &&
      match u64MulChecked (desc.dims 0).toNat desc.elemSize.toNat with
      | none => false
      | some rowBytes => (List.range desc.multicastCount.toNat).all fun i =>
          let region := desc.multicastRegions.bind (· i)
          region.isSome && sramRangeFits sizes region (desc.multicastOffsets.elim 0 (· i)).toNat rowBytes
  | .linear =>
    sramRangeFits sizes desc.srcRegion desc.srcBase.toNat desc.totalBytes.toNat &&
      sramRangeFits sizes desc.dstRegion desc.dstBase.toNat desc.totalBytes.toNat
  | .other => false

def descriptorSramSpansValid (desc : TuDmaDescriptor) : Bool :=
  directionRegionsNamed desc && typeSpansFit sizes desc

end

/-! ### Data movement -/

/-- A byte address: an offset in an SRAM region, or a host address. -/
inductive TuAddr where
  | sram (region offset : Nat)
  | host (address : Nat)
  deriving DecidableEq, Repr

def TuAddr.add : TuAddr → Nat → TuAddr
  | sram r o, k => sram r (o + k)
  | host a, k => host (a + k)

@[simp] theorem TuAddr.sram_add (r o k : Nat) : (sram r o).add k = sram r (o + k) := rfl

@[simp] theorem TuAddr.host_add (a k : Nat) : (host a).add k = host (a + k) := rfl

/-- A call `memcpy(dst, src, bytes)`. -/
structure Memcpy where
  dst : TuAddr
  src : TuAddr
  bytes : Nat
  deriving DecidableEq, Repr

def Memory.read (m : Memory) : TuAddr → UInt8
  | .sram r o => tuSramRawPtr (m.sram r) o
  | .host a => m.host a

/-- The memory after a `memcpy`. -/
def Memory.memcpy (m : Memory) (c : Memcpy) : Memory :=
  match c.dst with
  | .sram r o =>
    { m with sram := fun r' =>
        if r' = r then
          (m.sram r).setRaw fun x => if o ≤ x ∧ x < o + c.bytes then m.read (c.src.add (x - o))
            else tuSramRawPtr (m.sram r) x
        else m.sram r' }
  | .host a =>
    { m with host := fun x => if a ≤ x ∧ x < a + c.bytes then m.read (c.src.add (x - a)) else m.host x }

@[simp] theorem Memory.memcpy_sizes (m : Memory) (c : Memcpy) : (m.memcpy c).sizes = m.sizes := by
  funext r
  unfold Memory.memcpy Memory.sizes
  split
  · dsimp only
    split
    · rename_i h; simp [h]
    · rfl
  · rfl

/-- The memory after a list of `memcpy` calls. -/
def Memory.copyAll (m : Memory) (cs : List Memcpy) : Memory := cs.foldl Memory.memcpy m

@[simp] theorem Memory.copyAll_sizes (m : Memory) (cs : List Memcpy) : (m.copyAll cs).sizes = m.sizes := by
  unfold Memory.copyAll
  induction cs generalizing m with
  | nil => rfl
  | cons c cs ih => rw [List.foldl_cons, ih, Memory.memcpy_sizes]

@[simp] theorem Memory.memcpy_idleData (m : Memory) (c : Memcpy) (r : Nat) :
    ((m.memcpy c).sram r).idleData = (m.sram r).idleData := by
  unfold Memory.memcpy
  split
  · dsimp only
    split
    · rename_i h; simp [h]
    · rfl
  · rfl

@[simp] theorem Memory.copyAll_idleData (m : Memory) (cs : List Memcpy) (r : Nat) :
    ((m.copyAll cs).sram r).idleData = (m.sram r).idleData := by
  unfold Memory.copyAll
  induction cs generalizing m with
  | nil => rfl
  | cons c cs ih => rw [List.foldl_cons, ih, Memory.memcpy_idleData]

/-- A copied byte is the one at its source. -/
theorem Memory.read_memcpy_self (m : Memory) (dst src : TuAddr) {n k : Nat} (hk : k < n) :
    (m.memcpy ⟨dst, src, n⟩).read (dst.add k) = m.read (src.add k) := by
  cases dst with
  | sram r o => simp [Memory.memcpy, Memory.read, hk]
  | host a => simp [Memory.memcpy, Memory.read, hk]

/-- The other bytes stay. -/
theorem Memory.read_memcpy_of_ne (m : Memory) (dst src : TuAddr) {n : Nat} {a : TuAddr}
    (ha : ∀ k < n, a ≠ dst.add k) : (m.memcpy ⟨dst, src, n⟩).read a = m.read a := by
  cases dst with
  | sram r o =>
    cases a with
    | host x => rfl
    | sram r' x =>
      have hout : ¬ (r' = r ∧ o ≤ x ∧ x < o + n) := by
        rintro ⟨rfl, hle, hlt⟩
        exact ha (x - o) (by omega) (by simp; omega)
      by_cases hr : r' = r
      · subst hr
        have hout' : ¬ (o ≤ x ∧ x < o + n) := fun h => hout ⟨rfl, h⟩
        simp [Memory.memcpy, Memory.read, hout']
      · simp [Memory.memcpy, Memory.read, hr]
  | host b =>
    cases a with
    | sram r x => rfl
    | host x =>
      have hout : ¬ (b ≤ x ∧ x < b + n) := by
        rintro ⟨hle, hlt⟩
        exact ha (x - b) (by omega) (by simp; omega)
      simp [Memory.memcpy, Memory.read, hout]

section

variable (desc : TuDmaDescriptor) (src dst : TuAddr)

def executeLinear : List Memcpy := [⟨dst, src, desc.totalBytes.toNat⟩]

def executeStrided2d : List Memcpy :=
  let rowBytes := u32 ((desc.dims 1).toNat * desc.elemSize.toNat)
  (List.range (desc.dims 0).toNat).map fun r =>
    ⟨dst.add (r * (desc.dstStrides 0).toNat), src.add (r * (desc.srcStrides 0).toNat), rowBytes⟩

def executeStrided3d : List Memcpy :=
  let rowBytes := u32 ((desc.dims 2).toNat * desc.elemSize.toNat)
  (List.range (desc.dims 0).toNat).flatMap fun d => (List.range (desc.dims 1).toNat).map fun r =>
    ⟨dst.add (d * (desc.dstStrides 1).toNat + r * (desc.dstStrides 0).toNat),
      src.add (d * (desc.srcStrides 1).toNat + r * (desc.srcStrides 0).toNat), rowBytes⟩

def executeScatter : List Memcpy :=
  (List.range desc.indexCount.toNat).map fun i =>
    ⟨dst.add (desc.indexList.elim 0 (· i)).toNat, src.add (u32 (i * desc.elemSize.toNat)), desc.elemSize.toNat⟩

def executeGather : List Memcpy :=
  (List.range desc.indexCount.toNat).map fun i =>
    ⟨dst.add (u32 (i * desc.elemSize.toNat)), src.add (desc.indexList.elim 0 (· i)).toNat, desc.elemSize.toNat⟩

end

/-- The targets of a multicast; one outside its region is skipped with a message.  The source pointer is used without
a `NULL` check, `NULL` being address `0`. -/
def executeMulticast (sizes : Nat → UInt32) (desc : TuDmaDescriptor) : List Memcpy :=
  let chunkBytes := u32 ((desc.dims 0).toNat * desc.elemSize.toNat)
  (List.range desc.multicastCount.toNat).filterMap fun d =>
    match desc.multicastRegions.bind (· d) with
    | none => none
    | some region =>
      let offset := (desc.multicastOffsets.elim 0 (· d)).toNat
      if u32 (offset + chunkBytes) > (sizes region).toNat then none
      else some ⟨.sram region offset, .host (desc.srcHost.getD 0), chunkBytes⟩

/-- `src_ptr` of the executor. -/
def srcPtr (desc : TuDmaDescriptor) : Option TuAddr :=
  match desc.direction with
  | .hostToTu => desc.srcHost.map .host
  | .tuToHost =>
    match desc.srcRegion with
    | some r => some (.sram r desc.srcBase.toNat)
    | none => desc.srcHost.map .host
  | .tuToTu => desc.srcRegion.map (.sram · desc.srcBase.toNat)
  | .other => none

/-- `dst_ptr` of the executor. -/
def dstPtr (desc : TuDmaDescriptor) : Option TuAddr :=
  match desc.direction with
  | .hostToTu =>
    match desc.dstRegion with
    | some r => some (.sram r desc.dstBase.toNat)
    | none => desc.dstHost.map .host
  | .tuToHost => desc.dstHost.map .host
  | .tuToTu => desc.dstRegion.map (.sram · desc.dstBase.toNat)
  | .other => none

/-- The copies the executor makes for a descriptor, or `none` where it returns without completing it: an unknown
direction, a `NULL` pointer, an unknown type. -/
def descriptorCopies (sizes : Nat → UInt32) (desc : TuDmaDescriptor) : Option (List Memcpy) :=
  if desc.type = .multicast then some (executeMulticast sizes desc)
  else
    match srcPtr desc, dstPtr desc with
    | some src, some dst =>
      match desc.type with
      | .linear => some (executeLinear desc src dst)
      | .strided2d => some (executeStrided2d desc src dst)
      | .strided3d => some (executeStrided3d desc src dst)
      | .scatter => some (executeScatter desc src dst)
      | .gather => some (executeGather desc src dst)
      | _ => none
    | _, _ => none

end Tusim
