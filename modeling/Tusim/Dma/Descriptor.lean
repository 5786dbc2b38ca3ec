import Tusim.Sram
import Mathlib.Algebra.GroupWithZero.Nat

/-!
# DMA descriptors

The descriptor record of `dma_descriptor.h` and its constructors.  A pointer is an `Option`: SRAM regions and
descriptors are numbered, host memory is addressed, `NULL` is `none`.  An array behind a pointer is the function its
readers index it with.  Values of the enumerations outside the named ones are `other`.
-/

namespace Tusim

inductive TuDmaTransferType where
  | linear | strided2d | strided3d | scatter | gather | multicast | other
  deriving DecidableEq, Repr

inductive TuDmaDirection where
  | hostToTu | tuToHost | tuToTu | other
  deriving DecidableEq, Repr

structure TuDmaDescriptor where
  descId : UInt32
  type : TuDmaTransferType
  direction : TuDmaDirection
  channel : UInt8
  srcRegion : Option Nat := none
  srcBase : UInt32 := 0
  srcStrides : Fin 3 → UInt32 := fun _ => 0
  srcHost : Option Nat := none
  dstRegion : Option Nat := none
  dstBase : UInt32 := 0
  dstStrides : Fin 3 → UInt32 := fun _ => 0
  dstHost : Option Nat := none
  externalAddress : Nat := 0
  externalAddressValid : Bool := false
  dims : Fin 3 → UInt32 := fun _ => 0
  elemSize : UInt32
  totalBytes : UInt32
  next : Option Nat := none
  priority : UInt8 := 0
  indexList : Option (Nat → UInt32) := none
  indexCount : UInt32 := 0
  indexElemSize : UInt32 := 0
  multicastRegions : Option (Nat → Option Nat) := none
  multicastOffsets : Option (Nat → UInt32) := none
  multicastCount : UInt32 := 0
  completed : Bool := false
  arbitrationEpochSubmitted : Nat := 0
  arbitrationEpochEligible : Nat := 0
  arbitrationCycleSubmitted : Nat := 0
  arbitrationCycleEligible : Nat := 0
  cyclesCompleted : Nat := 0

-- The literals of `Fin 3` that index the dimensions and strides rest on this instance.
instance neZeroThree : NeZero 3 := ⟨by decide⟩

/-- `[a, b, c]` as a C array. -/
def triple (a b c : UInt32) (i : Fin 3) : UInt32 := if i = 0 then a else if i = 1 then b else c

def tuDmaDescCreateLinear (descId : UInt32) (channel : UInt8) (dir : TuDmaDirection) (sram : Option Nat)
    (sramOffset : UInt32) (hostPtr : Option Nat) (elemSize elemCount : UInt32) : TuDmaDescriptor :=
  let desc : TuDmaDescriptor :=
    { descId, type := .linear, direction := dir, channel, elemSize, dims := triple elemCount 1 1,
      totalBytes := elemSize * elemCount }
  match dir with
  | .hostToTu => { desc with srcHost := hostPtr, dstRegion := sram, dstBase := sramOffset }
  | .tuToHost => { desc with dstHost := hostPtr, srcRegion := sram, srcBase := sramOffset }
  | _ => desc

def tuDmaDescCreateStrided2d (descId : UInt32) (channel : UInt8) (dir : TuDmaDirection) (sram : Option Nat)
    (sramBase : UInt32) (hostPtr : Option Nat) (sramRowStride hostRowStride elemSize rows cols : UInt32) :
    TuDmaDescriptor :=
  let desc : TuDmaDescriptor :=
    { descId, type := .strided2d, direction := dir, channel, elemSize, dims := triple rows cols 1,
      totalBytes := elemSize * rows * cols }
  match dir with
  | .hostToTu =>
    { desc with
      dstRegion := sram, dstBase := sramBase, dstStrides := triple sramRowStride elemSize 0, srcHost := hostPtr,
      srcStrides := triple hostRowStride elemSize 0 }
  | .tuToHost =>
    { desc with
      srcRegion := sram, srcBase := sramBase, srcStrides := triple sramRowStride elemSize 0, dstHost := hostPtr,
      dstStrides := triple hostRowStride elemSize 0 }
  | _ => desc

def tuDmaDescCreateStrided3d (descId : UInt32) (channel : UInt8) (dir : TuDmaDirection) (sram : Option Nat)
    (sramBase : UInt32) (hostPtr : Option Nat)
    (sramRowStride sramDepthStride hostRowStride hostDepthStride elemSize depth rows cols : UInt32) :
    TuDmaDescriptor :=
  let desc : TuDmaDescriptor :=
    { descId, type := .strided3d, direction := dir, channel, elemSize, dims := triple depth rows cols,
      totalBytes := elemSize * depth * rows * cols }
  match dir with
  | .hostToTu =>
    { desc with
      dstRegion := sram, dstBase := sramBase, dstStrides := triple sramRowStride sramDepthStride elemSize,
      srcHost := hostPtr, srcStrides := triple hostRowStride hostDepthStride elemSize }
  | .tuToHost =>
    { desc with
      srcRegion := sram, srcBase := sramBase, srcStrides := triple sramRowStride sramDepthStride elemSize,
      dstHost := hostPtr, dstStrides := triple hostRowStride hostDepthStride elemSize }
  | _ => desc

def tuDmaDescCreateScatter (descId : UInt32) (channel : UInt8) (dstRegion srcHost : Option Nat)
    (indexList : Option (Nat → UInt32)) (elemCount elemSize : UInt32) : TuDmaDescriptor :=
  { descId, type := .scatter, direction := .hostToTu, channel, dstRegion, srcHost, indexList,
    indexCount := elemCount, indexElemSize := elemSize, elemSize, totalBytes := elemCount * elemSize }

def tuDmaDescCreateGather (descId : UInt32) (channel : UInt8) (srcRegion dstHost : Option Nat)
    (indexList : Option (Nat → UInt32)) (elemCount elemSize : UInt32) : TuDmaDescriptor :=
  { descId, type := .gather, direction := .tuToHost, channel, srcRegion, dstHost, indexList,
    indexCount := elemCount, indexElemSize := elemSize, elemSize, totalBytes := elemCount * elemSize }

/-- `none` where the constructor returns `NULL` for its arguments. -/
def tuDmaDescCreateMulticast (descId : UInt32) (channel : UInt8) (srcHost : Option Nat)
    (dstRegions : Option (Nat → Option Nat)) (dstOffsets : Option (Nat → UInt32))
    (numDestinations elemSize elemCount : UInt32) : Option TuDmaDescriptor :=
  if dstRegions.isNone || dstOffsets.isNone || numDestinations == 0 || srcHost.isNone then none
  else
    some
      { descId, type := .multicast, direction := .hostToTu, channel, srcHost, elemSize,
        dims := triple elemCount numDestinations 1, totalBytes := elemCount * elemSize * numDestinations,
        multicastCount := numDestinations, multicastRegions := dstRegions, multicastOffsets := dstOffsets }

def tuDmaDescSetExternalAddress (desc : TuDmaDescriptor) (address : Nat) : TuDmaDescriptor × Bool :=
  if desc.direction = .tuToTu then (desc, false)
  else ({ desc with externalAddress := address, externalAddressValid := true }, true)

end Tusim
