import Tusim.Lib.Bytes
import Tusim.Lib.RunLength
import Tusim.Agen.AddressGenerator
import Tusim.Precision.Rounding

/-!
# Weight compression

`weight_compress.c`: the RLE and bitmap codecs, the frame of the adaptive formats, and the dispatch for DMA.  A buffer
is a byte string, its size and the number of elements are natural numbers, and the fields of a stream are read and
written least significant byte first.  An encoder gives the bytes it writes, a decoder the elements; `none` is a
return value of `-1`, what is left in the destination then is not kept.  The pointers are not `NULL`, except for the
configuration.  A float is given by its pattern.

Sums and products that the source forms in 32 bits are guarded there, so they are natural numbers here.
-/

namespace Tusim

open Bytes

inductive TuCompressType
  | none
  | rle
  | adaptiveRle
  | bitmap
  | adaptive
  | other
deriving DecidableEq, Repr

structure TuCompressConfig where
  type : TuCompressType
  rleEpsilon : UInt32
  enabled : Bool
deriving DecidableEq, Repr

inductive TuWeightPayloadCodec
  | raw
  | rle
  | bitmap
deriving DecidableEq, Repr

/-- `TU_RLE_RUN_BYTES` -/
def tuRleRunBytes : Nat := 6

/-- The `header_size` of an RLE stream. -/
def rleHeaderSize : Nat := 8

/-- `TU_BITMAP_HEADER_BYTES` -/
def tuBitmapHeaderBytes : Nat := 8

/-- `TU_WEIGHT_FRAME_MAGIC` -/
def tuWeightFrameMagic : Nat := 0x54555743

/-- `TU_WEIGHT_FRAME_VERSION` -/
def tuWeightFrameVersion : Nat := 1

/-- `TU_WEIGHT_FRAME_HEADER_BYTES` -/
def tuWeightFrameHeaderBytes : Nat := 16

/-! ### RLE -/

def fp16NearEqual (a b : UInt16) (epsilon : UInt32) : Bool :=
  if a = b then true
  else if (Fp32.ofBits epsilon).le (.finite 0) then false
  else
    let fa := Fp32.ofBits (tuFp16ToFp32 a)
    let fb := Fp32.ofBits (tuFp16ToFp32 b)
    if fa = .nan ∨ fb = .nan then false else (fa.sub fb).abs.le (Fp32.ofBits epsilon)

/-- The test `epsilon < 0.0f`. -/
def epsilonNegative (epsilon : UInt32) : Bool := (Fp32.ofBits epsilon).lt (.finite 0)

def countRuns (src : List UInt16) (epsilon : UInt32) : Nat :=
  match src with
  | [] => 0
  | first :: rest =>
    (rest.foldl (fun s x => if !fp16NearEqual x s.2 epsilon then (s.1 + 1, x) else s) (1, first)).1

/-- A run of equal elements. -/
abbrev TuRleRun := RunLength.Run UInt16

/-- The bytes of a run. -/
def TuRleRun.bytes (run : TuRleRun) : List UInt8 := leBytes 2 run.value.toNat ++ leBytes 4 run.count

/-- The loop of the encoder: the runs written so far and the open one. -/
def rleStep (epsilon : UInt32) (s : List TuRleRun × TuRleRun) (x : UInt16) : List TuRleRun × TuRleRun :=
  if fp16NearEqual x s.2.value epsilon ∧ s.2.count < uint32Max.toNat then (s.1, { s.2 with count := s.2.count + 1 })
  else (s.1 ++ [s.2], ⟨x, 1⟩)

def tuCompressRle (src : List UInt16) (epsilon : UInt32) (capacity : Nat) : Option (List UInt8) :=
  if epsilonNegative epsilon then none
  else
    match src with
    | [] => some []
    | first :: rest =>
      if src.length > (uint32Max.toNat - rleHeaderSize) / tuRleRunBytes then none
      else if capacity < rleHeaderSize + countRuns src epsilon * tuRleRunBytes then none
      else
        let s := rest.foldl (rleStep epsilon) ([], ⟨first, 1⟩)
        let runs := s.1 ++ [s.2]
        some (leBytes 4 src.length ++ leBytes 4 runs.length ++ runs.flatMap TuRleRun.bytes)

/-- Run `i` of a stream. -/
def readRun (src : List UInt8) (i : Nat) : TuRleRun where
  value := UInt16.ofNat (readLE 2 src (rleHeaderSize + i * tuRleRunBytes))
  count := readLE 4 src (rleHeaderSize + i * tuRleRunBytes + 2)

/-- The loop of the decoder, with the elements written so far. -/
def expandRun (elementCount : Nat) (dst : List UInt16) (run : TuRleRun) : Option (List UInt16) :=
  if run.count = 0 ∨ run.count > elementCount - dst.length then none
  else some (dst ++ List.replicate run.count run.value)

def tuDecompressRle (src : List UInt8) (capacity : Nat) : Option (List UInt16) :=
  if src.length < rleHeaderSize then none
  else
    let elementCount := readLE 4 src 0
    let runCount := readLE 4 src 4
    if elementCount = 0 then
      if runCount ≠ 0 then none else some []
    else if runCount = 0 ∨ runCount > elementCount ∨
        runCount > (uint32Max.toNat - rleHeaderSize) / tuRleRunBytes then none
    else
      let expected := rleHeaderSize + runCount * tuRleRunBytes
      if src.length < expected ∨ capacity < elementCount then none
      else
        match ((List.range runCount).map (readRun src)).foldlM (expandRun elementCount) [] with
        | none => none
        | some dst => if dst.length ≠ elementCount then none else some dst

def tuCompressGetOriginalCount (data : List UInt8) : Nat := if data.length ≥ 4 then readLE 4 data 0 else 0

def tuCompressValidate (data : List UInt8) : Bool :=
  if data.length < 8 then false
  else
    let n := readLE 4 data 0
    let runs := readLE 4 data 4
    if n = 0 then runs = 0 && data.length = 8
    else if runs = 0 ∨ runs > n ∨ runs > (uint32Max.toNat - 8) / tuRleRunBytes then false
    else data.length = 8 + runs * tuRleRunBytes

/-! ### Bitmap -/

def countNonzeroBits (src : List UInt16) : Nat := src.foldl (fun count x => if x ≠ 0 then count + 1 else count) 0

/-- The loop of the encoder: the bitmap and the values written so far. -/
def bitmapStep (src : List UInt16) (s : List UInt8 × List UInt8) (i : Nat) : List UInt8 × List UInt8 :=
  if src.getD i 0 = 0 then s else (setBit s.1 i, s.2 ++ leBytes 2 (src.getD i 0).toNat)

def tuCompressBitmap (src : List UInt16) (capacity : Nat) : Option (List UInt8) :=
  let n := src.length
  if n > uint32Max.toNat - 7 then none
  else
    let bitmapBytes := (n + 7) / 8
    let nnz := countNonzeroBits src
    let required := tuBitmapHeaderBytes + bitmapBytes + nnz * 2
    if required > uint32Max.toNat ∨ capacity < required then none
    else
      let s := (List.range n).foldl (bitmapStep src) (List.replicate bitmapBytes 0, [])
      some (leBytes 4 n ++ leBytes 4 nnz ++ s.1 ++ s.2)

/-- The bitmap of a stream and what follows it. -/
def bitmapBody (src : List UInt8) : List UInt8 := src.drop tuBitmapHeaderBytes

def tuCompressBitmapValidate (src : List UInt8) : Bool :=
  if src.length < tuBitmapHeaderBytes then false
  else
    let n := readLE 4 src 0
    let nnz := readLE 4 src 4
    if n > uint32Max.toNat - 7 ∨ nnz > n then false
    else
      let bitmapBytes := (n + 7) / 8
      if tuBitmapHeaderBytes + bitmapBytes + nnz * 2 ≠ src.length then false
      else
        let observed := (List.range n).foldl (fun observed i => observed + (bitAt (bitmapBody src) i).toNat) 0
        let validMask := UInt8.ofNat (1 <<< (n % 8) - 1)
        if n % 8 ≠ 0 ∧ (src.getD (tuBitmapHeaderBytes + bitmapBytes - 1) 0) &&& ~~~validMask ≠ 0 then false
        else observed = nnz

/-- The loop of the decoder: the offset of the next value and the elements written so far. -/
def unpackStep (src : List UInt8) (s : Nat × List UInt16) (i : Nat) : Nat × List UInt16 :=
  if bitAt (bitmapBody src) i then (s.1 + 2, s.2 ++ [UInt16.ofNat (readLE 2 src s.1)]) else (s.1, s.2 ++ [0])

def tuDecompressBitmap (src : List UInt8) (capacity : Nat) : Option (List UInt16) :=
  if !tuCompressBitmapValidate src then none
  else
    let n := readLE 4 src 0
    if capacity < n then none
    else some ((List.range n).foldl (unpackStep src) (tuBitmapHeaderBytes + (n + 7) / 8, [])).2

/-! ### The adaptive frame -/

/-- The byte of a codec in a frame. -/
def TuWeightPayloadCodec.byte : TuWeightPayloadCodec → Nat
  | raw => 0
  | rle => 1
  | bitmap => 2

def codecOfByte (b : Nat) : Option TuWeightPayloadCodec :=
  if b = 0 then some .raw else if b = 1 then some .rle else if b = 2 then some .bitmap else none

def frameWrite (codec : TuWeightPayloadCodec) (elements payloadBytes : Nat) : List UInt8 :=
  leBytes 4 tuWeightFrameMagic ++ leBytes 1 tuWeightFrameVersion ++ leBytes 1 codec.byte ++ leBytes 2 0 ++
    leBytes 4 elements ++ leBytes 4 payloadBytes

structure WeightFrame where
  codec : TuWeightPayloadCodec
  elements : Nat
  payloadBytes : Nat
deriving DecidableEq, Repr

def frameRead (src : List UInt8) : Option WeightFrame :=
  if src.length < tuWeightFrameHeaderBytes then none
  else if readLE 4 src 0 ≠ tuWeightFrameMagic ∨ readLE 1 src 4 ≠ tuWeightFrameVersion ∨ readLE 2 src 6 ≠ 0 then none
  else
    match codecOfByte (readLE 1 src 5) with
    | none => none
    | some codec =>
      let payloadBytes := readLE 4 src 12
      if payloadBytes = src.length - tuWeightFrameHeaderBytes then some ⟨codec, readLE 4 src 8, payloadBytes⟩ else none

/-- The elements as they are in memory. -/
def rawBytes (src : List UInt16) : List UInt8 := src.flatMap fun x => leBytes 2 x.toNat

/-- The `n` elements at the start of a byte string. -/
def readRaw (src : List UInt8) (n : Nat) : List UInt16 :=
  (List.range n).map fun i => UInt16.ofNat (readLE 2 src (2 * i))

/-- `rle_bytes`: the size predicted for RLE. -/
def rleBytes (src : List UInt16) (epsilon : UInt32) : Nat :=
  if src.length = 0 then 8 else 8 + countRuns src epsilon * tuRleRunBytes

/-- `bitmap_bytes`: the size predicted for the bitmap. -/
def bitmapBytes (src : List UInt16) : Nat :=
  tuBitmapHeaderBytes + (src.length + 7) / 8 + countNonzeroBits src * 2

/-- The frame around a payload. -/
def framed (codec : TuWeightPayloadCodec) (n : Nat) (payload : List UInt8) : List UInt8 :=
  frameWrite codec n payload.length ++ payload

def tuCompressAdaptiveRle (src : List UInt16) (epsilon : UInt32) (capacity : Nat) :
    Option (List UInt8 × TuWeightPayloadCodec) :=
  let n := src.length
  if epsilonNegative epsilon then none
  else if n > (uint32Max.toNat - tuWeightFrameHeaderBytes) / 2 then none
  else if capacity < tuWeightFrameHeaderBytes + n * 2 then none
  else if rleBytes src epsilon < n * 2 then
    match tuCompressRle src epsilon (capacity - tuWeightFrameHeaderBytes) with
    | none => none
    | some payload => some (framed .rle n payload, .rle)
  else some (framed .raw n (rawBytes src), .raw)

/-- The codec of the smallest payload; an earlier one wins a tie. -/
def selectCodec (src : List UInt16) (epsilon : UInt32) : TuWeightPayloadCodec :=
  let s : TuWeightPayloadCodec × Nat := (.raw, src.length * 2)
  let s := if rleBytes src epsilon < s.2 then (.rle, rleBytes src epsilon) else s
  let s := if bitmapBytes src < s.2 then (.bitmap, bitmapBytes src) else s
  s.1

def tuCompressAdaptive (src : List UInt16) (epsilon : UInt32) (capacity : Nat) :
    Option (List UInt8 × TuWeightPayloadCodec) :=
  let n := src.length
  if epsilonNegative epsilon ∨ n > (uint32Max.toNat - tuWeightFrameHeaderBytes) / 2 ∨ n > uint32Max.toNat - 7 then none
  else if capacity < tuWeightFrameHeaderBytes + n * 2 then none
  else
    let codec := selectCodec src epsilon
    let payload :=
      match codec with
      | .rle => tuCompressRle src epsilon (capacity - tuWeightFrameHeaderBytes)
      | .bitmap => tuCompressBitmap src (capacity - tuWeightFrameHeaderBytes)
      | .raw => some (rawBytes src)
    match payload with
    | none => none
    | some payload => some (framed codec n payload, codec)

/-- The payload of a framed stream. -/
def framePayload (src : List UInt8) (frame : WeightFrame) : List UInt8 :=
  (src.drop tuWeightFrameHeaderBytes).take frame.payloadBytes

def tuCompressAdaptiveValidate (src : List UInt8) : Bool :=
  match frameRead src with
  | none => false
  | some frame =>
    let body := framePayload src frame
    match frame.codec with
    | .raw => frame.elements ≤ uint32Max.toNat / 2 && frame.payloadBytes = frame.elements * 2
    | .rle => tuCompressValidate body && tuCompressGetOriginalCount body = frame.elements
    | .bitmap => tuCompressBitmapValidate body && readLE 4 body 0 = frame.elements

def tuCompressAdaptiveGetCodec (src : List UInt8) : Option TuWeightPayloadCodec := (frameRead src).map (·.codec)

def tuDecompressAdaptive (src : List UInt8) (capacity : Nat) : Option (List UInt16) :=
  if !tuCompressAdaptiveValidate src then none
  else
    match frameRead src with
    | none => none
    | some frame =>
      if capacity < frame.elements then none
      else
        let body := framePayload src frame
        match frame.codec with
        | .raw => some (readRaw body frame.elements)
        | .rle => tuDecompressRle body capacity
        | .bitmap => tuDecompressBitmap body capacity

/-! ### DMA -/

def tuCompressForDma (src : List UInt16) (cfg : Option TuCompressConfig) (capacity : Nat) : Option (List UInt8) :=
  let n := src.length
  let raw := if n > uint32Max.toNat / 2 then none else if capacity < n * 2 then none else some (rawBytes src)
  match cfg with
  | none => raw
  | some cfg =>
    if !cfg.enabled then raw
    else
      match cfg.type with
      | .none => raw
      | .rle => tuCompressRle src cfg.rleEpsilon capacity
      | .adaptiveRle => (tuCompressAdaptiveRle src cfg.rleEpsilon capacity).map (·.1)
      | .bitmap => tuCompressBitmap src capacity
      | .adaptive => (tuCompressAdaptive src cfg.rleEpsilon capacity).map (·.1)
      | .other => none

def tuDecompressFromDma (src : List UInt8) (cfg : Option TuCompressConfig) (capacity : Nat) : Option (List UInt16) :=
  let raw :=
    if src.length % 2 ≠ 0 then none
    else if capacity < src.length / 2 then none
    else some (readRaw src (src.length / 2))
  match cfg with
  | none => raw
  | some cfg =>
    if !cfg.enabled then raw
    else
      match cfg.type with
      | .none => raw
      | .rle => tuDecompressRle src capacity
      | .adaptiveRle => tuDecompressAdaptive src capacity
      | .bitmap => tuDecompressBitmap src capacity
      | .adaptive => tuDecompressAdaptive src capacity
      | .other => none

end Tusim
