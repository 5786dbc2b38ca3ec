import Mathlib.Algebra.Order.Ring.Defs
import Tusim.Lib.NumberMemory
import Tusim.Lib.Windows

/-!
# The convolution engine

The dimensions of a convolution, the two builders of the im2col matrix, the direct convolution of NHWC tensors and the
convolution by im2col and one multiply for each group.  The builders copy bytes.  The convolutions compute with numbers of
an arbitrary ordered semiring, of which a float array holds one for each index.

Sums and products of indices wrap at 32 bits where the source computes them in `uint32_t`; what is added to a pointer does
not.  The fields of a descriptor are 32-bit numbers.
-/

namespace Tusim.Conv

open Blocks NumberMemory Windows Word

inductive TuConvActivation
  | none
  | relu
  | relu6
  deriving DecidableEq, Repr

/-- `tu_conv_desc_t` -/
structure TuConvDesc where
  batch : Nat
  inChannels : Nat
  inHeight : Nat
  inWidth : Nat
  outChannels : Nat
  kernelH : Nat
  kernelW : Nat
  strideH : Nat
  strideW : Nat
  padT : Nat
  padB : Nat
  padL : Nat
  padR : Nat
  dilationH : Nat
  dilationW : Nat
  groups : Nat
  activation : TuConvActivation
  outHeight : Nat := 0
  outWidth : Nat := 0
  im2colRows : Nat := 0
  im2colCols : Nat := 0
  deriving DecidableEq, Repr

/-! ### Dimensions -/

inductive DimsError
  /-- the return value -1 -/
  | rejected
  /-- a division by zero -/
  | undefined
  deriving DecidableEq, Repr

/-- `oh` or `ow`, in 64 bits but for the product; the division truncates. -/
def outDim (size padBefore padAfter dilation kernel stride : Nat) : Int :=
  ((size : Int) + padBefore + padAfter - u32 (dilation * u32 (kernel + 2 ^ 32 - 1)) - 1).tdiv stride + 1

/-- `tu_conv_compute_dims` -/
def tuConvComputeDims (desc : TuConvDesc) : Except DimsError TuConvDesc :=
  if desc.strideH = 0 ∨ desc.strideW = 0 then .error .undefined
  else
    let oh := outDim desc.inHeight desc.padT desc.padB desc.dilationH desc.kernelH desc.strideH
    let ow := outDim desc.inWidth desc.padL desc.padR desc.dilationW desc.kernelW desc.strideW
    if oh ≤ 0 ∨ ow ≤ 0 then .error .rejected
    else if desc.groups = 0 then .error .undefined
    else if desc.inChannels % desc.groups ≠ 0 then .error .rejected
    else if desc.outChannels % desc.groups ≠ 0 then .error .rejected
    else
      .ok { desc with
        outHeight := u32 oh.toNat
        outWidth := u32 ow.toNat
        im2colRows := u32 (desc.inChannels / desc.groups * desc.kernelH * desc.kernelW)
        im2colCols := u32 (u32 oh.toNat * u32 ow.toNat) }

namespace TuConvDesc

variable (d : TuConvDesc)

/-- `c_per_g` -/
def cPerG : Nat := d.inChannels / d.groups

/-- `k_per_g` -/
def kPerG : Nat := d.outChannels / d.groups

/-- `iy` -/
def iy (oy r : Nat) : Int := coord (oy * d.strideH + r * d.dilationH) d.padT

/-- `ix` -/
def ix (ox s : Nat) : Int := coord (ox * d.strideW + s * d.dilationW) d.padL

/-- The test whether a position of the window lies in the input. -/
def covered (oy ox r s : Nat) : Bool := inside (d.iy oy r) d.inHeight && inside (d.ix ox s) d.inWidth

/-! ### Im2col -/

section

variable {β : Type}

/-- The loops of both builders: `inPtr` is the address of an input element, `zeros` the bytes that `memset` writes. -/
def im2col (inPtr : Nat → Nat → Nat → Nat) (zeros input output : Nat → β) (elemSize : Nat) : Nat → β :=
  let im2colRowStride := u32 (d.im2colCols * elemSize)
  let groupRowOffset := u32 (d.cPerG * d.kernelH * d.kernelW * d.im2colCols * elemSize)
  (List.range d.groups).foldl (fun out g =>
    let gOut := u32 (g * groupRowOffset)
    (List.range d.cPerG).foldl (fun out c =>
      let chan := u32 (g * d.cPerG + c)
      (List.range d.kernelH).foldl (fun out r => (List.range d.kernelW).foldl (fun out s =>
        let row := u32 (c * d.kernelH * d.kernelW + r * d.kernelW + s)
        let rowOut := gOut + u32 (row * im2colRowStride)
        (List.range d.outHeight).foldl (fun out oy => (List.range d.outWidth).foldl (fun out ox =>
          let colOut := rowOut + u32 ((oy * d.outWidth + ox) * elemSize)
          if d.covered oy ox r s then
            let src := inPtr chan (d.iy oy r).toNat (d.ix ox s).toNat
            memcpy out colOut (fun i => input (src + i)) elemSize
          else memcpy out colOut zeros elemSize) out) out) out) out) out) output

/-- The address of an element in `tu_im2col_nhwc`. -/
def nhwcPtr (elemSize chan iy ix : Nat) : Nat :=
  u32 (iy * u32 (d.inWidth * d.inChannels * elemSize)) + u32 (ix * d.inChannels * elemSize) + u32 (chan * elemSize)

/-- The address of an element in `tu_im2col_nchw`. -/
def nchwPtr (elemSize chan iy ix : Nat) : Nat :=
  u32 (chan * u32 (d.inHeight * d.inWidth * elemSize)) + u32 (iy * d.inWidth * elemSize) + u32 (ix * elemSize)

def tuIm2colNhwc (zeros input output : Nat → β) (elemSize : Nat) : Nat → β :=
  d.im2col (d.nhwcPtr elemSize) zeros input output elemSize

def tuIm2colNchw (zeros input output : Nat → β) (elemSize : Nat) : Nat → β :=
  d.im2col (d.nchwPtr elemSize) zeros input output elemSize

end

/-! ### Convolutions -/

section

variable {R : Type} [CommSemiring R] [LinearOrder R]

/-- What the fused activation makes of a number. -/
def activate (x : R) : R :=
  match d.activation with
  | .none => x
  | .relu => if x < 0 then 0 else x
  | .relu6 =>
    let x := if x < 0 then 0 else x
    if x > 6 then 6 else x

/-- The loop of the fused activation over the first `total` numbers. -/
def applyActivation (total : Nat) (output : Nat → R) : Nat → R :=
  (List.range total).foldl (fun out i => Function.update out i (d.activate (out i))) output

/-- The size of the output, a `size_t`. -/
def outSize : Nat := u64 (d.batch * d.outHeight * d.outWidth * d.outChannels)

variable (input weight : Nat → R) (bias : Option (Nat → R))

/-- The sum in the innermost loops of the direct convolution. -/
def directSum (g n kg oh ow : Nat) : R :=
  (List.range d.cPerG).foldl (fun sum c =>
    let cg := u32 (g * d.cPerG + c)
    (List.range d.kernelH).foldl (fun sum r => (List.range d.kernelW).foldl (fun sum s =>
      if d.covered oh ow r s then
        let iy := (d.iy oh r).toNat
        let ix := (d.ix ow s).toNat
        sum + input (u32 (n * d.inHeight * d.inWidth * d.inChannels + iy * d.inWidth * d.inChannels +
            ix * d.inChannels + cg)) *
          weight (u32 (kg * d.cPerG * d.kernelH * d.kernelW + c * d.kernelH * d.kernelW + r * d.kernelW + s))
      else sum) sum) sum) 0

/-- The body of the loops of the direct convolution over the output. -/
def directCell (g n k oh ow : Nat) (output : Nat → R) : Nat → R :=
  let kg := u32 (g * d.kPerG + k)
  let outIdx := u32 (n * d.outHeight * d.outWidth * d.outChannels + oh * d.outWidth * d.outChannels +
    ow * d.outChannels + kg)
  let output := Function.update output outIdx (d.directSum input weight g n kg oh ow)
  match bias with
  | some bias => Function.update output outIdx (output outIdx + bias kg)
  | none => output

/-- `tu_conv2d_direct_nhwc_fp32` -/
def tuConv2dDirectNhwcFp32 (output : Nat → R) : Nat → R :=
  d.applyActivation d.outSize <|
    (List.range d.groups).foldl (fun out g => (List.range d.batch).foldl (fun out n =>
      (List.range d.kPerG).foldl (fun out k => (List.range d.outHeight).foldl (fun out oh =>
        (List.range d.outWidth).foldl (fun out ow => d.directCell input weight bias g n k oh ow out)
          out) out) out) out) (memset output 0 0 d.outSize)

/-- `im2col_k` -/
def im2colK : Nat := u32 (d.cPerG * d.kernelH * d.kernelW)

/-- `im2col_n` -/
def im2colN : Nat := u32 (d.outHeight * d.outWidth)

/-- `bias ? bias[kg] : 0.0f` -/
def biasOf (kg : Nat) : R :=
  match bias with
  | some bias => bias kg
  | none => 0

variable (garbage : R)

/-- The sum in the innermost loop of the multiply, read from the matrix `buf`. -/
def gemmSum (buf : Nat → NumByte R) (g k col : Nat) : R :=
  let im2colG := u32 (g * d.cPerG * d.kernelH * d.kernelW * d.outHeight * d.outWidth)
  let wRow := u32 (g * d.kPerG * d.cPerG * d.kernelH * d.kernelW) + u32 (k * d.im2colK)
  (List.range d.im2colK).foldl (fun sum ki =>
    sum + weight (wRow + ki) * load 4 garbage buf (4 * (im2colG + col + u32 (ki * d.im2colN))))
    (biasOf bias (u32 (g * d.kPerG + k)))

/-- The multiplies of one image, one for each group. -/
def gemmImage (buf : Nat → NumByte R) (n : Nat) (output : Nat → R) : Nat → R :=
  let outPtr := u32 (n * d.outHeight * d.outWidth * d.outChannels)
  (List.range d.groups).foldl (fun out g => (List.range d.kPerG).foldl (fun out k =>
    let oRow := outPtr + u32 (g * d.kPerG + k)
    (List.range d.im2colN).foldl (fun out col =>
      let oh := col / d.outWidth
      let ow := col % d.outWidth
      Function.update out (oRow + u32 ((oh * d.outWidth + ow) * d.outChannels)) (d.gemmSum weight bias garbage buf g k col))
      out) out) output

/-- The bytes of a zero number. -/
def zeroBytes : Nat → NumByte R := encode 4 fun _ => 0

/-- `conv_fp32_im2col_gemm`: the output, given what is in the buffer for the matrix. -/
def convFp32Im2colGemm (output : Nat → R) (im2colBuf : Nat → NumByte R) : Nat → R :=
  d.applyActivation d.outSize
    ((List.range d.batch).foldl (fun (s : (Nat → R) × (Nat → NumByte R)) n =>
      let image := u32 (n * d.inHeight * d.inWidth * d.inChannels)
      let buf := d.tuIm2colNhwc zeroBytes (fun i => encode 4 input (4 * image + i)) s.2 4
      (d.gemmImage weight bias garbage buf n s.1, buf)) (output, im2colBuf)).1

end

end TuConvDesc

end Tusim.Conv
