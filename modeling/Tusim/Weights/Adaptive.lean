import Tusim.Weights.Bitmap
import Tusim.Weights.Rle

/-!
# The adaptive frame

* reading a frame gives back what was written (`frameRead_framed`);
* the encoders succeed with the payload of the selected codec, unless RLE is selected for more elements than its
  encoder takes (`tuCompressAdaptive_eq`, `tuCompressAdaptiveRle_eq`);
* the decoder undoes each codec (`tuDecompressAdaptive_payload`).
-/

namespace Tusim

open Bytes RunLength

@[simp] theorem length_frameWrite (codec : TuWeightPayloadCodec) (n m : Nat) : (frameWrite codec n m).length = 16 := by
  simp [frameWrite]

theorem codecOfByte_byte (codec : TuWeightPayloadCodec) : codecOfByte codec.byte = some codec := by
  cases codec <;> rfl

section

variable (codec : TuWeightPayloadCodec) {n : Nat} {payload : List UInt8}

theorem length_framed (n : Nat) (payload : List UInt8) : (framed codec n payload).length = 16 + payload.length := by
  simp [framed]

/-- A frame is read as it was written. -/
theorem frameRead_framed (hn : n < 2 ^ 32) (hlen : payload.length < 2 ^ 32) :
    frameRead (framed codec n payload) = some ⟨codec, n, payload.length⟩ := by
  have hcodec : codec.byte < 256 := by cases codec <;> decide
  have hmagic : readLE 4 (framed codec n payload) 0 = tuWeightFrameMagic :=
    readLE_block (by decide) [] _ (by simp [framed, frameWrite]; rfl) rfl
  have hversion : readLE 1 (framed codec n payload) 4 = tuWeightFrameVersion :=
    readLE_block (by decide) (leBytes 4 tuWeightFrameMagic) _ (by simp [framed, frameWrite]; rfl) rfl
  have hbyte : readLE 1 (framed codec n payload) 5 = codec.byte :=
    readLE_block hcodec (leBytes 4 tuWeightFrameMagic ++ leBytes 1 tuWeightFrameVersion) _
      (by simp [framed, frameWrite]; rfl) rfl
  have hreserved : readLE 2 (framed codec n payload) 6 = 0 :=
    readLE_block (by decide) (leBytes 4 tuWeightFrameMagic ++ leBytes 1 tuWeightFrameVersion ++ leBytes 1 codec.byte) _
      (by simp [framed, frameWrite]; rfl) rfl
  have helements : readLE 4 (framed codec n payload) 8 = n :=
    readLE_block hn (leBytes 4 tuWeightFrameMagic ++ leBytes 1 tuWeightFrameVersion ++ leBytes 1 codec.byte ++
      leBytes 2 0) _ (by simp [framed, frameWrite]; rfl) rfl
  have hpayload : readLE 4 (framed codec n payload) 12 = payload.length :=
    readLE_block hlen (leBytes 4 tuWeightFrameMagic ++ leBytes 1 tuWeightFrameVersion ++ leBytes 1 codec.byte ++
      leBytes 2 0 ++ leBytes 4 n) payload (by simp [framed, frameWrite]) rfl
  unfold frameRead tuWeightFrameHeaderBytes
  rw [hmagic, hversion, hbyte, hreserved, helements, hpayload, length_framed, codecOfByte_byte]
  simp

theorem framePayload_framed (n : Nat) (payload : List UInt8) :
    framePayload (framed codec n payload) ⟨codec, n, payload.length⟩ = payload := by
  unfold framePayload framed tuWeightFrameHeaderBytes
  rw [List.drop_left' (length_frameWrite codec n payload.length), List.take_length]

end

/-! ### Payloads -/

/-- The payload that a codec's encoder writes. -/
def payloadOf (codec : TuWeightPayloadCodec) (src : List UInt16) (epsilon : UInt32) : List UInt8 :=
  match codec with
  | .raw => rawBytes src
  | .rle => rleStream src.length (rleRuns src epsilon)
  | .bitmap => bitmapStream src

/-- The elements that come back. -/
def decodedOf (codec : TuWeightPayloadCodec) (src : List UInt16) (epsilon : UInt32) : List UInt16 :=
  match codec with
  | .raw => src
  | .rle => expand (rleRuns src epsilon)
  | .bitmap => src

theorem length_rleStream_rleRuns (src : List UInt16) (epsilon : UInt32) :
    (rleStream src.length (rleRuns src epsilon)).length = rleBytes src epsilon := by
  rw [length_rleStream, ← countRuns_eq]
  unfold rleBytes tuRleRunBytes
  split
  · rename_i hnil
    rw [List.length_eq_zero_iff.1 hnil]
    rfl
  · omega

theorem decodedOf_near (codec : TuWeightPayloadCodec) (src : List UInt16) (epsilon : UInt32) :
    List.Forall₂ (fun x y => fp16NearEqual x y epsilon) src (decodedOf codec src epsilon) := by
  have hself : List.Forall₂ (fun x y => fp16NearEqual x y epsilon = true) src src :=
    List.forall₂_same.2 fun x _ => fp16NearEqual_self x epsilon
  cases codec with
  | raw => exact hself
  | rle => exact expand_rleRuns src epsilon
  | bitmap => exact hself

section

variable {codec : TuWeightPayloadCodec} {src : List UInt16} {epsilon : UInt32}

/-- The elements that a codec takes in a frame. -/
def Encodable (codec : TuWeightPayloadCodec) (src : List UInt16) (epsilon : UInt32) : Prop :=
  src.length * 2 + 16 < 2 ^ 32 ∧ (payloadOf codec src epsilon).length < 2 ^ 32 ∧
    (codec = .rle → src.length ≤ 715827881)

theorem tuCompressAdaptiveValidate_payload (h : Encodable codec src epsilon) :
    tuCompressAdaptiveValidate (framed codec src.length (payloadOf codec src epsilon)) := by
  obtain ⟨hn, hlen, hrle⟩ := h
  unfold tuCompressAdaptiveValidate
  rw [frameRead_framed codec (by omega) hlen]
  dsimp only
  rw [framePayload_framed]
  cases codec with
  | raw =>
    have hmax : uint32Max.toNat / 2 = 2147483647 := by decide
    simp only [payloadOf, length_rawBytes, hmax, Bool.and_eq_true, decide_eq_true_eq]
    omega
  | rle =>
    have hvalid := tuCompressValidate_rleStream (fills_rleRuns src epsilon) (hrle rfl)
    have hcount : tuCompressGetOriginalCount (rleStream src.length (rleRuns src epsilon)) = src.length := by
      unfold tuCompressGetOriginalCount
      rw [if_pos (by rw [length_rleStream]; omega), readLE_rleStream_zero (by omega)]
    simp only [payloadOf, hvalid, hcount, decide_true, Bool.and_self]
  | bitmap =>
    have hvalid : tuCompressBitmapValidate (bitmapStream src) := tuCompressBitmapValidate_bitmapStream (by omega)
    simp only [payloadOf, hvalid, readLE_bitmapStream_zero (show src.length < 2 ^ 32 by omega), decide_true,
      Bool.and_self]

theorem tuDecompressAdaptive_payload (h : Encodable codec src epsilon) {capacity : Nat}
    (hcap : src.length ≤ capacity) :
    tuDecompressAdaptive (framed codec src.length (payloadOf codec src epsilon)) capacity =
      some (decodedOf codec src epsilon) := by
  have hvalid := tuCompressAdaptiveValidate_payload h
  obtain ⟨hn, hlen, hrle⟩ := h
  unfold tuDecompressAdaptive
  rw [hvalid, frameRead_framed codec (by omega) hlen]
  dsimp only
  rw [framePayload_framed, if_neg (by simp), if_neg (Nat.not_lt.2 hcap)]
  cases codec with
  | raw => exact congrArg some (readRaw_rawBytes src)
  | rle => exact tuDecompressRle_rleStream (fills_rleRuns src epsilon) (hrle rfl) hcap
  | bitmap => exact tuDecompressBitmap_bitmapStream (by omega) hcap

end

/-! ### Selection -/

section

variable (src : List UInt16) (epsilon : UInt32) (capacity : Nat)

/-- The smallest payload, and on a tie the earlier codec. -/
theorem selectCodec_iff :
    (selectCodec src epsilon = .raw ↔ 2 * src.length ≤ rleBytes src epsilon ∧ 2 * src.length ≤ bitmapBytes src) ∧
    (selectCodec src epsilon = .rle ↔
      rleBytes src epsilon < 2 * src.length ∧ rleBytes src epsilon ≤ bitmapBytes src) ∧
    (selectCodec src epsilon = .bitmap ↔
      bitmapBytes src < 2 * src.length ∧ bitmapBytes src < rleBytes src epsilon) := by
  unfold selectCodec
  dsimp only
  by_cases hrle : rleBytes src epsilon < src.length * 2
  · rw [if_pos hrle]
    dsimp only
    by_cases hbitmap : bitmapBytes src < rleBytes src epsilon
    · simp only [if_pos hbitmap, true_iff, reduceCtorEq, false_iff]
      omega
    · simp only [if_neg hbitmap, true_iff, reduceCtorEq, false_iff]
      omega
  · rw [if_neg hrle]
    dsimp only
    by_cases hbitmap : bitmapBytes src < src.length * 2
    · simp only [if_pos hbitmap, true_iff, reduceCtorEq, false_iff]
      omega
    · simp only [if_neg hbitmap, true_iff, reduceCtorEq, false_iff]
      omega

/-- The selected payload is the smallest one. -/
theorem length_selected :
    (payloadOf (selectCodec src epsilon) src epsilon).length =
      min (src.length * 2) (min (rleBytes src epsilon) (bitmapBytes src)) := by
  have hraw : (payloadOf .raw src epsilon).length = 2 * src.length := length_rawBytes src
  have hrle : (payloadOf .rle src epsilon).length = rleBytes src epsilon := length_rleStream_rleRuns src epsilon
  have hbitmap : (payloadOf .bitmap src epsilon).length = bitmapBytes src := length_bitmapStream src
  obtain ⟨hraw', hrle', hbitmap'⟩ := selectCodec_iff src epsilon
  cases hcodec : selectCodec src epsilon with
  | raw =>
    have hle := hraw'.1 hcodec
    omega
  | rle =>
    have hle := hrle'.1 hcodec
    omega
  | bitmap =>
    have hle := hbitmap'.1 hcodec
    omega

/-- RLE is only selected for elements that it makes smaller, and then the capacity is enough. -/
theorem tuCompressRle_selected (hepsilon : ¬ epsilonNegative epsilon) (hsmall : rleBytes src epsilon < src.length * 2)
    (hcap : 16 + src.length * 2 ≤ capacity) :
    tuCompressRle src epsilon (capacity - 16) =
      if src.length ≤ 715827881 then some (payloadOf .rle src epsilon) else none := by
  -- nothing is smaller than no bytes
  have hsrc : src ≠ [] := by
    rintro rfl
    simp at hsmall
  have hbytes : rleBytes src epsilon = 8 + countRuns src epsilon * 6 :=
    if_neg fun h => hsrc (List.length_eq_zero_iff.1 h)
  have hfits : 8 + 6 * countRuns src epsilon ≤ capacity - 16 := by omega
  rw [tuCompressRle_eq hepsilon hsrc]
  simp only [hfits, and_true]
  rfl

theorem tuCompressBitmap_selected (hn : src.length * 2 + 16 < 2 ^ 32) (hsmall : bitmapBytes src < src.length * 2)
    (hcap : 16 + src.length * 2 ≤ capacity) :
    tuCompressBitmap src (capacity - 16) = some (payloadOf .bitmap src epsilon) := by
  rw [tuCompressBitmap_eq, toNat_uint32Max, if_pos (by omega)]
  rfl

/-- The encoder fails on what it is given, or on RLE for too many elements. -/
theorem tuCompressAdaptive_eq :
    tuCompressAdaptive src epsilon capacity =
      if (¬ epsilonNegative epsilon ∧ src.length * 2 + 16 < 2 ^ 32 ∧ 16 + src.length * 2 ≤ capacity) ∧
          (selectCodec src epsilon = .rle → src.length ≤ 715827881) then
        some (framed (selectCodec src epsilon) src.length (payloadOf (selectCodec src epsilon) src epsilon),
          selectCodec src epsilon)
      else none := by
  have hmax : (uint32Max.toNat - tuWeightFrameHeaderBytes) / 2 = 2147483639 := by decide
  have hmax' : uint32Max.toNat - 7 = 4294967288 := by decide
  unfold tuCompressAdaptive
  rw [hmax, hmax']
  unfold tuWeightFrameHeaderBytes
  dsimp only
  by_cases hbad : epsilonNegative epsilon ∨ src.length > 2147483639 ∨ src.length > 4294967288
  · rw [if_pos hbad, if_neg]
    rintro ⟨⟨hepsilon, hn, -⟩, -⟩
    rcases hbad with hneg | hlarge
    · exact hepsilon hneg
    · omega
  rw [not_or] at hbad
  obtain ⟨hepsilon, hlarge⟩ := hbad
  rw [if_neg (not_or.2 ⟨hepsilon, hlarge⟩)]
  by_cases hcap : capacity < 16 + src.length * 2
  · rw [if_pos hcap, if_neg]
    rintro ⟨⟨-, -, h⟩, -⟩
    omega
  rw [if_neg hcap]
  have hgiven : ¬ epsilonNegative epsilon ∧ src.length * 2 + 16 < 2 ^ 32 ∧ 16 + src.length * 2 ≤ capacity :=
    ⟨hepsilon, by omega, by omega⟩
  simp only [hgiven, and_self]
  obtain ⟨-, hrle, hbitmap⟩ := selectCodec_iff src epsilon
  cases hcodec : selectCodec src epsilon with
  | raw => simp [payloadOf]
  | rle =>
    have hsmall := (hrle.1 hcodec).1
    dsimp only
    rw [tuCompressRle_selected src epsilon capacity hepsilon (by omega) hgiven.2.2]
    by_cases hn : src.length ≤ 715827881 <;> simp [hn]
  | bitmap =>
    have hsmall := (hbitmap.1 hcodec).1
    dsimp only
    rw [tuCompressBitmap_selected src epsilon capacity hgiven.2.1 (by omega) hgiven.2.2]
    simp

end

section

variable {src : List UInt16} {epsilon : UInt32} {capacity : Nat} {r : List UInt8 × TuWeightPayloadCodec}

theorem tuCompressAdaptive_some (h : tuCompressAdaptive src epsilon capacity = some r) :
    ∃ codec, r = (framed codec src.length (payloadOf codec src epsilon), codec) ∧ Encodable codec src epsilon := by
  rw [tuCompressAdaptive_eq] at h
  split at h
  · rename_i hgiven
    have hlen := length_selected src epsilon
    exact ⟨selectCodec src epsilon, (Option.some.inj h).symm, hgiven.1.2.1, by omega, hgiven.2⟩
  · cases h

theorem tuCompressAdaptiveRle_some (h : tuCompressAdaptiveRle src epsilon capacity = some r) :
    ∃ codec, r = (framed codec src.length (payloadOf codec src epsilon), codec) ∧ Encodable codec src epsilon := by
  have hmax : (uint32Max.toNat - tuWeightFrameHeaderBytes) / 2 = 2147483639 := by decide
  unfold tuCompressAdaptiveRle at h
  rw [hmax] at h
  unfold tuWeightFrameHeaderBytes at h
  dsimp only at h
  split at h
  · cases h
  split at h
  · cases h
  split at h
  · cases h
  rename_i hepsilon hn hcap
  split at h
  · rename_i hsmall
    have hlen : (payloadOf .rle src epsilon).length = rleBytes src epsilon := length_rleStream_rleRuns src epsilon
    rw [tuCompressRle_selected src epsilon capacity hepsilon hsmall (Nat.not_lt.1 hcap)] at h
    by_cases hruns : src.length ≤ 715827881
    · rw [if_pos hruns] at h
      exact ⟨.rle, (Option.some.inj h).symm, by omega, by omega, fun _ => hruns⟩
    · rw [if_neg hruns] at h
      cases h
  · have hlen : (payloadOf .raw src epsilon).length = 2 * src.length := length_rawBytes src
    exact ⟨.raw, (Option.some.inj h).symm, by omega, by omega, fun h => by cases h⟩

end

end Tusim
