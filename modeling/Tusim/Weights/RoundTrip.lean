import Tusim.Weights.Adaptive

/-!
# Compression for DMA

What comes back from a compressed tensor: with every configuration the decoder undoes the encoder, except for an empty
tensor with plain RLE (`weightRoundTrip_iff`).  There the encoder writes nothing, and the decoder wants a header.
-/

namespace Tusim

open Bytes RunLength

/-- The tolerance of a configuration; without one there is none. -/
def rleEpsilonOf (cfg : Option TuCompressConfig) : UInt32 := (cfg.map (·.rleEpsilon)).getD 0

/-- An element and the one that comes back in its place. -/
def Restores (cfg : Option TuCompressConfig) (x y : UInt16) : Prop :=
  if Fp32.ofBits (rleEpsilonOf cfg) = .finite 0 then y = x else fp16NearEqual x y (rleEpsilonOf cfg) = true

instance (cfg : Option TuCompressConfig) (x y : UInt16) : Decidable (Restores cfg x y) := by
  unfold Restores
  infer_instance

/-- What the encoder writes is decoded to as many elements, each restoring the one in its place. -/
def WeightRoundTrip (src : List UInt16) (cfg : Option TuCompressConfig) : Prop :=
  ∀ capacity bytes, tuCompressForDma src cfg capacity = some bytes →
    ∀ capacity', src.length ≤ capacity' →
      ∃ dst, tuDecompressFromDma bytes cfg capacity' = some dst ∧ List.Forall₂ (Restores cfg) src dst

/-- The configuration selects plain RLE, with a tolerance that the encoder takes. -/
def PlainRle (cfg : Option TuCompressConfig) : Prop :=
  ∃ c, cfg = some c ∧ c.enabled ∧ c.type = .rle ∧ ¬ epsilonNegative c.rleEpsilon

section

variable {src dst : List UInt16} {cfg : Option TuCompressConfig}

theorem restores_of_near (h : List.Forall₂ (fun x y => fp16NearEqual x y (rleEpsilonOf cfg)) src dst) :
    List.Forall₂ (Restores cfg) src dst := by
  refine h.imp fun x y hnear => ?_
  unfold Restores
  split
  · rename_i hzero
    exact (eq_of_fp16NearEqual hzero hnear).symm
  · exact hnear

theorem restores_self (src : List UInt16) : List.Forall₂ (Restores cfg) src src :=
  restores_of_near (List.forall₂_same.2 fun x _ => fp16NearEqual_self x _)

end

section

variable {src : List UInt16} {bytes : List UInt8} {capacity capacity' : Nat}

private theorem raw_roundTrip (hcap : src.length ≤ capacity') :
    (if (rawBytes src).length % 2 ≠ 0 then none
      else if capacity' < (rawBytes src).length / 2 then none
      else some (readRaw (rawBytes src) ((rawBytes src).length / 2))) = some src := by
  have hlen := length_rawBytes src
  have hhalf : (rawBytes src).length / 2 = src.length := by omega
  rw [hhalf, if_neg (by omega), if_neg (Nat.not_lt.2 hcap), readRaw_rawBytes]

private theorem raw_written (h : (if src.length > uint32Max.toNat / 2 then none
      else if capacity < src.length * 2 then none else some (rawBytes src)) = some bytes) : bytes = rawBytes src := by
  split at h
  · cases h
  split at h
  · cases h
  · exact (Option.some.inj h).symm

theorem not_epsilonNegative {epsilon : UInt32} (h : tuCompressRle src epsilon capacity = some bytes) :
    ¬ epsilonNegative epsilon := by
  intro hneg
  simp [tuCompressRle, hneg] at h

/-- Plain RLE gives a tensor back that is not empty. -/
theorem tuDecompressRle_compressed {epsilon : UInt32} (h : tuCompressRle src epsilon capacity = some bytes)
    (hsrc : src ≠ []) (hcap : src.length ≤ capacity') :
    tuDecompressRle bytes capacity' = some (expand (rleRuns src epsilon)) := by
  rw [tuCompressRle_eq (not_epsilonNegative h) hsrc] at h
  split at h
  · rename_i hfits
    rw [← Option.some.inj h]
    exact tuDecompressRle_rleStream (fills_rleRuns src epsilon) hfits.1 hcap
  · cases h

theorem tuDecompressBitmap_compressed (h : tuCompressBitmap src capacity = some bytes)
    (hcap : src.length ≤ capacity') : tuDecompressBitmap bytes capacity' = some src := by
  rw [tuCompressBitmap_eq] at h
  split at h
  · rename_i hfits
    rw [← Option.some.inj h]
    exact tuDecompressBitmap_bitmapStream hfits.1 hcap
  · cases h

end

/-- Every other tensor and configuration. -/
private theorem weightRoundTrip_of_not {src : List UInt16} {cfg : Option TuCompressConfig}
    (h : ¬ (src = [] ∧ PlainRle cfg)) : WeightRoundTrip src cfg := by
  intro capacity bytes hbytes capacity' hcap
  unfold tuCompressForDma at hbytes
  unfold tuDecompressFromDma
  cases cfg with
  | none =>
    rw [raw_written hbytes]
    exact ⟨src, raw_roundTrip hcap, restores_self src⟩
  | some c =>
    dsimp only at hbytes ⊢
    cases henabled : c.enabled with
    | false =>
      rw [henabled] at hbytes
      rw [raw_written hbytes]
      exact ⟨src, raw_roundTrip hcap, restores_self src⟩
    | true =>
      rw [henabled] at hbytes
      simp only [Bool.not_true, Bool.false_eq_true, if_false] at hbytes ⊢
      cases htype : c.type with
      | none =>
        rw [htype] at hbytes
        rw [raw_written hbytes]
        exact ⟨src, raw_roundTrip hcap, restores_self src⟩
      | rle =>
        rw [htype] at hbytes
        have hsrc : src ≠ [] := fun hnil => h ⟨hnil, c, rfl, henabled, htype, not_epsilonNegative hbytes⟩
        exact ⟨_, tuDecompressRle_compressed hbytes hsrc hcap, restores_of_near (expand_rleRuns src c.rleEpsilon)⟩
      | adaptiveRle =>
        rw [htype] at hbytes
        obtain ⟨r, hr, rfl⟩ := Option.map_eq_some_iff.1 hbytes
        obtain ⟨codec, rfl, hencodable⟩ := tuCompressAdaptiveRle_some hr
        exact ⟨_, tuDecompressAdaptive_payload hencodable hcap, restores_of_near (decodedOf_near codec src c.rleEpsilon)⟩
      | bitmap =>
        rw [htype] at hbytes
        exact ⟨src, tuDecompressBitmap_compressed hbytes hcap, restores_self src⟩
      | adaptive =>
        rw [htype] at hbytes
        obtain ⟨r, hr, rfl⟩ := Option.map_eq_some_iff.1 hbytes
        obtain ⟨codec, rfl, hencodable⟩ := tuCompressAdaptive_some hr
        exact ⟨_, tuDecompressAdaptive_payload hencodable hcap, restores_of_near (decodedOf_near codec src c.rleEpsilon)⟩
      | other =>
        rw [htype] at hbytes
        cases hbytes

/-- An empty tensor with plain RLE is written as no bytes, which the decoder rejects. -/
private theorem not_weightRoundTrip_nil {cfg : Option TuCompressConfig} (h : PlainRle cfg) :
    ¬ WeightRoundTrip [] cfg := by
  obtain ⟨c, rfl, henabled, htype, hepsilon⟩ := h
  intro hround
  have hbytes : tuCompressForDma [] (some c) 0 = some [] := by
    simp [tuCompressForDma, tuCompressRle, henabled, htype, hepsilon]
  have hrejected : tuDecompressFromDma [] (some c) 0 = none := by
    simp [tuDecompressFromDma, tuDecompressRle, rleHeaderSize, henabled, htype]
  obtain ⟨dst, hdst, -⟩ := hround 0 [] hbytes 0 (Nat.le_refl _)
  rw [hrejected] at hdst
  cases hdst

/-- Everything comes back but an empty tensor with plain RLE. -/
theorem weightRoundTrip_iff (src : List UInt16) (cfg : Option TuCompressConfig) :
    WeightRoundTrip src cfg ↔ ¬ (src = [] ∧ PlainRle cfg) := by
  constructor
  · rintro hround ⟨rfl, hrle⟩
    exact not_weightRoundTrip_nil hrle hround
  · exact weightRoundTrip_of_not

theorem not_weightRoundTrip_empty : ¬ ∀ src cfg, WeightRoundTrip src cfg := by
  intro h
  obtain ⟨dst, hdst, -⟩ := h [] (some ⟨.rle, 0, true⟩) 0 [] (by decide +kernel) 0 (by decide)
  cases hdst

end Tusim
