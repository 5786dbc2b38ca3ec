import Tusim.Weights.Adaptive

/-!
# Adaptive selection

The adaptive encoder writes the smallest of the three payloads, the earlier codec on a tie, unless RLE is the one
selected and the elements are more than its encoder takes (`adaptiveOptimal_iff`).  The encoder of RLE bounds the
elements as if each were a run of its own.
-/

namespace Tusim

open Bytes RunLength

/-- The encoder succeeds with the smallest payload, and the frame names its codec. -/
def AdaptiveOptimal (src : List UInt16) (epsilon : UInt32) (capacity : Nat) : Prop :=
  ∃ bytes codec, tuCompressAdaptive src epsilon capacity = some (bytes, codec) ∧
    bytes.length = 16 + min (2 * src.length) (min (rleBytes src epsilon) (bitmapBytes src)) ∧
    (codec = .raw ↔ 2 * src.length ≤ rleBytes src epsilon ∧ 2 * src.length ≤ bitmapBytes src) ∧
    (codec = .rle ↔ rleBytes src epsilon < 2 * src.length ∧ rleBytes src epsilon ≤ bitmapBytes src) ∧
    (codec = .bitmap ↔ bitmapBytes src < 2 * src.length ∧ bitmapBytes src < rleBytes src epsilon) ∧
    tuCompressAdaptiveGetCodec bytes = some codec

/-- RLE is selected for more elements than its encoder takes. -/
def RleOverflows (src : List UInt16) (epsilon : UInt32) : Prop :=
  715827881 < src.length ∧ 8 + 6 * countRuns src epsilon < 2 * src.length ∧
    6 * countRuns src epsilon ≤ (src.length + 7) / 8 + 2 * countNonzeroBits src

section

variable {src : List UInt16} {epsilon : UInt32} {capacity : Nat}

private theorem rleOverflows_iff :
    RleOverflows src epsilon ↔ 715827881 < src.length ∧ selectCodec src epsilon = .rle := by
  unfold RleOverflows
  by_cases hn : 715827881 < src.length
  · have hrle : rleBytes src epsilon = 8 + 6 * countRuns src epsilon := by
      unfold rleBytes tuRleRunBytes
      rw [if_neg (by omega)]
      omega
    -- the eight bytes of both headers cancel
    have hbitmap : bitmapBytes src = 8 + (src.length + 7) / 8 + 2 * countNonzeroBits src := by
      unfold bitmapBytes tuBitmapHeaderBytes
      omega
    rw [(selectCodec_iff src epsilon).2.1, hrle, hbitmap]
    omega
  · simp [hn]

theorem AdaptiveOptimal.epsilon_and_runs (h : AdaptiveOptimal src epsilon capacity) :
    ¬ epsilonNegative epsilon ∧ ¬ RleOverflows src epsilon := by
  obtain ⟨bytes, codec, hbytes, -⟩ := h
  rw [tuCompressAdaptive_eq] at hbytes
  split at hbytes
  · rename_i hgiven
    refine ⟨hgiven.1.1, ?_⟩
    rw [rleOverflows_iff]
    rintro ⟨hlarge, hrle⟩
    have hle := hgiven.2 hrle
    omega
  · cases hbytes

/-- The encoder is optimal exactly on the elements that RLE takes when it is selected. -/
theorem adaptiveOptimal_iff (hn : 2 * src.length + 16 < 2 ^ 32) (hcap : 16 + 2 * src.length ≤ capacity) :
    AdaptiveOptimal src epsilon capacity ↔ ¬ epsilonNegative epsilon ∧ ¬ RleOverflows src epsilon := by
  constructor
  · exact AdaptiveOptimal.epsilon_and_runs
  · rintro ⟨hepsilon, hfits⟩
    rw [rleOverflows_iff] at hfits
    have hlen := length_selected src epsilon
    obtain ⟨hraw, hrle, hbitmap⟩ := selectCodec_iff src epsilon
    refine ⟨framed (selectCodec src epsilon) src.length (payloadOf (selectCodec src epsilon) src epsilon),
      selectCodec src epsilon, ?_, ?_, hraw, hrle, hbitmap, ?_⟩
    · rw [tuCompressAdaptive_eq, if_pos]
      refine ⟨⟨hepsilon, by omega, by omega⟩, fun hrle => ?_⟩
      by_contra hlarge
      exact hfits ⟨Nat.not_le.1 hlarge, hrle⟩
    · rw [length_framed, hlen, Nat.mul_comm]
    · unfold tuCompressAdaptiveGetCodec
      rw [frameRead_framed _ (by omega) (by omega)]
      rfl

/-- Distinct elements are smallest as they are. -/
theorem adaptiveOptimal_distinct : AdaptiveOptimal [1, 2, 3, 4, 5] 0 26 :=
  (adaptiveOptimal_iff (by decide) (by decide)).2 ⟨by decide +kernel, fun h => absurd h.1 (by decide)⟩

end

private theorem countRuns_replicate (n : Nat) (epsilon : UInt32) : countRuns (List.replicate n 0) epsilon ≤ 1 := by
  cases n with
  | zero => exact Nat.zero_le 1
  | succ n =>
    unfold countRuns
    rw [List.replicate_succ]
    dsimp only
    induction n with
    | zero => exact Nat.le_refl 1
    | succ n ih =>
      rw [List.replicate_succ, List.foldl_cons, fp16NearEqual_self]
      exact ih

/-- More zeros than the encoder of RLE takes: one run would do. -/
theorem rleOverflows_replicate {n : Nat} (hn : 715827881 < n) (epsilon : UInt32) :
    RleOverflows (List.replicate n 0) epsilon := by
  have hruns := countRuns_replicate n epsilon
  unfold RleOverflows
  rw [List.length_replicate]
  omega

theorem not_adaptiveOptimal_zeros :
    ¬ ∀ src epsilon capacity, ¬ epsilonNegative epsilon → 2 * src.length + 16 < 2 ^ 32 →
      16 + 2 * src.length ≤ capacity → AdaptiveOptimal src epsilon capacity := by
  intro h
  have hlen : (List.replicate 715827882 (0 : UInt16)).length = 715827882 := List.length_replicate
  have hoptimal := h (List.replicate 715827882 0) 0 1431655780 (by decide +kernel) (by rw [hlen]; decide)
    (by rw [hlen])
  exact hoptimal.epsilon_and_runs.2 (rleOverflows_replicate (by decide) 0)

end Tusim

/-!
### Validators and decoders

Whether a validator accepts the byte strings that its decoder decodes into the declared number of elements.  The
bitmap validator does, as its decoder asks it first.  The RLE validator compares the size with the number of runs and
leaves the runs to the decoder, which takes bytes after the runs; the adaptive one passes this on for a frame with an
RLE payload (`validators_decide_iff`).
-/

namespace Tusim

open Bytes RunLength

def DecidesRle (src : List UInt8) : Prop := tuCompressValidate src ↔ (tuDecompressRle src (readLE 4 src 0)).isSome

def DecidesBitmap (src : List UInt8) : Prop :=
  tuCompressBitmapValidate src ↔ (tuDecompressBitmap src (readLE 4 src 0)).isSome

def DecidesAdaptive (src : List UInt8) : Prop :=
  tuCompressAdaptiveValidate src ↔ (tuDecompressAdaptive src (readLE 4 src 8)).isSome

instance (src : List UInt8) : Decidable (DecidesRle src) := instDecidableIff

/-- A stream that holds its runs ends with them if and only if they fill the declared elements. -/
def RunsMatchSize (src : List UInt8) : Prop :=
  RleHeader src → 8 + 6 * readLE 4 src 4 ≤ src.length →
    (src.length = 8 + 6 * readLE 4 src 4 ↔ Fills (readLE 4 src 0) (streamRuns src))

/-- The runs of an RLE payload fill the elements of the frame. -/
def FrameRunsFill (src : List UInt8) : Prop :=
  ∀ frame, frameRead src = some frame → frame.codec = .rle →
    let payload := framePayload src frame
    RleHeader payload → payload.length = 8 + 6 * readLE 4 payload 4 → readLE 4 payload 0 = frame.elements →
      Fills frame.elements (streamRuns payload)

section

variable {src : List UInt8}

theorem isSome_tuDecompressRle {capacity : Nat} :
    (tuDecompressRle src capacity).isSome ↔
      (RleHeader src ∧ 8 + 6 * readLE 4 src 4 ≤ src.length ∧ Fills (readLE 4 src 0) (streamRuns src)) ∧
        readLE 4 src 0 ≤ capacity := by
  rw [tuDecompressRle_eq]
  split <;> simp [*]

theorem decidesRle_iff : DecidesRle src ↔ RunsMatchSize src := by
  unfold DecidesRle RunsMatchSize
  rw [tuCompressValidate_iff, isSome_tuDecompressRle]
  have hsize : src.length = 8 + 6 * readLE 4 src 4 → 8 + 6 * readLE 4 src 4 ≤ src.length := fun h => Nat.le_of_eq h.symm
  have hcap : readLE 4 src 0 ≤ readLE 4 src 0 := Nat.le_refl _
  tauto

theorem decidesBitmap (src : List UInt8) : DecidesBitmap src := by
  unfold DecidesBitmap tuDecompressBitmap
  cases tuCompressBitmapValidate src with
  | false => simp
  | true => simp

theorem frameRead_elements {frame : WeightFrame} (h : frameRead src = some frame) :
    frame.elements = readLE 4 src 8 := by
  unfold frameRead at h
  split at h
  · cases h
  split at h
  · cases h
  split at h
  · cases h
  dsimp only at h
  split at h
  · rw [← Option.some.inj h]
  · cases h

/-- The validator on a frame that is read. -/
theorem tuCompressAdaptiveValidate_of_frame {frame : WeightFrame} (h : frameRead src = some frame) :
    tuCompressAdaptiveValidate src =
      match frame.codec with
      | .raw => decide (frame.elements ≤ uint32Max.toNat / 2) && decide (frame.payloadBytes = frame.elements * 2)
      | .rle => tuCompressValidate (framePayload src frame) &&
          decide (tuCompressGetOriginalCount (framePayload src frame) = frame.elements)
      | .bitmap => tuCompressBitmapValidate (framePayload src frame) &&
          decide (readLE 4 (framePayload src frame) 0 = frame.elements) := by
  cases hcodec : frame.codec <;> simp only [tuCompressAdaptiveValidate, h, hcodec]

/-- An RLE payload that the validator accepts declares as many elements as the frame. -/
theorem validate_rle_iff {payload : List UInt8} {n : Nat} :
    (tuCompressValidate payload && decide (tuCompressGetOriginalCount payload = n)) ↔
      RleHeader payload ∧ payload.length = 8 + 6 * readLE 4 payload 4 ∧ readLE 4 payload 0 = n := by
  rw [Bool.and_eq_true, decide_eq_true_eq, tuCompressValidate_iff, and_assoc]
  refine and_congr_right fun hheader => and_congr_right fun _ => ?_
  have hlen := hheader.1
  unfold tuCompressGetOriginalCount
  rw [if_pos (by omega)]

/-- The decoder for the declared elements. -/
theorem isSome_tuDecompressAdaptive {frame : WeightFrame} (h : frameRead src = some frame) :
    (tuDecompressAdaptive src frame.elements).isSome ↔
      tuCompressAdaptiveValidate src ∧
        (frame.codec = .rle → (tuDecompressRle (framePayload src frame) frame.elements).isSome) := by
  unfold tuDecompressAdaptive
  cases hvalid : tuCompressAdaptiveValidate src with
  | false => simp
  | true =>
    rw [h]
    dsimp only
    rw [if_neg (by simp), if_neg (Nat.lt_irrefl _)]
    rw [tuCompressAdaptiveValidate_of_frame h] at hvalid
    cases hcodec : frame.codec with
    | raw => simp
    | rle => simp
    | bitmap =>
      -- the decoder asks the validator once more
      rw [hcodec] at hvalid
      simp only [Bool.and_eq_true, decide_eq_true_eq] at hvalid
      have hdecides := (decidesBitmap (framePayload src frame)).1 hvalid.1
      rw [hvalid.2] at hdecides
      simp [hdecides]

theorem decidesAdaptive_iff : DecidesAdaptive src ↔ FrameRunsFill src := by
  unfold DecidesAdaptive FrameRunsFill
  cases hframe : frameRead src with
  | none =>
    have hvalid : tuCompressAdaptiveValidate src = false := by
      unfold tuCompressAdaptiveValidate
      rw [hframe]
    simp [tuDecompressAdaptive, hvalid]
  | some frame =>
    rw [← frameRead_elements hframe, isSome_tuDecompressAdaptive hframe, iff_self_and]
    have hvalid := tuCompressAdaptiveValidate_of_frame hframe
    constructor
    · rintro hdecides frame' hframe' hrle payload hheader hsize hcount
      cases Option.some.inj hframe'
      rw [hrle] at hvalid
      have hsome := hdecides (by rw [hvalid]; exact validate_rle_iff.2 ⟨hheader, hsize, hcount⟩) hrle
      rw [← hcount]
      exact (isSome_tuDecompressRle.1 hsome).1.2.2
    · intro hfill haccepted hrle
      rw [hrle] at hvalid
      obtain ⟨hheader, hsize, hcount⟩ := validate_rle_iff.1 (hvalid.symm.trans haccepted)
      have hfills := hfill frame rfl hrle hheader hsize hcount
      rw [← hcount] at hfills ⊢
      exact isSome_tuDecompressRle.2 ⟨⟨hheader, Nat.le_of_eq hsize.symm, hfills⟩, Nat.le_refl _⟩

end

/-- Where the validators decide what the decoders take. -/
theorem validators_decide_iff (src : List UInt8) :
    (DecidesRle src ↔ RunsMatchSize src) ∧ DecidesBitmap src ∧ (DecidesAdaptive src ↔ FrameRunsFill src) :=
  ⟨decidesRle_iff, decidesBitmap src, decidesAdaptive_iff⟩

/-- One run of one element where two are declared. -/
theorem not_decides_short_run : ¬ ∀ src, DecidesRle src ∧ DecidesBitmap src ∧ DecidesAdaptive src := by
  intro h
  have hrle := (h [2, 0, 0, 0, 1, 0, 0, 0, 0, 0, 1, 0, 0, 0]).1
  revert hrle
  decide +kernel

end Tusim
