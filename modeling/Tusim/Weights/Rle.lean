import Tusim.Weights.WeightCompress

/-!
# The RLE codec

* the encoder writes the greedy runs of the elements, as many as `countRuns` predicts (`tuCompressRle_eq`);
* the decoder takes a stream whose runs fill the declared elements, whatever follows them (`tuDecompressRle_eq`);
* the validator looks at the header and the size, not at the runs (`tuCompressValidate_iff`).
-/

namespace Tusim

open Bytes RunLength

theorem fp16NearEqual_self (a : UInt16) (epsilon : UInt32) : fp16NearEqual a a epsilon = true := by
  simp [fp16NearEqual]

/-- With a zero tolerance only an element itself is near. -/
theorem eq_of_fp16NearEqual {a b : UInt16} {epsilon : UInt32} (hzero : Fp32.ofBits epsilon = .finite 0)
    (h : fp16NearEqual a b epsilon = true) : a = b := by
  unfold fp16NearEqual at h
  rw [hzero] at h
  by_contra hne
  simp [hne, Fp32.le] at h

theorem uint32Max_runs : (uint32Max.toNat - rleHeaderSize) / tuRleRunBytes = 715827881 := by decide

/-! ### Encoding -/

/-- The runs that the encoder writes. -/
def rleRuns (src : List UInt16) (epsilon : UInt32) : List TuRleRun :=
  match src with
  | [] => []
  | first :: rest => runsFrom (fun x v => fp16NearEqual x v epsilon) first 1 rest

/-- The bytes of the runs of `n` elements. -/
def rleStream (n : Nat) (runs : List TuRleRun) : List UInt8 :=
  leBytes 4 n ++ leBytes 4 runs.length ++ runs.flatMap TuRleRun.bytes

theorem TuRleRun.length_bytes (run : TuRleRun) : run.bytes.length = 6 := by
  simp [TuRleRun.bytes]

theorem length_rleStream (n : Nat) (runs : List TuRleRun) : (rleStream n runs).length = 8 + 6 * runs.length := by
  have hruns := length_flatMap_width TuRleRun.length_bytes runs
  unfold rleStream
  simp only [List.length_append, length_leBytes, hruns]

theorem fills_rleRuns (src : List UInt16) (epsilon : UInt32) : Fills src.length (rleRuns src epsilon) := by
  cases src with
  | nil => exact ⟨by simp [rleRuns], rfl⟩
  | cons first rest =>
    have h := fills_runsFrom (fun x v => fp16NearEqual x v epsilon) first Nat.one_pos rest
    rwa [Nat.add_comm] at h

/-- An element is near to the one that comes back in its place. -/
theorem expand_rleRuns (src : List UInt16) (epsilon : UInt32) :
    List.Forall₂ (fun x y => fp16NearEqual x y epsilon) src (expand (rleRuns src epsilon)) := by
  cases src with
  | nil => exact List.Forall₂.nil
  | cons first rest => exact expand_runsFrom (fun a => fp16NearEqual_self a epsilon) first rest

private theorem foldl_countRuns (epsilon : UInt32) (rest : List UInt16) (k : Nat) (v : UInt16) :
    (rest.foldl (fun s x => if !fp16NearEqual x s.2 epsilon then (s.1 + 1, x) else s) (k, v)).1 + 1 =
      k + (runsFrom (fun x v => fp16NearEqual x v epsilon) v 1 rest).length := by
  induction rest generalizing k v with
  | nil => rfl
  | cons x rest ih =>
    rw [List.foldl_cons, runsFrom]
    cases fp16NearEqual x v epsilon with
    | true =>
      simp only [Bool.not_true, Bool.false_eq_true, if_false, if_true]
      rw [runsFrom_length_count _ v (1 + 1) 1]
      exact ih k v
    | false =>
      simp only [Bool.not_false, Bool.false_eq_true, if_false, if_true]
      have h := ih (k + 1) x
      rw [List.length_cons]
      omega

/-- The first pass counts the runs. -/
theorem countRuns_eq (src : List UInt16) (epsilon : UInt32) : countRuns src epsilon = (rleRuns src epsilon).length := by
  cases src with
  | nil => rfl
  | cons first rest =>
    have h := foldl_countRuns epsilon rest 1 first
    unfold countRuns rleRuns
    dsimp only
    omega

/-- The second pass writes them: no count of a run reaches the bound of the loop. -/
private theorem foldl_rleStep (epsilon : UInt32) (rest : List UInt16) (out : List TuRleRun) (v : UInt16) {c : Nat}
    (hlen : c + rest.length < 2 ^ 32) :
    (rest.foldl (rleStep epsilon) (out, ⟨v, c⟩)).1 ++ [(rest.foldl (rleStep epsilon) (out, ⟨v, c⟩)).2] =
      out ++ runsFrom (fun x v => fp16NearEqual x v epsilon) v c rest := by
  induction rest generalizing out v c with
  | nil => rfl
  | cons x rest ih =>
    rw [List.length_cons] at hlen
    -- the counts sum to the number of elements, so the open run can always grow
    have hopen : c < uint32Max.toNat := by
      rw [toNat_uint32Max]
      omega
    rw [List.foldl_cons, runsFrom]
    unfold rleStep
    cases fp16NearEqual x v epsilon with
    | true =>
      simp only [hopen, and_self, if_true]
      exact ih out v (by omega)
    | false =>
      simp only [Bool.false_eq_true, false_and, if_false]
      have h := ih (out ++ [⟨v, c⟩]) x (c := 1) (by omega)
      rw [List.append_assoc] at h
      exact h

theorem tuCompressRle_eq {src : List UInt16} {epsilon : UInt32} {capacity : Nat} (hepsilon : ¬ epsilonNegative epsilon)
    (hsrc : src ≠ []) :
    tuCompressRle src epsilon capacity =
      if src.length ≤ 715827881 ∧ 8 + 6 * countRuns src epsilon ≤ capacity then
        some (rleStream src.length (rleRuns src epsilon))
      else none := by
  unfold tuCompressRle
  rw [if_neg hepsilon]
  cases src with
  | nil => exact absurd rfl hsrc
  | cons first rest =>
    dsimp only
    rw [uint32Max_runs]
    by_cases hlen : (first :: rest).length ≤ 715827881
    · rw [if_neg (Nat.not_lt.2 hlen)]
      rw [List.length_cons] at hlen
      have hruns := foldl_rleStep epsilon rest [] first (c := 1) (by omega)
      rw [List.nil_append] at hruns
      rw [hruns]
      by_cases hcap : capacity < rleHeaderSize + countRuns (first :: rest) epsilon * tuRleRunBytes
      · rw [if_pos hcap, if_neg]
        unfold rleHeaderSize tuRleRunBytes at hcap
        omega
      · rw [if_neg hcap, if_pos]
        · rfl
        · unfold rleHeaderSize tuRleRunBytes at hcap
          rw [List.length_cons]
          omega
    · rw [if_pos (Nat.not_le.1 hlen), if_neg fun h => hlen h.1]

/-! ### Decoding -/

/-- The runs of a stream. -/
def streamRuns (src : List UInt8) : List TuRleRun := (List.range (readLE 4 src 4)).map (readRun src)

/-- The header of a stream: the declared numbers of elements and of runs. -/
def RleHeader (src : List UInt8) : Prop :=
  8 ≤ src.length ∧ readLE 4 src 4 ≤ readLE 4 src 0 ∧
    (readLE 4 src 0 ≠ 0 → readLE 4 src 4 ≠ 0 ∧ readLE 4 src 4 ≤ 715827881)

instance (src : List UInt8) : Decidable (RleHeader src) := instDecidableAnd

/-- The elements fit when the counts are positive and their sum stays in the declared number. -/
private theorem foldlM_expandRun {n : Nat} (runs : List TuRleRun) {dst : List UInt16} (hdst : dst.length ≤ n) :
    runs.foldlM (expandRun n) dst =
      if (∀ run ∈ runs, 0 < run.count) ∧ dst.length + (runs.map Run.count).sum ≤ n then some (dst ++ expand runs)
      else none := by
  induction runs generalizing dst with
  | nil => simp [hdst]
  | cons run runs ih =>
    rw [List.foldlM_cons]
    unfold expandRun
    by_cases hrun : run.count = 0 ∨ run.count > n - dst.length
    · rw [if_pos hrun, if_neg]
      · rfl
      · rintro ⟨hpos, hsum⟩
        have hrunPos := hpos run List.mem_cons_self
        rw [List.map_cons, List.sum_cons] at hsum
        omega
    · have hlen : (dst ++ List.replicate run.count run.value).length = dst.length + run.count := by simp
      rw [if_neg hrun]
      change List.foldlM (expandRun n) (dst ++ List.replicate run.count run.value) runs = _
      rw [ih (by omega), hlen, expand_cons, ← List.append_assoc]
      have hpos : 0 < run.count := by omega
      simp only [List.forall_mem_cons, hpos, true_and, List.map_cons, List.sum_cons, Nat.add_assoc]

/-- The decoder accepts a stream whose runs fill the declared elements. -/
theorem tuDecompressRle_eq (src : List UInt8) (capacity : Nat) :
    tuDecompressRle src capacity =
      if (RleHeader src ∧ 8 + 6 * readLE 4 src 4 ≤ src.length ∧ Fills (readLE 4 src 0) (streamRuns src)) ∧
          readLE 4 src 0 ≤ capacity then some (expand (streamRuns src))
      else none := by
  unfold tuDecompressRle
  rw [uint32Max_runs]
  unfold rleHeaderSize tuRleRunBytes
  by_cases hlen : src.length < 8
  · rw [if_pos hlen, if_neg]
    rintro ⟨⟨hheader, -⟩, -⟩
    exact absurd hheader.1 (Nat.not_le.2 hlen)
  rw [if_neg hlen]
  dsimp only
  by_cases hzero : readLE 4 src 0 = 0
  -- an empty stream may still be followed by bytes
  · rw [if_pos hzero]
    by_cases hruns : readLE 4 src 4 = 0
    · have hnil : streamRuns src = [] := by simp [streamRuns, hruns]
      rw [if_neg (not_not.2 hruns), if_pos, hnil]
      · rfl
      · rw [hnil, hruns, hzero]
        refine ⟨⟨⟨by omega, by omega, fun h => absurd hzero h⟩, by omega, by simp, rfl⟩, Nat.zero_le _⟩
    · rw [if_pos hruns, if_neg]
      rintro ⟨⟨hheader, -⟩, -⟩
      have hle := hheader.2.1
      omega
  rw [if_neg hzero]
  -- the two header checks of the source, then the loop
  by_cases hbad : readLE 4 src 4 = 0 ∨ readLE 4 src 4 > readLE 4 src 0 ∨ readLE 4 src 4 > 715827881
  · rw [if_pos hbad, if_neg]
    rintro ⟨⟨⟨-, hle, hruns⟩, -⟩, -⟩
    have h := hruns hzero
    omega
  rw [if_neg hbad]
  by_cases hshort : src.length < 8 + readLE 4 src 4 * 6 ∨ capacity < readLE 4 src 0
  · rw [if_pos hshort, if_neg]
    rintro ⟨⟨-, hsize, -⟩, hcap⟩
    omega
  have hheader : RleHeader src := ⟨by omega, by omega, fun _ => by omega⟩
  have hruns : (List.range (readLE 4 src 4)).map (readRun src) = streamRuns src := rfl
  rw [if_neg hshort, hruns, foldlM_expandRun (streamRuns src) (Nat.zero_le _), List.length_nil, Nat.zero_add,
    List.nil_append]
  by_cases hcounts : (∀ run ∈ streamRuns src, 0 < run.count) ∧ ((streamRuns src).map Run.count).sum ≤ readLE 4 src 0
  · rw [if_pos hcounts]
    dsimp only
    rw [length_expand]
    by_cases hsum : ((streamRuns src).map Run.count).sum = readLE 4 src 0
    · rw [if_neg (not_not.2 hsum), if_pos]
      exact ⟨⟨hheader, by omega, hcounts.1, hsum⟩, by omega⟩
    · rw [if_pos hsum, if_neg]
      exact fun h => hsum h.1.2.2.2
  · rw [if_neg hcounts, if_neg]
    rintro ⟨⟨-, -, hpos, hsum⟩, -⟩
    exact hcounts ⟨hpos, Nat.le_of_eq hsum⟩

/-- The validator does not look at the runs. -/
theorem tuCompressValidate_iff (data : List UInt8) :
    tuCompressValidate data ↔ RleHeader data ∧ data.length = 8 + 6 * readLE 4 data 4 := by
  have hmax : (uint32Max.toNat - 8) / 6 = 715827881 := by decide
  unfold tuCompressValidate RleHeader tuRleRunBytes
  rw [hmax]
  by_cases hlen : data.length < 8
  · rw [if_pos hlen]
    simp only [Bool.false_eq_true, false_iff]
    omega
  rw [if_neg hlen]
  dsimp only
  by_cases hzero : readLE 4 data 0 = 0
  · rw [if_pos hzero]
    simp only [Bool.and_eq_true, decide_eq_true_eq]
    omega
  rw [if_neg hzero]
  split
  · simp only [Bool.false_eq_true, false_iff]
    omega
  · simp only [decide_eq_true_eq]
    omega

/-! ### Encoded streams -/

section

variable {n : Nat} {runs : List TuRleRun}

theorem readLE_rleStream_zero (hn : n < 2 ^ 32) (runs : List TuRleRun) : readLE 4 (rleStream n runs) 0 = n :=
  readLE_block hn [] (leBytes 4 runs.length ++ runs.flatMap TuRleRun.bytes) (by simp [rleStream]) rfl

theorem readLE_rleStream_four (n : Nat) (hruns : runs.length < 2 ^ 32) : readLE 4 (rleStream n runs) 4 = runs.length :=
  readLE_block hruns (leBytes 4 n) (runs.flatMap TuRleRun.bytes) (by simp [rleStream]) (by simp)

theorem readRun_rleStream {i : Nat} (hi : i < runs.length) (hcount : runs[i].count < 2 ^ 32) :
    readRun (rleStream n runs) i = runs[i] := by
  have hpre : (leBytes 4 n ++ leBytes 4 runs.length ++ (runs.take i).flatMap TuRleRun.bytes).length = 8 + i * 6 := by
    simp only [List.length_append, length_leBytes, length_take_flatMap TuRleRun.length_bytes (Nat.le_of_lt hi)]
    omega
  -- the stream cut at the two fields of run `i`
  have hsplit : rleStream n runs =
      leBytes 4 n ++ leBytes 4 runs.length ++ (runs.take i).flatMap TuRleRun.bytes ++ leBytes 2 runs[i].value.toNat ++
        leBytes 4 runs[i].count ++ (runs.drop (i + 1)).flatMap TuRleRun.bytes := by
    unfold rleStream
    rw [flatMap_split TuRleRun.bytes hi]
    simp [TuRleRun.bytes]
  have hvalue : readLE 2 (rleStream n runs) (rleHeaderSize + i * tuRleRunBytes) = runs[i].value.toNat :=
    readLE_block runs[i].value.toNat_lt _
      (leBytes 4 runs[i].count ++ (runs.drop (i + 1)).flatMap TuRleRun.bytes) (by simpa using hsplit) hpre.symm
  have hread : readLE 4 (rleStream n runs) (rleHeaderSize + i * tuRleRunBytes + 2) = runs[i].count :=
    readLE_block hcount _ _ hsplit (by rw [List.length_append, hpre, length_leBytes]; rfl)
  unfold readRun
  rw [hvalue, hread, UInt16.ofNat_toNat]

theorem streamRuns_rleStream (hfills : Fills n runs) (hn : n < 2 ^ 32) : streamRuns (rleStream n runs) = runs := by
  have hlen := hfills.length_le
  unfold streamRuns
  rw [readLE_rleStream_four n (by omega)]
  apply List.ext_getElem
  · simp
  · intro i hi hi'
    have hcount := hfills.count_le (List.getElem_mem hi')
    simpa using readRun_rleStream hi' (by omega)

theorem rleHeader_rleStream (hfills : Fills n runs) (hn : n ≤ 715827881) : RleHeader (rleStream n runs) := by
  have hlen := hfills.length_le
  have hzero := hfills.eq_zero_iff
  unfold RleHeader
  rw [readLE_rleStream_zero (by omega), readLE_rleStream_four n (by omega), length_rleStream]
  omega

theorem tuDecompressRle_rleStream (hfills : Fills n runs) (hn : n ≤ 715827881) {capacity : Nat} (hcap : n ≤ capacity) :
    tuDecompressRle (rleStream n runs) capacity = some (expand runs) := by
  have hlen := hfills.length_le
  have hheader := rleHeader_rleStream hfills hn
  rw [tuDecompressRle_eq, streamRuns_rleStream hfills (by omega), if_pos]
  rw [readLE_rleStream_zero (by omega), readLE_rleStream_four n (by omega), length_rleStream]
  exact ⟨⟨hheader, Nat.le_refl _, hfills⟩, hcap⟩

theorem tuCompressValidate_rleStream (hfills : Fills n runs) (hn : n ≤ 715827881) :
    tuCompressValidate (rleStream n runs) := by
  have hlen := hfills.length_le
  rw [tuCompressValidate_iff, readLE_rleStream_four n (by omega), length_rleStream]
  exact ⟨rleHeader_rleStream hfills hn, rfl⟩

end

end Tusim
