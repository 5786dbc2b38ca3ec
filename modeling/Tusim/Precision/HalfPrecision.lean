import Tusim.Precision.Rounding

/-!
# Single to half precision

`tu_fp32_to_fp16` in the mode to nearest with IEEE subnormals.  Outside the band of the subnormal results it rounds
correctly.  Inside, `tu_round_apply` is handed the whole significand and splits off its low ten bits, whatever the shift;
what is left has more than ten bits, so there is always a carry and the result is always `2 ^ -15`
(`tuRoundApply_band`).  Hence a band input is rounded correctly exactly if `2 ^ -15` is the nearest value, and the way
through single precision and back is the identity exactly on the patterns that are not subnormal, and on `2 ^ -15`
(`tuFp32ToFp16_rounded_iff`).  The conversion to single precision is exact (`tuFp16ToFp32_fields`).
-/

namespace Tusim.Precision

open FloatLadder

def tuFp32ToFp16 (mode : TuRoundingMode) (subnormals : TuSubnormalMode) (bits : UInt32) : UInt16 :=
  if isNan bits then 0x7E00
  else if isInf bits then if signBit bits = 0 then 0x7C00 else 0xFC00
  else
    let sign := signBit bits
    let exp : Int := expField bits - 127
    let mant := mantField bits
    if exp > 15 then UInt16.ofNat (sign <<< 15 ||| 0x7C00)
    else if exp < -25 then UInt16.ofNat (sign <<< 15)
    else if exp ≤ -15 then
      if subnormals = .flush then UInt16.ofNat (sign <<< 15)
      else
        let shift := (-14 - exp).toNat
        let m := (mant ||| 0x800000) >>> shift
        let m :=
          if shift > 0 then
            let discarded := mant &&& (1 <<< shift - 1)
            let roundingVal := m <<< shift ||| discarded
            let r := tuRoundApply mode roundingVal 10
            if r.2 then 0x200 else r.1
          else m
        UInt16.ofNat (sign <<< 15 ||| (m &&& 0x3FF))
    else
      let r := tuRoundFp32ToMantissa mode mant 10
      let e := (exp + 15).toNat
      let m := if r.2 then 0 else r.1
      let e := if r.2 then e + 1 else e
      if e > 31 then UInt16.ofNat (sign <<< 15 ||| 0x7C00)
      else UInt16.ofNat (sign <<< 15 ||| e <<< 10 ||| (m &&& 0x3FF))

/-! ### Half-precision patterns -/

/-- The pattern of the magnitude. -/
def unsigned16 (h : UInt16) : Nat := h.toNat % 2 ^ 15

/-- The pattern of infinity. -/
def fp16Inf : Nat := 0x7C00

/-- The magnitudes of half precision; the unit is the smallest positive number of single precision, `2 ^ -149`. -/
def fp16Rung : Nat → Nat := rung 125 10

/-- `h` is the pattern `bits` in half precision: a NaN for a NaN, and otherwise the sign with the nearest magnitude, where
infinity stands one step above the largest finite one and ties go to the even pattern. -/
structure RoundedToFp16 (bits : UInt32) (h : UInt16) : Prop where
  nan : isNan bits = true → unsigned16 h > fp16Inf
  inf : isInf bits = true → unsigned16 h = fp16Inf
  finite : expField bits ≠ 0xFF → Nearest fp16Rung fp16Inf (magnitude 23 (unsigned bits)) (unsigned16 h)
  sign : isNan bits = false → h.toNat / 2 ^ 15 = signBit bits

/-- A sign, a biased exponent and a significand of ten bits put together. -/
theorem ofNat_fields {sign e m : Nat} (hsign : sign < 2) (he : e < 32) (hm : m < 2 ^ 10) :
    (UInt16.ofNat (sign <<< 15 ||| e <<< 10 ||| (m &&& 0x3FF))).toNat = 2 ^ 15 * sign + (2 ^ 10 * e + m) := by
  have hmask : m &&& 0x3FF = m := (Nat.and_two_pow_sub_one_eq_mod m 10).trans (Nat.mod_eq_of_lt hm)
  have hfields : sign <<< 15 ||| e <<< 10 ||| m = 2 ^ 15 * sign + (2 ^ 10 * e + m) := or_fields (w := 5) sign he hm
  rw [hmask, hfields, UInt16.toNat_ofNat']
  exact Nat.mod_eq_of_lt (by omega)

/-- The results that do not depend on the significand. -/
theorem ofNat_constants {sign : Nat} (hsign : sign < 2) :
    (UInt16.ofNat (sign <<< 15 ||| 0x7C00)).toNat = 2 ^ 15 * sign + fp16Inf ∧
      (UInt16.ofNat (sign <<< 15)).toNat = 2 ^ 15 * sign + 0 ∧
      (UInt16.ofNat (sign <<< 15 ||| (0x200 &&& 0x3FF))).toNat = 2 ^ 15 * sign + 0x200 := by
  obtain rfl | rfl : sign = 0 ∨ sign = 1 := by omega
  · decide
  · decide

/-- The whole significand reaches `tu_round_apply`, so it carries. -/
theorem tuRoundApply_band {m shift : Nat} (hm : m < 2 ^ 23) (hshift : shift ≤ 23) :
    (tuRoundApply .rne (((m ||| 0x800000) >>> shift) <<< shift ||| (m &&& (1 <<< shift - 1))) 10).2 = true := by
  have hor : m ||| 0x800000 = 2 ^ 23 + m := by
    rw [Nat.or_comm]
    exact (Nat.shiftLeft_add_eq_or_of_lt hm 1).symm
  have hlow : m &&& (1 <<< shift - 1) = (2 ^ 23 + m) % 2 ^ shift := by
    have hdvd : 2 ^ shift ∣ 2 ^ 23 := Nat.pow_dvd_pow 2 hshift
    rw [and_low, Nat.add_mod, Nat.mod_eq_zero_of_dvd hdvd, Nat.zero_add, Nat.mod_mod]
  have hval : ((2 ^ 23 + m) >>> shift) <<< shift ||| (2 ^ 23 + m) % 2 ^ shift = 2 ^ 23 + m := by
    rw [← Nat.shiftLeft_add_eq_or_of_lt (Nat.mod_lt _ (Nat.two_pow_pos shift)), Nat.shiftRight_eq_div_pow,
      Nat.shiftLeft_eq, Nat.div_add_mod']
  have hbig : 1 <<< 10 ≤ roundShift 10 (2 ^ 23 + m) := by
    have hdiv := div_le_roundShift 10 (2 ^ 23 + m)
    rw [Nat.one_shiftLeft]
    omega
  rw [hor, hlow, hval]
  unfold tuRoundApply
  dsimp only
  rw [if_neg (by decide), roundFraction_rne (by decide), if_pos hbig]

/-- The pattern of the magnitude that a finite number of biased exponent `e` is converted to. -/
def fp16Magnitude (e m : Nat) : Nat :=
  if 142 < e then fp16Inf
  else if e < 102 then 0
  else if e ≤ 112 then 0x200
  else 2 ^ 10 * (e - 112) + roundShift 13 m

theorem roundShift_mant_le {m : Nat} (s : Nat) {t : Nat} (hm : m < 2 ^ (s + t)) : roundShift s m ≤ 2 ^ t := by
  have hdiv : m / 2 ^ s < 2 ^ t := (Nat.div_lt_iff_lt_mul (Nat.two_pow_pos s)).2 (by rwa [Nat.mul_comm, ← Nat.pow_add])
  have hround := roundShift_le s m
  omega

theorem fp16Magnitude_le {e m : Nat} (hm : m < 2 ^ 23) : fp16Magnitude e m ≤ fp16Inf := by
  have hround : roundShift 13 m ≤ 2 ^ 10 := roundShift_mant_le 13 hm
  unfold fp16Magnitude fp16Inf
  split
  · omega
  · split
    · omega
    · split <;> omega

/-- The finite part of the conversion. -/
theorem toNat_tuFp32ToFp16 {bits : UInt32} (hfinite : expField bits ≠ 0xFF) :
    (tuFp32ToFp16 .rne .full bits).toNat =
      2 ^ 15 * signBit bits + fp16Magnitude (expField bits) (mantField bits) := by
  have hsign := signBit_lt bits
  have hm := mantField_lt bits
  have hnan : ¬ isNan bits = true := by simp [isNan, hfinite]
  have hinf : ¬ isInf bits = true := by simp [isInf, hfinite]
  unfold tuFp32ToFp16 fp16Magnitude
  dsimp only
  rw [if_neg hnan, if_neg hinf]
  generalize expField bits = e, mantField bits = m, signBit bits = sign at *
  obtain ⟨htop, hzero, hband⟩ := ofNat_constants hsign
  by_cases hover : 142 < e
  · rw [if_pos (by omega), if_pos hover, htop]
  · rw [if_neg (by omega), if_neg hover]
    by_cases hunder : e < 102
    · rw [if_pos (by omega), if_pos hunder, hzero]
    · rw [if_neg (by omega), if_neg hunder]
      by_cases hsub : e ≤ 112
      · rw [if_pos (by omega), if_pos hsub, if_neg (by decide), if_pos (by omega), tuRoundApply_band hm (by omega),
          if_pos rfl, hband]
      · have hround : roundShift 13 m ≤ 2 ^ 10 := roundShift_mant_le 13 hm
        have hexp : ((e : Int) - 127 + 15).toNat = e - 112 := by omega
        rw [if_neg (by omega), if_neg hsub, tuRoundFp32ToMantissa_rne (show 10 + 13 = 23 from rfl) (by decide), hexp]
        by_cases hcarry : 2 ^ 10 ≤ roundShift 13 m
        · rw [if_pos hcarry]
          dsimp only
          rw [if_pos rfl, if_pos rfl, if_neg (by omega), ofNat_fields hsign (by omega) (by decide)]
          omega
        · rw [if_neg hcarry]
          dsimp only
          rw [if_neg Bool.false_ne_true, if_neg Bool.false_ne_true, if_neg (by omega),
            ofNat_fields hsign (by omega) (by omega)]

/-! ### Correct rounding -/

/-- The inputs whose results are subnormal, or rounded to the smallest normal number. -/
def InSubnormalBand (bits : UInt32) : Prop := 102 ≤ expField bits ∧ expField bits ≤ 112

/-- No input of the band but one that `2 ^ -15` is nearest to. -/
def Fp16Safe (bits : UInt32) : Prop :=
  InSubnormalBand bits →
    1023 * 2 ^ 124 ≤ magnitude 23 (unsigned bits) ∧ magnitude 23 (unsigned bits) ≤ 1025 * 2 ^ 124

theorem fp16Rung_of_lt {k : Nat} (h : k < 2 ^ 10) : fp16Rung k = 2 ^ 125 * k := by
  unfold fp16Rung rung
  rw [magnitude_of_lt h]

theorem nearest_band_iff (x : Nat) :
    Nearest fp16Rung fp16Inf x 0x200 ↔ 1023 * 2 ^ 124 ≤ x ∧ x ≤ 1025 * 2 ^ 124 := by
  have hmono : StrictMono fp16Rung := rung_strictMono 125 10
  have hiff : Nearest fp16Rung fp16Inf x (511 + 1) ↔ _ := nearest_succ_iff_of_odd hmono (by decide) (by decide)
  rw [fp16Rung_of_lt (by decide), fp16Rung_of_lt (by decide), fp16Rung_of_lt (by decide)] at hiff
  rw [hiff]
  omega

/-- The magnitude of a finite pattern lies in the binade of its exponent. -/
theorem magnitude_bounds {bits : UInt32} (hpos : 0 < expField bits) :
    2 ^ 23 * 2 ^ (expField bits - 1) ≤ magnitude 23 (unsigned bits) ∧
      magnitude 23 (unsigned bits) < 2 ^ 24 * 2 ^ (expField bits - 1) := by
  have hm := mantField_lt bits
  rw [unsigned_eq]
  obtain ⟨e, he⟩ : ∃ e, expField bits = e + 1 := ⟨expField bits - 1, by omega⟩
  rw [he, magnitude_binade e hm, Nat.add_sub_cancel]
  exact ⟨Nat.mul_le_mul_right _ (by omega), Nat.mul_lt_mul_of_pos_right (by omega) (Nat.two_pow_pos e)⟩

/-- The magnitude of the result is the nearest one exactly for the safe inputs. -/
theorem nearest_fp16Magnitude_iff (bits : UInt32) :
    Nearest fp16Rung fp16Inf (magnitude 23 (unsigned bits)) (fp16Magnitude (expField bits) (mantField bits)) ↔
      Fp16Safe bits := by
  have hmono : StrictMono fp16Rung := rung_strictMono 125 10
  have hm := mantField_lt bits
  unfold fp16Magnitude
  by_cases hover : 142 < expField bits
  · have htop : fp16Rung fp16Inf = 2 ^ 165 := by decide
    have hpow : 2 ^ 142 ≤ 2 ^ (expField bits - 1) := Nat.pow_le_pow_right (by decide) (by omega)
    have hlo := (magnitude_bounds (show 0 < expField bits by omega)).1
    rw [if_pos hover]
    exact iff_of_true (nearest_of_le hmono (by omega)) fun h => absurd h.2 (by omega)
  · rw [if_neg hover]
    by_cases hunder : expField bits < 102
    · have hlt : magnitude 23 (unsigned bits) < 2 ^ 124 := by
        rcases Nat.eq_zero_or_pos (expField bits) with hzero | hpos
        · rw [unsigned_eq, hzero, Nat.mul_zero, Nat.zero_add, magnitude_of_lt hm]
          omega
        · have hpow : 2 ^ (expField bits - 1) ≤ 2 ^ 100 := Nat.pow_le_pow_right (by decide) (by omega)
          have hhi := (magnitude_bounds hpos).2
          omega
      have hzero : fp16Rung 0 = 0 := by decide
      have hone : fp16Rung (0 + 1) = 2 ^ 125 := by decide
      have hround : roundBetween fp16Rung (magnitude 23 (unsigned bits)) 0 = 0 := by
        unfold roundBetween
        rw [hzero, hone, if_neg (by omega)]
      have hnear : Nearest fp16Rung fp16Inf (magnitude 23 (unsigned bits)) 0 :=
        hround ▸ nearest_roundBetween hmono (by decide) (by omega) (by omega)
      rw [if_pos hunder]
      exact iff_of_true hnear fun h => absurd h.1 (by omega)
    · rw [if_neg hunder]
      by_cases hsub : expField bits ≤ 112
      · have hband : InSubnormalBand bits := ⟨by omega, hsub⟩
        rw [if_pos hsub, nearest_band_iff]
        exact ⟨fun h _ => h, fun h => h hband⟩
      · rw [if_neg hsub]
        have hfrac : mantField bits / 2 ^ 13 < 2 ^ 10 := by omega
        have hrest : mantField bits % 2 ^ 13 < 2 ^ 13 := Nat.mod_lt _ (by decide)
        have hnear : Nearest (rung (112 + 13) 10) fp16Inf
            (magnitude (10 + 13) (2 ^ (10 + 13) * expField bits +
              (2 ^ 13 * (mantField bits / 2 ^ 13) + mantField bits % 2 ^ 13)))
            (2 ^ 10 * (expField bits - 112) +
              roundShift 13 (2 ^ 13 * (mantField bits / 2 ^ 13) + mantField bits % 2 ^ 13)) :=
          nearest_roundShift (by decide) (Or.inr (by omega)) hfrac hrest (by unfold fp16Inf; omega)
        rw [Nat.div_add_mod] at hnear
        rw [unsigned_eq]
        exact iff_of_true hnear fun h => absurd h.2 hsub

/-! ### The conversion to single precision -/

/-- The loop ends with the leading bit at bit 10, and an exponent that makes up for the shifts. -/
theorem normalizeSubnormal_spec : ∀ k : Fin 1024, k.val ≠ 0 →
    let r := normalizeSubnormal 10 (UInt32.ofNat k) 113;
    103 ≤ r.2.toNat ∧ r.2.toNat ≤ 112 ∧ 2 ^ 10 ≤ r.1.toNat ∧ r.1.toNat < 2 ^ 11 ∧
      r.1.toNat * 2 ^ (r.2.toNat - 103) = 2 ^ 10 * k := by
  decide +kernel

theorem toNat_fields {sign e m : UInt32} (hsign : sign.toNat < 2) (he : e.toNat < 2 ^ 8) (hm : m.toNat < 2 ^ 23) :
    ((sign <<< 31) ||| (e <<< 23) ||| m).toNat = 2 ^ 31 * sign.toNat + (2 ^ 23 * e.toNat + m.toNat) := by
  have hshift : ∀ {a b : UInt32}, a.toNat * 2 ^ (b.toNat % 32) < 2 ^ 32 →
      (a <<< b).toNat = a.toNat <<< (b.toNat % 32) := by
    intro a b hlt
    rw [UInt32.toNat_shiftLeft]
    exact Nat.mod_eq_of_lt (by rwa [Nat.shiftLeft_eq])
  have hsign' : (sign <<< 31).toNat = sign.toNat <<< 31 := hshift (b := 31) (by show sign.toNat * 2 ^ 31 < _; omega)
  have he' : (e <<< 23).toNat = e.toNat <<< 23 := hshift (b := 23) (by show e.toNat * 2 ^ 23 < _; omega)
  have hlow : e.toNat <<< 23 + m.toNat < 2 ^ 31 := by
    rw [Nat.shiftLeft_eq]
    omega
  rw [UInt32.toNat_or, UInt32.toNat_or, hsign', he', Nat.or_assoc, ← Nat.shiftLeft_add_eq_or_of_lt hm,
    ← Nat.shiftLeft_add_eq_or_of_lt hlow, Nat.shiftLeft_eq, Nat.shiftLeft_eq, Nat.mul_comm, Nat.mul_comm (2 ^ 23)]

/-- The fields of a pattern that is put together from them. -/
theorem fields_of_toNat {bits : UInt32} {sign e m : Nat} (h : bits.toNat = 2 ^ 31 * sign + (2 ^ 23 * e + m))
    (he : e < 2 ^ 8) (hm : m < 2 ^ 23) :
    unsigned bits = 2 ^ 23 * e + m ∧ expField bits = e ∧ mantField bits = m := by
  have hunsigned : unsigned bits = 2 ^ 23 * e + m := by
    unfold unsigned
    omega
  have hsplit := unsigned_eq bits
  have hlt := mantField_lt bits
  exact ⟨hunsigned, by omega, by omega⟩

theorem signBit_eq (bits : UInt32) : signBit bits = bits.toNat / 2 ^ 31 := by
  have hlt := bits.toNat_lt
  unfold signBit
  rw [Nat.shiftRight_eq_div_pow, Nat.and_one_is_mod]
  omega

theorem toNat_shift_mant {m : UInt32} (hm : m.toNat < 2 ^ 10) : (m <<< 13).toNat = 2 ^ 13 * m.toNat := by
  rw [UInt32.toNat_shiftLeft]
  show m.toNat <<< 13 % 2 ^ 32 = _
  rw [Nat.shiftLeft_eq]
  omega

theorem unsigned16_eq (h : UInt16) : unsigned16 h = 2 ^ 10 * (h.toNat / 2 ^ 10 % 2 ^ 5) + h.toNat % 2 ^ 10 := by
  unfold unsigned16
  omega

/-- The fields of the pattern in single precision.  Finite magnitudes are kept. -/
theorem tuFp16ToFp32_fields (h : UInt16) :
    ∃ e m, (tuFp16ToFp32 h).toNat = 2 ^ 31 * (h.toNat / 2 ^ 15) + (2 ^ 23 * e + m) ∧ e < 2 ^ 8 ∧ m < 2 ^ 23 ∧
      (unsigned16 h < fp16Inf → e ≠ 0xFF ∧ magnitude 23 (2 ^ 23 * e + m) = fp16Rung (unsigned16 h)) ∧
      (unsigned16 h = fp16Inf → e = 0xFF ∧ m = 0) := by
  have hlt := h.toNat_lt
  have hsign : ((h.toUInt32 >>> 15) &&& 1).toNat = h.toNat / 2 ^ 15 := by
    rw [UInt32.toNat_and, UInt32.toNat_shiftRight, UInt16.toNat_toUInt32]
    show h.toNat >>> 15 &&& 1 = _
    rw [Nat.shiftRight_eq_div_pow, Nat.and_one_is_mod]
    omega
  have hexp : ((h.toUInt32 >>> 10) &&& 0x1F).toNat = h.toNat / 2 ^ 10 % 2 ^ 5 := by
    rw [UInt32.toNat_and, UInt32.toNat_shiftRight, UInt16.toNat_toUInt32]
    show h.toNat >>> 10 &&& (2 ^ 5 - 1) = _
    rw [Nat.shiftRight_eq_div_pow, Nat.and_two_pow_sub_one_eq_mod]
  have hmant : (h.toUInt32 &&& 0x3FF).toNat = h.toNat % 2 ^ 10 := by
    rw [UInt32.toNat_and, UInt16.toNat_toUInt32]
    exact Nat.and_two_pow_sub_one_eq_mod _ 10
  have hk := unsigned16_eq h
  have hsigns : h.toNat / 2 ^ 15 < 2 := by omega
  have hexps : h.toNat / 2 ^ 10 % 2 ^ 5 < 2 ^ 5 := Nat.mod_lt _ (by decide)
  have hmants : h.toNat % 2 ^ 10 < 2 ^ 10 := Nat.mod_lt _ (by decide)
  rw [← hexp, ← hmant] at hk
  rw [← hsign] at hsigns ⊢
  rw [← hexp] at hexps
  rw [← hmant] at hmants
  unfold tuFp16ToFp32
  dsimp only
  generalize (h.toUInt32 >>> 15) &&& 1 = sign, (h.toUInt32 >>> 10) &&& 0x1F = exp, h.toUInt32 &&& 0x3FF = mant,
    unsigned16 h = k at *
  clear hlt hsign hexp hmant
  have hshift := toNat_shift_mant hmants
  by_cases hzero : exp = 0
  · subst hzero
    have hk : k = mant.toNat := by simpa using hk
    rw [if_pos rfl]
    by_cases hmant : mant = 0
    · subst hmant
      obtain rfl : k = 0 := hk
      have hpattern : sign <<< 31 = (sign <<< 31) ||| ((0 : UInt32) <<< 23) ||| 0 := by simp
      refine ⟨0, 0, ?_, by decide, by decide, fun _ => by decide, fun h => absurd h (by decide)⟩
      rw [if_pos rfl, hpattern, toNat_fields hsigns (by decide) (by decide)]
      rfl
    · have hne : mant.toNat ≠ 0 := fun h => hmant (UInt32.toNat_inj.1 h)
      obtain ⟨hlo, hhi, hlead, hless, hvalue⟩ := normalizeSubnormal_spec ⟨mant.toNat, hmants⟩ hne
      rw [UInt32.ofNat_toNat] at hlo hhi hlead hless hvalue
      rw [if_neg hmant, show (127 - 14 : UInt32) = 113 from rfl]
      generalize normalizeSubnormal 10 mant 113 = r at *
      have hlow : (r.1 &&& 0x3FF).toNat = r.1.toNat - 2 ^ 10 := by
        rw [UInt32.toNat_and]
        refine (Nat.and_two_pow_sub_one_eq_mod _ 10).trans ?_
        omega
      have hlows : (r.1 &&& 0x3FF).toNat < 2 ^ 10 := by omega
      refine ⟨r.2.toNat, 2 ^ 13 * (r.1.toNat - 2 ^ 10), ?_, by omega, by omega, fun _ => ⟨by omega, ?_⟩,
        fun h => absurd h (by unfold fp16Inf; omega)⟩
      · have hshifted := toNat_shift_mant hlows
        rw [toNat_fields hsigns (by omega) (by omega), hshifted, hlow]
      · obtain ⟨e, he⟩ : ∃ e, r.2.toNat = 103 + e := ⟨r.2.toNat - 103, by omega⟩
        have hsig : 2 ^ 23 + 2 ^ 13 * (r.1.toNat - 2 ^ 10) = 2 ^ 13 * r.1.toNat := by omega
        have hvalue : r.1.toNat * 2 ^ e = 2 ^ 10 * k := by
          rw [hk, ← hvalue, he, Nat.add_sub_cancel_left]
        rw [he, show 103 + e = 102 + e + 1 from by omega, magnitude_binade (102 + e) (by omega), hsig,
          fp16Rung_of_lt (by omega), Nat.pow_add]
        calc 2 ^ 13 * r.1.toNat * (2 ^ 102 * 2 ^ e) = 2 ^ 115 * (r.1.toNat * 2 ^ e) := by ring
          _ = 2 ^ 125 * k := by rw [hvalue]; ring
  · rw [if_neg hzero]
    by_cases hinf : exp = 0x1F
    · subst hinf
      have hk : k = fp16Inf + mant.toNat := hk
      refine ⟨0xFF, 2 ^ 13 * mant.toNat, ?_, by decide, by omega, fun hlt => absurd hlt (by omega),
        fun heq => ⟨rfl, by omega⟩⟩
      rw [if_pos rfl, toNat_fields hsigns (by decide) (by omega), hshift]
      rfl
    · have hpos : exp.toNat ≠ 0 := fun h => hzero (UInt32.toNat_inj.1 h)
      have hne : exp.toNat ≠ 31 := fun h => hinf (UInt32.toNat_inj.1 h)
      have hbias : (exp - 15 + 127).toNat = exp.toNat + 112 := by
        rw [UInt32.toNat_add, UInt32.toNat_sub]
        simp only [UInt32.reduceToNat]
        omega
      refine ⟨exp.toNat + 112, 2 ^ 13 * mant.toNat, ?_, by omega, by omega, fun _ => ⟨by omega, ?_⟩,
        fun h => absurd h (by unfold fp16Inf; omega)⟩
      · rw [if_neg hinf, toNat_fields hsigns (by omega) (by omega), hshift, hbias]
      · obtain ⟨e, he⟩ : ∃ e, exp.toNat = e + 1 := ⟨exp.toNat - 1, by omega⟩
        unfold fp16Rung rung
        rw [hk, he, show e + 1 + 112 = e + 112 + 1 from by omega, magnitude_binade (e + 112) (by omega),
          magnitude_binade e hmants]
        ring

/-! ### The two conversions together -/

theorem roundedToFp16_iff (bits : UInt32) : RoundedToFp16 bits (tuFp32ToFp16 .rne .full bits) ↔ Fp16Safe bits := by
  by_cases hspecial : expField bits = 0xFF
  · have hsafe : Fp16Safe bits := fun h => absurd h.2 (by omega)
    have hfinite : expField bits ≠ 0xFF →
        Nearest fp16Rung fp16Inf (magnitude 23 (unsigned bits)) (unsigned16 (tuFp32ToFp16 .rne .full bits)) :=
      fun h => absurd hspecial h
    refine iff_of_true ?_ hsafe
    by_cases hmant : mantField bits = 0
    · have hnan : ¬ isNan bits = true := by simp [isNan, hmant]
      have hinf : isInf bits = true := by simp [isInf, hspecial, hmant]
      have hvalue : tuFp32ToFp16 .rne .full bits = if signBit bits = 0 then 0x7C00 else 0xFC00 := by
        unfold tuFp32ToFp16
        rw [if_neg hnan, if_pos hinf]
      have hsign := signBit_lt bits
      refine ⟨fun h => absurd h hnan, fun _ => ?_, hfinite, fun _ => ?_⟩
      · rw [hvalue]
        split <;> rfl
      · rw [hvalue]
        obtain hzero | hone : signBit bits = 0 ∨ signBit bits = 1 := by omega
        · rw [hzero]
          rfl
        · rw [hone]
          rfl
    · have hnan : isNan bits = true := by simp [isNan, hspecial, hmant]
      have hvalue : tuFp32ToFp16 .rne .full bits = 0x7E00 := if_pos hnan
      refine ⟨fun _ => ?_, fun h => ?_, hfinite, fun h => ?_⟩
      · rw [hvalue]
        decide
      · simp [isInf, hmant] at h
      · rw [hnan] at h
        exact absurd h (by decide)
  · have hvalue := toNat_tuFp32ToFp16 hspecial
    have hle := fp16Magnitude_le (e := expField bits) (mantField_lt bits)
    have hmagnitude : unsigned16 (tuFp32ToFp16 .rne .full bits) = fp16Magnitude (expField bits) (mantField bits) := by
      unfold unsigned16
      unfold fp16Inf at hle
      omega
    rw [← nearest_fp16Magnitude_iff, ← hmagnitude]
    constructor
    · exact fun h => h.finite hspecial
    · intro h
      refine ⟨fun hnan => ?_, fun hinf => ?_, fun _ => h, fun _ => ?_⟩
      · simp [isNan, hspecial] at hnan
      · simp [isInf, hspecial] at hinf
      · unfold fp16Inf at hle
        omega

/-- The band as a range of magnitudes. -/
theorem inSubnormalBand_iff (bits : UInt32) :
    InSubnormalBand bits ↔ 2 ^ 124 ≤ magnitude 23 (unsigned bits) ∧ magnitude 23 (unsigned bits) < 2 ^ 135 := by
  unfold InSubnormalBand
  constructor
  · rintro ⟨hlo, hhi⟩
    have hbounds := magnitude_bounds (show 0 < expField bits by omega)
    have hpow : 2 ^ 101 ≤ 2 ^ (expField bits - 1) := Nat.pow_le_pow_right (by decide) (by omega)
    have hpow' : 2 ^ (expField bits - 1) ≤ 2 ^ 111 := Nat.pow_le_pow_right (by decide) (by omega)
    omega
  · rintro ⟨hlo, hhi⟩
    rcases Nat.eq_zero_or_pos (expField bits) with hzero | hpos
    · have hm := mantField_lt bits
      rw [unsigned_eq, hzero, Nat.mul_zero, Nat.zero_add, magnitude_of_lt hm] at hlo
      omega
    · obtain ⟨hge, hlt⟩ := magnitude_bounds hpos
      constructor
      · by_contra hnot
        have hpow : 2 ^ (expField bits - 1) ≤ 2 ^ 100 := Nat.pow_le_pow_right (by decide) (by omega)
        omega
      · by_contra hnot
        have hpow : 2 ^ 112 ≤ 2 ^ (expField bits - 1) := Nat.pow_le_pow_right (by decide) (by omega)
        omega

/-- The half-precision numbers that are safe: all but the subnormal ones, and `2 ^ -15`. -/
def Fp16Kept (h : UInt16) : Prop := unsigned16 h = 0 ∨ unsigned16 h = 0x200 ∨ 2 ^ 10 ≤ unsigned16 h

theorem le_fp16Rung {k : Nat} (h : 2 ^ 10 ≤ k) : 2 ^ 135 ≤ fp16Rung k :=
  calc 2 ^ 135 = fp16Rung (2 ^ 10) := by decide
    _ ≤ fp16Rung k := (rung_strictMono 125 10).monotone h

theorem fp16Safe_iff_of_rung {bits : UInt32} {h : UInt16} (hvalue : magnitude 23 (unsigned bits) = fp16Rung (unsigned16 h)) :
    Fp16Safe bits ↔ Fp16Kept h := by
  unfold Fp16Safe Fp16Kept
  rw [inSubnormalBand_iff, hvalue]
  by_cases hsmall : unsigned16 h < 2 ^ 10
  · rw [fp16Rung_of_lt hsmall]
    omega
  · have hle := le_fp16Rung (Nat.le_of_not_lt hsmall)
    exact iff_of_true (fun hband => absurd hband.2 (by omega)) (Or.inr (Or.inr (Nat.le_of_not_lt hsmall)))

theorem roundTrip_iff {h : UInt16} (hnan : unsigned16 h ≤ fp16Inf) :
    tuFp32ToFp16 .rne .full (tuFp16ToFp32 h) = h ↔ Fp16Kept h := by
  obtain ⟨e, m, hbits, he, hm, hfinite, hinf⟩ := tuFp16ToFp32_fields h
  obtain ⟨hunsigned, hexp, hmant⟩ := fields_of_toNat hbits he hm
  have hlt := h.toNat_lt
  have hsign : signBit (tuFp16ToFp32 h) = h.toNat / 2 ^ 15 := by
    rw [signBit_eq, hbits]
    omega
  have hrounded := roundedToFp16_iff (tuFp16ToFp32 h)
  rcases Nat.lt_or_eq_of_le hnan with hless | hinfinite
  · obtain ⟨hne, hvalue⟩ := hfinite hless
    rw [← hexp] at hne
    rw [← hunsigned] at hvalue
    have hself : RoundedToFp16 (tuFp16ToFp32 h) h := by
      refine ⟨fun hnan => ?_, fun hinf => ?_, fun _ => ?_, fun _ => hsign.symm⟩
      · simp [isNan, hne] at hnan
      · simp [isInf, hne] at hinf
      · rw [hvalue]
        exact nearest_self (rung_strictMono 125 10) hnan
    rw [← fp16Safe_iff_of_rung hvalue, ← hrounded]
    constructor
    · intro hback
      rw [hback]
      exact hself
    · intro hback
      have hnotNan : isNan (tuFp16ToFp32 h) = false := by simp [isNan, hne]
      have hmagnitude := (hback.finite hne).unique (rung_strictMono 125 10) (hself.finite hne)
      have hsigns := (hback.sign hnotNan).trans (hself.sign hnotNan).symm
      unfold unsigned16 at hmagnitude
      exact UInt16.toNat_inj.1 (by omega)
  · obtain ⟨he, hm⟩ := hinf hinfinite
    have hsafe : Fp16Safe (tuFp16ToFp32 h) := fun hband => absurd hband.2 (by omega)
    have hback := hrounded.2 hsafe
    have hisInf : isInf (tuFp16ToFp32 h) = true := by simp [isInf, hexp, he, hmant, hm]
    have hnotNan : isNan (tuFp16ToFp32 h) = false := by simp [isNan, hmant, hm]
    have hmagnitude := (hback.inf hisInf).trans hinfinite.symm
    have hsigns := (hback.sign hnotNan).trans hsign
    have hsame : tuFp32ToFp16 .rne .full (tuFp16ToFp32 h) = h := by
      unfold unsigned16 at hmagnitude
      exact UInt16.toNat_inj.1 (by omega)
    have hbig : 2 ^ 10 ≤ unsigned16 h := by
      rw [hinfinite]
      decide
    exact iff_of_true hsame (Or.inr (Or.inr hbig))

/-- Where the conversion to half precision rounds correctly, and which patterns survive the way through single
precision. -/
theorem tuFp32ToFp16_rounded_iff (bits : UInt32) {h : UInt16} (hnan : unsigned16 h ≤ fp16Inf) :
    (RoundedToFp16 bits (tuFp32ToFp16 .rne .full bits) ↔ Fp16Safe bits) ∧
      (tuFp32ToFp16 .rne .full (tuFp16ToFp32 h) = h ↔ Fp16Kept h) :=
  ⟨roundedToFp16_iff bits, roundTrip_iff hnan⟩

theorem tuFp32ToFp16_rounded_one :
    RoundedToFp16 0x3F800000 (tuFp32ToFp16 .rne .full 0x3F800000) ∧
      tuFp32ToFp16 .rne .full (tuFp16ToFp32 0x3C00) = 0x3C00 := by
  obtain ⟨hrounded, hback⟩ := tuFp32ToFp16_rounded_iff 0x3F800000 (show unsigned16 0x3C00 ≤ fp16Inf by decide)
  exact ⟨hrounded.2 fun h => absurd h.2 (by decide), hback.2 (Or.inr (Or.inr (by decide)))⟩

/-- The smallest positive half-precision number becomes `2 ^ -15`. -/
theorem tuFp32ToFp16_smallest :
    tuFp16ToFp32 0x0001 = 0x33800000 ∧ tuFp32ToFp16 .rne .full 0x33800000 = 0x0200 ∧
      ¬ RoundedToFp16 0x33800000 (tuFp32ToFp16 .rne .full 0x33800000) := by
  refine ⟨by decide +kernel, by decide +kernel, fun h => ?_⟩
  have hnear := (h.finite (by decide)).near 1 (by decide)
  revert hnear
  decide +kernel

end Tusim.Precision
