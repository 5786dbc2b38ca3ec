import Tusim.Precision.HalfPrecision

/-!
# Narrowing to BF16 and TF32

Both formats have the exponents of single precision, so dropping the low 16 or 13 bits of a pattern with `roundShift`
rounds to nearest, and a carry out of the significand moves on to the next binade by itself.  BF16 replaces subnormal
results by zero.  Patterns with the largest exponent are cut without rounding: an infinity stays one, but a NaN whose
payload is in the dropped bits only becomes an infinity (`narrowing_rounded_iff`).
-/

namespace Tusim.Precision

open FloatLadder

/-- `prec_bf16_from_fp32`. -/
def tuFp32ToBf16 (mode : TuRoundingMode) (bits : UInt32) : UInt16 :=
  let exp : Int := expField bits - 127
  let mant := mantField bits
  if bits &&& 0x7F800000 = 0x7F800000 then (bits >>> 16).toUInt16
  else
    let r := tuRoundFp32ToMantissa mode mant 7
    let sign := signBit bits
    let e := exp + 127
    let rMant := if r.2 then 0 else r.1
    let e := if r.2 then e + 1 else e
    if e ≥ 255 then UInt16.ofNat (sign <<< 15 ||| 0x7F80)
    else if e ≤ 0 then UInt16.ofNat (sign <<< 15)
    else UInt16.ofNat (sign <<< 15 ||| e.toNat <<< 7 ||| (rMant &&& 0x7F))

def tuFp32ToTf32 (mode : TuRoundingMode) (bits : UInt32) : UInt32 :=
  let sign := signBit bits
  let exp := expField bits
  if exp = 0xFF then bits &&& 0xFFFFE000
  else if exp = 0 ∧ mantField bits = 0 then bits &&& 0x80000000
  else
    let mantissa := mantField bits
    let tf32Mant := mantissa >>> 13
    let roundBit := mantissa >>> 12 &&& 1
    let sticky := mantissa &&& 0xFFF
    let tf32Mant :=
      match mode with
      | .rne => if roundBit ≠ 0 ∧ (sticky > 0 ∨ tf32Mant &&& 1 ≠ 0) then tf32Mant + 1 else tf32Mant
      | .rtz => tf32Mant
      | .stochastic draw => if draw * 2 ^ 13 < (roundBit <<< 12 ||| sticky) * 2 ^ 53 then tf32Mant + 1 else tf32Mant
    let carry := tf32Mant ≥ 0x400
    let tf32Mant := if carry then 0 else tf32Mant
    let exp := if carry then exp + 1 else exp
    if exp ≥ 0xFF then UInt32.ofNat (sign <<< 31 ||| 0x7F800000)
    else UInt32.ofNat (sign <<< 31 ||| exp <<< 23 ||| tf32Mant <<< 13)

/-! ### Correct narrowing -/

/-- The pattern of infinity in BF16. -/
def bf16Inf : Nat := 0x7F80

/-- Subnormal patterns are replaced by zero. -/
def flushSubnormal (k : Nat) : Nat := if k < 2 ^ 7 then 0 else k

structure RoundedToBf16 (bits : UInt32) (h : UInt16) : Prop where
  nan : isNan bits = true → unsigned16 h > bf16Inf
  inf : isInf bits = true → unsigned16 h = bf16Inf
  finite : expField bits ≠ 0xFF →
    ∃ k, Nearest (rung 16 7) bf16Inf (magnitude 23 (unsigned bits)) k ∧ unsigned16 h = flushSubnormal k
  sign : h.toNat / 2 ^ 15 = signBit bits

/-- The pattern of infinity in the 18 unsigned bits of TF32. -/
def tf32Inf : Nat := 0x3FC00

/-- A TF32 number is a single-precision pattern without its 13 low bits. -/
structure RoundedToTf32 (bits v : UInt32) : Prop where
  low : v.toNat % 2 ^ 13 = 0
  nan : isNan bits = true → isNan v = true
  inf : isInf bits = true → isInf v = true
  finite : expField bits ≠ 0xFF → Nearest (rung 13 10) tf32Inf (magnitude 23 (unsigned bits)) (unsigned v / 2 ^ 13)
  sign : signBit v = signBit bits

/-! ### Masks -/

theorem and_shiftLeft (n a s : Nat) : n &&& a <<< s = (n >>> s &&& a) <<< s := by
  apply Nat.eq_of_testBit_eq
  intro i
  by_cases h : s ≤ i
  · simp [h]
  · simp [h]

theorem exponent_mask (bits : UInt32) : bits &&& 0x7F800000 = 0x7F800000 ↔ expField bits = 0xFF := by
  rw [← UInt32.toNat_inj, UInt32.toNat_and]
  show bits.toNat &&& 0xFF <<< 23 = 0xFF <<< 23 ↔ _
  rw [and_shiftLeft, Nat.shiftLeft_eq, Nat.shiftLeft_eq]
  exact Nat.mul_left_inj (by decide)

theorem toNat_and_high (bits : UInt32) : (bits &&& 0xFFFFE000).toNat = 2 ^ 13 * (bits.toNat / 2 ^ 13) := by
  have hlt := bits.toNat_lt
  have hcut : bits.toNat >>> 13 &&& (2 ^ 19 - 1) = bits.toNat / 2 ^ 13 := by
    rw [Nat.and_two_pow_sub_one_eq_mod, Nat.shiftRight_eq_div_pow]
    omega
  rw [UInt32.toNat_and]
  show bits.toNat &&& (2 ^ 19 - 1) <<< 13 = _
  rw [and_shiftLeft, hcut, Nat.shiftLeft_eq, Nat.mul_comm]

theorem toNat_and_sign (bits : UInt32) : (bits &&& 0x80000000).toNat = 2 ^ 31 * signBit bits := by
  rw [UInt32.toNat_and]
  show bits.toNat &&& 1 <<< 31 = _
  rw [and_shiftLeft, Nat.shiftLeft_eq, Nat.mul_comm]
  rfl

/-! ### The results for finite inputs -/

theorem roundShift_unsigned {t s : Nat} (ht : 0 < t) (hts : t + s = 23) (bits : UInt32) :
    roundShift s (unsigned bits) = 2 ^ t * expField bits + roundShift s (mantField bits) := by
  rw [unsigned_eq, ← hts]
  exact roundShift_binade s _ _ ht

theorem toNat_tuFp32ToBf16 {bits : UInt32} (hfinite : expField bits ≠ 0xFF) :
    (tuFp32ToBf16 .rne bits).toNat = 2 ^ 15 * signBit bits + flushSubnormal (roundShift 16 (unsigned bits)) := by
  have hsign := signBit_lt bits
  have hexp : expField bits < 2 ^ 8 := Nat.and_lt_two_pow _ (by decide)
  have hround : roundShift 16 (mantField bits) ≤ 2 ^ 7 := roundShift_mant_le 16 (mantField_lt bits)
  have hconst : ∀ sign < 2, (UInt16.ofNat (sign <<< 15 ||| 0x7F80)).toNat = 2 ^ 15 * sign + 0x7F80 ∧
      (UInt16.ofNat (sign <<< 15)).toNat = 2 ^ 15 * sign := by decide
  have hfields : ∀ e m, e < 2 ^ 8 → m < 2 ^ 7 →
      (UInt16.ofNat (signBit bits <<< 15 ||| e <<< 7 ||| (m &&& 0x7F))).toNat =
        2 ^ 15 * signBit bits + (2 ^ 7 * e + m) := by
    intro e m he hm
    have hmask : m &&& 0x7F = m := (Nat.and_two_pow_sub_one_eq_mod m 7).trans (Nat.mod_eq_of_lt hm)
    have hor : signBit bits <<< 15 ||| e <<< 7 ||| m = 2 ^ 15 * signBit bits + (2 ^ 7 * e + m) :=
      or_fields (t := 7) (w := 8) (signBit bits) he hm
    rw [hmask, hor, UInt16.toNat_ofNat']
    exact Nat.mod_eq_of_lt (by omega)
  obtain ⟨hinf, hzero⟩ := hconst _ hsign
  rw [roundShift_unsigned (t := 7) (by decide) rfl]
  unfold tuFp32ToBf16 flushSubnormal
  dsimp only
  rw [if_neg (fun h => hfinite ((exponent_mask bits).1 h)),
    tuRoundFp32ToMantissa_rne (show 7 + 16 = 23 from rfl) (by decide)]
  generalize signBit bits = sign, expField bits = e, roundShift 16 (mantField bits) = c at *
  have hint : (e : Int) - 127 + 127 = e := by omega
  rw [hint]
  by_cases hcarry : 2 ^ 7 ≤ c
  · have hnat : ((e : Int) + 1).toNat = e + 1 := rfl
    have hnormal : ¬ 2 ^ 7 * e + c < 2 ^ 7 := by omega
    rw [if_pos hcarry]
    dsimp only
    rw [if_pos rfl, if_pos rfl, if_neg hnormal]
    by_cases hover : 254 ≤ e
    · rw [if_pos (by omega), hinf]
      omega
    · rw [if_neg (by omega), if_neg (by omega), hnat, hfields (e + 1) 0 (by omega) (by decide)]
      omega
  · have hnat : (e : Int).toNat = e := rfl
    rw [if_neg hcarry]
    dsimp only
    rw [if_neg Bool.false_ne_true, if_neg Bool.false_ne_true, if_neg (by omega)]
    by_cases hunder : e = 0
    · have hsubnormal : 2 ^ 7 * e + c < 2 ^ 7 := by omega
      rw [if_pos hsubnormal, if_pos (by omega), hzero]
      rfl
    · have hnormal : ¬ 2 ^ 7 * e + c < 2 ^ 7 := by omega
      rw [if_neg hnormal, if_neg (by omega), hnat, hfields e c (by omega) (by omega)]

theorem toNat_tuFp32ToTf32 {bits : UInt32} (hfinite : expField bits ≠ 0xFF) :
    (tuFp32ToTf32 .rne bits).toNat = 2 ^ 31 * signBit bits + 2 ^ 13 * roundShift 13 (unsigned bits) := by
  have hsign := signBit_lt bits
  have hexp : expField bits < 2 ^ 8 := Nat.and_lt_two_pow _ (by decide)
  have hround : roundShift 13 (mantField bits) ≤ 2 ^ 10 := roundShift_mant_le 13 (mantField_lt bits)
  have hm := mantField_lt bits
  rw [roundShift_unsigned (t := 10) (by decide) rfl]
  unfold tuFp32ToTf32
  dsimp only
  rw [if_neg hfinite]
  by_cases hzero : expField bits = 0 ∧ mantField bits = 0
  · rw [if_pos hzero, toNat_and_sign, hzero.1, hzero.2]
    rfl
  · have hround' : roundShift 13 (mantField bits) =
        if mantField bits >>> 12 &&& 1 ≠ 0 ∧ (mantField bits &&& 0xFFF > 0 ∨ mantField bits >>> 13 &&& 1 ≠ 0) then
          mantField bits >>> 13 + 1 else mantField bits >>> 13 := by
      have hsticky : mantField bits &&& 0xFFF = mantField bits % 2 ^ 12 := Nat.and_two_pow_sub_one_eq_mod _ 12
      rw [hsticky, Nat.and_one_is_mod, Nat.and_one_is_mod, Nat.shiftRight_eq_div_pow, Nat.shiftRight_eq_div_pow]
      unfold roundShift
      split <;> split <;> omega
    rw [if_neg hzero, ← hround']
    have hinf : ∀ sign < 2, (UInt32.ofNat (sign <<< 31 ||| 0x7F800000)).toNat = 2 ^ 31 * sign + 0x7F800000 := by decide
    have hfields : ∀ e c, e < 2 ^ 8 → c < 2 ^ 10 →
        (UInt32.ofNat (signBit bits <<< 31 ||| e <<< 23 ||| c <<< 13)).toNat =
          2 ^ 31 * signBit bits + (2 ^ 23 * e + 2 ^ 13 * c) := by
      intro e c he hc
      have hshift : c <<< 13 = 2 ^ 13 * c := by rw [Nat.shiftLeft_eq, Nat.mul_comm]
      have hlow : 2 ^ 13 * c < 2 ^ 23 := by omega
      have hor : signBit bits <<< 31 ||| e <<< 23 ||| 2 ^ 13 * c = 2 ^ 31 * signBit bits + (2 ^ 23 * e + 2 ^ 13 * c) :=
        or_fields (t := 23) (w := 8) (signBit bits) he hlow
      rw [hshift, hor, UInt32.toNat_ofNat']
      exact Nat.mod_eq_of_lt (by omega)
    generalize signBit bits = sign, expField bits = e, roundShift 13 (mantField bits) = c at *
    by_cases hcarry : c ≥ 0x400
    · rw [if_pos hcarry, if_pos hcarry]
      by_cases hover : e + 1 ≥ 0xFF
      · rw [if_pos hover, hinf sign hsign]
        omega
      · rw [if_neg hover, hfields (e + 1) 0 (by omega) (by decide)]
        omega
    · rw [if_neg hcarry, if_neg hcarry, if_neg (by omega), hfields e c (by omega) (by omega)]
      omega

/-! ### Correct rounding -/

/-- The NaNs that the conversion to BF16 keeps: the payload is not in the dropped bits only. -/
def Bf16Safe (bits : UInt32) : Prop := isNan bits = true → mantField bits / 2 ^ 16 ≠ 0

def Tf32Safe (bits : UInt32) : Prop := isNan bits = true → mantField bits / 2 ^ 13 ≠ 0

/-- Dropping bits of a finite pattern without changing the exponents. -/
theorem nearest_cut {t s : Nat} (ht : 0 < t) (hts : t + s = 23) {bits : UInt32} (hfinite : expField bits ≠ 0xFF) :
    Nearest (rung s t) (2 ^ t * 0xFF) (magnitude 23 (unsigned bits)) (roundShift s (unsigned bits)) := by
  have hexp : expField bits < 2 ^ 8 := Nat.and_lt_two_pow _ (by decide)
  have hm := mantField_lt bits
  have hfrac : mantField bits / 2 ^ s < 2 ^ t := by
    rw [Nat.div_lt_iff_lt_mul (Nat.two_pow_pos s), ← Nat.pow_add, hts]
    exact hm
  have hrest : mantField bits % 2 ^ s < 2 ^ s := Nat.mod_lt _ (Nat.two_pow_pos s)
  have htop : 2 ^ t * (expField bits - 0) + mantField bits / 2 ^ s + 1 ≤ 2 ^ t * 0xFF := by
    have hle : 2 ^ t * (expField bits + 1) ≤ 2 ^ t * 0xFF := Nat.mul_le_mul_left _ (by omega)
    rw [Nat.mul_succ] at hle
    rw [Nat.sub_zero]
    omega
  have hnear := nearest_roundShift ht (Or.inl rfl) hfrac hrest htop
  rw [Nat.div_add_mod, hts, Nat.zero_add, Nat.sub_zero, ← unsigned_eq] at hnear
  rw [roundShift_unsigned ht hts]
  exact hnear

theorem unsigned_le {bits : UInt32} (h : isNan bits = false) : unsigned bits ≤ 2 ^ 23 * 0xFF := by
  have hexp : expField bits < 2 ^ 8 := Nat.and_lt_two_pow _ (by decide)
  have hm := mantField_lt bits
  have hsplit := unsigned_eq bits
  have hspecial : expField bits = 0xFF → mantField bits = 0 := by
    intro he
    simpa [isNan, he] using h
  omega

theorem roundShift_unsigned_le {t s : Nat} (ht : 0 < t) (hts : t + s = 23) {bits : UInt32} (h : isNan bits = false) :
    roundShift s (unsigned bits) ≤ 2 ^ t * 0xFF :=
  calc roundShift s (unsigned bits) ≤ roundShift s (2 ^ (t + s) * 0xFF + 0) :=
        roundShift_mono s (by rw [hts]; exact unsigned_le h)
    _ = 2 ^ t * 0xFF + roundShift s 0 := roundShift_binade s _ _ ht
    _ = 2 ^ t * 0xFF := by simp [roundShift]

/-- The sign and the magnitude make up a pattern. -/
theorem toNat_eq (bits : UInt32) : bits.toNat = 2 ^ 31 * signBit bits + (2 ^ 23 * expField bits + mantField bits) := by
  have hsign := signBit_eq bits
  have hsplit := unsigned_eq bits
  have hunsigned : unsigned bits = bits.toNat % 2 ^ 31 := rfl
  omega

/-- Infinities and NaNs are cut. -/
theorem toNat_tuFp32ToBf16_special {bits : UInt32} (hspecial : expField bits = 0xFF) :
    (tuFp32ToBf16 .rne bits).toNat = 2 ^ 15 * signBit bits + (bf16Inf + mantField bits / 2 ^ 16) := by
  have hvalue : tuFp32ToBf16 .rne bits = (bits >>> 16).toUInt16 := if_pos ((exponent_mask bits).2 hspecial)
  have hlt := bits.toNat_lt
  have hsplit := toNat_eq bits
  rw [hvalue, UInt32.toNat_toUInt16, UInt32.toNat_shiftRight]
  show bits.toNat >>> 16 % 2 ^ 16 = _
  rw [Nat.shiftRight_eq_div_pow]
  unfold bf16Inf
  omega

theorem toNat_tuFp32ToTf32_special {bits : UInt32} (hspecial : expField bits = 0xFF) :
    (tuFp32ToTf32 .rne bits).toNat = 2 ^ 31 * signBit bits + 2 ^ 13 * (tf32Inf + mantField bits / 2 ^ 13) := by
  have hvalue : tuFp32ToTf32 .rne bits = bits &&& 0xFFFFE000 := if_pos hspecial
  have hsplit := toNat_eq bits
  rw [hvalue, toNat_and_high]
  unfold tf32Inf
  omega

/-- What is left of a number or an infinity in BF16. -/
theorem tuFp32ToBf16_parts {bits : UInt32} (hnan : isNan bits = false) :
    unsigned16 (tuFp32ToBf16 .rne bits) = flushSubnormal (roundShift 16 (unsigned bits)) ∧
      (tuFp32ToBf16 .rne bits).toNat / 2 ^ 15 = signBit bits := by
  have hle : roundShift 16 (unsigned bits) ≤ 2 ^ 7 * 0xFF := roundShift_unsigned_le (by decide) rfl hnan
  have hflush : flushSubnormal (roundShift 16 (unsigned bits)) ≤ roundShift 16 (unsigned bits) := by
    unfold flushSubnormal
    split <;> omega
  have hvalue : (tuFp32ToBf16 .rne bits).toNat =
      2 ^ 15 * signBit bits + flushSubnormal (roundShift 16 (unsigned bits)) := by
    by_cases hspecial : expField bits = 0xFF
    · have hzero : mantField bits = 0 := by simpa [isNan, hspecial] using hnan
      rw [toNat_tuFp32ToBf16_special hspecial, unsigned_eq, hspecial, hzero]
      rfl
    · exact toNat_tuFp32ToBf16 hspecial
  unfold unsigned16
  omega

theorem tuFp32ToTf32_parts {bits : UInt32} (hnan : isNan bits = false) :
    unsigned (tuFp32ToTf32 .rne bits) = 2 ^ 13 * roundShift 13 (unsigned bits) ∧
      signBit (tuFp32ToTf32 .rne bits) = signBit bits ∧ (tuFp32ToTf32 .rne bits).toNat % 2 ^ 13 = 0 := by
  have hsign := signBit_lt bits
  have hle : roundShift 13 (unsigned bits) ≤ 2 ^ 10 * 0xFF := roundShift_unsigned_le (by decide) rfl hnan
  have hvalue : (tuFp32ToTf32 .rne bits).toNat = 2 ^ 31 * signBit bits + 2 ^ 13 * roundShift 13 (unsigned bits) := by
    by_cases hspecial : expField bits = 0xFF
    · have hzero : mantField bits = 0 := by simpa [isNan, hspecial] using hnan
      rw [toNat_tuFp32ToTf32_special hspecial, unsigned_eq, hspecial, hzero]
      rfl
    · exact toNat_tuFp32ToTf32 hspecial
  rw [signBit_eq (tuFp32ToTf32 .rne bits)]
  generalize roundShift 13 (unsigned bits) = c at *
  unfold unsigned
  omega

theorem roundedToBf16_iff (bits : UInt32) : RoundedToBf16 bits (tuFp32ToBf16 .rne bits) ↔ Bf16Safe bits := by
  by_cases hnan : isNan bits = true
  · have hspecial : expField bits = 0xFF := by
      by_contra hne
      simp [isNan, hne] at hnan
    have hm := mantField_lt bits
    have hvalue := toNat_tuFp32ToBf16_special hspecial
    have hmagnitude : unsigned16 (tuFp32ToBf16 .rne bits) = bf16Inf + mantField bits / 2 ^ 16 := by
      unfold unsigned16
      unfold bf16Inf at hvalue ⊢
      omega
    have hsigns : (tuFp32ToBf16 .rne bits).toNat / 2 ^ 15 = signBit bits := by
      unfold bf16Inf at hvalue
      omega
    have hinf : ¬ isInf bits = true := by
      intro h
      simp_all [isNan, isInf]
    constructor
    · intro h _
      have hgt := h.nan hnan
      omega
    · intro h
      have hne := h hnan
      exact ⟨fun _ => by omega, fun h => absurd h hinf, fun hne => absurd hspecial hne, hsigns⟩
  · have hsafe : Bf16Safe bits := fun h => absurd h hnan
    obtain ⟨hmagnitude, hsigns⟩ := tuFp32ToBf16_parts (Bool.not_eq_true _ ▸ hnan)
    refine iff_of_true ⟨fun h => absurd h hnan, fun hinf => ?_, fun hfinite => ?_, hsigns⟩ hsafe
    · have hspecial : expField bits = 0xFF ∧ mantField bits = 0 := by simpa [isInf] using hinf
      rw [hmagnitude, unsigned_eq, hspecial.1, hspecial.2]
      rfl
    · exact ⟨_, nearest_cut (by decide) rfl hfinite, hmagnitude⟩

theorem roundedToTf32_iff (bits : UInt32) : RoundedToTf32 bits (tuFp32ToTf32 .rne bits) ↔ Tf32Safe bits := by
  by_cases hnan : isNan bits = true
  · have hspecial : expField bits = 0xFF := by
      by_contra hne
      simp [isNan, hne] at hnan
    have hm := mantField_lt bits
    have hvalue := toNat_tuFp32ToTf32_special hspecial
    have hfields : (tuFp32ToTf32 .rne bits).toNat =
        2 ^ 31 * signBit bits + (2 ^ 23 * 0xFF + 2 ^ 13 * (mantField bits / 2 ^ 13)) := by
      unfold tf32Inf at hvalue
      omega
    obtain ⟨_, hexp, hmant⟩ := fields_of_toNat hfields (by decide) (by omega)
    have hsign := signBit_lt bits
    have hsigns : signBit (tuFp32ToTf32 .rne bits) = signBit bits := by
      rw [signBit_eq (tuFp32ToTf32 .rne bits)]
      omega
    have hinf : ¬ isInf bits = true := by
      intro h
      simp_all [isNan, isInf]
    constructor
    · intro h _
      have hkept : mantField (tuFp32ToTf32 .rne bits) ≠ 0 := by simpa [isNan, hexp] using h.nan hnan
      omega
    · intro h
      have hkept : mantField (tuFp32ToTf32 .rne bits) ≠ 0 := by
        have hne := h hnan
        omega
      exact ⟨by omega, fun _ => by simp [isNan, hexp, hkept], fun h => absurd h hinf, fun hne => absurd hspecial hne,
        hsigns⟩
  · have hsafe : Tf32Safe bits := fun h => absurd h hnan
    obtain ⟨hmagnitude, hsigns, hlow⟩ := tuFp32ToTf32_parts (Bool.not_eq_true _ ▸ hnan)
    refine iff_of_true ⟨hlow, fun h => absurd h hnan, fun hinf => ?_, fun hfinite => ?_, hsigns⟩ hsafe
    · have hspecial : expField bits = 0xFF ∧ mantField bits = 0 := by simpa [isInf] using hinf
      have hround : roundShift 13 (unsigned bits) = 2 ^ 10 * 0xFF := by
        rw [unsigned_eq, hspecial.1, hspecial.2]
        rfl
      have hsplit := unsigned_eq (tuFp32ToTf32 .rne bits)
      have hm := mantField_lt (tuFp32ToTf32 .rne bits)
      have hexp : expField (tuFp32ToTf32 .rne bits) = 0xFF := by omega
      have hmant : mantField (tuFp32ToTf32 .rne bits) = 0 := by omega
      simp [isInf, hexp, hmant]
    · rw [hmagnitude, Nat.mul_div_cancel_left _ (Nat.two_pow_pos 13)]
      exact nearest_cut (by decide) rfl hfinite

/-! ### Monotonicity -/

/-- The value of a number in units of `2 ^ -149`; an infinity counts as the number one step above the largest one. -/
def fp32Value (bits : UInt32) : Int := signed (signBit bits) (magnitude 23 (unsigned bits))

def bf16Value (h : UInt16) : Int := signed (h.toNat / 2 ^ 15) (rung 16 7 (unsigned16 h))

/-- A TF32 number is a number of single precision. -/
def tf32Value (v : UInt32) : Int := fp32Value v

theorem flushSubnormal_mono : Monotone flushSubnormal := by
  intro k k' h
  unfold flushSubnormal
  split <;> split <;> omega

theorem bf16Value_mono {a b : UInt32} (ha : isNan a = false) (hb : isNan b = false) (h : fp32Value a ≤ fp32Value b) :
    bf16Value (tuFp32ToBf16 .rne a) ≤ bf16Value (tuFp32ToBf16 .rne b) := by
  obtain ⟨hmagA, hsignA⟩ := tuFp32ToBf16_parts ha
  obtain ⟨hmagB, hsignB⟩ := tuFp32ToBf16_parts hb
  unfold bf16Value
  rw [hmagA, hsignA, hmagB, hsignB]
  exact signed_mono (g := fun k => flushSubnormal (roundShift 16 k)) (magnitude_strictMono 23) rfl
    (rung_strictMono 16 7).monotone rfl (flushSubnormal_mono.comp (roundShift_mono 16)) rfl h

theorem tf32Value_mono {a b : UInt32} (ha : isNan a = false) (hb : isNan b = false) (h : fp32Value a ≤ fp32Value b) :
    tf32Value (tuFp32ToTf32 .rne a) ≤ tf32Value (tuFp32ToTf32 .rne b) := by
  obtain ⟨hmagA, hsignA, _⟩ := tuFp32ToTf32_parts ha
  obtain ⟨hmagB, hsignB, _⟩ := tuFp32ToTf32_parts hb
  have hcut : Monotone fun k => 2 ^ 13 * roundShift 13 k := fun _ _ h => Nat.mul_le_mul_left _ (roundShift_mono 13 h)
  unfold tf32Value fp32Value
  rw [hmagA, hsignA, hmagB, hsignB]
  exact signed_mono (g := fun k => 2 ^ 13 * roundShift 13 k) (magnitude_strictMono 23) rfl
    (magnitude_strictMono 23).monotone rfl hcut rfl h

/-- Narrowing to BF16 and TF32 rounds correctly but for the NaNs with their payload in the dropped bits, and is
monotone on everything else. -/
theorem narrowing_rounded_iff (bits : UInt32) {a b : UInt32} (ha : isNan a = false) (hb : isNan b = false)
    (h : fp32Value a ≤ fp32Value b) :
    (RoundedToBf16 bits (tuFp32ToBf16 .rne bits) ↔ Bf16Safe bits) ∧
      (RoundedToTf32 bits (tuFp32ToTf32 .rne bits) ↔ Tf32Safe bits) ∧
      bf16Value (tuFp32ToBf16 .rne a) ≤ bf16Value (tuFp32ToBf16 .rne b) ∧
      tf32Value (tuFp32ToTf32 .rne a) ≤ tf32Value (tuFp32ToTf32 .rne b) :=
  ⟨roundedToBf16_iff bits, roundedToTf32_iff bits, bf16Value_mono ha hb h, tf32Value_mono ha hb h⟩

theorem narrowing_rounded_third :
    RoundedToBf16 0x3EAAAAAB (tuFp32ToBf16 .rne 0x3EAAAAAB) ∧ RoundedToTf32 0x3EAAAAAB (tuFp32ToTf32 .rne 0x3EAAAAAB) ∧
      bf16Value (tuFp32ToBf16 .rne 0x3EAAAAAB) ≤ bf16Value (tuFp32ToBf16 .rne 0x3F800000) := by
  obtain ⟨hbf16, htf32, hmono, -⟩ := narrowing_rounded_iff 0x3EAAAAAB (show isNan 0x3EAAAAAB = false by decide)
    (show isNan 0x3F800000 = false by decide) (by decide)
  exact ⟨hbf16.2 fun h => absurd h (by decide), htf32.2 fun h => absurd h (by decide), hmono⟩

/-- A signalling NaN becomes an infinity in both formats. -/
theorem narrowed_nan_infinite :
    isNan 0x7F800001 = true ∧ tuFp32ToBf16 .rne 0x7F800001 = 0x7F80 ∧ tuFp32ToTf32 .rne 0x7F800001 = 0x7F800000 ∧
      ¬ RoundedToBf16 0x7F800001 (tuFp32ToBf16 .rne 0x7F800001) ∧
      ¬ RoundedToTf32 0x7F800001 (tuFp32ToTf32 .rne 0x7F800001) := by
  refine ⟨by decide, by decide, by decide, fun h => ?_, fun h => ?_⟩
  · exact absurd (h.nan (by decide)) (by decide)
  · exact absurd (h.nan (by decide)) (by decide)

end Tusim.Precision
