import Tusim.Precision.Rounding

/-!
# Eight bits

The two formats of eight bits.  A float is a sign and a magnitude; finite magnitudes are numbers of units `2 ^ -149`.  The
codes that a converter gives are in canonical form, and a float that a canonical code stands for gives this code again, but
for the largest number of E4M3 (`fp8_roundTrip`).
-/

namespace Tusim.Precision

/-- A sum or a difference, rounded to a float. -/
def roundUnits (x : Int) : Int := x.sign * Fp32.round x.natAbs

/-- `(uint32_t)x` -/
def wholeUnits (x : Int) : Nat := (x.tdiv (2 ^ 149)).toNat

/-- The switch on the mode, for a significand with a fraction. -/
def roundSignificand (mode : TuRoundingMode) (x : Int) : Nat :=
  match mode with
  | .rne => wholeUnits (roundUnits (x + 2 ^ 148))
  | .rtz => wholeUnits x
  | .stochastic draw =>
    let frac := Fp32.round (x % 2 ^ 149).toNat
    if frac > 0 ∧ draw * 2 ^ 149 < frac * 2 ^ 53 then wholeUnits x + 1 else wholeUnits x

/-- A format: the exponents go up to `top`, and `inf` is the code of what is too large. -/
structure Fp8Format where
  mantBits : Nat
  bias : Nat
  top : Nat
  nan : Nat
  inf : Nat
  tooLarge : Nat → Bool
  infinities : Bool
  bias_pos : 0 < bias := by decide
  small : bias + mantBits ≤ 100 ∧ mantBits < 23 := by decide
  top_eq : top + 2 = 2 ^ (7 - mantBits) := by decide
  tooLarge_zero : tooLarge 0 = false := by decide

def e4m3 : Fp8Format where
  mantBits := 3
  bias := 7
  top := 14
  nan := 0x7F
  inf := 0x7F
  tooLarge absv := absv ≥ 240 * 2 ^ 149
  infinities := false

def e5m2 : Fp8Format where
  mantBits := 2
  bias := 15
  top := 30
  nan := 0x7D
  inf := 0x7C
  tooLarge absv := absv > 57344 * 2 ^ 149
  infinities := true

namespace Fp8Format

variable (fmt : Fp8Format) (floorLog2f : Nat → Int) (mode : TuRoundingMode)

/-- The exponent and the significand of a normal number; `floorLog2f` is `(int)floorf(log2f(absv))`. -/
def normal (absv : Nat) : Nat × Nat :=
  let e := (max 1 (min (fmt.top : Int) (floorLog2f absv + fmt.bias))).toNat
  let remainder := roundUnits ((absv * 2 ^ fmt.bias / 2 ^ e : Nat) - 2 ^ 149)
  let mant := roundSignificand mode (remainder * 2 ^ fmt.mantBits)
  if mant ≥ 2 ^ fmt.mantBits then (e + 1, 0) else (e, mant)

/-- The conversion from single precision. -/
def ofFp32 (v : Bool × Fp32) : Nat :=
  let sign := if v.1 = true then 0x80 else 0
  match v.2 with
  | .nan => sign + fmt.nan
  | .inf _ => sign + fmt.inf
  | .finite units =>
    let absv := units.toNat
    if absv = 0 then sign
    else if fmt.tooLarge absv = true then sign + fmt.inf
    else if absv < 2 ^ (150 - fmt.bias) then
      let im := roundSignificand mode ((absv * 2 ^ (fmt.bias - 1 + fmt.mantBits) : Nat) : Int)
      sign + min im (2 ^ fmt.mantBits - 1)
    else
      let f := fmt.normal floorLog2f mode absv
      if f.1 ≥ fmt.top + 1 then sign + fmt.inf else sign + (f.1 * 2 ^ fmt.mantBits + f.2)

/-- The magnitude of a number with exponent `exp`. -/
def units (exp mant : Nat) : Nat :=
  if exp = 0 then mant * 2 ^ (150 - fmt.bias - fmt.mantBits)
  else (2 ^ fmt.mantBits + mant) * 2 ^ (149 - fmt.bias - fmt.mantBits + exp)

/-- The conversion to single precision. -/
def toFp32 (v : Nat) : Bool × Fp32 :=
  let exp := v / 2 ^ fmt.mantBits % 2 ^ (7 - fmt.mantBits)
  let mant := v % 2 ^ fmt.mantBits
  (v / 2 ^ 7 % 2 = 1,
    if exp = fmt.top + 1 then (if fmt.infinities && mant == 0 then .inf false else .nan) else .finite (fmt.units exp mant))

end Fp8Format

def tuFp32ToFp8E4m3 (floorLog2f : Nat → Int) (mode : TuRoundingMode) : Bool × Fp32 → Nat := e4m3.ofFp32 floorLog2f mode

def tuFp32ToFp8E5m2 (floorLog2f : Nat → Int) (mode : TuRoundingMode) : Bool × Fp32 → Nat := e5m2.ofFp32 floorLog2f mode

def tuFp8E4m3ToFp32 : Nat → Bool × Fp32 := e4m3.toFp32

def tuFp8E5m2ToFp32 : Nat → Bool × Fp32 := e5m2.toFp32

theorem log_shifted {k : Nat} (hk : k ≠ 0) (s : Nat) : Nat.log 2 (k * 2 ^ s) = Nat.log 2 k + s := by
  induction s with
  | zero => simp
  | succ s ih =>
    have hne : k * 2 ^ s ≠ 0 := Nat.mul_ne_zero hk (Nat.two_pow_pos s).ne'
    rw [Nat.pow_succ, ← Nat.mul_assoc, Nat.log_mul_base (by decide) hne, ih, Nat.add_assoc]

/-- Numbers of 24 bits are not rounded. -/
theorem round_shifted {k : Nat} (hk : k < 2 ^ 24) (s : Nat) : Fp32.round (k * 2 ^ s) = k * 2 ^ s := by
  unfold Fp32.round
  split
  · rfl
  · obtain rfl | hpos := Nat.eq_zero_or_pos k
    · simp
    · have hlog := log_shifted hpos.ne' s
      have hlt : Nat.log 2 k < 24 := Nat.log_lt_of_lt_pow (by omega) hk
      obtain ⟨r, hr⟩ : ∃ r, s = Nat.log 2 (k * 2 ^ s) - 23 + r := ⟨s - (Nat.log 2 (k * 2 ^ s) - 23), by omega⟩
      generalize Nat.log 2 (k * 2 ^ s) - 23 = q at hr ⊢
      subst hr
      have hdvd : 2 ^ q ∣ k * 2 ^ (q + r) := Dvd.dvd.mul_left (pow_dvd_pow 2 (Nat.le_add_right q r)) k
      dsimp only
      rw [Nat.mod_eq_zero_of_dvd hdvd, if_neg (by have := Nat.two_pow_pos q; omega), Nat.div_mul_cancel hdvd]

theorem roundUnits_shifted {k : Nat} (hk : k < 2 ^ 24) (s : Nat) : roundUnits ((k * 2 ^ s : Nat) : Int) = (k * 2 ^ s : Nat) := by
  unfold roundUnits
  rw [Int.natAbs_natCast, round_shifted hk]
  generalize k * 2 ^ s = x
  cases x <;> simp

theorem wholeUnits_natCast (n : Nat) : wholeUnits n = n / 2 ^ 149 := by
  unfold wholeUnits
  rw [Int.natCast_tdiv_eq_ediv]
  omega

/-- A significand without a fraction stays as it is in every mode. -/
theorem roundSignificand_whole (mode : TuRoundingMode) {k : Nat} (hk : k < 2 ^ 23) :
    roundSignificand mode ((k * 2 ^ 149 : Nat) : Int) = k := by
  have hwhole : wholeUnits ((k * 2 ^ 149 : Nat) : Int) = k := by
    rw [wholeUnits_natCast]
    omega
  cases mode with
  | rne =>
    have hsum : (((k * 2 ^ 149 : Nat) : Int) + 2 ^ 148) = ((2 * k + 1) * 2 ^ 148 : Nat) := by push_cast; ring
    show wholeUnits (roundUnits (_ + 2 ^ 148)) = k
    rw [hsum, roundUnits_shifted (by omega), wholeUnits_natCast]
    omega
  | rtz => exact hwhole
  | stochastic draw =>
    have hfrac : (((k * 2 ^ 149 : Nat) : Int) % 2 ^ 149).toNat = 0 := by omega
    unfold roundSignificand
    dsimp only
    rw [hfrac, if_neg (by simp [Fp32.round]), hwhole]

namespace Fp8Format

variable {fmt : Fp8Format} {floorLog2f : Nat → Int} {mode : TuRoundingMode}

theorem normal_units {e m : Nat} (he : 1 ≤ e ∧ e ≤ fmt.top) (hm : m < 2 ^ fmt.mantBits) (hlog : floorLog2f (fmt.units e m) = e - fmt.bias) :
    fmt.normal floorLog2f mode (fmt.units e m) = (e, m) := by
  have ht := fmt.small
  have hexp : (max 1 (min (fmt.top : Int) (floorLog2f (fmt.units e m) + fmt.bias))).toNat = e := by omega
  have hone : 2 ^ fmt.mantBits * 2 ^ (149 - fmt.mantBits) = 2 ^ 149 := by rw [← Nat.pow_add]; congr 1; omega
  have hlt : 2 ^ fmt.mantBits ≤ 2 ^ 23 := Nat.pow_le_pow_right (by decide) ht.2.le
  have hunits : fmt.units e m * 2 ^ fmt.bias = (2 ^ fmt.mantBits + m) * 2 ^ (149 - fmt.mantBits) * 2 ^ e := by
    unfold units
    rw [if_neg (by omega), Nat.mul_assoc, Nat.mul_assoc, ← Nat.pow_add, ← Nat.pow_add]
    congr 2
    omega
  have hrest : ((fmt.units e m * 2 ^ fmt.bias / 2 ^ e : Nat) : Int) - 2 ^ 149 = (m * 2 ^ (149 - fmt.mantBits) : Nat) := by
    rw [hunits, Nat.mul_div_cancel _ (Nat.two_pow_pos e), Nat.add_mul, hone]
    omega
  have hscaled : ((m * 2 ^ (149 - fmt.mantBits) : Nat) : Int) * 2 ^ fmt.mantBits = (m * 2 ^ 149 : Nat) := by
    rw [← hone]
    push_cast
    ring
  unfold normal
  dsimp only
  rw [hexp, hrest, roundUnits_shifted (by omega), hscaled, roundSignificand_whole mode (by omega), if_neg (by omega)]

/-- `log2f` is right about the numbers of the format. -/
def LogExact (fmt : Fp8Format) (floorLog2f : Nat → Int) : Prop :=
  ∀ m < 2 ^ fmt.mantBits, ∀ j : Nat, floorLog2f ((2 ^ fmt.mantBits + m) * 2 ^ (j + 1)) = (j : Int) + fmt.mantBits - 148

/-- A finite number of the format that is not taken to be too large. -/
theorem ofFp32_units (hlog : fmt.LogExact floorLog2f) {e m : Nat} (he : e ≤ fmt.top) (hm : m < 2 ^ fmt.mantBits)
    (hsmall : fmt.tooLarge (fmt.units e m) = false) (sign : Bool) :
    fmt.ofFp32 floorLog2f mode (sign, .finite (fmt.units e m)) =
      (if sign = true then 0x80 else 0) + (e * 2 ^ fmt.mantBits + m) := by
  have hbias := fmt.bias_pos
  have ht := fmt.small
  have hlt : 2 ^ fmt.mantBits ≤ 2 ^ 23 := Nat.pow_le_pow_right (by decide) ht.2.le
  unfold ofFp32
  dsimp only
  rw [Int.toNat_natCast, hsmall, if_neg Bool.false_ne_true]
  by_cases hzero : e = 0
  · subst hzero
    have hunits : fmt.units 0 m = m * 2 ^ (150 - fmt.bias - fmt.mantBits) := if_pos rfl
    have hwhole : fmt.units 0 m * 2 ^ (fmt.bias - 1 + fmt.mantBits) = m * 2 ^ 149 := by
      rw [hunits, Nat.mul_assoc, ← Nat.pow_add]
      congr 2
      omega
    have hlow : fmt.units 0 m < 2 ^ (150 - fmt.bias) := by
      calc fmt.units 0 m < 2 ^ fmt.mantBits * 2 ^ (150 - fmt.bias - fmt.mantBits) := by
            rw [hunits]
            exact Nat.mul_lt_mul_of_pos_right hm (Nat.two_pow_pos _)
        _ = 2 ^ (150 - fmt.bias) := by rw [← Nat.pow_add]; congr 1; omega
    rw [hwhole, roundSignificand_whole mode (by omega), if_pos hlow, Nat.min_eq_left (by omega), Nat.zero_mul, Nat.zero_add]
    split
    · rename_i hnone
      rw [hnone, Nat.zero_mul] at hwhole
      omega
    · rfl
  · have hunits : fmt.units e m = (2 ^ fmt.mantBits + m) * 2 ^ (149 - fmt.bias - fmt.mantBits + e) := if_neg hzero
    have hlow : 2 ^ (150 - fmt.bias) ≤ fmt.units e m := by
      calc 2 ^ (150 - fmt.bias) ≤ 2 ^ fmt.mantBits * 2 ^ (149 - fmt.bias - fmt.mantBits + e) := by
            rw [← Nat.pow_add]
            exact Nat.pow_le_pow_right (by decide) (by omega)
        _ ≤ fmt.units e m := by
            rw [hunits]
            exact Nat.mul_le_mul_right _ (Nat.le_add_right _ m)
    have hcast : floorLog2f (fmt.units e m) = e - fmt.bias := by
      obtain ⟨j, hj⟩ : ∃ j, 149 - fmt.bias - fmt.mantBits + e = j + 1 := ⟨148 - fmt.bias - fmt.mantBits + e, by omega⟩
      rw [hunits, hj, hlog m hm]
      omega
    rw [if_neg (by have := Nat.two_pow_pos (150 - fmt.bias); omega), if_neg (by omega),
      normal_units ⟨by omega, he⟩ hm hcast, if_neg (by omega)]

variable (fmt mode) in
/-- What becomes of a code. -/
theorem ofFp32_toFp32 (hlog : fmt.LogExact floorLog2f) {c : Nat} (hc : c < 2 ^ 8) (e m : Nat)
    (he : c / 2 ^ fmt.mantBits % 2 ^ (7 - fmt.mantBits) = e) (hm : c % 2 ^ fmt.mantBits = m) :
    fmt.ofFp32 floorLog2f mode (fmt.toFp32 c) = c / 2 ^ 7 * 2 ^ 7 +
      if e = fmt.top + 1 then (if fmt.infinities && m == 0 then fmt.inf else fmt.nan)
      else if fmt.tooLarge (fmt.units e m) then fmt.inf else e * 2 ^ fmt.mantBits + m := by
  have hsign : (if decide (c / 2 ^ 7 % 2 = 1) = true then 0x80 else 0) = c / 2 ^ 7 * 2 ^ 7 := by
    by_cases hs : c / 2 ^ 7 % 2 = 1
    · rw [decide_eq_true hs, if_pos rfl]
      omega
    · rw [decide_eq_false hs, if_neg Bool.false_ne_true]
      omega
  have hlt : m < 2 ^ fmt.mantBits := hm ▸ Nat.mod_lt c (Nat.two_pow_pos _)
  have htop := fmt.top_eq
  have hle : e < 2 ^ (7 - fmt.mantBits) := he ▸ Nat.mod_lt _ (Nat.two_pow_pos _)
  unfold toFp32
  dsimp only
  rw [he, hm, ← hsign]
  by_cases hspecial : e = fmt.top + 1
  · rw [if_pos hspecial, if_pos hspecial]
    split <;> rfl
  · rw [if_neg hspecial, if_neg hspecial]
    cases hlarge : fmt.tooLarge (fmt.units e m) with
    | false => rw [ofFp32_units hlog (by omega) hlt hlarge, if_neg Bool.false_ne_true]
    | true =>
      have hne : fmt.units e m ≠ 0 := fun h => absurd hlarge (by rw [h, fmt.tooLarge_zero]; exact Bool.false_ne_true)
      unfold ofFp32
      dsimp only
      rw [Int.toNat_natCast, if_neg hne, if_pos hlarge, if_pos rfl]

end Fp8Format

/-- In every mode a code of E4M3 comes back if it is below the largest number or the NaN that the converter gives, and a code
of E5M2 if it is not another NaN; `log2f` has to be right about numbers of four bits. -/
theorem fp8_roundTrip {floorLog2f : Nat → Int} (hlog : ∀ m < 8, ∀ j : Nat, floorLog2f ((8 + m) * 2 ^ j) = (j : Int) - 146)
    (mode : TuRoundingMode) {c : Nat} (hc : c < 2 ^ 8) :
    (tuFp32ToFp8E4m3 floorLog2f mode (tuFp8E4m3ToFp32 c) = c ↔ c % 2 ^ 7 < 0x77 ∨ c % 2 ^ 7 = 0x7F) ∧
      (tuFp32ToFp8E5m2 floorLog2f mode (tuFp8E5m2ToFp32 c) = c ↔ c % 2 ^ 7 ≤ 0x7D) := by
  have hlog₃ : e4m3.LogExact floorLog2f := by
    intro m hm j
    have hj := hlog m hm (j + 1)
    show floorLog2f ((8 + m) * 2 ^ (j + 1)) = (j : Int) + (3 : Nat) - 148
    omega
  have hlog₂ : e5m2.LogExact floorLog2f := by
    intro m hm j
    have hm : m < 4 := hm
    have hj := hlog (2 * m) (by omega) j
    show floorLog2f ((4 + m) * 2 ^ (j + 1)) = (j : Int) + (2 : Nat) - 148
    rw [Nat.pow_succ', ← Nat.mul_assoc, show (4 + m) * 2 = 8 + 2 * m by omega]
    omega
  have hlarge₃ : ∀ e < 15, ∀ m < 8, e4m3.tooLarge (e4m3.units e m) = decide (e = 14 ∧ m = 7) := by decide
  have hlarge₂ : ∀ e < 31, ∀ m < 4, e5m2.tooLarge (e5m2.units e m) = false := by decide
  constructor
  · show e4m3.ofFp32 floorLog2f mode (e4m3.toFp32 c) = c ↔ _
    rw [Fp8Format.ofFp32_toFp32 e4m3 mode hlog₃ hc (c / 8 % 16) (c % 8) rfl rfl]
    show c / 2 ^ 7 * 2 ^ 7 + (if c / 8 % 16 = 15 then 0x7F
      else if e4m3.tooLarge (e4m3.units (c / 8 % 16) (c % 8)) = true then 0x7F else c / 8 % 16 * 8 + c % 8) = c ↔ _
    by_cases hnan : c / 8 % 16 = 15
    · rw [if_pos hnan]
      omega
    · rw [if_neg hnan, hlarge₃ _ (by omega) _ (by omega)]
      simp only [decide_eq_true_eq]
      split <;> omega
  · show e5m2.ofFp32 floorLog2f mode (e5m2.toFp32 c) = c ↔ _
    rw [Fp8Format.ofFp32_toFp32 e5m2 mode hlog₂ hc (c / 4 % 32) (c % 4) rfl rfl]
    show c / 2 ^ 7 * 2 ^ 7 + (if c / 4 % 32 = 31 then (if (true && c % 4 == 0) = true then 0x7C else 0x7D)
      else if e5m2.tooLarge (e5m2.units (c / 4 % 32) (c % 4)) = true then 0x7C else c / 4 % 32 * 4 + c % 4) = c ↔ _
    by_cases hspecial : c / 4 % 32 = 31
    · rw [if_pos hspecial]
      simp only [Bool.true_and, beq_iff_eq]
      split <;> omega
    · rw [if_neg hspecial, hlarge₂ _ (by omega) _ (by omega), if_neg Bool.false_ne_true]
      omega

/-- The largest number of E4M3 is lost, and the code is kept in E5M2. -/
theorem fp8_roundTrip_largest :
    let floorLog2f n : Int := Nat.log 2 n - 149
    tuFp32ToFp8E4m3 floorLog2f .rne (tuFp8E4m3ToFp32 0x77) ≠ 0x77 ∧
      tuFp32ToFp8E5m2 floorLog2f .rne (tuFp8E5m2ToFp32 0x77) = 0x77 := by
  intro floorLog2f
  have hlog : ∀ m < 8, ∀ j : Nat, floorLog2f ((8 + m) * 2 ^ j) = (j : Int) - 146 := by
    intro m hm j
    have h : Nat.log 2 (8 + m) = 3 := (Nat.log_eq_iff (by omega)).2 (by omega)
    show ((Nat.log 2 ((8 + m) * 2 ^ j) : Nat) : Int) - 149 = _
    rw [log_shifted (by omega), h]
    omega
  have h := fp8_roundTrip hlog .rne (show 0x77 < 2 ^ 8 by decide)
  exact ⟨fun heq => absurd (h.1.1 heq) (by decide), h.2.2 (by decide)⟩

end Tusim.Precision
