import Mathlib.Data.Nat.Bitwise
import Mathlib.Data.Nat.Log
import Tusim.Lib.FloatLadder

/-!
# Half precision and rounding

`tuFp16ToFp32` gives the single-precision pattern of a half-precision pattern.  `Fp32` are the values of
single-precision patterns: a finite one is a multiple of `2 ^ -149`, and both zeros are the same value.  Subtraction
rounds the exact difference to the nearest value, ties to the even significand; comparisons with a NaN are false.

`tu_round_apply` and `tu_round_fp32_to_mantissa` round away the low bits of a significand in the selected mode.  In the
mode to nearest this is `roundShift`, and the carry says that the result has one bit too many
(`tuRoundFp32ToMantissa_rne`).  Patterns are numbers, their fields are cut out as in the source.
-/

namespace Tusim

/-- The loop that moves the leading bit of a subnormal significand to bit 10; ten rounds are enough. -/
def normalizeSubnormal : Nat → UInt32 → UInt32 → UInt32 × UInt32
  | 0, m, e => (m, e)
  | n + 1, m, e => if m &&& 0x400 = 0 then normalizeSubnormal n (m <<< 1) (e - 1) else (m, e)

/-- The exponent is biased as in the result. -/
def tuFp16ToFp32 (h : UInt16) : UInt32 :=
  let h := h.toUInt32
  let sign := (h >>> 15) &&& 1
  let exp := (h >>> 10) &&& 0x1F
  let mant := h &&& 0x3FF
  if exp = 0 then
    if mant = 0 then sign <<< 31
    else
      let r := normalizeSubnormal 10 mant (127 - 14)
      (sign <<< 31) ||| (r.2 <<< 23) ||| ((r.1 &&& 0x3FF) <<< 13)
  else if exp = 0x1F then (sign <<< 31) ||| ((0xFF : UInt32) <<< 23) ||| (mant <<< 13)
  else (sign <<< 31) ||| ((exp - 15 + 127) <<< 23) ||| (mant <<< 13)

/-- The value of a single-precision pattern; the unit of a finite one is `2 ^ -149`. -/
inductive Fp32
  | nan
  | inf (negative : Bool)
  | finite (units : Int)
deriving DecidableEq, Repr

namespace Fp32

def ofBits (bits : UInt32) : Fp32 :=
  let exp : Nat := bits.toNat / 2 ^ 23 % 2 ^ 8
  let mant : Nat := bits.toNat % 2 ^ 23
  let negative : Bool := bits.toNat ≥ 2 ^ 31
  if exp = 255 then
    if mant = 0 then .inf negative else .nan
  else
    let m : Nat := if exp = 0 then mant else (2 ^ 23 + mant) * 2 ^ (exp - 1)
    .finite (if negative then -(m : Int) else m)

/-- The nearest number of 24 significant bits, ties to even. -/
def round (m : Nat) : Nat :=
  if m < 2 ^ 24 then m
  else
    let s := Nat.log 2 m - 23
    let q := m / 2 ^ s
    let r := m % 2 ^ s
    let q := if 2 * r > 2 ^ s ∨ (2 * r = 2 ^ s ∧ q % 2 = 1) then q + 1 else q
    q * 2 ^ s

/-- Values from `2 ^ 128` on are infinite. -/
def sub : Fp32 → Fp32 → Fp32
  | .nan, _ => .nan
  | _, .nan => .nan
  | .inf a, .inf b => if a = b then .nan else .inf a
  | .inf a, .finite _ => .inf a
  | .finite _, .inf b => .inf !b
  | .finite a, .finite b =>
    let m := round (a - b).natAbs
    if m ≥ 2 ^ 277 then .inf (a - b < 0) else .finite (if a - b < 0 then -(m : Int) else m)

def abs : Fp32 → Fp32
  | .nan => .nan
  | .inf _ => .inf false
  | .finite a => .finite a.natAbs

def le : Fp32 → Fp32 → Bool
  | .nan, _ => false
  | _, .nan => false
  | .inf a, .inf b => a || !b
  | .inf a, .finite _ => a
  | .finite _, .inf b => !b
  | .finite a, .finite b => a ≤ b

def lt : Fp32 → Fp32 → Bool
  | .nan, _ => false
  | _, .nan => false
  | .inf a, .inf b => a && !b
  | .inf a, .finite _ => a
  | .finite _, .inf b => !b
  | .finite a, .finite b => a < b

end Fp32

end Tusim

namespace Tusim.Precision

open FloatLadder

/-- A stochastic rounding has the 53 bits that it draws: `prng_uniform` is `2 ^ -53` times this number. -/
inductive TuRoundingMode where
  | rne | rtz
  | stochastic (draw : Nat)
  deriving DecidableEq, Repr

inductive TuSubnormalMode where
  | full | flush
  deriving DecidableEq, Repr

/-- The switch on the mode: an integer part and a fraction of `bits` bits. -/
def roundFraction (mode : TuRoundingMode) (integerPart fractional bits : Nat) : Nat :=
  let half := 1 <<< (bits - 1)
  match mode with
  | .rne =>
    if fractional > half then integerPart + 1
    else if fractional = half then
      if integerPart &&& 1 ≠ 0 then integerPart + 1 else integerPart
    else integerPart
  | .rtz => integerPart
  | .stochastic draw =>
    if fractional > 0 ∧ draw * 2 ^ bits < fractional * 2 ^ 53 then integerPart + 1 else integerPart

/-- The components are the significand and the carry. -/
def tuRoundApply (mode : TuRoundingMode) (mantissa targetBits : Nat) : Nat × Bool :=
  if targetBits = 0 then (0, false)
  else
    let integerPart := mantissa >>> targetBits
    let fractional := mantissa &&& (1 <<< targetBits - 1)
    let result := roundFraction mode integerPart fractional targetBits
    if result ≥ 1 <<< targetBits then (result >>> 1, true) else (result, false)

def tuRoundFp32ToMantissa (mode : TuRoundingMode) (fp32Mantissa targetBits : Nat) : Nat × Bool :=
  let discardBits := 23 - targetBits
  if discardBits = 0 then (fp32Mantissa, false)
  else
    let integerPart := fp32Mantissa >>> discardBits
    let fractional := fp32Mantissa &&& (1 <<< discardBits - 1)
    let result := roundFraction mode integerPart fractional discardBits
    if result ≥ 1 <<< targetBits then (result >>> 1, true) else (result, false)

theorem and_low (m bits : Nat) : m &&& (1 <<< bits - 1) = m % 2 ^ bits := by
  rw [Nat.one_shiftLeft, Nat.and_two_pow_sub_one_eq_mod]

theorem roundFraction_rne {bits : Nat} (hbits : 0 < bits) (m : Nat) :
    roundFraction .rne (m >>> bits) (m &&& (1 <<< bits - 1)) bits = roundShift bits m := by
  have hpred : bits - 1 + 1 = bits := by omega
  have hhalf : 2 * 1 <<< (bits - 1) = 2 ^ bits := by
    calc 2 * 1 <<< (bits - 1) = 2 * 2 ^ (bits - 1) := by rw [Nat.one_shiftLeft]
      _ = 2 ^ (bits - 1 + 1) := Nat.pow_succ'.symm
      _ = 2 ^ bits := by rw [hpred]
  have hodd : m / 2 ^ bits &&& 1 ≠ 0 ↔ m / 2 ^ bits % 2 = 1 := by
    rw [Nat.and_one_is_mod]
    exact Nat.mod_two_ne_zero
  unfold roundFraction roundShift
  dsimp only
  rw [and_low, Nat.shiftRight_eq_div_pow]
  generalize 1 <<< (bits - 1) = half at *
  rcases Nat.lt_trichotomy (m % 2 ^ bits) half with hlt | heq | hgt
  · rw [if_neg (by omega), if_neg (by omega), if_neg (by omega)]
  · rw [if_neg (by omega), if_pos heq]
    by_cases hone : m / 2 ^ bits % 2 = 1
    · rw [if_pos (hodd.2 hone), if_pos (by omega)]
    · rw [if_neg (fun h => hone (hodd.1 h)), if_neg (by omega)]
  · rw [if_pos (by omega), if_pos (by omega)]

/-- Rounding a significand to nearest. -/
theorem tuRoundFp32ToMantissa_rne {t s : Nat} (hts : t + s = 23) (hs : 0 < s) (m : Nat) :
    tuRoundFp32ToMantissa .rne m t =
      if 2 ^ t ≤ roundShift s m then (roundShift s m / 2, true) else (roundShift s m, false) := by
  have hdiscard : 23 - t = s := by omega
  unfold tuRoundFp32ToMantissa
  rw [hdiscard]
  dsimp only
  rw [if_neg (Nat.ne_of_gt hs), roundFraction_rne hs, Nat.one_shiftLeft]
  rfl

/-! ### The fields of a pattern -/

def signBit (bits : UInt32) : Nat := bits.toNat >>> 31 &&& 1

/-- The biased exponent. -/
def expField (bits : UInt32) : Nat := bits.toNat >>> 23 &&& 0xFF

def mantField (bits : UInt32) : Nat := bits.toNat &&& 0x7FFFFF

/-- The pattern of the magnitude. -/
def unsigned (bits : UInt32) : Nat := bits.toNat % 2 ^ 31

def isNan (bits : UInt32) : Bool := expField bits = 0xFF && mantField bits ≠ 0

def isInf (bits : UInt32) : Bool := expField bits = 0xFF && mantField bits = 0

theorem mantField_lt (bits : UInt32) : mantField bits < 2 ^ 23 := Nat.and_lt_two_pow _ (by decide)

theorem signBit_lt (bits : UInt32) : signBit bits < 2 := Nat.and_lt_two_pow (n := 1) _ (by decide)

theorem unsigned_eq (bits : UInt32) : unsigned bits = 2 ^ 23 * expField bits + mantField bits := by
  have hexp : expField bits = bits.toNat / 2 ^ 23 % 2 ^ 8 := by
    unfold expField
    rw [Nat.shiftRight_eq_div_pow]
    exact Nat.and_two_pow_sub_one_eq_mod _ 8
  have hmant : mantField bits = bits.toNat % 2 ^ 23 := Nat.and_two_pow_sub_one_eq_mod _ 23
  rw [hexp, hmant]
  unfold unsigned
  omega

/-- A sign, an exponent of `w` bits and a significand of `t` bits put together. -/
theorem or_fields {t w e m : Nat} (sign : Nat) (he : e < 2 ^ w) (hm : m < 2 ^ t) :
    sign <<< (t + w) ||| e <<< t ||| m = 2 ^ (t + w) * sign + (2 ^ t * e + m) := by
  have hlow : e <<< t ||| m = 2 ^ t * e + m := by
    rw [← Nat.shiftLeft_add_eq_or_of_lt hm, Nat.shiftLeft_eq, Nat.mul_comm]
  have hlt : 2 ^ t * e + m < 2 ^ (t + w) := by
    have hle : 2 ^ t * (e + 1) ≤ 2 ^ t * 2 ^ w := Nat.mul_le_mul_left _ he
    rw [Nat.mul_succ] at hle
    rw [Nat.pow_add]
    omega
  rw [Nat.or_assoc, hlow, ← Nat.shiftLeft_add_eq_or_of_lt hlt, Nat.shiftLeft_eq, Nat.mul_comm]

end Tusim.Precision
