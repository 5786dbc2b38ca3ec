import Mathlib.Algebra.Order.Ring.Nat
import Tusim.Lib.JsonGrammar

/-!
# JSON strings and values

The characters of a string are a list of tokens: a character that stands for itself, in UTF-8, an escape of two
characters, or `\u` and four hexadecimal digits.  Two of the latter that are a surrogate pair mean one code point; a lone
surrogate is a code point of its own.

Key facts:
* `length_utf8_codePoints`: the UTF-8 of a string is two bytes a surrogate pair shorter than that of its tokens one by one.
* `utf8_codePoints`: without pairs it is the same.
-/

namespace JsonGrammar

/-! ### UTF-8 -/

/-- The bytes of a code point. -/
def utf8 (cp : Nat) : Text :=
  if cp < 0x80 then [cp.toUInt8]
  else if cp < 0x800 then [(0xC0 + cp / 0x40).toUInt8, (0x80 + cp % 0x40).toUInt8]
  else if cp < 0x10000 then
    [(0xE0 + cp / 0x1000).toUInt8, (0x80 + cp / 0x40 % 0x40).toUInt8, (0x80 + cp % 0x40).toUInt8]
  else
    [(0xF0 + cp / 0x40000).toUInt8, (0x80 + cp / 0x1000 % 0x40).toUInt8, (0x80 + cp / 0x40 % 0x40).toUInt8,
      (0x80 + cp % 0x40).toUInt8]

def utf8Size (cp : Nat) : Nat := if cp < 0x80 then 1 else if cp < 0x800 then 2 else if cp < 0x10000 then 3 else 4

theorem length_utf8 (cp : Nat) : (utf8 cp).length = utf8Size cp := by
  unfold utf8 utf8Size
  split_ifs <;> rfl

/-! ### Tokens -/

/-- The characters that have an escape of two characters. -/
inductive Escape
  | quote | backslash | slash | backspace | formFeed | lineFeed | carriageReturn | tab
  deriving DecidableEq, Repr

def Escape.letter : Escape → UInt8
  | quote => byte '"'
  | backslash => byte '\\'
  | slash => byte '/'
  | backspace => byte 'b'
  | formFeed => byte 'f'
  | lineFeed => byte 'n'
  | carriageReturn => byte 'r'
  | tab => byte 't'

def Escape.codePoint : Escape → Nat
  | quote => 0x22
  | backslash => 0x5C
  | slash => 0x2F
  | backspace => 8
  | formFeed => 12
  | lineFeed => 10
  | carriageReturn => 13
  | tab => 9

/-- The value of a hexadecimal digit. -/
def hexValue (b : UInt8) : Option Nat :=
  if 0x30 ≤ b ∧ b ≤ 0x39 then some (b.toNat - 0x30)
  else if 0x61 ≤ b ∧ b ≤ 0x66 then some (b.toNat - 0x61 + 10)
  else if 0x41 ≤ b ∧ b ≤ 0x46 then some (b.toNat - 0x41 + 10)
  else none

theorem hexValue_lt {b : UInt8} {v : Nat} (h : hexValue b = some v) : v < 16 := by
  unfold hexValue at h
  split_ifs at h with h₁ h₂ h₃
  · have := UInt8.le_iff_toNat_le.1 h₁.2
    have := Option.some.inj h
    simp at *
    omega
  · have := UInt8.le_iff_toNat_le.1 h₂.2
    have := Option.some.inj h
    simp at *
    omega
  · have := UInt8.le_iff_toNat_le.1 h₃.2
    have := Option.some.inj h
    simp at *
    omega

/-- A hexadecimal digit. -/
def HexDigit : Type := { b : UInt8 // (hexValue b).isSome = true }

def HexDigit.value (d : HexDigit) : Nat := (hexValue d.1).get d.2

theorem HexDigit.value_lt (d : HexDigit) : d.value < 16 := hexValue_lt (Option.some_get d.2).symm

/-- A character that may stand for itself: no control character, no quote, no backslash. -/
def Unescaped : Type := { c : Char // 0x20 ≤ c.toNat ∧ c.toNat ≠ 0x22 ∧ c.toNat ≠ 0x5C }

inductive Token
  | plain (c : Unescaped)
  | escape (e : Escape)
  | unicode (a b c d : HexDigit)

namespace Token

/-- How a token is written. -/
def text : Token → Text
  | plain c => utf8 c.1.toNat
  | escape e => [byte '\\', e.letter]
  | unicode a b c d => [byte '\\', byte 'u', a.1, b.1, c.1, d.1]

/-- The code point, or the half of one. -/
def codePoint : Token → Nat
  | plain c => c.1.toNat
  | escape e => e.codePoint
  | unicode a b c d => ((a.value * 16 + b.value) * 16 + c.value) * 16 + d.value

theorem codePoint_unicode_lt (a b c d : HexDigit) : (unicode a b c d).codePoint < 0x10000 := by
  have ha := a.value_lt
  have hb := b.value_lt
  have hc := c.value_lt
  have hd := d.value_lt
  show ((a.value * 16 + b.value) * 16 + c.value) * 16 + d.value < 0x10000
  omega

/-- What `\u` counts beyond the bytes of its code point, if it counts three. -/
def loss : Token → Nat
  | unicode a b c d => 3 - utf8Size (unicode a b c d).codePoint
  | _ => 0

end Token

def IsHigh (cp : Nat) : Prop := 0xD800 ≤ cp ∧ cp < 0xDC00

def IsLow (cp : Nat) : Prop := 0xDC00 ≤ cp ∧ cp < 0xE000

instance (cp : Nat) : Decidable (IsHigh cp) := inferInstanceAs (Decidable (_ ∧ _))

instance (cp : Nat) : Decidable (IsLow cp) := inferInstanceAs (Decidable (_ ∧ _))

/-- The two are a surrogate pair. -/
def Pairs (cp : Nat) (cps : List Nat) : Prop := IsHigh cp ∧ ∃ low ∈ cps.head?, IsLow low

instance (cp : Nat) (cps : List Nat) : Decidable (Pairs cp cps) :=
  match cps with
  | [] => .isFalse fun h => h.2.elim fun _ h => absurd h.1 (by simp)
  | low :: _ => decidable_of_iff (IsHigh cp ∧ IsLow low) (by simp [Pairs])

/-- A code point before others, joined to the first of them if the two are a surrogate pair. -/
def joinSurrogates (cp : Nat) (cps : List Nat) : List Nat :=
  if Pairs cp cps then (0x10000 + (cp - 0xD800) * 0x400 + (cps.headD 0 - 0xDC00)) :: cps.tail else cp :: cps

/-- The code points of a string. -/
def codePoints : List Token → List Nat
  | [] => []
  | t :: ts => joinSurrogates t.codePoint (codePoints ts)

/-- The number of surrogate pairs. -/
def surrogatePairs : List Token → Nat
  | [] => 0
  | t :: ts => surrogatePairs ts + if Pairs t.codePoint (codePoints ts) then 1 else 0

def tokensText (ts : List Token) : Text := ts.flatMap Token.text

/-- The UTF-8 of tokens, one by one. -/
def tokensUtf8 (ts : List Token) : Text := ts.flatMap fun t => utf8 t.codePoint

def tokensLoss (ts : List Token) : Nat := (ts.map Token.loss).sum

theorem utf8Size_surrogate {cp : Nat} (h : IsHigh cp ∨ IsLow cp) : utf8Size cp = 3 := by
  unfold IsHigh IsLow at h
  unfold utf8Size
  rw [if_neg (by omega), if_neg (by omega), if_pos (by omega)]

/-- The UTF-8 of a string and two bytes a surrogate pair are as many as the UTF-8 of its tokens. -/
theorem length_utf8_codePoints (ts : List Token) :
    ((codePoints ts).flatMap utf8).length + 2 * surrogatePairs ts = (tokensUtf8 ts).length := by
  induction ts with
  | nil => rfl
  | cons t ts ih =>
    have hcons : (tokensUtf8 (t :: ts)).length = utf8Size t.codePoint + (tokensUtf8 ts).length := by
      unfold tokensUtf8
      rw [List.flatMap_cons, List.length_append, length_utf8]
    have hcps : codePoints (t :: ts) = joinSurrogates t.codePoint (codePoints ts) := rfl
    have hcount : surrogatePairs (t :: ts) =
        surrogatePairs ts + if Pairs t.codePoint (codePoints ts) then 1 else 0 := rfl
    rw [hcons, ← ih, hcps, hcount]
    unfold joinSurrogates
    by_cases hpairs : Pairs t.codePoint (codePoints ts)
    · rw [if_pos hpairs, if_pos hpairs]
      obtain ⟨hhigh, low, hlow, hislow⟩ := hpairs
      obtain ⟨rest, hrest⟩ : ∃ rest, codePoints ts = low :: rest := by
        cases h : codePoints ts with
        | nil => rw [h] at hlow; simp at hlow
        | cons low' rest => rw [h] at hlow; exact ⟨rest, by simp_all⟩
      have hsize : utf8Size (0x10000 + (t.codePoint - 0xD800) * 0x400 + (low - 0xDC00)) = 4 := by
        unfold utf8Size
        rw [if_neg (by omega), if_neg (by omega), if_neg (by omega)]
      rw [hrest, List.headD_cons, List.tail_cons, List.flatMap_cons, List.flatMap_cons, List.length_append,
        List.length_append, length_utf8, length_utf8, hsize, utf8Size_surrogate (.inl hhigh),
        utf8Size_surrogate (.inr hislow)]
      omega
    · rw [if_neg hpairs, if_neg hpairs, List.flatMap_cons, List.length_append, length_utf8]
      omega

/-- Without surrogate pairs the tokens may be written one by one. -/
theorem utf8_codePoints {ts : List Token} (h : surrogatePairs ts = 0) :
    (codePoints ts).flatMap utf8 = tokensUtf8 ts := by
  induction ts with
  | nil => rfl
  | cons t ts ih =>
    unfold surrogatePairs at h
    have hnot : ¬ Pairs t.codePoint (codePoints ts) := fun hpairs => by rw [if_pos hpairs] at h; omega
    rw [if_neg hnot] at h
    unfold codePoints joinSurrogates
    rw [if_neg hnot, List.flatMap_cons, ih (by omega)]
    rfl

/-! ### Values -/

/-- The value a text stands for; a string is the list of its code points. -/
inductive JsonValue
  | null
  | bool (b : Bool)
  | number (n : Numeral)
  | string (cps : List Nat)
  | array (items : List JsonValue)
  | object (members : List (List Nat × JsonValue))

/-- The grammar of RFC 8259. -/
def standard : Reading JsonValue (List Nat) where
  chars b cps := ∃ ts, b = tokensText ts ∧ cps = codePoints ts
  number n v := v = .number n
  null := .null
  bool := .bool
  string := .string
  array := .array
  object := .object

end JsonGrammar
