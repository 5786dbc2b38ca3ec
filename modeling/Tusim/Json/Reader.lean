import Tusim.Lib.JsonGrammar

/-!
# The JSON reader

`tu_json_parse` on the bytes before the terminator; the end of the list is the terminator.  A read behind it is a fault
of its own (`JsonFault.overread`), what comes of it is not modelled.  The depth of nesting is counted down from
`TU_JSON_MAX_DEPTH`.  Allocations succeed; the texts of the errors with their lines and columns are left out.
-/

namespace Tusim.Json

open JsonGrammar

/-- The codes of `tu_json_error_t` that the reader returns. -/
inductive TuJsonError
  | errSyntax
  | errUnexpectedEof
  | errInvalidNumber
  | errInvalidEscape
  | errNestingTooDeep
  | errMissingColon
  | errMissingComma
  deriving DecidableEq, Repr

/-- An error code, or a read behind the terminator. -/
inductive JsonFault
  | error (e : TuJsonError)
  | overread
  deriving DecidableEq, Repr

/-- A string: the bytes written to its buffer, and the length noted beside it. -/
structure JsonString where
  data : Text
  len : UInt32
  deriving DecidableEq, Repr

/-- `tu_json_value_t` -/
inductive TuJsonValue (F : Type)
  | null
  | bool (b : Bool)
  | int (v : Int)
  | double (x : F)
  | string (s : JsonString)
  | array (items : List (TuJsonValue F))
  | object (pairs : List (JsonString × TuJsonValue F))

/-- `TU_JSON_MAX_DEPTH` -/
def tuJsonMaxDepth : Nat := 32

/-- `MAX_ARR` -/
def maxArr : Nat := 128

/-- `MAX_OBJ` -/
def maxObj : Nat := 64

def isWs (c : UInt8) : Bool := c = byte ' ' || c = byte '\t' || c = byte '\n' || c = byte '\r'

def isDigit (c : UInt8) : Bool := c ≥ byte '0' && c ≤ byte '9'

def skipWs (p : Text) : Text := p.dropWhile isWs

/-! ### Strings -/

/-- The first pass of `parse_string`: the length of the string after unescaping, at most. -/
def measure : Text → Nat → Except JsonFault Nat
  | [], _ => .error (.error .errUnexpectedEof)
  | c :: src, len =>
    if c = byte '"' then .ok len
    else if c < 0x20 then .error (.error .errSyntax)
    else if c = byte '\\' then
      match src with
      | [] => .error (.error .errUnexpectedEof)
      | e :: src =>
        if e = byte 'u' then
          match src with
          | _ :: _ :: _ :: _ :: src => measure src (len + 3)
          | _ => .error .overread
        else measure src (len + 1)
    else measure src (len + 1)

theorem measure_quote (src : Text) (len : Nat) : measure (byte '"' :: src) len = .ok len := by
  rw [measure.eq_def]
  exact if_pos rfl

/-- What the second pass takes for a hexadecimal digit; a byte from `0x80` on is a negative `char`. -/
def hexDigit (c : UInt8) : UInt32 :=
  let char : UInt32 := if c < 0x80 then c.toUInt32 else c.toUInt32 - 0x100
  if isDigit c then char - (byte '0').toUInt32
  else if c ≥ byte 'a' && c < 0x80 then char - (byte 'a').toUInt32 + 10
  else char - (byte 'A').toUInt32 + 10

/-- The bytes of an escape with these four digits. -/
def unicodeBytes (a b c d : UInt8) : Text :=
  let cp : UInt32 := [a, b, c, d].foldl (fun cp digit => cp * 16 + hexDigit digit) 0
  let tail (bits : UInt32) : UInt8 := (0x80 : UInt32) ||| (bits &&& 0x3F) |>.toUInt8
  if cp < 0x80 then [cp.toUInt8]
  else if cp < 0x800 then [(0xC0 : UInt32) ||| (cp >>> 6) |>.toUInt8, tail cp]
  else [(0xE0 : UInt32) ||| (cp >>> 12) |>.toUInt8, tail (cp >>> 6), tail cp]

/-- The byte an escape of one letter writes. -/
def simpleEscape (e : UInt8) : Option UInt8 :=
  if e = byte '"' then some (byte '"')
  else if e = byte '\\' then some (byte '\\')
  else if e = byte '/' then some (byte '/')
  else if e = byte 'b' then some 8
  else if e = byte 'f' then some 12
  else if e = byte 'n' then some 10
  else if e = byte 'r' then some 13
  else if e = byte 't' then some 9
  else none

/-- The second pass of `parse_string`: the bytes written and what is behind the closing quote. -/
def unescape : Text → Except JsonFault (Text × Text)
  | [] => .error .overread
  | c :: src =>
    if c = byte '"' then .ok ([], src)
    else if c = byte '\\' then
      match src with
      | [] => .error (.error .errInvalidEscape)
      | e :: src =>
        if e = byte 'u' then
          match src with
          | a :: b :: c :: d :: src => do
            let (data, rest) ← unescape src
            .ok (unicodeBytes a b c d ++ data, rest)
          | _ => .error .overread
        else
          match simpleEscape e with
          | some c => do
            let (data, rest) ← unescape src
            .ok (c :: data, rest)
          | none => .error (.error .errInvalidEscape)
    else do
      let (data, rest) ← unescape src
      .ok (c :: data, rest)

theorem unescape_quote (src : Text) : unescape (byte '"' :: src) = .ok ([], src) := by
  rw [unescape.eq_def]
  exact if_pos rfl

def parseString (p : Text) : Except JsonFault (JsonString × Text) :=
  match p with
  | [] => .error (.error .errSyntax)
  | c :: p =>
    if c ≠ byte '"' then .error (.error .errSyntax)
    else do
      let len ← measure p 0
      let (data, rest) ← unescape p
      .ok (⟨data, UInt32.ofNat len⟩, rest)

/-! ### Numbers -/

/-- The number that digits behind a sign write. -/
def signedDecimal (text : Text) : Int :=
  if text.head? = some (byte '-') then -(decimal (text.tail.takeWhile isDigit) : Int)
  else if text.head? = some (byte '+') then decimal (text.tail.takeWhile isDigit)
  else decimal (text.takeWhile isDigit)

/-- `strtoll` of a decimal text: out of range it gives the nearest bound. -/
def strtoll (text : Text) : Int := max (-2 ^ 63) (min (signedDecimal text) (2 ^ 63 - 1))

/-- `strtod` of a decimal text: the number nearest to it, given its sign and its absolute value. -/
def strtod {F : Type} (round : Bool → Rat → F) (text : Text) : F :=
  let negative := text.head? = some (byte '-')
  let p := if negative then text.tail else text
  let int := p.takeWhile isDigit
  let p := p.dropWhile isDigit
  let point := p.head? = some (byte '.')
  let frac := if point then p.tail.takeWhile isDigit else []
  let p := if point then p.tail.dropWhile isDigit else p
  let exp := if p.head? = some (byte 'e') ∨ p.head? = some (byte 'E') then signedDecimal p.tail else 0
  round negative (decimal (int ++ frac) * 10 ^ (exp - frac.length))

/-- Behind the digits that must come next. -/
def skipDigits (p : Text) : Except JsonFault Text :=
  match p with
  | c :: rest => if isDigit c then .ok (rest.dropWhile isDigit) else .error (.error .errInvalidNumber)
  | [] => .error (.error .errInvalidNumber)

/-- Behind the digits before the point. -/
def skipInt (p : Text) : Except JsonFault Text :=
  if p.head? = some (byte '0') then .ok p.tail else skipDigits p

/-- Behind a fraction, and whether there is one. -/
def skipFrac (p : Text) : Except JsonFault (Bool × Text) :=
  if p.head? = some (byte '.') then (skipDigits p.tail).map (true, ·) else .ok (false, p)

def skipSign (p : Text) : Text := if p.head? = some (byte '+') ∨ p.head? = some (byte '-') then p.tail else p

/-- Behind an exponent, and whether there is one. -/
def skipExp (p : Text) : Except JsonFault (Bool × Text) :=
  if p.head? = some (byte 'e') ∨ p.head? = some (byte 'E') then (skipDigits (skipSign p.tail)).map (true, ·)
  else .ok (false, p)

section

variable {F : Type} (round : Bool → Rat → F)

/-- `parse_number`; the digits are cut off from what follows before they are converted. -/
def parseNumber (start : Text) : Except JsonFault (TuJsonValue F × Text) := do
  let p := if start.head? = some (byte '-') then start.tail else start
  let p ← skipInt p
  let (frac, p) ← skipFrac p
  let (exp, p) ← skipExp p
  let text := start.take (start.length - p.length)
  .ok (if frac || exp then .double (strtod round text) else .int (strtoll text), p)

/-! ### Arrays and objects -/

/-- The loop of `parse_array` and of `parse_object`, with room for so many elements. -/
def parseElements {α : Type} (element : Text → Except JsonFault (α × Text)) (close : UInt8) :
    Nat → Text → Except JsonFault (List α × Text)
  | 0, _ => .error (.error .errNestingTooDeep)
  | room + 1, p => do
    let (a, p) ← element p
    match skipWs p with
    | [] => .error (.error .errMissingComma)
    | c :: p =>
      if c = byte ',' then do
        let (as, p) ← parseElements element close room (skipWs p)
        .ok (a :: as, p)
      else if c = close then .ok ([a], p)
      else .error (.error .errMissingComma)

/-- What is behind an opening bracket. -/
def parseContainer {α : Type} (element : Text → Except JsonFault (α × Text)) (close : UInt8) (room : Nat) (p : Text) :
    Except JsonFault (List α × Text) :=
  let p := skipWs p
  if p.head? = some close then .ok ([], p.tail) else parseElements element close room p

/-- The name, the colon and the value of a member. -/
def parseMember (value : Text → Except JsonFault (TuJsonValue F × Text)) (p : Text) :
    Except JsonFault ((JsonString × TuJsonValue F) × Text) := do
  let (key, p) ← parseString p
  match skipWs p with
  | [] => .error (.error .errMissingColon)
  | c :: p =>
    if c ≠ byte ':' then .error (.error .errMissingColon)
    else do
      let (v, p) ← value (skipWs p)
      .ok ((key, v), p)

/-- `parse_array` behind the bracket and the test of the depth. -/
def parseArray (value : Text → Except JsonFault (TuJsonValue F × Text)) (p : Text) :
    Except JsonFault (TuJsonValue F × Text) := do
  let (items, p) ← parseContainer value (byte ']') maxArr p
  .ok (.array items, p)

/-- `parse_object` behind the brace and the test of the depth. -/
def parseObject (value : Text → Except JsonFault (TuJsonValue F × Text)) (p : Text) :
    Except JsonFault (TuJsonValue F × Text) := do
  let (pairs, p) ← parseContainer (parseMember value) (byte '\x7d') maxObj p
  .ok (.object pairs, p)

/-- `parse_value` with the readers of objects and arrays. -/
def dispatch (object array : Text → Except JsonFault (TuJsonValue F × Text)) (p : Text) :
    Except JsonFault (TuJsonValue F × Text) :=
  match skipWs p with
  | [] => .error (.error .errUnexpectedEof)
  | c :: rest =>
    let p := c :: rest
    if c = byte '"' then (parseString p).map fun (s, p) => (.string s, p)
    else if c = byte '\x7b' then object rest
    else if c = byte '[' then array rest
    else if (bytes ['t', 'r', 'u', 'e']).isPrefixOf p then .ok (.bool true, p.drop 4)
    else if (bytes ['f', 'a', 'l', 's', 'e']).isPrefixOf p then .ok (.bool false, p.drop 5)
    else if (bytes ['n', 'u', 'l', 'l']).isPrefixOf p then .ok (.null, p.drop 4)
    else if c = byte '-' || isDigit c then parseNumber round p
    else .error (.error .errSyntax)

/-- `parse_value` with so many containers left. -/
def parseValue : Nat → Text → Except JsonFault (TuJsonValue F × Text)
  | 0, p => dispatch round (fun _ => .error (.error .errNestingTooDeep))
      (fun _ => .error (.error .errNestingTooDeep)) p
  | room + 1, p => dispatch round (parseObject (parseValue room)) (parseArray (parseValue room)) p

def tuJsonParse (jsonStr : Text) : Except JsonFault (TuJsonValue F) := do
  let (root, p) ← parseValue round tuJsonMaxDepth jsonStr
  if skipWs p = [] then .ok root else .error (.error .errSyntax)

end

end Tusim.Json
