import Tusim.Lib.Word

/-!
# The assembler

`tu_run_asm` on a text that ends with a zero.  The calls to the core are listed in order; `core` gives the bytes that it
stores after them.  A write outside the weight table, or outside the bytes of a section, is an outcome of its own.
-/

namespace Tusim.Asm

open Word

def tuAsmMaxWeights : Nat := 16

/-- `tu_asm_weight_t`; `size` is the length of `data`, whose pointer is null before the first byte. -/
structure AsmWeight where
  name : List Char
  data : List UInt8 := []
  capacity : Nat := 0
  deriving DecidableEq

/-- `tu_host_buffer_t`, with the bytes behind its pointer -/
structure TuHostBuffer where
  name : List Char
  data : Option (List UInt8)
  deriving DecidableEq

/-- The calls to the core. -/
inductive AsmCall
  | init
  | loadW (data : List UInt8) (tuOffset sizeBytes : UInt32)
  | loadA (data : List UInt8) (tuOffset sizeBytes : UInt32)
  | loadO (data : List UInt8) (tuOffset sizeBytes : UInt32)
  | storeO (tuOffset sizeBytes : UInt32)
  | mma (m n k : UInt16) (wOffset aOffset oOffset : UInt32) (hasBias : Bool)
  | sync
  deriving DecidableEq

/-- `tu_asm_state_t`, with the calls so far; `weights` are the first `n_weights` entries of the table. -/
structure AsmState where
  weights : List AsmWeight := []
  hostBufs : List TuHostBuffer
  cursor : List Char
  lineNum : Nat := 1
  calls : List AsmCall := []
  deriving DecidableEq

/-- How a run stops: it returns 0, it returns -1 after a message, or it writes out of bounds. -/
inductive AsmStop
  | done
  | error (line : Nat) (message : String)
  | outOfBounds
  deriving DecidableEq

/-! ### Helpers -/

/-- `*s->cursor` -/
def peek (cursor : List Char) : Char := cursor.headD '\x00'

def isBlank (c : Char) : Bool := c = ' ' || c = '\t' || c = ','

def tuAsmSkipWhitespace (cursor : List Char) : List Char := cursor.dropWhile isBlank

/-- The text after the line. -/
def afterLine (cursor : List Char) : List Char :=
  let cursor := cursor.dropWhile fun c => c != '\x00' && c != '\n'
  if peek cursor = '\n' then cursor.tail else cursor

def AsmState.tuAsmSkipLine (s : AsmState) : AsmState := { s with cursor := afterLine s.cursor, lineNum := s.lineNum + 1 }

/-- `strncmp(cursor, word, n) == 0` for the `n` characters of the word -/
def startsWith (cursor : List Char) (word : String) : Bool := word.toList.isPrefixOf cursor

/-- `strtoul` gives at most `ULONG_MAX`. -/
def tuAsmParseInt (cursor : List Char) : Option (UInt32 × List Char) :=
  let cursor := tuAsmSkipWhitespace cursor
  if !(peek cursor).isDigit then none
  else
    let value := Nat.ofDigitChars 10 (cursor.takeWhile Char.isDigit) 0
    some (UInt32.ofNat (min value (2 ^ 64 - 1)), cursor.dropWhile Char.isDigit)

def isNameChar (c : Char) : Bool := c != '\x00' && c != ' ' && c != '\t' && c != '\n' && c != ',' && c != ';'

def tuAsmParseName (cursor : List Char) (outSz : Nat) : Option (List Char × List Char) :=
  let cursor := tuAsmSkipWhitespace cursor
  let name := cursor.takeWhile isNameChar
  if name.length = 0 ∨ name.length ≥ outSz then none else some (name, cursor.dropWhile isNameChar)

/-- The value of a hexadecimal digit. -/
def hexDigit (c : Char) : Option Nat :=
  if '0' ≤ c ∧ c ≤ '9' then some (c.toNat - '0'.toNat)
  else if 'A' ≤ c ∧ c ≤ 'F' then some (c.toNat - 'A'.toNat + 10)
  else if 'a' ≤ c ∧ c ≤ 'f' then some (c.toNat - 'a'.toNat + 10)
  else none

def tuAsmParseHexByte (cursor : List Char) : Option (UInt8 × List Char) :=
  match tuAsmSkipWhitespace cursor with
  | c :: d :: rest => do
    let high ← hexDigit c
    let low ← hexDigit d
    some (UInt8.ofNat (high * 16 + low), rest)
  | _ => none

/-- The capacity after making room for a byte; it doubles in 32 bits. -/
def AsmWeight.grown (w : AsmWeight) : Nat :=
  if w.data.length ≥ w.capacity then (if w.capacity ≠ 0 then u32 (w.capacity * 2) else 4096) else w.capacity

/-- `tu_asm_weight_append`, unless the new byte lies outside the capacity -/
def AsmWeight.tuAsmWeightAppend (w : AsmWeight) (b : UInt8) : Option AsmWeight :=
  if w.data.length < w.grown then some { w with data := w.data ++ [b], capacity := w.grown } else none

/-- The buffer that a name stands for. -/
inductive AsmBuffer
  | host (i : Nat)
  | weight (i : Nat)

/-- `tu_asm_find_buffer` -/
def AsmState.tuAsmFindBuffer (s : AsmState) (name : List Char) : Option (AsmBuffer × List UInt8) :=
  match s.hostBufs.findIdx? fun b => b.name = name with
  | some i => (s.hostBufs[i]?.bind TuHostBuffer.data).map fun data => (.host i, data)
  | none =>
    (s.weights.findIdx? fun w => w.name = name).bind fun i =>
      s.weights[i]?.bind fun w => if w.data = [] then none else some (.weight i, w.data)

/-! ### Instructions -/

section

variable (core : List AsmCall → List UInt8) (s : AsmState)

/-- The arguments of a transfer with a named buffer. -/
def AsmState.parseTransfer : Except String ((AsmBuffer × List UInt8) × UInt32 × UInt32 × AsmState) := do
  let (name, cursor) ← (tuAsmParseName s.cursor 64).elim (throw "expected buffer name") pure
  let (tuOff, cursor) ← (tuAsmParseInt cursor).elim (throw "expected offset") pure
  let (sizeBytes, cursor) ← (tuAsmParseInt cursor).elim (throw "expected size") pure
  let buf ← (s.tuAsmFindBuffer name).elim (throw ("buffer '" ++ String.ofList name ++ "' not found")) pure
  pure (buf, tuOff, sizeBytes, { s with cursor := cursor })

/-- The last section that has enough data. -/
def AsmState.findWeight (sizeBytes : Nat) : Option (List UInt8) :=
  match s.weights.reverse.find? fun w => sizeBytes ≤ w.data.length with
  | some w => if w.data = [] then none else some w.data
  | none => none

def AsmState.tuAsmExecLoadW : Except String AsmState := do
  let (tuOff, cursor) ← (tuAsmParseInt s.cursor).elim (throw "expected offset") pure
  let (sizeBytes, cursor) ← (tuAsmParseInt cursor).elim (throw "expected size") pure
  let wdata ← (s.findWeight sizeBytes.toNat).elim (throw "no matching weight section") pure
  pure { s with cursor := cursor, calls := s.calls ++ [.loadW wdata tuOff sizeBytes] }

def AsmState.tuAsmExecLoadA : Except String AsmState := do
  let (buf, tuOff, sizeBytes, s) ← s.parseTransfer
  pure { s with calls := s.calls ++ [.loadA buf.2 tuOff sizeBytes] }

def AsmState.tuAsmExecLoadO : Except String AsmState := do
  let (buf, tuOff, sizeBytes, s) ← s.parseTransfer
  pure { s with calls := s.calls ++ [.loadO buf.2 tuOff sizeBytes] }

def AsmState.tuAsmExecMma : Except String AsmState := do
  let (m, cursor) ← (tuAsmParseInt s.cursor).elim (throw "expected M") pure
  let (n, cursor) ← (tuAsmParseInt cursor).elim (throw "expected N") pure
  let (k, cursor) ← (tuAsmParseInt cursor).elim (throw "expected K") pure
  let (wOff, cursor) ← (tuAsmParseInt cursor).elim (throw "expected w_offset") pure
  let (aOff, cursor) ← (tuAsmParseInt cursor).elim (throw "expected a_offset") pure
  let (oOff, cursor) ← (tuAsmParseInt cursor).elim (throw "expected o_offset") pure
  let (flag, cursor) ← (tuAsmParseName cursor 16).elim (throw "expected BIAS/NOBIAS") pure
  let hasBias := flag = "BIAS".toList
  if !hasBias ∧ flag ≠ "NOBIAS".toList then throw ("expected BIAS or NOBIAS, got '" ++ String.ofList flag ++ "'")
  else
    pure { s with cursor := cursor, calls := s.calls ++ [.mma m.toUInt16 n.toUInt16 k.toUInt16 wOff aOff oOff hasBias] }

/-- What a store leaves of a buffer; bytes past its end are lost. -/
def overwrite (data bytes : List UInt8) : List UInt8 := bytes.take data.length ++ data.drop bytes.length

def AsmState.writeBuffer (buf : AsmBuffer) (bytes : List UInt8) : AsmState :=
  match buf with
  | .host i => { s with hostBufs := s.hostBufs.modify i fun b => { b with data := b.data.map (overwrite · bytes) } }
  | .weight i => { s with weights := s.weights.modify i fun w => { w with data := overwrite w.data bytes } }

def AsmState.tuAsmExecStoreO : Except String AsmState := do
  let (buf, tuOff, sizeBytes, s) ← s.parseTransfer
  let calls := s.calls ++ [.storeO tuOff sizeBytes]
  pure { s.writeBuffer buf.1 (core calls) with calls := calls }

/-! ### The run -/

/-- The lines of a section up to its end; each round takes at least one character. -/
def weightLoop : Nat → AsmState → AsmWeight → Option (AsmState × AsmWeight)
  | 0, s, w => some (s, w)
  | rounds + 1, s, w =>
    if peek s.cursor = '\x00' then some (s, w)
    else
      let s := { s with cursor := tuAsmSkipWhitespace s.cursor }
      if peek s.cursor = '\n' then weightLoop rounds { s with cursor := s.cursor.tail, lineNum := s.lineNum + 1 } w
      else if peek s.cursor = '\x00' then some (s, w)
      else if startsWith s.cursor "%endweight" then some ({ s with cursor := s.cursor.drop 10 }.tuAsmSkipLine, w)
      else if peek s.cursor = ';' then weightLoop rounds s.tuAsmSkipLine w
      else
        match tuAsmParseHexByte s.cursor with
        | some (b, cursor) => (w.tuAsmWeightAppend b).bind fun w => weightLoop rounds { s with cursor := cursor } w
        | none => weightLoop rounds { s with cursor := s.cursor.tail } w

/-- The `%weight` directive; clearing a table entry that does not exist is the first thing done. -/
def AsmState.openWeight : Except AsmStop AsmState :=
  if s.weights.length ≥ tuAsmMaxWeights then throw .outOfBounds
  else
    match tuAsmParseName (s.cursor.drop 7) 64 with
    | none => throw (.error s.lineNum "%weight: expected name")
    | some (name, cursor) =>
      let s := { s with cursor := cursor }.tuAsmSkipLine
      match weightLoop s.cursor.length s { name := name } with
      | none => throw .outOfBounds
      | some (s, w) => pure { s with weights := s.weights ++ [w] }

/-- The instruction at the cursor. -/
def AsmState.execInstruction : Except String AsmState :=
  if startsWith s.cursor "LOAD_W" then { s with cursor := s.cursor.drop 6 }.tuAsmExecLoadW
  else if startsWith s.cursor "LOAD_A" then { s with cursor := s.cursor.drop 6 }.tuAsmExecLoadA
  else if startsWith s.cursor "LOAD_O" then { s with cursor := s.cursor.drop 6 }.tuAsmExecLoadO
  else if startsWith s.cursor "STORE_O" then { s with cursor := s.cursor.drop 7 }.tuAsmExecStoreO core
  else if startsWith s.cursor "MMA" then { s with cursor := s.cursor.drop 3 }.tuAsmExecMma
  else if startsWith s.cursor "SYNC" then pure { s with cursor := s.cursor.drop 4, calls := s.calls ++ [.sync] }
  else throw ("unknown instruction: " ++ String.ofList ((s.cursor.takeWhile (· != '\x00')).take 20))

/-- One round of the loop of `tu_run_asm`. -/
def AsmState.step : Except AsmStop AsmState :=
  if peek s.cursor = '\x00' then throw .done
  else
    let s := { s with cursor := tuAsmSkipWhitespace s.cursor }
    if peek s.cursor = '\n' then pure { s with cursor := s.cursor.tail, lineNum := s.lineNum + 1 }
    else if peek s.cursor = '\x00' then throw .done
    else if peek s.cursor = ';' then pure s.tuAsmSkipLine
    else if startsWith s.cursor "%weight" then s.openWeight
    else if startsWith s.cursor "%input" ∨ startsWith s.cursor "%output" then pure s.tuAsmSkipLine
    else
      match s.execInstruction core with
      | .ok s => pure s.tuAsmSkipLine
      | .error message => throw (.error s.lineNum message)

def asmLoop : Nat → AsmState → AsmState × AsmStop
  | 0, s => (s, .done)
  | rounds + 1, s =>
    match s.step core with
    | .ok s => asmLoop rounds s
    | .error stop => (s, stop)

def AsmState.start (program : List Char) (buffers : List TuHostBuffer) : AsmState :=
  { hostBufs := buffers, cursor := program, calls := [.init] }

/-- `tu_run_asm`, with the last state; a round takes at least one character. -/
def tuRunAsm (program : List Char) (buffers : List TuHostBuffer) : AsmState × AsmStop :=
  asmLoop core (program.length + 1) (AsmState.start program buffers)

end

end Tusim.Asm
