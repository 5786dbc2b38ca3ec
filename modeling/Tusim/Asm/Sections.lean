import Mathlib.Logic.Relation
import Tusim.Asm.Assembler

/-!
# The weight sections of a program

The lines of a section are a text of their own (`SectionText`), and the loop over them appends its bytes one by one
(`weightLoop_text`) until the capacity wraps at 2^31.  A program is read in bounds, and each of its sections can be loaded,
exactly if it opens at most 16 sections and none of them is empty or longer than that.
-/

namespace Tusim.Asm

open Word Relation

/-! ### The text of a section -/

/-- The bytes of a section that begins here, and the text after it. -/
inductive SectionText : List Char → List UInt8 → List Char → Prop
  | textEnds {text : List Char} : peek text = '\x00' → SectionText text [] text
  | sectionEnds (rest : List Char) : SectionText ("%endweight".toList ++ rest) [] (afterLine rest)
  | space {c : Char} {rest : List Char} {bytes : List UInt8} {after : List Char} :
      isBlank c = true ∨ c = '\n' → SectionText rest bytes after → SectionText (c :: rest) bytes after
  | comment {rest : List Char} {bytes : List UInt8} {after : List Char} :
      SectionText (afterLine (';' :: rest)) bytes after → SectionText (';' :: rest) bytes after
  | byte {c d : Char} {high low : Nat} {rest : List Char} {bytes : List UInt8} {after : List Char} :
      hexDigit c = some high → hexDigit d = some low → SectionText rest bytes after →
        SectionText (c :: d :: rest) (UInt8.ofNat (high * 16 + low) :: bytes) after
  | skipped {c : Char} {rest : List Char} {bytes : List UInt8} {after : List Char} :
      isBlank c = false → c ≠ '\n' → c ≠ '\x00' → c ≠ ';' → startsWith (c :: rest) "%endweight" = false →
        (hexDigit c = none ∨ hexDigit (peek rest) = none) → SectionText rest bytes after → SectionText (c :: rest) bytes after

/-! ### Cursors -/

theorem length_dropWhile_le {p : Char → Bool} (cursor : List Char) : (cursor.dropWhile p).length ≤ cursor.length :=
  (List.dropWhile_suffix p).length_le

theorem length_afterLine_le (cursor : List Char) : (afterLine cursor).length ≤ cursor.length := by
  have hdrop := length_dropWhile_le (p := fun c => c != '\x00' && c != '\n') cursor
  unfold afterLine
  dsimp only
  split
  · rw [List.length_tail]
    omega
  · exact hdrop

theorem length_afterLine_cons (c : Char) (hc : c ≠ '\x00') (rest : List Char) :
    (afterLine (c :: rest)).length ≤ rest.length := by
  by_cases hline : c = '\n'
  · subst hline
    exact le_refl rest.length
  · have hkeep : (c != '\x00' && c != '\n') = true := by simp [hc, hline]
    have heq : afterLine (c :: rest) = afterLine rest := by
      unfold afterLine
      rw [List.dropWhile_cons]
      simp only [hkeep, if_true]
    rw [heq]
    exact length_afterLine_le rest

theorem startsWith_iff {cursor : List Char} {word : String} :
    startsWith cursor word = true ↔ ∃ rest, cursor = word.toList ++ rest := by
  unfold startsWith
  rw [List.isPrefixOf_iff_prefix]
  exact ⟨fun ⟨rest, h⟩ => ⟨rest, h.symm⟩, fun ⟨rest, h⟩ => ⟨rest, h.symm⟩⟩

theorem skipWhitespace_of_not_blank {cursor : List Char} (h : isBlank (peek cursor) = false) :
    tuAsmSkipWhitespace cursor = cursor := by
  cases cursor with
  | nil => rfl
  | cons c rest => exact List.dropWhile_cons_of_neg (by rw [show isBlank c = false from h]; decide)

/-- Every text has the form of a section. -/
theorem exists_sectionText (text : List Char) : ∃ bytes after, SectionText text bytes after := by
  induction hn : text.length using Nat.strong_induction_on generalizing text with
  | _ n ih =>
    cases text with
    | nil => exact ⟨[], [], .textEnds rfl⟩
    | cons c rest =>
      have hrest : rest.length < n := by
        rw [← hn]
        exact Nat.lt_succ_self _
      obtain ⟨bytes, after, htext⟩ := ih _ hrest rest rfl
      by_cases hzero : c = '\x00'
      · exact ⟨[], c :: rest, .textEnds hzero⟩
      by_cases hspace : isBlank c = true ∨ c = '\n'
      · exact ⟨bytes, after, .space hspace htext⟩
      rw [not_or, Bool.not_eq_true] at hspace
      by_cases hend : startsWith (c :: rest) "%endweight" = true
      · obtain ⟨tail, heq⟩ := startsWith_iff.1 hend
        rw [heq]
        exact ⟨[], afterLine tail, .sectionEnds tail⟩
      rw [Bool.not_eq_true] at hend
      by_cases hcomment : c = ';'
      · subst hcomment
        have hline := length_afterLine_cons ';' (by decide) rest
        obtain ⟨bytes, after, htext⟩ := ih _ (by omega) (afterLine (';' :: rest)) rfl
        exact ⟨bytes, after, .comment htext⟩
      cases hhigh : hexDigit c with
      | none => exact ⟨bytes, after, .skipped hspace.1 hspace.2 hzero hcomment hend (Or.inl hhigh) htext⟩
      | some high =>
        cases rest with
        | nil => exact ⟨bytes, after, .skipped hspace.1 hspace.2 hzero hcomment hend (Or.inr (by decide)) htext⟩
        | cons d rest =>
          cases hlow : hexDigit d with
          | none => exact ⟨bytes, after, .skipped hspace.1 hspace.2 hzero hcomment hend (Or.inr hlow) htext⟩
          | some low =>
            obtain ⟨bytes, after, htext⟩ := ih _ (Nat.lt_of_succ_lt hrest) rest rfl
            exact ⟨_, after, .byte hhigh hlow htext⟩

/-! ### The bytes of a section -/

/-- The capacities that doubling reaches. -/
structure AsmWeight.CapacityOk (w : AsmWeight) : Prop where
  reached : w.capacity = 0 ∨ ∃ k ≤ 19, w.capacity = 4096 * 2 ^ k
  filled : w.data.length ≤ w.capacity

theorem AsmWeight.CapacityOk.length_le {w : AsmWeight} (h : w.CapacityOk) : w.data.length ≤ 2 ^ 31 := by
  have hfilled := h.filled
  rcases h.reached with hzero | ⟨k, hk, hcap⟩
  · omega
  · have hle : 2 ^ k ≤ 2 ^ 19 := Nat.pow_le_pow_right (by omega) hk
    omega

theorem grown_of_capacityOk {w : AsmWeight} (h : w.CapacityOk) (hlt : w.data.length < 2 ^ 31) :
    w.data.length < w.grown ∧ ∃ k ≤ 19, w.grown = 4096 * 2 ^ k := by
  have hfilled := h.filled
  unfold AsmWeight.grown
  rcases h.reached with hzero | ⟨k, hk, hcap⟩
  · rw [if_pos (by omega), if_neg (not_not.2 hzero)]
    exact ⟨by omega, 0, by omega, rfl⟩
  · by_cases hfull : w.data.length ≥ w.capacity
    · have hpos : 0 < 2 ^ k := Nat.two_pow_pos k
      -- the last capacity is not full yet
      have hnext : k + 1 ≤ 19 := by
        rcases Nat.lt_or_ge k 19 with hlt' | hge
        · exact hlt'
        · have heq : k = 19 := by omega
          subst heq
          omega
      have hdouble : u32 (w.capacity * 2) = 4096 * 2 ^ (k + 1) := by
        have hle : 2 ^ (k + 1) ≤ 2 ^ 19 := Nat.pow_le_pow_right (by omega) hnext
        rw [hcap, Nat.mul_assoc, ← Nat.pow_succ]
        exact u32_of_lt (by omega)
      rw [if_pos hfull, if_pos (by omega), hdouble]
      exact ⟨by rw [Nat.pow_succ]; omega, k + 1, hnext, rfl⟩
    · rw [if_neg hfull]
      exact ⟨by omega, k, hk, hcap⟩

theorem append_fits {w : AsmWeight} (h : w.CapacityOk) (hlt : w.data.length < 2 ^ 31) (b : UInt8) :
    ∃ w', w.tuAsmWeightAppend b = some w' ∧ w'.CapacityOk ∧ w'.name = w.name ∧ w'.data = w.data ++ [b] := by
  obtain ⟨hroom, hreached⟩ := grown_of_capacityOk h hlt
  refine ⟨_, if_pos hroom, ⟨Or.inr hreached, ?_⟩, rfl, rfl⟩
  rw [List.length_append]
  exact hroom

/-- At 2^31 bytes the doubled capacity wraps to none. -/
theorem append_full {w : AsmWeight} (h : w.CapacityOk) (hge : 2 ^ 31 ≤ w.data.length) (b : UInt8) :
    w.tuAsmWeightAppend b = none := by
  have hfilled := h.filled
  rcases h.reached with hzero | ⟨k, hk, hcap⟩
  · omega
  · have hle : 2 ^ k ≤ 2 ^ 19 := Nat.pow_le_pow_right (by omega) hk
    have hgrown : w.grown = 0 := by
      unfold AsmWeight.grown
      rw [if_pos (by omega), if_pos (by omega), show w.capacity * 2 = 2 ^ 32 by omega]
      rfl
    unfold AsmWeight.tuAsmWeightAppend
    rw [hgrown, if_neg (Nat.not_lt_zero _)]

/-! ### The loop over a section -/

/-- What a round does with a character that is neither the end of the text nor blank. -/
theorem weightLoop_succ {n : Nat} {s : AsmState} {w : AsmWeight} (hzero : peek s.cursor ≠ '\x00')
    (hblank : isBlank (peek s.cursor) = false) :
    weightLoop (n + 1) s w =
      if peek s.cursor = '\n' then weightLoop n { s with cursor := s.cursor.tail, lineNum := s.lineNum + 1 } w
      else if startsWith s.cursor "%endweight" then some ({ s with cursor := s.cursor.drop 10 }.tuAsmSkipLine, w)
      else if peek s.cursor = ';' then weightLoop n s.tuAsmSkipLine w
      else
        match tuAsmParseHexByte s.cursor with
        | some (b, cursor) => (w.tuAsmWeightAppend b).bind fun w => weightLoop n { s with cursor := cursor } w
        | none => weightLoop n { s with cursor := s.cursor.tail } w := by
  rw [weightLoop]
  simp only [skipWhitespace_of_not_blank hblank, if_neg hzero] <;> rfl

/-- Blanks are skipped before anything else. -/
theorem weightLoop_blank {n : Nat} {s : AsmState} {w : AsmWeight} {c : Char} {rest : List Char} (hc : isBlank c = true) :
    weightLoop (n + 1) { s with cursor := c :: rest } w = weightLoop (n + 1) { s with cursor := rest } w := by
  have hskip : tuAsmSkipWhitespace (c :: rest) = tuAsmSkipWhitespace rest := List.dropWhile_cons_of_pos hc
  have hzero : ¬ peek (c :: rest) = '\x00' := by
    intro hzero
    rw [show c = '\x00' from hzero] at hc
    exact absurd hc (by decide)
  rw [weightLoop, if_neg hzero, weightLoop]
  dsimp only
  rw [hskip]
  by_cases hend : peek rest = '\x00'
  · have hrest : tuAsmSkipWhitespace rest = rest := skipWhitespace_of_not_blank (by rw [hend]; decide)
    rw [if_pos hend, hrest, hend, if_neg (by decide), if_pos rfl]
  · rw [if_neg hend]

theorem isBlank_of_hexDigit {c : Char} {v : Nat} (h : hexDigit c = some v) :
    isBlank c = false ∧ c ≠ '\n' ∧ c ≠ '\x00' ∧ c ≠ ';' ∧ c ≠ '%' := by
  have hnone : ∀ c ∈ [' ', '\t', ',', '\n', '\x00', ';', '%'], hexDigit c = none := by
    intro c hc
    simp only [List.mem_cons, List.not_mem_nil, or_false] at hc
    rcases hc with rfl | rfl | rfl | rfl | rfl | rfl | rfl <;> rfl
  have hnot : c ∉ [' ', '\t', ',', '\n', '\x00', ';', '%'] := by
    intro hmem
    rw [hnone c hmem] at h
    exact absurd h nofun
  simp only [List.mem_cons, not_or] at hnot
  obtain ⟨hspace, htab, hcomma, hline, hzero, hcomment, hpercent, -⟩ := hnot
  exact ⟨by simp [isBlank, hspace, htab, hcomma], hline, hzero, hcomment, hpercent⟩

theorem parseHexByte_of_not_blank {c : Char} (hc : isBlank c = false) (rest : List Char) :
    tuAsmParseHexByte (c :: rest) =
      match rest with
      | d :: rest => (hexDigit c).bind fun high => (hexDigit d).bind fun low => some (UInt8.ofNat (high * 16 + low), rest)
      | [] => none := by
  unfold tuAsmParseHexByte
  rw [@skipWhitespace_of_not_blank (c :: rest) hc]
  cases rest <;> rfl

/-- The loop appends the bytes of the section, unless the capacity wraps. -/
theorem weightLoop_text {text : List Char} {bytes : List UInt8} {after : List Char} (h : SectionText text bytes after)
    {n : Nat} (hn : text.length ≤ n) {s : AsmState} (hs : s.cursor = text) {w : AsmWeight} (hw : w.CapacityOk) :
    (w.data.length + bytes.length ≤ 2 ^ 31 → ∃ line w', weightLoop n s w = some ({ s with cursor := after, lineNum := line }, w') ∧
      w'.name = w.name ∧ w'.data = w.data ++ bytes) ∧
      (2 ^ 31 < w.data.length + bytes.length → weightLoop n s w = none) := by
  have hlength := hw.length_le
  induction h generalizing n s w with
  | textEnds hend =>
    subst hs
    have hstop : weightLoop n s w = some (s, w) := by
      cases n with
      | zero => rfl
      | succ n => rw [weightLoop, if_pos hend]
    exact ⟨fun _ => ⟨s.lineNum, w, hstop, rfl, (List.append_nil _).symm⟩, fun hlong => absurd hlong (Nat.not_lt.2 hlength)⟩
  | sectionEnds rest =>
    cases n with
    | zero => exact absurd hn (by simp)
    | succ n =>
      have hpeek : peek s.cursor = '%' := by rw [hs]; rfl
      have hstarts : startsWith s.cursor "%endweight" = true := startsWith_iff.2 ⟨rest, hs⟩
      have hdrop : s.cursor.drop 10 = rest := by rw [hs]; rfl
      rw [weightLoop_succ (by rw [hpeek]; decide) (by rw [hpeek]; decide), hpeek, if_neg (by decide), if_pos hstarts, hdrop]
      exact ⟨fun _ => ⟨s.lineNum + 1, w, rfl, rfl, (List.append_nil _).symm⟩,
        fun hlong => absurd hlong (Nat.not_lt.2 hlength)⟩
  | @space c rest bytes after hc _ ih =>
    cases n with
    | zero => exact absurd hn (by simp)
    | succ n =>
      rw [List.length_cons] at hn
      rcases hc with hblank | rfl
      · have hskip : weightLoop (n + 1) s w = weightLoop (n + 1) { s with cursor := rest } w := by
          have heq : s = { s with cursor := c :: rest } := by rw [← hs]
          rw [heq]
          exact weightLoop_blank hblank
        rw [hskip]
        exact ih (by omega) rfl hw hlength
      · have hpeek : peek s.cursor = '\n' := by rw [hs]; rfl
        rw [weightLoop_succ (by rw [hpeek]; decide) (by rw [hpeek]; decide), if_pos hpeek, hs]
        exact ih (s := { s with cursor := rest, lineNum := s.lineNum + 1 }) (by omega) rfl hw hlength
  | @comment rest bytes after _ ih =>
    cases n with
    | zero => exact absurd hn (by simp)
    | succ n =>
      rw [List.length_cons] at hn
      have hpeek : peek s.cursor = ';' := by rw [hs]; rfl
      have hstarts : startsWith s.cursor "%endweight" = false := by rw [hs]; rfl
      have hline := length_afterLine_cons ';' (by decide) rest
      rw [weightLoop_succ (by rw [hpeek]; decide) (by rw [hpeek]; decide), hpeek, if_neg (by decide), hstarts,
        if_neg Bool.false_ne_true, if_pos rfl]
      exact ih (s := s.tuAsmSkipLine) (by omega) (by rw [← hs]; rfl) hw hlength
  | @byte c d high low rest bytes after hhigh hlow _ ih =>
    cases n with
    | zero => exact absurd hn (by simp)
    | succ n =>
      rw [List.length_cons, List.length_cons] at hn
      obtain ⟨hblank, hline, hzero, hcomment, hpercent⟩ := isBlank_of_hexDigit hhigh
      have hpeek : peek s.cursor = c := by rw [hs]; rfl
      have hstarts : startsWith s.cursor "%endweight" = false := by
        rw [hs]
        unfold startsWith
        show (('%' == c) && _) = false
        rw [Bool.and_eq_false_iff]
        exact Or.inl (beq_false_of_ne hpercent.symm)
      have hparse : tuAsmParseHexByte s.cursor = some (UInt8.ofNat (high * 16 + low), rest) := by
        rw [hs, parseHexByte_of_not_blank hblank]
        dsimp only
        rw [hhigh, hlow]
        rfl
      rw [weightLoop_succ (by rw [hpeek]; exact hzero) (by rw [hpeek]; exact hblank), hpeek, if_neg hline, hstarts,
        if_neg Bool.false_ne_true, if_neg hcomment, hparse]
      dsimp only
      rw [List.length_cons]
      by_cases hroom : w.data.length < 2 ^ 31
      · obtain ⟨w', happend, hw', hname, hdata⟩ := append_fits hw hroom (UInt8.ofNat (high * 16 + low))
        have hlength' : w'.data.length = w.data.length + 1 := by rw [hdata, List.length_append]; rfl
        obtain ⟨hfits, hlong⟩ := ih (n := n) (s := { s with cursor := rest }) (by omega) rfl hw' hw'.length_le
        rw [happend, Option.bind_some]
        constructor
        · intro hle
          obtain ⟨line, w'', hloop, hname', hdata'⟩ := hfits (by omega)
          exact ⟨line, w'', hloop, hname'.trans hname, by rw [hdata', hdata, List.append_assoc]; rfl⟩
        · intro hlt
          exact hlong (by omega)
      · rw [append_full hw (by omega)]
        exact ⟨fun hle => absurd hle (by omega), fun _ => rfl⟩
  | @skipped c rest bytes after hblank hline hzero hcomment hend hhex _ ih =>
    cases n with
    | zero => exact absurd hn (by simp)
    | succ n =>
      rw [List.length_cons] at hn
      have hpeek : peek s.cursor = c := by rw [hs]; rfl
      have hparse : tuAsmParseHexByte s.cursor = none := by
        rw [hs, parseHexByte_of_not_blank hblank]
        cases rest with
        | nil => rfl
        | cons d rest =>
          dsimp only
          rcases hhex with hnone | hnone
          · rw [hnone, Option.bind_none]
          · rw [show hexDigit d = none from hnone]
            cases hexDigit c <;> rfl
      rw [weightLoop_succ (by rw [hpeek]; exact hzero) (by rw [hpeek]; exact hblank), hpeek, if_neg hline, hs, hend,
        if_neg Bool.false_ne_true, if_neg hcomment, ← hs, hparse]
      dsimp only
      rw [hs]
      exact ih (s := { s with cursor := rest }) (by omega) rfl hw hlength

/-! ### Rounds of the run -/

section

variable {core : List AsmCall → List UInt8} {s s' : AsmState}

theorem elim_eq_ok {A : Type} {o : Option A} {message : String} {a : A} :
    (o.elim (throw message) pure : Except String A) = .ok a ↔ o = some a := by
  cases o with
  | none => exact ⟨nofun, nofun⟩
  | some b => exact ⟨fun h => by injection h with h; rw [h], fun h => by injection h with h; rw [h]; rfl⟩

theorem bind_eq_ok {E A B : Type} {x : Except E A} {f : A → Except E B} {b : B} :
    (x >>= f) = .ok b ↔ ∃ a, x = .ok a ∧ f a = .ok b := by
  cases x with
  | error e => exact ⟨nofun, fun ⟨_, h, _⟩ => absurd h nofun⟩
  | ok a => exact ⟨fun h => ⟨a, rfl, h⟩, fun ⟨_, h, hf⟩ => by injection h with h; rw [h]; exact hf⟩

theorem length_parseInt_le {cursor cursor' : List Char} {v : UInt32} (h : tuAsmParseInt cursor = some (v, cursor')) :
    cursor'.length ≤ cursor.length := by
  unfold tuAsmParseInt at h
  dsimp only at h
  split at h
  · exact absurd h nofun
  · injection h with h
    injection h with _ h
    rw [← h]
    exact (length_dropWhile_le _).trans (length_dropWhile_le _)

theorem length_parseName_le {cursor name cursor' : List Char} {n : Nat} (h : tuAsmParseName cursor n = some (name, cursor')) :
    cursor'.length ≤ cursor.length := by
  unfold tuAsmParseName at h
  dsimp only at h
  split at h
  · exact absurd h nofun
  · injection h with h
    injection h with _ h
    rw [← h]
    exact (length_dropWhile_le _).trans (length_dropWhile_le _)

theorem length_parseTransfer_le {buf : AsmBuffer × List UInt8} {tuOff sizeBytes : UInt32}
    (h : s.parseTransfer = .ok (buf, tuOff, sizeBytes, s')) : s'.cursor.length ≤ s.cursor.length := by
  unfold AsmState.parseTransfer at h
  simp only [bind_eq_ok, elim_eq_ok] at h
  obtain ⟨⟨name, c₁⟩, h₁, ⟨off, c₂⟩, h₂, ⟨size, c₃⟩, h₃, _, _, h⟩ := h
  injection h with h
  simp only [Prod.mk.injEq] at h
  rw [← h.2.2.2]
  exact (length_parseInt_le h₃).trans ((length_parseInt_le h₂).trans (length_parseName_le h₁))

/-- An instruction reads on. -/
theorem length_execInstruction_lt (h : s.execInstruction core = .ok s') : s'.cursor.length < s.cursor.length := by
  have hdrop : ∀ {word : String} {n : Nat}, startsWith s.cursor word = true → n = word.toList.length → 0 < n →
      (s.cursor.drop n).length < s.cursor.length := by
    intro word n hstarts hn hpos
    obtain ⟨rest, hrest⟩ := startsWith_iff.1 hstarts
    rw [hrest, List.length_drop, List.length_append]
    omega
  unfold AsmState.execInstruction at h
  split at h
  · rename_i hword
    refine lt_of_le_of_lt ?_ (hdrop hword rfl (by decide))
    unfold AsmState.tuAsmExecLoadW at h
    simp only [bind_eq_ok, elim_eq_ok] at h
    obtain ⟨⟨off, c₁⟩, h₁, ⟨size, c₂⟩, h₂, _, _, h⟩ := h
    injection h with h
    rw [← h]
    exact (length_parseInt_le h₂).trans (length_parseInt_le h₁)
  split at h
  · rename_i hword
    refine lt_of_le_of_lt ?_ (hdrop hword rfl (by decide))
    unfold AsmState.tuAsmExecLoadA at h
    simp only [bind_eq_ok] at h
    obtain ⟨_, hparse, h⟩ := h
    injection h with h
    rw [← h]
    exact length_parseTransfer_le hparse
  split at h
  · rename_i hword
    refine lt_of_le_of_lt ?_ (hdrop hword rfl (by decide))
    unfold AsmState.tuAsmExecLoadO at h
    simp only [bind_eq_ok] at h
    obtain ⟨_, hparse, h⟩ := h
    injection h with h
    rw [← h]
    exact length_parseTransfer_le hparse
  split at h
  · rename_i hword
    refine lt_of_le_of_lt ?_ (hdrop hword rfl (by decide))
    unfold AsmState.tuAsmExecStoreO at h
    simp only [bind_eq_ok] at h
    obtain ⟨⟨buf, _, _, _⟩, hparse, h⟩ := h
    injection h with h
    rw [← h]
    refine le_trans (le_of_eq ?_) (length_parseTransfer_le hparse)
    cases buf.1 <;> rfl
  split at h
  · rename_i hword
    refine lt_of_le_of_lt ?_ (hdrop hword rfl (by decide))
    unfold AsmState.tuAsmExecMma at h
    simp only [bind_eq_ok, elim_eq_ok] at h
    obtain ⟨⟨_, c₁⟩, h₁, ⟨_, c₂⟩, h₂, ⟨_, c₃⟩, h₃, ⟨_, c₄⟩, h₄, ⟨_, c₅⟩, h₅, ⟨_, c₆⟩, h₆, ⟨_, c₇⟩, h₇, h⟩ := h
    split at h
    · exact absurd h nofun
    · injection h with h
      rw [← h]
      exact (length_parseName_le h₇).trans ((length_parseInt_le h₆).trans ((length_parseInt_le h₅).trans
        ((length_parseInt_le h₄).trans ((length_parseInt_le h₃).trans ((length_parseInt_le h₂).trans (length_parseInt_le h₁))))))
  split at h
  · rename_i hword
    injection h with h
    rw [← h]
    exact hdrop hword rfl (by decide)
  · exact absurd h nofun

theorem SectionText.length_le {text : List Char} {bytes : List UInt8} {after : List Char} (h : SectionText text bytes after) :
    after.length ≤ text.length := by
  induction h with
  | textEnds _ => exact le_refl _
  | sectionEnds rest =>
    rw [List.length_append]
    exact (length_afterLine_le rest).trans (Nat.le_add_left _ _)
  | space _ _ ih => exact ih.trans (Nat.le_succ _)
  | @comment rest _ _ _ ih => exact ih.trans ((length_afterLine_cons ';' (by decide) rest).trans (Nat.le_succ _))
  | byte _ _ _ ih => exact ih.trans (Nat.le_add_right _ 2)
  | skipped _ _ _ _ _ _ _ ih => exact ih.trans (Nat.le_succ _)

/-! ### Sections of a run -/

/-- A section begins at the cursor. -/
def AsmState.AtSection (s : AsmState) : Prop := startsWith (tuAsmSkipWhitespace s.cursor) "%weight" = true

/-- The name and the text of the section at the cursor. -/
def AsmState.sectionAt (s : AsmState) : Option (List Char × List Char) :=
  (tuAsmParseName ((tuAsmSkipWhitespace s.cursor).drop 7) 64).map fun (name, cursor) => (name, afterLine cursor)

theorem step_of_atSection (h : s.AtSection) :
    s.step core = { s with cursor := tuAsmSkipWhitespace s.cursor }.openWeight := by
  obtain ⟨rest, hrest⟩ := startsWith_iff.1 h
  have hpeek : peek (tuAsmSkipWhitespace s.cursor) = '%' := by rw [hrest]; rfl
  have hzero : peek s.cursor ≠ '\x00' := by
    intro hzero
    rw [skipWhitespace_of_not_blank (by rw [hzero]; decide), hzero] at hpeek
    exact absurd hpeek (by decide)
  unfold AsmState.step
  dsimp only
  rw [if_neg hzero, hpeek, if_neg (by decide), if_neg (by decide), if_neg (by decide)]
  exact if_pos h

/-- A section that finds no entry of the table is written out of bounds. -/
theorem step_of_full (h : s.AtSection) (hfull : 16 ≤ s.weights.length) : s.step core = .error .outOfBounds := by
  rw [step_of_atSection h]
  exact if_pos hfull

theorem step_of_room (h : s.AtSection) (hroom : s.weights.length < 16) :
    s.step core =
      match tuAsmParseName ((tuAsmSkipWhitespace s.cursor).drop 7) 64 with
      | none => .error (.error s.lineNum "%weight: expected name")
      | some (name, cursor) =>
        match weightLoop (afterLine cursor).length { s with cursor := afterLine cursor, lineNum := s.lineNum + 1 }
          { name := name } with
        | none => .error .outOfBounds
        | some (s, w) => .ok { s with weights := s.weights ++ [w] } := by
  have hcond : ¬ s.weights.length ≥ tuAsmMaxWeights := Nat.not_le.2 hroom
  rw [step_of_atSection h]
  unfold AsmState.openWeight
  exact if_neg hcond

/-- What a section adds to the table. -/
theorem step_of_section (core : List AsmCall → List UInt8) (h : s.AtSection) (hroom : s.weights.length < 16) {name text : List Char}
    (hat : s.sectionAt = some (name, text)) {bytes : List UInt8} {after : List Char} (htext : SectionText text bytes after) :
    (bytes.length ≤ 2 ^ 31 → ∃ line w, s.step core = .ok { s with cursor := after, lineNum := line, weights := s.weights ++ [w] } ∧
      w.name = name ∧ w.data = bytes) ∧
      (2 ^ 31 < bytes.length → s.step core = .error .outOfBounds) := by
  obtain ⟨⟨name', cursor⟩, hname, heq⟩ := Option.map_eq_some_iff.1 hat
  injection heq with hname' htext'
  subst hname' htext'
  have hempty : AsmWeight.CapacityOk { name := name' } := ⟨Or.inl rfl, le_refl _⟩
  have hloop := weightLoop_text htext (le_refl _)
    (s := { s with cursor := afterLine cursor, lineNum := s.lineNum + 1 }) rfl hempty
  rw [step_of_room h hroom, hname]
  dsimp only
  rw [show ([] : List UInt8).length + bytes.length = bytes.length from Nat.zero_add _] at hloop
  constructor
  · intro hle
    obtain ⟨line, w, hrun, hwname, hdata⟩ := hloop.1 hle
    rw [hrun]
    exact ⟨line, w, rfl, hwname, hdata⟩
  · intro hlt
    rw [hloop.2 hlt]

/-- Only a section writes out of bounds. -/
theorem atSection_of_outOfBounds (h : s.step core = .error .outOfBounds) :
    s.AtSection ∧ (s.weights.length < 16 → ∃ name text, s.sectionAt = some (name, text)) := by
  by_cases hat : s.AtSection
  · refine ⟨hat, ?_⟩
    intro hroom
    rw [step_of_room hat hroom] at h
    unfold AsmState.sectionAt
    cases hname : tuAsmParseName ((tuAsmSkipWhitespace s.cursor).drop 7) 64 with
    | none =>
      rw [hname] at h
      exact absurd h nofun
    | some p => exact ⟨_, _, rfl⟩
  · unfold AsmState.step at h
    dsimp only at h
    unfold AsmState.AtSection at hat
    rw [if_neg hat] at h
    split at h
    · exact absurd h nofun
    split at h
    · exact absurd h nofun
    split at h
    · exact absurd h nofun
    split at h
    · exact absurd h nofun
    split at h
    · exact absurd h nofun
    split at h <;> exact absurd h nofun

/-- Every round reads at least one character. -/
theorem length_step_lt (h : s.step core = .ok s') : s'.cursor.length < s.cursor.length := by
  have hskip : (tuAsmSkipWhitespace s.cursor).length ≤ s.cursor.length := length_dropWhile_le _
  refine lt_of_lt_of_le ?_ hskip
  by_cases hat : s.AtSection
  · obtain ⟨rest, hrest⟩ := startsWith_iff.1 hat
    have hdrop : ((tuAsmSkipWhitespace s.cursor).drop 7).length < (tuAsmSkipWhitespace s.cursor).length := by
      rw [hrest]
      simp only [List.length_drop, List.length_append]
      exact Nat.sub_lt (Nat.add_pos_left (by decide) _) (by decide)
    rcases Nat.lt_or_ge s.weights.length 16 with hroom | hfull
    · cases hname : tuAsmParseName ((tuAsmSkipWhitespace s.cursor).drop 7) 64 with
      | none =>
        rw [step_of_room hat hroom, hname] at h
        exact absurd h nofun
      | some p =>
        obtain ⟨name, cursor⟩ := p
        have hsection : s.sectionAt = some (name, afterLine cursor) := by
          unfold AsmState.sectionAt
          rw [hname]
          rfl
        obtain ⟨bytes, after, htext⟩ := exists_sectionText (afterLine cursor)
        obtain ⟨hfits, hlong⟩ := step_of_section core hat hroom hsection htext
        rcases Nat.lt_or_ge (2 ^ 31) bytes.length with hlt | hle
        · rw [hlong hlt] at h
          exact absurd h nofun
        · obtain ⟨line, w, hstep, -⟩ := hfits hle
          rw [hstep] at h
          injection h with h
          rw [← h]
          have hline := length_afterLine_le cursor
          have hread := length_parseName_le hname
          have hafter := htext.length_le
          show after.length < _
          omega
    · rw [step_of_full hat hfull] at h
      exact absurd h nofun
  · have hline : ∀ {cursor : List Char}, peek cursor ≠ '\x00' → (afterLine cursor).length < cursor.length := by
      intro cursor hzero
      cases cursor with
      | nil => exact absurd rfl hzero
      | cons c rest => exact Nat.lt_succ_of_le (length_afterLine_cons c hzero rest)
    unfold AsmState.step at h
    dsimp only at h
    unfold AsmState.AtSection at hat
    rw [if_neg hat] at h
    split at h
    · exact absurd h nofun
    split at h
    · rename_i hnewline
      injection h with h
      rw [← h]
      show (tuAsmSkipWhitespace s.cursor).tail.length < _
      cases hcursor : tuAsmSkipWhitespace s.cursor with
      | nil =>
        rw [hcursor] at hnewline
        exact absurd hnewline (by decide)
      | cons c rest => exact Nat.lt_succ_self _
    split at h
    · exact absurd h nofun
    rename_i hzero
    split at h
    · injection h with h
      rw [← h]
      exact hline hzero
    split at h
    · injection h with h
      rw [← h]
      exact hline hzero
    split at h
    · rename_i s₁ hexec
      injection h with h
      rw [← h]
      exact (length_afterLine_le s₁.cursor).trans_lt (length_execInstruction_lt hexec)
    · exact absurd h nofun

/-! ### Whole runs -/

/-- The states of a run at the beginning of a round. -/
def Reached (core : List AsmCall → List UInt8) (program : List Char) (buffers : List TuHostBuffer) (s : AsmState) : Prop :=
  ReflTransGen (fun s s' : AsmState => s.step core = .ok s') (AsmState.start program buffers) s

/-- A run stops in a state that it reaches, as the round from there says. -/
theorem asmLoop_stops {n : Nat} (h : s.cursor.length < n) :
    ReflTransGen (fun s s' : AsmState => s.step core = .ok s') s (asmLoop core n s).1 ∧
      (asmLoop core n s).1.step core = .error (asmLoop core n s).2 := by
  induction n generalizing s with
  | zero => exact absurd h (Nat.not_lt_zero _)
  | succ n ih =>
    rw [asmLoop]
    cases hstep : s.step core with
    | ok s' =>
      have hshorter := length_step_lt hstep
      obtain ⟨hreached, hstops⟩ := ih (s := s') (by omega)
      exact ⟨.head hstep hreached, hstops⟩
    | error stop => exact ⟨.refl, hstep⟩

theorem tuRunAsm_stops (core : List AsmCall → List UInt8) (program : List Char) (buffers : List TuHostBuffer) :
    Reached core program buffers (tuRunAsm core program buffers).1 ∧
      (tuRunAsm core program buffers).1.step core = .error (tuRunAsm core program buffers).2 :=
  asmLoop_stops (Nat.lt_succ_self _)

/-- A run that reaches a state from which it stops ends there. -/
theorem tuRunAsm_of_reached {program : List Char} {buffers : List TuHostBuffer} (h : Reached core program buffers s)
    {stop : AsmStop} (hstop : s.step core = .error stop) : tuRunAsm core program buffers = (s, stop) := by
  obtain ⟨hend, hstops⟩ := tuRunAsm_stops core program buffers
  have hlast : ∀ {s s' : AsmState} {stop : AsmStop}, s.step core = .error stop →
      ReflTransGen (fun s s' : AsmState => s.step core = .ok s') s s' → s' = s := by
    intro s s' stop hstop hrun
    rcases hrun.cases_head with rfl | ⟨s₁, hstep, -⟩
    · rfl
    · rw [hstop] at hstep
      exact absurd hstep nofun
  have hunique : Relator.RightUnique fun s s' : AsmState => s.step core = .ok s' := by
    intro s s₁ s₂ h₁ h₂
    rw [h₁] at h₂
    injection h₂
  have heq : (tuRunAsm core program buffers).1 = s := by
    rcases ReflTransGen.total_of_right_unique hunique h hend with hrun | hrun
    · exact hlast hstop hrun
    · exact (hlast hstops hrun).symm
  rw [heq, hstop] at hstops
  injection hstops with hsame
  exact Prod.ext heq hsame.symm

/-- The line `LOAD_W` with an offset and a size. -/
def loadLine (tuOff size : Nat) : List Char :=
  "LOAD_W ".toList ++ Nat.toDigits 10 tuOff ++ ' ' :: Nat.toDigits 10 size ++ ['\n']

/-- A `LOAD_W` of the right size that follows now gives the core exactly the bytes. -/
def Loadable (core : List AsmCall → List UInt8) (s : AsmState) (bytes : List UInt8) : Prop :=
  ∀ (tuOff : UInt32) (rest : List Char),
    AsmState.step core { s with cursor := loadLine tuOff.toNat bytes.length ++ rest } =
      .ok { s with
        cursor := rest
        lineNum := s.lineNum + 1
        calls := s.calls ++ [.loadW bytes tuOff (UInt32.ofNat bytes.length)] }

theorem parseInt_toDigits {n : Nat} (hn : n < 2 ^ 32) (rest : List Char) (hrest : (peek rest).isDigit = false) :
    tuAsmParseInt (' ' :: (Nat.toDigits 10 n ++ rest)) = some (UInt32.ofNat n, rest) := by
  have hdigits : ∀ c ∈ Nat.toDigits 10 n, c.isDigit = true := fun c hc => Nat.isDigit_of_mem_toDigits (by decide) (by decide) hc
  have hfirst : (peek (Nat.toDigits 10 n ++ rest)).isDigit = true := by
    cases hlist : Nat.toDigits 10 n with
    | nil => exact absurd hlist Nat.toDigits_ne_nil
    | cons c cs =>
      rw [hlist] at hdigits
      exact hdigits c List.mem_cons_self
  have hblank : isBlank (peek (Nat.toDigits 10 n ++ rest)) = false := by
    rw [Bool.eq_false_iff]
    intro hblank
    unfold isBlank at hblank
    simp only [Bool.or_eq_true, decide_eq_true_eq] at hblank
    rcases hblank with (hc | hc) | hc <;> exact absurd hfirst (by rw [hc]; decide)
  have hskip : tuAsmSkipWhitespace (' ' :: (Nat.toDigits 10 n ++ rest)) = Nat.toDigits 10 n ++ rest :=
    (List.dropWhile_cons_of_pos rfl).trans (skipWhitespace_of_not_blank hblank)
  have hrest' : rest.takeWhile Char.isDigit = [] ∧ rest.dropWhile Char.isDigit = rest := by
    cases rest with
    | nil => exact ⟨rfl, rfl⟩
    | cons c rest =>
      have hc : ¬ c.isDigit = true := by rw [Bool.not_eq_true]; exact hrest
      exact ⟨List.takeWhile_cons_of_neg hc, List.dropWhile_cons_of_neg hc⟩
  unfold tuAsmParseInt
  dsimp only
  rw [hskip, hfirst, Bool.not_true, if_neg Bool.false_ne_true, List.takeWhile_append_of_pos hdigits,
    List.dropWhile_append_of_pos hdigits, hrest'.1, hrest'.2, List.append_nil, Nat.ofDigitChars_toDigits (by decide) (by decide),
    Nat.min_eq_left (by omega)]

theorem step_loadW (s : AsmState) (args : List Char) :
    AsmState.step core { s with cursor := "LOAD_W".toList ++ args } =
      ((AsmState.tuAsmExecLoadW { s with cursor := args }).map AsmState.tuAsmSkipLine).mapError (AsmStop.error s.lineNum) := by
  have hzero : peek ("LOAD_W".toList ++ args) ≠ '\x00' := show 'L' ≠ '\x00' by decide
  have hskip : tuAsmSkipWhitespace ("LOAD_W".toList ++ args) = "LOAD_W".toList ++ args := rfl
  have hpeek : peek ("LOAD_W".toList ++ args) = 'L' := rfl
  have hweight : ¬ startsWith ("LOAD_W".toList ++ args) "%weight" = true := Bool.false_ne_true
  have hmarked : ¬ (startsWith ("LOAD_W".toList ++ args) "%input" = true ∨ startsWith ("LOAD_W".toList ++ args) "%output" = true) :=
    fun h => h.elim Bool.false_ne_true Bool.false_ne_true
  have hexec : AsmState.execInstruction core { s with cursor := "LOAD_W".toList ++ args } =
      AsmState.tuAsmExecLoadW { s with cursor := args } := rfl
  unfold AsmState.step
  dsimp only
  rw [if_neg hzero, hskip, hpeek, if_neg (by decide), if_neg (by decide), if_neg (by decide), if_neg hweight, if_neg hmarked, hexec]
  cases AsmState.tuAsmExecLoadW { s with cursor := args } <;> rfl

/-- What a `LOAD_W` gives to the core is the last section that is large enough. -/
theorem step_loadLine (s : AsmState) (tuOff : UInt32) {size : Nat} (hsize : size < 2 ^ 32) (rest : List Char) :
    AsmState.step core { s with cursor := loadLine tuOff.toNat size ++ rest } =
      (s.findWeight size).elim (.error (.error s.lineNum "no matching weight section")) fun data =>
        .ok { s with
          cursor := rest
          lineNum := s.lineNum + 1
          calls := s.calls ++ [.loadW data tuOff (UInt32.ofNat size)] } := by
  have hsecond := parseInt_toDigits hsize ('\n' :: rest) rfl
  have hfirst := parseInt_toDigits tuOff.toNat_lt (' ' :: (Nat.toDigits 10 size ++ '\n' :: rest)) rfl
  rw [UInt32.ofNat_toNat] at hfirst
  have hline : loadLine tuOff.toNat size ++ rest = "LOAD_W".toList ++
      ' ' :: (Nat.toDigits 10 tuOff.toNat ++ ' ' :: (Nat.toDigits 10 size ++ '\n' :: rest)) := by
    unfold loadLine
    simp
  rw [hline, step_loadW]
  unfold AsmState.tuAsmExecLoadW
  simp only [hfirst, hsecond, Option.elim_some, pure_bind]
  have hweight : AsmState.findWeight { s with
      cursor := ' ' :: (Nat.toDigits 10 tuOff.toNat ++ ' ' :: (Nat.toDigits 10 size ++ '\n' :: rest)) }
      (UInt32.ofNat size).toNat = s.findWeight size := by
    rw [UInt32.toNat_ofNat_of_lt' hsize]
    rfl
  rw [hweight]
  cases s.findWeight size <;> rfl

/-- A section that was added last can be loaded if it is not empty. -/
theorem loadable_iff {weights : List AsmWeight} {w : AsmWeight} (hs : s.weights = weights ++ [w])
    (hsize : w.data.length ≤ 2 ^ 31) : Loadable core s w.data ↔ w.data ≠ [] := by
  have hweight : s.findWeight w.data.length = if w.data = [] then none else some w.data := by
    unfold AsmState.findWeight
    rw [hs, List.reverse_append, List.reverse_singleton, List.singleton_append,
      List.find?_cons_of_pos (by exact decide_eq_true (le_refl _))]
  constructor
  · intro hload hempty
    have hline := hload 0 []
    rw [step_loadLine s 0 (by omega) [], hweight, if_pos hempty] at hline
    exact absurd hline nofun
  · intro hne tuOff rest
    rw [step_loadLine s tuOff (by omega) rest, hweight, if_neg hne, Option.elim_some]

/-! ### Programs -/

/-- What the assembler should do with a program: it writes nothing out of bounds, a section too many is refused, and a section
that is read can be loaded. -/
structure SectionsKept (core : List AsmCall → List UInt8) (program : List Char) (buffers : List TuHostBuffer) : Prop where
  inBounds : (tuRunAsm core program buffers).2 ≠ .outOfBounds
  refused : ∀ s, Reached core program buffers s → s.AtSection → 16 ≤ s.weights.length →
    ∃ line message, (tuRunAsm core program buffers).2 = .error line message
  loadable : ∀ s s' name text bytes after, Reached core program buffers s → s.AtSection → s.sectionAt = some (name, text) →
    SectionText text bytes after → s.step core = .ok s' → Loadable core s' bytes

/-- A run opens at most 16 sections, each of 1 to 2^31 bytes. -/
def SectionsFit (core : List AsmCall → List UInt8) (program : List Char) (buffers : List TuHostBuffer) : Prop :=
  ∀ s, Reached core program buffers s → s.AtSection → s.weights.length < 16 ∧
    ∀ name text bytes after, s.sectionAt = some (name, text) → SectionText text bytes after →
      bytes ≠ [] ∧ bytes.length ≤ 2 ^ 31

theorem sectionsKept_iff (core : List AsmCall → List UInt8) (program : List Char) (buffers : List TuHostBuffer) :
    SectionsKept core program buffers ↔ SectionsFit core program buffers := by
  constructor
  · intro h s hreached hat
    have hroom : s.weights.length < 16 := by
      by_contra hfull
      have hstop := tuRunAsm_of_reached hreached (step_of_full hat (Nat.not_lt.1 hfull))
      exact h.inBounds (congrArg Prod.snd hstop)
    refine ⟨hroom, ?_⟩
    intro name text bytes after hsection htext
    obtain ⟨hfits, hlong⟩ := step_of_section core hat hroom hsection htext
    have hle : bytes.length ≤ 2 ^ 31 := by
      by_contra hlt
      have hstop := tuRunAsm_of_reached hreached (hlong (Nat.not_le.1 hlt))
      exact h.inBounds (congrArg Prod.snd hstop)
    obtain ⟨line, w, hstep, -, rfl⟩ := hfits hle
    exact ⟨(loadable_iff rfl hle).1 (h.loadable s _ name text _ after hreached hat hsection htext hstep), hle⟩
  · intro h
    obtain ⟨hend, hstops⟩ := tuRunAsm_stops core program buffers
    refine ⟨?_, ?_, ?_⟩
    · intro hout
      rw [hout] at hstops
      obtain ⟨hat, hopens⟩ := atSection_of_outOfBounds hstops
      obtain ⟨hroom, hsizes⟩ := h _ hend hat
      obtain ⟨name, text, hsection⟩ := hopens hroom
      obtain ⟨bytes, after, htext⟩ := exists_sectionText text
      obtain ⟨-, hle⟩ := hsizes name text bytes after hsection htext
      obtain ⟨line, w, hstep, -⟩ := (step_of_section core hat hroom hsection htext).1 hle
      rw [hstep] at hstops
      exact absurd hstops nofun
    · intro s hreached hat hfull
      exact absurd (h s hreached hat).1 (Nat.not_lt.2 hfull)
    · intro s s' name text bytes after hreached hat hsection htext haccepted
      obtain ⟨hroom, hsizes⟩ := h s hreached hat
      obtain ⟨hne, hle⟩ := hsizes name text bytes after hsection htext
      obtain ⟨line, w, hstep, -, rfl⟩ := (step_of_section core hat hroom hsection htext).1 hle
      rw [hstep] at haccepted
      injection haccepted with haccepted
      subst haccepted
      exact (loadable_iff rfl hle).2 hne

/-- Seventeen sections of one byte. -/
def seventeenSections : List Char := (List.replicate 17 "%weight a\n00%endweight\n".toList).flatten

/-- The last of them has no entry in the table. -/
theorem seventeenSections_outOfBounds : ¬ SectionsKept (fun _ => []) seventeenSections [] := by
  intro h
  have hout : (tuRunAsm (fun _ => []) seventeenSections []).2 = .outOfBounds := by decide +kernel
  exact h.inBounds hout

end

end Tusim.Asm
