import Tusim.Json.Reader

/-!
# The two passes over a string

The first pass skims over the characters (`Skimmed`), the second writes them (`Chars`).  Neither looks at the four bytes
behind `\u`, so the first runs past the terminator if there are fewer.
-/

namespace Tusim.Json

open JsonGrammar

/-- Characters that the first pass skips, and the length it counts. -/
inductive Skimmed : Text → Nat → Prop
  | nil : Skimmed [] 0
  | plain {c w n} (hc : 0x20 ≤ c) (hquote : c ≠ byte '"') (hslash : c ≠ byte '\\') (hw : Skimmed w n) :
      Skimmed (c :: w) (n + 1)
  | escape {e w n} (he : e ≠ byte 'u') (hw : Skimmed w n) : Skimmed (byte '\\' :: e :: w) (n + 1)
  | unicode {a b c d w n} (hw : Skimmed w n) : Skimmed (byte '\\' :: byte 'u' :: a :: b :: c :: d :: w) (n + 3)

/-- Characters that the second pass writes, the bytes it writes, and the length the first pass counts. -/
inductive Chars : Text → Text → Nat → Prop
  | nil : Chars [] [] 0
  | plain {c w data n} (hc : 0x20 ≤ c) (hquote : c ≠ byte '"') (hslash : c ≠ byte '\\') (hw : Chars w data n) :
      Chars (c :: w) (c :: data) (n + 1)
  | escape {e c w data n} (he : simpleEscape e = some c) (hw : Chars w data n) :
      Chars (byte '\\' :: e :: w) (c :: data) (n + 1)
  | unicode {a b c d w data n} (hw : Chars w data n) :
      Chars (byte '\\' :: byte 'u' :: a :: b :: c :: d :: w) (unicodeBytes a b c d ++ data) (n + 3)

theorem simpleEscape_ne {e c : UInt8} (h : simpleEscape e = some c) : e ≠ byte 'u' := by
  rintro rfl
  exact absurd (h.symm.trans (by decide : simpleEscape (byte 'u') = none)) (by simp)

theorem Chars.skimmed {b data : Text} {n : Nat} (h : Chars b data n) : Skimmed b n := by
  induction h with
  | nil => exact .nil
  | plain hc hquote hslash _ ih => exact .plain hc hquote hslash ih
  | escape he _ ih => exact .escape (simpleEscape_ne he) ih
  | unicode _ ih => exact .unicode ih

/-! ### The first pass -/

section

variable (src : Text) (len : Nat)

theorem measure_plain {c : UInt8} (hc : 0x20 ≤ c) (hquote : c ≠ byte '"') (hslash : c ≠ byte '\\') :
    measure (c :: src) len = measure src (len + 1) := by
  rw [measure.eq_def]
  dsimp only
  rw [if_neg hquote, if_neg (UInt8.not_lt.2 hc), if_neg hslash]

theorem measure_escape {e : UInt8} (he : e ≠ byte 'u') :
    measure (byte '\\' :: e :: src) len = measure src (len + 1) := by
  rw [measure.eq_def]
  dsimp only
  rw [if_neg (by decide), if_neg (by decide), if_pos rfl, if_neg he]

theorem measure_unicode (a b c d : UInt8) :
    measure (byte '\\' :: byte 'u' :: a :: b :: c :: d :: src) len = measure src (len + 3) := by
  rw [measure.eq_def]
  dsimp only
  rw [if_neg (by decide), if_neg (by decide), if_pos rfl, if_pos rfl]

end

theorem measure_short {t : Text} (ht : t.length < 4) (len : Nat) :
    measure (byte '\\' :: byte 'u' :: t) len = .error .overread := by
  rw [measure.eq_def]
  dsimp only
  rw [if_neg (by decide), if_neg (by decide), if_pos rfl, if_pos rfl]
  rcases t with _ | ⟨a, _ | ⟨b, _ | ⟨c, _ | ⟨d, t⟩⟩⟩⟩
  · rfl
  · rfl
  · rfl
  · rfl
  · simp only [List.length_cons] at ht
    omega

theorem measure_skimmed {b : Text} {n : Nat} (h : Skimmed b n) (rest : Text) (len : Nat) :
    measure (b ++ rest) len = measure rest (len + n) := by
  induction h generalizing len with
  | nil => rfl
  | @plain c w n hc hquote hslash hw ih =>
    rw [List.cons_append, measure_plain _ _ hc hquote hslash, ih, Nat.add_assoc, Nat.add_comm 1]
  | @escape e w n he hw ih =>
    rw [List.cons_append, List.cons_append, measure_escape _ _ he, ih, Nat.add_assoc, Nat.add_comm 1]
  | @unicode a b c d w n hw ih =>
    simp only [List.cons_append]
    rw [measure_unicode, ih, Nat.add_assoc, Nat.add_comm 3]

/-- The first pass ends at a quote, behind the terminator, or with an error. -/
theorem measure_cases (s : Text) :
    (∃ b n rest, Skimmed b n ∧ s = b ++ byte '"' :: rest) ∨
      (∃ b n t, Skimmed b n ∧ t.length < 4 ∧ s = b ++ byte '\\' :: byte 'u' :: t) ∨
      ∀ len, ∃ e, measure s len = .error (.error e) := by
  induction hlen : s.length using Nat.strong_induction_on generalizing s with
  | _ l ih =>
    subst hlen
    cases s with
    | nil => exact .inr (.inr fun _ => ⟨_, rfl⟩)
    | cons c src =>
      by_cases hquote : c = byte '"'
      · exact .inl ⟨[], 0, src, .nil, hquote ▸ rfl⟩
      by_cases hc : c < 0x20
      · refine .inr (.inr fun len => ⟨.errSyntax, ?_⟩)
        rw [measure.eq_def]
        dsimp only
        rw [if_neg hquote, if_pos hc]
      by_cases hslash : c = byte '\\'
      · subst hslash
        cases src with
        | nil => exact .inr (.inr fun _ => ⟨_, rfl⟩)
        | cons e src =>
          by_cases he : e = byte 'u'
          · subst he
            rcases src with _ | ⟨a, _ | ⟨b, _ | ⟨c, _ | ⟨d, src⟩⟩⟩⟩
            · exact .inr (.inl ⟨[], 0, [], .nil, by decide, rfl⟩)
            · exact .inr (.inl ⟨[], 0, [a], .nil, by simp, rfl⟩)
            · exact .inr (.inl ⟨[], 0, [a, b], .nil, by simp, rfl⟩)
            · exact .inr (.inl ⟨[], 0, [a, b, c], .nil, by simp, rfl⟩)
            · rcases ih _ (by simp only [List.length_cons]; omega) src rfl with ⟨w, n, rest, hw, rfl⟩ | ⟨w, n, t, hw, ht, rfl⟩ | herror
              · exact .inl ⟨_, _, rest, .unicode hw, rfl⟩
              · exact .inr (.inl ⟨_, _, t, .unicode hw, ht, rfl⟩)
              · refine .inr (.inr fun len => ?_)
                rw [measure_unicode]
                exact herror _
          · rcases ih _ (by simp only [List.length_cons]; omega) src rfl with ⟨w, n, rest, hw, rfl⟩ | ⟨w, n, t, hw, ht, rfl⟩ | herror
            · exact .inl ⟨_, _, rest, .escape he hw, rfl⟩
            · exact .inr (.inl ⟨_, _, t, .escape he hw, ht, rfl⟩)
            · refine .inr (.inr fun len => ?_)
              rw [measure_escape _ _ he]
              exact herror _
      · have hge : 0x20 ≤ c := UInt8.not_lt.1 hc
        rcases ih _ (by simp only [List.length_cons]; omega) src rfl with ⟨w, n, rest, hw, rfl⟩ | ⟨w, n, t, hw, ht, rfl⟩ | herror
        · exact .inl ⟨_, _, rest, .plain hge hquote hslash hw, rfl⟩
        · exact .inr (.inl ⟨_, _, t, .plain hge hquote hslash hw, ht, rfl⟩)
        · refine .inr (.inr fun len => ?_)
          rw [measure_plain _ _ hge hquote hslash]
          exact herror _

/-! ### The second pass -/

section

variable (src : Text)

theorem unescape_plain {c : UInt8} (hquote : c ≠ byte '"') (hslash : c ≠ byte '\\') :
    unescape (c :: src) = (unescape src).map fun (data, rest) => (c :: data, rest) := by
  rw [unescape.eq_def]
  dsimp only
  rw [if_neg hquote, if_neg hslash]
  cases unescape src <;> rfl

theorem unescape_escape {e : UInt8} (he : e ≠ byte 'u') :
    unescape (byte '\\' :: e :: src) =
      match simpleEscape e with
      | some c => (unescape src).map fun (data, rest) => (c :: data, rest)
      | none => .error (.error .errInvalidEscape) := by
  rw [unescape.eq_def]
  dsimp only
  rw [if_neg (by decide), if_pos rfl, if_neg he]
  cases simpleEscape e with
  | none => rfl
  | some c => cases unescape src <;> rfl

theorem unescape_unicode (a b c d : UInt8) :
    unescape (byte '\\' :: byte 'u' :: a :: b :: c :: d :: src) =
      (unescape src).map fun (data, rest) => (unicodeBytes a b c d ++ data, rest) := by
  rw [unescape.eq_def]
  dsimp only
  rw [if_neg (by decide), if_pos rfl, if_pos rfl]
  cases unescape src <;> rfl

end

theorem unescape_chars {b data : Text} {n : Nat} (h : Chars b data n) (rest : Text) :
    unescape (b ++ byte '"' :: rest) = .ok (data, rest) := by
  induction h with
  | nil => exact unescape_quote rest
  | plain hc hquote hslash _ ih =>
    rw [List.cons_append, unescape_plain _ hquote hslash, ih]
    rfl
  | escape he _ ih =>
    rw [List.cons_append, List.cons_append, unescape_escape _ (simpleEscape_ne he), he]
    dsimp only
    rw [ih]
    rfl
  | unicode _ ih =>
    simp only [List.cons_append]
    rw [unescape_unicode, ih]
    rfl

/-- What the first pass skips the second pass writes, but for unknown escapes. -/
theorem unescape_skimmed {b : Text} {n : Nat} (h : Skimmed b n) (rest : Text) :
    (∃ data, Chars b data n) ∨ unescape (b ++ byte '"' :: rest) = .error (.error .errInvalidEscape) := by
  induction h with
  | nil => exact .inl ⟨[], .nil⟩
  | plain hc hquote hslash _ ih =>
    rcases ih with ⟨data, hdata⟩ | herror
    · exact .inl ⟨_, .plain hc hquote hslash hdata⟩
    · rw [List.cons_append, unescape_plain _ hquote hslash, herror]
      exact .inr rfl
  | @escape e w n he _ ih =>
    cases hsimple : simpleEscape e with
    | none =>
      rw [List.cons_append, List.cons_append, unescape_escape _ he, hsimple]
      exact .inr rfl
    | some c =>
      rcases ih with ⟨data, hdata⟩ | herror
      · exact .inl ⟨_, .escape hsimple hdata⟩
      · rw [List.cons_append, List.cons_append, unescape_escape _ he, hsimple]
        dsimp only
        rw [herror]
        exact .inr rfl
  | unicode _ ih =>
    rcases ih with ⟨data, hdata⟩ | herror
    · exact .inl ⟨_, .unicode hdata⟩
    · simp only [List.cons_append]
      rw [unescape_unicode, herror]
      exact .inr rfl

/-! ### Both passes -/

/-- The characters between two quotes as the reader takes them. -/
def StringChars (b : Text) (s : JsonString) : Prop := ∃ n, Chars b s.data n ∧ s.len = UInt32.ofNat n

/-- A string cut off less than four bytes behind `\u`. -/
inductive CutString : Text → Prop
  | mk {b n t} (hb : Skimmed b n) (ht : t.length < 4) :
      CutString (byte '"' :: (b ++ byte '\\' :: byte 'u' :: t))

theorem parseString_chars {b : Text} {s : JsonString} (h : StringChars b s) (rest : Text) :
    parseString (byte '"' :: (b ++ byte '"' :: rest)) = .ok (s, rest) := by
  obtain ⟨n, hchars, hlen⟩ := h
  have hmeasure : measure (b ++ byte '"' :: rest) 0 = .ok n := by
    rw [measure_skimmed hchars.skimmed, measure_quote, Nat.zero_add]
  unfold parseString
  dsimp only
  rw [if_neg (by simp), hmeasure]
  show (unescape (b ++ byte '"' :: rest)).bind _ = _
  rw [unescape_chars hchars, ← hlen]
  rfl

/-- A string, a string that is cut off, or an error. -/
theorem parseString_cases (p : Text) :
    (∃ b s rest, StringChars b s ∧ p = byte '"' :: (b ++ byte '"' :: rest)) ∨
      (CutString p ∧ parseString p = .error .overread) ∨ ∃ e, parseString p = .error (.error e) := by
  match p with
  | [] => exact .inr (.inr ⟨_, rfl⟩)
  | c :: p =>
    by_cases hquote : c = byte '"'
    · subst hquote
      have hstep : parseString (byte '"' :: p) = (measure p 0).bind fun len =>
          (unescape p).bind fun x => .ok (⟨x.1, UInt32.ofNat len⟩, x.2) := by
        unfold parseString
        dsimp only
        rw [if_neg (by simp)]
        rfl
      rcases measure_cases p with ⟨b, n, rest, hb, rfl⟩ | ⟨b, n, t, hb, ht, rfl⟩ | herror
      · rcases unescape_skimmed hb rest with ⟨data, hdata⟩ | herror
        · exact .inl ⟨b, ⟨data, UInt32.ofNat n⟩, rest, ⟨n, hdata, rfl⟩, rfl⟩
        · refine .inr (.inr ⟨.errInvalidEscape, ?_⟩)
          rw [hstep, measure_skimmed hb, measure_quote]
          show (unescape _).bind _ = _
          rw [herror]
          rfl
      · refine .inr (.inl ⟨.mk hb ht, ?_⟩)
        rw [hstep, measure_skimmed hb, measure_short ht]
        rfl
      · obtain ⟨e, he⟩ := herror 0
        refine .inr (.inr ⟨e, ?_⟩)
        rw [hstep, he]
        rfl
    · refine .inr (.inr ⟨.errSyntax, ?_⟩)
      unfold parseString
      exact if_pos hquote

theorem parseString_cut {p : Text} (h : CutString p) : parseString p = .error .overread := by
  cases h with
  | @mk b n t hb ht =>
    unfold parseString
    dsimp only
    rw [if_neg (by simp), measure_skimmed hb, measure_short ht]
    rfl

end Tusim.Json
