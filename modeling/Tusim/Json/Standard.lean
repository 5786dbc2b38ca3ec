import Tusim.Json.Reading
import Tusim.Lib.JsonString

/-!
# The reader against RFC 8259

The reader parses JSON and nothing else exactly on the texts that are not cut off inside an escape and whose strings and
integers, if the reader takes them at all, are exact (`parsesJson_iff`): the strings are characters of the standard, no
escape is half of a surrogate pair, and the length that is noted is the number of bytes that are written.
-/

namespace Tusim.Json

open JsonGrammar

/-! ### Trees that denote values -/

/-- The string holds these code points. -/
structure JsonString.Holds (s : JsonString) (cps : List Nat) : Prop where
  data : s.data = cps.flatMap utf8
  len : s.len.toNat = s.data.length

section

variable {F : Type} (round : Bool → Rat → F)

/-- The tree denotes the value. -/
inductive Denotes : JsonValue → TuJsonValue F → Prop
  | null : Denotes .null .null
  | bool (b : Bool) : Denotes (.bool b) (.bool b)
  | int {n} (h : n.IsInt) : Denotes (.number n) (.int n.intValue)
  | double {n} (h : ¬ n.IsInt) : Denotes (.number n) (.double (round n.negative n.magnitude))
  | string {cps s} (h : s.Holds cps) : Denotes (.string cps) (.string s)
  | array {vs ts} (h : List.Forall₂ Denotes vs ts) : Denotes (.array vs) (.array ts)
  | object {ms ps} (hkeys : List.Forall₂ (fun k s => JsonString.Holds s k) (ms.map Prod.fst) (ps.map Prod.fst))
      (hvalues : List.Forall₂ Denotes (ms.map Prod.snd) (ps.map Prod.snd)) : Denotes (.object ms) (.object ps)

/-- The reader accepts JSON within its limits and nothing else, the tree denotes the value, and nothing behind the
terminator is read. -/
structure ParsesJson (s : Text) : Prop where
  accepts : (∃ t, tuJsonParse round s = .ok t) ↔ ∃ v, Document standard limits v s
  denotes : ∀ t, tuJsonParse round s = .ok t → ∃ v, Document standard limits v s ∧ Denotes round v t
  inside : tuJsonParse round s ≠ .error .overread

end

/-! ### Exact strings and numbers -/

/-- Characters of the standard without surrogate pairs, less than `2^32` bytes; the escapes of code points below `0x800`
fall short of three bytes by a multiple of `2^32` in all. -/
def ExactString (b : Text) : Prop :=
  ∃ ts, b = tokensText ts ∧ surrogatePairs ts = 0 ∧ (tokensUtf8 ts).length < 2 ^ 32 ∧ 2 ^ 32 ∣ tokensLoss ts

/-- An integer is one of 64 bits. -/
def ExactNumber (n : Numeral) : Prop := n.IsInt → -2 ^ 63 ≤ n.intValue ∧ n.intValue < 2 ^ 63

/-- JSON with exact strings and numbers. -/
def exact : JsonGrammar.Reading Unit Unit where
  chars b _ := ExactString b
  number n _ := ExactNumber n
  null := ()
  bool _ := ()
  string _ := ()
  array _ := ()
  object _ := ()

/-! ### Standard strings in the reader -/

theorem hexDigit_eq {b : UInt8} {v : Nat} (h : hexValue b = some v) : hexDigit b = UInt32.ofNat v := by
  have hall : ∀ n < 256, (hexValue (UInt8.ofNat n)).all (fun v => hexDigit (UInt8.ofNat n) == UInt32.ofNat v) = true := by
    decide +kernel
  have hb := hall b.toNat b.toNat_lt
  rw [UInt8.ofNat_toNat, h] at hb
  exact eq_of_beq hb

/-- The bytes the reader writes for a code point below `0x10000` are its UTF-8. -/
theorem writtenBytes_eq {v : Nat} (hv : v < 0x10000) :
    (if UInt32.ofNat v < 0x80 then [(UInt32.ofNat v).toUInt8]
      else if UInt32.ofNat v < 0x800 then
        [((0xC0 : UInt32) ||| (UInt32.ofNat v >>> 6)).toUInt8, ((0x80 : UInt32) ||| (UInt32.ofNat v &&& 0x3F)).toUInt8]
      else
        [((0xE0 : UInt32) ||| (UInt32.ofNat v >>> 12)).toUInt8,
          ((0x80 : UInt32) ||| (UInt32.ofNat v >>> 6 &&& 0x3F)).toUInt8,
          ((0x80 : UInt32) ||| (UInt32.ofNat v &&& 0x3F)).toUInt8]) = utf8 v := by
  have hnat : (UInt32.ofNat v).toNat = v := by simp; omega
  have hlt : ∀ n : Nat, n < 2 ^ 32 → (UInt32.ofNat v < UInt32.ofNat n ↔ v < n) := by
    intro n hn
    rw [UInt32.lt_iff_toNat_lt, hnat]
    simp
    omega
  have hbyte : ∀ {x : UInt32} {y : Nat}, x.toNat = y → x.toUInt8 = y.toUInt8 := by
    intro x y h
    apply UInt8.toNat.inj
    simp [h]
  have hor : ∀ (k a b : Nat), b < 2 ^ k → 2 ^ k * a ||| b = 2 ^ k * a + b := fun k a b hb =>
    (Nat.two_pow_add_eq_or_of_lt hb a).symm
  have hlow : ∀ x : UInt32, (((0x80 : UInt32) ||| (x &&& 0x3F)).toNat) = 0x80 + x.toNat % 0x40 := by
    intro x
    rw [UInt32.toNat_or, UInt32.toNat_and]
    show 2 ^ 7 * 1 ||| (x.toNat &&& (2 ^ 6 - 1)) = _
    rw [Nat.and_two_pow_sub_one_eq_mod, hor 7 1 _ (by omega)]
    rfl
  have hshift : ∀ k : Nat, k < 32 → (UInt32.ofNat v >>> UInt32.ofNat k).toNat = v / 2 ^ k := by
    intro k hk
    rw [UInt32.toNat_shiftRight, hnat, Nat.shiftRight_eq_div_pow]
    congr 2
    simp
    omega
  unfold utf8
  have h80 : UInt32.ofNat v < 0x80 ↔ v < 0x80 := hlt 0x80 (by decide)
  have h800 : UInt32.ofNat v < 0x800 ↔ v < 0x800 := hlt 0x800 (by decide)
  by_cases h1 : v < 0x80
  · rw [if_pos (h80.2 h1), if_pos h1, hbyte hnat]
  · rw [if_neg (mt h80.1 h1), if_neg h1]
    by_cases h2 : v < 0x800
    · have h6 : (UInt32.ofNat v >>> 6).toNat = v / 0x40 := hshift 6 (by decide)
      have hhead : ((0xC0 : UInt32) ||| (UInt32.ofNat v >>> 6)).toNat = 0xC0 + v / 0x40 := by
        rw [UInt32.toNat_or, h6]
        exact hor 6 3 _ (by omega)
      rw [if_pos (h800.2 h2), if_pos h2, hbyte hhead, hbyte (hlow _), hnat]
    · have h6 : (UInt32.ofNat v >>> 6).toNat = v / 0x40 := hshift 6 (by decide)
      have h12 : (UInt32.ofNat v >>> 12).toNat = v / 0x1000 := hshift 12 (by decide)
      have hhead : ((0xE0 : UInt32) ||| (UInt32.ofNat v >>> 12)).toNat = 0xE0 + v / 0x1000 := by
        rw [UInt32.toNat_or, h12]
        exact hor 5 7 _ (by omega)
      rw [if_neg (mt h800.1 h2), if_neg h2, if_pos hv, hbyte hhead, hbyte (hlow _), hbyte (hlow _), hnat, h6]

theorem unicodeBytes_eq (a b c d : HexDigit) :
    unicodeBytes a.1 b.1 c.1 d.1 = utf8 (Token.unicode a b c d).codePoint := by
  have hdigit : ∀ x : HexDigit, hexDigit x.1 = UInt32.ofNat x.value := fun x => hexDigit_eq (Option.some_get x.2).symm
  have hcp : [a.1, b.1, c.1, d.1].foldl (fun cp digit => cp * 16 + hexDigit digit) 0 =
      UInt32.ofNat (Token.unicode a b c d).codePoint := by
    simp only [List.foldl_cons, List.foldl_nil, hdigit]
    apply UInt32.toNat.inj
    show _ = (UInt32.ofNat (((a.value * 16 + b.value) * 16 + c.value) * 16 + d.value)).toNat
    simp
  unfold unicodeBytes
  rw [hcp]
  exact writtenBytes_eq (Token.codePoint_unicode_lt a b c d)

/-- Bytes that stand for themselves. -/
theorem chars_plain {w : Text} (hw : ∀ b ∈ w, 0x20 ≤ b ∧ b ≠ byte '"' ∧ b ≠ byte '\\') {w' data : Text} {n : Nat}
    (h : Chars w' data n) : Chars (w ++ w') (w ++ data) (w.length + n) := by
  induction w with
  | nil => simpa using h
  | cons b w ih =>
    obtain ⟨hb, hquote, hslash⟩ := hw b (List.mem_cons_self ..)
    have htail := ih fun b hb => hw b (List.mem_cons_of_mem _ hb)
    have hlen : (b :: w).length + n = w.length + n + 1 := by rw [List.length_cons]; omega
    rw [hlen]
    exact .plain hb hquote hslash htail

theorem plain_byte {n : Nat} (hlow : 0x20 ≤ n) (hquote : n ≠ 0x22) (hslash : n ≠ 0x5C) (hn : n < 256) :
    0x20 ≤ n.toUInt8 ∧ n.toUInt8 ≠ byte '"' ∧ n.toUInt8 ≠ byte '\\' := by
  have hnat : n.toUInt8.toNat = n := by simp; omega
  refine ⟨UInt8.le_iff_toNat_le.2 (hnat.symm ▸ hlow), fun h => hquote ?_, fun h => hslash ?_⟩
  · rw [← hnat, h]
    rfl
  · rw [← hnat, h]
    rfl

/-- No byte of a character that stands for itself ends the string or begins an escape. -/
theorem utf8_plain (c : Unescaped) : ∀ b ∈ utf8 c.1.toNat, 0x20 ≤ b ∧ b ≠ byte '"' ∧ b ≠ byte '\\' := by
  obtain ⟨c, hlow, hquote, hslash⟩ := c
  have hvalid : c.toNat < 0x110000 := by
    rcases c.valid with h | ⟨-, h⟩
    · exact Nat.lt_trans h (by decide)
    · exact h
  intro b hb
  dsimp only at hb
  unfold utf8 at hb
  split_ifs at hb with h1 h2 h3
  · rw [List.mem_singleton.1 hb]
    exact plain_byte hlow hquote hslash (by omega)
  · simp only [List.mem_cons, List.not_mem_nil, or_false] at hb
    rcases hb with rfl | rfl
    · exact plain_byte (by omega) (by omega) (by omega) (by omega)
    · exact plain_byte (by omega) (by omega) (by omega) (by omega)
  · simp only [List.mem_cons, List.not_mem_nil, or_false] at hb
    rcases hb with rfl | rfl | rfl
    · exact plain_byte (by omega) (by omega) (by omega) (by omega)
    · exact plain_byte (by omega) (by omega) (by omega) (by omega)
    · exact plain_byte (by omega) (by omega) (by omega) (by omega)
  · simp only [List.mem_cons, List.not_mem_nil, or_false] at hb
    rcases hb with rfl | rfl | rfl | rfl
    · exact plain_byte (by omega) (by omega) (by omega) (by omega)
    · exact plain_byte (by omega) (by omega) (by omega) (by omega)
    · exact plain_byte (by omega) (by omega) (by omega) (by omega)
    · exact plain_byte (by omega) (by omega) (by omega) (by omega)

theorem simpleEscape_letter (e : Escape) : simpleEscape e.letter = some e.codePoint.toUInt8 := by
  cases e <;> rfl

theorem utf8_escape (e : Escape) : utf8 e.codePoint = [e.codePoint.toUInt8] := by
  cases e <;> rfl

/-- The reader writes a standard string token by token. -/
theorem chars_tokens (ts : List Token) : Chars (tokensText ts) (tokensUtf8 ts) ((tokensUtf8 ts).length + tokensLoss ts) := by
  induction ts with
  | nil => exact .nil
  | cons t ts ih =>
    have hdata : tokensUtf8 (t :: ts) = utf8 t.codePoint ++ tokensUtf8 ts := rfl
    have hloss : tokensLoss (t :: ts) = t.loss + tokensLoss ts := List.sum_cons
    have hlen : (tokensUtf8 (t :: ts)).length + tokensLoss (t :: ts) =
        utf8Size t.codePoint + t.loss + ((tokensUtf8 ts).length + tokensLoss ts) := by
      rw [hdata, hloss, List.length_append, length_utf8]
      omega
    rw [hlen, hdata]
    cases t with
    | plain c =>
      have h := chars_plain (utf8_plain c) ih
      rw [length_utf8] at h
      exact h
    | escape e =>
      have h : Chars _ _ _ := .escape (simpleEscape_letter e) ih
      have hsize : utf8Size e.codePoint = 1 := by cases e <;> rfl
      show Chars _ (utf8 e.codePoint ++ _) (utf8Size e.codePoint + 0 + _)
      rw [utf8_escape, hsize, Nat.add_comm (1 + 0)]
      exact h
    | unicode a b c d =>
      have h : Chars (byte '\\' :: byte 'u' :: a.1 :: b.1 :: c.1 :: d.1 :: tokensText ts) _ _ := .unicode ih
      have hsize : utf8Size (Token.unicode a b c d).codePoint ≤ 3 := by
        have hlt := Token.codePoint_unicode_lt a b c d
        unfold utf8Size
        split_ifs <;> omega
      have hthree : utf8Size (Token.unicode a b c d).codePoint + (Token.unicode a b c d).loss = 3 := by
        show _ + (3 - utf8Size (Token.unicode a b c d).codePoint) = 3
        omega
      rw [hthree, Nat.add_comm 3, ← unicodeBytes_eq]
      exact h

/-! ### What is written is determined -/

theorem Chars.unique {b data data' : Text} {n n' : Nat} (h : Chars b data n) (h' : Chars b data' n') :
    data = data' ∧ n = n' := by
  have hdata := (unescape_chars h []).symm.trans (unescape_chars h' [])
  have hlen := (measure_skimmed h.skimmed [byte '"'] 0).symm.trans (measure_skimmed h'.skimmed [byte '"'] 0)
  rw [measure_quote, measure_quote, Nat.zero_add, Nat.zero_add] at hlen
  exact ⟨(Prod.mk.inj (Except.ok.inj hdata)).1, Except.ok.inj hlen⟩

theorem ofNat_length_iff {size loss : Nat} :
    (UInt32.ofNat (size + loss)).toNat = size ↔ size < 2 ^ 32 ∧ 2 ^ 32 ∣ loss := by
  rw [UInt32.toNat_ofNat']
  constructor
  · intro h
    have hlt : size < 2 ^ 32 := h ▸ Nat.mod_lt _ (by decide)
    refine ⟨hlt, Nat.dvd_of_mod_eq_zero ?_⟩
    omega
  · rintro ⟨hlt, k, rfl⟩
    rw [Nat.add_mul_mod_self_left, Nat.mod_eq_of_lt hlt]

/-- A standard string that the reader takes holds its code points if and only if it is exact. -/
theorem holds_tokens_iff {ts : List Token} {s : JsonString} (hs : StringChars (tokensText ts) s) :
    s.Holds (codePoints ts) ↔
      surrogatePairs ts = 0 ∧ (tokensUtf8 ts).length < 2 ^ 32 ∧ 2 ^ 32 ∣ tokensLoss ts := by
  obtain ⟨n, hchars, hlen⟩ := hs
  obtain ⟨hdata, hn⟩ := hchars.unique (chars_tokens ts)
  have hpairs := length_utf8_codePoints ts
  rw [hn] at hlen
  constructor
  · rintro ⟨hbytes, hsize⟩
    rw [hlen, hdata] at hsize
    rw [hdata] at hbytes
    rw [← hbytes] at hpairs
    exact ⟨by omega, ofNat_length_iff.1 hsize⟩
  · rintro ⟨hnone, hsize⟩
    refine ⟨hdata.trans (utf8_codePoints hnone).symm, ?_⟩
    rw [hlen, hdata]
    exact ofNat_length_iff.2 hsize

section

variable {F : Type} (round : Bool → Rat → F)

theorem denotes_number_iff (n : Numeral) : Denotes round (.number n) (readNumber round n) ↔ ExactNumber n := by
  unfold readNumber ExactNumber
  by_cases hint : n.IsInt
  · rw [if_pos hint, strtoll_text hint]
    constructor
    · intro h _
      generalize hv : max (-2 ^ 63) (min n.intValue (2 ^ 63 - 1)) = v at h
      cases h with
      | int h => omega
    · intro h
      obtain ⟨hlow, hhigh⟩ := h hint
      rw [min_eq_left (by omega), max_eq_right hlow]
      exact .int hint
  · rw [if_neg hint, strtod_text]
    exact iff_of_true (.double hint) fun h => absurd h hint

/-! ### The two grammars side by side -/

/-- A text read as the standard reads it and as the reader reads it. -/
def both : JsonGrammar.Reading (JsonValue × TuJsonValue F) (List Nat × JsonString) := standard.prod (reader round)

/-- The reader takes what the standard takes. -/
theorem standard_both : Simulation standard (both round) (fun _ => True) (fun _ => True) (fun v p => p.1 = v)
    (fun s s' => s'.1 = s) := by
  refine simulation_prod ?_ fun n v _ => ⟨_, rfl⟩
  rintro b cps ⟨ts, rfl, -⟩
  exact ⟨⟨tokensUtf8 ts, _⟩, _, chars_tokens ts, rfl⟩

theorem forall_of_forall₂_map {α β γ : Type} {rel : β → γ → Prop} {f : α → β} {g : α → γ} {l : List α}
    (h : List.Forall₂ rel (l.map f) (l.map g)) : ∀ a ∈ l, rel (f a) (g a) := by
  rw [List.forall₂_map_left_iff, List.forall₂_map_right_iff, List.forall₂_same] at h
  exact h

theorem forall_of_forall₂ {α β : Type} {P : β → Prop} {as : List α} {bs : List β}
    (h : List.Forall₂ (fun _ b => P b) as bs) : ∀ b ∈ bs, P b := by
  induction h with
  | nil => exact fun b hb => absurd hb List.not_mem_nil
  | cons h _ ih => exact List.forall_mem_cons.2 ⟨h, ih⟩

/-- Where the tree denotes the value the text is exact. -/
theorem both_exact : Simulation (both round) exact (fun p => Denotes round p.1 p.2) (fun k => k.2.Holds k.1)
    (fun _ _ => True) (fun _ _ => True) where
  chars := by
    rintro b ⟨cps, s⟩ ⟨⟨ts, rfl, rfl⟩, hs⟩ hholds
    exact ⟨(), ⟨ts, rfl, (holds_tokens_iff hs).1 hholds⟩, trivial⟩
  number := by
    rintro n ⟨v, t⟩ ⟨rfl, rfl⟩ hdenotes
    exact ⟨(), (denotes_number_iff round n).1 hdenotes, trivial⟩
  null := trivial
  bool _ := trivial
  string _ := trivial
  array _ := trivial
  object _ := trivial
  good_string := by
    rintro s (h : Denotes round (.string s.1) (.string s.2))
    cases h with
    | string h => exact h
  good_array := by
    rintro vs (h : Denotes round (.array (vs.map Prod.fst)) (.array (vs.map Prod.snd)))
    cases h with
    | array h => exact forall_of_forall₂_map h
  good_object := by
    intro ms h
    have h : Denotes round (.object (ms.map fun m => (m.1.1, m.2.1))) (.object (ms.map fun m => (m.1.2, m.2.2))) := h
    cases h with
    | object hkeys hvalues =>
      rw [List.map_map, List.map_map] at hkeys hvalues
      exact fun m hm => ⟨forall_of_forall₂_map hkeys m hm, forall_of_forall₂_map hvalues m hm⟩

/-- An exact text is one of the standard and of the reader, and the tree denotes the value. -/
theorem exact_both : Simulation exact (both round) (fun _ => True) (fun _ => True) (fun _ p => Denotes round p.1 p.2)
    (fun _ k => k.2.Holds k.1) where
  chars := by
    rintro b - ⟨ts, rfl, hexact⟩ -
    have hs : StringChars (tokensText ts) ⟨tokensUtf8 ts, _⟩ := ⟨_, chars_tokens ts, rfl⟩
    exact ⟨(codePoints ts, _), ⟨⟨ts, rfl, rfl⟩, hs⟩, (holds_tokens_iff hs).2 hexact⟩
  number := fun {n _} h _ => ⟨(.number n, readNumber round n), ⟨rfl, rfl⟩, (denotes_number_iff round n).2 h⟩
  null := .null
  bool b := .bool b
  string h := .string h
  array h := by
    refine .array ?_
    rw [List.forall₂_map_left_iff, List.forall₂_map_right_iff, List.forall₂_same]
    exact forall_of_forall₂ h
  object h := by
    have hall := forall_of_forall₂ h
    refine .object ?_ ?_
    · rw [List.map_map, List.map_map, List.forall₂_map_left_iff, List.forall₂_map_right_iff, List.forall₂_same]
      exact fun m hm => (hall m hm).1
    · rw [List.map_map, List.map_map, List.forall₂_map_left_iff, List.forall₂_map_right_iff, List.forall₂_same]
      exact fun m hm => (hall m hm).2
  good_string _ := trivial
  good_array _ _ _ := trivial
  good_object _ _ _ := ⟨trivial, trivial⟩

/-- The text is JSON but for its strings, which are what the reader takes for one. -/
def Loose (s : Text) : Prop := ∃ t, Document (reader round) limits t s

/-- The text is cut off less than four bytes behind a `\u`. -/
def CutShort (s : Text) : Prop := ∃ u t, Blank u ∧ Cut round limits.depth t ∧ s = u ++ t

/-- The reader parses JSON and nothing else if and only if the text is not cut off inside an escape and is exact if it is
JSON at all but for its strings. -/
theorem parsesJson_iff (s : Text) :
    ParsesJson round s ↔ ¬ CutShort round s ∧ (Loose round s → Document exact limits () s) := by
  constructor
  · intro h
    refine ⟨fun hcut => h.inside ((tuJsonParse_eq_overread round).2 hcut), ?_⟩
    rintro ⟨t, ht⟩
    obtain ⟨v, hv, hdenotes⟩ := h.denotes t ((tuJsonParse_eq_ok round).2 ht)
    obtain ⟨p, hp, rfl⟩ := (standard_both round).document hv trivial
    obtain ⟨t', ht', rfl⟩ := simulation_snd.document hp trivial
    have hsame : t = p.2 :=
      Except.ok.inj (((tuJsonParse_eq_ok round).2 ht).symm.trans ((tuJsonParse_eq_ok round).2 ht'))
    obtain ⟨_, hexact, -⟩ := (both_exact round).document hp (hsame ▸ hdenotes)
    exact hexact
  · rintro ⟨hcut, hexact⟩
    have hboth : ∀ {t}, tuJsonParse round s = .ok t → ∃ v, Document standard limits v s ∧ Denotes round v t := by
      intro t ht
      obtain ⟨p, hp, hdenotes⟩ := (exact_both round).document (hexact ⟨t, (tuJsonParse_eq_ok round).1 ht⟩) trivial
      obtain ⟨v, hv, rfl⟩ := simulation_fst.document hp trivial
      obtain ⟨t', ht', rfl⟩ := simulation_snd.document hp trivial
      have hsame : t = p.2 := Except.ok.inj (ht.symm.trans ((tuJsonParse_eq_ok round).2 ht'))
      exact ⟨p.1, hv, hsame ▸ hdenotes⟩
    refine ⟨⟨?_, ?_⟩, fun t ht => hboth ht, fun hover => hcut ((tuJsonParse_eq_overread round).1 hover)⟩
    · rintro ⟨t, ht⟩
      obtain ⟨v, hv, -⟩ := hboth ht
      exact ⟨v, hv⟩
    · rintro ⟨v, hv⟩
      obtain ⟨p, hp, -⟩ := (standard_both round).document hv trivial
      obtain ⟨t, ht, -⟩ := simulation_snd.document hp trivial
      exact ⟨t, (tuJsonParse_eq_ok round).2 ht⟩

end

/-- A string that ends behind `\u12` is read behind its terminator. -/
theorem not_parsesJson : ¬ ParsesJson (fun _ _ => ()) (bytes ['"', '\\', 'u', '1', '2']) := fun h => h.inside rfl

end Tusim.Json
