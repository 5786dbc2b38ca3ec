import Tusim.Config.Load
import Tusim.Json.Standard

/-!
# The lengths of strings

The reader notes as the length of a string what the first pass counts, three bytes for every `\u`; the second pass writes
one to three.  So the length is the true one exactly if the escapes do not fall short (`len_iff`), and only then is a
member found under its name.  `trueLengths_iff` says it of a whole text.
-/

namespace Tusim.Json

open Config JsonGrammar

/-- By how much the bytes of the `\u` escapes between two quotes fall short of three each. -/
def shortfall : Text → Nat
  | [] => 0
  | c :: src =>
    if c = byte '\\' then
      match src with
      | [] => 0
      | e :: src =>
        if e = byte 'u' then
          match src with
          | a :: b :: c :: d :: src => 3 - (unicodeBytes a b c d).length + shortfall src
          | _ => 0
        else shortfall src
    else shortfall src

theorem length_unicodeBytes_le (a b c d : UInt8) : (unicodeBytes a b c d).length ≤ 3 := by
  unfold unicodeBytes
  dsimp only
  split_ifs <;> simp

/-- The first pass counts the bytes that the second writes, and the shortfall of the escapes. -/
theorem Chars.count {b data : Text} {n : Nat} (h : Chars b data n) : n = data.length + shortfall b := by
  induction h with
  | nil => rfl
  | @plain c w data n hc hquote hslash _ ih =>
    have hskip : shortfall (c :: w) = shortfall w := by
      rw [shortfall.eq_def]
      exact if_neg hslash
    rw [hskip, List.length_cons]
    omega
  | @escape e c w data n he _ ih =>
    have hskip : shortfall (byte '\\' :: e :: w) = shortfall w := by
      rw [shortfall.eq_def]
      dsimp only
      rw [if_pos rfl, if_neg (simpleEscape_ne he)]
    rw [hskip, List.length_cons]
    omega
  | @unicode a b c d w data n _ ih =>
    have hle := length_unicodeBytes_le a b c d
    have hshort : shortfall (byte '\\' :: byte 'u' :: a :: b :: c :: d :: w) =
        3 - (unicodeBytes a b c d).length + shortfall w := by
      rw [shortfall.eq_def]
      dsimp only
      rw [if_pos rfl, if_pos rfl]
    rw [hshort, List.length_append]
    omega

/-- The characters of a string whose length the reader notes right: less than `2^32` bytes, and escapes that do not fall
short, unless by a multiple of `2^32`. -/
def TrueLength (b : Text) : Prop := ∃ data n, Chars b data n ∧ data.length < 2 ^ 32 ∧ 2 ^ 32 ∣ shortfall b

theorem len_iff {b : Text} {s : JsonString} (h : StringChars b s) : s.len.toNat = s.data.length ↔ TrueLength b := by
  obtain ⟨n, hchars, hlen⟩ := h
  rw [hlen, hchars.count, ofNat_length_iff]
  constructor
  · rintro ⟨hlt, hdvd⟩
    exact ⟨s.data, n, hchars, hlt, hdvd⟩
  · rintro ⟨data, m, hchars', hlt, hdvd⟩
    rw [(hchars.unique hchars').1]
    exact ⟨hlt, hdvd⟩

/-! ### The strings of a value -/

section

variable {F : Type}

/-- The string is one of the value, or the name of a member somewhere in it. -/
inductive Occurs (s : JsonString) : TuJsonValue F → Prop
  | string : Occurs s (.string s)
  | item {v items} (hv : v ∈ items) (h : Occurs s v) : Occurs s (.array items)
  | key {v pairs} (hv : (s, v) ∈ pairs) : Occurs s (.object pairs)
  | member {k v pairs} (hv : (k, v) ∈ pairs) (h : Occurs s v) : Occurs s (.object pairs)

/-- The members are those of an object somewhere in the value. -/
inductive HasObject (pairs : List (JsonString × TuJsonValue F)) : TuJsonValue F → Prop
  | here : HasObject pairs (.object pairs)
  | item {v items} (hv : v ∈ items) (h : HasObject pairs v) : HasObject pairs (.array items)
  | member {k v pairs'} (hv : (k, v) ∈ pairs') (h : HasObject pairs v) : HasObject pairs (.object pairs')

/-- The strings of the value have their true lengths, and every member of an object is found by a key that spells the
bytes of its name; a key is a C string, without zeros. -/
structure TrueLengths (root : TuJsonValue F) : Prop where
  len : ∀ s, Occurs s root → s.len.toNat = s.data.length
  get : ∀ pairs, HasObject pairs root → ∀ p ∈ pairs, ∀ key : String, 0 ∉ name key → name key = p.1.data →
    (tuJsonGet (some (.object pairs)) key).isSome = true

theorem occurs_of_hasObject {pairs : List (JsonString × TuJsonValue F)} {root : TuJsonValue F}
    (h : HasObject pairs root) {p : JsonString × TuJsonValue F} (hp : p ∈ pairs) : Occurs p.1 root := by
  induction h with
  | here => exact .key hp
  | item hv _ ih => exact .item hv ih
  | member hv _ ih => exact .member hv ih

/-- A name with its true length matches a key of its bytes. -/
theorem tuJsonGet_isSome {pairs : List (JsonString × TuJsonValue F)} {p : JsonString × TuJsonValue F} (hp : p ∈ pairs)
    (hlen : p.1.len.toNat = p.1.data.length) {key : String} (hkey : name key = p.1.data) :
    (tuJsonGet (some (.object pairs)) key).isSome = true := by
  have hmatch : keyMatches p.1 key = true := by
    unfold keyMatches
    rw [hkey, hlen, List.take_length]
    simp
  unfold tuJsonGet
  rw [Option.isSome_map, List.find?_isSome]
  exact ⟨p, hp, hmatch⟩

/-- The lengths carry the rest. -/
theorem trueLengths_of_len {root : TuJsonValue F} (h : ∀ s, Occurs s root → s.len.toNat = s.data.length) :
    TrueLengths root :=
  ⟨h, fun _ hpairs p hp _ _ hkey => tuJsonGet_isSome hp (h p.1 (occurs_of_hasObject hpairs hp)) hkey⟩

/-! ### Texts -/

/-- The lengths of the strings of the value are the true ones. -/
def AllTrue (v : TuJsonValue F) : Prop := ∀ s, Occurs s v → s.len.toNat = s.data.length

theorem allTrue_scalar {v : TuJsonValue F} (h : ∀ s, ¬ Occurs s v) : AllTrue v := fun s hs => absurd hs (h s)

end

theorem allTrue_number {F : Type} (round : Bool → Rat → F) (n : Numeral) : AllTrue (readNumber round n) := by
  unfold readNumber
  split
  · exact allTrue_scalar nofun
  · exact allTrue_scalar nofun

/-- JSON as the reader takes it, with true lengths. -/
def lossless : JsonGrammar.Reading Unit Unit where
  chars b _ := TrueLength b
  number _ _ := True
  null := ()
  bool _ := ()
  string _ := ()
  array _ := ()
  object _ := ()

section

variable {F : Type} (round : Bool → Rat → F)

/-- A value with true lengths was spelled without loss. -/
theorem reader_lossless : Simulation (reader round) lossless AllTrue (fun s => s.len.toNat = s.data.length)
    (fun _ _ => True) (fun _ _ => True) where
  chars h hgood := ⟨(), (len_iff h).1 hgood, trivial⟩
  number _ _ := ⟨(), trivial, trivial⟩
  null := trivial
  bool _ := trivial
  string _ := trivial
  array _ := trivial
  object _ := trivial
  good_string h := h _ .string
  good_array h _ hv s hs := h s (.item hv hs)
  good_object h m hm := ⟨h m.1 (.key hm), fun s hs => h s (.member hm hs)⟩

/-- A text without loss is read with true lengths. -/
theorem lossless_reader : Simulation lossless (reader round) (fun _ => True) (fun _ => True) (fun _ v => AllTrue v)
    (fun _ s => s.len.toNat = s.data.length) where
  chars := by
    intro b _ htrue _
    obtain ⟨data, n, hchars, -⟩ := id htrue
    have hs : StringChars b ⟨data, UInt32.ofNat n⟩ := ⟨n, hchars, rfl⟩
    exact ⟨_, hs, (len_iff hs).2 htrue⟩
  number _ _ := ⟨_, rfl, allTrue_number round _⟩
  null := allTrue_scalar nofun
  bool _ := allTrue_scalar nofun
  string hkey := by
    rintro s ⟨⟩
    exact hkey
  array hvs := by
    intro s hs
    cases hs with
    | item hv h => exact forall_of_forall₂ hvs _ hv s h
  object hms := by
    intro s hs
    cases hs with
    | key hv => exact (forall_of_forall₂ hms _ hv).1
    | member hv h => exact (forall_of_forall₂ hms _ hv).2 s h
  good_string _ := trivial
  good_array _ _ _ := trivial
  good_object _ _ _ := ⟨trivial, trivial⟩

/-- **The strings of an accepted text have their true lengths**, and the members are found under their names, exactly if
no escape of the text falls short. -/
theorem trueLengths_iff {s : Text} {v : TuJsonValue F} (h : tuJsonParse round s = .ok v) :
    TrueLengths v ↔ Document lossless limits () s := by
  constructor
  · intro htrue
    obtain ⟨_, hdocument, -⟩ := (reader_lossless round).document ((tuJsonParse_eq_ok round).1 h) htrue.len
    exact hdocument
  · intro hdocument
    obtain ⟨v', hv', htrue⟩ := (lossless_reader round).document hdocument trivial
    have hsame : v = v' := Except.ok.inj (h.symm.trans ((tuJsonParse_eq_ok round).2 hv'))
    exact trueLengths_of_len (hsame ▸ htrue)

end

/-- The text `"\u20AC"`: an escape of three bytes. -/
theorem trueLengths_iff_euro :
    TrueLengths (.string ⟨[0xE2, 0x82, 0xAC], 3⟩ : TuJsonValue Unit) ↔
      Document lossless limits () (bytes ['"', '\\', 'u', '2', '0', 'A', 'C', '"']) :=
  trueLengths_iff (fun _ _ => ()) rfl

/-- The text `{"\u0041":1}`: the name is one byte, its length is noted as three, and the key `A` does not find it. -/
theorem not_trueLengths_letter :
    let v : TuJsonValue Unit := .object [(⟨[0x41], 3⟩, .int 1)]
    tuJsonParse (fun _ _ => ()) (bytes ['\x7b', '"', '\\', 'u', '0', '0', '4', '1', '"', ':', '1', '\x7d']) = .ok v ∧
      (tuJsonGet (some v) "A").isSome = false ∧ ¬ TrueLengths v := by
  intro v
  refine ⟨rfl, rfl, fun h => ?_⟩
  exact absurd (h.len ⟨[0x41], 3⟩ (.key (List.mem_cons_self ..))) (by decide)

end Tusim.Json
