import Tusim.Json.Numbers
import Tusim.Json.Strings

/-!
# The grammar of the reader

The reader takes the JSON grammar with its own notion of the characters of a string, reads behind the terminator on the
texts that are cut off inside an escape (`Cut`), and refuses everything else.

Key facts:
* `Reads.inside`: if the elements are read, what is between two brackets is.
* `dispatch_reads`: if what is between brackets is read, a value is.
* `tuJsonParse_eq_ok`, `tuJsonParse_eq_overread`.
-/

namespace Tusim.Json

open JsonGrammar

/-! ### White space -/

theorem isWs_iff {c : UInt8} : isWs c = true ↔ IsBlank c := by
  unfold isWs IsBlank
  simp [or_assoc]

theorem skipWs_blank {u : Text} (hu : Blank u) (p : Text) : skipWs (u ++ p) = skipWs p :=
  List.dropWhile_append_of_pos fun c hc => isWs_iff.2 (hu c hc)

theorem skipWs_cons {c : UInt8} (hc : isWs c = false) (p : Text) : skipWs (c :: p) = c :: p :=
  List.dropWhile_cons_of_neg (by simp [hc])

/-- The white space at the front, and what is behind it. -/
theorem skipWs_cases (p : Text) :
    ∃ u, Blank u ∧ p = u ++ skipWs p ∧ ∀ c ∈ (skipWs p).head?, isWs c = false := by
  refine ⟨p.takeWhile isWs, fun c hc => isWs_iff.1 (List.mem_takeWhile_imp hc), ?_, fun c hc => ?_⟩
  · exact (List.takeWhile_append_dropWhile ..).symm
  · have h := List.head?_dropWhile_not isWs p
    unfold skipWs at hc
    rw [Option.mem_def.1 hc] at h
    simpa using h

theorem skipWs_skipWs (p : Text) : skipWs (skipWs p) = skipWs p := by
  obtain ⟨u, hu, hp, -⟩ := skipWs_cases p
  conv_rhs => rw [hp]
  rw [skipWs_blank hu]

/-- White space and what is no part of a number end a number. -/
theorem stops_blank {u : Text} (hu : Blank u) {rest : Text} (h : Stops rest) : Stops (u ++ rest) := by
  cases u with
  | nil => exact h
  | cons c u =>
    rintro _ ⟨⟩
    rcases hu c (List.mem_cons_self ..) with rfl | rfl | rfl | rfl <;> decide

theorem stops_cons {c : UInt8} (hc : isDigit c = false ∧ c ≠ byte '.' ∧ c ≠ byte 'e' ∧ c ≠ byte 'E') (rest : Text) :
    Stops (c :: rest) := by
  rintro _ ⟨⟩
  exact hc

theorem stops_comma (rest : Text) : Stops (byte ',' :: rest) := stops_cons (by decide) rest

/-! ### Elements between brackets -/

section

variable {α : Type}

/-- A parser reads elements: those of the grammar, the rest is cut off or an error. -/
structure Reads (parse : Text → Except JsonFault (α × Text)) (elem : α → Text → Prop) (cut : Text → Prop) : Prop where
  read : ∀ {u a w rest}, Blank u → elem a w → Stops rest → parse (skipWs (u ++ (w ++ rest))) = .ok (a, rest)
  overread : ∀ {u t}, Blank u → cut t → parse (skipWs (u ++ t)) = .error .overread
  cases : ∀ p, (∃ u a w rest, Blank u ∧ elem a w ∧ p = u ++ (w ++ rest) ∧ parse (skipWs p) = .ok (a, rest)) ∨
    (∃ u t, Blank u ∧ cut t ∧ p = u ++ t) ∨ ∃ e, parse (skipWs p) = .error (.error e)

/-- A parser reads what is between two brackets. -/
structure Inside (parse : Text → Except JsonFault (α × Text)) (cont : α → Text → Prop) (cut : Text → Prop) : Prop where
  read : ∀ {a w}, cont a w → ∀ rest, parse (w ++ rest) = .ok (a, rest)
  overread : ∀ {t}, cut t → parse t = .error .overread
  cases : ∀ p, (∃ a w rest, cont a w ∧ p = w ++ rest) ∨ cut p ∨ ∃ e, parse p = .error (.error e)

/-- Elements between commas, the last one cut off. -/
inductive CutList (elem : α → Text → Prop) (cut : Text → Prop) : Nat → Text → Prop
  | here {room t} (ht : cut t) : CutList elem cut (room + 1) t
  | next {room a w u u' t} (ha : elem a w) (hu : Blank u) (hu' : Blank u') (ht : CutList elem cut room t) :
      CutList elem cut (room + 1) (w ++ (u ++ byte ',' :: (u' ++ t)))

/-- What is behind an opening bracket, cut off. -/
inductive CutBody (elem : α → Text → Prop) (cut : Text → Prop) (size : Nat) : Text → Prop
  | mk {u t} (hu : Blank u) (ht : CutList elem cut size t) : CutBody elem cut size (u ++ t)

variable {element : Text → Except JsonFault (α × Text)} {elem : α → Text → Prop} {cut : Text → Prop} {close : UInt8}

/-- The closing brackets. -/
def Closes (close : UInt8) : Prop := close = byte ']' ∨ close = byte '\x7d'

theorem Closes.facts (h : Closes close) : isWs close = false ∧ close ≠ byte ',' ∧
    isDigit close = false ∧ close ≠ byte '.' ∧ close ≠ byte 'e' ∧ close ≠ byte 'E' := by
  rcases h with rfl | rfl <;> decide

theorem parseElements_succ (room : Nat) (p : Text) :
    parseElements element close (room + 1) p = (element p).bind fun x =>
      match skipWs x.2 with
      | [] => .error (.error .errMissingComma)
      | c :: p =>
        if c = byte ',' then (parseElements element close room (skipWs p)).bind fun y => .ok (x.1 :: y.1, y.2)
        else if c = close then .ok ([x.1], p)
        else .error (.error .errMissingComma) := rfl

theorem parseElements_comma {room : Nat} {p q r : Text} {a : α} (hp : element p = .ok (a, q))
    (hq : skipWs q = byte ',' :: r) :
    parseElements element close (room + 1) p =
      (parseElements element close room (skipWs r)).bind fun y => .ok (a :: y.1, y.2) := by
  rw [parseElements_succ, hp]
  show (match skipWs q with | [] => _ | c :: p => _) = _
  rw [hq]
  exact if_pos rfl

theorem parseElements_close (hclose : Closes close) {room : Nat} {p q r : Text} {a : α} (hp : element p = .ok (a, q))
    (hq : skipWs q = close :: r) : parseElements element close (room + 1) p = .ok ([a], r) := by
  rw [parseElements_succ, hp]
  show (match skipWs q with | [] => _ | c :: p => _) = _
  rw [hq]
  dsimp only
  rw [if_neg hclose.facts.2.1, if_pos rfl]

theorem parseElements_error {room : Nat} {p : Text} {e : JsonFault} (hp : element p = .error e) :
    parseElements element close (room + 1) p = .error e := by
  rw [parseElements_succ, hp]
  rfl

namespace Reads

variable (h : Reads element elem cut) (hclose : Closes close)

include h hclose

theorem elements_read {as : List α} {w : Text} (has : Listed elem as w) {u u' : Text} (hu : Blank u) (hu' : Blank u')
    {room : Nat} (hroom : as.length ≤ room) (rest : Text) :
    parseElements element close room (skipWs (u ++ (w ++ (u' ++ close :: rest)))) = .ok (as, rest) := by
  obtain ⟨hws, -, hstop⟩ := hclose.facts
  induction has generalizing u room with
  | @last a w ha =>
    obtain ⟨room, rfl⟩ := Nat.exists_eq_add_of_le' hroom
    refine parseElements_close hclose (h.read hu ha (stops_blank hu' (stops_cons hstop rest))) ?_
    rw [skipWs_blank hu', skipWs_cons hws]
  | @more a w v v' as w' ha hv hv' _ ih =>
    obtain ⟨room, rfl⟩ := Nat.exists_eq_add_of_le' (Nat.le_trans (Nat.le_add_left 1 _) hroom)
    have hassoc : w ++ (v ++ byte ',' :: (v' ++ w')) ++ (u' ++ close :: rest) =
        w ++ (v ++ byte ',' :: (v' ++ (w' ++ (u' ++ close :: rest)))) := by simp
    have helement := h.read hu ha (stops_blank hv (stops_comma (v' ++ (w' ++ (u' ++ close :: rest)))))
    have hskip : skipWs (v ++ byte ',' :: (v' ++ (w' ++ (u' ++ close :: rest)))) =
        byte ',' :: (v' ++ (w' ++ (u' ++ close :: rest))) := by
      rw [skipWs_blank hv, skipWs_cons (by decide)]
    rw [hassoc, parseElements_comma helement hskip, ih hv' (Nat.le_of_succ_le_succ hroom)]
    rfl

omit hclose in
theorem elements_overread {room : Nat} {t : Text} (ht : CutList elem cut room t) {u : Text} (hu : Blank u) :
    parseElements element close room (skipWs (u ++ t)) = .error .overread := by
  induction ht generalizing u with
  | here ht => exact parseElements_error (h.overread hu ht)
  | @next room a w v v' t ha hv hv' _ ih =>
    have helement := h.read hu ha (stops_blank hv (stops_comma (v' ++ t)))
    have hskip : skipWs (v ++ byte ',' :: (v' ++ t)) = byte ',' :: (v' ++ t) := by
      rw [skipWs_blank hv, skipWs_cons (by decide)]
    rw [parseElements_comma helement hskip, ih hv']
    rfl

theorem elements_cases (room : Nat) (p : Text) :
    (∃ u as w u' rest, Blank u ∧ Listed elem as w ∧ as.length ≤ room ∧ Blank u' ∧
        p = u ++ (w ++ (u' ++ close :: rest))) ∨
      (∃ u t, Blank u ∧ CutList elem cut room t ∧ p = u ++ t) ∨
      ∃ e, parseElements element close room (skipWs p) = .error (.error e) := by
  induction room generalizing p with
  | zero => exact .inr (.inr ⟨_, rfl⟩)
  | succ room ih =>
    rcases h.cases p with ⟨u, a, w, q, hu, ha, hp, hq⟩ | ⟨u, t, hu, ht, hp⟩ | ⟨e, he⟩
    · obtain ⟨v, hv, hqv, -⟩ := skipWs_cases q
      match hskip : skipWs q with
      | [] =>
        refine .inr (.inr ⟨.errMissingComma, ?_⟩)
        rw [parseElements_succ, hq]
        show (match skipWs q with | [] => _ | c :: p => _) = _
        rw [hskip]
      | c :: r =>
        rw [hskip] at hqv
        by_cases hcomma : c = byte ','
        · subst hcomma
          rcases ih r with ⟨v', as, w', u', rest, hv', has, hroom, hu', hr⟩ | ⟨v', t, hv', ht, hr⟩ | ⟨e, he⟩
          · refine .inl ⟨u, a :: as, _, u', rest, hu, .more ha hv hv' has, Nat.succ_le_succ hroom, hu', ?_⟩
            rw [hp, hqv, hr]
            simp
          · refine .inr (.inl ⟨u, _, hu, .next ha hv hv' ht, ?_⟩)
            rw [hp, hqv, hr]
          · refine .inr (.inr ⟨e, ?_⟩)
            rw [parseElements_comma hq hskip, he]
            rfl
        · by_cases hend : c = close
          · subst hend
            refine .inl ⟨u, [a], w, v, r, hu, .last ha, Nat.succ_le_succ (Nat.zero_le _), hv, ?_⟩
            rw [hp, hqv]
          · refine .inr (.inr ⟨.errMissingComma, ?_⟩)
            rw [parseElements_succ, hq]
            show (match skipWs q with | [] => _ | c :: p => _) = _
            rw [hskip]
            dsimp only
            rw [if_neg hcomma, if_neg hend]
    · exact .inr (.inl ⟨u, t, hu, .here ht, hp⟩)
    · exact .inr (.inr ⟨e, parseElements_error he⟩)

/-- If elements are read and the closing bracket is none, what is between the brackets is read. -/
theorem inside {size : Nat} (hsize : 0 < size) (hfirst : ∀ rest, ∃ e, element (close :: rest) = .error (.error e)) :
    Inside (parseContainer element close size) (Body elem close size) (CutBody elem cut size) := by
  obtain ⟨hws, -, -⟩ := hclose.facts
  -- The loop refuses a bracket that closes at once.
  have herror : ∀ rest, ∃ e, parseElements element close size (close :: rest) = .error (.error e) := by
    intro rest
    obtain ⟨e, he⟩ := hfirst rest
    obtain ⟨room, rfl⟩ := Nat.exists_eq_add_of_le' hsize
    exact ⟨e, parseElements_error he⟩
  have hstep : ∀ {p : Text}, (∀ e, parseElements element close size (skipWs p) ≠ .error (.error e)) →
      parseContainer element close size p = parseElements element close size (skipWs p) := by
    intro p hp
    refine if_neg fun hhead => ?_
    obtain ⟨rest, hrest⟩ := List.head?_eq_some_iff.1 hhead
    obtain ⟨e, he⟩ := herror rest
    exact hp e (hrest ▸ he)
  refine ⟨?_, ?_, fun p => ?_⟩
  · intro as w hbody rest
    cases hbody with
    | @empty u hu =>
      have hskip : skipWs (u ++ [close] ++ rest) = close :: rest := by
        rw [List.append_assoc, skipWs_blank hu]
        exact skipWs_cons hws rest
      unfold parseContainer
      rw [hskip]
      exact if_pos rfl
    | @full u as w u' hu has hroom hu' =>
      have hassoc : u ++ (w ++ (u' ++ [close])) ++ rest = u ++ (w ++ (u' ++ close :: rest)) := by simp
      have hread := h.elements_read hclose has hu hu' hroom rest
      rw [hassoc, hstep (by rw [hread]; simp), hread]
  · intro t hcut
    cases hcut with
    | @mk u t hu ht =>
      have hover : parseElements element close size (skipWs (u ++ t)) = .error .overread := h.elements_overread ht hu
      rw [hstep (by rw [hover]; simp), hover]
  · by_cases hhead : (skipWs p).head? = some close
    · obtain ⟨rest, hrest⟩ := List.head?_eq_some_iff.1 hhead
      obtain ⟨u, hu, hp, -⟩ := skipWs_cases p
      refine .inl ⟨[], u ++ [close], rest, .empty hu, ?_⟩
      rw [hp, hrest]
      simp
    · rcases h.elements_cases hclose size p with ⟨u, as, w, u', rest, hu, has, hroom, hu', hp⟩ | ⟨u, t, hu, ht, hp⟩ |
        ⟨e, he⟩
      · refine .inl ⟨as, _, rest, .full hu has hroom hu', ?_⟩
        rw [hp]
        simp
      · exact .inr (.inl (hp ▸ .mk hu ht))
      · exact .inr (.inr ⟨e, (if_neg hhead).trans he⟩)

end Reads

end

/-! ### Members -/

section

variable {F : Type} (round : Bool → Rat → F)

/-- JSON as the reader takes it. -/
def reader : JsonGrammar.Reading (TuJsonValue F) JsonString where
  chars := StringChars
  number n v := v = readNumber round n
  null := .null
  bool := .bool
  string := .string
  array := .array
  object := .object

/-- The limits of the reader. -/
def limits : Limits := ⟨tuJsonMaxDepth, maxArr, maxObj⟩

/-- A member cut off in its name or in its value. -/
inductive CutMember (cut : Text → Prop) : Text → Prop
  | name {t} (ht : CutString t) : CutMember cut t
  | value {b k u u' t} (hk : StringChars b k) (hu : Blank u) (hu' : Blank u') (ht : cut t) :
      CutMember cut (byte '"' :: (b ++ byte '"' :: (u ++ byte ':' :: (u' ++ t))))

variable {value : Text → Except JsonFault (TuJsonValue F × Text)} {inner : TuJsonValue F → Text → Prop}
  {cut : Text → Prop}

theorem parseMember_eq (p : Text) :
    parseMember value p = (parseString p).bind fun x =>
      match skipWs x.2 with
      | [] => .error (.error .errMissingColon)
      | c :: p =>
        if c ≠ byte ':' then .error (.error .errMissingColon)
        else (value (skipWs p)).bind fun y => .ok ((x.1, y.1), y.2) := rfl

theorem parseMember_colon {b : Text} {k : JsonString} (hk : StringChars b k) {r p : Text}
    (hr : skipWs r = byte ':' :: p) :
    parseMember value (byte '"' :: (b ++ byte '"' :: r)) = (value (skipWs p)).bind fun x => .ok ((k, x.1), x.2) := by
  rw [parseMember_eq, parseString_chars hk]
  show (match skipWs r with | [] => _ | c :: p => _) = _
  rw [hr]
  exact if_neg (by simp)

theorem skipWs_colon {u : Text} (hu : Blank u) (p : Text) : skipWs (u ++ byte ':' :: p) = byte ':' :: p := by
  rw [skipWs_blank hu, skipWs_cons (by decide)]

theorem Reads.member (h : Reads value inner cut) :
    Reads (parseMember value) (Member (reader round) inner) (CutMember cut) := by
  refine ⟨?_, ?_, fun p => ?_⟩
  · intro u m w rest hu hm hrest
    cases hm with
    | @mk b k v v' val w hk hv hv' hval =>
      have hassoc : byte '"' :: (b ++ byte '"' :: (v ++ byte ':' :: (v' ++ w))) ++ rest =
          byte '"' :: (b ++ byte '"' :: (v ++ byte ':' :: (v' ++ (w ++ rest)))) := by simp
      rw [hassoc, skipWs_blank hu, skipWs_cons (by decide), parseMember_colon hk (skipWs_colon hv _),
        h.read hv' hval hrest]
      rfl
  · intro u t hu ht
    rw [skipWs_blank hu]
    cases ht with
    | name ht =>
      have hover := parseString_cut ht
      cases ht with
      | mk hb ht =>
        rw [skipWs_cons (by decide)]
        show (parseString _).bind _ = _
        rw [hover]
        rfl
    | @value b k v v' t hk hv hv' ht =>
      rw [skipWs_cons (by decide), parseMember_colon hk (skipWs_colon hv _), h.overread hv' ht]
      rfl
  · obtain ⟨u, hu, hp, -⟩ := skipWs_cases p
    generalize skipWs p = q at hp ⊢
    rcases parseString_cases q with ⟨b, k, r, hk, rfl⟩ | ⟨hcut, -⟩ | ⟨e, he⟩
    · obtain ⟨v, hv, hr, -⟩ := skipWs_cases r
      by_cases hcolon : (skipWs r).head? = some (byte ':')
      · obtain ⟨r', hskip⟩ := List.head?_eq_some_iff.1 hcolon
        have hmember : parseMember value (byte '"' :: (b ++ byte '"' :: r)) =
            (value (skipWs r')).bind fun x => .ok ((k, x.1), x.2) := parseMember_colon hk hskip
        rw [hskip] at hr
        rcases h.cases r' with ⟨v', val, w, rest, hv', hval, hr', hread⟩ | ⟨v', t, hv', ht, hr'⟩ | ⟨e, he⟩
        · refine .inl ⟨u, (k, val), _, rest, hu, .mk hk hv hv' hval, ?_, ?_⟩
          · rw [hp, hr, hr']
            simp
          · rw [hmember, hread]
            rfl
        · refine .inr (.inl ⟨u, _, hu, .value hk hv hv' ht, ?_⟩)
          rw [hp, hr, hr']
        · refine .inr (.inr ⟨e, ?_⟩)
          rw [hmember, he]
          rfl
      · refine .inr (.inr ⟨.errMissingColon, ?_⟩)
        rw [parseMember_eq, parseString_chars hk]
        show (match skipWs r with | [] => _ | c :: p => _) = _
        cases hskip : skipWs r with
        | nil => rfl
        | cons c r' =>
          rw [hskip] at hcolon
          exact if_pos fun hc => hcolon (congrArg some hc)
    · exact .inr (.inl ⟨u, q, hu, .name hcut, hp⟩)
    · refine .inr (.inr ⟨e, ?_⟩)
      rw [parseMember_eq, he]
      rfl

/-! ### Values -/

/-- A scalar, or what is behind an opening bracket. -/
inductive AnyValue (contO contA : TuJsonValue F → Text → Prop) : TuJsonValue F → Text → Prop
  | scalar {v w} (h : Scalar (reader round) v w) : AnyValue contO contA v w
  | object {v w} (h : contO v w) : AnyValue contO contA v (byte '\x7b' :: w)
  | array {v w} (h : contA v w) : AnyValue contO contA v (byte '[' :: w)

/-- A string that is cut off, or something behind an opening bracket. -/
inductive AnyCut (cutO cutA : Text → Prop) : Text → Prop
  | string {t} (h : CutString t) : AnyCut cutO cutA t
  | object {t} (h : cutO t) : AnyCut cutO cutA (byte '\x7b' :: t)
  | array {t} (h : cutA t) : AnyCut cutO cutA (byte '[' :: t)

variable {object array : Text → Except JsonFault (TuJsonValue F × Text)} {contO contA : TuJsonValue F → Text → Prop}
  {cutO cutA : Text → Prop}

/-- The first byte of a number. -/
def StartsNumber (c : UInt8) : Prop := c = byte '-' ∨ isDigit c = true

theorem text_head (n : Numeral) : ∃ c w, n.text = c :: w ∧ StartsNumber c := by
  unfold Numeral.text
  cases n.negative with
  | true => exact ⟨byte '-', _, rfl, .inl rfl⟩
  | false =>
    obtain ⟨c, hc, hdigit⟩ := digits_head n.int (fracText n.frac ++ expText n.exp)
    obtain ⟨w, hw⟩ := List.head?_eq_some_iff.1 hc
    exact ⟨c, w, hw, .inr hdigit⟩

theorem StartsNumber.ne {c d : UInt8} (h : StartsNumber c) (hd : d ≠ byte '-' ∧ isDigit d = false) : c ≠ d := by
  rintro rfl
  rcases h with h | h
  · exact hd.1 h
  · rw [hd.2] at h
    exact absurd h (by simp)

theorem StartsNumber.isWs {c : UInt8} (h : StartsNumber c) : isWs c = false := by
  refine Bool.eq_false_iff.2 fun hws => ?_
  rcases isWs_iff.1 hws with hws | hws | hws | hws
  · exact h.ne (by decide) hws
  · exact h.ne (by decide) hws
  · exact h.ne (by decide) hws
  · exact h.ne (by decide) hws

theorem dispatch_cons {c : UInt8} (hc : isWs c = false) (rest : Text) :
    dispatch round object array (c :: rest) =
      if c = byte '"' then (parseString (c :: rest)).map fun (s, p) => (.string s, p)
      else if c = byte '\x7b' then object rest
      else if c = byte '[' then array rest
      else if (bytes ['t', 'r', 'u', 'e']).isPrefixOf (c :: rest) then .ok (.bool true, (c :: rest).drop 4)
      else if (bytes ['f', 'a', 'l', 's', 'e']).isPrefixOf (c :: rest) then .ok (.bool false, (c :: rest).drop 5)
      else if (bytes ['n', 'u', 'l', 'l']).isPrefixOf (c :: rest) then .ok (.null, (c :: rest).drop 4)
      else if c = byte '-' || isDigit c then parseNumber round (c :: rest)
      else .error (.error .errSyntax) := by
  unfold dispatch
  rw [skipWs_cons hc]

theorem isPrefixOf_ne {c d : UInt8} (h : c ≠ d) (w rest : Text) : List.isPrefixOf (d :: w) (c :: rest) ≠ true := by
  show (d == c && _) ≠ true
  rw [beq_false_of_ne h.symm]
  simp

theorem dispatch_number {c : UInt8} (h : StartsNumber c) (rest : Text) :
    dispatch round object array (c :: rest) = parseNumber round (c :: rest) := by
  have hnumber : (c = byte '-' || isDigit c) = true := by
    rcases h with rfl | h
    · rfl
    · rw [h, Bool.or_true]
  have htrue : (bytes ['t', 'r', 'u', 'e']).isPrefixOf (c :: rest) ≠ true :=
    isPrefixOf_ne (h.ne (by decide : byte 't' ≠ byte '-' ∧ isDigit (byte 't') = false)) _ _
  have hfalse : (bytes ['f', 'a', 'l', 's', 'e']).isPrefixOf (c :: rest) ≠ true :=
    isPrefixOf_ne (h.ne (by decide : byte 'f' ≠ byte '-' ∧ isDigit (byte 'f') = false)) _ _
  have hnull : (bytes ['n', 'u', 'l', 'l']).isPrefixOf (c :: rest) ≠ true :=
    isPrefixOf_ne (h.ne (by decide : byte 'n' ≠ byte '-' ∧ isDigit (byte 'n') = false)) _ _
  rw [dispatch_cons round h.isWs, if_neg (h.ne (by decide)), if_neg (h.ne (by decide)), if_neg (h.ne (by decide)),
    if_neg htrue, if_neg hfalse, if_neg hnull, if_pos hnumber]

theorem dispatch_reads (hobj : Inside object contO cutO) (harr : Inside array contA cutA) :
    Reads (dispatch round object array) (AnyValue round contO contA) (AnyCut cutO cutA) := by
  have hquote : ∀ p : Text, dispatch round object array (byte '"' :: p) =
      (parseString (byte '"' :: p)).map fun (s, p) => (.string s, p) := fun _ => rfl
  have hbrace : ∀ p : Text, dispatch round object array (byte '\x7b' :: p) = object p := fun _ => rfl
  have hbracket : ∀ p : Text, dispatch round object array (byte '[' :: p) = array p := fun _ => rfl
  refine ⟨?_, ?_, fun p => ?_⟩
  · intro u v w rest hu hv hrest
    rw [skipWs_blank hu]
    cases hv with
    | scalar h =>
      cases h with
      | null => rfl
      | true => rfl
      | false => rfl
      | @number n v hn =>
        obtain ⟨c, w, hw, hstarts⟩ := text_head n
        have hnumber := parseNumber_text round n hrest
        rw [hw] at hnumber ⊢
        rw [List.cons_append, skipWs_cons hstarts.isWs, dispatch_number round hstarts]
        exact hnumber.trans (congrArg (fun v => Except.ok (v, rest)) hn.symm)
      | @string b s hs =>
        have hassoc : byte '"' :: (b ++ [byte '"']) ++ rest = byte '"' :: (b ++ byte '"' :: rest) := by simp
        rw [hassoc, skipWs_cons (by decide), hquote, parseString_chars hs]
        rfl
    | object h =>
      rw [List.cons_append, skipWs_cons (by decide), hbrace]
      exact hobj.read h rest
    | array h =>
      rw [List.cons_append, skipWs_cons (by decide), hbracket]
      exact harr.read h rest
  · intro u t hu ht
    rw [skipWs_blank hu]
    cases ht with
    | string h =>
      have hover := parseString_cut h
      cases h with
      | mk hb ht =>
        rw [skipWs_cons (by decide), hquote, hover]
        rfl
    | object h =>
      rw [skipWs_cons (by decide), hbrace]
      exact hobj.overread h
    | array h =>
      rw [skipWs_cons (by decide), hbracket]
      exact harr.overread h
  · obtain ⟨u, hu, hp, hhead⟩ := skipWs_cases p
    generalize skipWs p = q at hp hhead ⊢
    subst hp
    have hscalar : ∀ {v : TuJsonValue F} {w rest : Text}, Scalar (reader round) v w →
        dispatch round object array (w ++ rest) = .ok (v, rest) →
        (∃ u' v' w' rest', Blank u' ∧ AnyValue round contO contA v' w' ∧ u ++ (w ++ rest) = u' ++ (w' ++ rest') ∧
          dispatch round object array (w ++ rest) = .ok (v', rest')) :=
      fun hs hread => ⟨u, _, _, _, hu, .scalar hs, rfl, hread⟩
    cases q with
    | nil => exact .inr (.inr ⟨.errUnexpectedEof, rfl⟩)
    | cons c rest =>
      have hc : isWs c = false := hhead c rfl
      by_cases hstring : c = byte '"'
      · subst hstring
        rcases parseString_cases (byte '"' :: rest) with ⟨b, s, rest', hs, hrest⟩ | ⟨hcut, -⟩ | ⟨e, he⟩
        · have hassoc : byte '"' :: (b ++ byte '"' :: rest') = byte '"' :: (b ++ [byte '"']) ++ rest' := by simp
          have hread : dispatch round object array (byte '"' :: (b ++ [byte '"']) ++ rest') =
              .ok (.string s, rest') := by
            rw [← hassoc, hquote, parseString_chars hs]
            rfl
          rw [hrest, hassoc]
          exact .inl (hscalar (.string hs) hread)
        · exact .inr (.inl ⟨u, _, hu, .string hcut, rfl⟩)
        · refine .inr (.inr ⟨e, ?_⟩)
          rw [hquote, he]
          rfl
      by_cases hbraces : c = byte '\x7b'
      · subst hbraces
        rcases hobj.cases rest with ⟨v, w, rest', hv, rfl⟩ | hcut | ⟨e, he⟩
        · exact .inl ⟨u, v, _, rest', hu, .object hv, rfl, hobj.read hv rest'⟩
        · exact .inr (.inl ⟨u, _, hu, .object hcut, rfl⟩)
        · exact .inr (.inr ⟨e, he⟩)
      by_cases hbrackets : c = byte '['
      · subst hbrackets
        rcases harr.cases rest with ⟨v, w, rest', hv, rfl⟩ | hcut | ⟨e, he⟩
        · exact .inl ⟨u, v, _, rest', hu, .array hv, rfl, harr.read hv rest'⟩
        · exact .inr (.inl ⟨u, _, hu, .array hcut, rfl⟩)
        · exact .inr (.inr ⟨e, he⟩)
      by_cases htrue : (bytes ['t', 'r', 'u', 'e']).isPrefixOf (c :: rest) = true
      · obtain ⟨t, ht⟩ := List.isPrefixOf_iff_prefix.1 htrue
        rw [← ht]
        exact .inl (hscalar .true rfl)
      by_cases hfalse : (bytes ['f', 'a', 'l', 's', 'e']).isPrefixOf (c :: rest) = true
      · obtain ⟨t, ht⟩ := List.isPrefixOf_iff_prefix.1 hfalse
        rw [← ht]
        exact .inl (hscalar .false rfl)
      by_cases hnull : (bytes ['n', 'u', 'l', 'l']).isPrefixOf (c :: rest) = true
      · obtain ⟨t, ht⟩ := List.isPrefixOf_iff_prefix.1 hnull
        rw [← ht]
        exact .inl (hscalar .null rfl)
      have hrest : dispatch round object array (c :: rest) =
          if c = byte '-' || isDigit c then parseNumber round (c :: rest) else .error (.error .errSyntax) := by
        rw [dispatch_cons round hc, if_neg hstring, if_neg hbraces, if_neg hbrackets, if_neg htrue, if_neg hfalse,
          if_neg hnull]
      by_cases hnumber : (c = byte '-' || isDigit c) = true
      · rw [if_pos hnumber] at hrest
        rcases parseNumber_cases round (c :: rest) with ⟨n, rest', hn, hread⟩ | ⟨e, he⟩
        · rw [hn] at hrest hread ⊢
          exact .inl (hscalar (.number rfl) (hrest.trans hread))
        · exact .inr (.inr ⟨e, hrest.trans he⟩)
      · exact .inr (.inr ⟨.errSyntax, hrest.trans (if_neg hnumber)⟩)

/-! ### The whole text -/

/-- A text cut off inside an escape, with at most `d` containers around it. -/
def Cut : Nat → Text → Prop
  | 0 => AnyCut (fun _ => False) (fun _ => False)
  | d + 1 => AnyCut (CutBody (Member (reader round) (Spells (reader round) limits d)) (CutMember (Cut d)) maxObj)
      (CutBody (Spells (reader round) limits d) (Cut d) maxArr)

theorem Inside.map {α : Type} {parse : Text → Except JsonFault (α × Text)} {cont : α → Text → Prop} {cut : Text → Prop}
    (h : Inside parse cont cut) (f : α → TuJsonValue F) :
    Inside (fun p => (parse p).bind fun x => .ok (f x.1, x.2)) (fun v w => ∃ a, v = f a ∧ cont a w) cut := by
  refine ⟨?_, ?_, fun p => ?_⟩
  · rintro v w ⟨a, rfl, ha⟩ rest
    rw [h.read ha]
    rfl
  · intro t ht
    rw [h.overread ht]
    rfl
  · rcases h.cases p with ⟨a, w, rest, ha, hp⟩ | hcut | ⟨e, he⟩
    · exact .inl ⟨f a, w, rest, ⟨a, rfl, ha⟩, hp⟩
    · exact .inr (.inl hcut)
    · exact .inr (.inr ⟨e, by rw [he]; rfl⟩)

/-- Behind a bracket that may not be opened there is only an error. -/
theorem inside_refused : Inside (fun _ => .error (.error .errNestingTooDeep))
    (fun (_ : TuJsonValue F) _ => False) (fun _ => False) :=
  ⟨fun h => h.elim, fun h => h.elim, fun _ => .inr (.inr ⟨_, rfl⟩)⟩

theorem parseValue_skipWs (d : Nat) (p : Text) : parseValue round d (skipWs p) = parseValue round d p := by
  cases d <;> (unfold parseValue dispatch; rw [skipWs_skipWs])

theorem parseValue_reads (d : Nat) :
    Reads (parseValue round d) (Spells (reader round) limits d) (Cut round d) := by
  induction d with
  | zero =>
    have helem : AnyValue round (fun _ _ => False) (fun _ _ => False) = Spells (reader round) limits 0 := by
      funext v w
      refine propext ⟨fun h => ?_, .scalar⟩
      cases h with
      | scalar h => exact h
      | object h => exact h.elim
      | array h => exact h.elim
    exact helem ▸ dispatch_reads round inside_refused inside_refused
  | succ d ih =>
    have harray := (ih.inside (.inl rfl) (by decide : 0 < maxArr) fun rest => by
      cases d <;> exact ⟨.errSyntax, rfl⟩).map (F := F) .array
    have hobject := ((ih.member round).inside (.inr rfl) (by decide : 0 < maxObj) fun _ => ⟨.errSyntax, rfl⟩).map .object
    have helem : AnyValue round
        (fun v w => ∃ ms, v = .object ms ∧
          Body (Member (reader round) (Spells (reader round) limits d)) (byte '\x7d') maxObj ms w)
        (fun v w => ∃ vs, v = .array vs ∧ Body (Spells (reader round) limits d) (byte ']') maxArr vs w) =
        Spells (reader round) limits (d + 1) := by
      funext v w
      refine propext ⟨fun h => ?_, fun h => ?_⟩
      · cases h with
        | scalar h => exact .inl h
        | object h =>
          obtain ⟨ms, rfl, hms⟩ := h
          exact .inr (.object hms)
        | array h =>
          obtain ⟨vs, rfl, hvs⟩ := h
          exact .inr (.array hvs)
      · rcases h with h | h
        · exact .scalar h
        · cases h with
          | array hvs => exact .array ⟨_, rfl, hvs⟩
          | object hms => exact .object ⟨_, rfl, hms⟩
    exact helem ▸ dispatch_reads round hobject harray

/-- What the whole reader does. -/
theorem tuJsonParse_cases (s : Text) :
    (∃ v, Document (reader round) limits v s ∧ tuJsonParse round s = .ok v) ∨
      ((∃ u t, Blank u ∧ Cut round limits.depth t ∧ s = u ++ t) ∧ tuJsonParse round s = .error .overread) ∨
      ∃ e, tuJsonParse round s = .error (.error e) := by
  have hstep : tuJsonParse round s = (parseValue round tuJsonMaxDepth (skipWs s)).bind fun x =>
      if skipWs x.2 = [] then .ok x.1 else .error (.error .errSyntax) := by
    rw [parseValue_skipWs]
    rfl
  rcases (parseValue_reads round tuJsonMaxDepth).cases s with ⟨u, v, w, rest, hu, hv, hs, hread⟩ | ⟨u, t, hu, ht, hs⟩ |
    ⟨e, he⟩
  · obtain ⟨u', hu', hrest, -⟩ := skipWs_cases rest
    rw [hread] at hstep
    by_cases hend : skipWs rest = []
    · rw [hend, List.append_nil] at hrest
      refine .inl ⟨v, ⟨u, w, u', hu, hv, hu', hrest ▸ hs⟩, hstep.trans (if_pos hend)⟩
    · exact .inr (.inr ⟨_, hstep.trans (if_neg hend)⟩)
  · refine .inr (.inl ⟨⟨u, t, hu, ht, hs⟩, ?_⟩)
    rw [hstep, hs, (parseValue_reads round tuJsonMaxDepth).overread hu ht]
    rfl
  · refine .inr (.inr ⟨e, ?_⟩)
    rw [hstep, he]
    rfl

theorem tuJsonParse_document {v : TuJsonValue F} {s : Text} (h : Document (reader round) limits v s) :
    tuJsonParse round s = .ok v := by
  obtain ⟨u, w, u', hu, hw, hu', rfl⟩ := h
  have hstops : Stops u' := List.append_nil u' ▸ stops_blank hu' stops_nil
  have hread := (parseValue_reads round tuJsonMaxDepth).read hu hw hstops
  have hend : skipWs u' = [] := by
    have h := skipWs_blank hu' []
    rw [List.append_nil] at h
    exact h
  unfold tuJsonParse
  rw [← parseValue_skipWs, hread]
  exact if_pos hend

theorem tuJsonParse_eq_ok {v : TuJsonValue F} {s : Text} :
    tuJsonParse round s = .ok v ↔ Document (reader round) limits v s := by
  refine ⟨fun h => ?_, tuJsonParse_document round⟩
  rcases tuJsonParse_cases round s with ⟨v', hv', hread⟩ | ⟨-, hread⟩ | ⟨e, hread⟩
  · rw [hread] at h
    exact Except.ok.inj h ▸ hv'
  · rw [hread] at h
    exact absurd h (by simp)
  · rw [hread] at h
    exact absurd h (by simp)

theorem tuJsonParse_eq_overread {s : Text} :
    tuJsonParse round s = .error .overread ↔ ∃ u t, Blank u ∧ Cut round limits.depth t ∧ s = u ++ t := by
  constructor
  · intro h
    rcases tuJsonParse_cases round s with ⟨v, -, hread⟩ | ⟨hcut, -⟩ | ⟨e, hread⟩
    · rw [hread] at h
      exact absurd h (by simp)
    · exact hcut
    · rw [hread] at h
      exact absurd h (by simp)
  · rintro ⟨u, t, hu, ht, rfl⟩
    unfold tuJsonParse
    have hover : parseValue round tuJsonMaxDepth (skipWs (u ++ t)) = .error .overread :=
      (parseValue_reads round tuJsonMaxDepth).overread hu ht
    rw [← parseValue_skipWs, hover]
    rfl

end

end Tusim.Json
