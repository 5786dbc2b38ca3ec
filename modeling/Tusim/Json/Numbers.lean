import Mathlib.Data.List.TakeWhile
import Tusim.Json.Reader

/-!
# Numbers

The reader takes the numerals of the grammar and no others, and takes them whole if what follows is no part of a number
(`Stops`).  An integer is clipped to 64 bits; a number with a fraction or an exponent is rounded.
-/

namespace Tusim.Json

open JsonGrammar

/-- No digit comes next. -/
def NoDigit (rest : Text) : Prop := ∀ c ∈ rest.head?, isDigit c = false

/-- Nothing that could belong to a number comes next. -/
def Stops (rest : Text) : Prop :=
  ∀ c ∈ rest.head?, isDigit c = false ∧ c ≠ byte '.' ∧ c ≠ byte 'e' ∧ c ≠ byte 'E'

theorem Stops.noDigit {rest : Text} (h : Stops rest) : NoDigit rest := fun c hc => (h c hc).1

theorem isDigit_iff {c : UInt8} : isDigit c = true ↔ IsDigit c := by
  unfold isDigit IsDigit
  simp [byte]

theorem Digits.isDigit (ds : Digits) : ∀ c ∈ ds.1, isDigit c = true := fun c hc => isDigit_iff.2 (ds.2.2 c hc)

/-- The digits at the front. -/
theorem takeWhile_digits (ds : Digits) {rest : Text} (h : NoDigit rest) :
    (ds.1 ++ rest).takeWhile isDigit = ds.1 ∧ (ds.1 ++ rest).dropWhile isDigit = rest := by
  rw [List.takeWhile_append_of_pos (Digits.isDigit ds), List.dropWhile_append_of_pos (Digits.isDigit ds)]
  cases rest with
  | nil => exact ⟨List.append_nil _, rfl⟩
  | cons c rest =>
    have hc : isDigit c = false := h c rfl
    rw [List.takeWhile_cons_of_neg (by simp [hc]), List.dropWhile_cons_of_neg (by simp [hc])]
    exact ⟨List.append_nil _, rfl⟩

theorem digits_head (ds : Digits) (rest : Text) : ∃ c, (ds.1 ++ rest).head? = some c ∧ isDigit c = true := by
  obtain ⟨w, hne, hall⟩ := ds
  cases w with
  | nil => exact absurd rfl hne
  | cons c w => exact ⟨c, rfl, isDigit_iff.2 (hall c (List.mem_cons_self ..))⟩

/-- A digit is not this character. -/
theorem digits_head_ne (ds : Digits) (rest : Text) {c : UInt8} (hc : isDigit c = false) :
    (ds.1 ++ rest).head? ≠ some c := by
  obtain ⟨d, hd, hdigit⟩ := digits_head ds rest
  rw [hd]
  rintro ⟨⟩
  rw [hc] at hdigit
  exact absurd hdigit (by simp)

/-! ### The parts of a number -/

theorem skipDigits_digits (ds : Digits) {rest : Text} (h : NoDigit rest) : skipDigits (ds.1 ++ rest) = .ok rest := by
  have hdrop := (takeWhile_digits ds h).2
  obtain ⟨w, hne, hall⟩ := ds
  cases w with
  | nil => exact absurd rfl hne
  | cons c w =>
    have hc : isDigit c = true := isDigit_iff.2 (hall c (List.mem_cons_self ..))
    dsimp only [List.cons_append] at hdrop ⊢
    rw [List.dropWhile_cons_of_pos hc] at hdrop
    unfold skipDigits
    dsimp only
    rw [if_pos hc, hdrop]

theorem skipDigits_cases (p : Text) :
    (∃ (ds : Digits) (rest : Text), p = ds.1 ++ rest ∧ skipDigits p = .ok rest) ∨
      skipDigits p = .error (.error .errInvalidNumber) := by
  cases p with
  | nil => exact .inr rfl
  | cons c p =>
    cases hc : isDigit c with
    | false =>
      refine .inr ?_
      unfold skipDigits
      dsimp only
      rw [hc]
      rfl
    | true =>
      refine .inl ⟨⟨c :: p.takeWhile isDigit, by simp, ?_⟩, p.dropWhile isDigit, ?_, ?_⟩
      · intro b hb
        rcases List.mem_cons.1 hb with rfl | hb
        · exact isDigit_iff.1 hc
        · exact isDigit_iff.1 (List.mem_takeWhile_imp hb)
      · rw [List.cons_append, List.takeWhile_append_dropWhile]
      · unfold skipDigits
        dsimp only
        rw [if_pos hc]

theorem skipFrac_frac (frac : Option Digits) {rest : Text} (h : NoDigit rest) (hpoint : rest.head? ≠ some (byte '.')) :
    skipFrac (fracText frac ++ rest) = .ok (frac.isSome, rest) := by
  cases frac with
  | none => exact if_neg hpoint
  | some ds =>
    refine (if_pos rfl).trans ?_
    show (skipDigits (ds.1 ++ rest)).map _ = _
    rw [skipDigits_digits ds h]
    rfl

theorem skipFrac_cases (p : Text) :
    (∃ frac rest, p = fracText frac ++ rest ∧ skipFrac p = .ok (frac.isSome, rest)) ∨
      ∃ e, skipFrac p = .error (.error e) := by
  by_cases hpoint : p.head? = some (byte '.')
  · obtain ⟨q, rfl⟩ := List.head?_eq_some_iff.1 hpoint
    have hstep : skipFrac (byte '.' :: q) = (skipDigits q).map (true, ·) := if_pos rfl
    rw [hstep]
    rcases skipDigits_cases q with ⟨ds, rest, rfl, hskip⟩ | herror
    · exact .inl ⟨some ds, rest, rfl, by rw [hskip]; rfl⟩
    · exact .inr ⟨_, by rw [herror]; rfl⟩
  · exact .inl ⟨none, p, rfl, if_neg hpoint⟩

/-- The text of the sign of an exponent. -/
def expSignText (sign : Option Bool) : Text := sign.elim [] fun minus => [byte (if minus then '-' else '+')]

theorem expText_some (e : Exponent) :
    expText (some e) = byte (if e.upper then 'E' else 'e') :: (expSignText e.sign ++ e.digits.1) := by
  obtain ⟨upper, sign, digits⟩ := e
  cases sign <;> rfl

theorem skipSign_sign (sign : Option Bool) (ds : Digits) (rest : Text) :
    skipSign (expSignText sign ++ (ds.1 ++ rest)) = ds.1 ++ rest := by
  match sign with
  | none => exact if_neg (not_or.2 ⟨digits_head_ne ds rest (by decide), digits_head_ne ds rest (by decide)⟩)
  | some true => exact if_pos (.inr rfl)
  | some false => exact if_pos (.inl rfl)

theorem skipSign_cases (p : Text) : ∃ sign, p = expSignText sign ++ skipSign p := by
  by_cases hplus : p.head? = some (byte '+')
  · obtain ⟨q, rfl⟩ := List.head?_eq_some_iff.1 hplus
    exact ⟨some false, congrArg (byte '+' :: ·) (if_pos (.inl rfl) : skipSign (byte '+' :: q) = q).symm⟩
  · by_cases hminus : p.head? = some (byte '-')
    · obtain ⟨q, rfl⟩ := List.head?_eq_some_iff.1 hminus
      exact ⟨some true, congrArg (byte '-' :: ·) (if_pos (.inr rfl) : skipSign (byte '-' :: q) = q).symm⟩
    · exact ⟨none, (if_neg (not_or.2 ⟨hplus, hminus⟩) : skipSign p = p).symm⟩

theorem skipExp_exp (exp : Option Exponent) {rest : Text} (h : Stops rest) :
    skipExp (expText exp ++ rest) = .ok (exp.isSome, rest) := by
  cases exp with
  | none => exact if_neg (not_or.2 ⟨fun hc => (h _ hc).2.2.1 rfl, fun hc => (h _ hc).2.2.2 rfl⟩)
  | some e =>
    have hletter : byte (if e.upper then 'E' else 'e') = byte 'e' ∨ byte (if e.upper then 'E' else 'e') = byte 'E' := by
      cases e.upper
      · exact .inl rfl
      · exact .inr rfl
    rw [expText_some]
    refine (if_pos (hletter.imp (congrArg some) (congrArg some))).trans ?_
    show (skipDigits (skipSign ((expSignText e.sign ++ e.digits.1) ++ rest))).map _ = _
    rw [List.append_assoc, skipSign_sign, skipDigits_digits _ h.noDigit]
    rfl

theorem skipExp_cases (p : Text) :
    (∃ exp rest, p = expText exp ++ rest ∧ skipExp p = .ok (exp.isSome, rest)) ∨
      ∃ e, skipExp p = .error (.error e) := by
  by_cases hletter : p.head? = some (byte 'e') ∨ p.head? = some (byte 'E')
  · obtain ⟨upper, q, rfl⟩ : ∃ (upper : Bool) (q : Text), p = byte (if upper then 'E' else 'e') :: q := by
      rcases hletter with hletter | hletter
      · obtain ⟨q, rfl⟩ := List.head?_eq_some_iff.1 hletter
        exact ⟨false, q, rfl⟩
      · obtain ⟨q, rfl⟩ := List.head?_eq_some_iff.1 hletter
        exact ⟨true, q, rfl⟩
    have hstep : skipExp (byte (if upper then 'E' else 'e') :: q) = (skipDigits (skipSign q)).map (true, ·) :=
      if_pos hletter
    rw [hstep]
    obtain ⟨sign, hsign⟩ := skipSign_cases q
    rcases skipDigits_cases (skipSign q) with ⟨ds, rest, hq, hskip⟩ | herror
    · refine .inl ⟨some ⟨upper, sign, ds⟩, rest, ?_, by rw [hskip]; rfl⟩
      rw [expText_some, List.cons_append, List.append_assoc, ← hq, ← hsign]
    · exact .inr ⟨_, by rw [herror]; rfl⟩
  · exact .inl ⟨none, p, rfl, if_neg hletter⟩

theorem skipInt_int {ds : Digits} (hzero : ds.1.head? = some (byte '0') → ds.1 = [byte '0']) {rest : Text} (h : NoDigit rest) :
    skipInt (ds.1 ++ rest) = .ok rest := by
  by_cases hhead : (ds.1 ++ rest).head? = some (byte '0')
  · refine (if_pos hhead).trans ?_
    rw [List.head?_append_of_ne_nil _ ds.2.1] at hhead
    rw [hzero hhead]
    rfl
  · exact (if_neg hhead).trans (skipDigits_digits ds h)

theorem skipInt_cases (p : Text) :
    (∃ (ds : Digits) (rest : Text), (ds.1.head? = some (byte '0') → ds.1 = [byte '0']) ∧ p = ds.1 ++ rest ∧
        skipInt p = .ok rest) ∨
      ∃ e, skipInt p = .error (.error e) := by
  by_cases hhead : p.head? = some (byte '0')
  · obtain ⟨q, rfl⟩ := List.head?_eq_some_iff.1 hhead
    have hdigits : ∀ b ∈ [byte '0'], IsDigit b := by
      intro b hb
      rw [List.mem_singleton.1 hb]
      exact ⟨by decide, by decide⟩
    exact .inl ⟨⟨[byte '0'], List.cons_ne_nil _ _, hdigits⟩, q, fun _ => rfl, rfl, if_pos rfl⟩
  · have hstep : skipInt p = skipDigits p := if_neg hhead
    rw [hstep]
    rcases skipDigits_cases p with ⟨ds, rest, rfl, hskip⟩ | herror
    · refine .inl ⟨ds, rest, fun hds => absurd ?_ hhead, rfl, hskip⟩
      obtain ⟨w, hw⟩ := List.head?_eq_some_iff.1 hds
      rw [hw]
      rfl
    · exact .inr ⟨_, herror⟩

/-! ### Numbers -/

section

variable {F : Type} (round : Bool → Rat → F)

/-- What the reader makes of a number. -/
def readNumber (n : Numeral) : TuJsonValue F :=
  if n.IsInt then .int (strtoll n.text) else .double (strtod round n.text)

theorem readNumber_of (n : Numeral) :
    (if n.frac.isSome || n.exp.isSome then .double (strtod round n.text) else .int (strtoll n.text)) =
      readNumber round n := by
  have hiff : (n.frac.isSome || n.exp.isSome) = true ↔ ¬ n.IsInt := by
    unfold Numeral.IsInt
    cases n.frac <;> cases n.exp <;> simp
  unfold readNumber
  by_cases hint : n.IsInt
  · rw [if_pos hint, if_neg fun h => hiff.1 h hint]
  · rw [if_neg hint, if_pos (hiff.2 hint)]

theorem exp_head (exp : Option Exponent) {rest : Text} (h : Stops rest) :
    NoDigit (expText exp ++ rest) ∧ (expText exp ++ rest).head? ≠ some (byte '.') := by
  cases exp with
  | none => exact ⟨h.noDigit, fun hc => (h _ hc).2.1 rfl⟩
  | some e =>
    rw [expText_some]
    constructor
    · rintro c ⟨⟩
      cases e.upper <;> rfl
    · rw [List.cons_append, List.head?_cons]
      cases e.upper <;> decide

theorem frac_head (frac : Option Digits) {rest : Text} (h : NoDigit rest) : NoDigit (fracText frac ++ rest) := by
  cases frac with
  | none => exact h
  | some ds =>
    rintro c ⟨⟩
    rfl

/-- Behind the sign come the parts one by one. -/
theorem parseNumber_parts {p q q' rest : Text} {frac exp : Bool} (start : Text)
    (hp : (if start.head? = some (byte '-') then start.tail else start) = p) (hint : skipInt p = .ok q)
    (hfrac : skipFrac q = .ok (frac, q')) (hexp : skipExp q' = .ok (exp, rest)) :
    parseNumber round start = .ok (if frac || exp then .double (strtod round (start.take (start.length - rest.length)))
      else .int (strtoll (start.take (start.length - rest.length))), rest) := by
  unfold parseNumber
  dsimp only
  rw [hp, hint]
  show (skipFrac q).bind _ = _
  rw [hfrac]
  show (skipExp q').bind _ = _
  rw [hexp]
  rfl

theorem text_take (n : Numeral) (rest : Text) : (n.text ++ rest).take ((n.text ++ rest).length - rest.length) = n.text := by
  rw [List.length_append, Nat.add_sub_cancel]
  exact List.take_left'  rfl

theorem parseNumber_text (n : Numeral) {rest : Text} (h : Stops rest) :
    parseNumber round (n.text ++ rest) = .ok (readNumber round n, rest) := by
  obtain ⟨hexp, hpoint⟩ := exp_head n.exp h
  have hassoc : n.text ++ rest = signText n.negative ++ (n.int.1 ++ (fracText n.frac ++ (expText n.exp ++ rest))) := by
    unfold Numeral.text
    simp only [List.append_assoc]
  have hstart : (if (n.text ++ rest).head? = some (byte '-') then (n.text ++ rest).tail else n.text ++ rest) =
      n.int.1 ++ (fracText n.frac ++ (expText n.exp ++ rest)) := by
    rw [hassoc]
    cases n.negative with
    | true => exact if_pos rfl
    | false => exact if_neg (digits_head_ne n.int _ (by decide))
  rw [parseNumber_parts round _ hstart (skipInt_int n.int_head (frac_head _ hexp)) (skipFrac_frac _ hexp hpoint)
    (skipExp_exp _ h), text_take, readNumber_of]

/-- A number or an error. -/
theorem parseNumber_cases (p : Text) :
    (∃ (n : Numeral) (rest : Text), p = n.text ++ rest ∧ parseNumber round p = .ok (readNumber round n, rest)) ∨
      ∃ e, parseNumber round p = .error (.error e) := by
  obtain ⟨negative, q, hp, hq⟩ : ∃ (negative : Bool) (q : Text), p = signText negative ++ q ∧
      (if p.head? = some (byte '-') then p.tail else p) = q := by
    by_cases hminus : p.head? = some (byte '-')
    · obtain ⟨q, rfl⟩ := List.head?_eq_some_iff.1 hminus
      exact ⟨true, q, rfl, if_pos rfl⟩
    · exact ⟨false, p, rfl, if_neg hminus⟩
  have hstep : parseNumber round p = (skipInt q).bind fun r => (skipFrac r).bind fun x => (skipExp x.2).bind fun y =>
      .ok (if x.1 || y.1 then .double (strtod round (p.take (p.length - y.2.length)))
        else .int (strtoll (p.take (p.length - y.2.length))), y.2) := by
    unfold parseNumber
    dsimp only
    rw [hq]
    rfl
  rcases skipInt_cases q with ⟨int, r, hzero, hr, hint⟩ | ⟨e, he⟩
  · rcases skipFrac_cases r with ⟨frac, r', hr', hfrac⟩ | ⟨e, he⟩
    · rcases skipExp_cases r' with ⟨exp, rest, hrest, hexp⟩ | ⟨e, he⟩
      · let n : Numeral := ⟨negative, int, hzero, frac, exp⟩
        have htext : p = n.text ++ rest := by
          rw [hp, hr, hr', hrest]
          show _ = (signText negative ++ (int.1 ++ (fracText frac ++ expText exp))) ++ rest
          simp only [List.append_assoc]
        refine .inl ⟨n, rest, htext, ?_⟩
        have hparts := parseNumber_parts round p hq hint hfrac hexp
        rw [hparts, htext, text_take]
        exact congrArg (fun v => Except.ok (v, rest)) (readNumber_of round n)
      · refine .inr ⟨e, ?_⟩
        rw [hstep, hint]
        show (skipFrac r).bind _ = _
        rw [hfrac]
        show (skipExp r').bind _ = _
        rw [he]
        rfl
    · refine .inr ⟨e, ?_⟩
      rw [hstep, hint]
      show (skipFrac r).bind _ = _
      rw [he]
      rfl
  · exact .inr ⟨e, by rw [hstep, he]; rfl⟩

/-! ### The conversions -/

theorem stops_nil : Stops [] := fun _ h => absurd h (by simp)

theorem takeWhile_only_digits (ds : Digits) : ds.1.takeWhile isDigit = ds.1 := by
  have h := (takeWhile_digits ds stops_nil.noDigit).1
  rwa [List.append_nil] at h

theorem signedDecimal_exponent (e : Exponent) : signedDecimal (expSignText e.sign ++ e.digits.1) = e.value := by
  have hdigits := takeWhile_only_digits e.digits
  have hne : ∀ c : UInt8, isDigit c = false → e.digits.1.head? ≠ some c := fun c hc => by
    have h := digits_head_ne e.digits [] hc
    rwa [List.append_nil] at h
  obtain ⟨upper, sign, digits⟩ := e
  dsimp only at hdigits hne ⊢
  unfold Exponent.value
  match sign with
  | none =>
    refine (if_neg (hne _ (by decide))).trans ((if_neg (hne _ (by decide))).trans ?_)
    show ((decimal (digits.1.takeWhile isDigit) : Nat) : Int) = _
    rw [hdigits]
    rfl
  | some true =>
    refine (if_pos rfl).trans ?_
    show -((decimal (digits.1.takeWhile isDigit) : Nat) : Int) = _
    rw [hdigits]
    rfl
  | some false =>
    refine (if_neg (fun h => absurd (Option.some.inj h) (by decide))).trans ((if_pos rfl).trans ?_)
    show ((decimal (digits.1.takeWhile isDigit) : Nat) : Int) = _
    rw [hdigits]
    rfl

/-- `strtod` rounds the number. -/
theorem strtod_text (n : Numeral) : strtod round n.text = round n.negative n.magnitude := by
  obtain ⟨negative, int, hzero, frac, exp⟩ := n
  obtain ⟨hexp, hpoint⟩ := exp_head exp stops_nil
  have hfrac := frac_head frac hexp
  rw [List.append_nil] at hexp hpoint hfrac
  have hsign : (((signText negative ++ (int.1 ++ (fracText frac ++ expText exp))).head? = some (byte '-')) ↔
        negative = true) ∧
      (if (signText negative ++ (int.1 ++ (fracText frac ++ expText exp))).head? = some (byte '-') then
        (signText negative ++ (int.1 ++ (fracText frac ++ expText exp))).tail
      else signText negative ++ (int.1 ++ (fracText frac ++ expText exp))) =
        int.1 ++ (fracText frac ++ expText exp) := by
    cases negative with
    | true => exact ⟨iff_of_true rfl rfl, if_pos rfl⟩
    | false =>
      have hne := digits_head_ne int (fracText frac ++ expText exp) (by decide : isDigit (byte '-') = false)
      exact ⟨iff_of_false hne (by simp), if_neg hne⟩
  have hvalue : (if (expText exp).head? = some (byte 'e') ∨ (expText exp).head? = some (byte 'E') then
      signedDecimal (expText exp).tail else 0) = exp.elim 0 Exponent.value := by
    cases exp with
    | none => rfl
    | some e =>
      have hletter : (expText (some e)).head? = some (byte 'e') ∨ (expText (some e)).head? = some (byte 'E') := by
        rw [expText_some]
        cases e.upper
        · exact .inl rfl
        · exact .inr rfl
      rw [if_pos hletter, expText_some]
      exact signedDecimal_exponent e
  have hdec : decide ((signText negative ++ (int.1 ++ (fracText frac ++ expText exp))).head? = some (byte '-')) =
      negative := Bool.eq_iff_iff.2 (by rw [decide_eq_true_iff, hsign.1])
  unfold strtod Numeral.text
  dsimp only
  rw [hdec, hsign.2, (takeWhile_digits int hfrac).1, (takeWhile_digits int hfrac).2]
  congr 1
  cases frac with
  | none =>
    have hif : ∀ {α : Type} (a b : α), (if (fracText none ++ expText exp).head? = some (byte '.') then a else b) = b :=
      fun _ _ => if_neg hpoint
    have hnone : fracText none ++ expText exp = expText exp := rfl
    rw [hif, hif, hnone, hvalue]
    rfl
  | some ds =>
    have hif : ∀ {α : Type} (a b : α), (if (fracText (some ds) ++ expText exp).head? = some (byte '.') then a else b) = a :=
      fun _ _ => if_pos rfl
    have htail : (fracText (some ds) ++ expText exp).tail = ds.1 ++ expText exp := rfl
    rw [hif, hif, htail, (takeWhile_digits ds hexp).1, (takeWhile_digits ds hexp).2, hvalue]
    rfl

/-- `strtoll` clips the integer. -/
theorem strtoll_text {n : Numeral} (h : n.IsInt) : strtoll n.text = max (-2 ^ 63) (min n.intValue (2 ^ 63 - 1)) := by
  obtain ⟨negative, int, hzero, frac, exp⟩ := n
  obtain ⟨rfl, rfl⟩ : frac = none ∧ exp = none := h
  have hdigits := takeWhile_only_digits int
  have hsigned : signedDecimal (signText negative ++ (int.1 ++ [])) =
      if negative then -(decimal int.1 : Int) else decimal int.1 := by
    rw [List.append_nil]
    cases negative with
    | true =>
      refine (if_pos rfl).trans ?_
      show -((decimal (int.1.takeWhile isDigit) : Nat) : Int) = _
      rw [hdigits]
      rfl
    | false =>
      have hne : ∀ c : UInt8, isDigit c = false → int.1.head? ≠ some c := fun c hc => by
        have h := digits_head_ne int [] hc
        rwa [List.append_nil] at h
      refine (if_neg (hne _ (by decide))).trans ((if_neg (hne _ (by decide))).trans ?_)
      show ((decimal (int.1.takeWhile isDigit) : Nat) : Int) = _
      rw [hdigits]
      rfl
  exact congrArg (fun v => max (-2 ^ 63) (min v (2 ^ 63 - 1))) hsigned

end

end Tusim.Json
