import Mathlib.Data.List.TakeWhile
import Blueprints.Proofs.Json.Tokens

/-! # Literals

    What counts as a literal in generated code is given here by a grammar: a
    string literal with the text that it spells, and a number with a sign at
    will.  A quoted text is a literal that spells the text
    (`isStringLiteral_quote`).  A text that reads as a floating point number is
    a literal only if it is no word, and if no digit stands behind a zero at its
    front (`isNumericLiteral_iff`). -/

namespace Blueprints.Text

/-! ## Strings -/

/-- The letters that may stand behind a backslash, and what they spell. -/
def namedEscapes : List (Char × Char) :=
  [('"', '"'), ('\\', '\\'), ('b', '\x08'), ('f', '\x0c'), ('n', '\n'), ('r', '\r'), ('t', '\t')]

/-- The characters between two quotes, and the text that they spell. -/
inductive Spells : List Char → List Char → Prop where
  | nil : Spells [] []
  | plain {c : Char} {body value : List Char} (hquote : c ≠ '"') (hescape : c ≠ '\\')
      (hline : c ≠ '\n' ∧ c ≠ '\r') (h : Spells body value) : Spells (c :: body) (c :: value)
  | named {e c : Char} {body value : List Char} (he : (e, c) ∈ namedEscapes)
      (h : Spells body value) : Spells ('\\' :: e :: body) (c :: value)
  | numbered {a b c d x : Char} {i j k l : Nat} {body value : List Char}
      (ha : Json.hexValue? a = some i) (hb : Json.hexValue? b = some j)
      (hc : Json.hexValue? c = some k) (hd : Json.hexValue? d = some l)
      (hx : x.toNat = ((i * 16 + j) * 16 + k) * 16 + l) (h : Spells body value) :
      Spells ('\\' :: 'u' :: a :: b :: c :: d :: body) (x :: value)

/-- A string literal that spells a text. -/
def IsStringLiteral (literal value : List Char) : Prop :=
  ∃ body, literal = '"' :: body ++ ['"'] ∧ Spells body value

/-- **A character spells itself when it is escaped.** -/
theorem Spells.escapeChar {body value : List Char} (h : Spells body value) (c : Char) :
    Spells (Json.escapeChar c ++ body) (c :: value) := by
  have hnamed : ∀ {e c : Char}, (e, c) ∈ namedEscapes → Spells ('\\' :: e :: body) (c :: value) :=
    fun he => .named he h
  rw [Json.escapeChar]
  split
  · next hc => subst hc; exact hnamed (by decide)
  split
  · next hc => subst hc; exact hnamed (by decide)
  split
  · next hc => subst hc; exact hnamed (by decide)
  split
  · next hc => subst hc; exact hnamed (by decide)
  split
  · next hc => subst hc; exact hnamed (by decide)
  split
  · next hc => subst hc; exact hnamed (by decide)
  split
  · next hc => subst hc; exact hnamed (by decide)
  split
  · next hcontrol =>
    have hzero : Json.hexValue? '0' = some 0 := by decide
    exact .numbered hzero hzero (Json.hexValue?_hexDigit _ (by omega))
      (Json.hexValue?_hexDigit _ (by omega)) (by omega) h
  · next hquote hescape _ _ hfeed hreturn _ _ =>
    exact .plain hquote hescape ⟨hfeed, hreturn⟩ h

/-- **A quoted text is a literal that spells the text.** -/
theorem isStringLiteral_quote (s : String) : IsStringLiteral (Json.quote s).toList s.toList := by
  refine ⟨s.toList.flatMap Json.escapeChar, ?_, ?_⟩
  · rw [Json.quote, String.toList_ofList, Json.stringChars]
  · induction s.toList with
    | nil => exact .nil
    | cons c cs ih => exact ih.escapeChar c

/-- Different texts are quoted differently. -/
theorem eq_of_quote_eq {s t : String} (h : Json.quote s = Json.quote t) : s = t := by
  have hread : ∀ s : String, Json.stringRest (Json.quote s).toList.tail = .ok (s, []) := by
    intro s
    rw [Json.quote, String.toList_ofList, Json.stringChars, List.cons_append, List.tail_cons]
    exact Json.stringRest_chars s []
  have hs := hread s
  rw [h, hread t] at hs
  exact (Prod.mk.inj (Except.ok.inj hs)).1.symm

/-! ## Numbers -/

/-- Digits only. -/
def Digits (cs : List Char) : Prop := ∀ c ∈ cs, c.isDigit = true

/-- Digits, and at least one. -/
def IsRun (w : List Char) : Prop := Digits w ∧ w ≠ []

/-- A sign or none. -/
inductive IsSign : List Char → Prop where
  | none : IsSign []
  | plus : IsSign ['+']
  | minus : IsSign ['-']

/-- An exponent or none. -/
inductive IsExponentPart : List Char → Prop where
  | none : IsExponentPart []
  | some {e : Char} {sign ds : List Char} (he : e = 'e' ∨ e = 'E') (hsign : IsSign sign)
      (hds : IsRun ds) : IsExponentPart (e :: (sign ++ ds))

/-- A decimal whose whole part, if there is one, is of a form. -/
inductive IsDecimal (whole : List Char → Prop) : List Char → Prop where
  | integer {w x : List Char} (hw : whole w) (hx : IsExponentPart x) : IsDecimal whole (w ++ x)
  | point {w f x : List Char} (hw : whole w) (hf : Digits f) (hx : IsExponentPart x) :
      IsDecimal whole (w ++ '.' :: (f ++ x))
  | fraction {f x : List Char} (hf : IsRun f) (hx : IsExponentPart x) :
      IsDecimal whole ('.' :: (f ++ x))

/-- A zero, or digits that do not start with one. -/
inductive IsWhole : List Char → Prop where
  | zero : IsWhole ['0']
  | led {d : Char} {ds : List Char} (hd : d.isDigit = true) (hne : d ≠ '0') (hds : Digits ds) :
      IsWhole (d :: ds)

/-- A number with a sign at will. -/
def IsNumericLiteral (cs : List Char) : Prop :=
  ∃ sign rest, cs = sign ++ rest ∧ IsSign sign ∧ IsDecimal IsWhole rest

/-- Text that does not go on with a digit. -/
def Stops (cs : List Char) : Prop := ∀ c r, cs = c :: r → c.isDigit = false

/-- A digit stands behind a zero at the front. -/
def ZeroLed (cs : List Char) : Prop := ∃ d r, cs = '0' :: d :: r ∧ d.isDigit = true

/-! ### Signs -/

/-- Every text has a sign, or none, ahead of the rest. -/
theorem exists_sign (cs : List Char) : ∃ sign, IsSign sign ∧ cs = sign ++ dropSign cs := by
  unfold dropSign
  split
  · exact ⟨['+'], .plus, rfl⟩
  · exact ⟨['-'], .minus, rfl⟩
  · exact ⟨[], .none, rfl⟩

/-- A sign is dropped, and no more. -/
theorem dropSign_sign {sign : List Char} (hsign : IsSign sign) {c : Char} (hplus : c ≠ '+')
    (hminus : c ≠ '-') (rest : List Char) : dropSign (sign ++ c :: rest) = c :: rest := by
  cases hsign with
  | plus => rfl
  | minus => rfl
  | none =>
      rw [List.nil_append, dropSign]
      · rintro r h
        exact hplus (List.cons.inj h).1
      · rintro r h
        exact hminus (List.cons.inj h).1

/-- An exponent is a sign at will and digits. -/
theorem isExponent_iff (cs : List Char) :
    isExponent cs = true ↔ ∃ sign ds, cs = sign ++ ds ∧ IsSign sign ∧ IsRun ds := by
  rw [isExponent]
  simp only [Bool.and_eq_true, List.all_eq_true, Bool.not_eq_true', List.isEmpty_eq_false_iff]
  constructor
  · rintro ⟨hne, hds⟩
    obtain ⟨sign, hsign, hcs⟩ := exists_sign cs
    exact ⟨sign, dropSign cs, hcs, hsign, hds, hne⟩
  · rintro ⟨sign, ds, rfl, hsign, hds, hne⟩
    obtain ⟨d, rest, rfl⟩ := List.exists_cons_of_ne_nil hne
    have hd := hds d (List.mem_cons_self ..)
    rw [dropSign_sign hsign (by rintro rfl; cases hd) (by rintro rfl; cases hd)]
    exact ⟨hne, hds⟩

/-! ### Decimals -/

/-- No digit and no point stands at the front of an exponent. -/
theorem IsExponentPart.head {c : Char} {r : List Char} (h : IsExponentPart (c :: r)) :
    c.isDigit = false ∧ c ≠ '.' := by
  cases h with
  | some he =>
      obtain rfl | rfl := he
      · exact ⟨by decide, by decide⟩
      · exact ⟨by decide, by decide⟩

theorem IsExponentPart.stops {x : List Char} (h : IsExponentPart x) : Stops x := by
  rintro c r rfl
  exact h.head.1

theorem stops_point (cs : List Char) : Stops ('.' :: cs) := by
  rintro c r h
  rw [← (List.cons.inj h).1]
  decide

/-- What stands behind digits is found by dropping digits. -/
theorem span_digits {w tail : List Char} (hw : Digits w) (hstops : Stops tail) :
    (w ++ tail).takeWhile Char.isDigit = w ∧ (w ++ tail).dropWhile Char.isDigit = tail := by
  rw [List.takeWhile_append_of_pos hw, List.dropWhile_append_of_pos hw]
  cases tail with
  | nil => exact ⟨List.append_nil w, rfl⟩
  | cons c r =>
      have hc : ¬ c.isDigit = true := by rw [hstops c r rfl]; exact Bool.false_ne_true
      exact ⟨by rw [List.takeWhile_cons_of_neg hc, List.append_nil],
        List.dropWhile_cons_of_neg hc⟩

/-- The end of a number is read right behind the digits of the number. -/
theorem endsRight_iff {mantissa : Bool} {x : List Char} {ends : Bool}
    (hnil : x = [] → ends = mantissa)
    (hcons : ∀ e r, x = e :: r → ends = (mantissa && (e == 'e' || e == 'E') && isExponent r)) :
    ends = true ↔ mantissa = true ∧ IsExponentPart x := by
  cases x with
  | nil =>
      rw [hnil rfl]
      exact ⟨fun h => ⟨h, .none⟩, And.left⟩
  | cons e r =>
      rw [hcons e r rfl]
      simp only [Bool.and_eq_true, Bool.or_eq_true, beq_iff_eq]
      constructor
      · rintro ⟨⟨hmantissa, he⟩, hr⟩
        obtain ⟨sign, ds, rfl, hsign, hds⟩ := (isExponent_iff r).1 hr
        exact ⟨hmantissa, .some he hsign hds⟩
      · rintro ⟨hmantissa, hx⟩
        cases hx with
        | some he hsign hds =>
            exact ⟨⟨hmantissa, he⟩, (isExponent_iff _).2 ⟨_, _, rfl, hsign, hds⟩⟩

/-- A decimal without a point is digits and an exponent at will. -/
theorem isUnsignedDecimal_whole {w x : List Char} (hw : Digits w) (hstops : Stops x)
    (hpoint : ∀ r, x ≠ '.' :: r) :
    isUnsignedDecimal (w ++ x) = true ↔ w ≠ [] ∧ IsExponentPart x := by
  obtain ⟨htake, hdrop⟩ := span_digits hw hstops
  have hmantissa : (!(w.isEmpty && ([] : List Char).isEmpty)) = true ↔ w ≠ [] := by
    rw [List.isEmpty_nil, Bool.and_true, Bool.not_eq_true', List.isEmpty_eq_false_iff]
  rw [← hmantissa, isUnsignedDecimal, htake, hdrop]
  refine endsRight_iff ?_ ?_
  · rintro rfl
    rfl
  · rintro e r rfl
    split
    next fraction rest heq =>
    split at heq
    · next r hdot => exact absurd hdot (hpoint r)
    · obtain ⟨rfl, rfl⟩ := Prod.mk.inj heq
      rfl

/-- A decimal with a point has digits on one of its sides. -/
theorem isUnsignedDecimal_point {w f x : List Char} (hw : Digits w) (hf : Digits f)
    (hstops : Stops x) :
    isUnsignedDecimal (w ++ '.' :: (f ++ x)) = true ↔ (w ≠ [] ∨ f ≠ []) ∧ IsExponentPart x := by
  have hmantissa : (!(w.isEmpty && f.isEmpty)) = true ↔ w ≠ [] ∨ f ≠ [] := by
    rw [Bool.not_eq_true', Bool.and_eq_false_iff, List.isEmpty_eq_false_iff,
      List.isEmpty_eq_false_iff]
  obtain ⟨htake, hdrop⟩ := span_digits hw (stops_point (f ++ x))
  obtain ⟨hfraction, hrest⟩ := span_digits hf hstops
  rw [← hmantissa, isUnsignedDecimal, htake, hdrop]
  simp only [hfraction, hrest]
  refine endsRight_iff ?_ ?_
  · rintro rfl
    rfl
  · rintro e r rfl
    rfl

/-- Every text starts with digits, none at worst, and goes on without one. -/
theorem exists_digits (cs : List Char) : ∃ w tail, cs = w ++ tail ∧ Digits w ∧ Stops tail := by
  induction cs with
  | nil => exact ⟨[], [], rfl, List.forall_mem_nil _, fun _ _ h => by cases h⟩
  | cons c cs ih =>
      cases hc : c.isDigit with
      | false =>
          refine ⟨[], c :: cs, rfl, List.forall_mem_nil _, ?_⟩
          rintro c' r h
          rw [← (List.cons.inj h).1, hc]
      | true =>
          obtain ⟨w, tail, rfl, hw, hstops⟩ := ih
          exact ⟨c :: w, tail, rfl, List.forall_mem_cons.2 ⟨hc, hw⟩, hstops⟩

/-- A text is taken for a decimal exactly if it is one, with any run of digits
    for its whole part. -/
theorem isUnsignedDecimal_iff (cs : List Char) :
    isUnsignedDecimal cs = true ↔ IsDecimal IsRun cs := by
  constructor
  · intro h
    -- the text is cut behind the digits at its front, and behind those after the point
    obtain ⟨w, tail, rfl, hw, hstops⟩ := exists_digits cs
    by_cases hpoint : ∃ r, tail = '.' :: r
    · obtain ⟨r, rfl⟩ := hpoint
      obtain ⟨f, x, rfl, hf, hstops⟩ := exists_digits r
      obtain ⟨hne, hx⟩ := (isUnsignedDecimal_point hw hf hstops).1 h
      by_cases hwhole : w = []
      · subst hwhole
        exact .fraction ⟨hf, hne.resolve_left (absurd rfl)⟩ hx
      · exact .point ⟨hw, hwhole⟩ hf hx
    · obtain ⟨hne, hx⟩ := (isUnsignedDecimal_whole hw hstops (not_exists.1 hpoint)).1 h
      exact .integer ⟨hw, hne⟩ hx
  · intro h
    cases h with
    | integer hw hx =>
        refine (isUnsignedDecimal_whole hw.1 hx.stops ?_).2 ⟨hw.2, hx⟩
        rintro r rfl
        exact hx.head.2 rfl
    | point hw hf hx =>
        exact (isUnsignedDecimal_point hw.1 hf hx.stops).2 ⟨.inl hw.2, hx⟩
    | fraction hf hx =>
        exact (isUnsignedDecimal_point (w := []) (List.forall_mem_nil _) hf.1
          hx.stops).2 ⟨.inr hf.2, hx⟩

/-! ### Leading zeros -/

theorem IsWhole.isRun {w : List Char} (h : IsWhole w) : IsRun w := by
  cases h with
  | zero => exact ⟨List.forall_mem_singleton.2 (by decide), List.cons_ne_nil _ _⟩
  | led hd _ hds => exact ⟨List.forall_mem_cons.2 ⟨hd, hds⟩, List.cons_ne_nil _ _⟩

/-- A whole part is a run of digits without a zero in front of a digit, whatever
    stands behind it. -/
theorem isWhole_iff {w tail : List Char} (hstops : Stops tail) :
    IsWhole w ↔ IsRun w ∧ ¬ ZeroLed (w ++ tail) := by
  constructor
  · intro h
    refine ⟨h.isRun, ?_⟩
    rintro ⟨d, r, heq, hd⟩
    cases h with
    | zero =>
        rw [hstops d r (List.cons.inj heq).2] at hd
        cases hd
    | led _ hne _ => exact hne (List.cons.inj heq).1
  · rintro ⟨⟨hw, hne⟩, hzero⟩
    obtain ⟨d, ds, rfl⟩ := List.exists_cons_of_ne_nil hne
    obtain ⟨hd, hds⟩ := List.forall_mem_cons.1 hw
    by_cases hd0 : d = '0'
    · subst hd0
      cases ds with
      | nil => exact .zero
      | cons d' ds' => exact absurd ⟨d', ds' ++ tail, rfl, hds d' (List.mem_cons_self ..)⟩ hzero
    · exact .led hd hd0 hds

/-- **Without a zero ahead of a digit, digits are a whole number.** -/
theorem isDecimal_isWhole_iff (cs : List Char) :
    IsDecimal IsWhole cs ↔ IsDecimal IsRun cs ∧ ¬ ZeroLed cs := by
  constructor
  · intro h
    cases h with
    | integer hw hx =>
        obtain ⟨hrun, hzero⟩ := (isWhole_iff hx.stops).1 hw
        exact ⟨.integer hrun hx, hzero⟩
    | point hw hf hx =>
        obtain ⟨hrun, hzero⟩ := (isWhole_iff (stops_point _)).1 hw
        exact ⟨.point hrun hf hx, hzero⟩
    | fraction hf hx =>
        refine ⟨.fraction hf hx, ?_⟩
        rintro ⟨d, r, heq, -⟩
        cases heq
  · rintro ⟨h, hzero⟩
    cases h with
    | integer hw hx => exact .integer ((isWhole_iff hx.stops).2 ⟨hw, hzero⟩) hx
    | point hw hf hx => exact .point ((isWhole_iff (stops_point _)).2 ⟨hw, hzero⟩) hf hx
    | fraction hf hx => exact .fraction hf hx

/-! ### Words -/

/-- A decimal starts with a digit or with the point. -/
theorem IsDecimal.head {cs : List Char} (h : IsDecimal IsRun cs) :
    ∃ c r, cs = c :: r ∧ (c.isDigit = true ∨ c = '.') := by
  have hrun : ∀ {w : List Char}, IsRun w → ∀ tail, ∃ c r, w ++ tail = c :: r ∧
      (c.isDigit = true ∨ c = '.') := by
    rintro w ⟨hw, hne⟩ tail
    obtain ⟨d, ds, rfl⟩ := List.exists_cons_of_ne_nil hne
    exact ⟨d, ds ++ tail, rfl, .inl (hw d (List.mem_cons_self ..))⟩
  cases h with
  | integer hw hx => exact hrun hw _
  | point hw hf hx => exact hrun hw _
  | fraction hf hx => exact ⟨'.', _, rfl, .inr rfl⟩

/-- A digit has no small form. -/
theorem toLower_of_isDigit {c : Char} (h : c.isDigit = true) : c.toLower = c := by
  delta Char.toLower
  refine dif_neg ?_
  rintro ⟨hlower, -⟩
  simp only [Char.isDigit, Bool.and_eq_true, decide_eq_true_eq] at h
  exact absurd (UInt32.le_trans hlower h.2) (by decide)

/-- A word starts with a letter of one of the three words. -/
theorem exists_letter_of_isNumberWord {cs : List Char} (h : isNumberWord cs = true) :
    ∃ c r, cs = c :: r ∧ (c.toLower = 'i' ∨ c.toLower = 'n') := by
  simp only [isNumberWord, Bool.or_eq_true, beq_iff_eq] at h
  have hletter : ∀ (l : Char) (word : List Char), String.ofList (cs.map Char.toLower) =
      String.ofList (l :: word) → ∃ c r, cs = c :: r ∧ c.toLower = l := by
    intro l word heq
    obtain ⟨c, r, rfl, hl, -⟩ := List.map_eq_cons_iff.1 (String.ofList_injective heq)
    exact ⟨c, r, rfl, hl⟩
  obtain (h | h) | h := h
  · obtain ⟨c, r, rfl, hc⟩ := hletter 'i' ['n', 'f'] h
    exact ⟨c, r, rfl, .inl hc⟩
  · obtain ⟨c, r, rfl, hc⟩ := hletter 'i' ['n', 'f', 'i', 'n', 'i', 't', 'y'] h
    exact ⟨c, r, rfl, .inl hc⟩
  · obtain ⟨c, r, rfl, hc⟩ := hletter 'n' ['a', 'n'] h
    exact ⟨c, r, rfl, .inr hc⟩

/-- A word is no decimal. -/
theorem isUnsignedDecimal_of_isNumberWord {cs : List Char} (h : isNumberWord cs = true) :
    isUnsignedDecimal cs = false := by
  rw [Bool.eq_false_iff]
  intro hdecimal
  obtain ⟨c, r, rfl, hc⟩ := exists_letter_of_isNumberWord h
  obtain ⟨c', r', heq, hfront⟩ := ((isUnsignedDecimal_iff _).1 hdecimal).head
  obtain ⟨rfl, rfl⟩ := List.cons.inj heq
  obtain hdigit | rfl := hfront
  · rw [toLower_of_isDigit hdigit] at hc
    obtain rfl | rfl := hc
    · cases hdigit
    · cases hdigit
  · revert hc
    decide

/-- A text that reads as a number does not start with a quote. -/
theorem ne_quote_of_isNumber {s : String} (h : isNumber s = true) (r : List Char) :
    s.toList ≠ '"' :: r := by
  intro hs
  rw [isNumber, hs, Bool.or_eq_true] at h
  obtain hdecimal | hword := h
  · obtain ⟨c, r', heq, hfront⟩ := ((isUnsignedDecimal_iff _).1 hdecimal).head
    obtain ⟨rfl, -⟩ := List.cons.inj heq
    revert hfront
    decide
  · obtain ⟨c, r', heq, hletter⟩ := exists_letter_of_isNumberWord hword
    obtain ⟨rfl, -⟩ := List.cons.inj heq
    revert hletter
    decide

/-! ### Signed numbers -/

/-- A literal is a decimal behind a sign at will. -/
theorem isNumericLiteral_iff_isDecimal (cs : List Char) :
    IsNumericLiteral cs ↔ IsDecimal IsWhole (dropSign cs) := by
  constructor
  · rintro ⟨sign, rest, rfl, hsign, h⟩
    obtain ⟨c, r, rfl, hc⟩ := ((isDecimal_isWhole_iff rest).1 h).1.head
    rwa [dropSign_sign hsign]
    · rintro rfl
      revert hc
      decide
    · rintro rfl
      revert hc
      decide
  · intro h
    obtain ⟨sign, hsign, hcs⟩ := exists_sign cs
    exact ⟨sign, dropSign cs, hcs, hsign, h⟩

/-- A text that reads as a floating point number and is no literal: a word, or
    a decimal with a digit behind the zero at its front. -/
def Misread (s : String) : Prop :=
  isNumberWord (dropSign s.toList) = true
    ∨ isUnsignedDecimal (dropSign s.toList) = true ∧ ZeroLed (dropSign s.toList)

theorem Misread.isNumber {s : String} (h : Misread s) : isNumber s = true :=
  Bool.or_eq_true_iff.2 (h.elim .inr fun hdecimal => .inl hdecimal.1)

/-- **The number literals are the texts that read as a number and are not
    misread.** -/
theorem isNumericLiteral_iff (s : String) :
    IsNumericLiteral s.toList ↔ isNumber s = true ∧ ¬ Misread s := by
  rw [isNumericLiteral_iff_isDecimal, isDecimal_isWhole_iff, ← isUnsignedDecimal_iff, isNumber,
    Bool.or_eq_true, Misread, not_or, not_and]
  constructor
  · rintro ⟨hdecimal, hzero⟩
    refine ⟨.inl hdecimal, ?_, fun _ => hzero⟩
    intro hword
    rw [isUnsignedDecimal_of_isNumberWord hword] at hdecimal
    cases hdecimal
  · rintro ⟨hreads, hword, hzero⟩
    have hdecimal := hreads.resolve_right hword
    exact ⟨hdecimal, hzero hdecimal⟩

end Blueprints.Text
