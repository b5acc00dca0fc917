import Mathlib.Data.List.TakeWhile
import Blueprints.Json.Reader
import Blueprints.Proofs.Text.Numbering

/-! # Tokens are read back

    White space, strings and numbers as they are written, read in front of
    more text.  A string ends at its quote, whatever comes after it.  A number
    ends where a character comes that cannot go on with it (`Ends`): what was
    read from it alone is read from it there too (`number_append`). -/

namespace Blueprints.Json

/-! ## White space -/

theorem isSpace_iff {c : Char} :
    isSpace c = true ↔ c = ' ' ∨ c = '\t' ∨ c = '\n' ∨ c = '\r' := by
  simp only [isSpace, Bool.or_eq_true, beq_iff_eq, or_assoc]

/-- Text of white space only. -/
def Blank (cs : List Char) : Prop := ∀ c ∈ cs, isSpace c = true

theorem blank_nil : Blank [] := fun _ h => absurd h List.not_mem_nil

/-- A new line and its indentation are white space. -/
theorem blank_lineStart (depth : Nat) : Blank (lineStart depth) := by
  intro c hc
  rcases List.mem_cons.1 hc with rfl | hc
  · rfl
  · rw [(List.mem_replicate.1 hc).2]
    rfl

/-- White space is skipped. -/
theorem skipSpace_append {ws : List Char} (h : Blank ws) (cs : List Char) :
    skipSpace (ws ++ cs) = skipSpace cs := by
  induction ws with
  | nil => rfl
  | cons c rest ih =>
      have hc : isSpace c = true := h c (List.mem_cons_self ..)
      rw [List.cons_append, skipSpace, List.dropWhile_cons_of_pos hc]
      exact ih fun c' hc' => h c' (List.mem_cons_of_mem _ hc')

theorem skipSpace_cons {c : Char} (h : isSpace c = false) (cs : List Char) :
    skipSpace (c :: cs) = c :: cs :=
  List.dropWhile_cons_of_neg (by rw [h]; exact Bool.false_ne_true)

/-! ## Strings -/

theorem hexValue?_hexDigit : ∀ n < 16, hexValue? (hexDigit n) = some n := by
  decide

/-- An escaped character is read, and the string goes on behind it. -/
theorem stringBody_escaped {cs rest : List Char} {d : Char} (h : escape cs = .ok (d, rest)) :
    stringBody ('\\' :: cs) = (stringBody rest).map fun (ds, rest) => (d :: ds, rest) := by
  rw [stringBody, if_neg (by decide), if_pos (by decide)]
  split
  · next e heq =>
    rw [h] at heq
    cases heq
  · next d' rest' heq =>
    rw [h] at heq
    obtain ⟨rfl, rfl⟩ := Prod.mk.inj (Except.ok.inj heq)
    cases stringBody rest with
    | error e => rfl
    | ok body => rfl

/-- A plain character is read as it is. -/
theorem stringBody_plain {c : Char} (hquote : c ≠ '"') (hescape : c ≠ '\\')
    (hcontrol : ¬c.toNat < 32) (cs : List Char) :
    stringBody (c :: cs) = (stringBody cs).map fun (ds, rest) => (c :: ds, rest) := by
  rw [stringBody, if_neg (by simpa using hquote), if_neg (by simpa using hescape),
    if_neg hcontrol]
  cases stringBody cs with
  | error e => rfl
  | ok body => rfl

/-- A control character is escaped by its number. -/
theorem escape_control {c : Char} (h : c.toNat < 32) (cs : List Char) :
    escape ('u' :: '0' :: '0' :: hexDigit (c.toNat / 16) :: hexDigit (c.toNat % 16) :: cs)
      = .ok (c, cs) := by
  have hhigh : hexValue? (hexDigit (c.toNat / 16)) = some (c.toNat / 16) :=
    hexValue?_hexDigit _ (by omega)
  have hlow : hexValue? (hexDigit (c.toNat % 16)) = some (c.toNat % 16) :=
    hexValue?_hexDigit _ (by omega)
  have hzero : hexValue? '0' = some 0 := by decide
  have hnumber : ((0 * 16 + 0) * 16 + c.toNat / 16) * 16 + c.toNat % 16 = c.toNat := by omega
  have hunit : hexUnit ('0' :: '0' :: hexDigit (c.toNat / 16) :: hexDigit (c.toNat % 16) :: cs)
      = .ok (c.toNat, cs) := by
    rw [hexUnit, hzero, hhigh, hlow]
    exact congrArg (fun n => Except.ok (n, cs)) hnumber
  rw [escape, if_pos (by decide), unicodeEscape, hunit]
  dsimp only
  rw [if_neg (by omega), if_neg (by omega), Char.ofNat_toNat]

/-- An escaped character is read as the character. -/
theorem stringBody_escapeChar (c : Char) (cs : List Char) :
    stringBody (escapeChar c ++ cs)
      = (stringBody cs).map fun (ds, rest) => (c :: ds, rest) := by
  rw [escapeChar]
  split
  · next h => subst h; exact stringBody_escaped rfl
  split
  · next h => subst h; exact stringBody_escaped rfl
  split
  · next h => subst h; exact stringBody_escaped rfl
  split
  · next h => subst h; exact stringBody_escaped rfl
  split
  · next h => subst h; exact stringBody_escaped rfl
  split
  · next h => subst h; exact stringBody_escaped rfl
  split
  · next h => subst h; exact stringBody_escaped rfl
  split
  · next h => exact stringBody_escaped (escape_control h cs)
  · next hquote hescape _ _ _ _ _ hcontrol => exact stringBody_plain hquote hescape hcontrol cs

/-- **A string is read back.** By induction on its characters: each is read from its
    escape. -/
theorem stringBody_flatMap (cs rest : List Char) :
    stringBody (cs.flatMap escapeChar ++ '"' :: rest) = .ok (cs, rest) := by
  induction cs with
  | nil =>
      rw [List.flatMap_nil, List.nil_append, stringBody]
      rfl
  | cons c cs ih =>
      rw [List.flatMap_cons, List.append_assoc, stringBody_escapeChar, ih]
      rfl

/-- **A string that is written is read back.** -/
theorem stringRest_chars (s : String) (rest : List Char) :
    stringRest (s.toList.flatMap escapeChar ++ '"' :: rest) = .ok (s, rest) := by
  rw [stringRest, stringBody_flatMap]
  exact congrArg (fun s => Except.ok (s, rest)) (String.ofList_toList)

/-! ## The end of a number -/

/-- Text that does not go on with a number. -/
def Ends (cs : List Char) : Prop :=
  ∀ c r, cs = c :: r → c.isDigit = false ∧ c ≠ '.' ∧ c ≠ 'e' ∧ c ≠ 'E'

theorem ends_nil : Ends [] := fun _ _ h => nomatch h

theorem ends_cons {c : Char} (h : c.isDigit = false ∧ c ≠ '.' ∧ c ≠ 'e' ∧ c ≠ 'E')
    (cs : List Char) : Ends (c :: cs) := by
  intro c' r heq
  obtain ⟨rfl, -⟩ := List.cons.inj heq
  exact h

section Append

variable {tail : List Char} (ends : Ends tail)

include ends

/-- No digit follows a number. -/
theorem takeWhile_isDigit_tail : tail.takeWhile Char.isDigit = [] := by
  cases tail with
  | nil => rfl
  | cons c r =>
      refine List.takeWhile_cons_of_neg ?_
      rw [(ends c r rfl).1]
      exact Bool.false_ne_true

/-- The digits of a number are those of its own text. -/
theorem takeWhile_isDigit_append (cs : List Char) :
    (cs ++ tail).takeWhile Char.isDigit = cs.takeWhile Char.isDigit := by
  induction cs with
  | nil => exact takeWhile_isDigit_tail ends
  | cons c cs ih =>
      rw [List.cons_append, List.takeWhile_cons, List.takeWhile_cons, ih]

/-- What is left behind the digits is the rest of the text. -/
theorem dropWhile_isDigit_append (cs : List Char) :
    (cs ++ tail).dropWhile Char.isDigit = cs.dropWhile Char.isDigit ++ tail := by
  induction cs with
  | nil =>
      cases tail with
      | nil => rfl
      | cons c r =>
          refine List.dropWhile_cons_of_neg ?_
          rw [(ends c r rfl).1]
          exact Bool.false_ne_true
  | cons c cs ih =>
      rw [List.cons_append, List.dropWhile_cons, List.dropWhile_cons, ih]
      split
      · rfl
      · rfl

end Append

/-! ## Numbers in front of more text -/

/-- What is read from a text is read from it in front of `tail` too. -/
def Continues (read : List Char → Scan Number) (tail : List Char) : Prop :=
  ∀ {cs rest : List Char} {x : Number}, read cs = .ok (x, rest) →
    read (cs ++ tail) = .ok (x, rest ++ tail)

section Continues

variable (negative : Bool) {tail : List Char}

/-- A decimal is made of what has been read, whatever follows. -/
theorem floatOf_continues (significand : Nat) (exponent : Int) :
    Continues (floatOf negative significand exponent) tail := by
  intro cs rest x h
  rw [floatOf] at h ⊢
  split at h
  · exact nomatch h
  · obtain ⟨rfl, rfl⟩ := Prod.mk.inj (Except.ok.inj h)
    rfl

/-- A sign is found in front of more text as it is found alone. -/
theorem dropSign_append {cs : List Char} (h : Text.dropSign cs ≠ []) (tail : List Char) :
    Text.dropSign (cs ++ tail) = Text.dropSign cs ++ tail
      ∧ (cs ++ tail).head? = cs.head? := by
  match cs with
  | [] => exact absurd rfl h
  | c :: r =>
    refine ⟨?_, rfl⟩
    rw [List.cons_append]
    unfold Text.dropSign
    split
    · next heq =>
      obtain ⟨rfl, rfl⟩ := List.cons.inj heq
      rfl
    · next heq =>
      obtain ⟨rfl, rfl⟩ := List.cons.inj heq
      rfl
    · next hplus hminus =>
      split
      · next heq =>
        obtain ⟨rfl, rfl⟩ := List.cons.inj heq
        exact absurd rfl (hplus (r ++ tail))
      · next heq =>
        obtain ⟨rfl, rfl⟩ := List.cons.inj heq
        exact absurd rfl (hminus (r ++ tail))
      · rfl

variable (ends : Ends tail)

include ends

/-- An exponent is read as far as its digits go. -/
theorem exponentPart_continues (significand : Nat) (start : Int) :
    Continues (exponentPart negative significand start) tail := by
  intro cs rest x h
  rw [exponentPart] at h ⊢
  cases hsign : Text.dropSign cs with
  | nil =>
      rw [hsign] at h
      exact nomatch h
  | cons c r =>
      obtain ⟨hdrop, hhead⟩ := dropSign_append (hsign ▸ List.cons_ne_nil c r) tail
      rw [hdrop, hhead, hsign]
      rw [hsign] at h
      dsimp only [List.cons_append] at h ⊢
      split at h
      · next hdigit =>
        rw [if_pos hdigit, takeWhile_isDigit_append ends, dropWhile_isDigit_append ends]
        split at h
        · next hlimit =>
          rw [if_pos hlimit]
          exact floatOf_continues negative _ _ h
        · next hlimit =>
          rw [if_neg hlimit]
          split at h
          · exact nomatch h
          · next hover =>
            rw [if_neg hover]
            obtain ⟨rfl, rfl⟩ := Prod.mk.inj (Except.ok.inj h)
            rfl
      · exact nomatch h

/-- A decimal ends, or an exponent follows. -/
theorem floatEnd_continues (significand : Nat) (exponent : Int) :
    Continues (floatEnd negative significand exponent) tail := by
  intro cs rest x h
  match cs with
  | [] =>
    have hread : floatOf negative significand exponent ([] ++ tail) = .ok (x, rest ++ tail) :=
      floatOf_continues negative significand exponent h
    match htail : tail with
    | [] => exact hread
    | c :: r =>
      obtain ⟨-, -, hlower, hupper⟩ := ends c r rfl
      rw [List.nil_append, floatEnd, if_neg (by simp [hlower, hupper])]
      exact hread
  | c :: r =>
    rw [floatEnd] at h
    rw [List.cons_append, floatEnd]
    split at h
    · next hmark =>
      rw [if_pos hmark]
      exact exponentPart_continues negative ends significand exponent h
    · next hmark =>
      rw [if_neg hmark]
      exact floatOf_continues negative significand exponent h

/-- A fraction is read as far as its digits go. -/
theorem fractionPart_continues (significand : Nat) (exponent : Int) :
    Continues (fractionPart negative significand exponent) tail := by
  intro cs rest x h
  rw [fractionPart] at h ⊢
  dsimp only at h ⊢
  rw [takeWhile_isDigit_append ends, dropWhile_isDigit_append ends]
  split at h
  · split at h
    · exact nomatch h
    · exact nomatch h
  · next hdigits =>
    rw [if_neg hdigits]
    exact floatEnd_continues negative ends _ _ h

omit ends

/-- Where no point follows, a number is whole unless digits were dropped or an
    exponent follows. -/
theorem numberEnd_of_ne {significand dropped : Nat} {cs : List Char} :
    (∀ r, cs ≠ '.' :: r) → numberEnd negative significand dropped cs
      = if dropped = 0 then
          match cs with
          | [] => .ok (wholeNumber negative significand, cs)
          | c :: r =>
            if c == 'e' || c == 'E' then exponentPart negative significand 0 r
            else .ok (wholeNumber negative significand, cs)
        else floatEnd negative significand dropped cs := by
  intro h
  unfold numberEnd
  split
  · next r => exact absurd rfl (h r)
  · rfl

/-- **The end of a number is read in front of more text** as it is read alone. -/
theorem numberEnd_continues (ends : Ends tail) (significand dropped : Nat) :
    Continues (numberEnd negative significand dropped) tail := by
  intro cs rest x h
  by_cases hpoint : ∃ r, cs = '.' :: r
  · obtain ⟨r, rfl⟩ := hpoint
    exact fractionPart_continues negative ends significand dropped h
  · have hne : ∀ r, cs ≠ '.' :: r := fun r heq => hpoint ⟨r, heq⟩
    have hne' : ∀ r, cs ++ tail ≠ '.' :: r := by
      intro r heq
      cases cs with
      | nil => exact (ends '.' r heq).2.1 rfl
      | cons c cs => exact hne cs ((List.cons.inj heq).1 ▸ rfl)
    rw [numberEnd_of_ne negative hne] at h
    rw [numberEnd_of_ne negative hne']
    split at h
    · next hdropped =>
      rw [if_pos hdropped]
      cases cs with
      | nil =>
          obtain ⟨rfl, rfl⟩ := Prod.mk.inj (Except.ok.inj h)
          cases tail with
          | nil => rfl
          | cons c r =>
              obtain ⟨-, -, hlower, hupper⟩ := ends c r rfl
              show (if c == 'e' || c == 'E' then _ else _) = _
              rw [if_neg (by simp [hlower, hupper])]
      | cons c r =>
          dsimp only [List.cons_append] at h ⊢
          split at h
          · next hmark =>
            rw [if_pos hmark]
            exact exponentPart_continues negative ends significand 0 h
          · next hmark =>
            rw [if_neg hmark]
            obtain ⟨rfl, rfl⟩ := Prod.mk.inj (Except.ok.inj h)
            rfl
    · next hdropped =>
      rw [if_neg hdropped]
      exact floatEnd_continues negative ends significand dropped h

/-- **A number is read in front of more text as it is read alone.** -/
theorem number_continues (ends : Ends tail) : Continues (number negative) tail := by
  intro cs rest x h
  cases cs with
  | nil => exact nomatch h
  | cons c r =>
      rw [number.eq_def] at h
      rw [List.cons_append, number.eq_def]
      dsimp only at h ⊢
      split at h
      · next hzero =>
        rw [if_pos hzero]
        cases r with
        | nil =>
            have hread := numberEnd_continues negative ends 0 0 h
            cases tail with
            | nil => exact hread
            | cons d r =>
                show (if d.isDigit then _ else _) = _
                rw [(ends d r rfl).1]
                exact hread
        | cons d r =>
            dsimp only [List.cons_append] at h ⊢
            split at h
            · exact nomatch h
            · next hdigit =>
              rw [if_neg hdigit]
              exact numberEnd_continues negative ends 0 0 h
      · next hzero =>
        rw [if_neg hzero]
        split at h
        · next hdigit =>
          rw [if_pos hdigit, takeWhile_isDigit_append ends, dropWhile_isDigit_append ends]
          exact numberEnd_continues negative ends _ _ h
        · exact nomatch h

end Continues

/-! ## Integers -/

/-- More digits make a number no smaller. -/
theorem le_foldl_digits (ds : List Char) (n : Nat) :
    n ≤ ds.foldl (fun n c => 10 * n + (c.toNat - 48)) n := by
  induction ds generalizing n with
  | nil => exact Nat.le_refl n
  | cons d ds ih => exact Nat.le_trans (by omega) (ih (10 * n + (d.toNat - 48)))

/-- Digits are taken up as long as their value fits. -/
theorem absorb_of_lt {ds : List Char} {n : Nat}
    (h : ds.foldl (fun n c => 10 * n + (c.toNat - 48)) n < integerLimit) :
    absorb n ds = (ds.foldl (fun n c => 10 * n + (c.toNat - 48)) n, []) := by
  induction ds generalizing n with
  | nil => rfl
  | cons d ds ih =>
      have hnext : n * 10 + (d.toNat - 48) < integerLimit := by
        rw [Nat.mul_comm]
        exact Nat.lt_of_le_of_lt (le_foldl_digits ds _) h
      rw [absorb, if_pos hnext, Nat.mul_comm]
      exact ih h

/-- What is absorbed of digits stays below the limit. -/
theorem absorb_lt {n : Nat} (h : n < integerLimit) (ds : List Char) :
    (absorb n ds).1 < integerLimit := by
  induction ds generalizing n with
  | nil => exact h
  | cons d ds ih =>
      rw [absorb]
      split
      · next hnext => exact ih hnext
      · exact h

/-- A number above zero is written without a zero in front. -/
theorem head?_toDigits {n : Nat} (h : 0 < n) : (Nat.toDigits 10 n).head? ≠ some '0' := by
  induction n using Nat.strongRecOn with
  | ind n ih =>
      by_cases hlt : n < 10
      · rw [Nat.toDigits_of_lt_base hlt]
        have hall : ∀ m < 10, 0 < m → [Nat.digitChar m].head? ≠ some '0' := by decide
        exact hall n hlt h
      · rw [Nat.toDigits_of_base_le (by decide) (Nat.not_lt.1 hlt), List.head?_append]
        have hrest := ih (n / 10) (by omega) (by omega)
        cases hdigits : Nat.toDigits 10 (n / 10) with
        | nil => exact absurd hdigits Nat.toDigits_ne_nil
        | cons c r =>
            rw [hdigits] at hrest
            exact hrest

/-- **A whole number below the limit is read back.** -/
theorem number_toDigits (negative : Bool) {n : Nat} (h : n < integerLimit) :
    number negative (Nat.toDigits 10 n) = .ok (wholeNumber negative n, []) := by
  rcases Nat.eq_zero_or_pos n with rfl | hpos
  · rfl
  · have hdigits : ∀ c ∈ Nat.toDigits 10 n, c.isDigit = true := fun c hc =>
      Nat.isDigit_of_mem_toDigits (by decide) (by decide) hc
    have hvalue := Text.digitsValue_toDigits n
    have hhead := head?_toDigits hpos
    cases hchars : Nat.toDigits 10 n with
    | nil => exact absurd hchars Nat.toDigits_ne_nil
    | cons c r =>
        rw [hchars] at hdigits hvalue hhead
        have hrest : ∀ c ∈ r, c.isDigit = true := fun c' hc' =>
          hdigits c' (List.mem_cons_of_mem _ hc')
        have hzero : ¬(c == '0') = true := fun heq => hhead (congrArg some (eq_of_beq heq))
        have htake : r.takeWhile Char.isDigit = r := List.takeWhile_eq_self_iff.2 hrest
        have hdrop : r.dropWhile Char.isDigit = [] := List.dropWhile_eq_nil_iff.2 hrest
        have habsorb : absorb 0 (c :: r) = (n, []) := by
          rw [absorb_of_lt (Nat.lt_of_le_of_lt (Nat.le_of_eq hvalue) h)]
          exact congrArg (·, []) hvalue
        rw [number.eq_def]
        dsimp only
        rw [if_neg hzero, if_pos (hdigits c (List.mem_cons_self ..)), htake, hdrop, habsorb]
        rfl

end Blueprints.Json
