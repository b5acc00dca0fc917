import Blueprints.Json.Fault

/-! # Tokens of JSON text

    Reading works on the list of characters that is still to be read.  This
    module reads the tokens: white space, the three words, numbers and
    strings.  A number with a point or an exponent, or one that does not
    fit the integers from `-2 ^ 63` up to `2 ^ 64`, becomes a floating point
    number. -/

namespace Blueprints.Json

/-- The outcome of reading: a value and the characters after it. -/
abbrev Scan (α : Type) := Except Fault (α × List Char)

/-- Whether a character may stand between tokens. -/
def isSpace (c : Char) : Bool :=
  c == ' ' || c == '\t' || c == '\n' || c == '\r'

/-- Characters from the first one that is no white space. -/
def skipSpace (cs : List Char) : List Char :=
  cs.dropWhile isSpace

/-- The rest of a word after its first letter. -/
def wordRest : List Char → List Char → Except Fault (List Char)
  | [], cs => .ok cs
  | _ :: _, [] => .error .endOfText
  | w :: ws, c :: cs => if w = c then wordRest ws cs else .error .malformed

/-- The rest of `null` after its first letter. -/
def nullRest : List Char → Except Fault (List Char) := wordRest ['u', 'l', 'l']

/-- The rest of `true` after its first letter. -/
def trueRest : List Char → Except Fault (List Char) := wordRest ['r', 'u', 'e']

/-- The rest of `false` after its first letter. -/
def falseRest : List Char → Except Fault (List Char) :=
  wordRest ['a', 'l', 's', 'e']

/-! ## Numbers -/

/-- A number of a JSON text. -/
inductive Number where
  | int (n : Int)
  | float (d : Double)
  deriving DecidableEq, Repr

/-- One more than the largest integer. -/
def integerLimit : Nat := Nat.pow 2 64

/-- Appends digits to a significand until one does not fit; gives the
    significand and the digits that are left. -/
def absorb (significand : Nat) : List Char → Nat × List Char
  | [] => (significand, [])
  | d :: ds =>
    let next := significand * 10 + (d.toNat - 48)
    if next < integerLimit then absorb next ds else (significand, d :: ds)

/-- A floating point number from its sign, its significand and its exponent
    of ten, with the characters after it. -/
def floatOf (negative : Bool) (significand : Nat) (exponent : Int)
    (rest : List Char) : Scan Number :=
  match (Double.ofNat significand).scaleTen exponent with
  | none => .error .malformed
  | some d => .ok (.float (if negative then d.neg else d), rest)

/-- Exponents beyond this one are not counted any further. -/
def exponentLimit : Nat := Nat.pow 2 31

/-- The exponent part after its mark: a sign at will and digits. -/
def exponentPart (negative : Bool) (significand : Nat) (start : Int)
    (cs : List Char) : Scan Number :=
  let down := cs.head? == some '-'
  match Text.dropSign cs with
  | [] => .error .endOfText
  | c :: r =>
    if c.isDigit then
      let digits := c :: r.takeWhile Char.isDigit
      let rest := r.dropWhile Char.isDigit
      let e := Text.digitsValue digits
      if e < exponentLimit then
        floatOf negative significand (if down then start - e else start + e) rest
      else if significand != 0 && !down then .error .malformed
      else .ok (.float (.signedZero negative), rest)
    else .error .malformed

/-- What follows the significand of a floating point number. -/
def floatEnd (negative : Bool) (significand : Nat) (exponent : Int)
    (cs : List Char) : Scan Number :=
  match cs with
  | [] => floatOf negative significand exponent cs
  | c :: r =>
    if c == 'e' || c == 'E' then exponentPart negative significand exponent r
    else floatOf negative significand exponent cs

/-- The fraction after the point: at least one digit.  Digits that the
    significand cannot take are dropped. -/
def fractionPart (negative : Bool) (significand : Nat) (exponent : Int)
    (cs : List Char) : Scan Number :=
  let digits := cs.takeWhile Char.isDigit
  let rest := cs.dropWhile Char.isDigit
  if digits.isEmpty then
    if rest.isEmpty then .error .endOfText else .error .malformed
  else
    let (significand, dropped) := absorb significand digits
    floatEnd negative significand (exponent - (digits.length - dropped.length : Nat)) rest

/-- An integer, or a floating point number if it does not fit or is a
    negative zero. -/
def wholeNumber (negative : Bool) (significand : Nat) : Number :=
  if negative then
    if significand = 0 ∨ Nat.pow 2 63 < significand then
      .float (Double.ofNat significand).neg
    else .int (-significand)
  else .int significand

/-- What follows the whole part of a number.  Digits of the whole part that
    the significand could not take raise the exponent. -/
def numberEnd (negative : Bool) (significand dropped : Nat) (cs : List Char) :
    Scan Number :=
  match cs with
  | '.' :: r => fractionPart negative significand dropped r
  | _ =>
    if dropped = 0 then
      match cs with
      | [] => .ok (wholeNumber negative significand, cs)
      | c :: r =>
        if c == 'e' || c == 'E' then exponentPart negative significand 0 r
        else .ok (wholeNumber negative significand, cs)
    else floatEnd negative significand dropped cs

/-- A number after its sign. -/
def number (negative : Bool) (cs : List Char) : Scan Number :=
  match cs with
  | [] => .error .endOfText
  | c :: r =>
    if c == '0' then
      match r with
      | [] => numberEnd negative 0 0 r
      | d :: _ => if d.isDigit then .error .malformed else numberEnd negative 0 0 r
    else if c.isDigit then
      let (significand, dropped) := absorb 0 (c :: r.takeWhile Char.isDigit)
      numberEnd negative significand dropped.length (r.dropWhile Char.isDigit)
    else .error .malformed

/-! ## Strings -/

/-- The value of a hexadecimal digit. -/
def hexValue? (c : Char) : Option Nat :=
  if c.isDigit then some (c.toNat - 48)
  else if 'a' ≤ c ∧ c ≤ 'f' then some (c.toNat - 87)
  else if 'A' ≤ c ∧ c ≤ 'F' then some (c.toNat - 55)
  else none

/-- The bytes that characters take in UTF-8. -/
def byteCount (cs : List Char) : Nat :=
  cs.foldl (fun n c => n + c.utf8Size) 0

/-- A code unit of four hexadecimal digits.  The text ends too early if
    fewer than four bytes are left. -/
def hexUnit (cs : List Char) : Scan Nat :=
  match cs with
  | a :: b :: c :: d :: r =>
    match hexValue? a, hexValue? b, hexValue? c, hexValue? d with
    | some a, some b, some c, some d => .ok (((a * 16 + b) * 16 + c) * 16 + d, r)
    | _, _, _, _ => .error .malformed
  | _ => if byteCount cs < 4 then .error .endOfText else .error .malformed

/-- The second half of a surrogate pair. -/
def lowSurrogate (high : Nat) (cs : List Char) : Scan Char :=
  match cs with
  | [] => .error .endOfText
  | '\\' :: [] => .error .endOfText
  | '\\' :: 'u' :: r =>
    match hexUnit r with
    | .error e => .error e
    | .ok (low, rest) =>
      if 0xDC00 ≤ low ∧ low ≤ 0xDFFF then
        .ok (Char.ofNat ((high - 0xD800) * 1024 + (low - 0xDC00) + 0x10000), rest)
      else .error .malformed
  | _ => .error .malformed

/-- A character given by number; one beyond the basic plane takes two code
    units. -/
def unicodeEscape (cs : List Char) : Scan Char :=
  match hexUnit cs with
  | .error e => .error e
  | .ok (n, rest) =>
    if 0xDC00 ≤ n ∧ n ≤ 0xDFFF then .error .malformed
    else if 0xD800 ≤ n ∧ n ≤ 0xDBFF then lowSurrogate n rest
    else .ok (Char.ofNat n, rest)

/-- The character that an escape names by one letter. -/
def simpleEscape? (c : Char) : Option Char :=
  if c == '"' then some '"'
  else if c == '\\' then some '\\'
  else if c == '/' then some '/'
  else if c == 'b' then some '\x08'
  else if c == 'f' then some '\x0c'
  else if c == 'n' then some '\n'
  else if c == 'r' then some '\r'
  else if c == 't' then some '\t'
  else none

/-- An escape after its backslash. -/
def escape (cs : List Char) : Scan Char :=
  match cs with
  | [] => .error .endOfText
  | c :: r =>
    if c == 'u' then unicodeEscape r
    else
      match simpleEscape? c with
      | some d => .ok (d, r)
      | none => .error .malformed

/-- Four digits are taken off the text. -/
theorem hexUnit_shorter {cs rest : List Char} {n : Nat}
    (h : hexUnit cs = .ok (n, rest)) : rest.length < cs.length := by
  unfold hexUnit at h
  split at h
  · split at h
    · simp only [Except.ok.injEq, Prod.mk.injEq] at h
      rw [← h.2]
      simp only [List.length_cons]
      omega
    · simp at h
  · split at h <;> simp at h

/-- The second half of a character is taken off the text. -/
theorem lowSurrogate_shorter {high : Nat} {cs rest : List Char} {c : Char}
    (h : lowSurrogate high cs = .ok (c, rest)) : rest.length < cs.length := by
  unfold lowSurrogate at h
  split at h
  · simp at h
  · simp at h
  · split at h
    · simp at h
    · rename_i hu
      have hs := hexUnit_shorter hu
      split at h
      · simp only [Except.ok.injEq, Prod.mk.injEq] at h
        rw [← h.2]
        simp only [List.length_cons]
        omega
      · simp at h
  · simp at h

/-- An escape by number takes something off the text. -/
theorem unicodeEscape_shorter {cs rest : List Char} {c : Char}
    (h : unicodeEscape cs = .ok (c, rest)) : rest.length < cs.length := by
  unfold unicodeEscape at h
  split at h
  · simp at h
  · rename_i hu
    have hs := hexUnit_shorter hu
    split at h
    · simp at h
    · split at h
      · have := lowSurrogate_shorter h
        omega
      · simp only [Except.ok.injEq, Prod.mk.injEq] at h
        rw [← h.2]
        exact hs

/-- An escape takes at least one character. -/
theorem escape_shorter {cs rest : List Char} {c : Char}
    (h : escape cs = .ok (c, rest)) : rest.length < cs.length := by
  unfold escape at h
  split at h
  · simp at h
  · split at h
    · have := unicodeEscape_shorter h
      simp only [List.length_cons]
      omega
    · split at h
      · simp only [Except.ok.injEq, Prod.mk.injEq] at h
        rw [← h.2]
        simp
      · simp at h

/-- The characters of a string after its opening quote. -/
def stringBody (cs : List Char) : Scan (List Char) :=
  match cs with
  | [] => .error .endOfText
  | c :: r =>
    if c == '"' then .ok ([], r)
    else if c == '\\' then
      match _taken : escape r with
      | .error e => .error e
      | .ok (d, rest) =>
        match stringBody rest with
        | .error e => .error e
        | .ok (ds, rest) => .ok (d :: ds, rest)
    else if c.toNat < 32 then .error .malformed
    else
      match stringBody r with
      | .error e => .error e
      | .ok (ds, rest) => .ok (c :: ds, rest)
termination_by cs.length
decreasing_by
  · have := escape_shorter _taken
    simp only [List.length_cons]
    omega
  · simp

/-- A string after its opening quote. -/
def stringRest (cs : List Char) : Scan String :=
  match stringBody cs with
  | .error e => .error e
  | .ok (body, rest) => .ok (String.ofList body, rest)

end Blueprints.Json
