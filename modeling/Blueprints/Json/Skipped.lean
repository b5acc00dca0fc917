import Blueprints.Json.Reader
import Blueprints.Text.Numeral

/-! # Skipped values

    The value of a field that nobody asked for has to be JSON, but it is
    not looked at any closer: its numbers may be out of range, its strings
    may hold single surrogates, and its brackets may be nested at will. -/

namespace Blueprints.Json.Reader

/-- Skips an exponent after its mark. -/
def skipExponent (cs : List Char) : Except Fault (List Char) :=
  match Text.dropSign cs with
  | [] => .error .malformed
  | c :: r => if c.isDigit then .ok (r.dropWhile Char.isDigit) else .error .malformed

/-- Skips an exponent if there is one. -/
def skipExponentEnd (cs : List Char) : Except Fault (List Char) :=
  match cs with
  | [] => .ok []
  | c :: r => if c == 'e' || c == 'E' then skipExponent r else .ok (c :: r)

/-- Skips what follows the whole part of a number. -/
def skipNumberEnd (cs : List Char) : Except Fault (List Char) :=
  match cs with
  | '.' :: r =>
    if (r.takeWhile Char.isDigit).isEmpty then .error .malformed
    else skipExponentEnd (r.dropWhile Char.isDigit)
  | r => skipExponentEnd r

/-- Skips a number after its sign. -/
def skipNumber (cs : List Char) : Except Fault (List Char) :=
  match cs with
  | [] => .error .malformed
  | c :: r =>
    if c == '0' then
      match r with
      | [] => skipNumberEnd r
      | d :: _ => if d.isDigit then .error .malformed else skipNumberEnd r
    else if c.isDigit then skipNumberEnd (r.dropWhile Char.isDigit)
    else .error .malformed

/-- Skips an escape after its backslash. -/
def skipEscape (cs : List Char) : Except Fault (List Char) :=
  match cs with
  | [] => .error .endOfText
  | c :: r =>
    if c == 'u' then (hexUnit r).map Prod.snd
    else if (simpleEscape? c).isSome then .ok r
    else .error .malformed

/-- A skipped escape takes at least one character. -/
theorem skipEscape_shorter {cs rest : List Char} (h : skipEscape cs = .ok rest) :
    rest.length < cs.length := by
  unfold skipEscape at h
  split at h
  · simp at h
  · next c r =>
    split at h
    · cases hu : hexUnit r with
      | error e => simp [hu, Except.map] at h
      | ok unit =>
        simp only [hu, Except.map, Except.ok.injEq] at h
        have := hexUnit_shorter (hu : hexUnit r = .ok (unit.1, unit.2))
        rw [← h]
        simp only [List.length_cons]
        omega
    · split at h
      · simp only [Except.ok.injEq] at h
        simp [h]
      · simp at h

/-- Skips a string after its opening quote. -/
def skipString (cs : List Char) : Except Fault (List Char) :=
  match cs with
  | [] => .error .endOfText
  | c :: r =>
    if c == '"' then .ok r
    else if c == '\\' then
      match _taken : skipEscape r with
      | .error e => .error e
      | .ok rest => skipString rest
    else if c.toNat < 32 then .error .malformed
    else skipString r
termination_by cs.length
decreasing_by
  · have := skipEscape_shorter _taken
    simp only [List.length_cons]
    omega
  · simp

/-- Skips a value inside brackets, of which no more levels are opened than
    the bound has characters. -/
def skipValue : List Char → Reader Unit
  | bound, cs =>
    let done (rest : Except Fault (List Char)) : Scan Unit := rest.map fun r => ((), r)
    match skipSpace cs with
    | [] => .error .endOfText
    | c :: r =>
      if c == 'n' then done (nullRest r)
      else if c == 't' then done (trueRest r)
      else if c == 'f' then done (falseRest r)
      else if c == '-' then done (skipNumber r)
      else if c.isDigit then done (skipNumber (c :: r))
      else if c == '"' then done (skipString r)
      else if c == '[' then
        match bound with
        | [] => .error .malformed
        | _ :: deeper => (arrayRest (skipValue deeper) r).map fun (_, rest) => ((), rest)
      else if c == '\x7b' then
        match bound with
        | [] => .error .malformed
        | _ :: deeper =>
          let key : Reader String := fun cs => (skipString cs).map fun rest => ("", rest)
          objectRest key (fun _ _ => afterColon (skipValue deeper)) () r
      else .error .malformed

/-- Skips a value.  A text has no more levels of brackets than characters. -/
def skip : Reader Unit := fun cs => skipValue cs cs

end Blueprints.Json.Reader
