import Blueprints.Json.Scanner

/-! # Reading JSON text

    A text is read once, from left to right, straight into the value that
    is asked for, and the first fault that is met is the one reported.  A
    reader takes the characters that are left and gives back a value and the
    characters after it.  Readers of nested values are told how many levels
    of brackets they may still open; the levels of values that are only
    skipped are not counted. -/

namespace Blueprints.Json

/-- Reads a value from the characters that are left. -/
abbrev Reader (α : Type) := List Char → Scan α

/-- How deep brackets may be nested. -/
def depthLimit : Nat := 127

namespace Reader

/-! ## Separators -/

/-- Looks for another item of an array: the characters where it starts, or
    none in front of the closing bracket. -/
def nextItem (first : Bool) (cs : List Char) : Except Fault (Option (List Char)) :=
  match skipSpace cs with
  | [] => .error .endOfText
  | c :: r =>
    if c == ']' then .ok none
    else if first then .ok (some (c :: r))
    else if c == ',' then
      match skipSpace r with
      | [] => .error .endOfText
      | d :: r' => if d == ']' then .error .malformed else .ok (some (d :: r'))
    else .error .malformed

/-- The characters after the closing bracket of an array. -/
def closeArray (cs : List Char) : Except Fault (List Char) :=
  match skipSpace cs with
  | [] => .error .endOfText
  | c :: r => if c == ']' then .ok r else .error .malformed

/-- Looks for another key of an object: the characters after its opening
    quote, or none in front of the closing brace. -/
def nextKey (first : Bool) (cs : List Char) : Except Fault (Option (List Char)) :=
  match skipSpace cs with
  | [] => .error .endOfText
  | c :: r =>
    if c == '\x7d' then .ok none
    else if first then
      if c == '"' then .ok (some r) else .error .malformed
    else if c == ',' then
      match skipSpace r with
      | [] => .error .endOfText
      | d :: r' => if d == '"' then .ok (some r') else .error .malformed
    else .error .malformed

/-- The characters after the closing brace of an object. -/
def closeObject (cs : List Char) : Except Fault (List Char) :=
  match skipSpace cs with
  | [] => .error .endOfText
  | c :: r => if c == '\x7d' then .ok r else .error .malformed

/-- The characters after the colon of a field. -/
def colon (cs : List Char) : Except Fault (List Char) :=
  match skipSpace cs with
  | [] => .error .endOfText
  | c :: r => if c == ':' then .ok r else .error .malformed

/-! ## Items and fields

Both loops are bounded by a list, for which the text itself will do: every
item and every field takes a character at least, so the text ends no later
than the bound does. -/

/-- The items of an array up to its closing bracket. -/
def items {α : Type} (item : Reader α) : List Char → Bool → Reader (List α)
  | [], _, _ => .error .endOfText
  | _ :: bound, first, cs =>
    match nextItem first cs with
    | .error e => .error e
    | .ok none => .ok ([], cs)
    | .ok (some start) =>
      match item start with
      | .error e => .error e
      | .ok (a, rest) =>
        match items item bound false rest with
        | .error e => .error e
        | .ok (as, rest) => .ok (a :: as, rest)

/-- Folds the fields of an object into `state` up to its closing brace. -/
def fields {σ : Type} (key : Reader String) (field : σ → String → Reader σ) :
    List Char → Bool → σ → Reader σ
  | [], _, _, _ => .error .endOfText
  | _ :: bound, first, state, cs =>
    match nextKey first cs with
    | .error e => .error e
    | .ok none => .ok (state, cs)
    | .ok (some start) =>
      match key start with
      | .error e => .error e
      | .ok (name, rest) =>
        match field state name rest with
        | .error e => .error e
        | .ok (state, rest) => fields key field bound false state rest

/-- An array after its opening bracket. -/
def arrayRest {α : Type} (item : Reader α) (cs : List Char) : Scan (List α) :=
  match items item cs true cs with
  | .error e => .error e
  | .ok (as, rest) =>
    match closeArray rest with
    | .error e => .error e
    | .ok rest => .ok (as, rest)

/-- An object after its opening brace, folded into `state`. -/
def objectRest {σ : Type} (key : Reader String) (field : σ → String → Reader σ)
    (state : σ) (cs : List Char) : Scan σ :=
  match fields key field cs true state cs with
  | .error e => .error e
  | .ok (state, rest) =>
    match closeObject rest with
    | .error e => .error e
    | .ok rest => .ok (state, rest)

/-- The value of a field, after its colon. -/
def afterColon {α : Type} (value : Reader α) (cs : List Char) : Scan α :=
  match colon cs with
  | .error e => .error e
  | .ok rest => value rest

/-! ## Values of one kind -/

/-- The fault of a value that is not of the expected kind.  A word, a number
    or a string is read in full first, so that its own fault comes before. -/
def mismatch (expected : Expected) (cs : List Char) : Fault :=
  let wrong (found : Found) : Fault := .mismatch (.wrongType found expected)
  let ofNumber : Scan Number → Fault
    | .error e => e
    | .ok (.int n, _) => wrong (.integer n)
    | .ok (.float d, _) => wrong (.float d)
  match cs with
  | [] => .malformed
  | c :: r =>
    if c == 'n' then
      match nullRest r with
      | .error e => e
      | .ok _ => wrong .null
    else if c == 't' then
      match trueRest r with
      | .error e => e
      | .ok _ => wrong (.boolean true)
    else if c == 'f' then
      match falseRest r with
      | .error e => e
      | .ok _ => wrong (.boolean false)
    else if c == '-' then ofNumber (number true r)
    else if c.isDigit then ofNumber (number false (c :: r))
    else if c == '"' then
      match stringRest r with
      | .error e => e
      | .ok (s, _) => wrong (.text s)
    else if c == '[' then wrong .sequence
    else if c == '\x7b' then wrong .map
    else .malformed

/-- A string; `expected` is what a message calls it. -/
def textAs (expected : Expected) : Reader String := fun cs =>
  match skipSpace cs with
  | [] => .error .endOfText
  | c :: r =>
    if c == '"' then stringRest r else .error (mismatch expected (c :: r))

/-- A string. -/
def text : Reader String := textAs .text

/-- A truth value. -/
def boolean : Reader Bool := fun cs =>
  match skipSpace cs with
  | [] => .error .endOfText
  | c :: r =>
    if c == 't' then (trueRest r).map fun rest => (true, rest)
    else if c == 'f' then (falseRest r).map fun rest => (false, rest)
    else .error (mismatch .boolean (c :: r))

/-- A number; `expected` is what a message calls it. -/
def numberAs (expected : Expected) : Reader Number := fun cs =>
  match skipSpace cs with
  | [] => .error .endOfText
  | c :: r =>
    if c == '-' then number true r
    else if c.isDigit then number false (c :: r)
    else .error (mismatch expected (c :: r))

/-- A natural number. -/
def size : Reader Nat := fun cs =>
  match numberAs .size cs with
  | .error e => .error e
  | .ok (.int n, rest) =>
    if n < 0 then .error (.mismatch (.wrongValue (.integer n) .size))
    else .ok (n.toNat, rest)
  | .ok (.float d, _) => .error (.mismatch (.wrongType (.float d) .size))

/-- A floating point number; integers are taken too. -/
def double : Reader Double := fun cs =>
  match numberAs .double cs with
  | .error e => .error e
  | .ok (.int n, rest) => .ok (Double.ofInt n, rest)
  | .ok (.float d, rest) => .ok (d, rest)

/-- The null value. -/
def unit : Reader Unit := fun cs =>
  match skipSpace cs with
  | [] => .error .endOfText
  | c :: r =>
    if c == 'n' then (nullRest r).map fun rest => ((), rest)
    else .error (mismatch .unit (c :: r))

/-- A value that may be null. -/
def option {α : Type} (value : Reader α) : Reader (Option α) := fun cs =>
  match skipSpace cs with
  | 'n' :: r => (nullRest r).map fun rest => (none, rest)
  | cs => (value cs).map fun (a, rest) => (some a, rest)

/-- Opens one more level of brackets, if one is left. -/
def nested {α : Type} (levels : Nat) (body : Nat → Scan α) : Scan α :=
  match levels with
  | 0 => .error .malformed
  | k + 1 => body k

/-- An array. -/
def list {α : Type} (item : Nat → Reader α) (levels : Nat) : Reader (List α) := fun cs =>
  match skipSpace cs with
  | [] => .error .endOfText
  | c :: r =>
    if c == '[' then nested levels fun k => arrayRest (item k) r
    else .error (mismatch .sequence (c :: r))

/-! ## Any value -/

/-- A value of any kind.  Of two fields with one name the later one counts. -/
def value : Nat → Reader Json
  | levels, cs =>
    match skipSpace cs with
    | [] => .error .endOfText
    | c :: r =>
      if c == 'n' then (nullRest r).map fun rest => (.null, rest)
      else if c == 't' then (trueRest r).map fun rest => (.bool true, rest)
      else if c == 'f' then (falseRest r).map fun rest => (.bool false, rest)
      else if c == '-' || c.isDigit then
        match (if c == '-' then number true r else number false (c :: r)) with
        | .error e => .error e
        | .ok (.int n, rest) => .ok (.int n, rest)
        | .ok (.float d, rest) => .ok (.float d, rest)
      else if c == '"' then (stringRest r).map fun (s, rest) => (.string s, rest)
      else if c == '[' then
        match levels with
        | 0 => .error .malformed
        | k + 1 => (arrayRest (value k) r).map fun (vs, rest) => (.array vs, rest)
      else if c == '\x7b' then
        match levels with
        | 0 => .error .malformed
        | k + 1 =>
          let field (fields : Fields) (name : String) : Reader Fields := fun cs =>
            (afterColon (value k) cs).map fun (v, rest) => (fields.insert name v, rest)
          (objectRest stringRest field [] r).map fun (fs, rest) => (.object fs, rest)
      else .error .malformed

/-- A table of named values. -/
def table (levels : Nat) : Reader Fields := fun cs =>
  match skipSpace cs with
  | [] => .error .endOfText
  | c :: r =>
    if c == '\x7b' then nested levels fun k =>
      let field (fields : Fields) (name : String) : Reader Fields := fun cs =>
        (afterColon (value k) cs).map fun (v, rest) => (fields.insert name v, rest)
      objectRest stringRest field [] r
    else .error (mismatch .map (c :: r))

/-! ## Whole texts -/

/-- Reads a whole text: a value with nothing but white space around it. -/
def run {α : Type} (reader : Nat → Reader α) (s : String) : Except Fault α :=
  match reader depthLimit s.toList with
  | .error e => .error e
  | .ok (a, rest) => if (skipSpace rest).isEmpty then .ok a else .error .malformed

end Reader

/-- The JSON value of a text. -/
def parse (s : String) : Except Fault Json := Reader.run Reader.value s

end Blueprints.Json
