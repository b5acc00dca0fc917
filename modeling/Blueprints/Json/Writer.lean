import Blueprints.Decimal.Shortest
import Blueprints.Json.Value

/-! # JSON text, written

    Two layouts are written: `compact` puts nothing between tokens, `pretty`
    puts every item and field on a line of its own, two spaces deeper than
    what encloses it.  A floating point number is written with the fewest
    digits that determine it and always shows that it is one: it has a
    fraction or an exponent. -/

namespace Blueprints

namespace Json

/-! ## Numbers -/

/-- Where the positional form of a floating point number ends, by the order
    of its first digit. -/
structure PositionalRange where
  least : Int
  greatest : Int

/-- Numbers from `1e-5` up to, not including, `1e16` are written
    positionally. -/
def positional : PositionalRange := ⟨-5, 15⟩

/-- Digits with the point after the first `point` of them. -/
def positionalChars (digits : List Char) (point : Int) : List Char :=
  if point ≤ 0 then
    ['0', '.'] ++ List.replicate (-point).toNat '0' ++ digits
  else if digits.length ≤ point.toNat then
    digits ++ List.replicate (point.toNat - digits.length) '0' ++ ['.', '0']
  else
    digits.take point.toNat ++ '.' :: digits.drop point.toNat

/-- Digits with the point after the first of them, and a signed exponent. -/
def exponentChars (digits : List Char) (order : Int) : List Char :=
  let mantissa :=
    match digits with
    | [] => []
    | [d] => [d]
    | d :: ds => d :: '.' :: ds
  mantissa ++ 'e' :: (if order < 0 then '-' else '+') :: Nat.toDigits 10 order.natAbs

/-- A magnitude in decimal. -/
def magnitudeChars (d : Double) : List Char :=
  if d.isZero then ['0', '.', '0']
  else
    let x := d.shortest
    let digits := Nat.toDigits 10 x.digits
    let order : Int := digits.length + x.exponent - 1
    if positional.least ≤ order ∧ order ≤ positional.greatest then
      positionalChars digits (order + 1)
    else exponentChars digits order

/-- A floating point number in decimal. -/
def floatChars (d : Double) : List Char :=
  if d.negative then '-' :: magnitudeChars d else magnitudeChars d

/-- An integer in decimal. -/
def intChars (n : Int) : List Char :=
  if n < 0 then '-' :: Nat.toDigits 10 n.natAbs else Nat.toDigits 10 n.natAbs

/-! ## Strings -/

/-- A hexadecimal digit, in lower case. -/
def hexDigit (n : Nat) : Char :=
  Char.ofNat (if n < 10 then 48 + n else 87 + n)

/-- A character inside a string.  Quotes, backslashes and controls are
    escaped; everything else stands as it is. -/
def escapeChar (c : Char) : List Char :=
  if c = '"' then ['\\', '"']
  else if c = '\\' then ['\\', '\\']
  else if c = '\x08' then ['\\', 'b']
  else if c = '\x0c' then ['\\', 'f']
  else if c = '\n' then ['\\', 'n']
  else if c = '\r' then ['\\', 'r']
  else if c = '\t' then ['\\', 't']
  else if c.toNat < 32 then
    ['\\', 'u', '0', '0', hexDigit (c.toNat / 16), hexDigit (c.toNat % 16)]
  else [c]

/-- A string between its quotes. -/
def stringChars (s : String) : List Char :=
  '"' :: s.toList.flatMap escapeChar ++ ['"']

/-! ## Values -/

/-- A value that holds no other value. -/
def scalarChars : Json → List Char
  | .null => ['n', 'u', 'l', 'l']
  | .bool true => ['t', 'r', 'u', 'e']
  | .bool false => ['f', 'a', 'l', 's', 'e']
  | .int n => intChars n
  | .float d => floatChars d
  | .string s => stringChars s
  | .array _ => ['[', ']']
  | .object _ => ['\x7b', '\x7d']

mutual

/-- A value with nothing between its tokens. -/
def compactChars : Json → List Char
  | .array items => '[' :: compactItems items ++ [']']
  | .object fields => '\x7b' :: compactFields fields ++ ['\x7d']
  | v => scalarChars v

/-- Items with commas between them. -/
def compactItems : List Json → List Char
  | [] => []
  | [v] => compactChars v
  | v :: w :: rest => compactChars v ++ ',' :: compactItems (w :: rest)

/-- Fields with commas between them. -/
def compactFields : List (String × Json) → List Char
  | [] => []
  | [(k, v)] => stringChars k ++ ':' :: compactChars v
  | (k, v) :: f :: rest =>
    stringChars k ++ ':' :: compactChars v ++ ',' :: compactFields (f :: rest)

end

/-- The line break in front of an item at a depth. -/
def lineStart (depth : Nat) : List Char :=
  '\n' :: List.replicate (2 * depth) ' '

mutual

/-- A value at a depth, each item and field on its own line. -/
def prettyChars (depth : Nat) : Json → List Char
  | .array (v :: rest) =>
    '[' :: prettyItems (depth + 1) (v :: rest) ++ lineStart depth ++ [']']
  | .object (f :: rest) =>
    '\x7b' :: prettyFields (depth + 1) (f :: rest) ++ lineStart depth ++ ['\x7d']
  | v => scalarChars v

/-- Items, each on its own line. -/
def prettyItems (depth : Nat) : List Json → List Char
  | [] => []
  | [v] => lineStart depth ++ prettyChars depth v
  | v :: w :: rest =>
    lineStart depth ++ prettyChars depth v ++ ',' :: prettyItems depth (w :: rest)

/-- Fields, each on its own line. -/
def prettyFields (depth : Nat) : List (String × Json) → List Char
  | [] => []
  | [(k, v)] => lineStart depth ++ stringChars k ++ ':' :: ' ' :: prettyChars depth v
  | (k, v) :: f :: rest =>
    lineStart depth ++ stringChars k ++ ':' :: ' ' :: prettyChars depth v
      ++ ',' :: prettyFields depth (f :: rest)

end

/-- The text of a value with nothing between its tokens. -/
def compact (v : Json) : String := String.ofList (compactChars v)

/-- The text of a value with each item and field on its own line. -/
def pretty (v : Json) : String := String.ofList (prettyChars 0 v)

/-- The text of a string value. -/
def quote (s : String) : String := String.ofList (stringChars s)

end Json

end Blueprints
