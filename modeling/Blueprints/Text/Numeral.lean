/-! # Numerals — digits at the end of an id, numbers as labels

    Ids such as `node_12` carry a number in their trailing digits.  A switch
    output whose name reads as a number labels a numeric case, and the
    grammar of such names is stated here. -/

namespace Blueprints.Text

/-- The value of a run of decimal digits. -/
def digitsValue (digits : List Char) : Nat :=
  digits.foldl (fun n c => 10 * n + (c.toNat - 48)) 0

/-- The digits at the end of a list of characters. -/
def trailingDigits (cs : List Char) : List Char :=
  (cs.reverse.takeWhile Char.isDigit).reverse

/-- The number text at the end of an id, if the id ends in a digit. -/
def numericSuffix? (id : String) : Option String :=
  match trailingDigits id.toList with
  | [] => none
  | d :: ds => some (String.ofList (d :: ds))

/-- One more than the largest number, below `2 ^ 64`, that an id ends in;
    one if there is none. -/
def nextSequence (ids : List String) : Nat :=
  let numbers := ids.filterMap fun id =>
    match trailingDigits id.toList with
    | [] => none
    | digits => if digitsValue digits < Nat.pow 2 64 then some (digitsValue digits) else none
  match numbers with
  | [] => 1
  | n :: ns => ns.foldl max n + 1

/-- Characters after an optional sign. -/
def dropSign : List Char → List Char
  | '+' :: cs => cs
  | '-' :: cs => cs
  | cs => cs

/-- An exponent: a sign at will, then digits only and at least one. -/
def isExponent (cs : List Char) : Bool :=
  let digits := dropSign cs
  !digits.isEmpty && digits.all Char.isDigit

/-- Digits with at most one point among them, at least one digit, and an
    exponent at will. -/
def isUnsignedDecimal (cs : List Char) : Bool :=
  let whole := cs.takeWhile Char.isDigit
  let afterWhole := cs.dropWhile Char.isDigit
  let (fraction, rest) :=
    match afterWhole with
    | '.' :: r => (r.takeWhile Char.isDigit, r.dropWhile Char.isDigit)
    | r => ([], r)
  let mantissa := !(whole.isEmpty && fraction.isEmpty)
  match rest with
  | [] => mantissa
  | e :: r => mantissa && (e == 'e' || e == 'E') && isExponent r

/-- The words for infinity and for no number, in any case of letters. -/
def isNumberWord (cs : List Char) : Bool :=
  let word := String.ofList (cs.map Char.toLower)
  word == "inf" || word == "infinity" || word == "nan"

/-- Whether a text reads as a floating point number: a sign at will, then a
    decimal or one of the words for infinity and for no number. -/
def isNumber (s : String) : Bool :=
  let cs := dropSign s.toList
  isUnsignedDecimal cs || isNumberWord cs

end Blueprints.Text
