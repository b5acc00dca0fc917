/-! # Blank text — the Unicode White_Space property

    Names are judged empty after their blank ends are removed, and a type
    annotation is written without them.  Blank means the 25 characters of
    the Unicode property White_Space, which is wider than the four that
    separate JSON tokens. -/

namespace Blueprints.Text

/-- Whether a character has the White_Space property. -/
def isBlank (c : Char) : Bool :=
  let n := c.toNat
  (9 ≤ n && n ≤ 13) || n == 0x20 || n == 0x85 || n == 0xA0 || n == 0x1680
    || (0x2000 ≤ n && n ≤ 0x200A) || n == 0x2028 || n == 0x2029
    || n == 0x202F || n == 0x205F || n == 0x3000

/-- Characters from the first one that is not blank. -/
def trimStart (cs : List Char) : List Char :=
  cs.dropWhile isBlank

/-- Characters between the blank ends. -/
def trimChars (cs : List Char) : List Char :=
  (trimStart (trimStart cs).reverse).reverse

/-- A text without its blank ends. -/
def trim (s : String) : String :=
  String.ofList (trimChars s.toList)

/-- Whether nothing is left of a text once its blank ends are removed. -/
def isBlankText (s : String) : Bool :=
  s.toList.all isBlank

end Blueprints.Text
