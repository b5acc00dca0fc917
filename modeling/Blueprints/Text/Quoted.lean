import Blueprints.Text.Hidden

/-! # Quoted text — a text as a listing or a message shows it

    A shown text stands between double quotes.  Quotes, backslashes and the
    common controls are escaped by name, characters that do not show on
    their own by number, and everything else stands as it is. -/

namespace Blueprints.Text

/-- A character of a shown text. -/
def shownChar (c : Char) : List Char :=
  if c == '\x00' then ['\\', '0']
  else if c == '\t' then ['\\', 't']
  else if c == '\r' then ['\\', 'r']
  else if c == '\n' then ['\\', 'n']
  else if c == '\\' then ['\\', '\\']
  else if c == '"' then ['\\', '"']
  else if isHidden c then
    ['\\', 'u', '\x7b'] ++ Nat.toDigits 16 c.toNat ++ ['\x7d']
  else [c]

/-- A text between quotes, with what would not show spelled out. -/
def shown (s : String) : String :=
  String.ofList ('"' :: s.toList.flatMap shownChar ++ ['"'])

/-- Texts between brackets, in order. -/
def shownList (texts : List String) : String :=
  "[" ++ ", ".intercalate (texts.map shown) ++ "]"

end Blueprints.Text
