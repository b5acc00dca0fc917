/-! # Identifiers — names that generated code can bind

    Free text reaches the generated code in two shapes.  A *slug* keeps the
    ASCII letters and digits in lower case and may be empty.  An
    *identifier* keeps the case, turns every other character into an
    underscore, is never empty and never starts with a digit. -/

namespace Blueprints.Text

/-- The ASCII letters and digits of a text, in lower case. -/
def slug (name : String) : String :=
  String.ofList ((name.toList.filter Char.isAlphanum).map Char.toLower)

/-- Whether a character may stand in an identifier. -/
def isIdentifierChar (c : Char) : Bool :=
  c.isAlphanum || c == '_' || c == '$'

/-- A character as it stands in an identifier. -/
def identifierChar (c : Char) : Char :=
  if isIdentifierChar c then c else '_'

/-- Characters with `mark` in front if they start with a digit. -/
def guardDigit (mark : Char) : List Char → List Char
  | [] => []
  | c :: cs => if c.isDigit then mark :: c :: cs else c :: cs

/-- A text as an identifier. -/
def identifierChars (cs : List Char) : List Char :=
  match cs.map identifierChar with
  | [] => ['_']
  | ds => guardDigit '_' ds

/-- A text as an identifier. -/
def identifier (name : String) : String :=
  String.ofList (identifierChars name.toList)

end Blueprints.Text
