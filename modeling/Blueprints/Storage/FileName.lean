import Blueprints.Text.Blank

/-! # File names

    Which names a file of a project may have, and the parts of a name. -/

namespace Blueprints.FileName

/-- Characters that must not stand in a file name. -/
def forbidden : List Char := ['<', '>', ':', '"', '/', '\\', '|', '?', '*']

/-- Whether a file may have a name: it must not be blank, nor dots alone. -/
def isValid (name : String) : Bool :=
  let trimmed := Text.trimChars name.toList
  !trimmed.isEmpty && !trimmed.all (· == '.') && !name.toList.any forbidden.contains

/-- The part of a name in front of its last dot, and the part behind it.  A
    dot at the start alone divides nothing. -/
def split (name : String) : String × Option String :=
  let reversed := name.toList.reverse
  match reversed.dropWhile (· != '.') with
  | [] | [_] => (name, none)
  | _ :: before =>
    (String.ofList before.reverse,
      some (String.ofList (reversed.takeWhile (· != '.')).reverse))

/-- The part of a name in front of its extension. -/
def stem (name : String) : String := (split name).1

/-- The extension of a name. -/
def extension? (name : String) : Option String := (split name).2

end Blueprints.FileName
