import Blueprints.Decimal.Double
import Blueprints.Json.Writer
import Blueprints.Text.Quoted
import Blueprints.Time.Timestamp

/-! # Faults — why a JSON text was not accepted

    A text can end too early, break the grammar, or hold a value of another
    shape than the one asked for.  Only the last of these is told in detail:
    what was expected, and what stood there instead. -/

namespace Blueprints.Json

/-- What stood in the text, as far as a message tells. -/
inductive Found where
  | null
  | boolean (b : Bool)
  | integer (n : Int)
  | float (d : Double)
  | text (s : String)
  | sequence
  | map
  deriving DecidableEq, Repr

/-- What was to be read. -/
inductive Expected where
  | text
  | boolean
  | size
  | double
  | sequence
  | map
  | unit
  | timestamp
  | record (name : String)
  deriving DecidableEq, Repr

/-- A value of the wrong shape. -/
inductive Mismatch where
  | wrongType (found : Found) (expected : Expected)
  | wrongValue (found : Found) (expected : Expected)
  /-- A record in array form ends before field number `index`. -/
  | tooShort (index : Nat) (record : String) (fields : Nat)
  | unknownVariant (name : String) (known : List String)
  | missingField (name : String)
  | duplicateField (name : String)
  | badTime (fault : Time.Fault)
  deriving DecidableEq, Repr

/-- Why reading stopped. -/
inductive Fault where
  | endOfText
  | malformed
  | mismatch (m : Mismatch)
  deriving DecidableEq, Repr

/-- What stood in the text, in words. -/
def Found.message : Found → String
  | .null => "null"
  | .boolean b => s!"boolean `{b}`"
  | .integer n => "integer `" ++ String.ofList (intChars n) ++ "`"
  | .float d => "floating point `" ++ String.ofList (floatChars d) ++ "`"
  | .text s => "string " ++ Text.shown s
  | .sequence => "sequence"
  | .map => "map"

/-- What was to be read, in words. -/
def Expected.message : Expected → String
  | .text => "a string"
  | .boolean => "a boolean"
  | .size => "usize"
  | .double => "f64"
  | .sequence => "a sequence"
  | .map => "a map"
  | .unit => "unit"
  | .timestamp => "an RFC 3339 formatted date and time string"
  | .record name => "struct " ++ name

/-- A choice among names, in words. -/
def oneOf (names : List String) : String :=
  let ticked := names.map fun name => "`" ++ name ++ "`"
  match ticked with
  | [a] => a
  | [a, b] => a ++ " or " ++ b
  | _ => "one of " ++ ", ".intercalate ticked

/-- What is wrong with a value, in words. -/
def Mismatch.message : Mismatch → String
  | .wrongType found expected =>
    "invalid type: " ++ found.message ++ ", expected " ++ expected.message
  | .wrongValue found expected =>
    "invalid value: " ++ found.message ++ ", expected " ++ expected.message
  | .tooShort index record fields =>
    s!"invalid length {index}, expected struct {record} with {fields} elements"
  | .unknownVariant name known =>
    "unknown variant `" ++ name ++ "`, expected " ++ oneOf known
  | .missingField name => "missing field `" ++ name ++ "`"
  | .duplicateField name => "duplicate field `" ++ name ++ "`"
  | .badTime fault => fault.message

/-- Why reading stopped, in words. -/
def Fault.message : Fault → String
  | .endOfText => "unexpected end of text"
  | .malformed => "malformed text"
  | .mismatch m => m.message

end Blueprints.Json
