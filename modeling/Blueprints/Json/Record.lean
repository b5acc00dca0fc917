import Blueprints.Json.Skipped

/-! # Records and variants

    A record is an object whose fields have names that are known in
    advance.  Fields may come in any order, each at most once, and fields
    with other names are skipped.  The same record may also be given as an
    array of its fields in their order.  A variant is one of a few names. -/

namespace Blueprints.Json.Reader

/-- A field of a record of type `α`. -/
structure RecordField (α : Type) where
  /-- The name that is written and that messages use. -/
  name : String
  /-- Further names under which the field is accepted. -/
  synonyms : List String := []
  required : Bool := false
  /-- Reads the field, inside the given levels of brackets, and gives what
      it does to the record. -/
  read : Nat → Reader (α → α)

/-- A field whose value is put into the record by `set`. -/
def RecordField.of {α β : Type} (name : String) (required : Bool)
    (value : Nat → Reader β) (set : β → α → α) : RecordField α :=
  { name, required
    read := fun levels cs => (value levels cs).map fun (b, rest) => (set b, rest) }

/-- A field that has to be given. -/
def RecordField.needed {α β : Type} (name : String) (value : Nat → Reader β)
    (set : β → α → α) : RecordField α :=
  RecordField.of name true value set

/-- A field that may be left out. -/
def RecordField.optional {α β : Type} (name : String) (value : Nat → Reader β)
    (set : β → α → α) : RecordField α :=
  RecordField.of name false value set

/-- The field with a name. -/
def findField? {α : Type} (layout : List (RecordField α)) (name : String) :
    Option (RecordField α) :=
  layout.find? fun f => f.name == name || f.synonyms.contains name

/-- A record that is being read, with the names of the fields given so far. -/
structure Draft (α : Type) where
  record : α
  given : List String

/-- Takes one field of an object into a draft. -/
def draftField {α : Type} (layout : List (RecordField α)) (levels : Nat)
    (draft : Draft α) (name : String) : Reader (Draft α) := fun cs =>
  match findField? layout name with
  | none => (afterColon skip cs).map fun (_, rest) => (draft, rest)
  | some f =>
    if draft.given.contains f.name then
      .error (.mismatch (.duplicateField f.name))
    else
      (afterColon (f.read levels) cs).map fun (set, rest) =>
        ({ record := set draft.record, given := f.name :: draft.given }, rest)

/-- The first required field that a draft lacks. -/
def missingField? {α : Type} (layout : List (RecordField α)) (given : List String) :
    Option String :=
  (layout.find? fun f => f.required && !given.contains f.name).map RecordField.name

/-- A record after its opening brace. -/
def recordObject {α : Type} (layout : List (RecordField α)) (levels : Nat) (start : α) :
    Reader α := fun cs =>
  match fields stringRest (draftField layout levels) cs true ⟨start, []⟩ cs with
  | .error e => .error e
  | .ok (draft, rest) =>
    match missingField? layout draft.given with
    | some name => .error (.mismatch (.missingField name))
    | none => (closeObject rest).map fun rest => (draft.record, rest)

/-- The fields of a record in array form, from field number `index` on.  Once
    the array has ended, fields that may be left out are. -/
def recordItems {α : Type} (name : String) (total : Nat) (levels : Nat) :
    List (RecordField α) → Nat → α → Reader α
  | [], _, record, cs => .ok (record, cs)
  | f :: rest, index, record, cs =>
    match nextItem (index == 0) cs with
    | .error e => .error e
    | .ok none =>
      if f.required then .error (.mismatch (.tooShort index name total))
      else recordItems name total levels rest (index + 1) record cs
    | .ok (some start) =>
      match f.read levels start with
      | .error e => .error e
      | .ok (set, cs) => recordItems name total levels rest (index + 1) (set record) cs

/-- A record after its opening bracket. -/
def recordArray {α : Type} (name : String) (layout : List (RecordField α)) (levels : Nat)
    (start : α) : Reader α := fun cs =>
  match recordItems name layout.length levels layout 0 start cs with
  | .error e => .error e
  | .ok (record, rest) => (closeArray rest).map fun rest => (record, rest)

/-- A record.  Fields that are left out stay as they are in `start`. -/
def record {α : Type} (name : String) (layout : List (RecordField α)) (start : α)
    (levels : Nat) : Reader α := fun cs =>
  match skipSpace cs with
  | [] => .error .endOfText
  | c :: r =>
    if c == '[' then nested levels fun k => recordArray name layout k start r
    else if c == '\x7b' then nested levels fun k => recordObject layout k start r
    else .error (mismatch (.record name) (c :: r))

/-- The value of a variant's name. -/
def variantNamed {α : Type} (known : List (String × α)) (name : String) : Except Fault α :=
  match known.lookup name with
  | some a => .ok a
  | none => .error (.mismatch (.unknownVariant name (known.map Prod.fst)))

/-- The key of an object that gives a variant. -/
def variantKey : Reader String := fun cs =>
  match skipSpace cs with
  | [] => .error .endOfText
  | c :: r => if c == '"' then stringRest r else .error .malformed

/-- One of a few names, given as a string or as the only key of an object
    whose value is null. -/
def variant {α : Type} (known : List (String × α)) (levels : Nat) : Reader α := fun cs =>
  match skipSpace cs with
  | [] => .error .endOfText
  | c :: r =>
    if c == '"' then
      match stringRest r with
      | .error e => .error e
      | .ok (name, rest) => (variantNamed known name).map fun a => (a, rest)
    else if c == '\x7b' then nested levels fun _ =>
      match variantKey r with
      | .error e => .error e
      | .ok (name, rest) =>
        match variantNamed known name with
        | .error e => .error e
        | .ok a =>
          match afterColon unit rest with
          | .error e => .error e
          | .ok (_, rest) => (closeObject rest).map fun rest => (a, rest)
    else .error .malformed

end Blueprints.Json.Reader
