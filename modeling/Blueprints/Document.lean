import Blueprints.Catalog.Basic
import Blueprints.Graph.Format
import Blueprints.Json.Writer
import Blueprints.Time.Timestamp

/-! # Documents

    A document is a blueprint with the definitions it was built against and
    a few facts about itself.  It is read as a whole or not at all: after
    its text has been read, its ids are checked too. -/

namespace Blueprints

open Json.Reader (RecordField)

/-- Facts about a document. -/
structure Metadata where
  createdAt : Time.Timestamp
  lastModified : Time.Timestamp := .epoch
  author : Option String := none
  description : Option String := none
  deriving DecidableEq

/-- A blueprint as it is stored. -/
structure Document where
  version : String
  name : String
  blueprint : Blueprint
  definitions : List Definition
  metadata : Metadata
  deriving DecidableEq

/-- What is wrong with the ids of a document. -/
inductive DocumentFlaw where
  | unsupportedVersion (version : String)
  | duplicateNode (id : String)
  | duplicateConnection (id : String)
  | duplicateDefinition (id : String)
  | duplicateParam (definition param : String)
  deriving DecidableEq, Repr

/-- Why a text is no document. -/
inductive DocumentError where
  /-- The text is not JSON. -/
  | notJson (fault : Json.Fault)
  /-- A value has the wrong shape. -/
  | mismatch (m : Json.Mismatch)
  | flaw (f : DocumentFlaw)
  deriving DecidableEq, Repr

/-- What is wrong with the ids of a document, in words. -/
def DocumentFlaw.message : DocumentFlaw → String
  | .unsupportedVersion version => s!"unsupported document version '{version}'"
  | .duplicateNode id => s!"duplicate node id '{id}'"
  | .duplicateConnection id => s!"duplicate connection id '{id}'"
  | .duplicateDefinition id => s!"duplicate node definition '{id}'"
  | .duplicateParam definition param =>
    s!"node definition '{definition}' declares param '{param}' twice"

/-- Why a text is no document, in words. -/
def DocumentError.message : DocumentError → String
  | .notJson fault => "Failed to parse blueprint JSON: " ++ fault.message
  | .mismatch m => "Malformed blueprint document: " ++ m.message
  | .flaw f => "Malformed blueprint document: " ++ f.message

/-! ## Format -/

/-- Reads a time stamp. -/
def Time.Timestamp.reader : Json.Reader Time.Timestamp := fun cs =>
  match Json.Reader.textAs .timestamp cs with
  | .error e => .error e
  | .ok (s, rest) =>
    match Time.Timestamp.parse s with
    | .ok t => .ok (t, rest)
    | .error fault => .error (.mismatch (.badTime fault))

namespace Metadata

/-- The metadata of a document made at a time. -/
def made (now : Time.Timestamp) : Metadata :=
  { createdAt := now, lastModified := now }

/-- Metadata as JSON. -/
def toJson (m : Metadata) : Json :=
  .object <|
    [("createdAt", .string m.createdAt.text), ("lastModified", .string m.lastModified.text)]
    ++ Json.optionalField "author" (m.author.map .string)
    ++ Json.optionalField "description" (m.description.map .string)

/-- The fields of metadata. -/
def layout : List (RecordField Metadata) :=
  [ .needed "createdAt" (fun _ => Time.Timestamp.reader) fun v m => { m with createdAt := v },
    .optional "lastModified" (fun _ => Time.Timestamp.reader) fun v m =>
      { m with lastModified := v },
    .optional "author" (fun _ => .option .text) fun v m => { m with author := v },
    .optional "description" (fun _ => .option .text) fun v m => { m with description := v } ]

/-- Reads metadata. -/
def reader : Nat → Json.Reader Metadata :=
  .record "DocumentMetadata" layout { createdAt := .epoch }

end Metadata

namespace Document

/-- The version that is written. -/
def currentVersion : String := "1.0.0"

/-- A document of a blueprint and definitions, made at a time. -/
def new (blueprint : Blueprint) (definitions : List Definition) (now : Time.Timestamp) :
    Document :=
  { version := currentVersion, name := blueprint.name, blueprint, definitions
    metadata := .made now }

/-- A document of a blueprint and a whole catalog, made at a time. -/
def withCatalog (blueprint : Blueprint) (catalog : Catalog) (now : Time.Timestamp) : Document :=
  new blueprint catalog.definitions now

/-- The definitions of a document as a catalog. -/
def catalog (d : Document) : Catalog := .ofList d.definitions

/-- A document as JSON. -/
def toJson (d : Document) : Json :=
  .object
    [("version", .string d.version), ("name", .string d.name),
      ("blueprint", d.blueprint.toJson),
      ("nodeDefinitions", .array (d.definitions.map Definition.toJson)),
      ("metadata", d.metadata.toJson)]

/-- The text of a document. -/
def serialize (d : Document) : String := d.toJson.pretty

/-- The fields of a document. -/
def layout : List (RecordField Document) :=
  [ .needed "version" (fun _ => .text) fun v d => { d with version := v },
    .needed "name" (fun _ => .text) fun v d => { d with name := v },
    .needed "blueprint" Blueprint.reader fun v d => { d with blueprint := v },
    .needed "nodeDefinitions" (.list Definition.reader) fun v d => { d with definitions := v },
    .needed "metadata" Metadata.reader fun v d => { d with metadata := v } ]

/-- Reads a document, without a look at its ids. -/
def reader : Nat → Json.Reader Document :=
  .record "BlueprintDocument" layout
    { version := "", name := "", blueprint := {}, definitions := []
      metadata := { createdAt := .epoch } }

/-! ## Checks -/

/-- The part of a version in front of its first point. -/
def majorVersion (version : String) : String :=
  String.ofList (version.toList.takeWhile (· != '.'))

/-- The first id of a list that stands in `seen` or earlier in the list. -/
def firstRepeated? (seen : List String) : List String → Option String
  | [] => none
  | id :: rest => if seen.contains id then some id else firstRepeated? (id :: seen) rest

/-- The first definition whose id stands in `seen` or earlier in the list,
    or that declares a param twice. -/
def definitionFlaw? (seen : List String) : List Definition → Option DocumentFlaw
  | [] => none
  | d :: rest =>
    if seen.contains d.id then some (.duplicateDefinition d.id)
    else
      match d.repeatedParams with
      | p :: _ => some (.duplicateParam d.id p)
      | [] => definitionFlaw? (d.id :: seen) rest

/-- The first thing that is wrong with the version or the ids. -/
def flaw? (d : Document) : Option DocumentFlaw :=
  if majorVersion d.version != "1" then some (.unsupportedVersion d.version)
  else
    match d.blueprint.repeatedNodes with
    | id :: _ => some (.duplicateNode id)
    | [] =>
      match firstRepeated? [] (d.blueprint.connections.map Connection.id) with
      | some id => some (.duplicateConnection id)
      | none => definitionFlaw? [] d.definitions

/-- Whether version and ids are in order. -/
def validate (d : Document) : Except DocumentError Unit :=
  match d.flaw? with
  | some f => .error (.flaw f)
  | none => .ok ()

/-- Reads and checks a document. -/
def deserialize (s : String) : Except DocumentError Document :=
  match Json.Reader.run reader s with
  | .error (.mismatch m) => .error (.mismatch m)
  | .error fault => .error (.notJson fault)
  | .ok d =>
    match d.flaw? with
    | some f => .error (.flaw f)
    | none => .ok d

end Document

end Blueprints
