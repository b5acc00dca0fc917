import Blueprints.Json.Value

/-! # Diagnostics

    Compilation does not fail.  What it had to work around is reported, in
    the order in which it was met and each report once. -/

namespace Blueprints

/-- What sort of thing was worked around. -/
inductive DiagnosticKind where
  /-- Something refers to what does not exist. -/
  | reference
  /-- A node has a definition but no rule to emit it. -/
  | unsupportedKind
  /-- A graph can be read in several ways; the first was taken. -/
  | shapeAmbiguity
  deriving DecidableEq, Repr

/-- A sort of diagnostic in words. -/
def DiagnosticKind.label : DiagnosticKind → String
  | .reference => "reference"
  | .unsupportedKind => "unsupported kind"
  | .shapeAmbiguity => "shape ambiguity"

/-- A sort of diagnostic as it is written in JSON. -/
def DiagnosticKind.name : DiagnosticKind → String
  | .reference => "reference"
  | .unsupportedKind => "unsupported_kind"
  | .shapeAmbiguity => "shape_ambiguity"

/-- A report about a node, or about the graph as a whole. -/
structure Diagnostic where
  kind : DiagnosticKind
  node : Option String
  message : String
  deriving DecidableEq, Repr

namespace Diagnostic

/-- A diagnostic in words. -/
def text (d : Diagnostic) : String :=
  match d.node with
  | some id => s!"{d.kind.label} [{id}]: {d.message}"
  | none => s!"{d.kind.label}: {d.message}"

/-- A diagnostic as JSON. -/
def toJson (d : Diagnostic) : Json :=
  .object <|
    [("kind", .string d.kind.name)]
    ++ (match d.node with
        | some id => [("node_id", .string id)]
        | none => [])
    ++ [("message", .string d.message)]

end Diagnostic

/-- Reports in order, each once. -/
abbrev Diagnostics := List Diagnostic

/-- Adds a report unless it has been made before. -/
def Diagnostics.report (ds : Diagnostics) (d : Diagnostic) : Diagnostics :=
  if ds.contains d then ds else ds ++ [d]

end Blueprints
