import Blueprints.Json.Record

/-! # Compiler options

    The options shape the text of the generated code.  All of them have a
    default, so any part of them may be given. -/

namespace Blueprints

open Json.Reader (RecordField)

/-- How generated code reaches the helper functions. -/
inductive HelperMode where
  /-- They are imported from a module. -/
  | imported
  /-- The used ones are pasted into the unit. -/
  | inlined
  deriving DecidableEq, Repr

/-- The names of the helper modes. -/
def HelperMode.names : List (String × HelperMode) :=
  [("import", .imported), ("inline", .inlined)]

/-- The name of a helper mode. -/
def HelperMode.name : HelperMode → String
  | .imported => "import"
  | .inlined => "inline"

/-- The shape of generated code. -/
structure Options where
  helperMode : HelperMode := .imported
  /-- The module that helpers are imported from. -/
  helperModule : String := "./blueprint-helpers"
  /-- Spaces per level of nesting. -/
  indent : Nat := 4
  /-- What the name of a function or class starts with. -/
  functionPrefix : String := "BP_"
  /-- Whether a comment names each node ahead of its statements. -/
  nodeComments : Bool := true
  /-- Whether the header tells the time of compilation. -/
  headerTimestamp : Bool := false
  deriving DecidableEq, Repr

namespace Options

/-- The text of one level of nesting. -/
def indentUnit (o : Options) : String :=
  String.ofList (List.replicate o.indent ' ')

/-- Options as JSON. -/
def toJson (o : Options) : Json :=
  .object
    [("helper_mode", .string o.helperMode.name), ("helper_module", .string o.helperModule),
      ("indent", .int o.indent), ("function_prefix", .string o.functionPrefix),
      ("emit_node_comments", .bool o.nodeComments),
      ("header_timestamp", .bool o.headerTimestamp)]

/-- The fields of options. -/
def layout : List (RecordField Options) :=
  [ .optional "helper_mode" (Json.Reader.variant HelperMode.names) fun v o =>
      { o with helperMode := v },
    .optional "helper_module" (fun _ => .text) fun v o => { o with helperModule := v },
    .optional "indent" (fun _ => .size) fun v o => { o with indent := v },
    .optional "function_prefix" (fun _ => .text) fun v o => { o with functionPrefix := v },
    .optional "emit_node_comments" (fun _ => .boolean) fun v o => { o with nodeComments := v },
    .optional "header_timestamp" (fun _ => .boolean) fun v o => { o with headerTimestamp := v } ]

/-- Reads options; what is left out has its default. -/
def parse (s : String) : Except Json.Fault Options :=
  Json.Reader.run (.record "CompilerOptions" layout {}) s

end Options

end Blueprints
