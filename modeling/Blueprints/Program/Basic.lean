import Blueprints.Diagnostic
import Blueprints.Emit.Walk
import Blueprints.Graph.Format

/-! # Programs

    A program is what a blueprint compiles to: the text of one unit of code,
    with an analysis of it and the diagnostics.  This module has what both
    shapes of a unit share. -/

namespace Blueprints

/-- A parameter of a generated function. -/
structure Parameter where
  name : String
  type : String
  /-- The text of the default. -/
  default? : Option String := none
  deriving DecidableEq, Repr

namespace Parameter

/-- A parameter as it stands in a signature. -/
def signature (p : Parameter) : String :=
  match p.default? with
  | some default => p.name ++ ": " ++ p.type ++ " = " ++ default
  | none => p.name ++ ": " ++ p.type

/-- A parameter as JSON. -/
def toJson (p : Parameter) : Json :=
  .object ([("name", .string p.name), ("ty", .string p.type)]
    ++ Json.optionalField "default" (p.default?.map Json.string))

end Parameter

/-- What is known of the routines of a program. -/
structure Analysis where
  parameters : List Parameter := []
  /-- The type of what the function returns, less the promise of it. -/
  returnType : String := "void"
  /-- The helpers that are called, in the order of their module. -/
  helpers : List Helper := []
  isAsync : Bool := false
  deriving DecidableEq, Repr

/-- An analysis as JSON. -/
def Analysis.toJson (a : Analysis) : Json :=
  .object
    [("parameters", .array (a.parameters.map Parameter.toJson)),
      ("return_type", .string a.returnType),
      ("helpers", .array (a.helpers.map fun h => .string h.name)),
      ("is_async", .bool a.isAsync)]

/-- A compiled blueprint. -/
structure Program where
  source : String
  analysis : Analysis
  diagnostics : Diagnostics
  deriving DecidableEq, Repr

/-! ## Routines -/

/-- A block and a task for each of the nodes at which a routine starts. -/
def entrySteps : List Node → Emission → List Step × Emission
  | [], e => ([], e)
  | n :: rest, e =>
    let (block, e) := e.reserve .inline Arena.root
    let (steps, e) := entrySteps rest e
    (⟨n.id, .empty, block⟩ :: steps, e)

/-- Writes the routine that starts at nodes. -/
def writeRoutine (ctx : Context) (entries : List Node) (findings : Findings) : Emission :=
  let (steps, e) := entrySteps entries { findings }
  walk ctx steps e

/-- The reports about connections that name a missing node. -/
def danglingReports (ctx : Context) : Findings :=
  ctx.index.dangling.foldl (fun f c =>
    f.report ⟨.reference, none,
      s!"connection '{c.id}' references a missing node ({c.source.node} -> {c.target.node})"⟩) {}

/-! ## Variables -/

/-- The declaration of a variable. -/
structure Declaration where
  name : String
  type : String
  /-- The text of the first value. -/
  initial? : Option String := none
  deriving DecidableEq, Repr

/-- Adds a declaration, unless its name is declared. -/
def addDeclaration (ds : List Declaration) (d : Declaration) : List Declaration :=
  if ds.any (·.name == d.name) then ds else ds ++ [d]

/-- The declarations of the variables that a blueprint gives a value, then
    of those that its code uses without one. -/
def variableDeclarations (b : Blueprint) (used : List String) : List Declaration :=
  let given := b.variableValues.map fun (name, value) =>
    { name := Text.identifier name, type := value.typeName, initial? := some value.compact
      : Declaration }
  let others := used.map fun name => { name, type := "any" : Declaration }
  (given ++ others).foldl addDeclaration []

/-! ## Text -/

/-- The name of the function or class of a blueprint. -/
def unitName (b : Blueprint) (options : Options) : String :=
  let name := if Text.isBlankText b.name then "Blueprint" else b.name
  options.functionPrefix ++ Text.identifier name

/-- The comment at the top of a unit. -/
def headerLines (b : Blueprint) (options : Options) (time : String) : List String :=
  ["/**", " * Generated from blueprint: " ++ b.name]
  ++ (if options.headerTimestamp then [" * Generated at: " ++ time] else [])
  ++ [" * Compiled with BGC (Blueprint Graph Compiler)",
    " * Auto-generated - do not modify manually", " */", ""]

/-- Lines and an empty one, or nothing. -/
def paragraph (lines : List String) : List String :=
  if lines.isEmpty then [] else lines ++ [""]

/-- The imports, with that of the helpers or with the helpers after
    them. -/
def helperLines (options : Options) (imports : List String) (helpers : List Helper) :
    List String :=
  match options.helperMode with
  | .imported =>
    paragraph (imports ++ (Helper.importStatement? helpers options.helperModule).toList)
  | .inlined =>
    paragraph imports ++ (Helper.inOrder helpers).flatMap fun h => h.declarationLines ++ [""]

/-- The text of lines, each of them ended. -/
def textOfLines (lines : List String) : String := "\n".intercalate lines ++ "\n"

end Blueprints
