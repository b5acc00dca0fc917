import Blueprints.Document
import Blueprints.Program.Component
import Blueprints.Program.Function

/-! # Compiling

    The three things that can be compiled: a blueprint, a document, which
    brings definitions of its own, and all the blueprints of a project.  The
    time that a header tells is given from outside, as text. -/

namespace Blueprints

/-- Compiles a blueprint. -/
def compile (b : Blueprint) (catalog : Catalog) (options : Options) (time : String) : Program :=
  let ctx := Context.of b catalog options
  match b.kind with
  | .function =>
    let u := FunctionUnit.build ctx
    ⟨textOfLines (u.lines b options time), u.analysis, u.findings.diagnostics⟩
  | .component =>
    let u := ComponentUnit.build ctx
    ⟨textOfLines (u.lines b options time), u.analysis, u.findings.diagnostics⟩

/-- Compiles a document.  Its definitions count where the catalog has none
    of the same id. -/
def compileDocument (document : Document) (catalog : Catalog) (options : Options)
    (time : String) : Program :=
  compile document.blueprint (catalog.merge document.definitions).2 options time

/-- What is told of the compilation of a document, as JSON. -/
def compileReport (document : Document) (p : Program) : Json :=
  .object
    [("blueprint", .string document.name), ("analysis", p.analysis.toJson),
      ("diagnostics", .array (p.diagnostics.map Diagnostic.toJson))]

/-- A compiled blueprint of a project. -/
structure CompiledUnit where
  blueprintId : String
  fileName : String
  program : Program
  deriving DecidableEq, Repr

/-- The compiled blueprints of a project, and the module of helpers if any
    of them imports from it. -/
structure Project where
  units : List CompiledUnit
  helperLibrary : Option String
  deriving DecidableEq, Repr

/-- Compiles the blueprints of a project. -/
def compileProject (blueprints : List Blueprint) (catalog : Catalog) (options : Options)
    (time : String) : Project :=
  let units := blueprints.map fun b =>
    { blueprintId := b.id
      fileName := unitName b options ++ ".ts"
      program := compile b catalog options time : CompiledUnit }
  let imports := options.helperMode == .imported
    && units.any fun u => !u.program.analysis.helpers.isEmpty
  { units, helperLibrary := if imports then some Helper.library else none }

end Blueprints
