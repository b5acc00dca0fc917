import Blueprints.Code.Statement
import Blueprints.Options
import Blueprints.Wiring.Readers
import Blueprints.Wiring.Source

/-! # The context of a compilation

    What is known before anything is emitted: the blueprint, the catalog,
    the options, and the tables that are computed from them. -/

namespace Blueprints

/-- What a compilation looks things up in. -/
structure Context where
  blueprint : Blueprint
  catalog : Catalog
  options : Options
  index : Index
  names : Temporaries
  /-- The ids of the variable readers. -/
  readers : List String

namespace Context

/-- The context of the compilation of a blueprint. -/
def of (b : Blueprint) (catalog : Catalog) (options : Options) : Context :=
  let index := Index.build b
  { blueprint := b
    catalog
    options
    index
    names := .allocate b catalog
    readers := variableReaders b catalog index }

/-- The definition of a node. -/
def definition? (ctx : Context) (n : Node) : Option Definition :=
  ctx.catalog.find? n.definitionId

/-- The nodes of a kind, in their order. -/
def nodesOfKind (ctx : Context) (kind : NodeKind) : List Node :=
  ctx.blueprint.nodes.filter fun n => ctx.catalog.kind? n == some kind

/-- Whether an id is that of a variable reader. -/
def isReader (ctx : Context) (id : String) : Bool := ctx.readers.contains id

/-- What an input takes its value from. -/
def source (ctx : Context) (n : Node) (param : String) : Source :=
  .resolve ctx.index ctx.catalog ctx.names n param

/-- The variable that a node reads or assigns. -/
def variableOf (ctx : Context) (n : Node) (d : Definition) : Variable where
  name := Text.identifier ((n.setting? d "name").getD "variable")
  isField := ctx.blueprint.kind == .component

/-- The ids of the pure nodes that the declared inputs of a node take their
    values from. -/
def pureDependencies (ctx : Context) (n : Node) : List String :=
  match ctx.definition? n with
  | none => []
  | some d =>
    ((d.inputs.filter (!·.kind.isExec)).filterMap fun p =>
        (ctx.index.feeding? ⟨n.id, p.id⟩).map (·.source.node)).filter
      (ctx.index.isPure ctx.catalog)

end Context

end Blueprints
