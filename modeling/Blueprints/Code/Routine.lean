import Blueprints.Code.Block
import Blueprints.Code.Statement
import Blueprints.Wiring.Temporaries

/-! # Routines

    A routine is the body of one function or method: its statements in
    blocks, and the temporaries that are declared at its top. -/

namespace Blueprints

/-- The body of a function or method. -/
structure Routine where
  blocks : Arena Statement := .new
  /-- Names and types of what is declared at the top, in the order of first
      use. -/
  temporaries : List (String × String) := []
  /-- Names that are bound among the statements. -/
  locals : List String := []
  isAsync : Bool := false
  /-- The first return node that was reached. -/
  returnNode : Option String := none

namespace Routine

/-- The names that are declared at the top. -/
def declared (r : Routine) : List String := r.temporaries.map Prod.fst

/-- Declares a temporary at the top, once. -/
def declare (r : Routine) (name type : String) : Routine :=
  if r.declared.contains name then r
  else { r with temporaries := r.temporaries ++ [(name, type)] }

/-- Binds a name that the routine does not use yet, after a wanted one. -/
def newLocal (r : Routine) (wanted : String) : String × Routine :=
  let name := unusedName (r.locals ++ r.declared) wanted
  (name, { r with locals := name :: r.locals })

/-- The lines of a routine from a depth on: declarations, an empty line and
    the statements. -/
def lines (r : Routine) (unit : String) (depth : Nat) : List String :=
  let declarations := r.temporaries.map fun (name, type) =>
    Arena.indented unit depth ("let " ++ name ++ ": " ++ type ++ ";")
  let statements := r.blocks.render Statement.text unit depth Arena.root
  if declarations.isEmpty || statements.isEmpty then declarations ++ statements
  else declarations ++ "" :: statements

end Routine

end Blueprints
