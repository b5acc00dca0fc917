import Blueprints.Emit.Computation
import Blueprints.Emit.Emission

/-! # Reading values

    To read an input is to get an operand for it.  If it comes from a pure
    node whose temporary does not hold its value, the node is *computed*
    first, after those that it depends on: an assignment to its temporary is
    written into the current block.

    Computing follows connections, which may lead in a circle.  The nodes
    whose computation has begun are *active*; to come back to one of them is
    reported, and goes no further. -/

namespace Blueprints

/-! ## Reading, by a way to compute -/

/-- Reports that several connections reach an input. -/
def Emission.reportFanIn (e : Emission) (ctx : Context) (n : Node) (param : String) : Emission :=
  match ctx.index.incoming ⟨n.id, param⟩ with
  | used :: other :: more =>
    let count := (used :: other :: more).length
    e.report .shapeAmbiguity n.id
      s!"input '{param}' has {count} incoming connections; only '{used.id}' is used"
  | _ => e

/-- Reports that the connection to an input brings no value. -/
def Emission.reportNoValue (e : Emission) (ctx : Context) (n : Node) (param : String) :
    Emission :=
  match ctx.index.feeding? ⟨n.id, param⟩ with
  | some c =>
    e.report .reference n.id
      s!"input '{param}' reads '{c.source.node}.{c.source.param}', which produces no value"
  | none => e

/-- Reads an input, where `compute` computes a pure node and `active` are
    the nodes whose computation has begun. -/
def readWith (ctx : Context) (compute : String → Emission → Emission) (active : List String)
    (n : Node) (param : String) (e : Emission) : Operand × Emission :=
  let e := e.reportFanIn ctx n param
  match ctx.source n param with
  | .literal v _ => (.literal v, e)
  | .parameter name _ => (.parameter name, e)
  | .temporary name output kind =>
    let e := e.declare name kind.typeName
    if ctx.index.isPure ctx.catalog output.node && !e.isCurrent ctx output.node
        && !active.contains output.node then
      (.temporary name, compute output.node e)
    else (.temporary name, e)
  | .undefined => (.undefined, e.reportNoValue ctx n param)

/-- Reads inputs one after the other. -/
def readAllWith (ctx : Context) (compute : String → Emission → Emission)
    (active : List String) (n : Node) :
    List String → Emission → List (String × Operand) × Emission
  | [], e => ([], e)
  | param :: rest, e =>
    let (operand, e) := readWith ctx compute active n param e
    let (operands, e) := readAllWith ctx compute active n rest e
    ((param, operand) :: operands, e)

/-- The operand that was read for an input. -/
def operandOf (operands : List (String × Operand)) (param : String) : Operand :=
  (operands.lookup param).getD .undefined

/-- Assigns the temporary of a pure node. -/
def assignWith (ctx : Context) (compute : String → Emission → Emission) (active : List String)
    (n : Node) (block : Nat) (e : Emission) : Emission :=
  match ctx.definition? n with
  | none => e
  | some d =>
    match NodeKind.ofDefinition? d.id, ctx.result? n d with
    | some (.pure kind), some (name, type) =>
      let (operands, e) := readAllWith ctx compute active n kind.slots e
      (e.declare name type).emit block (.assign name (kind.expr ctx n d (operandOf operands)))
    | _, _ => e

/-! ## Computing -/

/-- Computes a pure node into a block: what it depends on, then the node
    itself. -/
def compute (ctx : Context) (block : Nat) (active : List String) (id : String) (e : Emission) :
    Emission :=
  if e.isCurrent ctx id then e
  else if _idle : id ∈ active then
    e.report .shapeAmbiguity id "data cycle: value is read before it is computed"
  else
    match _found : ctx.index.node? id with
    | none => e
    | some n =>
      let e := (ctx.pureDependencies n).foldl
        (fun e dependency => compute ctx block (id :: active) dependency e) e
      let e := assignWith ctx
        (fun producer e => compute ctx block (id :: active) producer e) (id :: active) n block e
      e.settle ctx id
termination_by (unlisted ctx.index.nodeIds active).length
decreasing_by
  all_goals
    exact length_unlisted_lt (fun _ h => List.mem_cons_of_mem _ h)
      (Index.mem_nodeIds_of_node? _found) _idle (List.mem_cons_self ..)

/-- Computes a pure node for one read; what it read of variables is not
    kept. -/
def computeOnce (ctx : Context) (block : Nat) (id : String) (e : Emission) : Emission :=
  (compute ctx block [] id e).endRead

/-- Reads an input of a node. -/
def readInput (ctx : Context) (n : Node) (param : String) (block : Nat) (e : Emission) :
    Operand × Emission :=
  readWith ctx (computeOnce ctx block) [] n param e

/-- Reads inputs of a node one after the other. -/
def readInputs (ctx : Context) (n : Node) (params : List String) (block : Nat) (e : Emission) :
    List (String × Operand) × Emission :=
  readAllWith ctx (computeOnce ctx block) [] n params e

/-- Assigns the temporary of a pure node that control reaches. -/
def assignPure (ctx : Context) (n : Node) (block : Nat) (e : Emission) : Emission :=
  assignWith ctx (computeOnce ctx block) [] n block e

end Blueprints
