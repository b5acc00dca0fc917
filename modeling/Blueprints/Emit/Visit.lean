import Blueprints.Emit.Read

/-! # Visiting nodes

    To visit a node is to write its statements into a block and to tell by
    which *exits* control goes on: each is a node and the block for what is
    written there.  Blocks are reserved here and filled when the walk comes
    to them, so what they hold stands in the order in which they were
    reserved. -/

namespace Blueprints

/-- A node to which control goes on, and the block for it. -/
structure Exit where
  node : String
  block : Nat
  deriving DecidableEq, Repr

/-- The exits of a visit and what it has written. -/
abbrev Visited := List Exit × Emission

/-! ## Going on -/

/-- Goes on by connections, each with an inline block of its own. -/
def spread (block : Nat) : List Connection → Emission → Visited
  | [], e => ([], e)
  | c :: rest, e =>
    let (child, e) := e.reserve .inline block
    let (exits, e) := spread block rest e
    (⟨c.target.node, child⟩ :: exits, e)

/-- Goes on by connections: a single one in the same block, several each in
    a block of its own. -/
def goOn (block : Nat) (connections : List Connection) (e : Emission) : Visited :=
  match connections with
  | [c] => ([⟨c.target.node, block⟩], e)
  | connections => spread block connections e

/-- Goes on by all outputs that carry control. -/
def follow (ctx : Context) (n : Node) (d : Definition) (block : Nat) (e : Emission) : Visited :=
  goOn block (ctx.index.execLeaving n d) e

/-- Goes on by one output, if there is one. -/
def goOnBy (ctx : Context) (n : Node) (output : Option Param) (block : Nat) (e : Emission) :
    Visited :=
  match output with
  | some p => goOn block (ctx.index.outgoing ⟨n.id, p.id⟩) e
  | none => ([], e)

/-- The connections by which control leaves a node, output by output, to
    nodes that are not on the path. -/
def newBranches (ctx : Context) (n : Node) (d : Definition) (e : Emission) : List Connection :=
  (d.execOutputs.flatMap fun p => ctx.index.outgoing ⟨n.id, p.id⟩).filter
    fun c => !e.path.contains c.target.node

/-! ## Nodes that place what follows them -/

/-- Starts a task for each connection, under names with a number from `k`
    on. -/
def startTasks (stem : String) (block : Nat) :
    Nat → List Connection → Emission → List String × Visited
  | _, [], e => ([], [], e)
  | k, c :: rest, e =>
    let (name, e) := e.newLocal (stem ++ Nat.repr k)
    let (body, e) := (e.emit block (.openTask name)).reserve .nested block
    let (names, exits, e) := startTasks stem block (k + 1) rest (e.emit block .closeTask)
    (name :: names, ⟨c.target.node, body⟩ :: exits, e)

/-- Runs branches side by side and waits for all of them. -/
def visitParallel (ctx : Context) (n : Node) (d : Definition) (block : Nat) (e : Emission) :
    Visited :=
  match newBranches ctx n d e with
  | [] => ([], e)
  | branches =>
    let stem := "task_" ++ n.numericSuffix?.getD "0" ++ "_"
    let (names, exits, e) := startTasks stem block 1 branches e.setAsync
    (exits, e.emit block (.awaitTasks names))

/-- Goes on by the first output if a condition holds and else by the
    second. -/
def visitBranch (ctx : Context) (n : Node) (d : Definition) (condition : Operand) (block : Nat)
    (e : Emission) : Visited :=
  let (yes, e) := (e.emit block (.openIf condition)).reserve .nested block
  let (no, e) := e.reserve .otherwise block
  let e := e.emit block .close
  let (first, e) := goOnBy ctx n d.execOutputs[0]? yes e
  let (second, e) := goOnBy ctx n d.execOutputs[1]? no e
  (first ++ second, e)

/-- The index of a loop: the temporary of its `index` output. -/
def loopIndex (ctx : Context) (n : Node) : String :=
  (ctx.names.name? ⟨n.id, "index"⟩).getD ("index_" ++ n.numericSuffix?.getD "0")

/-- Goes on by the first output a number of times, and by the second
    after. -/
def visitLoop (ctx : Context) (n : Node) (d : Definition) (count : Operand) (block : Nat)
    (e : Emission) : Visited :=
  let index := loopIndex ctx n
  let e := e.declare index "number"
  let (body, e) := (e.emit block (.openFor index count)).reserve .nested block
  let e := e.emit block .close
  let (first, e) := goOnBy ctx n d.execOutputs[0]? body e
  let (second, e) := goOnBy ctx n d.execOutputs[1]? block e
  (first ++ second, e)

/-- Writes a case for each output with a connection. -/
def writeCases (ctx : Context) (n : Node) (cases : Nat) : List Param → Emission → Visited
  | [], e => ([], e)
  | p :: rest, e =>
    match ctx.index.outgoing ⟨n.id, p.id⟩ with
    | [] => writeCases ctx n cases rest e
    | connections =>
      let (case, e) := (e.emit cases (.openCase (.ofOutput p.id))).reserve .nested cases
      let (body, e) := e.reserve .inline case
      let e := (e.emit case .leaveCase).emit cases .close
      let (first, e) := goOn body connections e
      let (others, e) := writeCases ctx n cases rest e
      (first ++ others, e)

/-- Goes on by the output whose label is the value. -/
def visitSwitch (ctx : Context) (n : Node) (d : Definition) (value : Operand) (block : Nat)
    (e : Emission) : Visited :=
  let (cases, e) := (e.emit block (.openSwitch value)).reserve .nested block
  writeCases ctx n cases d.execOutputs (e.emit block .close)

/-! ## Any node -/

/-- Whether a node has statements of its own. -/
def NodeKind.hasStatements : NodeKind → Bool
  | .functionStart | .lifecycle _ | .functionParameter | .functionReturn | .finish => false
  | _ => true

/-- Whether a connection reaches an input. -/
def Context.isConnected (ctx : Context) (n : Node) (param : String) : Bool :=
  (ctx.index.feeding? ⟨n.id, param⟩).isSome

/-- The inputs that a visit reads, in the order in which they are read. -/
def NodeKind.slots (ctx : Context) (n : Node) : NodeKind → List String
  | .print => if ctx.isConnected n "value" then ["value"] else []
  | .debugLog => ["message"]
  | .delay => ["duration"]
  | .branch => ["condition"]
  | .forLoop => ["count"]
  | .switch | .setVariable => ["value"]
  | .debugWatch => ["value", "label"]
  | _ => []

/-- What a print node prints if nothing is connected to it: its value, else
    its message, else a greeting. -/
def printedLiteral (n : Node) : Json :=
  ((n.literal? "value").or (n.literal? "message")).getD (.string "Hello World")

/-- Writes the statements of a node of a kind, whose inputs were read as
    operands. -/
def visitKind (ctx : Context) (n : Node) (d : Definition) (kind : NodeKind)
    (operand : String → Operand) (block : Nat) (e : Emission) : Visited :=
  match kind with
  | .functionStart | .lifecycle _ => follow ctx n d block e
  | .functionParameter | .finish => ([], e)
  | .functionReturn => ([], e.noteReturn n.id)
  | .print =>
    let value := if ctx.isConnected n "value" then operand "value" else .literal (printedLiteral n)
    follow ctx n d block (e.emit block (.log value))
  | .debugLog => follow ctx n d block (e.emit block (.log (operand "message")))
  | .delay => follow ctx n d block (e.setAsync.emit block (.delay (operand "duration")))
  | .setVariable =>
    follow ctx n d block (e.emit block (.assignVariable (ctx.variableOf n d) (operand "value")))
  | .debugBreak => follow ctx n d block (e.emit block .debugger)
  | .debugWatch =>
    follow ctx n d block (e.emit block (.watch (operand "label") (operand "value")))
  | .pure _ => follow ctx n d block (assignPure ctx n block e)
  | .sequence => spread block (newBranches ctx n d e) e
  | .parallel => visitParallel ctx n d block e
  | .branch => visitBranch ctx n d (operand "condition") block e
  | .forLoop => visitLoop ctx n d (operand "count") block e
  | .switch => visitSwitch ctx n d (operand "value") block e

/-- Writes the comment ahead of the statements of a node, if it has any and
    comments are wanted. -/
def Emission.announce (e : Emission) (ctx : Context) (n : Node) (d : Definition)
    (kind : NodeKind) (block : Nat) : Emission :=
  if ctx.options.nodeComments && kind.hasStatements then
    e.emit block (.comment s!"{d.name} ({n.id})")
  else e

/-- Visits a node: writes it into a block and tells where control goes
    on. -/
def visit (ctx : Context) (n : Node) (block : Nat) (e : Emission) : Visited :=
  match ctx.definition? n with
  | none =>
    let e := e.report .reference n.id s!"definition '{n.definitionId}' is not in the catalog"
    ([], e.emit block (.comment s!"Unknown node type: {n.definitionId}"))
  | some d =>
    match NodeKind.ofDefinition? d.id with
    | none =>
      let e := e.report .unsupportedKind n.id s!"no emitter for node type '{d.id}'"
      follow ctx n d block (e.emit block (.comment s!"Unsupported node type: {d.id}"))
    | some kind =>
      let (operands, e) := readInputs ctx n (kind.slots ctx n) block (e.announce ctx n d kind block)
      visitKind ctx n d kind (operandOf operands) block e

end Blueprints
