import Blueprints.Emit.Walk
import Blueprints.Proofs.Code.Passages
import Blueprints.Proofs.Emit.Uniform

/-! # Recursive descent — the text of a routine without blocks or a stack

    The plain account of what is written for a node that is reached on a
    path: nothing if the node is on the path or does not exist; else its own
    statements, and at their places the text of its successors, each by
    recursion on the path as the node leaves it.

    * The bodies of a branch, a loop, a case and a task stand one level
      deeper; what follows a fan-out or a sequence stands at the same level,
      one after the other; what follows a loop stands after it.
    * All that is not text (declarations, diagnostics, the return node) is
      passed along in the order of the recursion.

    No block is reserved here: the descent builds its text from the inside
    out, and only uses a block of its own to catch what reading writes. -/

namespace Blueprints

/-- Text, and what else has changed. -/
abbrev Told := List (Passage Statement) × Emission

/-- What is told of nodes, one after the other. -/
def inTurn (go : String → Emission → Told) : List String → Emission → Told
  | [], e => ([], e)
  | id :: rest, e =>
    let (first, e) := go id e
    let (others, e) := inTurn go rest e
    (first ++ others, e)

/-! ## The node itself -/

/-- What is written ahead of anything that follows a node, and the operands
    of its inputs. -/
structure Opening where
  passages : List (Passage Statement)
  operand : String → Operand
  emission : Emission

/-- The opening of a node of a kind: its comment, what its inputs need to be
    computed, and its own value if it is pure. -/
def openingOfKind (ctx : Context) (n : Node) (d : Definition) (kind : NodeKind)
    (e : Emission) : Opening :=
  let (operands, e) := readInputs ctx n (kind.slots ctx n) Arena.root
    (e.detached.announce ctx n d kind Arena.root)
  let e := ownValue ctx n kind Arena.root e
  ⟨e.blocks.finished Arena.root, operandOf operands, e.detached⟩

/-- The opening of a node; a node that cannot be emitted has a comment. -/
def opening (ctx : Context) (n : Node) (e : Emission) : Opening :=
  match ctx.definition? n with
  | none =>
    ⟨[.line (.comment s!"Unknown node type: {n.definitionId}")], fun _ => .undefined,
      e.report .reference n.id s!"definition '{n.definitionId}' is not in the catalog"⟩
  | some d =>
    match NodeKind.ofDefinition? d.id with
    | none =>
      ⟨[.line (.comment s!"Unsupported node type: {d.id}")], fun _ => .undefined,
        e.report .unsupportedKind n.id s!"no emitter for node type '{d.id}'"⟩
    | some kind => openingOfKind ctx n d kind e

/-- To open a node only adds to the path. -/
theorem openingOfKind_within (ctx : Context) (n : Node) (d : Definition) (kind : NodeKind)
    (e : Emission) : e.path.Within (openingOfKind ctx n d kind e).emission.path := by
  have hread := readInputs_within ctx n (kind.slots ctx n) Arena.root
    (e.detached.announce ctx n d kind Arena.root)
  rw [path_announce] at hread
  cases kind with
  | pure kind => exact hread.trans (assignPure_within ctx n Arena.root _)
  | _ => exact hread

/-- An opening keeps every node that is on the path. -/
theorem opening_within (ctx : Context) (n : Node) (e : Emission) :
    e.path.Within (opening ctx n e).emission.path := by
  simp only [opening]
  split
  · exact .refl _
  · split
    · exact .refl _
    · next d _ _ kind _ => exact openingOfKind_within ctx n d kind e

/-! ## What follows the node -/

section Following

variable (ctx : Context) (go : String → Emission → Told)

/-- A statement, and after it what is told of nodes. -/
def tellThen (s : Statement) (ids : List String) (e : Emission) : Told :=
  let (after, e) := inTurn go ids (e.mention s)
  (.line s :: after, e)

/-- The names of tasks, with numbers from `k` on. -/
def taskNames (stem : String) : Nat → List Connection → Emission → List String × Emission
  | _, [], e => ([], e)
  | k, _ :: rest, e =>
    let (name, e) := e.newLocal (stem ++ Nat.repr k)
    let (names, e) := taskNames stem (k + 1) rest e
    (name :: names, e)

/-- Tasks by their names, each with what is told of a node. -/
def tellTasks : List String → List Connection → Emission → Told
  | name :: names, c :: rest, e =>
    let (body, e) := go c.target.node e
    let (others, e) := tellTasks names rest e
    (.line (.openTask name) :: .deeper body :: .line .closeTask :: others, e)
  | _, _, e => ([], e)

/-- A task for each branch, and the wait for all of them. -/
def tellParallel (n : Node) (d : Definition) (e : Emission) : Told :=
  match newBranches ctx n d e with
  | [] => ([], e)
  | branches =>
    let stem := "task_" ++ n.numericSuffix?.getD "0" ++ "_"
    let (names, e) := taskNames stem 1 branches e.setAsync
    let (tasks, e) := tellTasks go names branches e
    (tasks ++ [.line (.awaitTasks names)], e)

/-- Both sides of a condition. -/
def tellBranch (n : Node) (d : Definition) (condition : Operand) (e : Emission) : Told :=
  let e := e.mention (.openIf condition)
  let (yes, e) := inTurn go (targets (ctx.leavingBy n d.execOutputs[0]?.toList)) e
  let (no, e) := inTurn go (targets (ctx.leavingBy n d.execOutputs[1]?.toList)) e
  ([.line (.openIf condition), .deeper yes, .otherwise no, .line .close], e)

/-- The body of a loop, and what follows after the loop. -/
def tellLoop (n : Node) (d : Definition) (count : Operand) (e : Emission) : Told :=
  let index := loopIndex ctx n
  let e := (e.declare index "number").mention (.openFor index count)
  let (body, e) := inTurn go (targets (ctx.leavingBy n d.execOutputs[0]?.toList)) e
  let (after, e) := inTurn go (targets (ctx.leavingBy n d.execOutputs[1]?.toList)) e
  (.line (.openFor index count) :: .deeper body :: .line .close :: after, e)

/-- A case for each output with a connection. -/
def tellCases (n : Node) : List Param → Emission → Told
  | [], e => ([], e)
  | p :: rest, e =>
    match ctx.index.outgoing ⟨n.id, p.id⟩ with
    | [] => tellCases n rest e
    | connections =>
      let (body, e) := inTurn go (targets connections) e
      let (others, e) := tellCases n rest e
      (.line (.openCase (.ofOutput p.id)) :: .deeper (body ++ [.line .leaveCase])
        :: .line .close :: others, e)

/-- The cases of a value. -/
def tellSwitch (n : Node) (d : Definition) (value : Operand) (e : Emission) : Told :=
  let (cases, e) := tellCases ctx go n d.execOutputs (e.mention (.openSwitch value))
  ([.line (.openSwitch value), .deeper cases, .line .close], e)

/-- The last statement of a node of a kind, if it has one, with what is told
    of its successors. -/
def tellKind (n : Node) (d : Definition) (kind : NodeKind) (operand : String → Operand)
    (e : Emission) : Told :=
  let successors := targets (ctx.waysOut n d kind)
  match kind with
  | .functionStart | .lifecycle _ | .pure _ | .sequence => inTurn go successors e
  | .functionParameter | .finish => ([], e)
  | .functionReturn => ([], e.noteReturn n.id)
  | .print =>
    let value := if ctx.isConnected n "value" then operand "value" else .literal (printedLiteral n)
    tellThen go (.log value) successors e
  | .debugLog => tellThen go (.log (operand "message")) successors e
  | .delay => tellThen go (.delay (operand "duration")) successors e.setAsync
  | .setVariable =>
    tellThen go (.assignVariable (ctx.variableOf n d) (operand "value")) successors e
  | .debugBreak => tellThen go .debugger successors e
  | .debugWatch => tellThen go (.watch (operand "label") (operand "value")) successors e
  | .parallel => tellParallel ctx go n d e
  | .branch => tellBranch ctx go n d (operand "condition") e
  | .forLoop => tellLoop ctx go n d (operand "count") e
  | .switch => tellSwitch ctx go n d (operand "value") e

/-- What follows the opening of a node. -/
def tellNode (n : Node) (operand : String → Operand) (e : Emission) : Told :=
  match ctx.definition? n with
  | none => ([], e)
  | some d =>
    match NodeKind.ofDefinition? d.id with
    | none => inTurn go (targets (ctx.index.execLeaving n d)) e
    | some kind => tellKind ctx go n d kind operand e

end Following

/-! ## The descent -/

/-- The text of a node that is reached on a path, and of all that follows
    it. -/
def descend (ctx : Context) (id : String) (path : Trail) (e : Emission) : Told :=
  if _new : path.contains id then ([], e)
  else
    match _found : ctx.index.node? id with
    | none => ([], e)
    | some n =>
      let own := opening ctx n (e.onPath (path.extend id))
      let rest := tellNode ctx (fun next e' => descend ctx next own.emission.path e') n own.operand
        own.emission
      (own.passages ++ rest.1, rest.2)
termination_by ctx.index.ahead path
decreasing_by
  exact Index.ahead_lt _found _new (opening_within ctx n (e.onPath (path.extend id)))

/-- The text of a routine that starts at nodes, each on a path of its own. -/
def descendAll (ctx : Context) (entries : List Node) (findings : Findings) : Told :=
  inTurn (fun id e => descend ctx id .empty e) (entries.map Node.id) { findings }

end Blueprints
