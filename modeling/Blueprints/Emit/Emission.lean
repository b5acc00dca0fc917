import Blueprints.Code.Routine
import Blueprints.Diagnostic
import Blueprints.Emit.Context
import Blueprints.Wiring.VisitedPath

/-! # Emissions — what emitting changes

    While a routine is written, its statements grow, and with them what is
    known of the whole unit: the helpers and variables that its statements
    use, and the diagnostics.  The path tells which nodes are done on the
    way to the place of writing. -/

namespace Blueprints

/-- What the statements of a unit use, and what was reported. -/
structure Findings where
  helpers : List Helper := []
  /-- The names of the variables, in their order. -/
  variableNames : List String := []
  diagnostics : Diagnostics := []

/-- Adds a text to a list in ascending order, unless it is there. -/
def insertOrdered (s : String) : List String → List String
  | [] => [s]
  | t :: rest =>
    if s < t then s :: t :: rest
    else if s == t then t :: rest
    else t :: insertOrdered s rest

namespace Findings

/-- Notes what a statement uses. -/
def note (f : Findings) (s : Statement) : Findings :=
  { f with
    helpers := s.helpers.foldl (fun hs h => if hs.contains h then hs else hs ++ [h]) f.helpers
    variableNames :=
      s.usedVariables.foldl (fun names v => insertOrdered v.name names) f.variableNames }

/-- Reports something. -/
def report (f : Findings) (d : Diagnostic) : Findings :=
  { f with diagnostics := f.diagnostics.report d }

end Findings

/-- A routine as it is being written. -/
structure Emission where
  routine : Routine := {}
  findings : Findings := {}
  /-- The nodes that are done on the way to the place of writing. -/
  path : Trail := .empty
  /-- The variable readers that were computed for the value that is being
      read. -/
  fresh : List String := []

namespace Emission

/-- Goes to a place that is reached on a path. -/
def onPath (e : Emission) (path : Trail) : Emission := { e with path }

/-- Writes a statement at the end of a block. -/
def emit (e : Emission) (block : Nat) (s : Statement) : Emission :=
  { e with
    routine := { e.routine with blocks := e.routine.blocks.line block s }
    findings := e.findings.note s }

/-- Reserves a block at the end of another one. -/
def reserve (e : Emission) (place : Place) (block : Nat) : Nat × Emission :=
  let (child, blocks) := e.routine.blocks.reserve place block
  (child, { e with routine := { e.routine with blocks } })

/-- Declares a temporary at the top of the routine. -/
def declare (e : Emission) (name type : String) : Emission :=
  { e with routine := e.routine.declare name type }

/-- Binds a new name in the routine. -/
def newLocal (e : Emission) (wanted : String) : String × Emission :=
  let (name, routine) := e.routine.newLocal wanted
  (name, { e with routine })

/-- Makes the routine one that waits. -/
def setAsync (e : Emission) : Emission :=
  { e with routine := { e.routine with isAsync := true } }

/-- Notes a return node; the first one counts. -/
def noteReturn (e : Emission) (id : String) : Emission :=
  { e with routine := { e.routine with returnNode := e.routine.returnNode.or (some id) } }

/-- Reports something about a node. -/
def report (e : Emission) (kind : DiagnosticKind) (node : String) (message : String) :
    Emission :=
  { e with findings := e.findings.report ⟨kind, some node, message⟩ }

/-- Whether the temporary of a pure node holds its value: that of a variable
    reader only during one read, that of another node for the rest of the
    path. -/
def isCurrent (e : Emission) (ctx : Context) (id : String) : Bool :=
  if ctx.isReader id then e.fresh.contains id else e.path.contains id

/-- Notes that the temporary of a pure node holds its value. -/
def settle (e : Emission) (ctx : Context) (id : String) : Emission :=
  if ctx.isReader id then { e with fresh := id :: e.fresh }
  else { e with path := e.path.extend id }

/-- Forgets which variable readers were computed. -/
def endRead (e : Emission) : Emission := { e with fresh := [] }

/-! ## The path -/

@[simp] theorem path_emit (e : Emission) (block : Nat) (s : Statement) :
    (e.emit block s).path = e.path := rfl

@[simp] theorem path_reserve (e : Emission) (place : Place) (block : Nat) :
    (e.reserve place block).2.path = e.path := rfl

@[simp] theorem path_declare (e : Emission) (name type : String) :
    (e.declare name type).path = e.path := rfl

@[simp] theorem path_newLocal (e : Emission) (wanted : String) :
    (e.newLocal wanted).2.path = e.path := rfl

@[simp] theorem path_setAsync (e : Emission) : e.setAsync.path = e.path := rfl

@[simp] theorem path_noteReturn (e : Emission) (id : String) :
    (e.noteReturn id).path = e.path := rfl

@[simp] theorem path_report (e : Emission) (kind : DiagnosticKind) (node message : String) :
    (e.report kind node message).path = e.path := rfl

@[simp] theorem path_endRead (e : Emission) : e.endRead.path = e.path := rfl

theorem mem_path_settle {e : Emission} {ctx : Context} {id id' : String}
    (h : id' ∈ e.path.latest) : id' ∈ (e.settle ctx id).path.latest := by
  unfold settle
  split
  · exact h
  · exact List.mem_cons_of_mem _ h

end Emission

end Blueprints
