import Blueprints.Program.Basic

/-! # Components

    A blueprint of the component kind compiles to a class with a method for
    each hook that something is connected to. -/

namespace Blueprints

/-- The method of a hook. -/
structure Method where
  hook : Hook
  routine : Routine

/-- A blueprint as a component, before it is text. -/
structure ComponentUnit where
  methods : List Method
  findings : Findings

/-- The nodes of a hook from which control goes on. -/
def hookEntries (ctx : Context) (hook : Hook) : List Node :=
  (ctx.nodesOfKind (.lifecycle hook)).filter fun n =>
    match ctx.definition? n with
    | some d => !(ctx.index.execLeaving n d).isEmpty
    | none => false

/-- Reports that a return node was reached in a method. -/
def reportReturn (hook : Hook) (r : Routine) (f : Findings) : Findings :=
  match r.returnNode with
  | some id =>
    f.report ⟨.unsupportedKind, some id,
      s!"return node reached in {hook.name}; component methods return nothing"⟩
  | none => f

/-- Writes the methods of hooks, one after the other. -/
def writeMethods (ctx : Context) : List Hook → Findings → List Method × Findings
  | [], f => ([], f)
  | hook :: rest, f =>
    match hookEntries ctx hook with
    | [] => writeMethods ctx rest f
    | entries =>
      let e := writeRoutine ctx entries f
      let (methods, f) := writeMethods ctx rest (reportReturn hook e.routine e.findings)
      (⟨hook, e.routine⟩ :: methods, f)

/-- The lines of paragraphs, with an empty one between each two. -/
def spacedLines (paragraphs : List (List String)) : List String :=
  [""].intercalate paragraphs

namespace ComponentUnit

/-- The component of a blueprint. -/
def build (ctx : Context) : ComponentUnit :=
  let (methods, findings) := writeMethods ctx Hook.all (danglingReports ctx)
  { methods, findings }

/-- The line that declares a field. -/
def fieldLine (unit : String) (d : Declaration) : String :=
  unit ++ d.name ++ ": " ++ d.type ++ " = " ++ d.initial?.getD "null" ++ ";"

/-- The lines of a method. -/
def methodLines (unit : String) (m : Method) : List String :=
  let parameters := if m.hook.takesDeltaTime then deltaTime ++ ": number" else ""
  let mark := if m.routine.isAsync then "async " else ""
  [unit ++ mark ++ m.hook.name ++ "(" ++ parameters ++ ") \x7b"]
  ++ m.routine.lines unit 2
  ++ [unit ++ "\x7d"]

/-- The lines of the unit. -/
def lines (u : ComponentUnit) (b : Blueprint) (options : Options) (time : String) : List String :=
  let name := unitName b options
  let unit := options.indentUnit
  let fields := (variableDeclarations b u.findings.variableNames).map (fieldLine unit)
  let members := (if fields.isEmpty then [] else [fields]) ++ u.methods.map (methodLines unit)
  headerLines b options time
  ++ helperLines options ["import \x7b _decorator, Component \x7d from 'cc';"] u.findings.helpers
  ++ ["const \x7b ccclass \x7d = _decorator;", "", "@ccclass('" ++ name ++ "')",
    "export class " ++ name ++ " extends Component \x7b"]
  ++ spacedLines members
  ++ ["\x7d"]

/-- What is known of the component. -/
def analysis (u : ComponentUnit) : Analysis where
  helpers := Helper.inOrder u.findings.helpers
  isAsync := u.methods.any (·.routine.isAsync)

end ComponentUnit

end Blueprints
