import Blueprints.Program.Component
import Blueprints.Proofs.Emit.Refinement
import Blueprints.Proofs.Wiring.Tables

/-! # Compilations that correspond

    Two compilations *correspond* if each does what the other does, up to what
    neither of them looks at.  What they write and find may differ: how the
    two hang together is a relation that all ways to write and to report keep
    (`Likeness`).  The contexts may differ too, as long as a compilation looks
    up the same in both, the node of one for the node of the other
    (`Context.Corresponds`).

    Then they read, compute, visit and walk alike (`like_compute`,
    `like_visit`, `like_walk`), and so they write routines that are alike
    (`like_writeRoutine`).  The proof follows the recursion of the functions;
    at every step both take the same branch. -/

namespace Blueprints

/-! ## What is written and found -/

/-- How the routines and the findings of two compilations hang together.  All
    ways to write and to report keep it, and a choice that depends on a routine
    is the same for both. -/
structure Likeness where
  routines : Routine → Routine → Prop
  findings : Findings → Findings → Prop
  new : routines {} {}
  line : ∀ {r r' : Routine}, routines r r' → ∀ (block : Nat) (s : Statement),
    routines { r with blocks := r.blocks.line block s } { r' with blocks := r'.blocks.line block s }
  size : ∀ {r r' : Routine}, routines r r' → r'.blocks.size = r.blocks.size
  reserve : ∀ {r r' : Routine}, routines r r' → ∀ (place : Place) (block : Nat),
    routines { r with blocks := (r.blocks.reserve place block).2 }
      { r' with blocks := (r'.blocks.reserve place block).2 }
  declare : ∀ {r r' : Routine}, routines r r' → ∀ name type : String,
    routines (r.declare name type) (r'.declare name type)
  newLocal : ∀ {r r' : Routine}, routines r r' → ∀ wanted : String,
    (r'.newLocal wanted).1 = (r.newLocal wanted).1
      ∧ routines (r.newLocal wanted).2 (r'.newLocal wanted).2
  setAsync : ∀ {r r' : Routine}, routines r r' →
    routines { r with isAsync := true } { r' with isAsync := true }
  returnNode : ∀ {r r' : Routine}, routines r r' → r'.returnNode = r.returnNode
  noteReturn : ∀ {r r' : Routine}, routines r r' → ∀ id : String,
    routines { r with returnNode := r.returnNode.or (some id) }
      { r' with returnNode := r'.returnNode.or (some id) }
  /-- An empty line ahead of a return, if anything stands there. -/
  space : ∀ {r r' : Routine}, routines r r' →
    routines
      (if r.blocks.isEmpty Arena.root then r
        else { r with blocks := r.blocks.line Arena.root .blank })
      (if r'.blocks.isEmpty Arena.root then r'
        else { r' with blocks := r'.blocks.line Arena.root .blank })
  note : ∀ {f f' : Findings}, findings f f' → ∀ s : Statement, findings (f.note s) (f'.note s)
  report : ∀ {f f' : Findings}, findings f f' → ∀ d : Diagnostic,
    findings (f.report d) (f'.report d)

/-- The same routines, with findings that hang together. -/
def Likeness.ofFindings (findings : Findings → Findings → Prop)
    (note : ∀ {f f' : Findings}, findings f f' → ∀ s : Statement, findings (f.note s) (f'.note s))
    (report : ∀ {f f' : Findings}, findings f f' → ∀ d : Diagnostic,
      findings (f.report d) (f'.report d)) : Likeness where
  routines := Eq
  findings := findings
  new := rfl
  line := by
    rintro r _ rfl block s
    rfl
  size := by
    rintro r _ rfl
    rfl
  reserve := by
    rintro r _ rfl place block
    rfl
  declare := by
    rintro r _ rfl name type
    rfl
  newLocal := by
    rintro r _ rfl wanted
    exact ⟨rfl, rfl⟩
  setAsync := by
    rintro r _ rfl
    rfl
  returnNode := by
    rintro r _ rfl
    rfl
  noteReturn := by
    rintro r _ rfl id
    rfl
  space := by
    rintro r _ rfl
    rfl
  note := note
  report := report

/-- The same routines and findings. -/
def Likeness.same : Likeness :=
  .ofFindings Eq (fun h s => congrArg (·.note s) h) (fun h d => congrArg (·.report d) h)

/-- Emissions with routines and findings that are alike, at the same place. -/
structure Emission.Like (L : Likeness) (e e' : Emission) : Prop where
  routine : L.routines e.routine e'.routine
  findings : L.findings e.findings e'.findings
  path : e'.path = e.path
  fresh : e'.fresh = e.fresh

/-- The same result, with emissions that are alike. -/
structure LikeWith {α : Type} (L : Likeness) (p p' : α × Emission) : Prop where
  result : p'.1 = p.1
  emission : p.2.Like L p'.2

section Writing

variable {L : Likeness} {e e' : Emission}

namespace Emission.Like

/-- Compilations that start with findings that are alike start alike. -/
theorem start {f f' : Findings} (h : L.findings f f') :
    ({ findings := f } : Emission).Like L { findings := f' } :=
  ⟨L.new, h, rfl, rfl⟩

/-- The same line goes to the same block of both, and both note what it uses. -/
theorem emit (h : e.Like L e') (block : Nat) (s : Statement) :
    (e.emit block s).Like L (e'.emit block s) :=
  ⟨L.line h.routine block s, L.note h.findings s, h.path, h.fresh⟩

/-- Both open a block with the same number. -/
theorem reserve (h : e.Like L e') (place : Place) (block : Nat) :
    LikeWith L (e.reserve place block) (e'.reserve place block) :=
  ⟨L.size h.routine, L.reserve h.routine place block, h.findings, h.path, h.fresh⟩

/-- Both declare a name, or both have it already. -/
theorem declare (h : e.Like L e') (name type : String) :
    (e.declare name type).Like L (e'.declare name type) :=
  ⟨L.declare h.routine name type, h.findings, h.path, h.fresh⟩

/-- Both find the same name free. -/
theorem newLocal (h : e.Like L e') (wanted : String) :
    LikeWith L (e.newLocal wanted) (e'.newLocal wanted) := by
  obtain ⟨hname, hroutine⟩ := L.newLocal h.routine wanted
  exact ⟨hname, hroutine, h.findings, h.path, h.fresh⟩

theorem setAsync (h : e.Like L e') : e.setAsync.Like L e'.setAsync :=
  ⟨L.setAsync h.routine, h.findings, h.path, h.fresh⟩

/-- Only the first return of a routine is kept, and it is the same one in both. -/
theorem noteReturn (h : e.Like L e') (id : String) :
    (e.noteReturn id).Like L (e'.noteReturn id) :=
  ⟨L.noteReturn h.routine id, h.findings, h.path, h.fresh⟩

/-- Both take down the same diagnostic. -/
theorem report (h : e.Like L e') (kind : DiagnosticKind) (node message : String) :
    (e.report kind node message).Like L (e'.report kind node message) :=
  ⟨h.routine, L.report h.findings _, h.path, h.fresh⟩

/-- Both can be put on the same path. -/
theorem onPath (h : e.Like L e') (path : Trail) : (e.onPath path).Like L (e'.onPath path) :=
  ⟨h.routine, h.findings, rfl, h.fresh⟩

theorem endRead (h : e.Like L e') : e.endRead.Like L e'.endRead :=
  ⟨h.routine, h.findings, h.path, rfl⟩

/-- The empty line ahead of a return. -/
theorem space (h : e.Like L e') :
    (if e.routine.blocks.isEmpty Arena.root then e else e.emit Arena.root .blank).Like L
      (if e'.routine.blocks.isEmpty Arena.root then e' else e'.emit Arena.root .blank) := by
  -- an empty line finds nothing, so it is the routine alone that may get one
  have hspaced : ∀ e : Emission,
      (if e.routine.blocks.isEmpty Arena.root then e else e.emit Arena.root .blank)
        = { e with
            routine :=
              if e.routine.blocks.isEmpty Arena.root then e.routine
              else { e.routine with blocks := e.routine.blocks.line Arena.root .blank } } := by
    intro e
    split
    · rfl
    · rfl
  rw [hspaced, hspaced]
  exact ⟨L.space h.routine, h.findings, h.path, h.fresh⟩

/-- A list of steps that are alike, taken one after the other, is alike. -/
theorem foldl {α : Type} {f f' : Emission → α → Emission}
    (hf : ∀ a e e', e.Like L e' → (f e a).Like L (f' e' a)) (as : List α) (h : e.Like L e') :
    (as.foldl f e).Like L (as.foldl f' e') := by
  induction as generalizing e e' with
  | nil => exact h
  | cons a as ih => exact ih (hf a e e' h)

end Emission.Like

/-! ## Going on -/

/-- **Both spread into the same branches**, each in a block of the same number. -/
theorem like_spread (h : e.Like L e') (block : Nat) (connections : List Connection) :
    LikeWith L (spread block connections e) (spread block connections e') := by
  induction connections generalizing e e' with
  | nil => exact ⟨rfl, h⟩
  | cons c rest ih =>
      have hchild := h.reserve .inline block
      have hrest := ih hchild.emission
      refine ⟨?_, hrest.emission⟩
      show ⟨c.target.node, (e'.reserve .inline block).1⟩
        :: (spread block rest (e'.reserve .inline block).2).1 = _
      rw [hchild.result, hrest.result]
      rfl

/-- Both go on with the same jobs. -/
theorem like_goOn (h : e.Like L e') (block : Nat) (connections : List Connection) :
    LikeWith L (goOn block connections e) (goOn block connections e') := by
  rw [goOn.eq_def, goOn.eq_def]
  split
  · exact ⟨rfl, h⟩
  · exact like_spread h block _

/-- Both start the same tasks, under the same names. -/
theorem like_startTasks (h : e.Like L e') (stem : String) (block k : Nat)
    (connections : List Connection) :
    (startTasks stem block k connections e').1 = (startTasks stem block k connections e).1
      ∧ LikeWith L (startTasks stem block k connections e).2
        (startTasks stem block k connections e').2 := by
  induction connections generalizing k e e' with
  | nil => exact ⟨rfl, rfl, h⟩
  | cons c rest ih =>
      have hname := h.newLocal (stem ++ Nat.repr k)
      have hopen := (hname.emission.emit block
        (.openTask (e.newLocal (stem ++ Nat.repr k)).1)).reserve .nested block
      obtain ⟨hnames, hrest⟩ := ih (hopen.emission.emit block .closeTask) (k + 1)
      rw [startTasks, startTasks]
      dsimp only
      rw [hname.result, hopen.result, hnames, hrest.result]
      exact ⟨rfl, rfl, hrest.emission⟩

/-- Two ways to go on, one after the other. -/
theorem LikeWith.append {v v' w w' : Visited} (hv : LikeWith L v v') (hw : LikeWith L w w') :
    LikeWith L (v.1 ++ w.1, w.2) (v'.1 ++ w'.1, w'.2) := by
  refine ⟨?_, hw.emission⟩
  show v'.1 ++ w'.1 = v.1 ++ w.1
  rw [hv.result, hw.result]

/-- A walk goes on from both with the same jobs at the same place. -/
theorem LikeWith.steps {v v' : Visited} (h : LikeWith L v v') :
    Visited.steps v' = Visited.steps v := by
  rw [Visited.steps, Visited.steps, h.result, h.emission.path]

end Writing

/-! ## Contexts -/

/-- A map of nodes that keeps all that a compilation looks at. -/
structure Node.Faithful (φ : Node → Node) : Prop where
  id : ∀ n, (φ n).id = n.id
  definitionId : ∀ n, (φ n).definitionId = n.definitionId
  inputs : ∀ n, (φ n).inputs = n.inputs

/-- Nodes left as they are keep everything. -/
theorem Node.faithful_self : Node.Faithful fun n => n := ⟨fun _ => rfl, fun _ => rfl, fun _ => rfl⟩

namespace Node.Faithful

variable {φ : Node → Node}

/-- The literals of a node stay. -/
theorem literal? (h : Faithful φ) (n : Node) (param : String) :
    (φ n).literal? param = n.literal? param := by
  rw [Node.literal?, Node.literal?, h.inputs]

/-- A setting is a literal of the node or a default of its definition. -/
theorem setting? (h : Faithful φ) (n : Node) (d : Definition) (param : String) :
    (φ n).setting? d param = n.setting? d param := by
  rw [Node.setting?, Node.setting?, h.literal?]

/-- A parameter takes its name from a setting of its node. -/
theorem parameterName (h : Faithful φ) (n : Node) (d : Definition) :
    (φ n).parameterName d = n.parameterName d := by
  rw [Node.parameterName, Node.parameterName, h.setting?]

theorem parameterType (h : Faithful φ) (n : Node) (d : Definition) :
    (φ n).parameterType d = n.parameterType d := by
  rw [Node.parameterType, Node.parameterType, h.setting?]

theorem numericSuffix? (h : Faithful φ) (n : Node) : (φ n).numericSuffix? = n.numericSuffix? := by
  rw [Node.numericSuffix?, Node.numericSuffix?, h.id]

/-- What a print node prints by itself is a literal of it. -/
theorem printedLiteral (h : Faithful φ) (n : Node) : printedLiteral (φ n) = printedLiteral n := by
  rw [Blueprints.printedLiteral, Blueprints.printedLiteral, h.literal?, h.literal?]

end Node.Faithful

/-- Control leaves a node in the same ways. -/
structure Context.SameWays (ctx ctx' : Context) (n : Node) (d : Definition) : Prop where
  leaving : ctx'.index.execLeaving n d = ctx.index.execLeaving n d
  outgoing : ∀ p ∈ d.execOutputs,
    ctx'.index.outgoing ⟨n.id, p.id⟩ = ctx.index.outgoing ⟨n.id, p.id⟩

section Contexts

variable {L : Likeness} {ctx ctx' : Context} {e e' : Emission} {n n' : Node}

/-- The comment ahead of a node, where comments are wanted in both contexts or
    in neither. -/
theorem Emission.Like.announce (he : e.Like L e')
    (hcomments : ctx'.options.nodeComments = ctx.options.nodeComments) (hid : n'.id = n.id)
    (d : Definition) (kind : NodeKind) (block : Nat) :
    (e.announce ctx n d kind block).Like L (e'.announce ctx' n' d kind block) := by
  rw [Emission.announce, Emission.announce, hcomments, hid]
  split
  · exact he.emit block _
  · exact he

/-- The report about the connections at an input, where they are the same. -/
theorem Emission.Like.reportFanIn (he : e.Like L e') (hid : n'.id = n.id) {param : String}
    (hincoming : ctx'.index.incoming ⟨n.id, param⟩ = ctx.index.incoming ⟨n.id, param⟩) :
    (e.reportFanIn ctx n param).Like L (e'.reportFanIn ctx' n' param) := by
  rw [Emission.reportFanIn, Emission.reportFanIn, hid, hincoming]
  split
  · exact he.report ..
  · exact he

end Contexts

/-- Two contexts in which a compilation looks up the same, the nodes of one
    for those of the other.  What it writes only if comments are wanted, and
    what it reports about the connections at an input, may differ as far as it
    is alike. -/
structure Context.Corresponds (L : Likeness) (φ : Node → Node) (ctx ctx' : Context) : Prop where
  faithful : Node.Faithful φ
  nodes : ctx'.blueprint.nodes = ctx.blueprint.nodes.map φ
  kind : ctx'.blueprint.kind = ctx.blueprint.kind
  definition? : ∀ n ∈ ctx.blueprint.nodes, ctx'.definition? (φ n) = ctx.definition? n
  names : ctx'.names = ctx.names
  node? : ∀ id, ctx'.index.node? id = (ctx.index.node? id).map φ
  found : ∀ id n, ctx.index.node? id = some n → n ∈ ctx.blueprint.nodes
  feeding? : ∀ e, ctx'.index.feeding? e = ctx.index.feeding? e
  isReader : ∀ id, ctx'.isReader id = ctx.isReader id
  ways : ∀ n ∈ ctx.blueprint.nodes, ∀ d, ctx.definition? n = some d → ctx.SameWays ctx' n d
  announce : ∀ {e e' : Emission} (n : Node) (d : Definition) (kind : NodeKind) (block : Nat),
    e.Like L e' → (e.announce ctx n d kind block).Like L (e'.announce ctx' (φ n) d kind block)
  fanIn : ∀ {e e' : Emission} (n : Node) (param : String), e.Like L e' →
    (e.reportFanIn ctx n param).Like L (e'.reportFanIn ctx' (φ n) param)

/-- Options have a say in the comments ahead of nodes alone. -/
theorem Context.corresponds_of_announce {L : Likeness} (b : Blueprint) (catalog : Catalog)
    {options options' : Options}
    (hannounce : ∀ {e e' : Emission} (n : Node) (d : Definition) (kind : NodeKind) (block : Nat),
      e.Like L e' → (e.announce (.of b catalog options) n d kind block).Like L
        (e'.announce (.of b catalog options') n d kind block)) :
    (Context.of b catalog options).Corresponds L (fun n => n) (.of b catalog options') where
  faithful := Node.faithful_self
  nodes := (List.map_id' b.nodes).symm
  kind := rfl
  definition? := fun _ _ => rfl
  names := rfl
  node? := fun _ => Option.map_id'.symm
  found := fun _ _ hn => Index.mem_of_node?_build hn
  feeding? := fun _ => rfl
  isReader := fun _ => rfl
  ways := fun _ _ _ _ => ⟨rfl, fun _ _ => rfl⟩
  announce := hannounce
  fanIn := fun _ _ he => he.reportFanIn rfl rfl

/-- Where comments are wanted with both options or with neither, whatever is
    alike at the start stays alike. -/
theorem Context.corresponds_of_nodeComments (L : Likeness) (b : Blueprint) (catalog : Catalog)
    (options options' : Options) (h : options'.nodeComments = options.nodeComments) :
    (Context.of b catalog options).Corresponds L (fun n => n) (.of b catalog options') :=
  corresponds_of_announce b catalog fun _ d kind block he => he.announce h rfl d kind block

namespace Context.Corresponds

variable {L : Likeness} {φ : Node → Node} {ctx ctx' : Context} {e e' : Emission} {n : Node}
  {d : Definition}

/-! ### Look-ups -/

/-- Both see nodes of the same kind. -/
theorem kind? (h : ctx.Corresponds L φ ctx') (hn : n ∈ ctx.blueprint.nodes) :
    ctx'.catalog.kind? (φ n) = ctx.catalog.kind? n := by
  have hd : ctx'.catalog.find? (φ n).definitionId = ctx.catalog.find? n.definitionId :=
    h.definition? n hn
  rw [Catalog.kind?, Catalog.kind?, hd]

/-- Nodes that are chosen by the same test correspond, in the same order. -/
theorem filter_nodes (h : ctx.Corresponds L φ ctx') {p p' : Node → Bool}
    (hp : ∀ n ∈ ctx.blueprint.nodes, p' (φ n) = p n) :
    ctx'.blueprint.nodes.filter p' = (ctx.blueprint.nodes.filter p).map φ := by
  rw [h.nodes, List.filter_map]
  congr 1
  exact List.filter_congr hp

theorem nodesOfKind (h : ctx.Corresponds L φ ctx') (kind : NodeKind) :
    ctx'.nodesOfKind kind = (ctx.nodesOfKind kind).map φ := by
  refine h.filter_nodes ?_
  intro n hn
  rw [h.kind? hn]

/-- A node is pure in both or in neither. -/
theorem isPure (h : ctx.Corresponds L φ ctx') (id : String) :
    ctx'.index.isPure ctx'.catalog id = ctx.index.isPure ctx.catalog id := by
  rw [Index.isPure, Index.isPure, h.node?]
  cases hn : ctx.index.node? id with
  | none => rfl
  | some n =>
      show ctx'.catalog.isPure (φ n) = ctx.catalog.isPure n
      rw [Catalog.isPure, Catalog.isPure, h.kind? (h.found id n hn)]

/-- **An input takes its value from the same place in both.** -/
theorem source (h : ctx.Corresponds L φ ctx') (hn : n ∈ ctx.blueprint.nodes) (param : String) :
    ctx'.source (φ n) param = ctx.source n param := by
  rw [Context.source, Context.source, Source.resolve, Source.resolve, h.faithful.id, h.feeding?,
    h.names]
  cases ctx.index.feeding? ⟨n.id, param⟩ with
  | none =>
      have hd : ctx'.catalog.find? (φ n).definitionId = ctx.catalog.find? n.definitionId :=
        h.definition? n hn
      dsimp only
      rw [Source.unconnected, Source.unconnected, hd, h.faithful.literal?]
  | some c =>
      dsimp only
      rw [Source.connected, Source.connected, h.node?]
      cases hproducer : ctx.index.node? c.source.node with
      | none => rfl
      | some producer =>
          have hd : ctx'.catalog.find? (φ producer).definitionId
              = ctx.catalog.find? producer.definitionId :=
            h.definition? producer (h.found _ producer hproducer)
          dsimp only [Option.map_some]
          rw [hd, h.faithful.id]
          simp only [h.faithful.parameterName, h.faithful.parameterType]

/-- A node's variable is looked up by what a faithful map keeps. -/
theorem variableOf (h : ctx.Corresponds L φ ctx') (n : Node) (d : Definition) :
    ctx'.variableOf (φ n) d = ctx.variableOf n d := by
  rw [Context.variableOf, Context.variableOf, h.kind, h.faithful.setting?]

/-- Both build the same expression for a pure node. -/
theorem expr (h : ctx.Corresponds L φ ctx') (kind : PureKind) (n : Node) (d : Definition)
    (operand : String → Operand) :
    kind.expr ctx' (φ n) d operand = kind.expr ctx n d operand := by
  have hconstant : ∀ kind, PureKind.constantValue kind (φ n) = PureKind.constantValue kind n := by
    intro kind
    rw [PureKind.constantValue.eq_def, PureKind.constantValue.eq_def, h.faithful.literal?]
  rw [PureKind.expr.eq_def, PureKind.expr.eq_def, h.variableOf]
  simp only [hconstant]

/-- Both give a node's result the same name and type. -/
theorem result? (h : ctx.Corresponds L φ ctx') (n : Node) (d : Definition) :
    ctx'.result? (φ n) d = ctx.result? n d := by
  rw [Context.result?, Context.result?, h.names, h.faithful.id]

/-- An input is connected in both or in neither. -/
theorem isConnected (h : ctx.Corresponds L φ ctx') (n : Node) (param : String) :
    ctx'.isConnected (φ n) param = ctx.isConnected n param := by
  rw [Context.isConnected, Context.isConnected, h.feeding?, h.faithful.id]

/-- Both read the same inputs ahead of a visit. -/
theorem slots (h : ctx.Corresponds L φ ctx') (n : Node) (kind : NodeKind) :
    kind.slots ctx' (φ n) = kind.slots ctx n := by
  rw [NodeKind.slots.eq_def, NodeKind.slots.eq_def, h.isConnected]

theorem loopIndex (h : ctx.Corresponds L φ ctx') (n : Node) :
    loopIndex ctx' (φ n) = loopIndex ctx n := by
  rw [Blueprints.loopIndex, Blueprints.loopIndex, h.names, h.faithful.id,
    h.faithful.numericSuffix?]

/-- **Both compute the same nodes ahead of a node.** -/
theorem pureDependencies (h : ctx.Corresponds L φ ctx') (hn : n ∈ ctx.blueprint.nodes) :
    ctx'.pureDependencies (φ n) = ctx.pureDependencies n := by
  have hpure : ctx'.index.isPure ctx'.catalog = ctx.index.isPure ctx.catalog := funext h.isPure
  rw [Context.pureDependencies, Context.pureDependencies, h.definition? n hn, hpure]
  cases ctx.definition? n with
  | none => rfl
  | some d => simp only [h.feeding?, h.faithful.id]

/-- A value is up to date in both or in neither. -/
theorem isCurrent (h : ctx.Corresponds L φ ctx') (he : e.Like L e') (id : String) :
    e'.isCurrent ctx' id = e.isCurrent ctx id := by
  rw [Emission.isCurrent, Emission.isCurrent, h.isReader, he.path, he.fresh]

/-- Both settle a node by the same marks on the path. -/
theorem settle (h : ctx.Corresponds L φ ctx') (he : e.Like L e') (id : String) :
    (e.settle ctx id).Like L (e'.settle ctx' id) := by
  rw [Emission.settle, Emission.settle, h.isReader, he.path, he.fresh]
  split
  · exact ⟨he.routine, he.findings, rfl, rfl⟩
  · exact ⟨he.routine, he.findings, rfl, rfl⟩

/-- Both report a connection that brings no value in the same words. -/
theorem reportNoValue (h : ctx.Corresponds L φ ctx') (he : e.Like L e') (n : Node)
    (param : String) :
    (e.reportNoValue ctx n param).Like L (e'.reportNoValue ctx' (φ n) param) := by
  rw [Emission.reportNoValue, Emission.reportNoValue, h.feeding?, h.faithful.id]
  split
  · exact he.report ..
  · exact he

end Context.Corresponds

/-! ## Reading and computing -/

section Reading

variable {L : Likeness} {φ : Node → Node} {ctx ctx' : Context} {e e' : Emission} {n : Node}
  {computing computing' : String → Emission → Emission}

/-- Two ways to compute that leave emissions alike. -/
def LikeBy (L : Likeness) (computing computing' : String → Emission → Emission) : Prop :=
  ∀ id e e', e.Like L e' → (computing id e).Like L (computing' id e')

/-- Both read the same operand from an input, if both compute alike. -/
theorem like_readWith (h : ctx.Corresponds L φ ctx') (hcomputing : LikeBy L computing computing')
    (active : List String) (hn : n ∈ ctx.blueprint.nodes) (param : String) (he : e.Like L e') :
    LikeWith L (readWith ctx computing active n param e)
      (readWith ctx' computing' active (φ n) param e') := by
  have hfan := h.fanIn n param he
  rw [readWith, readWith, h.source hn]
  cases ctx.source n param with
  | literal v kind => exact ⟨rfl, hfan⟩
  | parameter name type => exact ⟨rfl, hfan⟩
  | undefined => exact ⟨rfl, h.reportNoValue hfan n param⟩
  | temporary name output kind =>
      -- both compute the value or neither does, since what is current is the same
      have hdeclare := hfan.declare name kind.typeName
      dsimp only
      rw [h.isPure, h.isCurrent hdeclare]
      split
      · exact ⟨rfl, hcomputing _ _ _ hdeclare⟩
      · exact ⟨rfl, hdeclare⟩

/-- Both read the same operands from several inputs. -/
theorem like_readAllWith (h : ctx.Corresponds L φ ctx')
    (hcomputing : LikeBy L computing computing') (active : List String)
    (hn : n ∈ ctx.blueprint.nodes) (params : List String) (he : e.Like L e') :
    LikeWith L (readAllWith ctx computing active n params e)
      (readAllWith ctx' computing' active (φ n) params e') := by
  induction params generalizing e e' with
  | nil => exact ⟨rfl, he⟩
  | cons param rest ih =>
      have hfirst := like_readWith h hcomputing active hn param he
      have hrest := ih hfirst.emission
      rw [readAllWith, readAllWith]
      dsimp only
      rw [hfirst.result, hrest.result]
      exact ⟨rfl, hrest.emission⟩

/-- Both assign the same expression to the same name. -/
theorem like_assignWith (h : ctx.Corresponds L φ ctx')
    (hcomputing : LikeBy L computing computing') (active : List String)
    (hn : n ∈ ctx.blueprint.nodes) (block : Nat) (he : e.Like L e') :
    (assignWith ctx computing active n block e).Like L
      (assignWith ctx' computing' active (φ n) block e') := by
  rw [assignWith, assignWith, h.definition? n hn]
  cases ctx.definition? n with
  | none => exact he
  | some d =>
      dsimp only
      rw [h.result?]
      cases NodeKind.ofDefinition? d.id with
      | none => exact he
      | some kind =>
          cases kind with
          | pure kind =>
              cases ctx.result? n d with
              | none => exact he
              | some result =>
                  obtain ⟨name, type⟩ := result
                  have hread := like_readAllWith h hcomputing active hn kind.slots he
                  dsimp only
                  rw [hread.result, h.expr]
                  exact (hread.emission.declare name type).emit block _
          | _ => exact he

/-- **Pure nodes are computed alike**, by induction on the number of nodes that
    are not being computed yet. -/
theorem like_compute (h : ctx.Corresponds L φ ctx') (block : Nat) (active : List String)
    (id : String) {e e' : Emission} (he : e.Like L e') :
    (compute ctx block active id e).Like L (compute ctx' block active id e') := by
  rw [compute.eq_def ctx, compute.eq_def ctx', h.isCurrent he]
  by_cases hcur : e.isCurrent ctx id = true
  · rw [if_pos hcur, if_pos hcur]
    exact he
  · rw [if_neg hcur, if_neg hcur]
    by_cases hidle : id ∈ active
    · rw [dif_pos hidle, dif_pos hidle]
      exact he.report ..
    · rw [dif_neg hidle, dif_neg hidle]
      cases hn : ctx.index.node? id with
      | none =>
          rw [h.node?, hn]
          exact he
      | some n =>
          rw [h.node?, hn]
          -- one node more is being computed, which is what the recursion goes down on
          have hsmaller : (unlisted ctx.index.nodeIds (id :: active)).length
              < (unlisted ctx.index.nodeIds active).length :=
            length_unlisted_lt (fun _ h => List.mem_cons_of_mem _ h)
              (Index.mem_nodeIds_of_node? hn) hidle (List.mem_cons_self ..)
          have hmem := h.found id n hn
          have hrecursion : LikeBy L (compute ctx block (id :: active))
              (compute ctx' block (id :: active)) :=
            fun id' e e' he => like_compute h block (id :: active) id' he
          have hfirst := he.foldl (fun id' e e' he => hrecursion id' e e' he)
            (ctx.pureDependencies n)
          dsimp only [Option.map_some]
          rw [h.pureDependencies hmem]
          exact h.settle (like_assignWith h hrecursion (id :: active) hmem block hfirst) id
termination_by (unlisted ctx.index.nodeIds active).length

/-- Computing a node with no other on the way is alike too, and ends the read in
    both. -/
theorem like_computeOnce (h : ctx.Corresponds L φ ctx') (block : Nat) :
    LikeBy L (computeOnce ctx block) (computeOnce ctx' block) :=
  fun id _ _ he => (like_compute h block [] id he).endRead

end Reading

/-! ## Visits -/

section Visits

variable {L : Likeness} {φ : Node → Node} {ctx ctx' : Context} {e e' : Emission} {n : Node}
  {d : Definition}

/-- Both follow all ways out of a node. -/
theorem like_follow (h : ctx.Corresponds L φ ctx') (hways : ctx.SameWays ctx' n d)
    (he : e.Like L e') (block : Nat) :
    LikeWith L (follow ctx n d block e) (follow ctx' (φ n) d block e') := by
  have hleaving : ctx'.index.execLeaving (φ n) d = ctx.index.execLeaving n d := by
    rw [← hways.leaving, Index.execLeaving, Index.execLeaving, h.faithful.id]
  rw [follow, follow, hleaving]
  exact like_goOn he block _

/-- Both follow the way out of a node that its definition lists at the same
    place. -/
theorem like_goOnBy (h : ctx.Corresponds L φ ctx') (hways : ctx.SameWays ctx' n d)
    (he : e.Like L e') (block i : Nat) :
    LikeWith L (goOnBy ctx n d.execOutputs[i]? block e)
      (goOnBy ctx' (φ n) d.execOutputs[i]? block e') := by
  cases hp : d.execOutputs[i]? with
  | none => exact ⟨rfl, he⟩
  | some p =>
      rw [goOnBy, goOnBy, h.faithful.id, hways.outgoing p (List.mem_of_getElem? hp)]
      exact like_goOn he block _

/-- Both find the same branches new. -/
theorem like_newBranches (h : ctx.Corresponds L φ ctx') (hways : ctx.SameWays ctx' n d)
    (he : e.Like L e') : newBranches ctx' (φ n) d e' = newBranches ctx n d e := by
  have hout : (d.execOutputs.flatMap fun p => ctx'.index.outgoing ⟨n.id, p.id⟩)
      = d.execOutputs.flatMap fun p => ctx.index.outgoing ⟨n.id, p.id⟩ :=
    List.flatMap_congr hways.outgoing
  rw [newBranches, newBranches, h.faithful.id, hout, he.path]

/-- Both write the same tasks and wait for the same ones. -/
theorem like_visitParallel (h : ctx.Corresponds L φ ctx') (hways : ctx.SameWays ctx' n d)
    (he : e.Like L e') (block : Nat) :
    LikeWith L (visitParallel ctx n d block e) (visitParallel ctx' (φ n) d block e') := by
  rw [visitParallel, visitParallel, like_newBranches h hways he, h.faithful.numericSuffix?]
  cases newBranches ctx n d e with
  | nil => exact ⟨rfl, he⟩
  | cons c rest =>
      obtain ⟨hnames, htasks⟩ := like_startTasks he.setAsync
        ("task_" ++ n.numericSuffix?.getD "0" ++ "_") block 1 (c :: rest)
      dsimp only
      rw [hnames, htasks.result]
      exact ⟨rfl, htasks.emission.emit block _⟩

/-- Both ask for the same condition and fill the same two branches. -/
theorem like_visitBranch (h : ctx.Corresponds L φ ctx') (hways : ctx.SameWays ctx' n d)
    (condition : Operand) (he : e.Like L e') (block : Nat) :
    LikeWith L (visitBranch ctx n d condition block e)
      (visitBranch ctx' (φ n) d condition block e') := by
  have hyes := (he.emit block (.openIf condition)).reserve .nested block
  have hno := hyes.emission.reserve .otherwise block
  have hfirst := like_goOnBy h hways (hno.emission.emit block .close)
    ((e.emit block (.openIf condition)).reserve .nested block).1 0
  have hsecond := like_goOnBy h hways hfirst.emission
    (((e.emit block (.openIf condition)).reserve .nested block).2.reserve .otherwise block).1 1
  rw [visitBranch, visitBranch]
  dsimp only
  rw [hyes.result, hno.result]
  exact hfirst.append hsecond

/-- Both count with the same index, and go on by the body and then by what follows
    it. -/
theorem like_visitLoop (h : ctx.Corresponds L φ ctx') (hways : ctx.SameWays ctx' n d)
    (count : Operand) (he : e.Like L e') (block : Nat) :
    LikeWith L (visitLoop ctx n d count block e) (visitLoop ctx' (φ n) d count block e') := by
  have hbody := ((he.declare (loopIndex ctx n) "number").emit block
    (.openFor (loopIndex ctx n) count)).reserve .nested block
  have hfirst := like_goOnBy h hways (hbody.emission.emit block .close)
    (((e.declare (loopIndex ctx n) "number").emit block
      (.openFor (loopIndex ctx n) count)).reserve .nested block).1 0
  have hsecond := like_goOnBy h hways hfirst.emission block 1
  rw [visitLoop, visitLoop, h.loopIndex]
  dsimp only
  rw [hbody.result]
  exact hfirst.append hsecond

/-- Both write the same cases in the same order. By induction on the outputs that
    are left. -/
theorem like_writeCases (h : ctx.Corresponds L φ ctx') (hways : ctx.SameWays ctx' n d)
    (cases : Nat) {outputs : List Param} (houtputs : ∀ p ∈ outputs, p ∈ d.execOutputs)
    (he : e.Like L e') :
    LikeWith L (writeCases ctx n cases outputs e) (writeCases ctx' (φ n) cases outputs e') := by
  induction outputs generalizing e e' with
  | nil => exact ⟨rfl, he⟩
  | cons p rest ih =>
      have hrest : ∀ p' ∈ rest, p' ∈ d.execOutputs :=
        fun p' hp' => houtputs p' (List.mem_cons_of_mem _ hp')
      rw [writeCases, writeCases, h.faithful.id,
        hways.outgoing p (houtputs p (List.mem_cons_self ..))]
      cases ctx.index.outgoing ⟨n.id, p.id⟩ with
      | nil => exact ih hrest he
      | cons c more =>
          have hcase := (he.emit cases (.openCase (.ofOutput p.id))).reserve .nested cases
          have hbody := hcase.emission.reserve .inline
            ((e.emit cases (.openCase (.ofOutput p.id))).reserve .nested cases).1
          have hleft := (hbody.emission.emit
            ((e.emit cases (.openCase (.ofOutput p.id))).reserve .nested cases).1
            .leaveCase).emit cases .close
          have hfirst := like_goOn hleft
            (((e.emit cases (.openCase (.ofOutput p.id))).reserve .nested cases).2.reserve .inline
              ((e.emit cases (.openCase (.ofOutput p.id))).reserve .nested cases).1).1 (c :: more)
          dsimp only
          rw [hcase.result, hbody.result]
          exact hfirst.append (ih hrest hfirst.emission)

/-- Both choose by the same operand between the same cases. -/
theorem like_visitSwitch (h : ctx.Corresponds L φ ctx') (hways : ctx.SameWays ctx' n d)
    (value : Operand) (he : e.Like L e') (block : Nat) :
    LikeWith L (visitSwitch ctx n d value block e) (visitSwitch ctx' (φ n) d value block e') := by
  have hcases := (he.emit block (.openSwitch value)).reserve .nested block
  rw [visitSwitch, visitSwitch]
  dsimp only
  rw [hcases.result]
  exact like_writeCases h hways _ (fun p hp => hp) (hcases.emission.emit block .close)

/-- **Both visit a node of any kind alike.** -/
theorem like_visitKind (h : ctx.Corresponds L φ ctx') (hn : n ∈ ctx.blueprint.nodes)
    (hways : ctx.SameWays ctx' n d) (kind : NodeKind) (operand : String → Operand)
    (he : e.Like L e') (block : Nat) :
    LikeWith L (visitKind ctx n d kind operand block e)
      (visitKind ctx' (φ n) d kind operand block e') := by
  cases kind with
  | functionStart => exact like_follow h hways he block
  | lifecycle hook => exact like_follow h hways he block
  | functionParameter => exact ⟨rfl, he⟩
  | finish => exact ⟨rfl, he⟩
  | functionReturn =>
      rw [visitKind, visitKind, h.faithful.id]
      exact ⟨rfl, he.noteReturn n.id⟩
  | print =>
      rw [visitKind, visitKind, h.isConnected, h.faithful.printedLiteral]
      exact like_follow h hways (he.emit block _) block
  | debugLog => exact like_follow h hways (he.emit block _) block
  | delay => exact like_follow h hways (he.setAsync.emit block _) block
  | setVariable =>
      rw [visitKind, visitKind, h.variableOf]
      exact like_follow h hways (he.emit block _) block
  | debugBreak => exact like_follow h hways (he.emit block _) block
  | debugWatch => exact like_follow h hways (he.emit block _) block
  | pure k =>
      exact like_follow h hways (like_assignWith h (like_computeOnce h block) [] hn block he) block
  | sequence =>
      rw [visitKind, visitKind, like_newBranches h hways he]
      exact like_spread he block _
  | parallel => exact like_visitParallel h hways he block
  | branch => exact like_visitBranch h hways (operand "condition") he block
  | forLoop => exact like_visitLoop h hways (operand "count") he block
  | switch => exact like_visitSwitch h hways (operand "value") he block

/-- **Nodes are visited alike**, and control goes on by the same exits. -/
theorem like_visit (h : ctx.Corresponds L φ ctx') (hn : n ∈ ctx.blueprint.nodes) (block : Nat)
    (he : e.Like L e') : LikeWith L (visit ctx n block e) (visit ctx' (φ n) block e') := by
  rw [visit, visit, h.definition? n hn, h.faithful.id, h.faithful.definitionId]
  cases hd : ctx.definition? n with
  | none => exact ⟨rfl, (he.report ..).emit block _⟩
  | some d =>
      have hways := h.ways n hn d hd
      dsimp only
      cases NodeKind.ofDefinition? d.id with
      | none => exact like_follow h hways ((he.report ..).emit block _) block
      | some kind =>
          have hread := like_readAllWith h (like_computeOnce h block) [] hn (kind.slots ctx n)
            (h.announce n d kind block he)
          dsimp only
          rw [readInputs, readInputs, h.slots, hread.result]
          exact like_visitKind h hn hways kind _ hread.emission block

/-- **Walks go alike**, from the same steps. -/
theorem like_walk (h : ctx.Corresponds L φ ctx') (stack : List Step) (he : e.Like L e') :
    (walk ctx stack e).Like L (walk ctx' stack e') := by
  fun_induction walk ctx stack e generalizing e' with
  | case1 e =>
      rw [walk]
      exact he
  | case2 e step rest hdone ih =>
      rw [walk_cons_of_done (Or.inl hdone)]
      exact ih he
  | case3 e step rest hnew hnone ih =>
      have hnone' : ctx'.index.node? step.node = none := by
        rw [h.node?, hnone]
        rfl
      rw [walk_cons_of_done (Or.inr hnone')]
      exact ih he
  | case4 e step rest hnew n hn visited =>
      rename_i ih
      -- the visit leads to the same steps, so the stacks stay the same
      have hn' : ctx'.index.node? step.node = some (φ n) := by
        rw [h.node?, hn]
        rfl
      have hvisit := like_visit h (h.found _ n hn) step.block
        (he.onPath (step.path.extend step.node))
      rw [walk_cons_of_new hnew hn', hvisit.steps]
      exact ih hvisit.emission

/-- **Routines are written alike.** -/
theorem like_writeRoutine (h : ctx.Corresponds L φ ctx') {f f' : Findings} (hf : L.findings f f')
    (entries : List Node) :
    (writeRoutine ctx entries f).Like L (writeRoutine ctx' (entries.map φ) f') := by
  have htargets : (entries.map φ).map leadingTo = entries.map leadingTo := by
    rw [List.map_map]
    refine List.map_congr_left fun n _ => ?_
    show leadingTo (φ n) = leadingTo n
    rw [leadingTo, leadingTo, h.faithful.id]
  have hspread := like_spread (Emission.Like.start hf) Arena.root (entries.map leadingTo)
  rw [writeRoutine, writeRoutine, entrySteps_eq, entrySteps_eq, htargets]
  dsimp only
  rw [hspread.result]
  exact like_walk h _ hspread.emission

end Visits

end Blueprints
