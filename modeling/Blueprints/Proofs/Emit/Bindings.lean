import Blueprints.Proofs.Emit.Lines
import Blueprints.Proofs.Wiring.NameParts

/-! # The names that a run binds

    While a routine is written, temporaries are declared, variables are used
    and tasks are opened.  The temporaries and the variables of a run are those
    of the jobs that it comes to (`Writing.binds_outcome_iff`).  A task is
    opened under a name that no task has, so no two places open a task of one
    name (`Writing.tasksApart_outcome`). -/

namespace Blueprints

/-- The name of the variable that a node reads or assigns, as it is given. -/
def Node.variableName (n : Node) (d : Definition) : String :=
  (n.setting? d "name").getD "variable"

/-- A temporary that is declared, or a variable that is used. -/
inductive Binding where
  | declared (name : String)
  | used (name : String)

namespace Emission

/-- A name has been declared or used. -/
def Binds (e : Emission) : Binding → Prop
  | .declared name => name ∈ e.routine.declared
  | .used name => name ∈ e.findings.variableNames

/-- A task is opened at a place. -/
def Opened (e : Emission) (x i : Nat) (name : String) : Prop :=
  (e.blocks.body x)[i]? = some (.line (.openTask name))

/-- Tasks are opened under local names of their own. -/
structure TasksApart (e : Emission) : Prop where
  mem : ∀ {x i name}, e.Opened x i name → name ∈ e.routine.locals
  unique : ∀ {x i y j name}, e.Opened x i name → e.Opened y j name → x = y ∧ i = j
  named : ∀ name ∈ e.routine.locals, Text.MadeUp .task name

/-- What is bound is added, and tasks are kept apart. -/
structure Adds (bs : List Binding) (e e' : Emission) : Prop where
  binds : ∀ x, e'.Binds x ↔ e.Binds x ∨ x ∈ bs
  tasks : e.TasksApart → e'.TasksApart

end Emission

/-! ## Writing -/

section Writing

open Emission

variable {e e' e'' : Emission} {bs bs' : List Binding}

theorem Emission.Adds.refl (e : Emission) : e.Adds [] e :=
  ⟨fun _ => (or_iff_left List.not_mem_nil).symm, id⟩

/-- What is added in two goes is added in all. -/
theorem Emission.Adds.trans (h : e.Adds bs e') (h' : e'.Adds bs' e'') :
    e.Adds (bs ++ bs') e'' := by
  refine ⟨?_, h'.tasks ∘ h.tasks⟩
  intro x
  rw [h'.binds, h.binds, List.mem_append, or_assoc]

/-- No task is opened and no local name is bound. -/
theorem Emission.TasksApart.mono (h : e.TasksApart)
    (hopened : ∀ {x i name}, e'.Opened x i name → e.Opened x i name)
    (hlocals : e'.routine.locals = e.routine.locals) : e'.TasksApart := by
  constructor
  · intro x i name hx
    rw [hlocals]
    exact h.mem (hopened hx)
  · intro x i y j name hx hy
    exact h.unique (hopened hx) (hopened hy)
  · rw [hlocals]
    exact h.named

/-- What else is noted does not matter. -/
theorem adds_of_same (hroutine : e'.routine.declared = e.routine.declared)
    (hfindings : e'.findings.variableNames = e.findings.variableNames)
    (hblocks : e'.blocks = e.blocks) (hlocals : e'.routine.locals = e.routine.locals) :
    e.Adds [] e' := by
  constructor
  · intro x
    rw [or_iff_left List.not_mem_nil]
    cases x with
    | declared name =>
        show name ∈ e'.routine.declared ↔ name ∈ e.routine.declared
        rw [hroutine]
    | used name =>
        show name ∈ e'.findings.variableNames ↔ name ∈ e.findings.variableNames
        rw [hfindings]
  · intro h
    refine h.mono ?_ hlocals
    intro x i name hx
    rw [Opened, hblocks] at hx
    exact hx

/-- A text is in the list that it was added to, with those that were there. -/
theorem mem_insertOrdered {s t : String} {names : List String} :
    t ∈ insertOrdered s names ↔ t = s ∨ t ∈ names := by
  induction names with
  | nil => simp [insertOrdered]
  | cons name rest ih =>
      rw [insertOrdered]
      split
      · exact List.mem_cons
      · split
        · next heq =>
          obtain rfl := beq_iff_eq.1 heq
          simp
        · rw [List.mem_cons, ih, List.mem_cons]
          tauto

/-- A statement adds the variables that it uses to those of the unit, and no
    others. -/
theorem mem_variableNames_note {f : Findings} {s : Statement} {name : String} :
    name ∈ (f.note s).variableNames
      ↔ name ∈ f.variableNames ∨ name ∈ s.usedVariables.map Variable.name := by
  show name ∈ s.usedVariables.foldl (fun names v => insertOrdered v.name names) f.variableNames ↔ _
  generalize s.usedVariables = used
  generalize f.variableNames = names
  induction used generalizing names with
  | nil => simp
  | cons v rest ih =>
      rw [List.foldl_cons, ih, mem_insertOrdered, List.map_cons, List.mem_cons]
      tauto

/-- A line binds the variables that it uses, unless it opens a task. -/
theorem adds_emit (e : Emission) (block : Nat) {s : Statement} (hs : ∀ name, s ≠ .openTask name) :
    e.Adds (s.usedVariables.map fun v => .used v.name) (e.emit block s) := by
  constructor
  · intro x
    cases x with
    | declared name =>
        show name ∈ e.routine.declared ↔ name ∈ e.routine.declared ∨ _
        simp
    | used name =>
        show name ∈ (e.findings.note s).variableNames ↔ name ∈ e.findings.variableNames ∨ _
        rw [mem_variableNames_note]
        simp
  · intro h
    refine h.mono ?_ rfl
    intro x i name hx
    rcases Arena.getElem?_line_cases hx with hold | ⟨-, -, hnew⟩
    · exact hold
    · exact absurd (Item.line.inj hnew).symm (hs name)

/-- Whether a statement neither uses a variable nor opens a task. -/
def Statement.isPlain : Statement → Bool
  | .openTask _ | .assignVariable .. => false
  | s => s.usedVariables.isEmpty

/-- A plain line binds nothing. -/
theorem adds_plain (e : Emission) (block : Nat) {s : Statement} (hs : s.isPlain = true) :
    e.Adds [] (e.emit block s) := by
  have hnone : s.usedVariables = [] := by
    cases s with
    | openTask name => cases hs
    | assignVariable target value => cases hs
    | assign target value => exact List.isEmpty_iff.1 hs
    | _ => rfl
  have hadds := adds_emit e block (s := s) ?_
  · rw [hnone] at hadds
    exact hadds
  · rintro name rfl
    cases hs

/-- To reserve a block binds nothing, and no task moves by it. -/
theorem adds_reserve (e : Emission) (place : Place) (block : Nat) :
    e.Adds [] (e.reserve place block).2 := by
  constructor
  · intro x
    rw [or_iff_left List.not_mem_nil]
    cases x with
    | declared name => rfl
    | used name => rfl
  · intro h
    refine h.mono ?_ rfl
    intro x i name hx
    rcases Arena.getElem?_reserve_cases hx with hold | ⟨-, -, hnew⟩
    · exact hold
    · cases hnew

/-- A declaration binds its name. -/
theorem adds_declare (e : Emission) (name type : String) :
    e.Adds [.declared name] (e.declare name type) := by
  constructor
  · intro x
    cases x with
    | declared name' =>
        show name' ∈ (e.routine.declare name type).declared ↔ name' ∈ e.routine.declared ∨ _
        rw [Routine.declare]
        split
        · next hmem =>
          constructor
          · exact Or.inl
          · rintro (hold | hnew)
            · exact hold
            · cases List.mem_singleton.1 hnew
              exact List.contains_iff_mem.1 hmem
        · simp [Routine.declared]
    | used name' =>
        show name' ∈ e.findings.variableNames ↔ name' ∈ e.findings.variableNames ∨ _
        simp
  · intro h
    refine h.mono ?_ ?_
    · intro x i name' hx
      rw [Opened, blocks_declare] at hx
      exact hx
    · show (e.routine.declare name type).locals = e.routine.locals
      rw [Routine.declare]
      split
      · rfl
      · rfl

/-- A task is opened under a name that is new. -/
theorem adds_openTask (e : Emission) (block : Nat) {wanted : String}
    (hwanted : ∀ taken, Text.MadeUp .task (unusedName taken wanted)) :
    e.Adds [] ((e.newLocal wanted).2.emit block (.openTask (e.newLocal wanted).1)) := by
  have hnew : (e.newLocal wanted).1 ∉ e.routine.locals := fun hmem =>
    unusedName_not_mem (e.routine.locals ++ e.routine.declared) wanted (List.mem_append_left _ hmem)
  generalize hname : (e.newLocal wanted).1 = name at hnew
  constructor
  · intro x
    rw [or_iff_left List.not_mem_nil]
    cases x with
    | declared name => rfl
    | used name => rfl
  · intro h
    have hcases : ∀ {x i name'}, ((e.newLocal wanted).2.emit block (.openTask name)).Opened x i name' →
        e.Opened x i name' ∨ (x = block ∧ i = (e.blocks.body block).length ∧ name' = name) := by
      intro x i name' hx
      rcases Arena.getElem?_line_cases hx with hold | ⟨hblock, hi, hline⟩
      · exact Or.inl hold
      · exact Or.inr ⟨hblock, hi, Statement.openTask.inj (Item.line.inj hline)⟩
    constructor
    · intro x i name' hx
      show name' ∈ (e.newLocal wanted).1 :: e.routine.locals
      rcases hcases hx with hold | ⟨-, -, rfl⟩
      · exact List.mem_cons_of_mem _ (h.mem hold)
      · rw [hname]
        exact List.mem_cons_self
    · intro x i y j name' hx hy
      rcases hcases hx with hold | ⟨rfl, rfl, rfl⟩
      · rcases hcases hy with hold' | ⟨-, -, rfl⟩
        · exact h.unique hold hold'
        · exact absurd (h.mem hold) hnew
      · rcases hcases hy with hold' | ⟨hblock, hi, -⟩
        · exact absurd (h.mem hold') hnew
        · exact ⟨hblock.symm, hi.symm⟩
    · intro name' hname'
      rcases List.mem_cons.1 hname' with rfl | hold
      · exact hwanted _
      · exact h.named name' hold

end Writing

/-! ## Jobs -/

namespace Job

/-- The names that a job declares at the top. -/
def declares (ctx : Context) : Job → List String
  | read _ _ n param =>
    match ctx.source n param with
    | .temporary name _ _ => [name]
    | _ => []
  | assign _ _ _ _ name _ => [name]
  | leave _ n _ .forLoop => [loopIndex ctx n]
  | _ => []

/-- The variables that a job reads or assigns, by the names that they are
    given. -/
def uses : Job → List String
  | assign _ n d .getVariable _ _ => [n.variableName d]
  | leave _ n d .setVariable => [n.variableName d]
  | _ => []

/-- What a job binds. -/
def binds (ctx : Context) (job : Job) : List Binding :=
  (job.declares ctx).map .declared ++ job.uses.map fun name => .used (Text.identifier name)

end Job

section Visiting

variable (ctx : Context) (n : Node) (d : Definition) (block : Nat) (e : Emission)

/-- Blocks for what follows bind nothing. -/
theorem adds_spread (connections : List Connection) :
    e.Adds [] (spread block connections e).2 := by
  induction connections generalizing e with
  | nil => exact .refl e
  | cons c rest ih => exact (adds_reserve e .inline block).trans (ih _)

theorem adds_goOn (connections : List Connection) : e.Adds [] (goOn block connections e).2 := by
  rw [goOn.eq_def]
  split
  · exact .refl e
  · exact adds_spread block e _

theorem adds_goOnBy (output : Option Param) : e.Adds [] (goOnBy ctx n output block e).2 := by
  cases output with
  | none => exact .refl e
  | some p => exact adds_goOn block e _

theorem adds_setAsync : e.Adds [] e.setAsync := adds_of_same rfl rfl rfl rfl

theorem adds_report (kind : DiagnosticKind) (node message : String) :
    e.Adds [] (e.report kind node message) := adds_of_same rfl rfl rfl rfl

/-- Tasks bind names of their own, made up from a stem that is one of tasks. By
    induction on the connections; each name is new among the ones before it. -/
theorem adds_startTasks {stem : String}
    (hstem : ∀ k taken, Text.MadeUp .task (unusedName taken (stem ++ Nat.repr k))) (k : Nat)
    (connections : List Connection) : e.Adds [] (startTasks stem block k connections e).2.2 := by
  induction connections generalizing k e with
  | nil => exact .refl e
  | cons c rest ih =>
      have hopen := (adds_openTask e block (hstem k)).trans (adds_reserve _ .nested block)
      have hclose := hopen.trans (adds_plain _ block (s := .closeTask) rfl)
      exact hclose.trans (ih _ (k + 1))

/-- Branches that run side by side bind no name but those of their tasks. -/
theorem adds_visitParallel : e.Adds [] (visitParallel ctx n d block e).2 := by
  rw [visitParallel.eq_def]
  split
  · exact .refl e
  · have htasks := adds_startTasks block e.setAsync
      (fun k taken => madeUp_task n k taken) 1 (newBranches ctx n d e)
    exact ((adds_setAsync e).trans htasks).trans (adds_plain _ block (s := .awaitTasks _) rfl)

/-- A branch binds nothing. -/
theorem adds_visitBranch (condition : Operand) :
    e.Adds [] (visitBranch ctx n d condition block e).2 := by
  have hopen := (adds_plain e block (s := .openIf condition) rfl).trans
    ((adds_reserve _ .nested block).trans (adds_reserve _ .otherwise block))
  have hclose := hopen.trans (adds_plain _ block (s := .close) rfl)
  exact hclose.trans ((adds_goOnBy ctx n _ _ _).trans (adds_goOnBy ctx n _ _ _))

/-- A loop binds its index. -/
theorem adds_visitLoop (count : Operand) :
    e.Adds [.declared (loopIndex ctx n)] (visitLoop ctx n d count block e).2 := by
  have hopen := (adds_declare e (loopIndex ctx n) "number").trans
    ((adds_plain _ block (s := .openFor (loopIndex ctx n) count) rfl).trans
      (adds_reserve _ .nested block))
  have hclose := hopen.trans (adds_plain _ block (s := .close) rfl)
  exact hclose.trans ((adds_goOnBy ctx n _ _ _).trans (adds_goOnBy ctx n _ _ _))

/-- Cases bind nothing. By induction on the outputs. -/
theorem adds_writeCases (cases : Nat) (outputs : List Param) :
    e.Adds [] (writeCases ctx n cases outputs e).2 := by
  induction outputs generalizing e with
  | nil => exact .refl e
  | cons p rest ih =>
      rw [writeCases.eq_def]
      dsimp only
      split
      · exact ih e
      · have hcase := (adds_plain e cases (s := .openCase (.ofOutput p.id)) rfl).trans
          (adds_reserve _ .nested cases)
        have hbody := hcase.trans (adds_reserve _ .inline
          ((e.emit cases (.openCase (.ofOutput p.id))).reserve .nested cases).1)
        have hleave := hbody.trans (adds_plain _
          ((e.emit cases (.openCase (.ofOutput p.id))).reserve .nested cases).1
          (s := .leaveCase) rfl)
        have hclose := hleave.trans (adds_plain _ cases (s := .close) rfl)
        exact hclose.trans ((adds_goOn _ _ _).trans (ih _))

/-- A switch binds nothing. -/
theorem adds_visitSwitch (value : Operand) :
    e.Adds [] (visitSwitch ctx n d value block e).2 := by
  have hopen := (adds_plain e block (s := .openSwitch value) rfl).trans
    (adds_reserve _ .nested block)
  have hclose := hopen.trans (adds_plain _ block (s := .close) rfl)
  exact hclose.trans (adds_writeCases ctx n _ _ _)

/-- The comment ahead of a node binds nothing. -/
theorem adds_announce (kind : NodeKind) : e.Adds [] (e.announce ctx n d kind block) := by
  rw [Emission.announce]
  split
  · exact adds_plain e block rfl
  · exact .refl e

/-- A node of a kind that is left binds what its job tells. -/
theorem adds_visitKind {kind : NodeKind} (hpure : ∀ k, kind ≠ .pure k)
    (operand : String → Operand) :
    e.Adds ((Job.leave block n d kind).binds ctx) (visitKind ctx n d kind operand block e).2 := by
  cases kind with
  | pure k => exact absurd rfl (hpure k)
  | functionStart => exact adds_goOn block e _
  | lifecycle hook => exact adds_goOn block e _
  | functionParameter => exact .refl e
  | finish => exact .refl e
  | functionReturn => exact adds_of_same rfl rfl rfl rfl
  | print => exact (adds_plain e block rfl).trans (adds_goOn block _ _)
  | debugLog => exact (adds_plain e block rfl).trans (adds_goOn block _ _)
  | delay =>
      exact ((adds_setAsync e).trans (adds_plain _ block rfl)).trans (adds_goOn block _ _)
  | setVariable =>
      refine (adds_emit e block (s := .assignVariable (ctx.variableOf n d) (operand "value")) ?_).trans
        (adds_goOn block _ _)
      intro name h
      cases h
  | debugBreak => exact (adds_plain e block rfl).trans (adds_goOn block _ _)
  | debugWatch => exact (adds_plain e block rfl).trans (adds_goOn block _ _)
  | sequence => exact adds_spread block e _
  | parallel => exact adds_visitParallel ctx n d block e
  | branch => exact adds_visitBranch ctx n d block e _
  | forLoop => exact adds_visitLoop ctx n d block e _
  | switch => exact adds_visitSwitch ctx n d block e _

/-- A node of no known kind leaves a comment, which binds nothing. -/
theorem adds_visit_of_unknown (hkind : ctx.catalog.kind? n = none) :
    e.Adds [] (visit ctx n block e).2 := by
  rw [Catalog.kind?] at hkind
  rw [visit, Context.definition?]
  cases hd : ctx.catalog.find? n.definitionId with
  | none => exact (adds_report e ..).trans (adds_plain _ block rfl)
  | some d =>
      rw [hd] at hkind
      dsimp only at hkind ⊢
      rw [hkind]
      exact ((adds_report e ..).trans (adds_plain _ block rfl)).trans (adds_goOn block _ _)

end Visiting

/-! ## Turns and runs -/

section Turns

variable (ctx : Context) (e : Emission)

theorem adds_reportFanIn (n : Node) (param : String) : e.Adds [] (e.reportFanIn ctx n param) := by
  rw [Emission.reportFanIn]
  split
  · exact adds_report e ..
  · exact .refl e

theorem adds_reportNoValue (n : Node) (param : String) :
    e.Adds [] (e.reportNoValue ctx n param) := by
  rw [Emission.reportNoValue]
  split
  · exact adds_report e ..
  · exact .refl e

/-- All that a read does apart from computing. -/
theorem adds_noted (block : Nat) (active : List String) (n : Node) (param : String) :
    e.Adds ((Job.read block active n param).binds ctx)
      (readWith ctx (fun _ e => e) active n param e).2 := by
  have hfan := adds_reportFanIn ctx e n param
  rw [Job.binds, Job.declares, readWith]
  cases ctx.source n param with
  | literal value kind => exact hfan
  | parameter name type => exact hfan
  | temporary name output kind =>
      have hdeclare := hfan.trans (adds_declare _ name kind.typeName)
      dsimp only
      split
      · exact hdeclare
      · exact hdeclare
  | undefined => exact hfan.trans (adds_reportNoValue ctx _ n param)

/-- A pure node uses a variable if it reads one. -/
theorem usedVariables_expr (block : Nat) (n : Node) (d : Definition) (kind : PureKind)
    (name type : String) (operand : String → Operand) :
    ((Statement.assign name (kind.expr ctx n d operand)).usedVariables.map
        fun v => Binding.used v.name)
      = (Job.assign block n d kind name type).uses.map fun name => .used (Text.identifier name) := by
  cases kind with
  | getVariable => rfl
  | text op =>
      cases op with
      | _ => rfl
  | logic op =>
      cases op with
      | _ => rfl
  | _ => rfl

/-- **A turn binds what its job tells.** -/
theorem adds_perform (job : Job) : e.Adds (job.binds ctx) (job.perform ctx e).2 := by
  cases job with
  | visit step =>
      by_cases hdone : step.path.contains step.node = true ∨ ctx.index.node? step.node = none
      · rw [perform_visit_of_done hdone]
        exact .refl e
      · obtain ⟨hnew, hfound⟩ := not_or.1 hdone
        obtain ⟨n, hn⟩ := Option.ne_none_iff_exists'.1 hfound
        have hpath : e.Adds [] (e.onPath (step.path.extend step.node)) :=
          adds_of_same rfl rfl rfl rfl
        rcases perform_visit_of_new hnew hn e with ⟨hkind, hperform⟩ | ⟨d, kind, -, -, hperform⟩
        · rw [hperform]
          exact hpath.trans (adds_visit_of_unknown ctx n step.block _ hkind)
        · rw [hperform]
          exact hpath.trans (adds_announce ctx n d step.block _ kind)
  | read block active n param =>
      have hnoted := adds_noted ctx e block active n param
      rw [Job.perform]
      cases ctx.missing? active n param e with
      | none => exact hnoted
      | some id => exact hnoted
  | compute block active id =>
      rw [Job.perform]
      split
      · exact .refl e
      · split
        · exact adds_report e ..
        · split
          · exact .refl e
          · exact .refl e
  | assign block n d kind name type =>
      have hemit := adds_emit (e.declare name type) block
        (s := .assign name (kind.expr ctx n d (ctx.operands n kind.slots)))
        (by intro name h; cases h)
      rw [usedVariables_expr ctx block n d kind name type] at hemit
      exact (adds_declare e name type).trans hemit
  | settle id =>
      rw [Job.perform, Emission.settle]
      cases ctx.isReader id with
      | true => exact adds_of_same rfl rfl rfl rfl
      | false => exact adds_of_same rfl rfl rfl rfl
  | endRead => exact adds_of_same rfl rfl rfl rfl
  | leave block n d kind =>
      by_cases hpure : ∃ k, kind = .pure k
      · obtain ⟨k, rfl⟩ := hpure
        exact adds_goOn block e _
      · rw [(leave_of_not_pure ctx block n d (not_exists.1 hpure) e).1]
        exact adds_visitKind ctx n d block e (not_exists.1 hpure) _

end Turns

namespace Writing

variable {ctx : Context}

/-- **What a run binds** is what the jobs tell that it comes to. -/
theorem binds_outcome_iff (w : Writing) (x : Binding) :
    (w.outcome ctx).Binds x
      ↔ w.emission.Binds x ∨ ∃ job, w.Comes ctx job ∧ x ∈ job.binds ctx := by
  refine outcome_iff (I := fun _ => True) (P := fun e => e.Binds x) (fun _ _ => trivial) ?_ trivial
  intro job _ e _
  exact (adds_perform ctx e job).binds x

/-- **A run keeps tasks apart.** -/
theorem tasksApart_outcome {w : Writing} (h : w.emission.TasksApart) :
    (w.outcome ctx).TasksApart := by
  obtain ⟨k, hk⟩ := exists_end ctx w
  generalize w.outcome ctx = e' at hk
  induction k generalizing w with
  | zero =>
      obtain rfl : w = ⟨[], e'⟩ := hk
      exact h
  | succ k ih =>
      refine ih ?_ hk
      obtain ⟨jobs, e⟩ := w
      cases jobs with
      | nil => exact h
      | cons job rest => exact (adds_perform ctx e job).tasks h

end Writing

end Blueprints
