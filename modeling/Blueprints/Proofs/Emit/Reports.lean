import Blueprints.Proofs.Emit.Lines
import Blueprints.Proofs.Emit.Paths
import Blueprints.Proofs.Emit.Reachability

/-! # Reports about inputs

    An input calls for a report if several connections reach it, or if the
    connection that it takes its value from brings none.  The reports about
    inputs that a run makes are those that the inputs call for that it reads
    (`Writing.mem_diagnostics_outcome_iff`).  A run reads the inputs of the
    nodes that its walk visits (`reads_of_mem_visits`) and of the pure nodes
    whose temporaries it assigns (`Writing.reads_of_assigned`). -/

namespace Blueprints

/-! ## What writing statements leaves alone -/

/-- A line that is not code. -/
def Statement.isComment : Statement → Bool
  | .comment _ => true
  | _ => false

/-- A view of emissions that writing code does not change, wherever it is
    written. -/
structure Emission.Uncoded {β : Type} (view : Emission → β) : Prop where
  emit : ∀ (e : Emission) (block : Nat) (s : Statement), s.isComment = false →
    view (e.emit block s) = view e
  reserve : ∀ (e : Emission) (place : Place) (block : Nat),
    view (e.reserve place block).2 = view e
  declare : ∀ (e : Emission) (name type : String), view (e.declare name type) = view e
  newLocal : ∀ (e : Emission) (wanted : String), view (e.newLocal wanted).2 = view e
  setAsync : ∀ e : Emission, view e.setAsync = view e
  goTo : ∀ (e : Emission) (path : Trail), view { e with path := path } = view e

/-- A view of emissions that writing statements does not change, wherever they
    are written. -/
structure Emission.Unwritten {β : Type} (view : Emission → β) : Prop where
  emit : ∀ (e : Emission) (block : Nat) (s : Statement), view (e.emit block s) = view e
  reserve : ∀ (e : Emission) (place : Place) (block : Nat),
    view (e.reserve place block).2 = view e
  declare : ∀ (e : Emission) (name type : String), view (e.declare name type) = view e
  newLocal : ∀ (e : Emission) (wanted : String), view (e.newLocal wanted).2 = view e
  setAsync : ∀ e : Emission, view e.setAsync = view e
  goTo : ∀ (e : Emission) (path : Trail), view { e with path := path } = view e

theorem Emission.Unwritten.uncoded {β : Type} {view : Emission → β} (h : Unwritten view) :
    Uncoded view :=
  ⟨fun e block s _ => h.emit e block s, h.reserve, h.declare, h.newLocal, h.setAsync, h.goTo⟩

/-- A view that does not tell either which variable readers are current. -/
structure Emission.Untouched {β : Type} (view : Emission → β) : Prop
    extends Emission.Unwritten view where
  forget : ∀ (e : Emission) (fresh : List String), view { e with fresh := fresh } = view e

/-- Statements report nothing. -/
theorem Emission.untouched_diagnostics :
    Emission.Untouched fun e => e.findings.diagnostics :=
  ⟨⟨fun _ _ _ => rfl, fun _ _ _ => rfl, fun _ _ _ => rfl, fun _ _ => rfl, fun _ => rfl,
    fun _ _ => rfl⟩, fun _ _ => rfl⟩

/-- Statements note no return node. -/
theorem Emission.untouched_returnNode : Emission.Untouched fun e => e.routine.returnNode := by
  refine ⟨⟨fun _ _ _ => rfl, fun _ _ _ => rfl, ?_, fun _ _ => rfl, fun _ => rfl, fun _ _ => rfl⟩,
    fun _ _ => rfl⟩
  intro e name type
  show (e.routine.declare name type).returnNode = _
  rw [Routine.declare]
  split
  · rfl
  · rfl

namespace Emission.Uncoded

variable {β : Type} {view : Emission → β} (h : Uncoded view)

include h

/-- Blocks for what follows change no such view. -/
theorem spread (block : Nat) (connections : List Connection) (e : Emission) :
    view (Blueprints.spread block connections e).2 = view e := by
  induction connections generalizing e with
  | nil => rfl
  | cons c rest ih => exact (ih _).trans (h.reserve e .inline block)

theorem goOn (block : Nat) (connections : List Connection) (e : Emission) :
    view (Blueprints.goOn block connections e).2 = view e := by
  unfold Blueprints.goOn
  split
  · rfl
  · exact h.spread block _ e

theorem goOnBy (ctx : Context) (n : Node) (output : Option Param) (block : Nat) (e : Emission) :
    view (Blueprints.goOnBy ctx n output block e).2 = view e := by
  cases output with
  | none => rfl
  | some p => exact h.goOn block _ e

/-- Tasks change no such view. By induction on the connections. -/
theorem startTasks (stem : String) (block k : Nat) (connections : List Connection)
    (e : Emission) : view (Blueprints.startTasks stem block k connections e).2.2 = view e := by
  induction connections generalizing k e with
  | nil => rfl
  | cons c rest ih =>
      rw [Blueprints.startTasks]
      refine (ih (k + 1) _).trans ?_
      rw [h.emit _ _ .closeTask rfl, h.reserve, h.emit _ _ (.openTask _) rfl, h.newLocal]

theorem visitParallel (ctx : Context) (n : Node) (d : Definition) (block : Nat) (e : Emission) :
    view (Blueprints.visitParallel ctx n d block e).2 = view e := by
  rw [Blueprints.visitParallel]
  split
  · rfl
  · show view (Emission.emit _ block (.awaitTasks _)) = _
    rw [h.emit _ _ (.awaitTasks _) rfl, h.startTasks, h.setAsync]

theorem visitBranch (ctx : Context) (n : Node) (d : Definition) (condition : Operand)
    (block : Nat) (e : Emission) :
    view (Blueprints.visitBranch ctx n d condition block e).2 = view e := by
  rw [Blueprints.visitBranch]
  dsimp only
  rw [h.goOnBy, h.goOnBy, h.emit _ _ .close rfl, h.reserve, h.reserve,
    h.emit _ _ (.openIf condition) rfl]

theorem visitLoop (ctx : Context) (n : Node) (d : Definition) (count : Operand) (block : Nat)
    (e : Emission) : view (Blueprints.visitLoop ctx n d count block e).2 = view e := by
  rw [Blueprints.visitLoop]
  dsimp only
  rw [h.goOnBy, h.goOnBy, h.emit _ _ .close rfl, h.reserve, h.emit _ _ (.openFor _ count) rfl,
    h.declare]

theorem writeCases (ctx : Context) (n : Node) (cases : Nat) (outputs : List Param)
    (e : Emission) : view (Blueprints.writeCases ctx n cases outputs e).2 = view e := by
  induction outputs generalizing e with
  | nil => rfl
  | cons p rest ih =>
      rw [Blueprints.writeCases]
      split
      · exact ih e
      · refine (ih _).trans ?_
        rw [h.goOn, h.emit _ _ .close rfl, h.emit _ _ .leaveCase rfl, h.reserve, h.reserve,
          h.emit _ _ (.openCase _) rfl]

theorem visitSwitch (ctx : Context) (n : Node) (d : Definition) (value : Operand) (block : Nat)
    (e : Emission) : view (Blueprints.visitSwitch ctx n d value block e).2 = view e := by
  rw [Blueprints.visitSwitch]
  dsimp only
  rw [h.writeCases, h.emit _ _ .close rfl, h.reserve, h.emit _ _ (.openSwitch value) rfl]

/-- **A visit leaves it alone**, once the inputs have been read: only a return
    node does more than to write statements. -/
theorem visitKind {ctx : Context} {n : Node} {d : Definition} {kind : NodeKind}
    (hpure : ∀ k, kind ≠ .pure k) (hreturn : kind ≠ .functionReturn) (operand : String → Operand)
    (block : Nat) (e : Emission) :
    view (Blueprints.visitKind ctx n d kind operand block e).2 = view e := by
  have hfollow : ∀ e, view (follow ctx n d block e).2 = view e := fun e => h.goOn block _ e
  cases kind with
  | pure k => exact absurd rfl (hpure k)
  | functionReturn => exact absurd rfl hreturn
  | functionStart => exact hfollow e
  | lifecycle hook => exact hfollow e
  | functionParameter => rfl
  | finish => rfl
  | print => exact (hfollow _).trans (h.emit e block _ rfl)
  | debugLog => exact (hfollow _).trans (h.emit e block _ rfl)
  | delay => exact (hfollow _).trans ((h.emit _ block _ rfl).trans (h.setAsync e))
  | setVariable => exact (hfollow _).trans (h.emit e block _ rfl)
  | debugBreak => exact (hfollow _).trans (h.emit e block _ rfl)
  | debugWatch => exact (hfollow _).trans (h.emit e block _ rfl)
  | sequence => exact h.spread block _ e
  | parallel => exact h.visitParallel ctx n d block e
  | branch => exact h.visitBranch ctx n d _ block e
  | forLoop => exact h.visitLoop ctx n d _ block e
  | switch => exact h.visitSwitch ctx n d _ block e

end Emission.Uncoded

/-- The comment ahead of a node is a statement. -/
theorem Emission.Unwritten.announce {β : Type} {view : Emission → β} (h : Unwritten view)
    (ctx : Context) (n : Node) (d : Definition) (kind : NodeKind) (block : Nat) (e : Emission) :
    view (e.announce ctx n d kind block) = view e := by
  rw [Emission.announce]
  split
  · exact h.emit e block _
  · rfl

/-- To settle a node changes the path or the current readers. -/
theorem Emission.Untouched.settle {β : Type} {view : Emission → β} (h : Untouched view)
    (ctx : Context) (id : String) (e : Emission) : view (e.settle ctx id) = view e := by
  rw [Emission.settle]
  split
  · exact h.forget e _
  · exact h.goTo e _

/-! ## What else a turn does -/

/-- Whether a job looks at an input. -/
def Job.isRead : Job → Bool
  | .read .. => true
  | _ => false

/-- What a turn does to an emission apart from writing statements: nothing, or
    it reports something that is not about an input, looks at an input, or
    notes a return node. -/
inductive Job.Notes (ctx : Context) (job : Job) (e : Emission) : Emission → Prop where
  | nothing (h : job.isRead = false) : job.Notes ctx e e
  | reported (h : job.isRead = false) {kind : DiagnosticKind} {id message : String}
      (hmessage : message.toList.head? ≠ some 'i') :
      job.Notes ctx e (e.report kind id message)
  | looked {block : Nat} {active : List String} {n : Node} {slot : String}
      (h : job = .read block active n slot) :
      job.Notes ctx e (readWith ctx (fun _ e => e) active n slot e).2
  | returned {block : Nat} {n : Node} {d : Definition}
      (h : job = .leave block n d .functionReturn) :
      job.Notes ctx e (e.noteReturn n.id)

section Turns

variable {β : Type} {view : Emission → β}

/-- The visit of a node without a kind reports it. -/
theorem Emission.Unwritten.visit_of_unknown (h : Emission.Unwritten view) {ctx : Context}
    {n : Node} (hkind : ctx.catalog.kind? n = none) (block : Nat) (e : Emission) :
    ∃ kind message, message.toList.head? ≠ some 'i'
      ∧ view (visit ctx n block e).2 = view (e.report kind n.id message) := by
  rw [Catalog.kind?] at hkind
  rw [visit, Context.definition?]
  cases hd : ctx.catalog.find? n.definitionId with
  | none =>
      refine ⟨_, _, ?_, h.emit _ block _⟩
      simp only [String.toList_append, List.head?_append]
      show some 'd' ≠ some 'i'
      decide
  | some d =>
      rw [hd] at hkind
      dsimp only at hkind ⊢
      rw [hkind]
      refine ⟨_, _, ?_, (h.uncoded.goOn block _ _).trans (h.emit _ block _)⟩
      simp only [String.toList_append, List.head?_append]
      show some 'n' ≠ some 'i'
      decide

/-- **What a turn does apart from writing statements**, to a view that these
    leave alone. -/
theorem exists_notes (h : Emission.Untouched view) (ctx : Context) (job : Job) (e : Emission) :
    ∃ e', job.Notes ctx e e' ∧ view (job.perform ctx e).2 = view e' := by
  cases job with
  | visit step =>
      by_cases hdone : step.path.contains step.node = true ∨ ctx.index.node? step.node = none
      · refine ⟨e, .nothing rfl, ?_⟩
        rw [perform_visit_of_done hdone]
      · obtain ⟨hnew, hfound⟩ := not_or.1 hdone
        obtain ⟨n, hn⟩ := Option.ne_none_iff_exists'.1 hfound
        rcases perform_visit_of_new hnew hn e with ⟨hkind, hperform⟩ | ⟨d, kind, -, -, hperform⟩
        · obtain ⟨kind, message, hmessage, hview⟩ :=
            h.visit_of_unknown hkind step.block (e.onPath (step.path.extend step.node))
          refine ⟨e.report kind n.id message, .reported rfl hmessage, ?_⟩
          rw [hperform]
          exact hview.trans (h.goTo (e.report kind n.id message) _)
        · refine ⟨e, .nothing rfl, ?_⟩
          rw [hperform]
          exact (h.announce ctx n d kind step.block _).trans (h.goTo e _)
  | read block active n slot =>
      refine ⟨_, .looked rfl, ?_⟩
      rw [Job.perform]
      cases ctx.missing? active n slot e with
      | none => rfl
      | some id => rfl
  | compute block active id =>
      -- a cycle is reported, and its message does not begin like those about inputs
      rw [Job.perform]
      split
      · exact ⟨e, .nothing rfl, rfl⟩
      · split
        · exact ⟨_, .reported rfl (by decide), rfl⟩
        · split
          · exact ⟨e, .nothing rfl, rfl⟩
          · exact ⟨e, .nothing rfl, rfl⟩
  | assign block n d kind name type =>
      exact ⟨e, .nothing rfl, (h.emit _ block _).trans (h.declare e name type)⟩
  | settle id => exact ⟨e, .nothing rfl, h.settle ctx id e⟩
  | endRead => exact ⟨e, .nothing rfl, h.forget e []⟩
  | leave block n d kind =>
      by_cases hpure : ∃ k, kind = .pure k
      · obtain ⟨k, rfl⟩ := hpure
        exact ⟨e, .nothing rfl, h.uncoded.goOn block _ e⟩
      · rw [(leave_of_not_pure ctx block n d (not_exists.1 hpure) e).1]
        by_cases hreturn : kind = .functionReturn
        · subst hreturn
          exact ⟨e.noteReturn n.id, .returned rfl, rfl⟩
        · exact ⟨e, .nothing rfl, h.uncoded.visitKind (not_exists.1 hpure) hreturn _ block e⟩

end Turns

/-! ## Reports that inputs call for -/

/-- The report that several connections reach an input. -/
def fanInReport (n : Node) (slot : String) (used : Connection) (count : Nat) : Diagnostic :=
  ⟨.shapeAmbiguity, some n.id,
    s!"input '{slot}' has {count} incoming connections; only '{used.id}' is used"⟩

/-- The report that the connection to an input brings no value. -/
def noValueReport (n : Node) (slot : String) (c : Connection) : Diagnostic :=
  ⟨.reference, some n.id,
    s!"input '{slot}' reads '{c.source.node}.{c.source.param}', which produces no value"⟩

/-- An input calls for a report: several connections reach it, or the one that
    it takes its value from brings none. -/
inductive Context.CallsFor (ctx : Context) (n : Node) (slot : String) : Diagnostic → Prop where
  | fanIn {used other : Connection} {more : List Connection}
      (h : ctx.index.incoming ⟨n.id, slot⟩ = used :: other :: more) :
      ctx.CallsFor n slot (fanInReport n slot used (used :: other :: more).length)
  | noValue {c : Connection} (hc : ctx.index.feeding? ⟨n.id, slot⟩ = some c)
      (h : ctx.source n slot = .undefined) : ctx.CallsFor n slot (noValueReport n slot c)

/-- A report about an input, by its first letter. -/
def Diagnostic.IsAboutInput (r : Diagnostic) : Prop := r.message.toList.head? = some 'i'

section Reporting

variable {ctx : Context} {n : Node} {slot : String} {r : Diagnostic}

/-- Reports that inputs call for begin with the same letter. -/
theorem Context.CallsFor.isAboutInput (h : ctx.CallsFor n slot r) : r.IsAboutInput := by
  cases h with
  | fanIn h =>
      simp only [Diagnostic.IsAboutInput, fanInReport, String.toList_append, List.head?_append]
      rfl
  | noValue hc h =>
      simp only [Diagnostic.IsAboutInput, noValueReport, String.toList_append, List.head?_append]
      rfl

/-- They name the node of the input. -/
theorem Context.CallsFor.node_eq (h : ctx.CallsFor n slot r) : r.node = some n.id := by
  cases h with
  | fanIn h => rfl
  | noValue hc h => rfl

/-- **A report is kept once**, with those that were there. -/
theorem Diagnostics.mem_report_iff {ds : Diagnostics} {d : Diagnostic} :
    r ∈ ds.report d ↔ r ∈ ds ∨ r = d := by
  rw [Diagnostics.report]
  by_cases hd : ds.contains d = true
  · rw [if_pos hd]
    constructor
    · exact Or.inl
    · rintro (hold | rfl)
      · exact hold
      · exact List.contains_iff_mem.1 hd
  · rw [if_neg hd, List.mem_append, List.mem_singleton]

/-- Other reports start with another letter. -/
theorem mem_report_of_isAboutInput {e : Emission} (hr : r.IsAboutInput) {kind : DiagnosticKind}
    {id message : String} (hmessage : message.toList.head? ≠ some 'i') :
    r ∈ (e.report kind id message).findings.diagnostics ↔ r ∈ e.findings.diagnostics := by
  refine Diagnostics.mem_report_iff.trans (or_iff_left ?_)
  rintro rfl
  exact hmessage hr

/-- The report about several connections is made exactly where there are several. -/
theorem mem_reportFanIn_iff (e : Emission) :
    r ∈ (e.reportFanIn ctx n slot).findings.diagnostics
      ↔ r ∈ e.findings.diagnostics ∨ ∃ used other more,
        ctx.index.incoming ⟨n.id, slot⟩ = used :: other :: more
          ∧ r = fanInReport n slot used (used :: other :: more).length := by
  rw [Emission.reportFanIn]
  cases ctx.index.incoming ⟨n.id, slot⟩ with
  | nil => simp
  | cons used rest =>
      cases rest with
      | nil => simp
      | cons other more =>
          refine Diagnostics.mem_report_iff.trans (or_congr Iff.rfl ?_)
          constructor
          · intro hr
            exact ⟨used, other, more, rfl, hr⟩
          · rintro ⟨used', other', more', heq, rfl⟩
            cases heq
            rfl

/-- The report about a missing value is made exactly where a connection brings
    none. -/
theorem mem_reportNoValue_iff (e : Emission) :
    r ∈ (e.reportNoValue ctx n slot).findings.diagnostics
      ↔ r ∈ e.findings.diagnostics ∨ ∃ c, ctx.index.feeding? ⟨n.id, slot⟩ = some c
        ∧ r = noValueReport n slot c := by
  rw [Emission.reportNoValue]
  cases ctx.index.feeding? ⟨n.id, slot⟩ with
  | none => simp
  | some c =>
      refine Diagnostics.mem_report_iff.trans (or_congr Iff.rfl ?_)
      constructor
      · intro hr
        exact ⟨c, rfl, hr⟩
      · rintro ⟨c', heq, rfl⟩
        cases heq
        rfl

/-- The two reports that an input can call for, as conditions of the index and the
    source. -/
theorem Context.callsFor_iff : ctx.CallsFor n slot r ↔ (∃ used other more,
    ctx.index.incoming ⟨n.id, slot⟩ = used :: other :: more
      ∧ r = fanInReport n slot used (used :: other :: more).length)
    ∨ ctx.source n slot = .undefined ∧ ∃ c, ctx.index.feeding? ⟨n.id, slot⟩ = some c
      ∧ r = noValueReport n slot c := by
  constructor
  · rintro (h | ⟨hc, h⟩)
    · exact Or.inl ⟨_, _, _, h, rfl⟩
    · exact Or.inr ⟨h, _, hc, rfl⟩
  · rintro (⟨used, other, more, h, rfl⟩ | ⟨h, c, hc, rfl⟩)
    · exact .fanIn h
    · exact .noValue hc h

/-- **To look at an input is to make the reports that it calls for.** -/
theorem mem_diagnostics_noted_iff (active : List String) (e : Emission) :
    r ∈ (readWith ctx (fun _ e => e) active n slot e).2.findings.diagnostics
      ↔ r ∈ e.findings.diagnostics ∨ ctx.CallsFor n slot r := by
  rw [Context.callsFor_iff, ← or_assoc, ← mem_reportFanIn_iff, readWith]
  cases hsource : ctx.source n slot with
  | literal v kind => simp
  | parameter name type => simp
  | temporary name output kind =>
      dsimp only
      split
      · simp [Emission.declare]
      · simp [Emission.declare]
  | undefined => simpa using mem_reportNoValue_iff (e.reportFanIn ctx n slot)

/-! ## One turn -/

/-- A job makes a report: it reads an input that calls for it. -/
def Job.CallsFor (ctx : Context) (r : Diagnostic) : Job → Prop
  | .read _ _ n slot => ctx.CallsFor n slot r
  | _ => False

/-- **What a turn reports about inputs** is what the input calls for that it
    reads. -/
theorem mem_diagnostics_perform_iff (hr : r.IsAboutInput) (job : Job) (e : Emission) :
    r ∈ (job.perform ctx e).2.findings.diagnostics
      ↔ r ∈ e.findings.diagnostics ∨ job.CallsFor ctx r := by
  have hcalls : job.isRead = false → ¬job.CallsFor ctx r := by
    intro h hcalls
    cases job with
    | read block active n slot => cases h
    | _ => exact hcalls
  obtain ⟨e', hnotes, hview⟩ := exists_notes Emission.untouched_diagnostics ctx job e
  rw [show (job.perform ctx e).2.findings.diagnostics = e'.findings.diagnostics from hview]
  cases hnotes with
  | nothing h => exact (or_iff_left (hcalls h)).symm
  | reported h hmessage =>
      exact (mem_report_of_isAboutInput hr hmessage).trans (or_iff_left (hcalls h)).symm
  | looked h =>
      subst h
      exact mem_diagnostics_noted_iff _ e
  | returned h =>
      subst h
      exact (or_iff_left not_false).symm

/-! ## A whole run -/

/-- **The reports of a run about inputs** are those that the inputs call for
    that it reads. -/
theorem Writing.mem_diagnostics_outcome_iff (hr : r.IsAboutInput) (w : Writing) :
    r ∈ (w.outcome ctx).findings.diagnostics
      ↔ r ∈ w.emission.findings.diagnostics
        ∨ ∃ n slot, w.Reads ctx n slot ∧ ctx.CallsFor n slot r := by
  have hrun := outcome_iff (I := fun _ => True) (P := fun e => r ∈ e.findings.diagnostics)
    (Q := Job.CallsFor ctx r) (fun _ _ => trivial)
    (fun job rest e _ => mem_diagnostics_perform_iff hr job e) (w := w) trivial
  refine hrun.trans (or_congr Iff.rfl ?_)
  constructor
  · rintro ⟨job, hcomes, hcalls⟩
    cases job with
    | read block active n slot => exact ⟨n, slot, ⟨block, active, hcomes⟩, hcalls⟩
    | _ => cases hcalls
  · rintro ⟨n, slot, ⟨block, active, hcomes⟩, hcalls⟩
    exact ⟨.read block active n slot, hcomes, hcalls⟩

end Reporting

/-! ## What a run reads -/

section Reading

variable {ctx : Context} {n : Node} {slot : String}

/-- A visit of a node that is done or missing comes to nothing itself. -/
theorem comes_of_done {step : Step} {rest : List Job} {e : Emission} {job : Job}
    (hdone : step.path.contains step.node = true ∨ ctx.index.node? step.node = none)
    (h : Writing.Comes ctx ⟨rest, e⟩ job) : Writing.Comes ctx ⟨.visit step :: rest, e⟩ job := by
  refine Writing.comes_cons_iff.2 (Or.inr ?_)
  rw [Writing.next]
  dsimp only
  rw [perform_visit_of_done hdone]
  exact h

/-- The walk comes to leave each node of a kind that it visits. -/
theorem comes_leave_of_mem_visits (stack : List Step) (e : Emission) {v : Step × Node}
    (hv : v ∈ visits ctx stack e) {d : Definition} {kind : NodeKind}
    (hd : ctx.definition? v.2 = some d) (hkind : NodeKind.ofDefinition? d.id = some kind) :
    Writing.Comes ctx ⟨stack.map .visit, e⟩ (.leave v.1.block v.2 d kind) := by
  fun_induction visits ctx stack e with
  | case1 e => exact absurd hv List.not_mem_nil
  | case2 e step rest hdone ih => exact comes_of_done (Or.inl hdone) (ih hv)
  | case3 e step rest hnew hnone ih => exact comes_of_done (Or.inr hnone) (ih hv)
  | case4 e step rest hnew n hn visited ih =>
      rcases List.mem_cons.1 hv with rfl | hlater
      · -- the inputs of the node are read before it is left
        refine Writing.comes_cons_iff.2 (Or.inr (Writing.comes_of_mem ?_))
        rcases perform_visit_of_new hnew hn e with ⟨hnone, -⟩ | ⟨d', kind', hd', hkind', hperform⟩
        · rw [Catalog.kind?, show ctx.catalog.find? n.definitionId = some d from hd] at hnone
          exact absurd (hkind.symm.trans hnone) (Option.some_ne_none kind)
        · obtain rfl : d = d' := Option.some.inj (hd.symm.trans hd')
          obtain rfl : kind = kind' := Option.some.inj (hkind.symm.trans hkind')
          rw [Writing.next]
          dsimp only
          rw [hperform]
          exact List.mem_append_left _ (List.mem_append_right _ (List.mem_singleton_self _))
      · obtain ⟨k, hk⟩ := passes_visit hnew hn e
        refine Writing.Comes.of_iterate (k := k) ?_
        have hrest := hk (rest.map .visit)
        rw [List.map_cons, ← List.singleton_append, hrest]
        have hcomes := ih hlater
        rw [List.map_append] at hcomes
        exact hcomes

theorem fed_ofRoutine (ctx : Context) (entries : List Node) (findings : Findings) :
    Fed ctx (Writing.ofRoutine entries findings).jobs :=
  fed_of_idle (Writing.forall_mem_ofRoutine (fun _ => rfl) entries findings)

/-- **A routine reads the inputs of the nodes that its walk visits.** -/
theorem reads_of_mem_visits {entries : List Node} {findings : Findings} {v : Step × Node}
    (hv : v ∈ visits ctx (entrySteps entries { findings }).1 (entrySteps entries { findings }).2)
    {kind : NodeKind} (hkind : ctx.catalog.kind? v.2 = some kind)
    (hslot : slot ∈ kind.slots ctx v.2) :
    (Writing.ofRoutine entries findings).Reads ctx v.2 slot := by
  rw [Catalog.kind?] at hkind
  cases hd : ctx.catalog.find? v.2.definitionId with
  | none =>
      rw [hd] at hkind
      cases hkind
  | some d =>
      rw [hd] at hkind
      have hcomes := comes_leave_of_mem_visits _ _ hv hd hkind
      exact Writing.Comes.reads (fed_ofRoutine ctx entries findings) hcomes ⟨rfl, hslot⟩

/-- A line that assigns a temporary is written by a job that assigns it. -/
theorem Writing.comes_assign_of_has {w : Writing} (hplaced : w.Placed ctx) {name : String}
    {x : Expr} (hold : ¬w.emission.blocks.Has (.assign name x))
    (h : (w.outcome ctx).blocks.Has (.assign name x)) :
    ∃ block n d kind type, w.Comes ctx (.assign block n d kind name type) := by
  obtain ⟨job, hcomes, hstates⟩ := ((has_outcome_iff hplaced rfl).1 h).resolve_left hold
  cases job with
  | assign block n d kind name' type =>
      cases hstates
      exact ⟨block, n, d, kind, type, hcomes⟩
  | leave block n d kind =>
      cases kind with
      | _ => cases hstates
  | _ => cases hstates

end Reading

section Assigning

variable {b : Blueprint} {catalog : Catalog} {options : Options} {n : Node} {slot : String}

/-- The temporary of a pure node is its own. -/
theorem Context.node_eq_of_result? {n' : Node} {d d' : Definition} {name type type' : String}
    (hn : ∃ id, (Index.build b).node? id = some n) (hn' : ∃ id, (Index.build b).node? id = some n')
    (h : (Context.of b catalog options).result? n d = some (name, type))
    (h' : (Context.of b catalog options).result? n' d' = some (name, type')) : n = n' := by
  have hname : ∀ {n : Node} {d : Definition} {type : String},
      (Context.of b catalog options).result? n d = some (name, type) →
      ∃ output, (Temporaries.allocate b catalog).name? ⟨n.id, output⟩ = some name := by
    intro n d type h
    rw [Context.result?] at h
    cases houtputs : d.dataOutputs with
    | nil =>
        rw [houtputs] at h
        cases h
    | cons output rest =>
        rw [houtputs] at h
        obtain ⟨name', hname', hpair⟩ := Option.map_eq_some_iff.1 h
        obtain rfl : name' = name := congrArg Prod.fst hpair
        exact ⟨output.id, hname'⟩
  obtain ⟨output, hfirst⟩ := hname h
  obtain ⟨output', hsecond⟩ := hname h'
  have hsame : n.id = n'.id :=
    congrArg Endpoint.node (Temporaries.allocate_injective b catalog hfirst hsecond)
  obtain ⟨id, hid⟩ := hn
  obtain ⟨id', hid'⟩ := hn'
  rw [← Index.id_of_node?_build hid] at hid
  rw [← Index.id_of_node?_build hid', ← hsame, hid] at hid'
  exact Option.some.inj hid'

/-- **A run reads the inputs of the pure nodes whose temporaries it
    assigns.** -/
theorem Writing.reads_of_assigned {w : Writing} (hplaced : w.Placed (.of b catalog options))
    (hfed : Fed (.of b catalog options) w.jobs) (hregular : w.Regular (.of b catalog options))
    {id name type : String} {d : Definition} {kind : PureKind} {x : Expr}
    (hn : (Index.build b).node? id = some n) (hd : catalog.find? n.definitionId = some d)
    (hkind : NodeKind.ofDefinition? d.id = some (.pure kind))
    (hresult : (Context.of b catalog options).result? n d = some (name, type))
    (hnone : ∀ job ∈ w.jobs, ∀ block n d kind name type, job ≠ .assign block n d kind name type)
    (hold : ¬w.emission.blocks.Has (.assign name x))
    (h : (w.outcome (.of b catalog options)).blocks.Has (.assign name x))
    (hslot : slot ∈ kind.slots) : w.Reads (.of b catalog options) n slot := by
  obtain ⟨block, n', d', kind', type', hcomes⟩ := comes_assign_of_has hplaced hold h
  obtain ⟨hd', hkind', hresult'⟩ := hcomes.regular hregular
  -- a node whose temporary is assigned has come from the index
  have hn' : ∃ id, (Index.build b).node? id = some n' := by
    have hhanded := hcomes.of_handed (Q := fun job => ∀ block n d kind name type,
        job = .assign block n d kind name type → ∃ id, (Index.build b).node? id = some n)
      (fun job e _ job' hjob' block n d kind name type heq => by
        have hwithin := within_perform (P := fun n => ∃ id, (Index.build b).node? id = some n)
          (fun id n hn => ⟨id, hn⟩) job e job' hjob'
        rw [heq] at hwithin
        exact hwithin)
      (fun job hjob block n d kind name type heq =>
        absurd heq (hnone job hjob block n d kind name type))
    exact hhanded block n' d' kind' name type' rfl
  obtain rfl : n = n' := Context.node_eq_of_result? ⟨id, hn⟩ hn' hresult hresult'
  obtain rfl : d = d' := Option.some.inj (hd.symm.trans hd')
  obtain rfl : kind = kind' :=
    NodeKind.pure.inj (Option.some.inj (hkind.symm.trans hkind'))
  exact hcomes.reads hfed ⟨rfl, hslot⟩

end Assigning

end Blueprints
