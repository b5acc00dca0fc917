import Blueprints.Compile
import Blueprints.Proofs.Emit.Reports
import Blueprints.Proofs.Program.Parameters

/-! # Values do not degrade in silence

    A value that is not what the graph seems to say is worked around and
    reported: an input that several connections reach takes the first of them,
    and an input whose connection brings no value is read as undefined.  The
    reports are made when an input is read.  All inputs are read that the
    statements of a routine take values from, and so is the value that a
    function gives back.  But a function looks first whether there is a value
    to give back, and where the connection brings none it ends without a word
    (`degraded_values_reported`). -/

namespace Blueprints

/-! ## The routines of a unit -/

/-- The routines of hooks: the nodes at which each of them starts, and what had
    been found before it was written. -/
def methodStarts (ctx : Context) : List Hook → Findings → List (List Node × Findings)
  | [], _ => []
  | hook :: rest, f =>
    match hookEntries ctx hook with
    | [] => methodStarts ctx rest f
    | entries =>
      let e := writeRoutine ctx entries f
      (entries, f) :: methodStarts ctx rest (reportReturn hook e.routine e.findings)

namespace Context

/-- The routines of a unit: the nodes at which each of them starts, and what
    had been found before it was written. -/
def starts (ctx : Context) : List (List Node × Findings) :=
  match ctx.blueprint.kind with
  | .function => [(ctx.blueprint.nodes.filter ctx.isFunctionEntry, danglingReports ctx)]
  | .component => methodStarts ctx Hook.all (danglingReports ctx)

/-- The routines of a unit as they are written in the end. -/
def routines (ctx : Context) : List Routine :=
  match ctx.blueprint.kind with
  | .function => [(FunctionUnit.build ctx).routine]
  | .component => (ComponentUnit.build ctx).methods.map Method.routine

/-- The visits of the walk of a routine. -/
def visitsFrom (ctx : Context) (start : List Node × Findings) : List (Step × Node) :=
  let entry := entrySteps start.1 { findings := start.2 }
  visits ctx entry.1 entry.2

/-- A unit reads an input. -/
def UnitReads (ctx : Context) (n : Node) (slot : String) : Prop :=
  match ctx.blueprint.kind with
  | .function => ctx.FunctionReads n slot
  | .component => ∃ start ∈ ctx.starts, (Writing.ofRoutine start.1 start.2).Reads ctx n slot

end Context

/-! ## Reports of routines -/

/-- What holds of nothing found and is kept by each report of a missing node
    holds of all of them. -/
theorem danglingReports_induction (ctx : Context) {P : Findings → Prop} (hstart : P {})
    (hreport : ∀ (f : Findings) (c : Connection), P f → P (f.report ⟨.reference, none,
      s!"connection '{c.id}' references a missing node ({c.source.node} -> {c.target.node})"⟩)) :
    P (danglingReports ctx) := by
  have hreports : ∀ (cs : List Connection) (f : Findings), P f →
      P (cs.foldl (fun f c => f.report ⟨.reference, none,
        s!"connection '{c.id}' references a missing node ({c.source.node} -> {c.target.node})"⟩)
          f) := by
    intro cs
    induction cs with
    | nil => exact fun f hf => hf
    | cons c rest ih => exact fun f hf => ih _ (hreport f c hf)
  exact hreports ctx.index.dangling {} hstart

section Routines

variable {ctx : Context} {r : Diagnostic}

/-- The reports of a routine about inputs. -/
theorem mem_diagnostics_routine_iff (hr : r.IsAboutInput) (entries : List Node) (f : Findings) :
    r ∈ (writeRoutine ctx entries f).findings.diagnostics
      ↔ r ∈ f.diagnostics
        ∨ ∃ n slot, (Writing.ofRoutine entries f).Reads ctx n slot ∧ ctx.CallsFor n slot r := by
  have hstart : (Writing.ofRoutine entries f).emission.findings.diagnostics = f.diagnostics := by
    show (entrySteps entries { findings := f }).2.findings.diagnostics = _
    rw [entrySteps_eq]
    exact Emission.untouched_diagnostics.uncoded.spread Arena.root _ { findings := f }
  rw [← Writing.outcome_ofRoutine, Writing.mem_diagnostics_outcome_iff hr, hstart]

/-- The report about a dangling connection is about no input. -/
theorem not_mem_danglingReports (hr : r.IsAboutInput) : r ∉ (danglingReports ctx).diagnostics := by
  refine danglingReports_induction ctx (P := fun f => r ∉ f.diagnostics) List.not_mem_nil
    fun f c hf h => ?_
  rcases Diagnostics.mem_report_iff.1 h with hold | rfl
  · exact hf hold
  · refine absurd hr ?_
    rw [Diagnostic.IsAboutInput]
    simp only [String.toList_append, List.head?_append]
    show some 'c' ≠ some 'i'
    decide

/-! ## Components -/

/-- The report about a return in a hook is about no input. -/
theorem mem_reportReturn_iff (hr : r.IsAboutInput) (hook : Hook) (routine : Routine)
    (f : Findings) : r ∈ (reportReturn hook routine f).diagnostics ↔ r ∈ f.diagnostics := by
  rw [reportReturn]
  cases routine.returnNode with
  | none => rfl
  | some id =>
      refine Diagnostics.mem_report_iff.trans (or_iff_left ?_)
      rintro rfl
      rw [Diagnostic.IsAboutInput] at hr
      simp only [String.toList_append, List.head?_append] at hr
      exact absurd (show some 'r' = some 'i' from hr) (by decide)

/-- **The reports of methods about inputs**, by induction on the hooks. -/
theorem mem_diagnostics_methods_iff (hr : r.IsAboutInput) (hooks : List Hook) (f : Findings) :
    r ∈ (writeMethods ctx hooks f).2.diagnostics
      ↔ r ∈ f.diagnostics ∨ ∃ start ∈ methodStarts ctx hooks f,
        ∃ n slot, (Writing.ofRoutine start.1 start.2).Reads ctx n slot
          ∧ ctx.CallsFor n slot r := by
  induction hooks generalizing f with
  | nil => simp [writeMethods, methodStarts]
  | cons hook rest ih =>
      rw [writeMethods, methodStarts]
      cases hentries : hookEntries ctx hook with
      | nil => exact ih f
      | cons entry others =>
          dsimp only
          -- between two methods a return node may be reported, which is about no input
          rw [ih, mem_reportReturn_iff hr, mem_diagnostics_routine_iff hr, or_assoc]
          simp only [List.mem_cons, exists_eq_or_imp]

/-- The methods of a component are the routines at its starts. By induction on the
    hooks. -/
theorem routines_methods (ctx : Context) (hooks : List Hook) (f : Findings) :
    (writeMethods ctx hooks f).1.map Method.routine
      = (methodStarts ctx hooks f).map fun start =>
        (writeRoutine ctx start.1 start.2).routine := by
  induction hooks generalizing f with
  | nil => rfl
  | cons hook rest ih =>
      rw [writeMethods, methodStarts]
      cases hookEntries ctx hook with
      | nil => exact ih f
      | cons entry others => exact congrArg _ (ih _)

/-! ## Functions -/

/-- That there are several return nodes is no report about an input. -/
theorem mem_reportReturns_iff (ctx : Context) (hr : r.IsAboutInput) (m : Node) (e : Emission) :
    let count := (ctx.nodesOfKind .functionReturn).length
    r ∈ (if count > 1 then
        e.report .shapeAmbiguity m.id s!"blueprint has {count} return nodes; only '{m.id}' is used"
      else e).findings.diagnostics ↔ r ∈ e.findings.diagnostics := by
  intro count
  split
  · refine mem_report_of_isAboutInput hr ?_
    simp only [String.toList_append, List.head?_append]
    show some 'b' ≠ some 'i'
    decide
  · rfl

/-- What comes ahead of a return reports about no input. -/
theorem mem_diagnostics_beforeReturn_iff (hr : r.IsAboutInput) (m : Node) (e : Emission) :
    r ∈ (beforeReturn ctx m e).findings.diagnostics ↔ r ∈ e.findings.diagnostics := by
  refine Iff.trans ?_ (mem_reportReturns_iff ctx hr m e)
  rw [beforeReturn]
  generalize (if (ctx.nodesOfKind .functionReturn).length > 1 then e.report _ m.id _ else e)
    = reported
  show r ∈ Findings.diagnostics (Emission.findings (if _ then _ else _)) ↔ _
  split
  · rfl
  · rfl

/-- The reports about inputs that are made while a function is ended. -/
theorem mem_diagnostics_writeReturn_iff (hr : r.IsAboutInput) (e : Emission) :
    r ∈ (writeReturn ctx e).2.findings.diagnostics
      ↔ r ∈ e.findings.diagnostics
        ∨ ∃ m, returnNode? ctx e.routine = some m ∧ (ctx.source m "value").type? ≠ none
          ∧ ∃ n slot, (Writing.ofReturn m (beforeReturn ctx m e)).Reads ctx n slot
            ∧ ctx.CallsFor n slot r := by
  by_cases hvalue : ∃ m, returnNode? ctx e.routine = some m ∧ (ctx.source m "value").type? ≠ none
  · obtain ⟨m, hm, htype⟩ := hvalue
    rw [writeReturn_of_value hm htype]
    show r ∈ ((Writing.ofReturn m (beforeReturn ctx m e)).outcome ctx).findings.diagnostics ↔ _
    rw [Writing.mem_diagnostics_outcome_iff hr]
    refine or_congr (mem_diagnostics_beforeReturn_iff hr m e) ?_
    constructor
    · intro hreads
      exact ⟨m, hm, htype, hreads⟩
    · rintro ⟨m', hm', -, hreads⟩
      obtain rfl : m = m' := Option.some.inj (hm.symm.trans hm')
      exact hreads
  · refine Iff.trans ?_ (or_iff_left fun ⟨m, hm, htype, _⟩ => hvalue ⟨m, hm, htype⟩).symm
    rw [writeReturn]
    cases hm : returnNode? ctx e.routine with
    | none => rfl
    | some m =>
        have htype : (ctx.source m "value").type? = none := by
          by_contra htype
          exact hvalue ⟨m, hm, htype⟩
        dsimp only
        rw [htype]
        exact mem_reportReturns_iff ctx hr m e

/-- **The body of a function reports what the inputs call for that it reads.** -/
theorem mem_diagnostics_body_iff (hr : r.IsAboutInput) :
    r ∈ (writeFunctionBody ctx).findings.diagnostics
      ↔ ∃ n slot, (Writing.ofRoutine (ctx.blueprint.nodes.filter ctx.isFunctionEntry)
        (danglingReports ctx)).Reads ctx n slot ∧ ctx.CallsFor n slot r := by
  have hdangling : r ∉ (danglingReports ctx).diagnostics := not_mem_danglingReports hr
  rw [writeFunctionBody]
  cases ctx.blueprint.nodes.filter ctx.isFunctionEntry with
  | nil =>
      constructor
      · intro h
        exact absurd h hdangling
      · rintro ⟨n, slot, ⟨block, active, hcomes⟩, -⟩
        exact absurd hcomes Writing.not_comes_nil
  | cons entry rest =>
      exact (mem_diagnostics_routine_iff hr (entry :: rest) _).trans (or_iff_right hdangling)

/-- **The reports of a function about inputs.** -/
theorem mem_diagnostics_function_iff (hr : r.IsAboutInput) :
    r ∈ (FunctionUnit.build ctx).findings.diagnostics
      ↔ ∃ n slot, ctx.FunctionReads n slot ∧ ctx.CallsFor n slot r := by
  refine (mem_diagnostics_writeReturn_iff hr (writeFunctionBody ctx)).trans ?_
  rw [mem_diagnostics_body_iff hr]
  constructor
  · rintro (⟨n, slot, hreads, hcalls⟩ | ⟨m, hm, htype, n, slot, hreads, hcalls⟩)
    · exact ⟨n, slot, .body hreads, hcalls⟩
    · exact ⟨n, slot, .value hm htype hreads, hcalls⟩
  · rintro ⟨n, slot, hreads | ⟨hm, htype, hreads⟩, hcalls⟩
    · exact Or.inl ⟨n, slot, hreads, hcalls⟩
    · exact Or.inr ⟨_, hm, htype, n, slot, hreads, hcalls⟩

end Routines

/-- **The reports of a unit about inputs** are those that the inputs call for
    that it reads. -/
theorem mem_diagnostics_compile_iff {b : Blueprint} {catalog : Catalog} {options : Options}
    {time : String} {r : Diagnostic} (hr : r.IsAboutInput) :
    r ∈ (compile b catalog options time).diagnostics
      ↔ ∃ n slot, (Context.of b catalog options).UnitReads n slot
        ∧ (Context.of b catalog options).CallsFor n slot r := by
  have hblueprint : (Context.of b catalog options).blueprint = b := rfl
  rw [compile]
  simp only [Context.UnitReads, hblueprint]
  cases hkind : b.kind with
  | function => exact mem_diagnostics_function_iff hr
  | component =>
      refine (mem_diagnostics_methods_iff hr Hook.all _).trans ?_
      rw [or_iff_right (not_mem_danglingReports hr), Context.starts, hblueprint, hkind]
      constructor
      · rintro ⟨start, hstart, n, slot, hreads, hcalls⟩
        exact ⟨n, slot, ⟨start, hstart, hreads⟩, hcalls⟩
      · rintro ⟨n, slot, ⟨start, hstart, hreads⟩, hcalls⟩
        exact ⟨start, hstart, n, slot, hreads, hcalls⟩

/-! ## What a unit reads -/

section Reading

variable {b : Blueprint} {catalog : Catalog} {options : Options} {n m : Node} {slot : String}

/-- What a routine of a unit reads, the unit reads. -/
theorem unitReads_of_start {ctx : Context} {start : List Node × Findings}
    (hstart : start ∈ ctx.starts) (h : (Writing.ofRoutine start.1 start.2).Reads ctx n slot) :
    ctx.UnitReads n slot := by
  rw [Context.UnitReads]
  cases hkind : ctx.blueprint.kind with
  | function =>
      rw [Context.starts, hkind] at hstart
      obtain rfl := List.mem_singleton.1 hstart
      exact .body h
  | component => exact ⟨start, hstart, h⟩

theorem not_has_new {s : Statement} : ¬(Arena.new : Arena Statement).Has s := by
  rintro ⟨x, i, hline⟩
  rw [Arena.body_new] at hline
  cases hline

/-- A routine that has not begun states nothing. -/
theorem not_has_ofRoutine (ctx : Context) (entries : List Node) (f : Findings) {s : Statement}
    (hs : s.isBare = false) : ¬(Writing.ofRoutine entries f).emission.blocks.Has s := by
  show ¬(entrySteps entries { findings := f }).2.blocks.Has s
  rw [entrySteps_eq, (goesOn_entries ctx entries f).quiet.has_iff hs]
  exact not_has_new

section Assigned

variable {id name type : String} {d : Definition} {kind : PureKind} {x : Expr}
  (hn : (Index.build b).node? id = some n) (hd : catalog.find? n.definitionId = some d)
  (hkind : NodeKind.ofDefinition? d.id = some (.pure kind))
  (hresult : (Context.of b catalog options).result? n d = some (name, type))
  (hslot : slot ∈ kind.slots)

include hn hd hkind hresult hslot

/-- A routine reads the inputs of the pure nodes whose temporaries it
    assigns. -/
theorem reads_of_has_routine {entries : List Node} {f : Findings}
    (h : (writeRoutine (.of b catalog options) entries f).blocks.Has (.assign name x)) :
    (Writing.ofRoutine entries f).Reads (.of b catalog options) n slot := by
  rw [← Writing.outcome_ofRoutine] at h
  refine Writing.reads_of_assigned (placed_ofRoutine _ entries f) (fed_ofRoutine _ entries f)
    (Writing.regular_ofRoutine _ entries f) hn hd hkind hresult ?_
    (not_has_ofRoutine (.of b catalog options) entries f rfl) h hslot
  refine Writing.forall_mem_ofRoutine ?_ entries f
  intro step block n d kind name type heq
  cases heq

/-- The inputs of a pure node that the body of a function assigns have been read. -/
theorem reads_of_has_body
    (h : (writeFunctionBody (.of b catalog options)).blocks.Has (.assign name x)) :
    (Context.of b catalog options).FunctionReads n slot := by
  rw [writeFunctionBody] at h
  refine .body ?_
  cases hentries : (Context.of b catalog options).blueprint.nodes.filter
      (Context.of b catalog options).isFunctionEntry with
  | nil =>
      rw [hentries] at h
      exact absurd (((Arena.quietly_line .new Arena.root rfl).has_iff rfl).1 h) not_has_new
  | cons entry rest =>
      rw [hentries] at h
      exact reads_of_has_routine hn hd hkind hresult hslot h

/-- A function reads the inputs of the pure nodes whose temporaries it
    assigns, be it for the value that it gives back. -/
theorem reads_of_has_function
    (h : (FunctionUnit.build (.of b catalog options)).routine.blocks.Has (.assign name x)) :
    (Context.of b catalog options).FunctionReads n slot := by
  have hend : (writeReturn (.of b catalog options)
      (writeFunctionBody (.of b catalog options))).2.blocks.Has (.assign name x) := h
  rcases writeReturn_cases (.of b catalog options) (writeFunctionBody (.of b catalog options)) with
    hsame | ⟨m, hm, htype⟩
  · rw [hsame] at hend
    exact reads_of_has_body hn hd hkind hresult hslot hend
  · have hroot := root_lt_size_beforeReturn (.of b catalog options) m
    rw [blocks_writeReturn_of_value hm htype,
      Arena.has_line_iff (root_lt_size_ofReturn _ hroot m)] at hend
    have hread := hend.resolve_right fun hgives => by cases hgives
    by_cases hold : (Writing.ofReturn m (beforeReturn (.of b catalog options) m
        (writeFunctionBody (.of b catalog options)))).emission.blocks.Has (.assign name x)
    · -- the line was there before the value was read
      have hquiet := (quietly_beforeReturn (.of b catalog options) m
        (writeFunctionBody (.of b catalog options))).1
      exact reads_of_has_body hn hd hkind hresult hslot ((hquiet.has_iff rfl).1 hold)
    · refine .value hm htype (Writing.reads_of_assigned (placed_ofReturn _ hroot m) ?_ ?_ hn hd
        hkind hresult ?_ hold hread hslot)
      · refine Writing.forall_mem_ofReturn ?_ _
        intro n slot huses
        cases huses
      · exact Writing.regular_ofReturn _ m _
      · refine Writing.forall_mem_ofReturn ?_ _
        intro block n d kind name type heq
        cases heq

/-- **A unit reads the inputs of the pure nodes whose temporaries it
    assigns.** -/
theorem unitReads_of_assigned {routine : Routine}
    (hroutine : routine ∈ (Context.of b catalog options).routines)
    (h : routine.blocks.Has (.assign name x)) :
    (Context.of b catalog options).UnitReads n slot := by
  have hblueprint : (Context.of b catalog options).blueprint = b := rfl
  rw [Context.routines, hblueprint] at hroutine
  cases hof : b.kind with
  | function =>
      rw [hof] at hroutine
      obtain rfl := List.mem_singleton.1 hroutine
      rw [Context.UnitReads, hblueprint, hof]
      exact reads_of_has_function hn hd hkind hresult hslot h
  | component =>
      rw [hof] at hroutine
      have hmethods := routines_methods (.of b catalog options) Hook.all
        (danglingReports (.of b catalog options))
      have hstarts : (Context.of b catalog options).starts
          = methodStarts (.of b catalog options) Hook.all
            (danglingReports (.of b catalog options)) := by
        rw [Context.starts, hblueprint, hof]
      obtain ⟨start, hstart, rfl⟩ := List.mem_map.1
        (show routine ∈ List.map _ _ from hmethods ▸ hroutine)
      rw [← hstarts] at hstart
      exact unitReads_of_start hstart (reads_of_has_routine hn hd hkind hresult hslot h)

end Assigned

/-! ## The return node -/

/-- To read an input notes no return. -/
theorem returnNode_noted (ctx : Context) (active : List String) (n : Node) (slot : String)
    (e : Emission) :
    (readWith ctx (fun _ e => e) active n slot e).2.routine.returnNode = e.routine.returnNode := by
  have hfanIn : (e.reportFanIn ctx n slot).routine = e.routine := by
    rw [Emission.reportFanIn]
    split
    · rfl
    · rfl
  have hnoValue : ∀ e : Emission, (e.reportNoValue ctx n slot).routine = e.routine := by
    intro e
    rw [Emission.reportNoValue]
    split
    · rfl
    · rfl
  rw [readWith]
  cases ctx.source n slot with
  | literal v kind => exact congrArg Routine.returnNode hfanIn
  | parameter name type => exact congrArg Routine.returnNode hfanIn
  | temporary name output kind =>
      have hdeclare := Emission.untouched_returnNode.declare (e.reportFanIn ctx n slot) name
        kind.typeName
      dsimp only
      split
      · exact hdeclare.trans (congrArg Routine.returnNode hfanIn)
      · exact hdeclare.trans (congrArg Routine.returnNode hfanIn)
  | undefined => exact congrArg Routine.returnNode ((hnoValue _).trans hfanIn)

/-- The node that was noted for the return is a return node. -/
def Emission.NotesReturn (ctx : Context) (e : Emission) : Prop :=
  ∀ id, e.routine.returnNode = some id →
    ∃ n, ctx.index.node? id = some n ∧ ctx.catalog.kind? n = some .functionReturn

/-- **A turn notes return nodes only.** -/
theorem notesReturn_perform_iff {job : Job} (hregular : job.Regular (.of b catalog options))
    (e : Emission) : (job.perform (.of b catalog options) e).2.NotesReturn (.of b catalog options)
      ↔ e.NotesReturn (.of b catalog options) := by
  obtain ⟨e', hnotes, hview⟩ := exists_notes Emission.untouched_returnNode
    (.of b catalog options) job e
  rw [Emission.NotesReturn, hview]
  cases hnotes with
  | nothing h => rfl
  | reported h hmessage => rfl
  | looked h => rw [returnNode_noted, Emission.NotesReturn]
  | @returned block n d h =>
      subst h
      obtain ⟨⟨id, hn⟩, hd, hkind⟩ := hregular
      have hreturn : ∃ n', (Index.build b).node? n.id = some n'
          ∧ catalog.kind? n' = some .functionReturn := by
        refine ⟨n, ?_, ?_⟩
        · rw [Index.id_of_node?_build hn]
          exact hn
        · rw [Catalog.kind?, show catalog.find? n.definitionId = some d from hd]
          exact hkind
      rw [Emission.NotesReturn]
      show (∀ id, e.routine.returnNode.or (some n.id) = some id → _) ↔ _
      cases e.routine.returnNode with
      | none =>
          constructor
          · intro _ id hid
            cases hid
          · rintro - id hid
            obtain rfl := Option.some.inj hid
            exact hreturn
      | some id => rfl

/-- The body of a function notes return nodes only. -/
theorem notesReturn_writeFunctionBody :
    (writeFunctionBody (.of b catalog options)).NotesReturn (.of b catalog options) := by
  rw [writeFunctionBody]
  cases (Context.of b catalog options).blueprint.nodes.filter
      (Context.of b catalog options).isFunctionEntry with
  | nil =>
      intro id hid
      cases hid
  | cons entry rest =>
      have hrun := Writing.outcome_iff (I := Writing.Regular (.of b catalog options))
        (P := fun e => e.NotesReturn (.of b catalog options)) (Q := fun _ => False)
        (fun w h => h.iterate 1)
        (fun job rest e h => (notesReturn_perform_iff (h job (List.mem_cons_self ..)) e).trans
          (or_iff_left not_false).symm)
        (Writing.regular_ofRoutine _ (entry :: rest) (danglingReports (.of b catalog options)))
      rw [Writing.outcome_ofRoutine] at hrun
      refine hrun.2 (Or.inl ?_)
      -- a routine that has not begun has noted no node
      intro id hid
      have hstart : (Writing.ofRoutine (entry :: rest)
          (danglingReports (.of b catalog options))).emission.routine.returnNode = none := by
        show (entrySteps (entry :: rest) _).2.routine.returnNode = none
        rw [entrySteps_eq]
        exact Emission.untouched_returnNode.uncoded.spread Arena.root _ _
      rw [hstart] at hid
      cases hid

/-- **The value that is given back is that of a return node.** -/
theorem kind_of_returnNode? (hm : returnNode? (.of b catalog options)
    (writeFunctionBody (.of b catalog options)).routine = some m) :
    m ∈ b.nodes ∧ catalog.kind? m = some .functionReturn := by
  rw [returnNode?] at hm
  cases hnoted : (writeFunctionBody (.of b catalog options)).routine.returnNode.bind
      (Context.of b catalog options).index.node? with
  | none =>
      rw [hnoted] at hm
      have hfirst : m ∈ (Context.of b catalog options).nodesOfKind .functionReturn :=
        List.mem_of_mem_head? hm
      obtain ⟨hmem, hkind⟩ := List.mem_filter.1 hfirst
      exact ⟨hmem, eq_of_beq hkind⟩
  | some m' =>
      rw [hnoted] at hm
      obtain rfl : m' = m := Option.some.inj hm
      obtain ⟨id, hid, hnode⟩ := Option.bind_eq_some_iff.1 hnoted
      obtain ⟨n, hn, hkind⟩ := notesReturn_writeFunctionBody id hid
      obtain rfl : m' = n := Option.some.inj (hnode.symm.trans hn)
      exact ⟨Index.mem_of_node?_build hn, hkind⟩

/-- A return node has no inputs that a routine reads. -/
theorem not_reads_return {entries : List Node} {f : Findings}
    (hnodup : (b.nodes.map Node.id).Nodup) (hm : m ∈ b.nodes)
    (hkind : catalog.kind? m = some .functionReturn) (hid : n.id = m.id) :
    ¬(Writing.ofRoutine entries f).Reads (.of b catalog options) n slot := by
  intro hreads
  obtain rfl : n = m := by
    have hn : n ∈ b.nodes := by
      obtain ⟨block, active, hcomes⟩ := hreads
      exact hcomes.of_handed (Q := Job.Within (· ∈ b.nodes))
        (fun job e _ => within_perform (fun id n => Index.mem_of_node?_build) job e)
        (Writing.forall_mem_ofRoutine (fun _ => trivial) entries f)
    exact List.inj_on_of_nodup_map hnodup hn hm hid
  obtain ⟨job, hcomes, huses⟩ := hreads.exists_uses
    (followed_of_idle (Writing.forall_mem_ofRoutine (fun _ => rfl) entries f))
  have hregular := hcomes.regular (Writing.regular_ofRoutine _ entries f)
  have hkind_eq : ∀ {d kind}, catalog.find? n.definitionId = some d →
      NodeKind.ofDefinition? d.id = some kind → kind = .functionReturn := by
    intro d kind hd hof
    rw [Catalog.kind?, hd] at hkind
    exact Option.some.inj (hof.symm.trans hkind)
  -- what uses an input of the node computes it or leaves it, as what it is
  cases job with
  | assign block n' d kind name type =>
      obtain ⟨rfl, -⟩ := huses
      cases hkind_eq hregular.1 hregular.2.1
  | leave block n' d kind =>
      obtain ⟨rfl, hslot⟩ := huses
      obtain rfl := hkind_eq hregular.2.1 hregular.2.2
      exact absurd hslot List.not_mem_nil
  | visit step => exact huses
  | read block active n slot => exact huses
  | compute block active id => exact huses
  | settle id => exact huses
  | endRead => exact huses

end Reading

/-! ## The reports of a unit -/

theorem Source.type?_ne_none {x : Source} (h : x ≠ .undefined) : x.type? ≠ none := by
  cases x with
  | undefined => exact absurd rfl h
  | literal v kind => exact Option.some_ne_none _
  | parameter name type => exact Option.some_ne_none _
  | temporary name output kind => exact Option.some_ne_none _

/-- **Degraded values are reported, but for the one that a function would give
    back.**  All reports are made that the inputs call for whose values a node
    takes that a routine visits, and those of the pure nodes whose temporaries
    it assigns.  The return node of a function calls for its reports if there
    is a value to give back.  If there is none, what it calls for is not
    reported, unless a node of the same id calls for the same. -/
theorem degraded_values_reported (b : Blueprint) (catalog : Catalog) (options : Options)
    (time : String) :
    let ctx := Context.of b catalog options
    let reports := (compile b catalog options time).diagnostics
    (∀ start ∈ ctx.starts, ∀ v ∈ ctx.visitsFrom start, ∀ kind, catalog.kind? v.2 = some kind →
        ∀ slot ∈ kind.slots ctx v.2, ∀ r, ctx.CallsFor v.2 slot r → r ∈ reports)
      ∧ (∀ routine ∈ ctx.routines, ∀ id n d kind name type x,
        (Index.build b).node? id = some n → catalog.find? n.definitionId = some d →
        NodeKind.ofDefinition? d.id = some (.pure kind) → ctx.result? n d = some (name, type) →
        routine.blocks.Has (.assign name x) →
        ∀ slot ∈ kind.slots, ∀ r, ctx.CallsFor n slot r → r ∈ reports)
      ∧ (b.kind = .function → ∀ m, returnNode? ctx (writeFunctionBody ctx).routine = some m →
        ∀ r, ctx.CallsFor m "value" r →
          (ctx.source m "value" ≠ .undefined → r ∈ reports)
          ∧ (ctx.source m "value" = .undefined →
            (r ∈ reports ↔ ∃ n slot, n.id = m.id ∧ ctx.UnitReads n slot ∧ ctx.CallsFor n slot r)
            ∧ ((b.nodes.map Node.id).Nodup → r ∉ reports))) := by
  intro ctx reports
  refine ⟨?_, ?_, ?_⟩
  · intro start hstart v hv kind hkind slot hslot r hr
    refine (mem_diagnostics_compile_iff hr.isAboutInput).2 ⟨v.2, slot, ?_, hr⟩
    exact unitReads_of_start hstart (reads_of_mem_visits hv hkind hslot)
  · intro routine hroutine id n d kind name type x hn hd hkind hresult hhas slot hslot r hr
    refine (mem_diagnostics_compile_iff hr.isAboutInput).2 ⟨n, slot, ?_, hr⟩
    exact unitReads_of_assigned hn hd hkind hresult hslot hroutine hhas
  · intro hfunction m hm r hr
    have hreads : ∀ n slot, ctx.UnitReads n slot ↔ ctx.FunctionReads n slot := by
      intro n slot
      rw [Context.UnitReads, show ctx.blueprint.kind = .function from hfunction]
    constructor
    · intro hvalue
      -- the value is read first of all when the function is ended
      refine (mem_diagnostics_compile_iff hr.isAboutInput).2 ⟨m, "value", ?_, hr⟩
      refine (hreads m "value").2 (.value hm (Source.type?_ne_none hvalue) ?_)
      exact ⟨Arena.root, [], Writing.comes_cons_iff.2 (Or.inl rfl)⟩
    · intro hundefined
      have hiff : r ∈ reports
          ↔ ∃ n slot, n.id = m.id ∧ ctx.UnitReads n slot ∧ ctx.CallsFor n slot r := by
        refine (mem_diagnostics_compile_iff hr.isAboutInput).trans ?_
        constructor
        · rintro ⟨n, slot, hread, hcalls⟩
          exact ⟨n, slot, Option.some.inj (hcalls.node_eq.symm.trans hr.node_eq), hread, hcalls⟩
        · rintro ⟨n, slot, -, hread, hcalls⟩
          exact ⟨n, slot, hread, hcalls⟩
      refine ⟨hiff, ?_⟩
      -- in the body a return node has no inputs, and at the end nothing is read
      intro hnodup hreport
      obtain ⟨n, slot, hid, hread, -⟩ := hiff.1 hreport
      obtain ⟨hmem, hkind⟩ := kind_of_returnNode? hm
      rcases (hreads n slot).1 hread with hbody | ⟨hm', hvalue, -⟩
      · exact not_reads_return hnodup hmem hkind hid hbody
      · obtain rfl := Option.some.inj (hm.symm.trans hm')
        rw [hundefined] at hvalue
        exact hvalue rfl

/-! ### A function without a value to give back -/

namespace LostReturn

def say : Node := ⟨"say", "print", "", {}, [], []⟩
def done : Node := ⟨"done", "function_return", "", {}, [], []⟩
def sum : Node := ⟨"sum", "add_numbers", "", {}, [], []⟩

def said : Connection := ⟨"c4", ⟨"idle", "missing"⟩, ⟨"say", "value"⟩⟩
def once : Connection := ⟨"c6", ⟨"one", "value"⟩, ⟨"sum", "a"⟩⟩
def again : Connection := ⟨"c7", ⟨"one", "value"⟩, ⟨"sum", "a"⟩⟩
def given : Connection := ⟨"c8", ⟨"idle", "missing"⟩, ⟨"done", "value"⟩⟩

/-- The first print and the return read an output that does not exist; the
    second print reads a sum, one of whose terms is connected twice. -/
def blueprint : Blueprint where
  kind := .function
  nodes := [⟨"begin", "function_start", "", {}, [], []⟩, say, ⟨"shout", "print", "", {}, [], []⟩,
    done, sum, ⟨"one", "number_constant", "", {}, [], []⟩, ⟨"idle", "print", "", {}, [], []⟩]
  connections := [⟨"c1", ⟨"begin", "exec"⟩, ⟨"say", "exec"⟩⟩,
    ⟨"c2", ⟨"say", "exec"⟩, ⟨"shout", "exec"⟩⟩, ⟨"c3", ⟨"shout", "exec"⟩, ⟨"done", "exec"⟩⟩,
    said, ⟨"c5", ⟨"sum", "result"⟩, ⟨"shout", "value"⟩⟩, once, again, given]

abbrev context : Context := .of blueprint .builtin {}

theorem inputs_without_values :
    (∃ start ∈ context.starts, ∃ v ∈ context.visitsFrom start, v.2 = say)
      ∧ Catalog.builtin.kind? say = some .print
      ∧ "value" ∈ NodeKind.print.slots context say
      ∧ context.source say "value" = .undefined
      ∧ context.index.feeding? ⟨"say", "value"⟩ = some said
      ∧ (∃ routine ∈ context.routines, (routine.blocks.body 1)[4]?
        = some (.line (.assign "add_4_result"
          (.call .add [.temporary "numberconstant_5_value", .literal (.int 0)]))))
      ∧ (∃ d ∈ Catalog.builtin.definitions, Catalog.builtin.find? sum.definitionId = some d
        ∧ NodeKind.ofDefinition? d.id = some (.pure (.math .add))
        ∧ context.result? sum d = some ("add_4_result", "number"))
      ∧ context.index.node? "sum" = some sum
      ∧ context.index.incoming ⟨"sum", "a"⟩ = [once, again]
      ∧ returnNode? context (writeFunctionBody context).routine = some done
      ∧ context.source done "value" = .undefined
      ∧ context.index.feeding? ⟨"done", "value"⟩ = some given
      ∧ (blueprint.nodes.map Node.id).Nodup := by
  decide +kernel

/-- What the print and the sum call for is reported, what the return calls for
    is not. -/
theorem print_reported_and_return_not :
    noValueReport say "value" said ∈ (compile blueprint .builtin {} "").diagnostics
      ∧ fanInReport sum "a" once 2 ∈ (compile blueprint .builtin {} "").diagnostics
      ∧ context.CallsFor done "value" (noValueReport done "value" given)
      ∧ noValueReport done "value" given ∉ (compile blueprint .builtin {} "").diagnostics := by
  obtain ⟨⟨start, hstart, v, hv, hsay⟩, hprint, hslot, hnothing, hsaid, ⟨routine, hroutine, hline⟩,
    ⟨d, -, hd, hadd, hresult⟩, hsum, hterms, hdone, hundefined, hgiven, hnodup⟩ := inputs_without_values
  obtain ⟨hvisited, hassigned, hreturn⟩ := degraded_values_reported blueprint .builtin {} ""
  have hlost : context.CallsFor v.2 "value" (noValueReport say "value" said) := by
    rw [hsay]
    exact .noValue hsaid hnothing
  have htwice : context.CallsFor sum "a" (fanInReport sum "a" once [once, again].length) :=
    .fanIn hterms
  have hcalls : context.CallsFor done "value" (noValueReport done "value" given) :=
    .noValue hgiven hundefined
  rw [← hsay] at hprint hslot
  have hslots : "a" ∈ (PureKind.math .add).slots := List.mem_cons_self ..
  refine ⟨?_, ?_, hcalls, ?_⟩
  · exact hvisited start hstart v hv .print hprint "value" hslot _ hlost
  · exact hassigned routine hroutine "sum" sum d (.math .add) "add_4_result" "number" _ hsum hd
      hadd hresult ⟨1, 4, hline⟩ "a" hslots _ htwice
  · exact ((hreturn rfl done hdone _ hcalls).2 hundefined).2 hnodup

end LostReturn

end Blueprints
