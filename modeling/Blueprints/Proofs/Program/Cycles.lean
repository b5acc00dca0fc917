import Blueprints.Proofs.Emit.Cycles
import Blueprints.Proofs.Program.Degradation

/-! # Circles among the values of a unit

    A pure node that is needed for its own value is reported where it is met.
    Over the palette this is exact, if control comes to no pure node
    (`circles_reported_exactly`): there is such a report exactly if an input that
    is read leads to a circle, and each report names a node on one.  Values that
    several nodes share are no circles.

    A pure node to which control does come is on its own path and counts as
    computed while it is being written, so that it is not reported for reading
    itself.  No edge is needed for that: ids stand for the first node that has
    them, and a start node can have that of a pure one (`SharedId`). -/

namespace Blueprints

open Relation (ReflTransGen TransGen)

/-! ## Routines -/

/-- Control comes to no pure node: nothing leads to one, and no routine starts at
    the id of one. -/
structure Context.SparesPure (ctx : Context) : Prop where
  ways : ∀ n ∈ ctx.blueprint.nodes, ∀ y ∈ ctx.successors n,
    ctx.index.isPure ctx.catalog y = false
  entries : ∀ start ∈ ctx.starts, ∀ n ∈ start.1, ctx.index.isPure ctx.catalog n.id = false

/-- A visit of a routine reads an input. -/
def Context.VisitAsks (ctx : Context) (start : List Node × Findings) (n : Node) (slot : String) :
    Prop :=
  ∃ v ∈ ctx.visitsFrom start, n = v.2 ∧ ctx.Asks n slot

/-- A unit reads an input for a node that is visited, or for the value of the
    return node of a function. -/
def Context.Demands (ctx : Context) (n : Node) (slot : String) : Prop :=
  (∃ start ∈ ctx.starts, ctx.VisitAsks start n slot)
    ∨ ctx.blueprint.kind = .function ∧ returnNode? ctx (writeFunctionBody ctx).routine = some n
      ∧ slot = "value"

/-- The report about a return in a hook is not one of a circle. -/
theorem circleReport_mem_reportReturn_iff (hook : Hook) (r : Routine) (f : Findings)
    (id : String) :
    circleReport id ∈ (reportReturn hook r f).diagnostics ↔ circleReport id ∈ f.diagnostics := by
  rw [reportReturn]
  cases r.returnNode with
  | none => rfl
  | some node =>
      exact Diagnostics.mem_report_iff.trans (or_iff_left (circleReport_ne (Or.inl (by decide))))

/-- Nor is one about a dangling connection. -/
theorem circleReport_notMem_danglingReports (ctx : Context) (id : String) :
    circleReport id ∉ (danglingReports ctx).diagnostics := by
  refine danglingReports_induction ctx (P := fun f => circleReport id ∉ f.diagnostics)
    List.not_mem_nil fun f c hf h => ?_
  rcases Diagnostics.mem_report_iff.1 h with hold | hnew
  · exact hf hold
  · exact circleReport_ne (Or.inl (by decide)) hnew

/-- That there are several return nodes is no report of a circle. -/
theorem calm_reportReturns (ctx : Context) (m : Node) (e : Emission) :
    let count := (ctx.nodesOfKind .functionReturn).length
    e.Calm (if count > 1 then
        e.report .shapeAmbiguity m.id s!"blueprint has {count} return nodes; only '{m.id}' is used"
      else e) := by
  intro count
  split
  · refine .report (Or.inr ?_) e
    simp only [String.toList_append, List.head?_append]
    show some 'b' ≠ some 'd'
    decide
  · exact .refl e

/-- What comes ahead of a return searches nothing. -/
theorem calm_beforeReturn (ctx : Context) (m : Node) (e : Emission) :
    e.Calm (beforeReturn ctx m e) := by
  refine (calm_reportReturns ctx m e).trans ?_
  rw [beforeReturn]
  generalize (if (ctx.nodesOfKind .functionReturn).length > 1 then e.report _ m.id _ else e)
    = reported
  have hforget : ∀ e : Emission, e.Calm (e.onPath .empty) :=
    fun e => ⟨fun hy => hy.elim (fun hpath => absurd hpath List.not_mem_nil) Or.inr, Iff.rfl⟩
  refine Emission.Calm.trans ?_ (hforget _)
  split
  · exact .refl reported
  · exact .emit ..

section Routines

variable {ctx : Context} (complete : ctx.Complete)

include complete

/-- **A routine covers what its visits ask for**, if it visits no pure node. -/
theorem covers_writeRoutine {start : List Node × Findings}
    (hpure : ∀ v ∈ ctx.visitsFrom start, ctx.index.isPure ctx.catalog v.1.node = false) :
    Covers ctx (ctx.VisitAsks start) start.2.diagnostics
      (writeRoutine ctx start.1 start.2).findings.diagnostics := by
  have hstart := entrySteps_eq start.1 { findings := start.2 }
  have hsame : (entrySteps start.1 { findings := start.2 }).2.findings.diagnostics
      = start.2.diagnostics := by
    rw [hstart]
    exact Emission.untouched_diagnostics.uncoded.spread Arena.root _ { findings := start.2 }
  have hfresh : (entrySteps start.1 { findings := start.2 }).2.fresh = [] := by
    rw [hstart]
    exact unwritten_fresh.uncoded.spread Arena.root _ { findings := start.2 }
  have hwalk := covers_walk complete hpure hfresh fun _ step hstep y hy => by
    rw [(mem_entrySteps hstep).1] at hy
    cases hy
  rw [hsame] at hwalk
  exact hwalk

/-- Methods search one after the other, by induction on the hooks. -/
theorem covers_methods (hooks : List Hook) (f : Findings)
    (hpure : ∀ start ∈ methodStarts ctx hooks f, ∀ v ∈ ctx.visitsFrom start,
      ctx.index.isPure ctx.catalog v.1.node = false) :
    Covers ctx (fun n slot => ∃ start ∈ methodStarts ctx hooks f, ctx.VisitAsks start n slot)
      f.diagnostics (writeMethods ctx hooks f).2.diagnostics := by
  induction hooks generalizing f with
  | nil =>
      refine .of_same (fun _ => Iff.rfl) ?_
      rintro n slot ⟨start, hstart, -⟩
      cases hstart
  | cons hook rest ih =>
      rw [methodStarts] at hpure ⊢
      rw [writeMethods]
      cases hentries : hookEntries ctx hook with
      | nil =>
          rw [hentries] at hpure
          exact ih f hpure
      | cons entry others =>
          rw [hentries] at hpure
          dsimp only at hpure ⊢
          have hfirst := covers_writeRoutine complete (hpure _ (List.mem_cons_self ..))
          have hreturn : Covers ctx (fun _ _ => False)
              (writeRoutine ctx (entry :: others) f).findings.diagnostics _ :=
            .of_same (circleReport_mem_reportReturn_iff hook
              (writeRoutine ctx (entry :: others) f).routine _) fun _ _ => id
          have hrest := ih _ fun start hstart => hpure start (List.mem_cons_of_mem _ hstart)
          refine ((hfirst.trans hreturn).trans hrest).congr fun n slot => ?_
          simp only [or_false, List.mem_cons, exists_eq_or_imp]

/-! ## Functions -/

/-- The return of a function searches what its value leads to. -/
theorem covers_writeReturn {e : Emission} (hfresh : e.fresh = []) :
    Covers ctx (fun n slot => returnNode? ctx e.routine = some n ∧ slot = "value")
      e.findings.diagnostics (writeReturn ctx e).2.findings.diagnostics := by
  cases hm : returnNode? ctx e.routine with
  | none =>
      rw [writeReturn, hm]
      refine .of_same (fun _ => Iff.rfl) ?_
      rintro n slot ⟨hn, -⟩
      cases hn
  | some m =>
      cases htype : (ctx.source m "value").type? with
      | none =>
          rw [writeReturn, hm]
          dsimp only
          rw [htype]
          have hcalm := calm_reportReturns ctx m e
          refine ⟨hcalm.warns.2, fun hid => Or.inl (hcalm.warns.1 hid), fun _ n slot x hreads => ?_⟩
          -- nothing feeds an input without a source
          obtain ⟨hn, rfl⟩ := hreads
          obtain rfl := Option.some.inj hn
          rintro ⟨t, output, kind, hsource, -⟩
          rw [hsource] at htype
          cases htype
      | some type =>
          rw [writeReturn_of_value hm (by rw [htype]; exact Option.some_ne_none type)]
          have hcalm := calm_beforeReturn ctx m e
          have hexplored : (beforeReturn ctx m e).Explored ctx := by
            rintro y - (hpath | hin)
            · cases hpath
            · rw [(quietly_beforeReturn ctx m e).2, hfresh] at hin
              cases hin
          have hread : Explores ctx
              (fun x => ∃ n slot, (some m = some n ∧ slot = "value") ∧ ctx.Feeds n slot x)
              (beforeReturn ctx m e)
              (readInput ctx m "value" Arena.root (beforeReturn ctx m e)).2 :=
            (explores_readInput complete Arena.root m "value" _).congr fun x => by simp
          have hvalue := (hread.before (.emit _ Arena.root (.giveBack
            (readInput ctx m "value" Arena.root (beforeReturn ctx m e)).1))).covers hexplored
          exact ⟨fun hid => hvalue.kept (hcalm.warns.2 hid),
            fun hid => (hvalue.sound hid).imp_left hcalm.warns.1, hvalue.complete⟩

/-- A function covers that and the value that it gives back. -/
theorem covers_function
    (hpure : ∀ v ∈ ctx.visitsFrom (ctx.blueprint.nodes.filter ctx.isFunctionEntry,
      danglingReports ctx), ctx.index.isPure ctx.catalog v.1.node = false) :
    Covers ctx (fun n slot =>
        ctx.VisitAsks (ctx.blueprint.nodes.filter ctx.isFunctionEntry, danglingReports ctx) n slot
          ∨ returnNode? ctx (writeFunctionBody ctx).routine = some n ∧ slot = "value")
      (danglingReports ctx).diagnostics (FunctionUnit.build ctx).findings.diagnostics := by
  have hbody : (writeFunctionBody ctx).fresh = []
      ∧ Covers ctx
        (ctx.VisitAsks (ctx.blueprint.nodes.filter ctx.isFunctionEntry, danglingReports ctx))
        (danglingReports ctx).diagnostics (writeFunctionBody ctx).findings.diagnostics := by
    have hroutine := covers_writeRoutine complete hpure
    rw [writeFunctionBody]
    cases hentries : ctx.blueprint.nodes.filter ctx.isFunctionEntry with
    | nil =>
        refine ⟨rfl, .of_same (fun _ => Iff.rfl) ?_⟩
        rintro n slot ⟨v, hv, -⟩
        rw [Context.visitsFrom, entrySteps] at hv
        dsimp only at hv
        rw [visits] at hv
        cases hv
    | cons entry rest =>
        rw [hentries] at hroutine
        exact ⟨fresh_writeRoutine .., hroutine⟩
  exact hbody.2.trans (covers_writeReturn complete hbody.1)

end Routines

/-! ## Units -/

/-- Where control is spared pure nodes, none is visited. -/
theorem Context.SparesPure.visits {b : Blueprint} {catalog : Catalog} {options : Options}
    (h : (Context.of b catalog options).SparesPure) {start : List Node × Findings}
    (hstart : start ∈ (Context.of b catalog options).starts) :
    ∀ v ∈ (Context.of b catalog options).visitsFrom start,
      (Context.of b catalog options).index.isPure catalog v.1.node = false := by
  intro v hv
  refine (visits_sound
    (P := fun id => (Context.of b catalog options).index.isPure catalog id = false)
    ?_ _ _ (fun step hstep => ?_) v hv).1
  · rintro x y - ⟨n, hn, hy⟩
    exact h.ways n (Index.mem_of_node?_build hn) y hy
  · obtain ⟨-, entry, hentry, hnode⟩ := mem_entrySteps hstep
    rw [hnode]
    exact h.entries start hstart entry hentry

/-- **A unit covers all that it demands**, if control comes to no pure node. -/
theorem covers_compile {b : Blueprint} {catalog : Catalog} {options : Options}
    (complete : (Context.of b catalog options).Complete)
    (h : (Context.of b catalog options).SparesPure) (time : String) :
    Covers (.of b catalog options) (Context.of b catalog options).Demands
      (danglingReports (.of b catalog options)).diagnostics
      (compile b catalog options time).diagnostics := by
  have hblueprint : (Context.of b catalog options).blueprint = b := rfl
  rw [compile]
  cases hkind : b.kind with
  | function =>
      have hstarts : (Context.of b catalog options).starts
          = [(b.nodes.filter (Context.of b catalog options).isFunctionEntry,
            danglingReports (.of b catalog options))] := by
        rw [Context.starts, hblueprint, hkind]
      have hvisits := h.visits (hstarts ▸ List.mem_singleton_self _)
      refine (covers_function complete hvisits).congr fun n slot => ?_
      simp only [Context.Demands, hstarts, hblueprint, hkind, List.mem_singleton, exists_eq_left,
        true_and]
  | component =>
      have hstarts : (Context.of b catalog options).starts
          = methodStarts (.of b catalog options) Hook.all
            (danglingReports (.of b catalog options)) := by
        rw [Context.starts, hblueprint, hkind]
      refine (covers_methods complete Hook.all _ fun start hstart =>
        h.visits (hstarts ▸ hstart)).congr fun n slot => ?_
      simp only [Context.Demands, hstarts, hblueprint, hkind, reduceCtorEq, false_and, or_false]

/-- What the reports of circles tell of a unit: there are some exactly if an input
    that is read leads to a circle; each names a node on a circle that is so
    reached; and nothing else, such as a value that several nodes share, makes
    one. -/
structure Context.ReportsCircles (ctx : Context) (ds : Diagnostics) : Prop where
  exactly : (∃ id, circleReport id ∈ ds)
    ↔ ∃ n slot x, ctx.Demands n slot ∧ ctx.Feeds n slot x ∧ TransGen ctx.DependsOn x x
  located : ∀ id, circleReport id ∈ ds →
    (∃ n slot, ctx.Demands n slot ∧ ctx.Feeds n slot id) ∧ TransGen ctx.DependsOn id id
  shared : ctx.Acyclic → ∀ id, circleReport id ∉ ds

/-- **Circles are reported exactly**, over the palette and where control comes to
    no pure node. -/
theorem circles_reported_exactly (b : Blueprint) (options : Options) (time : String)
    (h : (Context.of b .builtin options).SparesPure) :
    (Context.of b .builtin options).ReportsCircles
      (compile b .builtin options time).diagnostics := by
  have hcovers := covers_compile (complete_builtin b options) h time
  have hlocated : ∀ {id}, circleReport id ∈ (compile b .builtin options time).diagnostics → _ :=
    fun hid => (hcovers.sound hid).resolve_left (circleReport_notMem_danglingReports _ _)
  refine ⟨⟨?_, ?_⟩, fun id hid => ?_, fun hacyclic id hid => ?_⟩
  · rintro ⟨id, hid⟩
    obtain ⟨n, slot, hreads, hfeeds, hcircle⟩ := hlocated hid
    exact ⟨n, slot, id, hreads, hfeeds, hcircle⟩
  · rintro ⟨n, slot, x, hreads, hfeeds, hcircle⟩
    by_contra hnone
    exact hcovers.complete (not_exists.1 hnone) hreads hfeeds hcircle
  · obtain ⟨n, slot, hreads, hfeeds, hcircle⟩ := hlocated hid
    exact ⟨⟨n, slot, hreads, hfeeds⟩, hcircle⟩
  · obtain ⟨n, slot, -, -, hcircle⟩ := hlocated hid
    exact hacyclic id hcircle

/-! ### Two sums that need each other -/

namespace Ring

def say : Node := ⟨"say", "print", "", {}, [], []⟩
def sum : Node := ⟨"sum", "add_numbers", "", {}, [], []⟩
def twin : Node := ⟨"twin", "add_numbers", "", {}, [], []⟩

/-- The print reads a sum, both of whose terms are another sum that has the first
    one for a term. -/
def blueprint : Blueprint where
  kind := .function
  nodes := [⟨"begin", "function_start", "", {}, [], []⟩, say, sum, twin]
  connections := [⟨"c1", ⟨"begin", "exec"⟩, ⟨"say", "exec"⟩⟩,
    ⟨"c2", ⟨"sum", "result"⟩, ⟨"say", "value"⟩⟩, ⟨"c3", ⟨"twin", "result"⟩, ⟨"sum", "a"⟩⟩,
    ⟨"c4", ⟨"twin", "result"⟩, ⟨"sum", "b"⟩⟩, ⟨"c5", ⟨"sum", "result"⟩, ⟨"twin", "a"⟩⟩]

abbrev context : Context := .of blueprint .builtin {}

/-- Control spares the sums, and each of them needs the other, by evaluation. -/
theorem sums_in_a_ring :
    (∀ n ∈ context.blueprint.nodes, ∀ y ∈ context.successors n,
        context.index.isPure context.catalog y = false)
      ∧ (∀ start ∈ context.starts, ∀ n ∈ start.1,
        context.index.isPure context.catalog n.id = false)
      ∧ (∃ start ∈ context.starts, ∃ v ∈ context.visitsFrom start, say = v.2)
      ∧ context.catalog.kind? say = some .print ∧ "value" ∈ NodeKind.print.slots context say
      ∧ context.source say "value" = .temporary "add_2_result" ⟨"sum", "result"⟩ .number
      ∧ context.index.isPure context.catalog "sum" = true
      ∧ context.index.node? "sum" = some sum ∧ "twin" ∈ context.pureDependencies sum
      ∧ context.index.node? "twin" = some twin ∧ "sum" ∈ context.pureDependencies twin := by
  decide +kernel

/-- The ring is reported, at a node that is on it. -/
theorem met_and_reported :
    context.SparesPure ∧ ∃ id, circleReport id ∈ (compile blueprint .builtin {} "").diagnostics
      ∧ TransGen context.DependsOn id id := by
  obtain ⟨hways, hentries, ⟨start, hstart, v, hv, hsay⟩, hprint, hslot, hsource, hpure, hsum, hdown,
    htwin, hup⟩ := sums_in_a_ring
  have hspares : context.SparesPure := ⟨hways, hentries⟩
  have hreports := circles_reported_exactly blueprint {} "" hspares
  have hring : TransGen context.DependsOn "sum" "sum" :=
    .tail (.single ⟨sum, hsum, hdown⟩) ⟨twin, htwin, hup⟩
  have hfeeds : context.Feeds say "value" "sum" := ⟨_, _, _, hsource, hpure, ReflTransGen.refl⟩
  obtain ⟨id, hid⟩ := hreports.exactly.2 ⟨say, "value", "sum",
    Or.inl ⟨start, hstart, v, hv, hsay, .print, hprint, Or.inl hslot⟩, hfeeds, hring⟩
  exact ⟨hspares, id, hid, (hreports.located id hid).2⟩

end Ring

/-! ### A start node with the id of a sum -/

namespace SharedId

def sum : Node := ⟨"x", "add_numbers", "", {}, [], []⟩

/-- A sum is its own term, and a start node has the same id. -/
def blueprint : Blueprint where
  kind := .function
  nodes := [sum, ⟨"x", "function_start", "", {}, [], []⟩]
  connections := [⟨"c1", ⟨"x", "result"⟩, ⟨"x", "a"⟩⟩]

abbrev context : Context := .of blueprint .builtin {}

theorem sum_visited_and_reads_itself :
    (∀ c ∈ blueprint.connections, ∀ n ∈ blueprint.nodes, ∀ d ∈ Catalog.builtin.definitions,
        n.id = c.source.node → d.id = n.definitionId → d.isExecOutput c.source.param = false)
      ∧ (∃ start ∈ context.starts, ∃ v ∈ context.visitsFrom start, sum = v.2)
      ∧ context.catalog.kind? sum = some (.pure (.math .add))
      ∧ context.source sum "a" = .temporary "add_0_result" ⟨"x", "result"⟩ .number
      ∧ context.index.isPure context.catalog "x" = true
      ∧ context.index.node? "x" = some sum ∧ "x" ∈ context.pureDependencies sum
      ∧ (compile blueprint .builtin {} "").diagnostics = [] := by
  decide +kernel

/-- No edge leaves an output that carries control.  The sum is visited in place of
    the start node, reads itself, and nothing is reported. -/
theorem read_by_itself_and_not_reported :
    (∀ c ∈ blueprint.connections, ∀ n ∈ blueprint.nodes, ∀ d ∈ Catalog.builtin.definitions,
        n.id = c.source.node → d.id = n.definitionId → d.isExecOutput c.source.param = false)
      ∧ (∃ n slot x, context.Demands n slot ∧ context.Feeds n slot x
        ∧ TransGen context.DependsOn x x)
      ∧ ¬∃ id, circleReport id ∈ (compile blueprint .builtin {} "").diagnostics := by
  obtain ⟨hedges, ⟨start, hstart, v, hv, hsum⟩, hkind, hsource, hpure, hnode, hdepends,
    hdiagnostics⟩ := sum_visited_and_reads_itself
  refine ⟨hedges, ⟨sum, "a", "x", ?_, ⟨_, _, _, hsource, hpure, .refl⟩,
    .single ⟨sum, hnode, hdepends⟩⟩, ?_⟩
  · exact Or.inl ⟨start, hstart, v, hv, hsum, _, hkind,
      Or.inr ⟨_, rfl, List.mem_cons_self ..⟩⟩
  · rw [hdiagnostics]
    rintro ⟨id, hid⟩
    cases hid

end SharedId

end Blueprints
