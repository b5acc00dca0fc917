import Mathlib.Data.List.Forall2
import Blueprints.Proofs.Program.Routines

/-! # Routines that wait

    A routine is marked as one that waits while it is written, by the visits of
    nodes that have to wait: a delay, or a parallel node with a branch to start.
    The mark is the right one in both directions (`async_exactly_if_it_waits`):
    the routine has it exactly if its walk makes such a visit, and exactly if one
    of its lines waits; every delay that control reaches sets it; and it is what
    the header of the routine says. -/

namespace Blueprints

open Arena Emission
open Relation (ReflTransGen)

/-! ## Lines that wait -/

/-- Each line that waits stands in a routine that waits. -/
def Emission.MarksWaiting (e : Emission) : Prop :=
  ∀ s, e.blocks.Has s → s.awaits = true → e.routine.isAsync = true

/-- An act writes a line that waits only where the routine does. -/
theorem Emission.Act.marksWaiting {waits : Prop} {e e' : Emission} (h : Act waits e e')
    (hbefore : e.MarksWaiting) : e'.MarksWaiting := by
  intro s hs hawaits
  by_cases hold : e.blocks.Has s
  · exact h.isAsync.1 (hbefore s hold hawaits)
  · cases h with
    | emit hblock hwait =>
        obtain rfl := ((has_line_iff hblock).1 hs).resolve_left hold
        exact hwait hawaits
    | reserve place hblock => exact absurd (has_reserve_iff.1 hs) hold
    | declare name type =>
        rw [blocks_declare] at hs
        exact absurd hs hold
    | _ => exact absurd hs hold

/-- So do acts one after the other. -/
theorem Emission.Moves.marksWaiting {waits : Prop} {e e' : Emission} (h : Moves waits e e')
    (hbefore : e.MarksWaiting) : e'.MarksWaiting := by
  induction h with
  | refl => exact hbefore
  | act _ hact ih => exact hact.marksWaiting ih

theorem marksWaiting_new (findings : Findings) : ({ findings } : Emission).MarksWaiting :=
  fun _ hs => absurd hs not_has_new

/-- **A routine that waits has a line that does.**  Each visit that marks the
    routine writes one. -/
theorem waits_walk {ctx : Context} {stack : List Step} {e : Emission} (h : OpensAll ctx stack e)
    (hbefore : e.routine.isAsync = true → e.Waits)
    (hasync : (walk ctx stack e).routine.isAsync = true) : (walk ctx stack e).Waits := by
  fun_induction walk ctx stack e with
  | case1 e => exact hbefore hasync
  | case2 e step rest hdone ih => exact ih h.tail hbefore hasync
  | case3 e step rest hnew hnone ih => exact ih h.tail hbefore hasync
  | case4 e step rest hnew n hn visited ih =>
      refine ih (h.visited n) (fun hvisited => ?_) hasync
      rcases (isAsync_visit_iff ctx n h.within).1 hvisited with hold | hsuspends
      · have hbefore' : (e.onPath (step.path.extend step.node)).Waits := hbefore hold
        exact hbefore'.moves (moves_visit ctx n h.within)
      · exact waits_visit h.within hsuspends

/-- Where lines that wait were written with the mark, it tells whether there are
    any. -/
theorem isAsync_iff_shows {findings : Findings} {e : Emission} (h : Moves True { findings } e)
    (hwaits : e.routine.isAsync = true → e.Waits) :
    e.routine.isAsync = true ↔ ∃ s, e.routine.Shows s ∧ s.awaits = true := by
  constructor
  · intro hasync
    obtain ⟨-, s, hs, hawaits⟩ := hwaits hasync
    exact ⟨s, h.shows_iff_has.2 hs, hawaits⟩
  · rintro ⟨s, hs, hawaits⟩
    exact h.marksWaiting (marksWaiting_new findings) s (h.shows_iff_has.1 hs) hawaits

/-! ## Routines -/

theorem isAsync_entrySteps (entries : List Node) (findings : Findings) :
    (entrySteps entries { findings }).2.routine.isAsync ≠ true := by
  intro hasync
  rcases (moves_entrySteps False entries findings).isAsync.2 hasync with hold | hfalse
  · cases hold
  · exact hfalse

section Routines

variable (ctx : Context) (entries : List Node) (findings : Findings)

/-- **A routine waits exactly if one of its visits has to.** It does not at its
    start. -/
theorem isAsync_writeRoutine_iff :
    (writeRoutine ctx entries findings).routine.isAsync = true
      ↔ ∃ v ∈ ctx.visitsFrom (entries, findings),
        ctx.Suspends v.2 (v.1.path.extend v.1.node) :=
  (isAsync_walk_iff (opensAll_entrySteps ctx entries findings)).trans
    (or_iff_right (isAsync_entrySteps entries findings))

/-- A routine that waits has a line that does. -/
theorem waits_writeRoutine (hasync : (writeRoutine ctx entries findings).routine.isAsync = true) :
    (writeRoutine ctx entries findings).Waits :=
  waits_walk (opensAll_entrySteps ctx entries findings)
    (fun hstart => absurd hstart (isAsync_entrySteps entries findings)) hasync

variable {ctx entries}

/-- A node that control reaches is visited, unless it is pure. -/
theorem exists_visit_of_reaches (hends : ctx.PureEnds) {id : String} {n : Node}
    (hn : ctx.index.node? id = some n) (hpure : ctx.index.isPure ctx.catalog id = false)
    (h : ctx.Reaches entries id) : ∃ v ∈ ctx.visitsFrom (entries, findings), v.2 = n := by
  obtain ⟨entry, hentry, hway⟩ := h
  obtain ⟨step, hstep, hnode⟩ := exists_entryStep (e := { findings }) hentry
  obtain ⟨hpath, -⟩ := mem_entrySteps hstep
  have haround : ReflTransGen (ctx.LeadsAround step.path) step.node id := by
    rw [hnode, hpath]
    exact ReflTransGen.mono (fun _ _ hleads => ⟨hleads, List.not_mem_nil⟩) _ _ hway
  obtain ⟨v, hv, rfl⟩ := mem_visits_of_leadsAround hends _ (entrySteps entries { findings }).2 hn
    hpure step hstep (by rw [hpath]; exact List.not_mem_nil) haround
  obtain ⟨-, hfound⟩ := visits_sound (P := fun _ => True) (fun _ _ => trivial) _
    (entrySteps entries { findings }).2 (fun _ _ => trivial) v hv
  exact ⟨v, hv, Option.some.inj (hfound.symm.trans hn)⟩

/-- **A delay that control reaches makes the routine wait.** -/
theorem isAsync_of_reaches_delay (hends : ctx.PureEnds) {id : String} {n : Node}
    (hn : ctx.index.node? id = some n) (hkind : ctx.catalog.kind? n = some .delay)
    (h : ctx.Reaches entries id) :
    (writeRoutine ctx entries findings).routine.isAsync = true := by
  have hpure : ctx.index.isPure ctx.catalog id = false := by
    rw [Index.isPure, hn]
    show ctx.catalog.isPure n = false
    rw [Catalog.isPure, hkind]
    rfl
  obtain ⟨v, hv, rfl⟩ := exists_visit_of_reaches findings hends hn hpure h
  exact (isAsync_writeRoutine_iff ctx entries findings).2 ⟨v, hv, Or.inl hkind⟩

end Routines

/-! ## Functions -/

/-- A function is marked as the routine of its entries is, and is so only if it
    has a line that waits. -/
theorem isAsync_function (ctx : Context) :
    ((FunctionUnit.build ctx).routine.isAsync = true
        ↔ (writeRoutine ctx (ctx.blueprint.nodes.filter ctx.isFunctionEntry)
          (danglingReports ctx)).routine.isAsync = true)
      ∧ ((FunctionUnit.build ctx).routine.isAsync = true →
        (writeReturn ctx (writeFunctionBody ctx)).2.Waits) := by
  -- the return adds nothing that waits
  have hreturn := moves_writeReturn False ctx (root_lt_size_writeFunctionBody ctx)
  have hbody : (FunctionUnit.build ctx).routine.isAsync = true
      ↔ (writeFunctionBody ctx).routine.isAsync = true :=
    ⟨fun h => (hreturn.isAsync.2 h).resolve_right id, hreturn.isAsync.1⟩
  rw [hbody]
  rw [writeFunctionBody] at hreturn ⊢
  cases hentries : ctx.blueprint.nodes.filter ctx.isFunctionEntry with
  | nil =>
      have hnone : (writeRoutine ctx [] (danglingReports ctx)).routine.isAsync ≠ true := by
        rw [writeRoutine, entrySteps]
        dsimp only
        rw [walk_nil]
        exact Bool.false_ne_true
      exact ⟨iff_of_false Bool.false_ne_true hnone, fun h => absurd h Bool.false_ne_true⟩
  | cons entry rest =>
      rw [hentries] at hreturn
      exact ⟨Iff.rfl, fun hasync => (waits_writeRoutine ctx _ _ hasync).moves hreturn⟩

/-! ## Units -/

/-- What the mark of a routine means: it tells whether one of the visits for
    which the routine was written has to wait, and whether one of its lines
    waits; and a delay that control reaches is enough. -/
structure Context.WaitsRightly (ctx : Context) (start : List Node × Findings) (r : Routine) :
    Prop where
  visits : r.isAsync = true
    ↔ ∃ v ∈ ctx.visitsFrom start, ctx.Suspends v.2 (v.1.path.extend v.1.node)
  lines : r.isAsync = true ↔ ∃ s, r.Shows s ∧ s.awaits = true
  delays : ∀ id n, ctx.index.node? id = some n → ctx.catalog.kind? n = some .delay →
    ctx.Reaches start.1 id → r.isAsync = true

/-- The mark of a method is right. -/
theorem waitsRightly_method {ctx : Context} (hends : ctx.PureEnds)
    (start : List Node × Findings) :
    ctx.WaitsRightly start (writeRoutine ctx start.1 start.2).routine where
  visits := isAsync_writeRoutine_iff ctx start.1 start.2
  lines := isAsync_iff_shows (moves_writeRoutine ctx start.1 start.2) (waits_writeRoutine ctx _ _)
  delays := fun _ _ hn hkind h => isAsync_of_reaches_delay start.2 hends hn hkind h

/-- The mark of a function is right: its return waits for nothing. -/
theorem waitsRightly_function {ctx : Context} (hends : ctx.PureEnds) :
    ctx.WaitsRightly (ctx.blueprint.nodes.filter ctx.isFunctionEntry, danglingReports ctx)
      (FunctionUnit.build ctx).routine := by
  obtain ⟨hroutine, hwaits⟩ := isAsync_function ctx
  refine ⟨?_, isAsync_iff_shows (moves_function ctx) hwaits, fun id n hn hkind h => ?_⟩
  · rw [hroutine]
    exact isAsync_writeRoutine_iff ctx _ _
  · rw [hroutine]
    exact isAsync_of_reaches_delay _ hends hn hkind h

/-- **A routine is marked as one that waits exactly if it does.**  Over the
    palette: the mark of each routine tells whether the walk that it was written
    for visits a node that has to wait, and whether one of its lines waits, at
    any depth; a delay that control reaches always sets it.  The lines of the
    routine are the texts of what it shows, and they stand behind a header that
    says so: `async`, and for a function a promise of what is returned.  A unit
    is marked if one of its routines is. -/
theorem async_exactly_if_it_waits (b : Blueprint) (options : Options) (time : String) :
    List.Forall₂ (Context.of b .builtin options).WaitsRightly
        (Context.of b .builtin options).starts (Context.of b .builtin options).routines
      ∧ (∀ r ∈ (Context.of b .builtin options).routines, ∃ before line depth after,
        (compile b .builtin options time).source
            = textOfLines (before ++ line :: r.lines options.indentUnit depth ++ after)
          ∧ r.HeadedBy b options (compile b .builtin options time).analysis line
          ∧ ∀ text ∈ r.blocks.render Statement.text options.indentUnit depth Arena.root,
            (∃ s deeper, r.Shows s ∧ text = Arena.indented options.indentUnit deeper s.text)
              ∨ ∃ deeper, text = Arena.indented options.indentUnit deeper Arena.elseLine)
      ∧ (compile b .builtin options time).analysis.isAsync
        = (Context.of b .builtin options).routines.any Routine.isAsync := by
  have hends : (Context.of b .builtin options).PureEnds :=
    pureEnds_of_endsIfPure b options endsIfPure_builtin
  refine ⟨?_, fun r hr => ?_, ?_⟩
  · rw [Context.starts, Context.routines]
    cases (Context.of b .builtin options).blueprint.kind with
    | function => exact .cons (waitsRightly_function hends) .nil
    | component =>
        dsimp only
        rw [ComponentUnit.build]
        dsimp only
        rw [routines_methods, List.forall₂_map_right_iff]
        exact List.forall₂_same.2 fun start _ => waitsRightly_method hends start
  · obtain ⟨before, line, depth, after, hsource, hheader⟩ :=
      exists_header b .builtin options time r hr
    exact ⟨before, line, depth, after, hsource, hheader,
      fun text htext => Arena.shows_of_mem_render Statement.text options.indentUnit htext⟩
  · have hblueprint : (Context.of b .builtin options).blueprint = b := rfl
    rw [compile, Context.routines, hblueprint]
    cases b.kind with
    | function => exact (Bool.or_false _).symm
    | component => exact List.any_map.symm

end Blueprints
