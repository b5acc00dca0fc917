import Blueprints.Proofs.Program.Routines

/-! # What is noted of lines

    The helpers and the variables that a unit needs are noted while its lines
    are written, each line for itself, and the lines go into blocks that become
    text much later.  Both are acts, so that what is noted is at all times what
    the lines tell (`Emission.Notes`).  A routine shows all its lines, so in the
    end it is what the routines of the unit show (`Context.mem_found_iff`). -/

namespace Blueprints

open Arena Emission

/-- Things that are found by noting what lines tell, and in no other way. -/
structure Findings.Collects {α : Type} (found : Findings → List α)
    (told : Statement → α → Prop) : Prop where
  new : found {} = []
  note : ∀ f s x, x ∈ found (f.note s) ↔ x ∈ found f ∨ told s x
  report : ∀ f d, found (f.report d) = found f

section Collecting

variable {α : Type} {found : Findings → List α} {told : Statement → α → Prop}
  {waits : Prop} {before : List α} {e e' : Emission}

/-! ## Acts -/

variable (found told) in
/-- What is found is what was found before and what the lines tell. -/
def Emission.Notes (before : List α) (e : Emission) : Prop :=
  ∀ x, x ∈ found e.findings ↔ x ∈ before ∨ ∃ s, e.blocks.Has s ∧ told s x

/-- An act notes what the line that it writes tells, and nothing else. -/
theorem Emission.Act.notes (hcollects : Findings.Collects found told) (h : Act waits e e')
    (hbefore : e.Notes found told before) : e'.Notes found told before := by
  intro x
  cases h with
  | @emit block s hblock hwait =>
      have hlines : (∃ s', (e.emit block s).blocks.Has s' ∧ told s' x)
          ↔ (∃ s', e.blocks.Has s' ∧ told s' x) ∨ told s x := by
        simp only [blocks_emit, has_line_iff hblock, or_and_right, exists_or, exists_eq_left]
      rw [hlines, ← or_assoc, ← hbefore x]
      exact hcollects.note ..
  | reserve place hblock =>
      simp only [blocks_reserve, has_reserve_iff]
      exact hbefore x
  | declare name type =>
      rw [blocks_declare]
      exact hbefore x
  | report kind node message =>
      rw [show found (e.report kind node message).findings = found e.findings from
        hcollects.report ..]
      exact hbefore x
  | _ => exact hbefore x

/-- So do acts one after the other. -/
theorem Emission.Moves.notes (hcollects : Findings.Collects found told) (h : Moves waits e e')
    (hbefore : e.Notes found told before) : e'.Notes found told before := by
  induction h with
  | refl => exact hbefore
  | act _ hact ih => exact hact.notes hcollects ih

/-! ## Routines and units -/

variable (told) in
/-- A line of a routine tells something. -/
def Routine.Tells (r : Routine) (x : α) : Prop := ∃ s, r.Shows s ∧ told s x

/-- **Writing a routine notes what its lines tell**, and nothing else. -/
theorem Emission.Moves.mem_found_iff (hcollects : Findings.Collects found told)
    {findings : Findings} (h : Moves waits { findings } e) (x : α) :
    x ∈ found e.findings ↔ x ∈ found findings ∨ e.routine.Tells told x := by
  have hnew : ({ findings } : Emission).Notes found told (found findings) := by
    intro x
    refine (or_iff_left ?_).symm
    rintro ⟨s, hs, -⟩
    exact not_has_new hs
  rw [h.notes hcollects hnew x]
  exact or_congr_right (exists_congr fun s => and_congr_left fun _ => h.shows_iff_has.symm)

theorem found_danglingReports (hcollects : Findings.Collects found told) (ctx : Context) :
    found (danglingReports ctx) = [] :=
  danglingReports_induction ctx (P := fun f => found f = []) hcollects.new
    fun f _ hf => (hcollects.report f _).trans hf

/-- The report about a return in a hook notes nothing. -/
theorem found_reportReturn (hcollects : Findings.Collects found told) (hook : Hook) (r : Routine)
    (f : Findings) : found (reportReturn hook r f) = found f := by
  rw [reportReturn]
  split
  · exact hcollects.report ..
  · rfl

/-- Methods note what their lines tell, by induction on the hooks. -/
theorem mem_found_methods_iff (hcollects : Findings.Collects found told) (ctx : Context)
    (hooks : List Hook) (f : Findings) (x : α) :
    x ∈ found (writeMethods ctx hooks f).2
      ↔ x ∈ found f ∨ ∃ m ∈ (writeMethods ctx hooks f).1, m.routine.Tells told x := by
  induction hooks generalizing f with
  | nil => simp [writeMethods]
  | cons hook rest ih =>
      rw [writeMethods]
      cases hookEntries ctx hook with
      | nil => exact ih f
      | cons entry others =>
          dsimp only
          rw [ih, found_reportReturn hcollects,
            (moves_writeRoutine ctx _ f).mem_found_iff hcollects, or_assoc]
          simp only [List.mem_cons, exists_eq_or_imp]

/-- **What is found for a unit is what the lines of its routines tell.** -/
theorem Context.mem_found_iff (hcollects : Findings.Collects found told) (ctx : Context) (x : α) :
    x ∈ found ctx.findings ↔ ∃ r ∈ ctx.routines, r.Tells told x := by
  rw [Context.findings, Context.routines]
  cases ctx.blueprint.kind with
  | function =>
      dsimp only
      have hfound := (moves_function ctx).mem_found_iff hcollects x
      rw [found_danglingReports hcollects] at hfound
      simp only [List.mem_singleton, exists_eq_left]
      exact hfound.trans (or_iff_right List.not_mem_nil)
  | component =>
      dsimp only
      have hfound := mem_found_methods_iff hcollects ctx Hook.all (danglingReports ctx) x
      rw [found_danglingReports hcollects] at hfound
      simp only [List.mem_map, exists_exists_and_eq_and]
      exact hfound.trans (or_iff_right List.not_mem_nil)

end Collecting

end Blueprints
