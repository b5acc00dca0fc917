import Blueprints.Cli.Run
import Blueprints.Proofs.Storage.Persisting

/-! # Commands on a file tree

    A command that runs on a file tree changes the tree and leaves a
    transcript.  What it writes to the transcript never makes it fail, and has
    no say in what it does to the tree.  So a build writes its units just where
    they can be stored one after the other (`run_writeUnits_eq_ok_iff`). -/

namespace Blueprints

namespace ProjectFolder

/-- Stores units one after the other, each under its file name. -/
def persistUnits (p : ProjectFolder) : List CompiledUnit → OnTree Unit
  | [] => pure ()
  | u :: rest => do
    let _ ← p.persist u.fileName u.program.source
    p.persistUnits rest

end ProjectFolder

namespace Cli

/-- A host with a file tree for a disk.  Its clock stands still. -/
instance : Host (StateM FileTree) where
  now := pure .epoch
  elapsed := pure 0

/-- What a command does on a file tree. -/
abbrev OnTree : Type → Type := Running (StateM FileTree)

section

variable {α β : Type} {s s' : Transcript} {t t' : FileTree} {message : String}

/-- What follows a success goes on from its tree and its transcript. -/
theorem run_bind_of_ok {x : OnTree α} (f : α → OnTree β) {a : α}
    (h : x.run s t = ((.ok a, s'), t')) : (x >>= f).run s t = (f a).run s' t' := by
  show ExceptT.bindCont f (x.run s t).1.1 (x.run s t).1.2 (x.run s t).2 = _
  rw [h]
  rfl

/-- A failure ends the command. -/
theorem run_bind_of_error {x : OnTree α} (f : α → OnTree β)
    (h : x.run s t = ((.error message, s'), t')) :
    (x >>= f).run s t = ((.error message, s'), t') := by
  show ExceptT.bindCont f (x.run s t).1.1 (x.run s t).1.2 (x.run s t).2 = _
  rw [h]
  rfl

/-- Something is done with stored things as it is without a transcript. -/
theorem run_attempt (aim : String) (act : ProjectFolder.OnTree α) :
    (attempt aim act : OnTree α).run s t
      = (((act.run t).1.mapError fun e => aim ++ ": " ++ e.message, s), (act.run t).2) := by
  show (orFail aim StorageError.message (act.run t).1 : OnTree α).run s (act.run t).2 = _
  cases (act.run t).1 with
  | ok a => rfl
  | error e => rfl

/-- Warnings leave the tree. -/
theorem run_warnings {γ : Type} (texts : List γ) (text : γ → String) (s : Transcript) :
    ∃ s', (forIn texts PUnit.unit fun d _ => do
        warn (text d)
        pure (ForInStep.yield PUnit.unit) : OnTree PUnit).run s t = ((.ok PUnit.unit, s'), t) := by
  induction texts generalizing s with
  | nil => exact ⟨s, rfl⟩
  | cons d rest ih =>
      obtain ⟨s', hrest⟩ := ih { s with err := s.err ++ text d ++ "\n" }
      refine ⟨s', ?_⟩
      rw [List.forIn_cons, run_bind_of_ok _ (a := .yield PUnit.unit) rfl]
      exact hrest

section Units

variable {p : ProjectFolder} {u : CompiledUnit} {units : List CompiledUnit}

/-- A file that can be stored is written by the command. -/
theorem run_persistFile_of_ok {name text path : String}
    (h : (p.persist name text : ProjectFolder.OnTree String).run t = (.ok path, t')) :
    ∃ s', (persistFile p name text : OnTree Unit).run s t = ((.ok (), s'), t') := by
  have hattempt := run_attempt (s := s) (t := t) s!"Failed to write '{name}'" (p.persist name text)
  rw [h] at hattempt
  exact ⟨_, run_bind_of_ok _ hattempt⟩

/-- A file that cannot be stored ends the command with a message. -/
theorem run_persistFile_of_error {name text : String} {e : StorageError}
    (h : (p.persist name text : ProjectFolder.OnTree String).run t = (.error e, t')) :
    ∃ message, (persistFile p name text : OnTree Unit).run s t = ((.error message, s), t') := by
  have hattempt := run_attempt (s := s) (t := t) s!"Failed to write '{name}'" (p.persist name text)
  rw [h] at hattempt
  exact ⟨_, run_bind_of_error _ hattempt⟩

/-- The units behind the first one are written on what it leaves. -/
theorem run_writeUnits_of_ok {path : String}
    (h : (p.persist u.fileName u.program.source : ProjectFolder.OnTree String).run t
      = (.ok path, t')) (rest : List CompiledUnit) (s : Transcript) :
    ∃ s', (writeUnits p (u :: rest) : OnTree Unit).run s t
      = (writeUnits p rest : OnTree Unit).run s' t' := by
  obtain ⟨r, hfile⟩ := run_persistFile_of_ok (s := s) h
  obtain ⟨s', hwarnings⟩ := run_warnings (t := t') u.program.diagnostics
    (fun d => s!"warning: {u.fileName}: {d.text}") r
  refine ⟨s', ?_⟩
  -- a loop is the first turn and then the loop over the rest
  rw [writeUnits, writeUnits, bind_pure_unit, bind_pure_unit, List.forIn_cons,
    run_bind_of_ok _ (a := .yield PUnit.unit)]
  rw [run_bind_of_ok _ hfile, run_bind_of_ok _ hwarnings]
  rfl

/-- A unit that cannot be written ends the build. -/
theorem run_writeUnits_of_error {e : StorageError}
    (h : (p.persist u.fileName u.program.source : ProjectFolder.OnTree String).run t
      = (.error e, t')) (rest : List CompiledUnit) (s : Transcript) :
    ∃ message, (writeUnits p (u :: rest) : OnTree Unit).run s t = ((.error message, s), t') := by
  obtain ⟨message, hfile⟩ := run_persistFile_of_error (s := s) h
  refine ⟨message, ?_⟩
  rw [writeUnits, bind_pure_unit, List.forIn_cons, run_bind_of_error]
  rw [run_bind_of_error _ hfile]

/-- **A build writes its units** just where they can be stored one after the
    other, and leaves the same tree. -/
theorem run_writeUnits_eq_ok_iff :
    (∃ s', (writeUnits p units : OnTree Unit).run s t = ((.ok (), s'), t'))
      ↔ (p.persistUnits units).run t = (.ok (), t') := by
  induction units generalizing s t with
  | nil =>
      constructor
      · rintro ⟨s', h⟩
        cases h
        rfl
      · intro h
        cases h
        exact ⟨s, rfl⟩
  | cons u rest ih =>
      obtain ⟨result, between, hfirst⟩ : ∃ result between,
          (p.persist u.fileName u.program.source : ProjectFolder.OnTree String).run t
            = (result, between) := ⟨_, _, rfl⟩
      rw [ProjectFolder.persistUnits]
      cases result with
      | error e =>
          obtain ⟨message, hfails⟩ := run_writeUnits_of_error hfirst rest s
          rw [hfails, ProjectFolder.run_bind_of_error _ hfirst]
          constructor
          · rintro ⟨s', h⟩
            cases h
          · intro h
            cases h
      | ok path =>
          obtain ⟨r, hgoes⟩ := run_writeUnits_of_ok hfirst rest s
          rw [hgoes, ProjectFolder.run_bind_of_ok _ hfirst]
          exact ih

end Units

end

end Cli

end Blueprints
