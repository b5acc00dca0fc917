import Mathlib.Data.String.Basic
import Blueprints.Proofs.Emit.Bindings
import Blueprints.Proofs.Emit.Generator
import Blueprints.Proofs.Program.Correspondence

/-! # Methods are independent

    The methods of a component are written one after the other, by a generator
    that keeps its memory.  What it has found so far has no say in what it
    writes: findings are added to those that there are (`Findings.plus`), and
    never looked at.  And nothing is marked between two methods.  So each method
    is the one that a new generator writes for its hook alone
    (`routine_independent_of_earlier`). -/

namespace Blueprints

/-! ## Adding up findings -/

section Adding

variable {α : Type} [BEq α]

/-- Adds a member at the end of a list, unless it is there. -/
def addNew (as : List α) (a : α) : List α := if as.contains a then as else as ++ [a]

/-- What is added comes behind what was there. -/
theorem prefix_foldl_addNew (as bs : List α) : bs <+: as.foldl addNew bs := by
  induction as generalizing bs with
  | nil => exact List.prefix_rfl
  | cons a as ih =>
      refine List.IsPrefix.trans ?_ (ih (addNew bs a))
      rw [addNew]
      split
      · exact List.prefix_rfl
      · exact List.prefix_append ..

variable [LawfulBEq α]

theorem mem_addNew {as : List α} {a x : α} : x ∈ addNew as a ↔ x ∈ as ∨ x = a := by
  rw [addNew]
  split
  · next hmem =>
    rw [List.contains_iff_mem] at hmem
    constructor
    · exact Or.inl
    · rintro (hold | rfl)
      · exact hold
      · exact hmem
  · rw [List.mem_append, List.mem_singleton]

/-- Members that are added are there, with those that were. By induction on the
    members. -/
theorem mem_foldl_addNew {as bs : List α} {x : α} : x ∈ as.foldl addNew bs ↔ x ∈ bs ∨ x ∈ as := by
  induction as generalizing bs with
  | nil => simp
  | cons a as ih => rw [List.foldl_cons, ih, mem_addNew, List.mem_cons, or_assoc]

/-- To add a list and then a member is to add the list with the member. -/
theorem foldl_addNew_addNew (as bs : List α) (a : α) :
    (addNew as a).foldl addNew bs = addNew (as.foldl addNew bs) a := by
  by_cases hmem : a ∈ as
  · have hadded : a ∈ as.foldl addNew bs := mem_foldl_addNew.2 (Or.inr hmem)
    rw [addNew, if_pos (List.contains_iff_mem.2 hmem), addNew,
      if_pos (List.contains_iff_mem.2 hadded)]
  · rw [addNew, if_neg (by simpa using hmem), List.foldl_append]
    rfl

/-- To add what was added to others is to add it all. -/
theorem foldl_addNew_foldl (ss as bs : List α) :
    (ss.foldl addNew as).foldl addNew bs = ss.foldl addNew (as.foldl addNew bs) := by
  induction ss generalizing as with
  | nil => rfl
  | cons s ss ih => rw [List.foldl_cons, ih, foldl_addNew_addNew, List.foldl_cons]

end Adding

/-- Names are put in order, whichever comes first. -/
theorem insertOrdered_comm (a b : String) (l : List String) :
    insertOrdered a (insertOrdered b l) = insertOrdered b (insertOrdered a l) := by
  induction l with
  | nil => grind [insertOrdered]
  | cons t rest ih => grind [insertOrdered]

/-- A name is put in once. -/
theorem insertOrdered_insertOrdered (a : String) (l : List String) :
    insertOrdered a (insertOrdered a l) = insertOrdered a l := by
  induction l with
  | nil => grind [insertOrdered]
  | cons t rest ih => grind [insertOrdered]

/-- Names in the order in which they are added do not tell that order. -/
theorem foldl_insertOrdered_comm (a : String) (ws vs : List String) :
    ws.foldl (fun names v => insertOrdered v names) (insertOrdered a vs)
      = insertOrdered a (ws.foldl (fun names v => insertOrdered v names) vs) := by
  induction ws generalizing vs with
  | nil => rfl
  | cons w ws ih => rw [List.foldl_cons, List.foldl_cons, insertOrdered_comm, ih]

/-- To put in names one of which was put in before is to put that one in last. -/
theorem foldl_insertOrdered_insertOrdered (a : String) (ws vs : List String) :
    (insertOrdered a ws).foldl (fun names v => insertOrdered v names) vs
      = insertOrdered a (ws.foldl (fun names v => insertOrdered v names) vs) := by
  induction ws generalizing vs with
  | nil => rfl
  | cons w ws ih =>
      rw [insertOrdered]
      split
      · rw [List.foldl_cons, foldl_insertOrdered_comm]
      · split
        · next heq =>
          obtain rfl := beq_iff_eq.1 heq
          rw [List.foldl_cons, ← foldl_insertOrdered_comm, insertOrdered_insertOrdered]
        · rw [List.foldl_cons, List.foldl_cons, ih]

namespace Findings

/-- Findings with others added to them. -/
def plus (f g : Findings) : Findings where
  helpers := g.helpers.foldl addNew f.helpers
  variableNames := g.variableNames.foldl (fun names v => insertOrdered v names) f.variableNames
  diagnostics := g.diagnostics.foldl addNew f.diagnostics

/-- **A line is noted in the same way whatever was found before.** -/
theorem plus_note (f g : Findings) (s : Statement) : (f.plus g).note s = f.plus (g.note s) := by
  have hhelpers : s.helpers.foldl addNew (g.helpers.foldl addNew f.helpers)
      = (s.helpers.foldl addNew g.helpers).foldl addNew f.helpers :=
    (foldl_addNew_foldl ..).symm
  -- names are kept in order, so it does not matter when they are added
  have hvariables : ∀ used : List Variable, ∀ names : List String,
      (used.foldl (fun names v => insertOrdered v.name names) names).foldl
          (fun names v => insertOrdered v names) f.variableNames
        = used.foldl (fun names v => insertOrdered v.name names)
          (names.foldl (fun names v => insertOrdered v names) f.variableNames) := by
    intro used
    induction used with
    | nil => exact fun _ => rfl
    | cons v used ih =>
        intro names
        rw [List.foldl_cons, ih, foldl_insertOrdered_insertOrdered, List.foldl_cons]
  show (⟨_, _, _⟩ : Findings) = ⟨_, _, _⟩
  exact congrArg₂ (fun helpers names => (⟨helpers, names, _⟩ : Findings)) hhelpers
    (hvariables _ _).symm

theorem plus_report (f g : Findings) (d : Diagnostic) :
    (f.plus g).report d = f.plus (g.report d) :=
  congrArg (fun ds => (⟨_, _, ds⟩ : Findings)) (foldl_addNew_addNew ..).symm

/-- Findings that others have been added to: the helpers and the reports come
    first, in their order. -/
structure Within (f g : Findings) : Prop where
  helpers : f.helpers <+: g.helpers
  variableNames : f.variableNames ⊆ g.variableNames
  diagnostics : f.diagnostics <+: g.diagnostics

/-- What was found before is found still. -/
theorem within_plus (f g : Findings) : f.Within (f.plus g) := by
  refine ⟨prefix_foldl_addNew .., ?_, prefix_foldl_addNew ..⟩
  show f.variableNames ⊆ g.variableNames.foldl (fun names v => insertOrdered v names) f.variableNames
  generalize f.variableNames = names
  induction g.variableNames generalizing names with
  | nil => exact List.Subset.refl names
  | cons v vs ih => exact fun x hx => ih _ (mem_insertOrdered.2 (Or.inr hx))

end Findings

/-- The same routines, with findings that some were there before. -/
def Likeness.adding (f : Findings) : Likeness :=
  .ofFindings (fun g g' => g' = f.plus g)
    (fun h s => by rw [h, Findings.plus_note]) (fun h d => by rw [h, Findings.plus_report])

/-- **A routine does not depend on what was found before it**, and what is found
    in it is added to that. -/
theorem writeRoutine_alone (b : Blueprint) (catalog : Catalog) (options : Options)
    (entries : List Node) (f : Findings) :
    (writeRoutine (.of b catalog options) entries f).routine
        = (writeRoutine (.of b catalog options) entries {}).routine
      ∧ (writeRoutine (.of b catalog options) entries f).findings
        = f.plus (writeRoutine (.of b catalog options) entries {}).findings := by
  have hsame := Context.corresponds_of_nodeComments (.adding f) b catalog options options rfl
  have hstart : (Likeness.adding f).findings {} f := rfl
  have hlike := like_writeRoutine hsame hstart entries
  rw [List.map_id'] at hlike
  exact ⟨hlike.routine.symm, hlike.findings⟩

/-! ## Methods by a generator -/

namespace Generator

/-- A generator with a memory writes the routine of a hook, and keeps another
    memory. -/
def WritesHook (ctx : Context) (hook : Hook) (m : Memory) (r : Routine) (m' : Memory) : Prop :=
  Writes ctx (hookEntries ctx hook) m r m'

/-- A generator with a memory writes the methods of hooks, one after the other,
    and keeps another memory.  A hook from which control does not go on has
    none. -/
inductive WritesMethods (ctx : Context) : List Hook → Memory → List Method → Memory → Prop where
  | nil (m : Memory) : WritesMethods ctx [] m [] m
  | skip {hook : Hook} {rest : List Hook} {m m' : Memory} {methods : List Method}
      (hnone : hookEntries ctx hook = []) (h : WritesMethods ctx rest m methods m') :
      WritesMethods ctx (hook :: rest) m methods m'
  | write {hook : Hook} {rest : List Hook} {m m₁ m' : Memory} {r : Routine}
      {methods : List Method} (hsome : hookEntries ctx hook ≠ [])
      (hroutine : WritesHook ctx hook m r m₁)
      (h : WritesMethods ctx rest { m₁ with findings := reportReturn hook r m₁.findings }
        methods m') :
      WritesMethods ctx (hook :: rest) m (⟨hook, r⟩ :: methods) m'

/-- **A generator with nothing marked writes the methods** that are written
    without a memory, and has nothing marked again. -/
theorem writesMethods_iff {ctx : Context} {hooks : List Hook} {f : Findings}
    {methods : List Method} {m : Memory} :
    WritesMethods ctx hooks { findings := f } methods m
      ↔ methods = (writeMethods ctx hooks f).1 ∧ m = { findings := (writeMethods ctx hooks f).2 } := by
  induction hooks generalizing f methods with
  | nil =>
      constructor
      · rintro ⟨⟩
        exact ⟨rfl, rfl⟩
      · rintro ⟨rfl, rfl⟩
        exact .nil _
  | cons hook rest ih =>
      rw [writeMethods]
      cases hentries : hookEntries ctx hook with
      | nil =>
          dsimp only
          rw [← ih]
          constructor
          · rintro (_ | ⟨-, h⟩ | ⟨hsome, -, -⟩)
            · exact h
            · exact absurd hentries hsome
          · exact .skip hentries
      | cons entry more =>
          have hsome : hookEntries ctx hook ≠ [] := by
            rw [hentries]
            exact List.cons_ne_nil entry more
          dsimp only
          rw [← hentries]
          constructor
          · rintro (_ | ⟨hnone, -⟩ | ⟨-, hroutine, h⟩)
            · exact absurd hnone hsome
            · obtain ⟨rfl, rfl⟩ := writes_iff.1 hroutine
              obtain ⟨rfl, rfl⟩ := ih.1 h
              exact ⟨rfl, rfl⟩
          · rintro ⟨rfl, rfl⟩
            exact .write hsome (writes_iff.2 ⟨rfl, rfl⟩) (ih.2 ⟨rfl, rfl⟩)

end Generator

/-! ## Methods by themselves -/

/-- The method of a hook, as a new generator writes it. -/
def Method.alone (ctx : Context) (hook : Hook) : Method :=
  ⟨hook, (writeRoutine ctx (hookEntries ctx hook) {}).routine⟩

/-- **The methods of hooks are those that are written for each of them alone.** -/
theorem fst_writeMethods (b : Blueprint) (catalog : Catalog) (options : Options)
    (hooks : List Hook) (f : Findings) :
    (writeMethods (.of b catalog options) hooks f).1
      = (hooks.filter fun hook => !(hookEntries (.of b catalog options) hook).isEmpty).map
        (.alone (.of b catalog options)) := by
  induction hooks generalizing f with
  | nil => rfl
  | cons hook rest ih =>
      rw [writeMethods]
      cases hentries : hookEntries (.of b catalog options) hook with
      | nil =>
          rw [List.filter_cons_of_neg (by rw [hentries]; decide)]
          exact ih f
      | cons entry more =>
          obtain ⟨hroutine, -⟩ := writeRoutine_alone b catalog options (entry :: more) f
          rw [List.filter_cons_of_pos (by rw [hentries]; rfl), List.map_cons, ← ih, Method.alone,
            hentries, ← hroutine]

/-- A hook from which control goes on has the method that is written for it
    alone. -/
theorem alone_mem_methods (b : Blueprint) (catalog : Catalog) (options : Options) {hook : Hook}
    (hentries : hookEntries (.of b catalog options) hook ≠ []) :
    .alone (.of b catalog options) hook
      ∈ (ComponentUnit.build (.of b catalog options)).methods := by
  have hall : hook ∈ Hook.all := by
    cases hook with
    | _ => decide
  show _ ∈ (writeMethods (.of b catalog options) Hook.all _).1
  rw [fst_writeMethods]
  refine List.mem_map_of_mem (List.mem_filter.2 ⟨hall, ?_⟩)
  simpa using hentries

open Generator (WritesHook WritesMethods)

/-- **Methods are independent.**  A generator that has written the methods of any
    hooks has nothing marked.  The routine that it writes for a hook after that
    is the one that a new generator writes for the hook alone, and what it finds
    is added to what it had found.  In this way the methods of a component are
    written. -/
theorem routine_independent_of_earlier (b : Blueprint) (catalog : Catalog) (options : Options)
    (start : Findings) (earlier : List Hook) {hook : Hook}
    (hentries : hookEntries (.of b catalog options) hook ≠ []) :
    (∃ methods m, WritesMethods (.of b catalog options) earlier { findings := start } methods m)
      ∧ (∀ methods m,
        WritesMethods (.of b catalog options) earlier { findings := start } methods m →
          m.active = [] ∧ m.fresh = []
            ∧ ∃ r alone after,
              (∀ r' m', WritesHook (.of b catalog options) hook {} r' m' ↔ r' = r ∧ m' = alone)
              ∧ (∀ r' m', WritesHook (.of b catalog options) hook m r' m' ↔ r' = r ∧ m' = after)
              ∧ after = { findings := m.findings.plus alone.findings }
              ∧ m.findings.Within after.findings
              ∧ ⟨hook, r⟩ ∈ (ComponentUnit.build (.of b catalog options)).methods)
      ∧ WritesMethods (.of b catalog options) Hook.all
        { findings := danglingReports (.of b catalog options) }
        (ComponentUnit.build (.of b catalog options)).methods
        { findings := (ComponentUnit.build (.of b catalog options)).findings } := by
  refine ⟨⟨_, _, Generator.writesMethods_iff.2 ⟨rfl, rfl⟩⟩, ?_,
    Generator.writesMethods_iff.2 ⟨rfl, rfl⟩⟩
  intro methods m hearlier
  obtain ⟨-, rfl⟩ := Generator.writesMethods_iff.1 hearlier
  -- of all that was written before only the findings are left, and they may be any
  generalize (writeMethods (.of b catalog options) earlier start).2 = f
  obtain ⟨hroutine, hfindings⟩ := writeRoutine_alone b catalog options
    (hookEntries (.of b catalog options) hook) f
  refine ⟨rfl, rfl, _, _, _, fun r' m' => Generator.writes_iff, ?_, rfl, f.within_plus _,
    alone_mem_methods b catalog options hentries⟩
  intro r' m'
  rw [WritesHook, Generator.writes_iff, hroutine, hfindings]

/-! ### Two methods that read one value -/

namespace SharedDice

/-- A random number that depends on a variable, printed at the start and at
    every frame. -/
def rolling : Blueprint where
  nodes := [⟨"begin", "start", "", {}, [], []⟩, ⟨"frame", "update", "", {}, [], []⟩,
    ⟨"first", "print", "", {}, [], []⟩, ⟨"second", "print", "", {}, [], []⟩,
    ⟨"dice", "random_number", "", {}, [], []⟩, ⟨"low", "get_variable", "", {}, [], []⟩]
  connections := [⟨"c1", ⟨"begin", "exec"⟩, ⟨"first", "exec"⟩⟩,
    ⟨"c2", ⟨"frame", "exec"⟩, ⟨"second", "exec"⟩⟩,
    ⟨"c3", ⟨"dice", "result"⟩, ⟨"first", "value"⟩⟩,
    ⟨"c4", ⟨"dice", "result"⟩, ⟨"second", "value"⟩⟩,
    ⟨"c5", ⟨"low", "value"⟩, ⟨"dice", "min"⟩⟩]

def temporaries : List (String × String) :=
  [("randomnumber_4_result", "number"), ("getvariable_5_value", "any")]

/-- The second method has an entry and temporaries of its own, and the first one has
    found helpers, by evaluation. -/
theorem update_has_entries_and_temporaries :
    hookEntries (.of rolling .builtin {}) .update ≠ []
      ∧ (writeMethods (.of rolling .builtin {}) [.start] {}).2.helpers ≠ []
      ∧ (writeRoutine (.of rolling .builtin {})
        (hookEntries (.of rolling .builtin {}) .update) {}).routine.temporaries = temporaries := by
  decide +kernel

/-- The value is computed in the method of every frame as if it had not been
    computed at the start. -/
theorem update_after_start :
    ∃ methods m r alone after, WritesMethods (.of rolling .builtin {}) [.start] {} methods m
      ∧ m.findings.helpers ≠ [] ∧ WritesHook (.of rolling .builtin {}) .update {} r alone
      ∧ WritesHook (.of rolling .builtin {}) .update m r after ∧ r.temporaries = temporaries := by
  obtain ⟨hentries, hhelpers, htemporaries⟩ := update_has_entries_and_temporaries
  obtain ⟨⟨methods, m, hearlier⟩, hindependent, -⟩ :=
    routine_independent_of_earlier rolling .builtin {} {} [.start] hentries
  obtain ⟨-, -, r, alone, after, halone, hafter, -⟩ := hindependent methods m hearlier
  have hwritten := (halone r alone).2 ⟨rfl, rfl⟩
  obtain ⟨-, hmemory⟩ := Generator.writesMethods_iff.1 hearlier
  obtain ⟨hroutine, -⟩ := Generator.writes_iff.1 hwritten
  have hfindings := congrArg Memory.findings hmemory
  dsimp only at hfindings
  rw [← hfindings] at hhelpers
  rw [← hroutine] at htemporaries
  exact ⟨methods, m, r, alone, after, hearlier, hhelpers, hwritten,
    (hafter r after).2 ⟨rfl, rfl⟩, htemporaries⟩

end SharedDice

end Blueprints
