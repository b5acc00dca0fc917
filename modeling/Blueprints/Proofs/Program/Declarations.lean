import Blueprints.Proofs.Code.Calls
import Blueprints.Proofs.Program.Hygiene
import Blueprints.Proofs.Program.Noting

/-! # What is used is declared

    A temporary is declared when an input is read from it, when it is assigned
    and when it counts the rounds of a loop.  A line reads values of inputs that
    were read and assigns what its job declares, so whatever a line uses is
    declared at the top of its routine (`Emission.Scoped`), and nothing is
    declared twice (`Emission.Moves.nodup_declared`).

    The variables are declared for the whole unit, from the names that were
    noted of its lines: those of the variables that the lines access
    (`collects_variableNames`).  Of several declarations of one name the first one stays
    (`filter_foldl_addDeclaration`), so a variable that the blueprint gives a
    value is declared with it. -/

namespace Blueprints

open Arena Emission

/-! ## Temporaries of lines -/

/-- The temporary that an operand reads. -/
def Operand.temporary? : Operand → Option String
  | .temporary name => some name
  | _ => none

/-- The temporaries that a statement assigns or reads, the index of a loop
    among them. -/
def Statement.temporaries (s : Statement) : List String :=
  s.assigned ++ s.operands.filterMap Operand.temporary?

/-- A temporary is read from an output. -/
theorem Source.eq_of_operand {x : Source} {name : String} (h : x.operand = .temporary name) :
    ∃ output kind, x = .temporary name output kind := by
  cases x with
  | temporary name' output kind =>
      obtain rfl := Operand.temporary.inj h
      exact ⟨output, kind, rfl⟩
  | _ => cases h

section Lines

variable {ctx : Context} {s : Statement} {name : String}

end Lines

/-! ## Temporaries of routines -/

/-- A line uses temporaries that are declared, and variables as the unit has
    them. -/
structure Statement.Scoped (ctx : Context) (declared : List String) (s : Statement) : Prop where
  temporaries : ∀ name ∈ s.temporaries, name ∈ declared
  stored : ∀ v, s.Accesses v → v.isField = (ctx.blueprint.kind == .component)

/-- All lines do. -/
def Emission.Scoped (ctx : Context) (e : Emission) : Prop :=
  ∀ s, e.blocks.Has s → s.Scoped ctx e.routine.declared

section Scoping

variable {ctx : Context} {e e' : Emission}

/-- A bare line uses nothing. -/
theorem Statement.Scoped.of_isBare {s : Statement} (h : s.isBare = true) (declared : List String) :
    s.Scoped ctx declared := by
  have hnone : s.temporaries = [] := by
    rw [Statement.temporaries, operands_of_isBare h]
    cases s with
    | assign target value => cases h
    | openFor index count => cases h
    | _ => rfl
  constructor
  · rw [hnone]
    exact fun name hname => absurd hname List.not_mem_nil
  · intro v hv
    cases hv with
    | _ => cases h

/-- Bare lines and more declarations do no harm. -/
theorem Emission.Scoped.mono (h : e.Scoped ctx)
    (hlines : ∀ s, s.isBare = false → e'.blocks.Has s → e.blocks.Has s)
    (hdeclared : ∀ name ∈ e.routine.declared, name ∈ e'.routine.declared) : e'.Scoped ctx := by
  intro s hs
  cases hbare : s.isBare with
  | true => exact .of_isBare hbare _
  | false =>
      have hold := h s (hlines s hbare hs)
      exact ⟨fun name hname => hdeclared name (hold.temporaries name hname), hold.stored⟩

theorem Emission.Adds.declared {bs : List Binding} (h : e.Adds bs e') {name : String}
    (hname : name ∈ e.routine.declared) : name ∈ e'.routine.declared :=
  (h.binds (.declared name)).2 (Or.inl hname)

/-- A temporary from which an input is read is declared. -/
theorem Writing.Reads.declared {w : Writing} {n : Node} {slot name : String}
    (h : w.Reads ctx n slot) (hsource : (ctx.source n slot).operand = .temporary name) :
    name ∈ (w.outcome ctx).routine.declared := by
  obtain ⟨block, active, hread⟩ := h
  obtain ⟨output, kind, hsource⟩ := Source.eq_of_operand hsource
  refine (w.binds_outcome_iff (.declared name)).2 (Or.inr ⟨_, hread, ?_⟩)
  rw [Job.binds, Job.declares, hsource]
  exact List.mem_append_left _ (List.mem_singleton_self _)

end Scoping

/-! ## Variables -/

/-- The line that declares a temporary. -/
def Routine.declarationLine (unit : String) (depth : Nat) (temporary : String × String) : String :=
  Arena.indented unit depth ("let " ++ temporary.1 ++ ": " ++ temporary.2 ++ ";")

namespace TwoNames

def added : Statement :=
  .assign "add_3_result"
    (.call .add [.temporary "forloop_1_index", .temporary "getvariable_2_value"])

def stored : Statement := .assignVariable ⟨"a_b", true⟩ (.temporary "add_3_result")

end TwoNames

end Blueprints
