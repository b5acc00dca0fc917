import Blueprints.Proofs.Emit.Lockstep
import Blueprints.Proofs.Program.Correspondence

/-! # Programs in step

    Units that are the same but for the diagnostics have the same text and the
    same analysis.  So two blueprints that differ in their connections only,
    and have contexts that are alike, compile to the same program but for the
    diagnostics (`compile_alike`). -/

namespace Blueprints

/-- The same text and the same analysis. -/
structure Program.Alike (R : Reporting) (p p' : Program) : Prop where
  source : p'.source = p.source
  analysis : p'.analysis = p.analysis
  diagnostics : R p.diagnostics p'.diagnostics

section Units

variable {R : Reporting}
  {report : ∀ {ds ds' : Diagnostics} (d : Diagnostic), R ds ds' → R (ds.report d) (ds'.report d)}

/-- Functions that are alike but for the diagnostics have the same text and
    analysis. -/
theorem FunctionUnit.alike_of_like {u u' : FunctionUnit} (h : u.Like (R.likeness report) u')
    (b : Blueprint) (options : Options) (time : String) :
    u'.lines b options time = u.lines b options time ∧ u'.analysis = u.analysis := by
  obtain ⟨routine, parameters, returnType, findings⟩ := u
  obtain ⟨rfl, rfl, rfl, hfindings⟩ := h
  constructor
  · rw [FunctionUnit.lines, FunctionUnit.lines, hfindings.helpers, hfindings.variableNames]
    rfl
  · rw [FunctionUnit.analysis, FunctionUnit.analysis, hfindings.helpers]

/-- So have components. -/
theorem ComponentUnit.alike_of_like {u u' : ComponentUnit} (h : u.Like (R.likeness report) u')
    (b : Blueprint) (options : Options) (time : String) :
    u'.lines b options time = u.lines b options time ∧ u'.analysis = u.analysis := by
  have hmethods := h.methods_eq rfl
  constructor
  · rw [ComponentUnit.lines, ComponentUnit.lines, hmethods, h.findings.helpers,
      h.findings.variableNames]
  · rw [ComponentUnit.analysis, ComponentUnit.analysis, hmethods, h.findings.helpers]

end Units

/-- **Blueprints that differ in their connections only** compile to the same
    program, but for the diagnostics, if their contexts are alike. -/
theorem compile_alike {R : Reporting} {b : Blueprint} {connections : List Connection}
    {catalog catalog' : Catalog} {options : Options} (time : String)
    (h : (Context.of b catalog options).Alike R (.of { b with connections } catalog' options))
    (hstart : (danglingReports (.of b catalog options)).Alike R
      (danglingReports (.of { b with connections } catalog' options))) :
    (compile b catalog options time).Alike R
      (compile { b with connections } catalog' options time) := by
  obtain ⟨id, name, kind, nodes, before, values, description⟩ := b
  cases kind with
  | function =>
      have hunit := FunctionUnit.like_build h.corresponds hstart
      obtain ⟨hlines, hanalysis⟩ := FunctionUnit.alike_of_like hunit
        ⟨id, name, .function, nodes, before, values, description⟩ options time
      exact ⟨congrArg textOfLines hlines, hanalysis, hunit.findings.diagnostics⟩
  | component =>
      have hunit := ComponentUnit.like_build h.corresponds hstart
      obtain ⟨hlines, hanalysis⟩ := ComponentUnit.alike_of_like hunit
        ⟨id, name, .component, nodes, before, values, description⟩ options time
      exact ⟨congrArg textOfLines hlines, hanalysis, hunit.findings.diagnostics⟩

end Blueprints
