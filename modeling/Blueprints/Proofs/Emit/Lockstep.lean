import Blueprints.Proofs.Emit.Correspondence

/-! # Two compilations in step

    Two contexts are *alike* if a compilation looks up the same in both,
    except that it may report differently about inputs that several
    connections reach (`Context.Alike`).  Their catalogs need to agree on the
    nodes of the blueprint only.  Contexts that are alike correspond
    (`Context.Alike.corresponds`): compilations in them write the same
    routines, and what they find differs in the diagnostics only.

    How the diagnostics of the two hang together is a relation of them, which
    every report has to keep. -/

namespace Blueprints

/-! ## Alike but for the diagnostics -/

/-- How the diagnostics of two compilations hang together. -/
abbrev Reporting := Diagnostics → Diagnostics → Prop

/-- The same helpers and variables are found. -/
structure Findings.Alike (R : Reporting) (f f' : Findings) : Prop where
  helpers : f'.helpers = f.helpers
  variableNames : f'.variableNames = f.variableNames
  diagnostics : R f.diagnostics f'.diagnostics

namespace Emission

/-- An emission with other findings. -/
def withFindings (e : Emission) (f : Findings) : Emission := { e with findings := f }

/-- Two emissions are the same but for the diagnostics. -/
def Alike (R : Reporting) (e e' : Emission) : Prop :=
  ∃ f, e' = e.withFindings f ∧ e.findings.Alike R f

end Emission

section Likeness

variable {R : Reporting}

/-- A line is noted alike, whatever was reported. -/
theorem Findings.Alike.note {f f' : Findings} (h : f.Alike R f') (s : Statement) :
    (f.note s).Alike R (f'.note s) := by
  refine ⟨?_, ?_, h.diagnostics⟩
  · rw [Findings.note, Findings.note, h.helpers]
  · rw [Findings.note, Findings.note, h.variableNames]

/-- The same but for the diagnostics, as a likeness. -/
def Reporting.likeness (R : Reporting)
    (report : ∀ {ds ds' : Diagnostics} (d : Diagnostic), R ds ds' → R (ds.report d) (ds'.report d)) :
    Likeness :=
  .ofFindings (Findings.Alike R) Findings.Alike.note
    fun h d => ⟨h.helpers, h.variableNames, report d h.diagnostics⟩

/-- To be alike in this sense is to be the same but for the diagnostics. -/
theorem Emission.like_iff_alike
    {report : ∀ {ds ds' : Diagnostics} (d : Diagnostic), R ds ds' → R (ds.report d) (ds'.report d)}
    {e e' : Emission} : e.Like (R.likeness report) e' ↔ e.Alike R e' := by
  constructor
  · intro h
    obtain ⟨routine, findings, path, fresh⟩ := e
    obtain ⟨rfl, hfindings, rfl, rfl⟩ := h
    exact ⟨_, rfl, hfindings⟩
  · rintro ⟨f, rfl, hf⟩
    exact ⟨rfl, hf, rfl, rfl⟩

end Likeness

/-! ## Contexts -/

theorem Catalog.kind?_congr {catalog catalog' : Catalog} {n : Node}
    (h : catalog'.find? n.definitionId = catalog.find? n.definitionId) :
    catalog'.kind? n = catalog.kind? n := by
  rw [kind?, kind?, h]

/-- A node is pure by what it and its definition are. -/
theorem Index.isPure_congr {index index' : Index} {catalog catalog' : Catalog} {id : String}
    (hnode : index'.node? id = index.node? id)
    (h : ∀ n, index.node? id = some n → catalog'.kind? n = catalog.kind? n) :
    index'.isPure catalog' id = index.isPure catalog id := by
  rw [isPure, isPure, hnode]
  cases hn : index.node? id with
  | none => rfl
  | some n =>
      dsimp only
      rw [Catalog.isPure, Catalog.isPure, h n hn]

/-- Two contexts in which a compilation looks up the same, reports about the
    connections that reach an input apart. -/
structure Context.Alike (R : Reporting) (ctx ctx' : Context) : Prop where
  catalog : ∀ n ∈ ctx.blueprint.nodes,
    ctx'.catalog.find? n.definitionId = ctx.catalog.find? n.definitionId
  options : ctx'.options = ctx.options
  nodes : ctx'.blueprint.nodes = ctx.blueprint.nodes
  kind : ctx'.blueprint.kind = ctx.blueprint.kind
  names : ctx'.names = ctx.names
  node? : ∀ id, ctx'.index.node? id = ctx.index.node? id
  found : ∀ id n, ctx.index.node? id = some n → n ∈ ctx.blueprint.nodes
  feeding? : ∀ e, ctx'.index.feeding? e = ctx.index.feeding? e
  isReader : ∀ id, ctx'.isReader id = ctx.isReader id
  ways : ∀ n ∈ ctx.blueprint.nodes, ∀ d, ctx.definition? n = some d → ctx.SameWays ctx' n d
  report : ∀ {ds ds' : Diagnostics} (d : Diagnostic), R ds ds' → R (ds.report d) (ds'.report d)
  fanIn : ∀ {e e' : Emission} (n : Node) (param : String), e.Alike R e' →
    (e.reportFanIn ctx n param).Alike R (e'.reportFanIn ctx' n param)

/-- **Contexts that are alike correspond**, each node to itself. -/
theorem Context.Alike.corresponds {R : Reporting} {ctx ctx' : Context} (h : ctx.Alike R ctx') :
    ctx.Corresponds (R.likeness h.report) (fun n => n) ctx' where
  faithful := Node.faithful_self
  nodes := by rw [h.nodes, List.map_id']
  kind := h.kind
  definition? := h.catalog
  names := h.names
  node? := by
    intro id
    rw [h.node?, Option.map_id_fun']
    rfl
  found := h.found
  feeding? := h.feeding?
  isReader := h.isReader
  ways := h.ways
  announce := by
    intro e e' n d kind block he
    exact he.announce (by rw [h.options]) rfl d kind block
  fanIn := by
    intro e e' n param he
    exact Emission.like_iff_alike.2 (h.fanIn n param (Emission.like_iff_alike.1 he))

end Blueprints
