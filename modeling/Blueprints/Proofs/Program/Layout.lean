import Blueprints.Proofs.Program.Building
import Blueprints.Proofs.Wiring.Scans

/-! # Layout

    A blueprint tells an editor more than it tells a compilation: where the
    nodes stand, what they are called and which values they show, its own id
    and a description.  Without all that it compiles to the same program
    (`compile_bare`), and so do any two blueprints that differ in nothing else
    (`compile_ignores_layout`). -/

namespace Blueprints

/-- A node less what only an editor shows: its name, its position and its
    preview values. -/
def Node.bare (n : Node) : Node := { n with name := "", position := {}, outputs := [] }

/-- A blueprint less what only an editor shows: its id, its description, and
    the same for its nodes. -/
def Blueprint.bare (b : Blueprint) : Blueprint :=
  { b with id := "", description := none, nodes := b.nodes.map Node.bare }

theorem Node.faithful_bare : Node.Faithful Node.bare :=
  ⟨fun _ => rfl, fun _ => rfl, fun _ => rfl⟩

namespace Blueprint

variable (b : Blueprint)

/-! ## Look-ups -/

theorem node?_bare (id : String) : b.bare.node? id = (b.node? id).map Node.bare := by
  show (b.nodes.map Node.bare).find? (·.id == id) = (b.nodes.find? (·.id == id)).map Node.bare
  rw [List.find?_map]
  rfl

theorem hasEnds_bare : b.bare.hasEnds = b.hasEnds := by
  ext c
  rw [hasEnds, hasEnds, node?_bare, node?_bare, Option.isSome_map, Option.isSome_map]

/-- Connections are filed in the same way. -/
theorem knows_bare : (Index.build b.bare).knows = (Index.build b).knows := by
  rw [Index.knows_build_eq, Index.knows_build_eq, hasEnds_bare]

theorem incoming_bare (e : Endpoint) :
    (Index.build b.bare).incoming e = (Index.build b).incoming e := by
  rw [Index.incoming_build, Index.incoming_build, knows_bare]
  rfl

theorem outgoing_bare (e : Endpoint) :
    (Index.build b.bare).outgoing e = (Index.build b).outgoing e := by
  rw [Index.outgoing_build, Index.outgoing_build, knows_bare]
  rfl

theorem leaving_bare (id : String) :
    (Index.build b.bare).leaving id = (Index.build b).leaving id := by
  rw [Index.leaving_build, Index.leaving_build, knows_bare]
  rfl

theorem dangling_bare : (Index.build b.bare).dangling = (Index.build b).dangling := by
  rw [Index.dangling_build, Index.dangling_build, knows_bare]
  rfl

/-- The same nodes are pure. -/
theorem isPure_bare (catalog : Catalog) (id : String) :
    (Index.build b.bare).isPure catalog id = (Index.build b).isPure catalog id := by
  rw [Index.isPure, Index.isPure, Index.node?_build, Index.node?_build, node?_bare]
  cases b.node? id with
  | none => rfl
  | some n => rfl

/-- Outputs are given the same names. -/
theorem allocate_bare (catalog : Catalog) :
    Temporaries.allocate b.bare catalog = Temporaries.allocate b catalog := by
  show (b.nodes.map Node.bare).zipIdx.foldl _ _ = b.nodes.zipIdx.foldl _ _
  rw [List.zipIdx_map, List.foldl_map]
  rfl

/-- The same nodes read variables. -/
theorem readsVariable_bare_iff (catalog : Catalog) (id : String) :
    ReadsVariable b.bare catalog id ↔ ReadsVariable b catalog id := by
  constructor
  · intro h
    induction h with
    | itself hn hkind =>
        obtain ⟨n, hmem, rfl⟩ := List.mem_map.1 hn
        exact ReadsVariable.itself (n := n) hmem hkind
    | through _ hc hpure ih =>
        rw [leaving_bare] at hc
        rw [isPure_bare] at hpure
        exact .through ih hc hpure
  · intro h
    induction h with
    | @itself n hn hkind =>
        exact ReadsVariable.itself (n := n.bare) (List.mem_map_of_mem hn) hkind
    | through _ hc hpure ih =>
        rw [← leaving_bare] at hc
        rw [← isPure_bare] at hpure
        exact .through ih hc hpure

/-! ## Programs -/

/-- **A blueprint and what is left of it without its layout correspond.** -/
theorem corresponds_bare (catalog : Catalog) (options : Options) :
    (Context.of b catalog options).Corresponds .same Node.bare (.of b.bare catalog options) where
  faithful := Node.faithful_bare
  nodes := rfl
  kind := rfl
  definition? := fun _ _ => rfl
  names := b.allocate_bare catalog
  node? := by
    intro id
    show (Index.build b.bare).node? id = ((Index.build b).node? id).map Node.bare
    rw [Index.node?_build, Index.node?_build, node?_bare]
  found := fun _ _ hn => Index.mem_of_node?_build hn
  feeding? := by
    intro e
    show ((Index.build b.bare).incoming e).head? = ((Index.build b).incoming e).head?
    rw [incoming_bare]
  isReader := by
    intro id
    -- the table of readers is known by the closed set that it stands for
    rw [Bool.eq_iff_iff, isReader_iff, isReader_iff]
    exact b.readsVariable_bare_iff catalog id
  ways := by
    intro n _ d _
    refine ⟨?_, fun p _ => b.outgoing_bare ⟨n.id, p.id⟩⟩
    show ((Index.build b.bare).leaving n.id).filter _ = ((Index.build b).leaving n.id).filter _
    rw [leaving_bare]
  announce := by
    intro e e' n d kind block he
    exact he.announce rfl rfl d kind block
  fanIn := by
    intro e e' n param he
    exact he.reportFanIn rfl (b.incoming_bare ⟨n.id, param⟩)

end Blueprint

/-- **A blueprint compiles without its layout** to the same program. -/
theorem compile_bare (b : Blueprint) (catalog : Catalog) (options : Options) (time : String) :
    compile b.bare catalog options time = compile b catalog options time := by
  have hcorresponds := b.corresponds_bare catalog options
  -- connections without an end are reported by their ids, which are kept
  have hstart : danglingReports (.of b catalog options)
      = danglingReports (.of b.bare catalog options) := by
    rw [danglingReports, danglingReports]
    show (Index.build b).dangling.foldl _ _ = (Index.build b.bare).dangling.foldl _ _
    rw [b.dangling_bare]
  have hkind : b.bare.kind = b.kind := rfl
  rw [compile, compile, hkind]
  cases b.kind with
  | function =>
      have hunit := (FunctionUnit.like_build hcorresponds hstart).eq
      dsimp only
      rw [hunit]
      rfl
  | component =>
      have hunit := (ComponentUnit.like_build hcorresponds hstart).eq
      dsimp only
      rw [hunit]
      rfl

/-- **A compilation ignores layout and unrelated definitions.**  Two blueprints
    that differ in names, positions and preview values of nodes, in their id and
    their description only compile to the same program, with any two catalogs
    that have the same definitions for their nodes, if no time is told. -/
theorem compile_ignores_layout {b b' : Blueprint} (hlayout : b'.bare = b.bare)
    {catalog catalog' : Catalog}
    (hdefined : ∀ n ∈ b.nodes, catalog'.find? n.definitionId = catalog.find? n.definitionId)
    {options : Options} (htime : options.headerTimestamp = false) (time time' : String) :
    compile b' catalog' options time' = compile b catalog options time :=
  calc compile b' catalog' options time'
      = compile b'.bare catalog' options time' := (compile_bare b' catalog' options time').symm
    _ = compile b catalog' options time' := by rw [hlayout, compile_bare]
    _ = compile b catalog options time' := compile_of_definedAlike hdefined options time'
    _ = compile b catalog options time := compile_of_untimed htime b catalog time' time

/-! ### A tidied canvas -/

namespace Tidying

/-- A random number is printed; the nodes are named and stand where `place`
    says. -/
def canvas (title : String) (place : Nat → Position) (preview : Fields) : Blueprint where
  id := title
  name := "Roll"
  kind := .function
  nodes := [⟨"begin", "function_start", "Begin" ++ title, place 0, [], []⟩,
    ⟨"say", "print", "Say" ++ title, place 1, [], []⟩,
    ⟨"dice", "random_number", "Dice" ++ title, place 2, [("max", .int 6)], preview⟩]
  connections := [⟨"c1", ⟨"begin", "exec"⟩, ⟨"say", "exec"⟩⟩,
    ⟨"c2", ⟨"dice", "result"⟩, ⟨"say", "value"⟩⟩, ⟨"c3", ⟨"gone", "exec"⟩, ⟨"say", "exec"⟩⟩]
  description := some title

def rough : Blueprint := canvas "rough" (fun _ => {}) []

def tidy : Blueprint :=
  canvas "tidy" (fun i => ⟨.ofInt i, .ofInt i⟩) [("result", .int 4)]

/-- No delays. -/
def trimmed : Catalog := (Catalog.builtin.remove "delay").2

/-- The nodes have moved, and the catalog has lost a definition that none of them
    uses, by evaluation. -/
theorem moved_and_trimmed :
    tidy.nodes.all (fun n => !rough.nodes.contains n) = true
      ∧ (trimmed.find? "delay").isSome ≠ (Catalog.builtin.find? "delay").isSome
      ∧ (∀ n ∈ rough.nodes, trimmed.find? n.definitionId = Catalog.builtin.find? n.definitionId)
      ∧ (compile rough .builtin {} "").diagnostics ≠ [] := by
  decide +kernel

/-- No node is the same, a definition is missing, and the programs are equal. -/
theorem tidy_compiles_as_rough :
    (∀ n ∈ tidy.nodes, n ∉ rough.nodes) ∧ trimmed ≠ .builtin
      ∧ compile tidy trimmed {} "later" = compile rough .builtin {} ""
      ∧ (compile tidy trimmed {} "later").diagnostics ≠ [] := by
  obtain ⟨hmoved, hmissing, hdefined, hreports⟩ := moved_and_trimmed
  have hlayout : tidy.bare = rough.bare := rfl
  have htime : ({} : Options).headerTimestamp = false := rfl
  have hsame := compile_ignores_layout hlayout hdefined htime "" "later"
  refine ⟨?_, ?_, hsame, ?_⟩
  · intro n hn hrough
    have hnew := List.all_eq_true.1 hmoved n hn
    rw [List.contains_iff_mem.2 hrough] at hnew
    exact absurd hnew Bool.false_ne_true
  · intro heq
    rw [heq] at hmissing
    exact hmissing rfl
  · rw [hsame]
    exact hreports

end Tidying

end Blueprints
